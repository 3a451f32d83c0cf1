import Runbook.Proofs.IndentedJson
import Runbook.Proofs.Publication
import Runbook.Proofs.Running
import Runbook.Proofs.Snapshots
import Runbook.Proofs.Streaming
import Runbook.Run.Flow

/-!
# What is exported is read back

A task that exports the variables writes their snapshot as indented JSON. A task that reads that
file, and is asked to keep its document, reads it twice: once in chunks for the rows, and once as a
whole for the document. If all variables are trees, both readings give the snapshot.

* `FileTree.content?_writeAt`, `FileTree.wayTo_of_directories`: a file that has been written.
* `isTree_snapshot`: a snapshot of trees is a tree.
* `readRows_durable`: the only row of a text that lasts.
* `Task.Exports.execute`, `Task.Imports.execute`: what the two tasks do.
* `Task.import_export`: a successful export is read back.
-/

namespace Runbook

open Runbook.Text Runbook.Records Runbook.Json

/-! ### Files -/

namespace FileTree

variable {t t' : FileTree} {l : Location} {c : FileContent} {way : List String}

theorem find?_writeAt (files : List (List String × FileContent)) (way : List String)
    (c : FileContent) : (writeAt files way c).find? (·.1 == way) = some (way, c) := by
  induction files with
  | nil => simp [writeAt]
  | cons file files ih =>
    obtain ⟨w, old⟩ := file
    rw [writeAt]
    by_cases hw : w = way
    · simp [hw]
    · simp [hw, ih]

theorem write_eq (hway : t.wayTo l = .ok way) :
    t.write l c = .ok { t with files := writeAt t.files way c } := by
  rw [write, hway]

/-- **A file that is written** has the content. -/
theorem content?_writeAt (t : FileTree) (way : List String) (c : FileContent) :
    content? { t with files := writeAt t.files way c } way = some c := by
  rw [content?, find?_writeAt]
  rfl

theorem follow_of_directories {start : List String} (h : t'.directories = t.directories)
    {parts : List String} (hfollow : t.follow start parts = .ok way) :
    t'.follow start parts = .ok way := by
  have hdirectory : ∀ w, t'.isDirectory w = t.isDirectory w := fun w => by
    rw [isDirectory, isDirectory, h]
  induction parts generalizing start with
  | nil => exact hfollow
  | cons part parts ih =>
    rw [follow] at hfollow ⊢
    rw [hdirectory]
    split at hfollow
    · cases hfollow
    · rename_i hopen
      split at hfollow
      · cases hfollow
      · rename_i hshort
        rw [if_neg hopen, if_neg hshort]
        exact ih hfollow

/-- **Writing files** changes no way to a file. -/
theorem wayTo_of_directories (h : t'.directories = t.directories) (hway : t.wayTo l = .ok way) :
    t'.wayTo l = .ok way := by
  rw [wayTo] at hway ⊢
  split at hway
  · cases hway
  · rename_i hplain
    rw [if_neg hplain]
    cases hfollow : t.follow [l.root] l.parts with
    | error e =>
      rw [hfollow] at hway
      cases hway
    | ok w =>
      rw [hfollow] at hway
      rw [follow_of_directories h hfollow]
      simp only [isDirectory, h] at hway ⊢
      exact hway

/-- The text of a file whose lines end as they are read. -/
theorem readText_of_content {cs : List Char} (hway : t.wayTo l = .ok way)
    (hcontent : t.content? way = some (.text cs)) (h : '\r' ∉ cs) : t.readText l = .ok cs := by
  have hread : t.read l = .ok (.text cs) := by rw [read, hway]; simp only [hcontent]
  simp only [readText, hread, FileContent.decode, Document.unifyLines_eq_self h]

end FileTree

/-! ### Snapshots -/

/-- **A snapshot of trees** is a tree. -/
theorem isTree_snapshot {s : Store} (h : ∀ e ∈ s.entries, IsTree e.2) :
    IsTree (.dict s.snapshot) := by
  obtain ⟨others, hothers, hnodup, -⟩ := Entries.exists_ofList_named s.members
  rw [Store.snapshot_eq, hothers]
  refine .dict hnodup fun m hm => ?_
  -- what a map keeps of members is a member
  have hfield := (Entries.field?_named hnodup).2 hm
  rw [← hothers, Entries.field?_ofList_named, Entries.lastNamed_eq_some] at hfield
  obtain ⟨before, after, hmembers, -⟩ := hfield
  have hmem : m ∈ s.members := by
    rw [hmembers]
    exact List.mem_append_right before List.mem_cons_self
  obtain ⟨e, he, rfl⟩ := List.mem_map.1 hmem
  exact h e he

/-! ### The rows of an exported file -/

section Rows

variable {cs : List Char} {members : Entries} {files : FileTree} {file : Location}

/-- The document of a text that lasts: one object, and nothing around it. -/
def soleDocument (h : Durable cs (.dict members)) : Document where
  layout := .sequence
  parts := [⟨[], ⟨cs, members, h.parse⟩⟩]
  closing := []
  fits := ⟨isGap_nil, by simp, isGap_nil⟩

theorem text_soleDocument (h : Durable cs (.dict members)) : (soleDocument h).text = cs := by
  simp [Document.text, soleDocument, partsText]

/-- **A text that lasts is not cut** in a number, wherever a chunk ends. -/
theorem not_isCut_soleDocument (h : Durable cs (.dict members)) (chunk : Nat) :
    ¬ (soleDocument h).IsCut chunk := by
  rintro ⟨before, p, after, part, rest, hparts, hpart, -, k, hk⟩
  have hp : p ∈ (soleDocument h).parts := by rw [hparts]; simp
  obtain rfl := List.mem_singleton.1 hp
  obtain ⟨c, t, hcs, hspace, -⟩ := h.begins
  have hprefix : part <+: [] ++ c :: t := by
    rw [List.nil_append, ← hcs]
    exact ⟨rest, hpart.symm⟩
  have hskip := skipSpace_prefix isGap_nil hspace hprefix
  rw [← hcs] at hskip
  exact h.cuttable.not_overlong hskip (overlong_of_parse hk)

/-- **The rows of a text that lasts**, read in chunks: the one object. -/
theorem readRows_durable (h : Durable cs (.dict members)) (hfile : files.readText file = .ok cs)
    {columns batch : Value} {size : Int} (hcolumns : columns.isTruthy = false)
    (hbatch : batchSize batch = .ok size) :
    readRows ⟨file, false, none, []⟩ columns batch files = .ok [.dict members] := by
  have hitems : (columns.orElse (.list [])).items = .ok [] := by
    rw [Value.orElse, if_neg (by simp [hcolumns])]
    rfl
  rw [← text_soleDocument h] at hfile
  obtain ⟨r, hopen, hread⟩ :=
    Document.readAll_outcome size (show 1 ≤ defaultChunk by decide) hfile
  have hrows : (r.readAll size).1 = .ok [.dict members] := by
    rcases hread with ⟨hok, -⟩ | ⟨-, hcut⟩
    · exact hok
    · exact absurd hcut (not_isCut_soleDocument h defaultChunk)
  have hreader : (Reader.ofSettings ⟨file, false, none, []⟩ defaultChunk).openFile files = .ok r :=
    hopen
  have hall : readAllRows r batch = .ok [.dict members] := by
    rw [readAllRows, hbatch]
    exact hrows
  simp only [readRows, hitems, bind, Except.bind, hreader, hall]

theorem readDocument_durable (h : Durable cs (.dict members))
    (hfile : files.readText file = .ok cs) : readDocument file files = .ok (.dict members) := by
  simp only [readDocument, hfile, bind, Except.bind, h.parse]

end Rows

namespace Task

/-- **A task names a file**: the way that its setting leads to. -/
def NamesFile (t : Task) (env : Surroundings) (w : World) (way : List String) : Prop :=
  ∃ v text path, t.required "file" = .ok v ∧ v.text = .ok text ∧ w.store.resolve text = .ok path ∧
    w.files.wayTo (env.locate path) = .ok way

/-- A task names one file only. -/
theorem NamesFile.unique {t : Task} {env : Surroundings} {w : World} {way other : List String}
    (h : t.NamesFile env w way) (h' : t.NamesFile env w other) : way = other := by
  obtain ⟨v, text, path, hv, htext, hpath, hway⟩ := h
  obtain ⟨v', text', path', hv', htext', hpath', hway'⟩ := h'
  obtain rfl := Except.ok.inj (hv.symm.trans hv')
  obtain rfl := Except.ok.inj (htext.symm.trans htext')
  obtain rfl := Except.ok.inj (hpath.symm.trans hpath')
  exact Except.ok.inj (hway.symm.trans hway')

/-! ### Exporting -/

/-- A task that exports the variables. -/
structure Exports (t : Task) : Prop where
  kind : TaskKind.ofName t.type = .ok .maintain
  action : ∃ v, t.required "action" = .ok v ∧ v.isText "export" = true

section Exporting

variable {t : Task} {env : Surroundings} {workers : Value}
  {nested : Option (Run (List NestedResult))} {w w' : World} {way : List String}

theorem Exports.execute_eq (h : t.Exports) :
    t.execute env workers nested w = t.exportAll env w := by
  obtain ⟨v, hv, haction⟩ := h.action
  have htext : v.asText? = some "export" := by simpa [Value.isText] using haction
  rw [execute, Run.bind_lift h.kind]
  show maintain t env w = _
  rw [maintain, Run.bind_lift hv]
  simp [Value.isText, htext]

/-- A task that has exported the variables names a file. -/
theorem Exports.namesFile (h : t.Exports) {output : String} {next : Option String}
    (hdone : t.execute env workers nested w = (.ok (.done output next), w')) :
    ∃ way, t.NamesFile env w way := by
  rw [h.execute_eq, exportAll, Run.bind_ok (Run.store_run w)] at hdone
  obtain ⟨v, hv, hdone⟩ := Run.exists_of_bind_lift_ok hdone
  obtain ⟨text, htext, hdone⟩ := Run.exists_of_bind_lift_ok hdone
  obtain ⟨path, hpath, hdone⟩ := Run.exists_of_bind_lift_ok hdone
  simp only [Run.bind_ok (Run.store_run w), Run.bind_ok (Run.attempt_run _ _)] at hdone
  cases hway : w.files.wayTo (env.locate path) with
  | ok way => exact ⟨way, v, text, path, hv, htext, hpath, hway⟩
  | error e =>
    -- without a way nothing is written, and the task fails in one manner or the other
    simp only [Run.writeFile, FileTree.write, hway] at hdone
    by_cases he : e.isFileError = true
    · rw [if_pos he] at hdone
      cases hdone
    · rw [if_neg he] at hdone
      cases hdone

/-- **A task that exports the variables** writes to the file that it names what comes about of their
text, and changes nothing else; it fails if the text is not whole. -/
theorem Exports.execute_way (h : t.Exports) (hnames : t.NamesFile env w way) (workers : Value)
    (nested : Option (Run (List NestedResult))) :
    ∃ output, t.execute env workers nested w =
      (match (indented 0 (.dict w.store.snapshot)).failure with
        | some e => .error e
        | none => .ok (.done output none),
      { w with
        files := { w.files with
          files := FileTree.writeAt w.files.files way
            (.text (indented 0 (.dict w.store.snapshot)).chars) } }) := by
  obtain ⟨v, text, path, hv, htext, hpath, hway⟩ := hnames
  generalize hwritten : indented 0 (.dict w.store.snapshot) = written
  have hwrite : Run.writeFile (env.locate path) (.text written.chars) w = (.ok (), { w with
      files := { w.files with
        files := FileTree.writeAt w.files.files way (.text written.chars) } }) := by
    rw [Run.writeFile, FileTree.write_eq hway]
  rw [h.execute_eq, exportAll, Run.bind_ok (Run.store_run w), Run.bind_lift hv, Run.bind_lift htext,
    Run.bind_lift hpath]
  simp only [Run.bind_ok (Run.store_run w), Run.bind_ok (Run.attempt_run _ _), hwritten, hwrite]
  cases written.failure with
  | some e => exact ⟨"", rfl⟩
  | none => exact ⟨_, rfl⟩

/-- **A task that exports variables with a text** writes it to the file that it names, and changes
nothing else. -/
theorem Exports.execute (h : t.Exports) (hnames : t.NamesFile env w way) {cs : List Char}
    (hcs : indented 0 (.dict w.store.snapshot) = .text cs) (workers : Value)
    (nested : Option (Run (List NestedResult))) :
    ∃ output, t.execute env workers nested w = (.ok (.done output none), { w with
      files := { w.files with files := FileTree.writeAt w.files.files way (.text cs) } }) := by
  obtain ⟨output, hrun⟩ := h.execute_way hnames workers nested
  rw [hcs] at hrun
  exact ⟨output, hrun⟩

end Exporting

/-! ### Importing -/

/-- A task that reads the rows of a file and keeps its document, under a scope that is not blank. It
asks for all of the document and under the usual name, and it has passed its check. -/
structure Imports (t : Task) (scope : String) : Prop where
  kind : TaskKind.ofName t.type = .ok .readFile
  check : t.checkSelf = .ok ()
  keeps : (t.setting "keep_document").isTruthy = true
  columns : (t.setting "columns").isTruthy = false
  path : arrayPath (t.setting "json_array_path") = .ok none
  output : t.settingOr "output" (.str "Rows") = .str "Rows"
  scope_text : t.scope.text = .ok scope
  nonblank : isBlankText scope = false

section Importing

variable {t : Task} {scope : String} {env : Surroundings} {w : World} {way : List String}

theorem demand_ok {holds : Bool} {fault : SettingsFault} (h : demand holds fault = .ok ()) :
    holds = true := by
  cases holds with
  | true => rfl
  | false => cases h

/-- What the check says of a task that keeps its document. -/
theorem Imports.checked (h : t.Imports scope) : (t.setting "jsonl").isTruthy = false ∧
    ∃ size, batchSize (t.settingOr "batch_size" (.int defaultBatch)) = .ok size := by
  have hcheck : checkReadFile t = .ok () := by
    have hself := h.check
    rw [checkSelf, h.kind] at hself
    show TaskKind.readFile.check t = .ok ()
    cases hkind : TaskKind.readFile.check t with
    | ok _ => rfl
    | error e =>
      simp only [Except.bind, hkind] at hself
      split at hself
      · cases hname : t.displayName.text with
        | error e => rw [hname] at hself; cases hself
        | ok name => rw [hname] at hself; cases hself
      · cases hself
  rw [checkReadFile] at hcheck
  obtain ⟨-, -, hcheck⟩ := exists_of_bind_ok hcheck
  obtain ⟨-, -, hcheck⟩ := exists_of_bind_ok hcheck
  obtain ⟨⟨⟩, hlines, hbatch⟩ := exists_of_bind_ok hcheck
  have hlines := demand_ok hlines
  have hbatch := demand_ok hbatch
  rw [h.keeps] at hlines
  refine ⟨by simpa using hlines, ?_⟩
  obtain ⟨size, hsize, -⟩ := (Option.any_eq_true _ _).1 hbatch
  exact ⟨size, by simp only [batchSize, hsize]⟩

theorem write_scoped (h : t.Imports scope) (name : String) (hname : isBlankText name = false)
    (v : Value) (w : World) : Run.write (·.setScoped t.scope (.str name) v) w =
      (.ok (), { w with store := w.store.put (trim scope, trim name) v }) := by
  have hset : w.store.setScoped t.scope (.str name) v =
      .ok (w.store.put (trim scope, trim name) v) := by
    rw [Store.setScoped_text t.scope_ne_null h.scope_text, h.nonblank, hname]
    rfl
  simp only [Run.write, Run.onStore, hset]

/-- The rows of a file with a text that lasts, and the document that is stored. -/
theorem Imports.readRecords (h : t.Imports scope) {file : Location} {cs : List Char}
    {members : Entries} (hfile : w.files.readText file = .ok cs)
    (hdurable : Durable cs (.dict members)) :
    t.readRecords ⟨file, false, none, []⟩ w = (.ok [.dict members],
      { w with store := w.store.put (trim scope, "Document") (.dict members) }) := by
  obtain ⟨-, size, hsize⟩ := h.checked
  have hrows := readRows_durable hdurable hfile h.columns hsize
  have hdocument := readDocument_durable hdurable hfile
  have hfiles : Run.files w = (.ok w.files, w) := rfl
  have htrim : trim "Document" = "Document" := rfl
  have hwrite := write_scoped h "Document" rfl (.dict members) w
  rw [htrim] at hwrite
  rw [Task.readRecords, Run.bind_ok hfiles, Run.bind_lift hrows, if_pos h.keeps,
    Run.bind_lift hdocument, Run.bind_ok hwrite]
  rfl

/-- **A task that reads a text that lasts** stores its value as the document and as the only row. -/
theorem Imports.execute (h : t.Imports scope) (hnames : t.NamesFile env w way) {cs : List Char}
    {members : Entries} (hcontent : w.files.content? way = some (.text cs))
    (hdurable : Durable cs (.dict members)) (workers : Value)
    (nested : Option (Run (List NestedResult))) :
    ∃ output, t.execute env workers nested w = (.ok (.done output none), { w with
      store := (w.store.put (trim scope, "Document") (.dict members)).put (trim scope, "Rows")
        (.list [.dict members]) }) := by
  obtain ⟨v, text, path, hv, htext, hpath, hway⟩ := hnames
  have hfile := FileTree.readText_of_content hway hcontent hdurable.no_return
  have hrecords := h.readRecords hfile hdurable
  have hlines := h.checked.1
  have hrows : trim "Rows" = "Rows" := rfl
  have houtput : (t.settingOr "output" (.str "Rows")).text = .ok "Rows" := by rw [h.output]; rfl
  rw [Task.execute, Run.bind_lift h.kind]
  simp only
  rw [readFile, Run.bind_ok (Run.store_run w), Run.bind_lift hv, Run.bind_lift htext,
    Run.bind_lift hpath, hlines, Run.bind_lift h.path, Run.bind_lift houtput,
    Run.bind_ok (Run.attempt_run _ _), hrecords]
  simp only
  have hwrite := write_scoped h "Rows" rfl (.list [.dict members])
    { w with store := w.store.put (trim scope, "Document") (.dict members) }
  rw [hrows] at hwrite
  rw [Run.bind_ok hwrite, Run.bind_lift h.scope_text]
  exact ⟨_, rfl⟩

end Importing

/-- **What is exported is read back.** All variables are trees, and a task has exported them. It has
named a file then; and wherever that file still has the content it was given, a task that reads it
and keeps its document comes to its end, stores the snapshot of the export as the document and as
the only row, and changes nothing else. -/
theorem import_export {t : Task} {env : Surroundings} {workers : Value}
    {nested : Option (Run (List NestedResult))} {w w' : World} {output : String}
    {next : Option String} (htrees : ∀ e ∈ w.store.entries, IsTree e.2) (hexports : t.Exports)
    (hdone : t.execute env workers nested w = (.ok (.done output next), w')) :
    ∃ way, t.NamesFile env w way ∧
      ∀ {reading : Task} {scope : String} {around : Surroundings} {v : World},
        reading.Imports scope → reading.NamesFile around v way →
        v.files.content? way = w'.files.content? way →
          ∀ workers nested, ∃ shown v', reading.execute around workers nested v =
              (.ok (.done shown none), v') ∧
            v'.store.lookup? (trim scope, "Document") = some (.dict w.store.snapshot) ∧
            v'.store.lookup? (trim scope, "Rows") = some (.list [.dict w.store.snapshot]) ∧
            v' = { v with
              store := (v.store.put (trim scope, "Document") (.dict w.store.snapshot)).put
                (trim scope, "Rows") (.list [.dict w.store.snapshot]) } := by
  obtain ⟨way, hway⟩ := hexports.namesFile hdone
  obtain ⟨cs, hcs, hdurable⟩ := exists_durable (isTree_snapshot htrees) 0
  obtain ⟨_, hexport⟩ := hexports.execute hway hcs workers nested
  rw [hexport] at hdone
  obtain ⟨-, rfl⟩ := Prod.mk.inj hdone
  refine ⟨way, hway, fun himports hnames hsame workers nested => ?_⟩
  have hcontent := hsame.trans (FileTree.content?_writeAt w.files way (.text cs))
  obtain ⟨shown, hexecute⟩ := himports.execute hnames hcontent hdurable workers nested
  refine ⟨shown, _, hexecute, ?_, ?_, rfl⟩
  · simp [Store.lookup?, Store.put, Variables.lookup?_put]
  · simp [Store.lookup?, Store.put, Variables.lookup?_put]

/-- A task that exports the variables to a file. -/
def exportingTask : Task :=
  .mk "1" "variables" .null .null .null .stop [(.str "action", .str "export"),
    (.str "file", .str "out.json")] []

/-- A task that reads the file. -/
def importingTask : Task :=
  .mk "2" "json_file" .null (.str "Copy") .null .stop [(.str "file", .str "./out.json"),
    (.str "keep_document", .bool true)] []

/-- The directory that all locations are in. -/
def topDirectory : Surroundings := ⟨⟨"", []⟩, [], []⟩

/-- A world with a character beyond the basic plane, a control character and empty parts. -/
def astralWorld : World :=
  .start ((Store.empty .throwError).put ("A", "T")
    (.list [.str (String.ofList ['\x01', Char.ofNat 0x1F600]), .dict (Entries.named []),
      .bool true])) ⟨[], []⟩

theorem isTree_astralWorld : ∀ e ∈ astralWorld.store.entries, IsTree e.2 := by
  intro e he
  obtain rfl := List.mem_singleton.1 he
  refine .list ?_
  simp only [List.mem_cons, List.not_mem_nil, or_false, forall_eq_or_imp, forall_eq]
  exact ⟨.str _, .dict List.nodup_nil (by simp), .bool true⟩

theorem exports_exportingTask : exportingTask.Exports :=
  ⟨rfl, _, rfl, rfl⟩

theorem imports_importingTask : importingTask.Imports "Copy" :=
  ⟨rfl, rfl, rfl, rfl, rfl, rfl, rfl, rfl⟩

/-- The exported variable comes back under another scope. -/
theorem import_export_astralWorld : ∃ output w',
    exportingTask.execute topDirectory .null none astralWorld = (.ok (.done output none), w') ∧
    ∃ shown v', importingTask.execute topDirectory .null none w' = (.ok (.done shown none), v') ∧
      v'.store.lookup? ("Copy", "Document") = some (.dict astralWorld.store.snapshot) ∧
      v'.store.lookup? ("Copy", "Rows") = some (.list [.dict astralWorld.store.snapshot]) := by
  obtain ⟨cs, hcs, -⟩ := exists_durable (isTree_snapshot isTree_astralWorld) 0
  have hnames : exportingTask.NamesFile topDirectory astralWorld ["", "out.json"] :=
    ⟨_, _, _, rfl, rfl, rfl, rfl⟩
  obtain ⟨output, hdone⟩ := exports_exportingTask.execute hnames hcs .null none
  refine ⟨output, _, hdone, ?_⟩
  obtain ⟨way, hway, hback⟩ := import_export isTree_astralWorld exports_exportingTask hdone
  obtain rfl := hway.unique hnames
  have hwayTo : astralWorld.files.wayTo (topDirectory.locate "./out.json") =
      .ok ["", "out.json"] := rfl
  have hreads : importingTask.NamesFile topDirectory { astralWorld with
      files := { astralWorld.files with
        files := FileTree.writeAt astralWorld.files.files ["", "out.json"] (.text cs) } }
      ["", "out.json"] :=
    ⟨_, _, "./out.json", rfl, rfl, rfl, FileTree.wayTo_of_directories rfl hwayTo⟩
  obtain ⟨shown, v', hread, hdocument, hrows, -⟩ :=
    hback imports_importingTask hreads rfl .null none
  exact ⟨shown, v', hread, hdocument, hrows⟩

end Task

end Runbook
