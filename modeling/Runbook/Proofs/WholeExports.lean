import Runbook.Proofs.ExportImport
import Runbook.Proofs.JsonForms

/-!
# Exports that are whole

A task that exports the variables opens its file before it knows whether JSON has a form for all of
them. If it has, the file holds one object with the names of the snapshot. If it has not, the task
fails with the error of the first value without a form, and the file holds what was written in front
of it: the content that the file had is gone, unless it was that very text.

* `Store.exists_snapshot_named`, `Store.hasForm_snapshot_iff`: the names and the form of a snapshot.
* `FileTree.decoded?`: what a file shows to who reads it.
* `CompleteOrTraceless`: an export that is complete or leaves no trace.
* `Exports.complete`, `Exports.breaksOff`: an export with a form and one without.
* `exports_completeOrTraceless_iff`: **which exports are complete or leave no trace**.
-/

namespace Runbook

open Runbook.Text Runbook.Json

/-! ### Snapshots -/

namespace Store

/-- A snapshot has members with different names. -/
theorem exists_snapshot_named (s : Store) :
    ∃ members, s.snapshot = Entries.named members ∧ (members.map (·.1)).Nodup := by
  obtain ⟨members, hmembers, hnodup, -⟩ := Entries.exists_ofList_named s.members
  exact ⟨members, by rw [snapshot_eq, hmembers], hnodup⟩

/-- **A snapshot has a form** exactly if each of its values has one. -/
theorem hasForm_snapshot_iff (s : Store) :
    (Value.dict s.snapshot).hasForm = true ↔ ∀ e ∈ s.snapshot, e.2.hasForm = true := by
  obtain ⟨members, hmembers, -⟩ := s.exists_snapshot_named
  rw [hmembers, Value.hasForm, entriesHaveForm_named]

/-- **The text of a snapshot** with a form: one object with the keys of the snapshot. -/
theorem exists_written_snapshot (s : Store) (h : ∀ e ∈ s.snapshot, e.2.hasForm = true) :
    ∃ cs entries, indented 0 (.dict s.snapshot) = .text cs ∧ Written cs (.dict entries) ∧
      entries.map (·.1) = s.snapshot.map (·.1) := by
  have hform := s.hasForm_snapshot_iff.2 h
  obtain ⟨members, hmembers, hnames⟩ := s.exists_snapshot_named
  rw [hmembers] at hform ⊢
  obtain ⟨cs, others, hcs, hwritten, hothers⟩ := exists_written_named hnames hform 0
  refine ⟨cs, _, hcs, hwritten, ?_⟩
  have hkeys : ∀ ms : List (String × Value),
      (Entries.named ms).map (·.1) = (ms.map (·.1)).map Value.str := fun ms => by
    rw [Entries.named, List.map_map, List.map_map]
    rfl
  rw [hkeys, hkeys, hothers]

end Store

/-! ### What an export leaves -/

/-- What the file at a way shows to who reads it: its text up to the first fault, if there is a
file. -/
def FileTree.decoded? (t : FileTree) (way : List String) : Option Utf8.Decoded :=
  (t.content? way).map FileContent.decode

namespace Task

/-- The text that an export writes, as far as it comes about. -/
def exportedText (w : World) : List Char :=
  (indented 0 (.dict w.store.snapshot)).chars

/-- **Complete or without a trace**: the task is done, and the file that it names holds one object
with the keys of the snapshot; or it is not done, and the file that it names shows what it showed
before. -/
inductive CompleteOrTraceless (t : Task) (env : Surroundings) (w : World) :
    Except Error Outcome × World → Prop
  | complete {output : String} {next : Option String} {w' : World} {way : List String}
    {cs : List Char} {entries : Entries} (hway : t.NamesFile env w way)
    (hcontent : w'.files.content? way = some (.text cs)) (hparse : parse cs = .ok (.dict entries))
    (hkeys : entries.map (·.1) = w.store.snapshot.map (·.1)) :
    CompleteOrTraceless t env w (.ok (.done output next), w')
  | traceless {result : Except Error Outcome} {w' : World}
    (hresult : ∀ output next, result ≠ .ok (.done output next))
    (hfile : ∀ way, t.NamesFile env w way → w'.files.decoded? way = w.files.decoded? way) :
    CompleteOrTraceless t env w (result, w')

section Exporting

variable {t : Task} {env : Surroundings} {w w' : World} {way : List String} {e : Error}

/-- **An export with a form** is complete. -/
theorem Exports.complete (h : t.Exports) (hway : t.NamesFile env w way)
    (hforms : ∀ e ∈ w.store.snapshot, e.2.hasForm = true) (workers : Value)
    (nested : Option (Run (List NestedResult))) :
    CompleteOrTraceless t env w (t.execute env workers nested w) := by
  obtain ⟨cs, entries, hcs, hwritten, hkeys⟩ := w.store.exists_written_snapshot hforms
  obtain ⟨output, hrun⟩ := h.execute hway hcs workers nested
  rw [hrun]
  exact .complete hway (FileTree.content?_writeAt _ _ _) hwritten.parse hkeys

/-- **An export without a form** breaks off: it fails, and leaves the text in front of what has no
form in the file. -/
theorem Exports.breaksOff (h : t.Exports) (hway : t.NamesFile env w way)
    (hforms : ¬ ∀ e ∈ w.store.snapshot, e.2.hasForm = true) (workers : Value)
    (nested : Option (Run (List NestedResult))) :
    ∃ e, (indented 0 (.dict w.store.snapshot)).failure = some e ∧
      t.execute env workers nested w = (.error e, { w with
        files := { w.files with
          files := FileTree.writeAt w.files.files way (.text (exportedText w)) } }) := by
  obtain ⟨output, hrun⟩ := h.execute_way hway workers nested
  -- the text is whole exactly if the snapshot has a form, so something has stopped it
  rw [← Store.hasForm_snapshot_iff, ← isWhole_indented _ 0, Output.isWhole,
    Option.isNone_iff_eq_none] at hforms
  obtain ⟨e, he⟩ := Option.ne_none_iff_exists'.1 hforms
  rw [he] at hrun
  exact ⟨e, he, hrun⟩

/-- A task that names no file is not done, whatever it changes. -/
theorem Exports.traceless_of_no_file (h : t.Exports) (hnone : ∀ way, ¬ t.NamesFile env w way)
    (workers : Value) (nested : Option (Run (List NestedResult))) :
    CompleteOrTraceless t env w (t.execute env workers nested w) := by
  generalize hrun : t.execute env workers nested w = r
  obtain ⟨result, w'⟩ := r
  refine .traceless (fun output next hdone => ?_) fun way hway => absurd hway (hnone way)
  rw [hdone] at hrun
  obtain ⟨way, hway⟩ := h.namesFile hrun
  exact hnone way hway

/-- What a task that fails with a file written leaves. -/
theorem completeOrTraceless_broken_iff {content : FileContent} (hway : t.NamesFile env w way) :
    CompleteOrTraceless t env w (.error e, { w with
      files := { w.files with files := FileTree.writeAt w.files.files way content } }) ↔
    w.files.decoded? way = some content.decode := by
  have hwritten : FileTree.decoded? { w.files with
      files := FileTree.writeAt w.files.files way content } way = some content.decode := by
    rw [FileTree.decoded?, FileTree.content?_writeAt, Option.map_some]
  constructor
  · intro htraceless
    cases htraceless with
    | traceless _ hfile => exact (hfile way hway).symm.trans hwritten
  · intro hbefore
    -- a task names one file only, the one that was written
    refine .traceless (fun _ _ hdone => nomatch hdone) fun other hother => ?_
    rw [hother.unique hway]
    exact hwritten.trans hbefore.symm

end Exporting

/-- **Which exports are complete or leave no trace**: those of snapshots whose values all have a
JSON form, and those whose file held the very text that comes about of the snapshot. Every other
export of a task that names a file fails, and leaves in the file, whatever it held, the text in
front of the first value without a form. -/
theorem exports_completeOrTraceless_iff {t : Task} {env : Surroundings} {workers : Value}
    {nested : Option (Run (List NestedResult))} {w : World} (h : t.Exports) :
    (CompleteOrTraceless t env w (t.execute env workers nested w) ↔
      ∀ way, t.NamesFile env w way → (∀ e ∈ w.store.snapshot, e.2.hasForm = true) ∨
        w.files.decoded? way = some ⟨exportedText w, none⟩) ∧
    ∀ way, t.NamesFile env w way → (∃ e ∈ w.store.snapshot, e.2.hasForm = false) →
      ∃ e, t.execute env workers nested w = (.error e, { w with
        files := { w.files with
          files := FileTree.writeAt w.files.files way (.text (exportedText w)) } }) := by
  refine ⟨⟨fun hexport way hway => ?_, fun hfile => ?_⟩, fun way hway hformless => ?_⟩
  · by_cases hforms : ∀ e ∈ w.store.snapshot, e.2.hasForm = true
    · exact .inl hforms
    · obtain ⟨e, -, hrun⟩ := h.breaksOff hway hforms workers nested
      rw [hrun] at hexport
      exact .inr ((completeOrTraceless_broken_iff hway).1 hexport)
  · by_cases hnames : ∃ way, t.NamesFile env w way
    · obtain ⟨way, hway⟩ := hnames
      by_cases hforms : ∀ e ∈ w.store.snapshot, e.2.hasForm = true
      · exact h.complete hway hforms workers nested
      · obtain ⟨e, -, hrun⟩ := h.breaksOff hway hforms workers nested
        rw [hrun]
        exact (completeOrTraceless_broken_iff hway).2 ((hfile way hway).resolve_left hforms)
    · exact h.traceless_of_no_file (not_exists.1 hnames) workers nested
  · obtain ⟨e, he, hform⟩ := hformless
    have hforms : ¬ ∀ e ∈ w.store.snapshot, e.2.hasForm = true := fun hall => by
      rw [hall e he] at hform
      cases hform
    obtain ⟨e, -, hrun⟩ := h.breaksOff hway hforms workers nested
    exact ⟨e, hrun⟩

/-- A world with a map whose keys are no texts, a decimal, bytes, a date and an object. -/
def mixedWorld : World :=
  .start ((Store.empty .throwError).put ("A", "T") (.dict
    [(.bool true, .decimal (.finite false 15 (-1))),
      (.null, .tuple [.bytes [104, 105], .date ⟨2024, 2, 29⟩]),
      (.float .nan, .object ⟨"<Order>", .gives "Order 7", [], [], [], none⟩)])) ⟨[], []⟩

/-- The export of all of them is complete. -/
theorem exports_completeOrTraceless_mixedWorld :
    CompleteOrTraceless exportingTask topDirectory mixedWorld
      (exportingTask.execute topDirectory .null none mixedWorld) := by
  refine (exports_completeOrTraceless_iff exports_exportingTask).1.2 fun way _ => .inl ?_
  intro e he
  obtain rfl := List.mem_singleton.1 he
  decide +kernel

/-- A world with a map under a tuple, and without files. -/
def tupleKeyWorld : World :=
  .start ((Store.empty .throwError).put ("A", "x") (.dict [(.tuple [.int 1], .int 2)])) ⟨[], []⟩

/-- The export of a map under a tuple fails, and leaves a file that was not there. -/
theorem exports_tupleKeyWorld_leavesTrace :
    ¬ CompleteOrTraceless exportingTask topDirectory tupleKeyWorld
      (exportingTask.execute topDirectory .null none tupleKeyWorld) := by
  have hway : exportingTask.NamesFile topDirectory tupleKeyWorld ["", "out.json"] :=
    ⟨_, _, _, rfl, rfl, rfl, rfl⟩
  have hformless : ¬ ∀ e ∈ tupleKeyWorld.store.snapshot, e.2.hasForm = true := fun hall =>
    nomatch hall _ List.mem_cons_self
  obtain ⟨e, -, hrun⟩ := exports_exportingTask.breaksOff hway hformless .null none
  rw [hrun, completeOrTraceless_broken_iff hway]
  exact fun habsent => nomatch habsent

end Task

end Runbook
