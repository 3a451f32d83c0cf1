import Mathlib.Tactic.Common
import Runbook.Proofs.ChunkSizes
import Runbook.Proofs.Digits
import Runbook.Proofs.Results
import Runbook.Proofs.RowReading

/-!
# Rows of what is read

The values that are read from JSON have integers that are not too long and strings for keys, at any
depth. So all of them have texts, and every column of a row can be filled from them: where reading
rows from a stream fails, it is the stream that fails.

* `IsReadable`: a value as it is read from JSON.
* `isReadable_of_ok`: what is read is such a value, by induction on the fuel.
* `IsReadable.exists_compact`, `exists_row`: it has a JSON text, and a row whatever the columns.
* `Runs.length_le`: a run has no more records than the text has characters.
* `readAll_streamed`: **all rows of a streamed file** are the rows of a run, and the failure of it.
-/

namespace Runbook

open Runbook.Text

/-- A value as it is read from JSON. -/
inductive IsReadable : Value → Prop
  | null : IsReadable .null
  | bool (b : Bool) : IsReadable (.bool b)
  | int {n : Int} (h : n.natAbs < tooLongInteger) : IsReadable (.int n)
  | float (x : Binary64) : IsReadable (.float x)
  | str (s : String) : IsReadable (.str s)
  | list {items : List Value} (h : ∀ v ∈ items, IsReadable v) : IsReadable (.list items)
  | dict {entries : Entries} (hkeys : ∀ e ∈ entries, ∃ s, e.1 = .str s)
    (h : ∀ e ∈ entries, IsReadable e.2) : IsReadable (.dict entries)

/-! ### Entries one after another -/

namespace Entries

/-- What holds of keys and of values holds in the map that they are written into. -/
theorem forall_insert {K V : Value → Prop} {entries : Entries} {key v : Value}
    (h : ∀ e ∈ entries, K e.1 ∧ V e.2) (hkey : K key) (hv : V v) :
    ∀ e ∈ entries.insert key v, K e.1 ∧ V e.2 := by
  induction entries with
  | nil =>
    intro e he
    rw [insert, List.mem_singleton] at he
    rw [he]
    exact ⟨hkey, hv⟩
  | cons d entries ih =>
    obtain ⟨k, old⟩ := d
    have hd := h _ List.mem_cons_self
    have hrest := fun e he => h e (List.mem_cons_of_mem _ he)
    intro e he
    rw [insert] at he
    split at he
    · rcases List.mem_cons.1 he with rfl | he
      · exact ⟨hd.1, hv⟩
      · exact hrest e he
    · rcases List.mem_cons.1 he with rfl | he
      · exact hd
      · exact ih hrest e he

theorem forall_ofList {K V : Value → Prop} {pairs : List (Value × Value)}
    (h : ∀ e ∈ pairs, K e.1 ∧ V e.2) : ∀ e ∈ ofList pairs, K e.1 ∧ V e.2 := by
  induction pairs using List.reverseRecOn with
  | nil => exact fun _ he => nomatch he
  | append_singleton pairs p ih =>
    have hlast := h p (by simp)
    have hofList : ofList (pairs ++ [p]) = insert (ofList pairs) p.1 p.2 := by simp [ofList]
    rw [hofList]
    exact forall_insert (ih fun e he => h e (by simp [he])) hlast.1 hlast.2

theorem mem_of_field? {entries : Entries} {name : String} {v : Value}
    (h : field? entries name = some v) : ∃ e ∈ entries, e.2 = v := by
  obtain ⟨e, hfind, hv⟩ := Option.map_eq_some_iff.1 h
  exact ⟨e, List.mem_of_find?_eq_some hfind, hv⟩

end Entries

/-! ### What is read -/

namespace Json

variable {cs rest : List Char} {v : Value}

theorem isReadable_word {word : List Char} (h : (word, v) ∈ words) : IsReadable v := by
  simp only [words, List.mem_cons, List.not_mem_nil, or_false, Prod.mk.injEq] at h
  rcases h with ⟨-, rfl⟩ | ⟨-, rfl⟩ | ⟨-, rfl⟩ | ⟨-, rfl⟩ | ⟨-, rfl⟩ | ⟨-, rfl⟩
  · exact .null
  · exact .bool _
  · exact .bool _
  · exact .float _
  · exact .float _
  · exact .float _

theorem isReadable_number {negative : Bool} (h : ReadsNumber negative cs v rest) :
    IsReadable v := by
  obtain @⟨whole, fraction, power, _, _, hwhole, -, -, hvalue⟩ := h
  unfold numberValue at hvalue
  split at hvalue
  · split at hvalue
    · cases hvalue
    · rename_i hlength
      have hdigits : ∀ c ∈ whole, isAsciiDigit c = true := by
        cases hwhole with
        | zero => simp [isAsciiDigit]
        | digits _ hds _ => exact hds
      have hlt : natOfDigits whole < tooLongInteger := by
        have hle := Nat.le_of_not_lt hlength
        -- the number itself is too large to be written out
        delta tooLongInteger
        generalize maxIntegerDigits = k at hle ⊢
        exact (natOfDigits_lt hdigits).trans_le (Nat.pow_le_pow_right (by decide) hle)
      rw [← Except.ok.inj hvalue]
      refine .int ?_
      split
      · rwa [Int.natAbs_neg, Int.natAbs_natCast]
      · rwa [Int.natAbs_natCast]
  · rw [← Except.ok.inj hvalue]
    exact .float _

theorem isReadable_scalar (h : readScalar cs = .ok (v, rest)) : IsReadable v := by
  cases readScalar_iff.1 h with
  | word hword _ => exact isReadable_word hword
  | negative _ h => exact isReadable_number h
  | positive h => exact isReadable_number h

section Steps

variable {fuel : Nat}

theorem isReadable_value
    (hitems : ∀ {cs items rest}, readItemsWith fuel cs = .ok (items, rest) →
      ∀ v ∈ items, IsReadable v)
    (hmembers : ∀ {cs members rest}, readMembersWith fuel cs = .ok (members, rest) →
      ∀ e ∈ members, (∃ s, e.1 = .str s) ∧ IsReadable e.2)
    (h : ReadsValue fuel cs v rest) : IsReadable v := by
  cases h with
  | string _ => exact .str _
  | emptyList _ => exact .list fun _ hv => nomatch hv
  | list _ h => exact .list (hitems h)
  | emptyDict _ => exact .dict (fun _ he => nomatch he) fun _ he => nomatch he
  | dict _ h =>
    have hentries := Entries.forall_ofList (K := fun k => ∃ s, k = .str s) (hmembers h)
    exact .dict (fun e he => (hentries e he).1) fun e he => (hentries e he).2
  | scalar h => exact isReadable_scalar h

theorem isReadable_items {items : List Value}
    (hvalue : ∀ {cs v rest}, readValueWith fuel cs = .ok (v, rest) → IsReadable v)
    (hitems : ∀ {cs items rest}, readItemsWith fuel cs = .ok (items, rest) →
      ∀ v ∈ items, IsReadable v)
    (h : ReadsItems fuel cs items rest) : ∀ v ∈ items, IsReadable v := by
  cases h with
  | last h _ =>
    intro v hv
    rw [List.mem_singleton.1 hv]
    exact hvalue h
  | more h _ hrest =>
    intro v hv
    rcases List.mem_cons.1 hv with rfl | hv
    · exact hvalue h
    · exact hitems hrest v hv

theorem isReadable_members {members : List (Value × Value)}
    (hvalue : ∀ {cs v rest}, readValueWith fuel cs = .ok (v, rest) → IsReadable v)
    (hmembers : ∀ {cs members rest}, readMembersWith fuel cs = .ok (members, rest) →
      ∀ e ∈ members, (∃ s, e.1 = .str s) ∧ IsReadable e.2)
    (h : ReadsMembers fuel cs members rest) :
    ∀ e ∈ members, (∃ s, e.1 = .str s) ∧ IsReadable e.2 := by
  cases h with
  | last _ _ h _ =>
    intro e he
    rw [List.mem_singleton.1 he]
    exact ⟨⟨_, rfl⟩, hvalue h⟩
  | more _ _ h _ hrest =>
    intro e he
    rcases List.mem_cons.1 he with rfl | he
    · exact ⟨⟨_, rfl⟩, hvalue h⟩
    · exact hmembers hrest e he

end Steps

theorem isReadable_of_ok (fuel : Nat) :
    (∀ {cs v rest}, readValueWith fuel cs = .ok (v, rest) → IsReadable v) ∧
    (∀ {cs items rest}, readItemsWith fuel cs = .ok (items, rest) → ∀ v ∈ items, IsReadable v) ∧
    (∀ {cs members rest}, readMembersWith fuel cs = .ok (members, rest) →
      ∀ e ∈ members, (∃ s, e.1 = .str s) ∧ IsReadable e.2) := by
  induction fuel with
  | zero =>
    refine ⟨fun h => ?_, fun h => ?_, fun h => ?_⟩
    · rw [readValueWith] at h; cases h
    · rw [readItemsWith] at h; cases h
    · rw [readMembersWith] at h; cases h
  | succ fuel ih =>
    obtain ⟨hvalue, hitems, hmembers⟩ := ih
    exact ⟨fun h => isReadable_value hitems hmembers (readsValue_of_ok h),
      fun h => isReadable_items hvalue hitems (readsItems_of_ok h),
      fun h => isReadable_members hvalue hmembers (readsMembers_of_ok h)⟩

/-- **What is read** has integers that are not too long and strings for keys. -/
theorem isReadable_of_readValue (h : readValue cs = .ok (v, rest)) : IsReadable v :=
  (isReadable_of_ok _).1 h

end Json

/-! ### Texts -/

section Texts

open Json

variable {v : Value}

theorem integerText_eq {n : Int} (h : n.natAbs < tooLongInteger) :
    integerText n = .ok (intText n) := by
  rw [integerText, if_pos h]

theorem exists_compactItems {items : List Value} (h : ∀ v ∈ items, ∃ cs, compact v = .ok cs) :
    ∃ css, compactItems items = .ok css := by
  induction items with
  | nil => exact ⟨[], rfl⟩
  | cons v items ih =>
    obtain ⟨cs, hcs⟩ := h v List.mem_cons_self
    obtain ⟨css, hcss⟩ := ih fun w hw => h w (List.mem_cons_of_mem v hw)
    exact ⟨cs :: css, by rw [compactItems, hcs, hcss]⟩

theorem exists_compactMembers {entries : Entries} (hkeys : ∀ e ∈ entries, ∃ s, e.1 = .str s)
    (h : ∀ e ∈ entries, ∃ cs, compact e.2 = .ok cs) : ∃ css, compactMembers entries = .ok css := by
  induction entries with
  | nil => exact ⟨[], rfl⟩
  | cons e entries ih =>
    obtain ⟨k, v⟩ := e
    obtain ⟨s, rfl⟩ : ∃ s, k = .str s := hkeys _ List.mem_cons_self
    obtain ⟨cs, hcs⟩ := h _ List.mem_cons_self
    obtain ⟨css, hcss⟩ := ih (fun e he => hkeys e (List.mem_cons_of_mem _ he))
      fun e he => h e (List.mem_cons_of_mem _ he)
    exact ⟨member s.toList cs :: css, by rw [compactMembers, hcs, hcss]; rfl⟩

/-- **A readable value has a JSON text.** -/
theorem IsReadable.exists_compact (h : IsReadable v) : ∃ cs, compact v = .ok cs := by
  induction h with
  | null => exact ⟨_, rfl⟩
  | bool b => exact ⟨_, rfl⟩
  | @int n h => exact ⟨_, by rw [compact, integerText_eq h]; rfl⟩
  | float x => exact ⟨_, rfl⟩
  | str s => exact ⟨_, rfl⟩
  | list _ ih =>
    obtain ⟨css, hcss⟩ := exists_compactItems ih
    exact ⟨_, by rw [compact, hcss]; rfl⟩
  | dict hkeys _ ih =>
    obtain ⟨css, hcss⟩ := exists_compactMembers hkeys ih
    exact ⟨_, by rw [compact, hcss]; rfl⟩

theorem IsReadable.exists_toJson (h : IsReadable v) : ∃ t, v.toJson = .ok t := by
  obtain ⟨cs, hcs⟩ := h.exists_compact
  exact ⟨_, by rw [Value.toJson, hcs]; rfl⟩

end Texts

/-! ### Rows -/

namespace Records

variable {v w : Value}

/-- What holds of dictionaries and of their values holds of what names lead to. -/
theorem follow_keeps {P : Value → Prop}
    (hstep : ∀ entries, P (.dict entries) → ∀ e ∈ entries, P e.2)
    (h : P v) {parts : List String} (hw : follow v parts = some w) : P w := by
  induction parts generalizing v with
  | nil =>
    rw [← Option.some.inj hw]
    exact h
  | cons part parts ih =>
    cases v with
    | dict entries =>
      rw [Records.follow] at hw
      split at hw
      · rename_i found hfound
        obtain ⟨e, he, rfl⟩ := Entries.mem_of_field? hfound
        exact ih (hstep entries h e he) hw
      · cases hw
    | _ => cases hw

theorem IsReadable.follow (h : IsReadable v) {parts : List String} (hw : follow v parts = some w) :
    IsReadable w :=
  follow_keeps (fun _ h => by cases h with | dict _ h => exact h) h hw

/-- A readable value has a cell: containers by their JSON text, the others by their own. -/
theorem exists_columnText (h : IsReadable v) : ∃ cell, columnText (some v) = .ok cell := by
  have hjson : ∀ {w : Value}, IsReadable w →
      ∃ cell, w.toJson.map Value.str = .ok cell := fun hw => by
    obtain ⟨t, ht⟩ := hw.exists_toJson
    exact ⟨_, by rw [ht]; rfl⟩
  cases h with
  | null => exact ⟨_, rfl⟩
  | bool b => exact ⟨_, rfl⟩
  | @int n h =>
    have htext : columnText (some (.int n)) = (integerText n).map .str := rfl
    exact ⟨_, by rw [htext, integerText_eq h]; rfl⟩
  | float x => exact ⟨_, rfl⟩
  | str s => exact ⟨_, rfl⟩
  | list h => exact hjson (.list h)
  | dict hkeys h => exact hjson (.dict hkeys h)

theorem exists_cell (h : IsReadable v) (c : Column) : ∃ cell, c.valueOf v = .ok cell := by
  obtain ⟨name, path⟩ := c
  cases path with
  | none =>
    obtain ⟨t, ht⟩ := h.exists_toJson
    exact ⟨.str t, by rw [Column.valueOf, ht]; rfl⟩
  | some parts =>
    show ∃ cell, columnText (follow v parts) = .ok cell
    cases hfound : follow v parts with
    | none => exact ⟨.null, rfl⟩
    | some w => exact exists_columnText (IsReadable.follow h hfound)

/-- **A readable value has a row**, whatever the columns. -/
theorem exists_row (h : IsReadable v) (columns : List Column) :
    ∃ row, rowOf columns v = .ok row := by
  cases columns with
  | nil => cases v <;> exact ⟨_, rfl⟩
  | cons c columns =>
    obtain ⟨cells, hcells⟩ : ∃ cells, (c :: columns).mapM (fun c => (c.valueOf v).map
        fun cell => (Value.str c.name, cell)) = Except.ok cells := by
      refine exists_mapM fun c _ => ?_
      obtain ⟨cell, hcell⟩ := exists_cell h c
      exact ⟨(.str c.name, cell), by rw [hcell]; rfl⟩
    refine ⟨.dict (Entries.ofList cells), ?_⟩
    simp only [rowOf, hcells]
    rfl

/-! ### Runs -/

section Runs

variable {decoder : List Char → Option (Value × List Char)} {phase next : Phase}
  {cs rest : List Char} {records : List Value} {failed : Bool} {record : Option Value}

/-- A record is the value that is decoded in its turn. -/
theorem exists_decoded (h : turnOf decoder phase cs = .goes (some v) next rest) :
    ∃ text, decoder text = some (v, rest) := by
  unfold turnOf at h
  generalize cs.dropWhile isBlank = text at h
  have htaken :
      ∀ {give : Value → Option Value} {behind : Phase} {found : Option (Value × List Char)},
      (∀ w, give w = some v → w = v) → taken give behind found = .goes (some v) next rest →
        found = some (v, rest) := by
    intro give behind found hgive htaken
    cases found with
    | none => cases htaken
    | some found =>
      obtain ⟨w, tail⟩ := found
      rw [taken] at htaken
      obtain ⟨hw, -, rfl⟩ := Turn.goes.inj htaken
      rw [hgive w hw]
  cases phase with
  | start =>
    rw [turnAt, startTurn.eq_def] at h
    split at h
    · split at h <;> cases h
    · cases h
  | item =>
    refine ⟨text, htaken (fun w hw => ?_) h⟩
    cases w <;> first | exact Option.some.inj hw | cases hw
  | separator =>
    rw [turnAt, separatorTurn.eq_def] at h
    split at h <;> cases h
  | sequence =>
    rw [turnAt] at h
    split at h
    · cases h
    · exact ⟨text, htaken (fun w hw => Option.some.inj hw) h⟩

/-- The records of a run are values that are decoded. -/
theorem Runs.forall_records {P : Value → Prop}
    (hdecoder : ∀ {cs v rest}, decoder cs = some (v, rest) → P v)
    (h : Runs decoder phase cs records failed) : ∀ v ∈ records, P v := by
  induction h with
  | ends _ => exact fun _ hv => nomatch hv
  | fails _ => exact fun _ hv => nomatch hv
  | @goes _ _ record _ _ records _ h _ ih =>
    intro v hv
    rcases List.mem_append.1 hv with hv | hv
    · rw [Option.mem_toList] at hv
      rw [hv] at h
      obtain ⟨text, htext⟩ := exists_decoded h
      exact hdecoder htext
    · exact ih v hv

theorem Runs.length_lt
    (hdecoder : ∀ {cs v rest}, decoder cs = some (v, rest) → rest.length < cs.length)
    (h : Runs decoder phase cs records failed) : records.length < cs.length + spareTurns phase := by
  have hspare : ∀ phase, 1 ≤ spareTurns phase := fun phase => by cases phase <;> decide
  induction h with
  | @ends phase cs _ => exact Nat.lt_of_lt_of_le (hspare phase) (Nat.le_add_left _ _)
  | @fails phase cs _ => exact Nat.lt_of_lt_of_le (hspare phase) (Nat.le_add_left _ _)
  | @goes _ _ record _ _ _ _ h _ ih =>
    have hshorter := (turnOf_shorter hdecoder h).2
    have hone : record.toList.length ≤ 1 := by cases record <;> simp
    rw [List.length_append]
    omega

/-- The first turn gives no record. -/
theorem startTurn_goes {text : List Char} (h : startTurn text = .goes record next rest) :
    record = none ∧ (next = .item ∨ next = .sequence) := by
  rw [startTurn.eq_def] at h
  split at h
  · split at h
    · cases h
    · cases h
      exact ⟨rfl, .inl rfl⟩
  · cases h
    exact ⟨rfl, .inr rfl⟩

/-- **A run has no more records** than the text has characters. -/
theorem Runs.length_le
    (hdecoder : ∀ {cs v rest}, decoder cs = some (v, rest) → rest.length < cs.length)
    (h : Runs decoder .start cs records failed) : records.length ≤ cs.length := by
  cases h with
  | ends _ => exact Nat.zero_le _
  | fails _ => exact Nat.zero_le _
  | goes h hrest =>
    have hshorter := (turnOf_shorter hdecoder h).1
    have hlength := hrest.length_lt hdecoder
    obtain ⟨rfl, rfl | rfl⟩ := startTurn_goes h
    · simp only [spareTurns, Option.toList_none, List.nil_append] at hlength ⊢
      omega
    · simp only [spareTurns, Option.toList_none, List.nil_append] at hlength ⊢
      omega

end Runs

/-! ### Reading all rows of a stream -/

section Streams

variable {files : FileTree} {file : Location} {cs : List Char} {chunk total : Nat}
  {records : List Value} {fault : Option Error} {c : Cursor}

theorem isReadable_decodeChunked {rest : List Char}
    (h : decodeChunked chunk total cs = some (v, rest)) : IsReadable v := by
  rcases decodeChunked_cases chunk total cs with ⟨-, hvalue⟩ | ⟨part, more, -, -, -, hsettled⟩
  · exact Json.isReadable_of_readValue (valueOf_eq_some.1 (hvalue.symm.trans h))
  · rw [h] at hsettled
    obtain ⟨tail, -, hread, -⟩ := settled_value.1 hsettled
    exact Json.isReadable_of_readValue hread

/-- The rows of readable records. -/
theorem Yields.gives (h : Yields c records fault) (hrecords : ∀ v ∈ records, IsReadable v)
    (columns : List Column) : ∃ rows, records.mapM (rowOf columns) = .ok rows ∧
      rows.length = records.length ∧ Gives columns c rows fault := by
  induction h with
  | done h => exact ⟨[], rfl, rfl, .done h⟩
  | failed h => exact ⟨[], rfl, rfl, .failed h⟩
  | @more _ _ v _ _ h _ ih =>
    obtain ⟨row, hrow⟩ := exists_row (hrecords v List.mem_cons_self) columns
    obtain ⟨rows, hrows, hlength, hgives⟩ := ih fun w hw => hrecords w (List.mem_cons_of_mem v hw)
    exact ⟨row :: rows, by rw [mapM_cons_ok hrow, hrows]; rfl, by simp [hlength],
      .more h hrow hgives⟩

/-- A reader that streams a file into columns with names. -/
def Reader.columned (file : Location) (names : List String) (chunk : Nat) : Reader :=
  .ofSettings ⟨file, false, none, names.map .str⟩ chunk

theorem mapM_columns (names : List String) :
    ∃ columns, (names.map Value.str).mapM Column.ofValue = .ok columns := by
  refine exists_mapM fun v hv => ?_
  obtain ⟨name, -, rfl⟩ := List.mem_map.1 hv
  exact ⟨_, rfl⟩

/-- What reading all rows of a streamed file comes to: the rows of a run, and its failure, which is
a value error. -/
structure Streamed (r : Reader) (chunk : Nat) (cs : List Char) (size : Int) (records : List Value)
    (fault : Option Error) : Prop where
  runs : Runs (decodeChunked chunk cs.length) .start cs records fault.isSome
  isValueError : ∀ e, fault = some e → e.isValueError = true
  readAll : ∃ rows, records.mapM (rowOf r.columns) = .ok rows ∧
    (r.readAll size).1 = outcome rows fault

/-- **All rows of a streamed file.** Opening the file succeeds, and reading fails exactly where the
stream does. -/
theorem readAll_streamed (names : List String) (size : Int) (hchunk : 1 ≤ chunk)
    (hfile : files.readText file = .ok cs) :
    ∃ r, (Reader.columned file names chunk).openFile files = .ok r ∧
      ∃ records fault, Streamed r chunk cs size records fault := by
  obtain ⟨columns, hcolumns⟩ := mapM_columns names
  have hstart := Reader.start_streaming (names.map .str) chunk hfile
  refine ⟨{ Reader.columned file names chunk with
    columns, cursor := some (.stream .start (.ofSource file.text chunk ⟨cs, none⟩)) }, ?_, ?_⟩
  · rw [Reader.openFile]
    simp only [Reader.columned, Reader.ofSettings] at hstart ⊢
    rw [hcolumns, hstart]
  obtain ⟨records, fault, hyields, hruns, hvalue⟩ :=
    exists_yields .start (Stream.ofSource_at file.text chunk cs) hchunk
  have hruns : Runs (decodeChunked chunk cs.length) .start cs records fault.isSome := hruns
  obtain ⟨rows, hrows, hlength, hgives⟩ :=
    hyields.gives (hruns.forall_records isReadable_decodeChunked) columns
  have hbound :
      (Cursor.stream .start (.ofSource file.text chunk ⟨cs, none⟩)).bound = cs.length := by
    simp [Cursor.bound, Stream.left, Stream.ofSource]
  have hle := hruns.length_le decodeChunked_length
  exact ⟨records, fault, hruns, hvalue, rows, hrows,
    Reader.readAll_gives size _ rfl hgives (by rw [hbound, hlength]; exact hle)⟩

end Streams

end Records

end Runbook
