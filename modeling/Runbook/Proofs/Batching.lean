import Runbook.Proofs.RecordSequences

/-!
# Batches

The rows of a file are read in batches, and each call goes on where the one before it stopped. How
the rows are cut into batches does not show: put together, the batches are a front of the rows in
the order of the file, whatever the sizes and whatever the mode.

* `Calls`: calls for batches one after another, none of which fails.
* `Stands`: a reader in front of rows, with an error behind them or none.
* `readBatch_ok`, `readBatch_error`: one call, by the number of rows that are left.
* `Calls.stands`: calls one after another, by induction on them.
* `batches_transparent`: **batches of a file** in every mode, and all of its rows at once.
-/

namespace Runbook.Records

namespace Reader

/-- Calls for batches of sizes one after another, none of which fails, with the batches and the
reader behind them. -/
inductive Calls : Reader → List Int → List (List Value) → Reader → Prop
  | nil {r} : Calls r [] [] r
  | cons {r s t size sizes batch batches} (h : r.readBatch size = (.ok batch, s))
    (hrest : Calls s sizes batches t) : Calls r (size :: sizes) (batch :: batches) t

/-- A reader that stands in front of rows, with an error behind them if there is one. -/
def Stands (r : Reader) (rows : List Value) (fault : Option Error) : Prop :=
  ∃ c, r.cursor = some c ∧ c.IsSound ∧ Gives r.columns c rows fault

/-- **What a reader does that has delivered some of the rows**: a call gives as many rows as it asks
for, or those that are left, and none only if there are none left. It fails exactly if it asks for
more than are left and an error is behind them. All rows that are left are given at once, or their
error. -/
structure GoesOn (r : Reader) (rows delivered : List Value) (fault : Option Error) : Prop where
  front : delivered <+: rows
  batch : ∀ size, 1 ≤ size → ∀ rows' s, r.readBatch size = (.ok rows', s) →
    (rows'.length : Int) = min size (rows.length - delivered.length) ∧
      (rows' = [] ↔ delivered = rows)
  fails : ∀ size, 1 ≤ size → ∀ e, (r.readBatch size).1 = .error e ↔
    fault = some e ∧ (rows.length : Int) - delivered.length < size
  all : ∀ size, 1 ≤ size → (r.readAll size).1 = outcome (rows.drop delivered.length) fault

section Calls

variable {columns : List Column} {c : Cursor} {r s : Reader} {rows : List Value}
  {fault : Option Error} {size : Int} {sizes : List Int} {batches : List (List Value)}

/-! ### One call -/

theorem takeRows_isSound (count : Nat) (h : c.IsSound) : (takeRows columns count c).2.IsSound := by
  induction count generalizing c with
  | zero => exact h
  | succ count ih =>
    have hfinished : Cursor.finished.IsSound := fun _ hv => nomatch hv
    have hadvances := Cursor.next_advances h
    rw [takeRows]
    generalize c.next = next at hadvances ⊢
    cases hadvances with
    | ends => exact hfinished
    | fails _ => exact hfinished
    | @gives v d _ hd _ =>
      simp only
      cases rowOf columns v with
      | error e => exact hd
      | ok row =>
        have hrest := ih hd
        rcases hrows : takeRows columns count d with ⟨_ | rows, d'⟩
        · rw [hrows] at hrest
          exact hrest
        · rw [hrows] at hrest
          exact hrest

/-- There is room for the rows of a cursor in what is left. -/
theorem length_le_bound (h : Gives columns c rows fault) (hc : c.IsSound) :
    rows.length ≤ c.bound := by
  induction h with
  | done _ => exact Nat.zero_le _
  | failed _ => exact Nat.zero_le _
  | more h _ _ ih =>
    have hadvances := Cursor.next_advances hc
    rw [h] at hadvances
    cases hadvances with
    | gives _ hd hlt =>
      have := ih hd
      rw [List.length_cons]
      omega

/-- **A call that finds enough rows**, or only rows, gives as many as it asks for of those that are
left. -/
theorem readBatch_ok (h : r.Stands rows fault) (hsize : 1 ≤ size)
    (henough : size.toNat ≤ rows.length ∨ fault = none) :
    ∃ s, r.readBatch size = (.ok (rows.take size.toNat), s) ∧
      s.Stands (rows.drop size.toNat) fault := by
  obtain ⟨c, hcursor, hc, hgives⟩ := h
  obtain ⟨d, htake, hd⟩ := takeRows_gives hgives size.toNat henough
  have hsound : (takeRows r.columns size.toNat c).2.IsSound := takeRows_isSound size.toNat hc
  rw [htake] at hsound
  refine ⟨{ r with cursor := some d }, ?_, d, rfl, hsound, hd⟩
  simp only [readBatch, hcursor, max_eq_left hsize, htake]

/-- A call that finds too few rows and an error behind them fails. -/
theorem readBatch_error {e : Error} (h : r.Stands rows (some e)) (hsize : 1 ≤ size)
    (hfew : rows.length < size.toNat) : (r.readBatch size).1 = .error e := by
  obtain ⟨c, hcursor, -, hgives⟩ := h
  simp only [readBatch, hcursor, max_eq_left hsize]
  exact takeRows_fails hgives _ hfew

/-- What a call gives, if it gives anything. -/
theorem batch_eq {batch : List Value} (h : r.Stands rows fault) (hsize : 1 ≤ size)
    (hbatch : r.readBatch size = (.ok batch, s)) :
    batch = rows.take size.toNat ∧ s.Stands (rows.drop size.toNat) fault ∧
      (size.toNat ≤ rows.length ∨ fault = none) := by
  by_cases henough : size.toNat ≤ rows.length ∨ fault = none
  · obtain ⟨t, ht, hstands⟩ := readBatch_ok h hsize henough
    rw [ht] at hbatch
    cases hbatch
    exact ⟨rfl, hstands, henough⟩
  · obtain ⟨hfew, hfault⟩ := not_or.1 henough
    obtain ⟨e, rfl⟩ := Option.ne_none_iff_exists'.1 hfault
    have herror := readBatch_error h hsize (Nat.lt_of_not_le hfew)
    rw [hbatch] at herror
    cases herror

/-! ### Calls one after another -/

/-- **Batches put together** are a front of the rows, and the reader stands in front of the others:
by induction on the calls. -/
theorem Calls.stands (h : r.Calls sizes batches s) (hr : r.Stands rows fault)
    (hsizes : ∀ n ∈ sizes, 1 ≤ n) :
    ∃ left, rows = batches.flatten ++ left ∧ s.Stands left fault ∧
      ([] ∈ batches → left = [] ∧ fault = none) := by
  induction h generalizing rows with
  | nil => exact ⟨rows, rfl, hr, by simp⟩
  | @cons r s t size sizes batch batches h _ ih =>
    have hsize := hsizes size List.mem_cons_self
    obtain ⟨rfl, hs, henough⟩ := batch_eq hr hsize h
    obtain ⟨left, hleft, ht, hempty⟩ := ih hs fun n hn => hsizes n (List.mem_cons_of_mem size hn)
    refine ⟨left, ?_, ht, fun hmem => ?_⟩
    · rw [List.flatten_cons, List.append_assoc, ← hleft, List.take_append_drop]
    · rcases List.mem_cons.1 hmem with hnil | hmem
      · -- nothing was left, so nothing is left behind it, and no error was met
        obtain rfl : rows = [] := by
          rcases List.take_eq_nil_iff.1 hnil.symm with hzero | hrows
          · omega
          · exact hrows
        have hnone : fault = none := by
          rcases henough with hfew | hnone
          · rw [List.length_nil] at hfew
            omega
          · exact hnone
        rw [List.drop_nil] at hleft
        exact ⟨(List.append_eq_nil_iff.1 hleft.symm).2, hnone⟩
      · exact hempty hmem

theorem readAll_stands (h : r.Stands rows fault) (size : Int) :
    (r.readAll size).1 = outcome rows fault := by
  obtain ⟨c, hcursor, hc, hgives⟩ := h
  exact readAll_gives size r hcursor hgives (length_le_bound hgives hc)

/-- A reader in front of the rows that are left goes on with them. -/
theorem Stands.goesOn {delivered left : List Value} (h : r.Stands left fault) :
    r.GoesOn (delivered ++ left) delivered fault where
  front := List.prefix_append _ _
  batch := by
    intro size hsize batch s hbatch
    obtain ⟨rfl, -, -⟩ := batch_eq h hsize hbatch
    refine ⟨?_, ?_⟩
    · rw [List.length_take, List.length_append]
      omega
    · rw [List.take_eq_nil_iff, List.self_eq_append_right]
      exact ⟨fun hnil => hnil.resolve_left (by omega), .inr⟩
  fails := by
    intro size hsize e
    rw [List.length_append]
    constructor
    · intro he
      have hshort : ¬ (size.toNat ≤ left.length ∨ fault = none) := fun henough => by
        obtain ⟨s, hs, -⟩ := readBatch_ok h hsize henough
        rw [hs] at he
        cases he
      obtain ⟨hfew, hfault⟩ := not_or.1 hshort
      obtain ⟨d, rfl⟩ := Option.ne_none_iff_exists'.1 hfault
      rw [readBatch_error h hsize (Nat.lt_of_not_le hfew)] at he
      exact ⟨congrArg some (Except.error.inj he), by omega⟩
    · rintro ⟨rfl, hfew⟩
      exact readBatch_error h hsize (by omega)
  all := by
    intro size _
    rw [List.drop_left]
    exact readAll_stands h size

end Calls

end Reader

/-! ### Batches of a file -/

section Files

variable {r opened : Reader} {files : FileTree}

theorem Reader.exists_of_openFile (h : r.openFile files = .ok opened) :
    r.settings.columns.mapM Column.ofValue = .ok opened.columns ∧
      ∃ c, r.start files = .ok c ∧ opened.cursor = some c := by
  unfold Reader.openFile at h
  split at h
  · cases h
  · rename_i hcolumns
    split at h
    · cases h
    · rename_i c hstart
      cases h
      exact ⟨hcolumns, c, hstart, rfl⟩

theorem Reader.openFile_of_start {columns : List Column} {c : Cursor}
    (hcolumns : r.settings.columns.mapM Column.ofValue = .ok columns)
    (hstart : r.start files = .ok c) :
    r.openFile files = .ok { r with columns, cursor := some c } := by
  rw [openFile, hcolumns, hstart]

/-- A reader at a cursor that leads to records stands in front of their rows. -/
theorem Yields.stands {c : Cursor} {records : List Value} {fault : Option Error}
    (h : Yields c records fault) (hsound : c.IsSound) (hcursor : r.cursor = some c) :
    ∃ rows, records.mapM (rowOf r.columns) = .ok rows ∧ r.Stands rows fault ∧
      ∀ e, fault = some e → e.isValueError = true := by
  obtain ⟨found, other, hfound, hreadable, -, hvalue⟩ := exists_records hsound
  obtain ⟨rfl, rfl⟩ := hfound.unique h
  obtain ⟨rows, hrows, -, hgives⟩ := h.gives hreadable r.columns
  exact ⟨rows, hrows, ⟨c, hcursor, hsound, hgives⟩, hvalue⟩

/-- All rows of a reader that starts at records. -/
theorem Reader.exists_rows {columns : List Column} {c : Cursor} {records : List Value}
    {fault : Option Error} (hcolumns : r.settings.columns.mapM Column.ofValue = .ok columns)
    (hstart : r.start files = .ok c) (hyields : Yields c records fault) :
    ∃ opened rows, r.openFile files = .ok opened ∧ records.mapM (rowOf columns) = .ok rows ∧
      ∀ size, (opened.readAll size).1 = outcome rows fault := by
  obtain ⟨rows, hrows, hstands, -⟩ := Yields.stands (r := { r with columns, cursor := some c })
    hyields (exists_fileRecords hstart).1 rfl
  exact ⟨_, rows, openFile_of_start hcolumns hstart, hrows, Reader.readAll_stands hstands⟩

/-- **Batches do not show.** Whatever a file holds, in every mode and with all settings, the file
has a sequence of records, which ends or comes to an error of values, and each record has its row.
Calls for batches of any sizes, as long as none fails, deliver a front of these rows, each as many
as it asks for or as are left, and none exactly if all are delivered, then and ever after. All rows
at once are the same for every batch size, and an error is raised for every size if one is behind
them. -/
theorem batches_transparent (hopen : r.openFile files = .ok opened) :
    ∃ records rows fault, FileRecords r.settings r.chunk files records fault ∧
      (∀ e, fault = some e → e.isValueError = true) ∧
      r.settings.columns.mapM Column.ofValue = .ok opened.columns ∧
      records.mapM (rowOf opened.columns) = .ok rows ∧
      (∀ sizes batches s, (∀ n ∈ sizes, 1 ≤ n) → opened.Calls sizes batches s →
        s.GoesOn rows batches.flatten fault ∧
          ([] ∈ batches → ∀ size, 1 ≤ size → (s.readBatch size).1 = .ok [])) ∧
      ∀ size, 1 ≤ size → (opened.readAll size).1 = outcome rows fault := by
  obtain ⟨hcolumns, c, hstart, hcursor⟩ := Reader.exists_of_openFile hopen
  obtain ⟨hsound, records, fault, hfile, hyields⟩ := exists_fileRecords hstart
  obtain ⟨rows, hrows, hstands, hvalue⟩ := hyields.stands hsound hcursor
  refine ⟨records, rows, fault, hfile, hvalue, hcolumns, hrows,
    fun sizes batches s hsizes hcalls => ?_, fun size _ => Reader.readAll_stands hstands size⟩
  obtain ⟨left, rfl, hleft, hempty⟩ := hcalls.stands hstands hsizes
  refine ⟨hleft.goesOn, fun hmem size hsize => ?_⟩
  obtain ⟨rfl, rfl⟩ := hempty hmem
  obtain ⟨t, ht, -⟩ := Reader.readBatch_ok hleft hsize (.inr rfl)
  rw [ht, List.take_nil]

open Document (soleTree soleFile)

/-- Two values on lines, with a blank line between them, and a line that is no JSON behind them. -/
def brokenLines : FileTree := soleTree "true\n \nnull\nx".toList

/-- A reader of lines, with the whole record as its one column. -/
def lineReader : Reader := .ofSettings ⟨soleFile, true, none, [.str completeColumn]⟩ 1

/-- The reader in front of the first line. -/
def openedLineReader : Reader :=
  { lineReader with
    columns := [⟨completeColumn, none⟩]
    cursor := some (.lines [] 0 none ⟨"true\n \nnull\nx".toList, none⟩) }

/-- What two calls come to, the first for two rows: their number, if it succeeds, and whether the
second call does. -/
def twoCalls (r : Reader) : Option (Nat × Bool) :=
  match r.readBatch 2 with
  | (.ok rows, s) => some (rows.length, (s.readBatch 1).1.toOption.isSome)
  | (.error _, _) => none

/-- **The values are delivered, and the error is raised behind them**: the first two calls show that
there are two rows, and what every other size comes to. -/
theorem batches_brokenLines :
    ∃ first s, lineReader.openFile brokenLines = .ok openedLineReader ∧
      openedLineReader.readBatch 2 = (.ok first, s) ∧ first.length = 2 ∧
      ∃ records e,
        FileRecords lineReader.settings lineReader.chunk brokenLines records (some e) ∧
        records.mapM (rowOf [⟨completeColumn, none⟩]) = .ok first ∧
        s.GoesOn first first (some e) ∧
        ∀ size, 1 ≤ size → (openedLineReader.readAll size).1 = .error e := by
  have hopen : lineReader.openFile brokenLines = .ok openedLineReader := rfl
  obtain ⟨records, rows, fault, hfile, -, -, hrows, hcalls, hall⟩ := batches_transparent hopen
  have htwo : twoCalls openedLineReader = some (2, false) := by decide +kernel
  rw [twoCalls] at htwo
  split at htwo
  · rename_i first s hfirst
    obtain ⟨hlength, hsecond⟩ : first.length = 2 ∧ (s.readBatch 1).1.toOption.isSome = false := by
      simpa using htwo
    have hgoes := (hcalls [2] [first] s (by simp) (.cons hfirst .nil)).1
    rw [List.flatten_singleton] at hgoes
    cases hfails : (s.readBatch 1).1 with
    | ok _ =>
      rw [hfails] at hsecond
      cases hsecond
    | error e =>
      -- the second call fails, so the first has delivered all rows
      obtain ⟨rfl, hleft⟩ := (hgoes.fails 1 (Int.le_refl 1) e).1 hfails
      obtain rfl : first = rows := hgoes.front.eq_of_length_le (by omega)
      exact ⟨first, s, hopen, hfirst, hlength, records, e, hfile, hrows, hgoes, hall⟩
  · cases htwo

end Files

end Runbook.Records
