import Mathlib.Tactic.Common
import Runbook.Records.Reader

/-!
# All rows of a reader

`Gives` is what a cursor leads to: the rows one after another, and the error they end in if there is
one. Batches of any size are cut from it, and put together again they are all of it.

* `takeRows_gives`, `takeRows_fails`: what a batch takes from it.
* `readAll_gives`: reading all rows gives the rows, or the error they end in.
-/

namespace Runbook.Records

/-- The rows that a cursor leads to, and the error behind them. -/
inductive Gives (columns : List Column) : Cursor → List Value → Option Error → Prop
  | done {c} (h : c.next = .ok none) : Gives columns c [] none
  | failed {c e} (h : c.next = .error e) : Gives columns c [] (some e)
  | more {c d v row rows fault} (h : c.next = .ok (some (v, d))) (hrow : rowOf columns v = .ok row)
    (hd : Gives columns d rows fault) : Gives columns c (row :: rows) fault

/-- What reading all rows gives. -/
def outcome (rows : List Value) : Option Error → Except Error (List Value)
  | none => .ok rows
  | some e => .error e

namespace Reader

variable {columns : List Column} {c : Cursor} {rows : List Value} {fault : Option Error}

/-- A batch is a front of the rows, unless they end in an error before it is full. -/
theorem takeRows_gives (h : Gives columns c rows fault) (count : Nat)
    (hcount : count ≤ rows.length ∨ fault = none) :
    ∃ d, takeRows columns count c = (.ok (rows.take count), d) ∧
      Gives columns d (rows.drop count) fault := by
  induction h generalizing count with
  | @done c h =>
    cases count with
    | zero => exact ⟨c, rfl, .done h⟩
    | succ count => exact ⟨.finished, by rw [takeRows, h]; rfl, .done rfl⟩
  | @failed c e h =>
    obtain rfl : count = 0 := by simpa using hcount
    exact ⟨c, rfl, .failed h⟩
  | @more c d v row rows fault h hrow hd ih =>
    cases count with
    | zero => exact ⟨c, rfl, .more h hrow hd⟩
    | succ count =>
      obtain ⟨w, hw, hrest⟩ := ih count (by simpa using hcount)
      refine ⟨w, ?_, hrest⟩
      simp only [takeRows, h, hrow, hw]
      rfl

/-- A batch that is not full when the rows end in an error is lost. -/
theorem takeRows_fails {e : Error} (h : Gives columns c rows (some e)) (count : Nat)
    (hcount : rows.length < count) : (takeRows columns count c).1 = .error e := by
  generalize hfault : some e = fault at h
  induction h generalizing count with
  | done _ => cases hfault
  | @failed c d h =>
    obtain ⟨count, rfl⟩ : ∃ k, count = k + 1 := ⟨count - 1, by omega⟩
    rw [takeRows, h]
    exact congrArg _ (Option.some.inj hfault).symm
  | @more c d v row rows fault h hrow hd ih =>
    obtain ⟨count, rfl⟩ : ∃ k, count = k + 1 := ⟨count - 1, by omega⟩
    have hfails := ih count (by simpa using hcount) hfault
    rw [takeRows, h]
    simp only
    rw [hrow]
    simp only
    split
    · rename_i hok
      rw [hok] at hfails
      cases hfails
    · exact hfails

section Batches

variable {size : Int} {fuel : Nat} {r r' : Reader}

theorem readBatchesWith_failed {e : Error} (h : (r.readBatch size).1 = .error e) :
    (readBatchesWith size (fuel + 1) r).1 = .error e := by
  rw [readBatchesWith]
  split
  · rename_i heq
    rw [heq] at h
    exact congrArg _ (Except.error.inj h)
  · rename_i heq
    rw [heq] at h
    cases h
  · rename_i heq
    rw [heq] at h
    cases h

theorem readBatchesWith_empty (h : r.readBatch size = (.ok [], r')) :
    (readBatchesWith size (fuel + 1) r).1 = .ok [] := by
  simp only [readBatchesWith, h]

theorem readBatchesWith_more {row : Value} {rows : List Value}
    (h : r.readBatch size = (.ok (row :: rows), r')) :
    (readBatchesWith size (fuel + 1) r).1 =
      (readBatchesWith size fuel r').1.map ((row :: rows) :: ·) := by
  simp only [readBatchesWith, h]
  rcases readBatchesWith size fuel r' with ⟨_ | _, _⟩ <;> rfl

theorem outcome_append (front rows : List Value) (fault : Option Error) :
    (outcome rows fault).map (front ++ ·) = outcome (front ++ rows) fault := by
  cases fault <;> rfl

end Batches

/-- **Batches put together** are all rows. -/
theorem readBatchesWith_gives (size : Int) (fuel : Nat) (r : Reader) (hcursor : r.cursor = some c)
    (h : Gives r.columns c rows fault) (hfuel : rows.length < fuel) :
    (readBatchesWith size fuel r).1.map List.flatten = outcome rows fault := by
  induction fuel generalizing r c rows with
  | zero => omega
  | succ fuel ih =>
    obtain ⟨n, hn⟩ : ∃ n, (max size 1).toNat = n + 1 := ⟨(max size 1).toNat - 1, by omega⟩
    by_cases hcount : n + 1 ≤ rows.length ∨ fault = none
    · -- the batch is full, or the rows end without an error
      obtain ⟨d, htake, hd⟩ := takeRows_gives h _ hcount
      have hbatch : r.readBatch size =
          (.ok (rows.take (n + 1)), { r with cursor := some d }) := by
        simp only [readBatch, hcursor, hn, htake]
      cases rows with
      | nil =>
        have hnone : fault = none := by simpa using hcount
        rw [readBatchesWith_empty hbatch, hnone]
        rfl
      | cons row rows =>
        have hrest := ih { r with cursor := some d } rfl hd (by
          rw [List.drop_succ_cons, List.length_drop]
          rw [List.length_cons] at hfuel
          omega)
        have hsplit := outcome_append (row :: rows.take n) (rows.drop n) fault
        rw [List.cons_append, List.take_append_drop] at hsplit
        rw [List.take_succ_cons] at hbatch
        rw [readBatchesWith_more hbatch, ← hsplit, ← List.drop_succ_cons, ← hrest]
        cases (readBatchesWith size fuel { r with cursor := some d }).1 <;> rfl
    · -- the error comes before the batch is full
      obtain ⟨hlt, hsome⟩ := not_or.1 hcount
      obtain ⟨e, rfl⟩ := Option.ne_none_iff_exists'.1 hsome
      have hfails := takeRows_fails h _ (Nat.lt_of_not_le hlt)
      rw [readBatchesWith_failed (e := e) (by simp only [readBatch, hcursor, hn, hfails])]
      rfl

/-- **Reading all rows** gives them, or the error they end in. -/
theorem readAll_gives (size : Int) (r : Reader) (hcursor : r.cursor = some c)
    (h : Gives r.columns c rows fault) (hbound : rows.length ≤ c.bound) :
    (r.readAll size).1 = outcome rows fault := by
  have hfuel : rows.length < (r.cursor.map (·.bound)).getD 0 + 2 := by
    rw [hcursor]
    simp only [Option.map_some, Option.getD_some]
    omega
  have hread := readBatchesWith_gives size _ r hcursor h hfuel
  rw [← hread, readAll, readBatches]
  rcases readBatchesWith size ((r.cursor.map (·.bound)).getD 0 + 2) r with ⟨_ | _, _⟩ <;> rfl

end Reader

end Runbook.Records
