import Mathlib.Tactic.Common
import Runbook.Drill

/-!
# Looking for descendants

A key that is no query by itself is looked for everywhere in a document: it is the test of a step
behind two slashes. For a plain name these are the elements of that name, wherever they stand.

* `readLevel?_alone`: an operand without operators is the expression, on every level.
* `read?_descendants`: a test behind two slashes is read as a step to all descendants.
* `accepted_of_select?`: what a path selects passes the test of its last step.
* `select?_descendants`: **what a test behind two slashes selects.**
-/

namespace Runbook.Xml

namespace XPath

variable {cs : List Char} {axis : Axis} {test : NodeTest} {e : Expr} {fuel n : Nat}

/-! ### Reading -/

/-- An operand without operators behind it is the expression of every level. -/
theorem readLevel?_alone {tables : List (List (String × BinaryOp))}
    (hwords : ∀ table ∈ tables, operator? table [] = none)
    (h : readUnary? fuel (skipSpace cs) = some (e, [])) :
    readLevel? (fuel + 1 + tables.length) tables cs = some (e, []) := by
  induction tables with
  | nil => rw [List.length_nil, Nat.add_zero, readLevel?, h]
  | cons table more ih =>
    have hmore := ih fun u hu => hwords u (List.mem_cons_of_mem _ hu)
    have htable := hwords table List.mem_cons_self
    rw [List.length_cons, ← Nat.add_assoc, readLevel?, hmore]
    simp only [skipSpace, List.dropWhile_nil]
    rw [Nat.add_right_comm, readMore?, htable]

/-- What the reading of a test begins with. -/
theorem head_of_readAxisAndTest? (h : readAxisAndTest? cs = some ((axis, test), [])) :
    ∃ c rest, cs = c :: rest ∧ c ≠ '.' ∧ c ≠ '/' ∧ isSpace c = false := by
  have hstart : ∀ {c : Char}, nameStart c = true → c ≠ '.' ∧ c ≠ '/' ∧ isSpace c = false := by
    intro c hc
    refine ⟨?_, ?_, ?_⟩
    · rintro rfl; revert hc; decide
    · rintro rfl; revert hc; decide
    · rw [Bool.eq_false_iff]
      intro hspace
      simp only [isSpace, Bool.or_eq_true, beq_iff_eq] at hspace
      rcases hspace with ((rfl | rfl) | rfl) | rfl <;> revert hc <;> decide
  unfold readAxisAndTest? at h
  split at h
  · exact ⟨_, _, rfl, by decide, by decide, by decide⟩
  · exact ⟨_, _, rfl, by decide, by decide, by decide⟩
  · split at h
    · cases h
    · rename_i hname
      cases cs with
      | nil => cases hname
      | cons c rest =>
        rw [readName?] at hname
        split at hname
        · rename_i hc
          exact ⟨c, rest, rfl, hstart hc⟩
        · cases hname

/-- A test alone is one step without predicates. -/
theorem readStep?_test (h : readAxisAndTest? cs = some ((axis, test), [])) :
    readStep? (n + 2) cs = some ([⟨axis, test, []⟩], []) := by
  obtain ⟨c, rest, rfl, hpoint, -, -⟩ := head_of_readAxisAndTest? h
  rw [readStep?, h]
  · rfl
  · rintro more hcs
    exact hpoint (List.cons.inj hcs).1
  · rintro more hcs
    exact hpoint (List.cons.inj hcs).1

theorem readSteps?_test (h : readAxisAndTest? cs = some ((axis, test), [])) :
    readSteps? (n + 4) cs = some ([⟨axis, test, []⟩], []) := by
  obtain ⟨c, rest, rfl, -, hslash, -⟩ := head_of_readAxisAndTest? h
  rw [readSteps?, readStepAndMore?, readStep?_test h]
  · rfl
  · rintro more hcs
    exact hslash (List.cons.inj hcs).1
  · rintro more hcs
    exact hslash (List.cons.inj hcs).1

/-- **A test behind two slashes** is a step to all descendants. -/
theorem read?_descendants {key : String}
    (h : readAxisAndTest? key.toList = some ((axis, test), [])) :
    Expr.read? ("//" ++ key) = some (.path true [anywhere, ⟨axis, test, []⟩]) := by
  obtain ⟨c, rest, hkey, -, -, hspace⟩ := head_of_readAxisAndTest? h
  have htext : ("//" ++ key).toList = '/' :: '/' :: key.toList := by simp
  have hskip : skipSpace key.toList = key.toList := by simp [skipSpace, hkey, hspace]
  have hslashes : skipSpace ('/' :: '/' :: key.toList) = '/' :: '/' :: key.toList := by
    simp [skipSpace, isSpace]
  have hbegins : beginsPath ('/' :: '/' :: key.toList) = true := by
    have hname : readName? ('/' :: '/' :: key.toList) = none := by
      rw [readName?, if_neg (by decide)]
    simp [beginsPath, hname, Text.isAsciiDigit]
  have hpath : ∀ n, readPath? (n + 6) ('/' :: '/' :: key.toList) =
      some (.path true [anywhere, ⟨axis, test, []⟩], []) := by
    intro n
    simp [readPath?, readRooted?, hbegins, hskip, readSteps?_test h]
  have hunary : ∀ n, readUnary? (n + 7) ('/' :: '/' :: key.toList) =
      some (.path true [anywhere, ⟨axis, test, []⟩], []) := by
    intro n
    simp [readUnary?, readUnion?, hpath, skipSpace]
  have hwords : ∀ table ∈ levels, operator? table [] = none := by
    simp [levels, operator?, afterWord?]
  have hfuel : 20 * (('/' :: '/' :: key.toList).length + 2) =
      (20 * key.toList.length + 66) + 7 + 1 + levels.length := by
    simp [levels]; omega
  unfold Expr.read?
  simp only [htext, hslashes]
  rw [hfuel, readLevel?_alone hwords (by rw [hslashes]; exact hunary _)]

/-- A plain name behind two slashes is a step to all elements of that name. -/
theorem readAxisAndTest?_name {name : String} (h : readName? cs = some (name, [])) :
    readAxisAndTest? cs = some ((.child, .name ⟨none, name⟩), []) := by
  have hstart : ∀ {c : Char} {rest}, cs = c :: rest → nameStart c = true := by
    rintro c rest rfl
    rw [readName?] at h
    split at h
    · assumption
    · cases h
  unfold readAxisAndTest?
  split
  · cases hstart rfl
  · cases hstart rfl
  · simp [h, readNamedTest?, skipSpace]

/-! ### Taking steps -/

variable {t : Index} {steps : List (PathStep Expr)} {places found : List Nat} {i : Nat}

theorem mem_inOrder : i ∈ inOrder places ↔ i ∈ places := by
  rw [inOrder, List.mem_eraseDups, List.mem_mergeSort]

/-- A step without predicates leads to the nodes on its axis that pass its test. -/
theorem takeSteps_plain {accepts : Nat → Bool} (h : test.accepts? axis t = some accepts) :
    takeSteps t (⟨axis, test, []⟩ :: steps) places =
      takeSteps t steps
        (inOrder (places.map fun i => (axis.places t i).filter accepts).flatten) := by
  have hnext : (places.mapM fun i => filterPlaces t [] ((axis.places t i).filter accepts)) =
      some (places.map fun i => (axis.places t i).filter accepts) := by
    simp only [filterPlaces]
    exact List.mapM_pure
  rw [takeSteps, h]
  simp only [hnext]

/-- Whatever comes before, the nodes that steps lead to pass the test of the last step. -/
theorem mem_lastStep (htaken : takeSteps t (steps ++ [⟨axis, test, []⟩]) places = some found)
    (hi : i ∈ found) : ∃ accepts, test.accepts? axis t = some accepts ∧ accepts i = true := by
  induction steps generalizing places with
  | nil =>
    cases haccepts : test.accepts? axis t with
    | none => simp [takeSteps, haccepts] at htaken
    | some accepts =>
      rw [List.nil_append, takeSteps_plain haccepts, takeSteps] at htaken
      obtain rfl := Option.some.inj htaken
      simp only [mem_inOrder, List.mem_flatten, List.mem_map] at hi
      obtain ⟨_, ⟨_, -, rfl⟩, hi⟩ := hi
      exact ⟨accepts, rfl, (List.mem_filter.1 hi).2⟩
  | cons step steps ih =>
    rw [List.cons_append, takeSteps] at htaken
    split at htaken
    · cases htaken
    · dsimp only at htaken
      split at htaken
      · exact ih htaken
      · cases htaken

/-- What a path selects passes the test of its last step. -/
theorem accepted_of_select? {query : String} {place : Nat} {absolute : Bool}
    (hread : Expr.read? query = some (.path absolute (steps ++ [⟨axis, test, []⟩])))
    (hselect : select? t place query = some found) (hi : i ∈ found) :
    ∃ accepts, test.accepts? axis t = some accepts ∧ accepts i = true := by
  rw [select?, hread] at hselect
  simp only [Expr.evaluate] at hselect
  cases htaken : takeSteps t (steps ++ [⟨axis, test, []⟩])
      [if absolute = true then 0 else place] with
  | none => simp [htaken] at hselect
  | some reached =>
    rw [htaken] at hselect
    obtain rfl := Option.some.inj hselect
    exact mem_lastStep htaken (List.mem_filter.1 hi).1

/-- **What a test behind two slashes selects**: the nodes that pass it, one step along its axis
from a node of the document. -/
theorem select?_descendants {key : String} {place : Nat} {accepts : Nat → Bool}
    (h : readAxisAndTest? key.toList = some ((axis, test), []))
    (haccepts : test.accepts? axis t = some accepts) :
    ∃ found, select? t place ("//" ++ key) = some found ∧ ∀ i, i ∈ found ↔ i ≠ 0 ∧
      accepts i = true ∧ ∃ j ∈ 0 :: t.below 0, isNodeAt t j = true ∧ i ∈ axis.places t j := by
  have hanywhere : anywhere.test.accepts? anywhere.axis t = some (isNodeAt t) := rfl
  let nodes := inOrder ([0].map fun i => (anywhere.axis.places t i).filter (isNodeAt t)).flatten
  let reached := inOrder (nodes.map fun j => (axis.places t j).filter accepts).flatten
  have htaken : takeSteps t [anywhere, ⟨axis, test, []⟩] [0] = some reached := by
    rw [show anywhere = ⟨anywhere.axis, anywhere.test, []⟩ from rfl, takeSteps_plain hanywhere,
      takeSteps_plain haccepts, takeSteps]
  have hselect : select? t place ("//" ++ key) = some (reached.filter (· != 0)) := by
    rw [select?, read?_descendants h]
    simp only [Expr.evaluate, if_true, htaken, Option.map_some]
  refine ⟨_, hselect, fun i => ?_⟩
  have hnodes : ∀ j, j ∈ nodes ↔ j ∈ 0 :: t.below 0 ∧ isNodeAt t j = true := by
    simp [nodes, mem_inOrder, anywhere, Axis.places]
  have hreached : i ∈ reached ↔ ∃ j ∈ nodes, i ∈ axis.places t j ∧ accepts i = true := by
    simp [reached, mem_inOrder]
  simp only [List.mem_filter, bne_iff_ne, hreached, hnodes]
  constructor
  · rintro ⟨⟨j, ⟨hj, hnode⟩, hplace, hpass⟩, hi⟩
    exact ⟨hi, hpass, j, hj, hnode, hplace⟩
  · rintro ⟨hi, hpass, j, hj, hnode, hplace⟩
    exact ⟨⟨j, ⟨hj, hnode⟩, hplace, hpass⟩, hi⟩

end XPath

end Runbook.Xml
