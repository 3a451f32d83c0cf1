import Mathlib.Data.List.TakeDrop
import Runbook.Drill

/-!
# Drilling piece by piece

A path can be cut anywhere, and its second part drilled from what its first part leads to, unless
the first part asks XML a query: the query answers for the whole path.

* `Leads`: segments that take plain steps from one value to another.
* `AsksAt`: the position at which a drill asks XML a query. There is at most one.
* `drill_course`: everything a drill can do: it takes plain steps to its end, or up to a query, or
  up to a step that fails.
* `drill_composes`: **the law of composition**, with its exception.
-/

namespace Runbook

variable {v w next : Value} {s : Segment} {segs rest more : List Segment} {i j : Nat}

/-- Plain steps, none of them a query into XML, lead from one value to another. -/
inductive Leads : Value → List Segment → Value → Prop
  | here {v : Value} : Leads v [] v
  | on {v next w : Value} {s : Segment} {rest : List Segment} (plain : endsPath v s = false)
      (taken : step v s = .ok next) (onward : Leads next rest w) : Leads v (s :: rest) w

/-- A drill of segments asks XML a query at a position: plain steps lead to an XML value, and the
segment there is a key that looks like an XPath. -/
def AsksAt (v : Value) (segs : List Segment) (i : Nat) : Prop :=
  ∃ w s, Leads v (segs.take i) w ∧ segs[i]? = some s ∧ endsPath w s = true

/-- A drill of segments fails at a position: plain steps lead there, and the next step fails. -/
def FailsAt (v : Value) (segs : List Segment) (i : Nat) (e : Error) : Prop :=
  ∃ w s, Leads v (segs.take i) w ∧ segs[i]? = some s ∧ step w s = .error e

/-! ### Plain steps -/

/-- Plain steps are what drilling takes, so the rest of a path goes on from where they lead. -/
theorem Leads.drill_append (h : Leads v segs w) (more : List Segment) :
    drill v (segs ++ more) = drill w more := by
  induction h with
  | here => rfl
  | on plain taken _ ih => simpa [drill, plain, taken] using ih

theorem Leads.drill_eq (h : Leads v segs w) : drill v segs = .ok w := by
  simpa [drill] using h.drill_append []

/-- Plain steps from null lead to null. -/
theorem drill_null (more : List Segment) : drill .null more = .ok .null := by
  induction more with
  | nil => rfl
  | cons s rest ih => cases s <;> simpa [drill, step, endsPath, Value.isXml] using ih

/-! ### The three courses of a drill -/

/-- One plain step more in front. -/
theorem AsksAt.cons (plain : endsPath v s = false) (taken : step v s = .ok next)
    (h : AsksAt next rest i) : AsksAt v (s :: rest) (i + 1) := by
  obtain ⟨w, q, leads, at_i, ends⟩ := h
  exact ⟨w, q, .on plain taken leads, at_i, ends⟩

theorem FailsAt.cons {e : Error} (plain : endsPath v s = false) (taken : step v s = .ok next)
    (h : FailsAt next rest i e) : FailsAt v (s :: rest) (i + 1) e := by
  obtain ⟨w, q, leads, at_i, fails⟩ := h
  exact ⟨w, q, .on plain taken leads, at_i, fails⟩

/-- What a drill can do: it takes plain steps to the end of its segments, or up to a query, or up
to a step that fails. -/
theorem drill_course (v : Value) (segs : List Segment) :
    (∃ w, Leads v segs w) ∨ (∃ i, AsksAt v segs i) ∨ ∃ i e, FailsAt v segs i e := by
  induction segs generalizing v with
  | nil => exact .inl ⟨v, .here⟩
  | cons s rest ih =>
    cases plain : endsPath v s with
    | true => exact .inr (.inl ⟨0, v, s, .here, rfl, plain⟩)
    | false =>
      cases taken : step v s with
      | error e => exact .inr (.inr ⟨0, e, v, s, .here, rfl, taken⟩)
      | ok next =>
        obtain ⟨w, leads⟩ | ⟨i, asks⟩ | ⟨i, e, fails⟩ := ih next
        · exact .inl ⟨w, .on plain taken leads⟩
        · exact .inr (.inl ⟨i + 1, asks.cons plain taken⟩)
        · exact .inr (.inr ⟨i + 1, e, fails.cons plain taken⟩)

/-- A path splits at a position of its first part. -/
theorem append_split (at_i : segs[i]? = some s) (more : List Segment) :
    segs ++ more = segs.take i ++ s :: (segs.drop (i + 1) ++ more) := by
  obtain ⟨bound, here⟩ := List.getElem?_eq_some_iff.mp at_i
  have whole : segs.take i ++ s :: segs.drop (i + 1) = segs := by
    rw [← here, List.getElem_cons_drop, List.take_append_drop]
  rw [← List.cons_append, ← List.append_assoc, whole]

/-- A query answers for the whole path: nothing behind it is looked at. -/
theorem AsksAt.drill_append (h : AsksAt v segs i) (more : List Segment) :
    drill v (segs ++ more) = drill v (segs.take (i + 1)) := by
  obtain ⟨w, s, leads, at_i, ends⟩ := h
  have answered : ∀ behind, drill w (s :: behind) = step w s := by
    intro behind
    cases taken : step w s <;> simp [drill, taken, ends]
  have upTo : segs.take (i + 1) = segs.take i ++ [s] := by
    rw [List.take_add_one, at_i]; rfl
  rw [upTo, append_split at_i, leads.drill_append, leads.drill_append, answered, answered]

/-- A step that fails ends the whole path with its error. -/
theorem FailsAt.drill_append {e : Error} (h : FailsAt v segs i e) (more : List Segment) :
    drill v (segs ++ more) = .error e := by
  obtain ⟨w, s, leads, at_i, fails⟩ := h
  rw [append_split at_i, leads.drill_append]
  simp [drill, fails]

/-! ### Where the query is -/

/-- Plain steps lead to one value. -/
theorem Leads.unique {w' : Value} (h : Leads v segs w) (h' : Leads v segs w') : w = w' := by
  have same := h.drill_eq.symm.trans h'.drill_eq
  exact Except.ok.inj same

/-- Plain steps cannot pass a query. -/
theorem Leads.not_asks (h : Leads v segs w) : ¬ AsksAt v segs i := by
  induction h generalizing i with
  | here =>
    rintro ⟨w, s, -, at_i, -⟩
    simp at at_i
  | @on v next w s rest plain taken _ ih =>
    rintro ⟨w', q, leads, at_i, ends⟩
    cases i with
    | zero =>
      cases leads
      obtain rfl : s = q := by simpa using at_i
      simp [plain] at ends
    | succ i =>
      cases leads with
      | on _ taken' onward =>
        obtain rfl : next = _ := Except.ok.inj (taken.symm.trans taken')
        exact ih ⟨w', q, onward, at_i, ends⟩

/-- A drill asks at most one query. -/
theorem AsksAt.unique (h : AsksAt v segs i) (h' : AsksAt v segs j) : i = j := by
  -- the plain steps up to the later query would pass the earlier one
  have passes : ∀ {a b : Nat}, a < b → AsksAt v segs a → ¬ AsksAt v segs b := by
    rintro a b lt ⟨w, s, leads, at_a, ends⟩ ⟨w', s', leads', -, -⟩
    refine leads'.not_asks (i := a) ⟨w, s, ?_, ?_, ends⟩
    · rwa [List.take_take, Nat.min_eq_left (Nat.le_of_lt lt)]
    · rwa [List.getElem?_take_of_lt lt]
  rcases Nat.lt_trichotomy i j with lt | same | lt
  · exact absurd h' (passes lt h)
  · exact same
  · exact absurd h (passes lt h')

/-! ### The law of composition -/

/-- **Drilling composes.** Where the first part of a path asks XML no query, drilling the whole
path is drilling its second part from what the first leads to. Where it asks one, the path up to
the query gives the answer for every continuation. Once a path leads to null, so does every path
that goes on from it. -/
theorem drill_composes (v : Value) (s1 s2 : List Segment) :
    ((∀ i, ¬ AsksAt v s1 i) → drill v (s1 ++ s2) = (drill v s1).bind (drill · s2)) ∧
    (∀ i, AsksAt v s1 i → drill v (s1 ++ s2) = drill v (s1.take (i + 1))) ∧
    (drill v s1 = .ok .null → drill v (s1 ++ s2) = .ok .null) := by
  refine ⟨fun noQuery => ?_, fun i asks => asks.drill_append s2, fun isNull => ?_⟩
  · obtain ⟨w, leads⟩ | ⟨i, asks⟩ | ⟨i, e, fails⟩ := drill_course v s1
    · rw [leads.drill_append, leads.drill_eq]; rfl
    · exact absurd asks (noQuery i)
    · have alone := fails.drill_append []
      rw [List.append_nil] at alone
      rw [fails.drill_append, alone]; rfl
  · obtain ⟨w, leads⟩ | ⟨i, asks⟩ | ⟨i, e, fails⟩ := drill_course v s1
    · obtain rfl : w = .null := Except.ok.inj (leads.drill_eq.symm.trans isNull)
      rw [leads.drill_append, drill_null]
    · have alone := asks.drill_append []
      rw [List.append_nil, isNull] at alone
      rw [asks.drill_append, ← alone]
    · have alone := fails.drill_append []
      rw [List.append_nil, isNull] at alone
      cases alone

/-- A document with two letters. -/
def letters : Xml.Document where
  before := []
  name := ⟨none, "letters"⟩
  attributes := []
  children := [.element ⟨none, "a"⟩ [] [.text "x"], .element ⟨none, "a"⟩ [] [.text "y"]]
  after := []

/-- A map that holds a list beside the document. -/
def lettersMap : Value :=
  .dict [(.str "page", .document letters), (.str "list", .list [.int 1, .int 2])]

/-- Through a list the path composes; the query at the page answers for what stands behind it; and
nothing is behind a name that is absent. -/
theorem drill_composes_letters :
    ((∀ i, ¬ AsksAt lettersMap [.key "list"] i) ∧
      drill lettersMap [.key "list", .index 1] = .ok (.int 2)) ∧
    (AsksAt lettersMap [.key "page", .key "//a", .key "b"] 1 ∧
      drill lettersMap [.key "page", .key "//a", .key "b", .index 0] =
        drill lettersMap [.key "page", .key "//a"]) ∧
    (drill lettersMap [.key "none"] = .ok .null ∧
      drill lettersMap [.key "none", .index 0, .key "//a"] = .ok .null) := by
  have toList : Leads lettersMap [.key "list"] (.list [.int 1, .int 2]) := .on rfl rfl .here
  have toPage : Leads lettersMap [.key "page"] (.document letters) := .on rfl rfl .here
  have noQuery : ∀ i, ¬ AsksAt lettersMap [.key "list"] i := fun _ => toList.not_asks
  have query : AsksAt lettersMap [.key "page", .key "//a", .key "b"] 1 :=
    ⟨_, .key "//a", toPage, rfl, by decide⟩
  refine ⟨⟨noQuery, ?_⟩, ⟨query, ?_⟩, rfl, ?_⟩
  · have parts := (drill_composes lettersMap [.key "list"] [.index 1]).1 noQuery
    rw [toList.drill_eq] at parts
    exact parts
  · exact (drill_composes lettersMap [.key "page", .key "//a", .key "b"] [.index 0]).2.1 1 query
  · exact (drill_composes lettersMap [.key "none"] [.index 0, .key "//a"]).2.2 rfl

end Runbook
