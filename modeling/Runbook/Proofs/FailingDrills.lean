import Runbook.Proofs.DescendantQueries
import Runbook.Proofs.Drilling
import Runbook.Proofs.Results
import Runbook.Store

/-!
# Drills that fail

A step that cannot be taken leads to null: a member that is absent or fails, a position that is
not there, a query that cannot be read or that comes to no nodes. One step fails all the same: a
query that selects a comment or an instruction, because these have no text to show.

* `SelectsMarkup`: a key selects such a node of a document.
* `step_error_iff`: the step that fails, and its error.
* `MeetsMarkup`, `drill_error_iff`: a drill fails exactly if it comes to such a key.
* `lookup_named`, `drill_names`: paths to names, and plain names, never do.
* `hasMarkup_of_selects`, `drill_unmarked`: nor do documents without comments and instructions.
* `drill_fails_iff`: **when drilling and reading fail.**
-/

namespace Runbook

namespace Xml

/-- A comment or an instruction. -/
def Content.IsMarkup : Content → Prop
  | .comment _ => True
  | .instruction _ _ => True
  | _ => False

/-- The query that a key asks a document. -/
def queryOf (key : String) : String :=
  if looksLikeXPath key then key else "//" ++ key

/-- A key selects a comment or an instruction of a document. -/
def SelectsMarkup (d : Document) (key : String) : Prop :=
  ∃ places, XPath.select? d.index d.rootPlace (queryOf key) = some places ∧
    ∃ i ∈ places, (d.index.contentAt i).IsMarkup

variable {t : Index} {d : Document} {key : String} {i : Nat} {places : List Nat} {e : Error}

/-! ### The texts of found nodes -/

theorem shownText_markup (h : (t.contentAt i).IsMarkup) :
    shownText t i = .error (.value .markupNode) := by
  unfold shownText
  cases hcontent : t.contentAt i with
  | comment _ => rfl
  | instruction _ _ => rfl
  | _ => rw [hcontent] at h; cases h

theorem shownText_unmarked (h : ¬ (t.contentAt i).IsMarkup) : ∃ s, shownText t i = .ok s := by
  unfold shownText
  cases hcontent : t.contentAt i with
  | comment _ => rw [hcontent] at h; exact absurd trivial h
  | instruction _ _ => rw [hcontent] at h; exact absurd trivial h
  | _ => exact ⟨_, rfl⟩

/-- Found nodes have no texts exactly if one of them is a comment or an instruction. -/
theorem shownTexts_error_iff : places.mapM (shownText t) = .error e ↔
    e = .value .markupNode ∧ ∃ i ∈ places, (t.contentAt i).IsMarkup := by
  have hfault : ∀ {e}, places.mapM (shownText t) = .error e →
      e = .value .markupNode ∧ ∃ i ∈ places, (t.contentAt i).IsMarkup := by
    intro e h
    obtain ⟨before, i, behind, rfl, -, hi⟩ := mapM_error_iff.1 h
    by_cases hmarkup : (t.contentAt i).IsMarkup
    · rw [shownText_markup hmarkup] at hi
      exact ⟨(Except.error.inj hi).symm, i, by simp, hmarkup⟩
    · obtain ⟨s, hs⟩ := shownText_unmarked hmarkup
      rw [hs] at hi
      cases hi
  refine ⟨hfault, ?_⟩
  rintro ⟨rfl, i, hi, hmarkup⟩
  cases htexts : places.mapM (shownText t) with
  | error e => rw [(hfault htexts).1]
  | ok texts =>
    obtain ⟨s, hs⟩ := exists_of_mapM htexts i hi
    rw [shownText_markup hmarkup] at hs
    cases hs

/-- **A document refuses a key** exactly if the key selects a comment or an instruction. -/
theorem lookup_error_iff :
    lookup d key = .error e ↔ e = .value .markupNode ∧ SelectsMarkup d key := by
  have hquery : (if looksLikeXPath key then key else "//" ++ key) = queryOf key := rfl
  unfold lookup
  dsimp only
  rw [hquery, SelectsMarkup]
  generalize XPath.select? d.index d.rootPlace (queryOf key) = selected
  cases selected with
  | none => simp
  | some places =>
    have hmap : ((places.mapM (shownText d.index)).map foundValue = .error e) ↔
        places.mapM (shownText d.index) = .error e := by
      cases places.mapM (shownText d.index) <;> simp [Except.map]
    simp only [hmap, shownTexts_error_iff, Option.some.injEq, exists_eq_left']

/-! ### Queries for names -/

/-- Tests that pass elements and attributes only. -/
def XPath.NodeTest.IsNamed : XPath.NodeTest → Prop
  | .name _ => True
  | .any => True
  | .anyIn _ => True
  | _ => False

theorem namedAt_unmarked {axis : XPath.Axis} {check : Name → Bool}
    (h : XPath.namedAt axis t check i = true) : ¬ (t.contentAt i).IsMarkup := by
  rw [XPath.namedAt] at h
  split at h
  · rename_i hcontent
    rw [hcontent]
    exact id
  · rename_i hcontent
    rw [hcontent]
    exact id
  · cases h

theorem unmarked_of_named {axis : XPath.Axis} {test : XPath.NodeTest} {accepts : Nat → Bool}
    (hnamed : test.IsNamed) (haccepts : test.accepts? axis t = some accepts)
    (hi : accepts i = true) : ¬ (t.contentAt i).IsMarkup := by
  unfold XPath.NodeTest.accepts? at haccepts
  split at haccepts
  · obtain rfl := Option.some.inj haccepts
    exact namedAt_unmarked hi
  · obtain ⟨space, -, rfl⟩ := Option.map_eq_some_iff.1 haccepts
    exact namedAt_unmarked hi
  · obtain rfl := Option.some.inj haccepts
    exact namedAt_unmarked hi
  · obtain ⟨space, -, rfl⟩ := Option.map_eq_some_iff.1 haccepts
    exact namedAt_unmarked hi
  all_goals cases hnamed

/-- **A path to names is followed without failing**, whatever its earlier steps are. -/
theorem lookup_named {absolute : Bool} {steps : List (XPath.PathStep XPath.Expr)}
    {axis : XPath.Axis} {test : XPath.NodeTest} (hnamed : test.IsNamed)
    (hread : XPath.Expr.read? (queryOf key) = some (.path absolute (steps ++ [⟨axis, test, []⟩]))) :
    ∃ v, lookup d key = .ok v := by
  cases hlookup : lookup d key with
  | ok v => exact ⟨v, rfl⟩
  | error e =>
    obtain ⟨-, places, hselect, i, hi, hmarkup⟩ := lookup_error_iff.1 hlookup
    obtain ⟨accepts, haccepts, hpass⟩ := XPath.accepted_of_select? hread hselect hi
    exact absurd hmarkup (unmarked_of_named hnamed haccepts hpass)

/-- A plain name is no query by itself. -/
theorem queryOf_name (h : readName? key.toList = some (key, [])) : queryOf key = "//" ++ key := by
  have hplain : looksLikeXPath key = false := by
    unfold looksLikeXPath
    split
    · rename_i hkey
      rw [hkey, readName?, if_neg (by decide)] at h
      cases h
    · rename_i hkey
      rw [hkey, readName?, if_neg (by decide)] at h
      cases h
    · rfl
  rw [queryOf, hplain, if_neg Bool.false_ne_true]

/-- A plain name is looked for without failing. -/
theorem lookup_name (h : readName? key.toList = some (key, [])) : ∃ v, lookup d key = .ok v := by
  have hread := XPath.read?_descendants (XPath.readAxisAndTest?_name h)
  rw [← queryOf_name h] at hread
  have hnamed : (XPath.NodeTest.name ⟨none, key⟩).IsNamed := trivial
  exact lookup_named hnamed (hread.trans (by rw [List.cons_append, List.nil_append]))

/-! ### Documents without comments and instructions -/

mutual

/-- Whether a node is a comment or an instruction, or has one below it. -/
def Node.hasMarkup : Node → Bool
  | .element _ _ children => anyMarkup children
  | .comment _ => true
  | .instruction _ _ => true
  | _ => false

/-- Whether one of some nodes is a comment or an instruction, or has one below it. -/
def anyMarkup : List Node → Bool
  | [] => false
  | n :: ns => n.hasMarkup || anyMarkup ns

end

/-- Whether there is a comment or an instruction in a document. -/
def Document.hasMarkup (d : Document) : Bool := anyMarkup d.nodes

mutual

theorem hasMarkup_of_entry : ∀ (n : Node) {parent place : Nat} {entry : Entry},
    entry ∈ n.entries parent place → entry.content.IsMarkup → n.hasMarkup = true
  | .element name attributes children, parent, place, entry, hentry, hmarkup => by
    rw [Node.entries, List.cons_append, List.mem_cons, List.mem_append, List.mem_map] at hentry
    rcases hentry with rfl | ⟨a, -, rfl⟩ | hentry
    · cases hmarkup
    · cases hmarkup
    · exact anyMarkup_of_entry children hentry hmarkup
  | .text _, _, _, _, hentry, hmarkup => by
    obtain rfl := List.mem_singleton.1 hentry
    cases hmarkup
  | .comment _, _, _, _, _, _ => rfl
  | .instruction _ _, _, _, _, _, _ => rfl
  | .reference _, _, _, _, hentry, hmarkup => by
    obtain rfl := List.mem_singleton.1 hentry
    cases hmarkup

theorem anyMarkup_of_entry : ∀ (ns : List Node) {parent place : Nat} {entry : Entry},
    entry ∈ entriesOf ns parent place → entry.content.IsMarkup → anyMarkup ns = true
  | [], _, _, _, hentry, _ => by
    rw [entriesOf] at hentry
    cases hentry
  | n :: ns, parent, place, entry, hentry, hmarkup => by
    rw [entriesOf, List.mem_append] at hentry
    rw [anyMarkup, Bool.or_eq_true]
    exact hentry.imp (hasMarkup_of_entry n · hmarkup) (anyMarkup_of_entry ns · hmarkup)

end

/-- What can be selected is in the document. -/
theorem hasMarkup_of_selects (h : SelectsMarkup d key) : d.hasMarkup = true := by
  obtain ⟨places, -, i, -, hmarkup⟩ := h
  rw [Index.contentAt] at hmarkup
  split at hmarkup
  · rename_i entry hentry
    have hmem := Array.mem_of_getElem? hentry
    rw [Document.index, List.mem_toArray, List.mem_cons] at hmem
    rcases hmem with rfl | hmem
    · cases hmarkup
    · exact anyMarkup_of_entry d.nodes hmem hmarkup
  · cases hmarkup

end Xml

open Xml

/-- The document that an XML value is, as a whole or by its root. -/
def Value.document? : Value → Option Document
  | .document d => some d
  | .rootElement d => some d
  | _ => none

/-- **A drill comes to markup**: plain steps lead to an XML value, and the segment there is a key
that selects a comment or an instruction of it. -/
def MeetsMarkup (v : Value) (segs : List Segment) : Prop :=
  ∃ i w d key, Leads v (segs.take i) w ∧ segs[i]? = some (.key key) ∧ w.document? = some d ∧
    SelectsMarkup d key

variable {v w : Value} {s : Segment} {segs : List Segment} {i : Nat} {e : Error}

/-! ### The step that fails -/

/-- Only XML refuses a segment. -/
theorem step_error_iff : step v s = .error e ↔ e = .value .markupNode ∧
    ∃ d key, v.document? = some d ∧ s = .key key ∧ SelectsMarkup d key := by
  cases s with
  | index position => cases v <;> simp [step]
  | key key =>
    cases v with
    | document d => simp [step, Value.document?, lookup_error_iff]
    | rootElement d => simp [step, Value.document?, lookup_error_iff]
    | _ => simp [step, Value.document?]

theorem FailsAt.drill_eq (h : FailsAt v segs i e) : drill v segs = .error e := by
  simpa using h.drill_append []

/-- A drill fails where one of its steps does, be it a plain step or a query. -/
theorem failsAt_of_drill (h : drill v segs = .error e) : ∃ i, FailsAt v segs i e := by
  obtain ⟨w, leads⟩ | ⟨i, w, s, leads, at_i, ends⟩ | ⟨i, d, fails⟩ := drill_course v segs
  · rw [leads.drill_eq] at h
    cases h
  · have whole := append_split at_i []
    rw [List.append_nil] at whole
    rw [whole, leads.drill_append] at h
    refine ⟨i, w, s, leads, at_i, ?_⟩
    -- a query that answers is the end of the drill
    cases taken : step w s with
    | error d => simpa [drill, taken] using h
    | ok next => simp [drill, taken, ends] at h
  · obtain rfl : d = e := Except.error.inj (fails.drill_eq.symm.trans h)
    exact ⟨i, fails⟩

/-- **A drill fails** exactly if it comes to markup. -/
theorem drill_error_iff :
    drill v segs = .error e ↔ e = .value .markupNode ∧ MeetsMarkup v segs := by
  constructor
  · intro h
    obtain ⟨i, w, s, leads, at_i, fails⟩ := failsAt_of_drill h
    obtain ⟨rfl, d, key, hd, rfl, selects⟩ := step_error_iff.1 fails
    exact ⟨rfl, i, w, d, key, leads, at_i, hd, selects⟩
  · rintro ⟨rfl, i, w, d, key, leads, at_i, hd, selects⟩
    have fails : FailsAt v segs i (.value .markupNode) :=
      ⟨w, .key key, leads, at_i, step_error_iff.2 ⟨rfl, d, key, hd, rfl, selects⟩⟩
    exact fails.drill_eq

/-- **Unmarked documents are always drilled**: where no document that plain steps lead to has a
comment or an instruction in it, a drill gives a value. -/
theorem drill_unmarked (h : ∀ i w d, Leads v (segs.take i) w → w.document? = some d →
    d.hasMarkup = false) : ∃ r, drill v segs = .ok r := by
  cases hdrill : drill v segs with
  | ok r => exact ⟨r, rfl⟩
  | error e =>
    obtain ⟨-, i, w, d, key, leads, -, hd, selects⟩ := drill_error_iff.1 hdrill
    have hnone := h i w d leads hd
    rw [hasMarkup_of_selects selects] at hnone
    cases hnone

/-- **Plain names and positions are always drilled**, from every value. -/
theorem drill_names (h : ∀ key, .key key ∈ segs → readName? key.toList = some (key, [])) :
    ∃ r, drill v segs = .ok r := by
  cases hdrill : drill v segs with
  | ok r => exact ⟨r, rfl⟩
  | error e =>
    obtain ⟨-, i, w, d, key, -, at_i, -, selects⟩ := drill_error_iff.1 hdrill
    obtain ⟨r, hr⟩ := lookup_name (d := d) (h key (List.mem_of_getElem? at_i))
    rw [lookup_error_iff.2 ⟨rfl, selects⟩] at hr
    cases hr

/-! ### Reading -/

/-- Reading fails where its expression is none, or where its drill fails. -/
theorem Store.get_error_iff {s : Store} {expression : Value} : s.get expression = .error e ↔
    Path.ofValue expression = .error e ∨ ∃ p v, Path.ofValue expression = .ok p ∧
      s.lookup? p.base = some v ∧ drill v p.segments = .error e := by
  rw [Store.get]
  cases Path.ofValue expression with
  | error d => simp
  | ok p =>
    simp only [Store.read, reduceCtorEq, false_or, Except.ok.injEq, exists_and_left,
      exists_eq_left']
    cases s.lookup? p.base <;> simp

/-- **When drilling and reading fail.** A drill of any segments gives a value from every value,
except where it comes to a query that selects a comment or an instruction. Reading an expression
gives a value as well, unless the expression is malformed or the drill fails so. -/
theorem drill_fails_iff (v : Value) (segs : List Segment) (s : Store) (expression : Value) :
    ((∃ r, drill v segs = .ok r) ↔ ¬ MeetsMarkup v segs) ∧
    (∀ e, drill v segs = .error e ↔ e = .value .markupNode ∧ MeetsMarkup v segs) ∧
    ∀ e, s.get expression = .error e ↔
      Path.ofValue expression = .error e ∨ e = .value .markupNode ∧
        ∃ p w, Path.ofValue expression = .ok p ∧ s.lookup? p.base = some w ∧
          MeetsMarkup w p.segments := by
  refine ⟨?_, fun _ => drill_error_iff, fun e => ?_⟩
  · have hfails := @drill_error_iff v segs
    cases hdrill : drill v segs with
    | ok r =>
      have hnot : ¬ MeetsMarkup v segs := fun meets => by
        have herror := hfails.2 ⟨rfl, meets⟩
        rw [hdrill] at herror
        cases herror
      simp [hnot]
    | error e => simp [(hfails.1 hdrill).2]
  · rw [Store.get_error_iff]
    simp only [drill_error_iff]
    refine or_congr_right ⟨?_, ?_⟩
    · rintro ⟨p, w, hp, hw, rfl, meets⟩
      exact ⟨rfl, p, w, hp, hw, meets⟩
    · rintro ⟨rfl, p, w, hp, hw, meets⟩
      exact ⟨p, w, hp, hw, rfl, meets⟩

/-- A document with a comment in it. -/
def remarks : Document where
  before := []
  name := ⟨none, "a"⟩
  attributes := []
  children := [.comment "c", .text "x"]
  after := []

/-- A query for the comments of a document is a step that cannot be taken, and it fails. -/
theorem remarks_not_drilled :
    drill (.document remarks) [.key "//comment()"] = .error (.value .markupNode) ∧
      ¬ ∃ r, drill (.document remarks) [.key "//comment()"] = .ok r := by
  have hquery : queryOf "//comment()" = "//" ++ "comment()" := by decide +kernel
  have hread : XPath.readAxisAndTest? "comment()".toList = some ((.child, .comment), []) := by
    decide +kernel
  have hselects : SelectsMarkup remarks "//comment()" := by
    obtain ⟨places, hselect, hplaces⟩ : ∃ places, XPath.select? remarks.index remarks.rootPlace
        ("//" ++ "comment()") = some places ∧ ∀ i, i ∈ places ↔ i ≠ 0 ∧
          XPath.isCommentAt remarks.index i = true ∧ ∃ j ∈ 0 :: remarks.index.below 0,
            XPath.isNodeAt remarks.index j = true ∧ i ∈ XPath.Axis.places remarks.index j .child :=
      XPath.select?_descendants hread rfl
    refine ⟨places, hquery ▸ hselect, 2, (hplaces 2).2 ⟨by decide, by decide, 1, ?_⟩, trivial⟩
    exact ⟨by decide, by decide, by decide⟩
  have hfails : drill (.document remarks) [.key "//comment()"] = .error (.value .markupNode) :=
    drill_error_iff.2 ⟨rfl, 0, _, remarks, _, .here, rfl, rfl, hselects⟩
  refine ⟨hfails, ?_⟩
  rintro ⟨r, h⟩
  rw [hfails] at h
  cases h

end Runbook
