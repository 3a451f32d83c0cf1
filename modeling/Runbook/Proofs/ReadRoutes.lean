import Runbook.Proofs.FailingDrills
import Runbook.Proofs.Failures
import Runbook.Proofs.Interpolation
import Runbook.Proofs.Publication
import Runbook.Proofs.ReadingBack

/-!
# One expression, four readings

An expression is read by itself, as a template, as the operand of a condition and as the guard of a
task. Each of them takes braces and blanks off in its own way, and three of them pass by the policy
for absent variables. They come to the same value and to the same text.

* `Spells`: the texts that stand for an expression.
* `parse_spells`: they have one path.
* `Store.shown`, `shown_error`: the text of what an expression reads, and what it fails with.
* `resolve_wrapped`, `operand_spelled`, `guardText_wrapped`: the text in each place.
* `Task.run_guarded`: what becomes of a task with such a guard.
* `readings_agree`: **all readings of an expression agree.**
-/

namespace Runbook

open Runbook.Text Runbook.Path

/-- A text with blanks around it. -/
def Pads (padded s : String) : Prop :=
  ∃ before after, (∀ c ∈ before, isBlank c = true) ∧ (∀ c ∈ after, isBlank c = true) ∧
    padded.toList = before ++ s.toList ++ after

/-- An expression without braces. -/
structure IsBraceless (e : String) : Prop where
  no_open : '\x7b' ∉ e.toList
  no_close : '\x7d' ∉ e.toList

/-- **The texts that stand for an expression**: itself and the placeholder of it, with blanks
around them or without. -/
def Spells (t e : String) : Prop :=
  Pads t e ∨ Pads t (wrapped e.toList)

/-- The text of what an expression reads. -/
def Store.shown (s : Store) (e : String) : Except Error String :=
  (s.get (.str e)).bind Value.stringify

variable {e t : String} {p : Path} {s : Store}

/-! ### One path -/

theorem Pads.trimChars_eq (h : Pads t e) : trimChars t.toList = trimChars e.toList := by
  obtain ⟨before, after, hbefore, hafter, ht⟩ := h
  rw [ht, trimChars_around hbefore hafter]

theorem trimChars_wrapped (cs : List Char) :
    trimChars (wrapped cs).toList = (wrapped cs).toList := by
  rw [wrapped, String.toList_ofList, trimChars_written]

/-- Without braces, nothing but blanks is taken off. -/
theorem unwrapChars_braceless (he : IsBraceless e) : unwrapChars e.toList = trimChars e.toList := by
  rw [unwrapChars]
  split
  · rename_i rest htrim
    have hopen : '\x7b' ∈ trimChars e.toList := by simp [htrim]
    exact absurd (mem_of_mem_trimChars hopen) he.no_open
  · rfl

/-- What is between the braces is what the expression is without its blanks. -/
theorem unwrapChars_spells (he : IsBraceless e) (ht : Spells t e) :
    unwrapChars t.toList = unwrapChars e.toList := by
  have htrimmed : ∀ {a b : List Char}, trimChars a = trimChars b → unwrapChars a = unwrapChars b :=
    fun h => by rw [unwrapChars, unwrapChars, h]
  rcases ht with ht | ht
  · exact htrimmed ht.trimChars_eq
  · rw [htrimmed ht.trimChars_eq, wrapped, String.toList_ofList, unwrapChars_written,
      unwrapChars_braceless he]

theorem isBlankText_spells (ht : Spells t e) (he : isBlankText e = false) :
    isBlankText t = false := by
  rw [Bool.eq_false_iff, Ne, isBlankText_iff] at he ⊢
  rcases ht with ht | ht
  · rwa [ht.trimChars_eq]
  · rw [ht.trimChars_eq, trimChars_wrapped, wrapped, String.toList_ofList]
    exact List.cons_ne_nil _ _

/-- **All spellings of an expression have its path.** -/
theorem parse_spells (he : IsBraceless e) (ht : Spells t e) (hp : parse e = .ok p) :
    parse t = .ok p := by
  obtain ⟨hblank, segments, htokens, hpath⟩ := parse_ok_iff.1 hp
  refine parse_ok_iff.2 ⟨isBlankText_spells ht hblank, segments, ?_, hpath⟩
  rw [unwrapChars_spells he ht, htokens]

theorem Pads.self (e : String) : Pads e e :=
  ⟨[], [], by simp, by simp, by simp⟩

theorem Pads.trim_eq (h : Pads t (wrapped e.toList)) : trim t = wrapped e.toList := by
  rw [trim, h.trimChars_eq, trimChars_wrapped, String.ofList_toList]

/-! ### What an expression reads -/

theorem get_of_parse (hp : parse e = .ok p) : s.get (.str e) = s.read p := by
  have hpath : Path.ofValue (.str e) = .ok p := hp
  rw [Store.get, hpath]

theorem get_spells (he : IsBraceless e) (ht : Spells t e) (hp : parse e = .ok p) :
    s.get (.str t) = s.get (.str e) := by
  rw [get_of_parse hp, get_of_parse (parse_spells he ht hp)]

namespace Json

theorem keyText_error {k : Value} {f : Error} (h : keyText k = .error f) :
    f.isTextFault = true := by
  unfold keyText at h
  split at h
  · cases h
  · cases h
  · exact integerText_error h
  · cases h
  · split at h
    · cases h
    · cases h
      rfl

theorem decimalText_error {d : Decimal} {f : Error} (h : decimalText d = .error f) :
    f.isTextFault = true := by
  unfold decimalText at h
  split at h
  · exact integerText_error h
  · cases h

mutual

theorem compact_error (v : Value) {f : Error} (h : compact v = .error f) :
    f.isTextFault = true := by
  cases v with
  | int n => exact integerText_error (error_of_map_error (by rwa [compact] at h))
  | list items => exact compactItems_error items (error_of_map_error (by rwa [compact] at h))
  | tuple items => exact compactItems_error items (error_of_map_error (by rwa [compact] at h))
  | dict entries => exact compactMembers_error entries (error_of_map_error (by rwa [compact] at h))
  | mapping entries =>
    exact compactMembers_error entries (error_of_map_error (by rwa [compact] at h))
  | decimal d =>
    rw [compact] at h
    split at h
    · exact decimalText_error (error_of_map_error h)
    · cases h
  | bytes | byteArray | date | dateTime | time | object | type =>
    exact Value.text_isTextFault _ (error_of_map_error (by simpa only [compact] using h))
  | _ =>
    unfold compact at h
    cases h

theorem compactItems_error (vs : List Value) {f : Error} (h : compactItems vs = .error f) :
    f.isTextFault = true := by
  cases vs with
  | nil => cases h
  | cons v vs =>
    rw [compactItems] at h
    split at h
    · cases h
      exact compact_error v ‹_›
    · split at h
      · cases h
        exact compactItems_error vs ‹_›
      · cases h

theorem compactMembers_error (es : List (Value × Value)) {f : Error}
    (h : compactMembers es = .error f) : f.isTextFault = true := by
  cases es with
  | nil => cases h
  | cons entry es =>
    obtain ⟨k, v⟩ := entry
    rw [compactMembers] at h
    split at h
    · cases h
      exact keyText_error ‹_›
    · split at h
      · cases h
        exact compact_error v ‹_›
      · split at h
        · cases h
          exact compactMembers_error es ‹_›
        · cases h

end

end Json

theorem Value.stringify_isTextFault (v : Value) {f : Error} (h : v.stringify = .error f) :
    f.isTextFault = true := by
  cases v with
  | mapping entries | dict entries | list items | tuple items =>
    exact Json.compact_error _ (error_of_map_error (by simpa only [stringify, toJson] using h))
  | null | bool | str | policy | document | rootElement =>
    unfold stringify at h
    cases h
  | _ => exact text_isTextFault _ (by simpa only [stringify] using h)

/-- A value without a text in templates is no fault of an expression or a variable. -/
theorem Value.stringify_error (v : Value) {f : Error} (h : v.stringify = .error f) :
    f.isStoreError = false :=
  Error.isStoreError_of_isTextFault (v.stringify_isTextFault h)

theorem shown_absent (hp : parse e = .ok p) (hv : s.lookup? p.base = none) :
    s.shown e = .ok "" := by
  rw [Store.shown, get_of_parse hp, Store.read, hv]
  rfl

theorem shown_present {v : Value} (hp : parse e = .ok p) (hv : s.lookup? p.base = some v) :
    s.shown e = (drill v p.segments).bind Value.stringify := by
  rw [Store.shown, get_of_parse hp, Store.read, hv]

/-- **A reading fails for its value only**: not for the expression, once that has a path, and not
for an absent variable. -/
theorem shown_error {f : Error} (hp : parse e = .ok p) (h : s.shown e = .error f) :
    f.isStoreError = false := by
  cases hv : s.lookup? p.base with
  | none =>
    rw [shown_absent hp hv] at h
    cases h
  | some v =>
    rw [shown_present hp hv] at h
    cases hdrill : drill v p.segments with
    | error d =>
      obtain ⟨rfl, -⟩ := drill_error_iff.1 hdrill
      rw [hdrill] at h
      cases h
      rfl
    | ok w =>
      rw [hdrill] at h
      exact w.stringify_error h

/-! ### The placeholder of an expression -/

theorem ne_nil_of_parse (hp : parse e = .ok p) : e.toList ≠ [] := by
  obtain ⟨hblank, -⟩ := parse_ok_iff.1 hp
  intro hnil
  simp [isBlankText, hnil] at hblank

theorem isContent_of_parse (he : IsBraceless e) (hp : parse e = .ok p) :
    Template.IsContent e.toList :=
  ⟨ne_nil_of_parse hp, he.no_open, he.no_close⟩

/-- The placeholder of an expression is a single one. -/
theorem single?_wrapped (hcontent : Template.IsContent e.toList) :
    Template.single? (wrapped e.toList) = some e := by
  have hopens : Template.placeholder? (wrapped e.toList).toList = some (e.toList, []) :=
    Template.placeholder?_eq_some.2
      ⟨hcontent, by rw [wrapped, String.toList_ofList, List.append_nil]⟩
  rw [Template.single?, hopens]
  exact congrArg some String.ofList_toList

/-- **As a template**: the text of what is read, if the variable is present. -/
theorem resolve_wrapped (he : IsBraceless e) (hp : parse e = .ok p) (hbase : s.has p.base = true) :
    s.resolve (wrapped e.toList) = s.shown e := by
  obtain ⟨v, hv⟩ := Option.isSome_iff_exists.1 hbase
  rw [wrapped, Store.resolve_written (isContent_of_parse he hp), shown_present hp hv, Store.fill,
    String.ofList_toList, hp]
  simp only [hv]
  cases drill v p.segments with
  | error f => rfl
  | ok w => cases hw : w.stringify <;> simp [Except.map, Except.bind, hw]

section Operand

variable (he : IsBraceless e) (hp : parse e = .ok p) (ht : Pads t (wrapped e.toList))

include he hp ht

theorem operand_spelled : s.operand (some t) = match s.get (.str e) with
    | .error f => .error f
    | .ok .null => .ok none
    | .ok v => v.stringify.map some := by
  have hsame : s.get (.str (wrapped e.toList)) = s.get (.str e) :=
    get_spells he (.inr (.self _)) hp
  rw [Store.operand, ht.trim_eq, single?_wrapped (isContent_of_parse he hp)]
  exact congrArg (fun r : Except Error Value => match r with
    | .error f => Except.error f
    | .ok .null => .ok none
    | .ok v => v.stringify.map some) hsame

/-- **As an operand**, anything but null is the text of what is read. -/
theorem operand_shown (hget : s.get (.str e) ≠ .ok .null) :
    s.operand (some t) = (s.shown e).map some := by
  rw [operand_spelled he hp ht, Store.shown]
  split
  · rename_i f hf
    rw [hf]
    rfl
  · exact absurd ‹_› hget
  · rename_i v hv
    rw [hv]
    rfl

/-- An operand is absent exactly if null is read. -/
theorem operand_none_iff : s.operand (some t) = .ok none ↔ s.get (.str e) = .ok .null := by
  constructor
  · intro hnone
    by_contra hget
    rw [operand_shown he hp ht hget] at hnone
    cases hshown : s.shown e <;> simp [hshown, Except.map] at hnone
  · intro hget
    rw [operand_spelled he hp ht, hget]

theorem operand_error {f : Error} (h : s.operand (some t) = .error f) : f.isStoreError = false := by
  by_cases hget : s.get (.str e) = .ok .null
  · rw [(operand_none_iff he hp ht).2 hget] at h
    cases h
  · rw [operand_shown he hp ht hget] at h
    exact shown_error hp (error_of_map_error h)

end Operand

/-- **As a guard**: the text of what is read. -/
theorem guardText_wrapped (he : IsBraceless e) (hp : parse e = .ok p) :
    guardText s (wrapped e.toList) = s.shown e := by
  rw [guardText, single?_wrapped (isContent_of_parse he hp)]
  rfl

/-! ### The guard of a task -/

namespace Task

variable {t : Task} {g : String}

theorem trim_ne_wrapped {a : String} {cs : List Char} (h : (trim a).toList.head? ≠ some '$') :
    trim a ≠ wrapped cs := by
  rintro heq
  rw [heq, wrapped, String.toList_ofList] at h
  exact h rfl

/-- **A guard that is a placeholder** skips a task for the text of what is read. -/
theorem skipReason_spelled (he : IsBraceless e) (hp : parse e = .ok p)
    (hg : t.guard.text = .ok g) (hpads : Pads g (wrapped e.toList)) :
    t.skipReason s = (s.shown e).map fun shown =>
      if lower (trim shown) ∈ falseGuards then
        some ("when: " ++ wrapped e.toList ++ " -> '" ++ shown ++ "'")
      else none := by
  have htrim := hpads.trim_eq
  rw [skipReason]
  -- null and truth values are guards of their own, but their texts have no braces
  split
  · rename_i hguard
    rw [hguard] at hg
    obtain rfl := Except.ok.inj hg
    exact absurd htrim (trim_ne_wrapped (by decide))
  · rename_i b hguard
    rw [hguard] at hg
    obtain rfl := Except.ok.inj hg
    exact absurd htrim (trim_ne_wrapped (by cases b <;> decide))
  · rw [hg]
    simp only [bind, Except.bind, htrim, guardText_wrapped he hp, List.contains_iff_mem]
    cases s.shown e with
    | error f => rfl
    | ok shown =>
      simp only [Except.map]
      split <;> rfl

theorem skipped_iff (he : IsBraceless e) (hp : parse e = .ok p) (hg : t.guard.text = .ok g)
    (hpads : Pads g (wrapped e.toList)) : (∃ reason, t.skipReason s = .ok (some reason)) ↔
      ∃ shown, s.shown e = .ok shown ∧ lower (trim shown) ∈ falseGuards := by
  rw [skipReason_spelled he hp hg hpads]
  cases s.shown e with
  | error f => simp [Except.map]
  | ok shown => by_cases hfalse : lower (trim shown) ∈ falseGuards <;> simp [Except.map, hfalse]

theorem skipReason_error {f : Error} (he : IsBraceless e) (hp : parse e = .ok p)
    (hg : t.guard.text = .ok g) (hpads : Pads g (wrapped e.toList))
    (h : t.skipReason s = .error f) : f.isStoreError = false := by
  rw [skipReason_spelled he hp hg hpads] at h
  exact shown_error hp (error_of_map_error h)

/-- **What becomes of a task** whose guard is a placeholder: it is skipped, or begins, or the error
of the value leaves it before it begins. -/
theorem run_spelled (he : IsBraceless e) (hp : parse e = .ok p) (hg : t.guard.text = .ok g)
    (hpads : Pads g (wrapped e.toList)) (env : Surroundings) (workers : Value) (depth : Nat)
    (w : World) : t.run env workers depth w = match w.store.shown e with
      | .error f => (.error f, w)
      | .ok shown =>
        if lower (trim shown) ∈ falseGuards then
          t.skip depth ("when: " ++ wrapped e.toList ++ " -> '" ++ shown ++ "'") w
        else t.announce depth (t.doing env workers depth) w := by
  have hreason := skipReason_spelled (s := w.store) he hp hg hpads
  cases hshown : w.store.shown e with
  | error f =>
    rw [hshown] at hreason
    rw [run_of_guard hreason, shown_error hp hshown, if_neg Bool.false_ne_true]
    rfl
  | ok shown =>
    rw [hshown] at hreason
    by_cases hfalse : lower (trim shown) ∈ falseGuards
    · rw [Except.map, if_pos hfalse] at hreason
      rw [run_eq, guarded, Run.bind_ok (Run.store_run w), hreason]
      exact (if_pos hfalse).symm
    · rw [Except.map, if_neg hfalse] at hreason
      rw [run_unskipped hreason]
      exact (if_neg hfalse).symm

end Task

/-! ### Agreement -/

/-- **All readings of an expression agree**, for every store and policy. Its spellings have one path
and read one value. As a template it becomes the text of this value, if its variable is present. As
an operand it is absent exactly if the value is null, and the text otherwise. As a guard it skips a
task exactly if the text is a false one. The last two fail with no error of expressions or
variables, so never for a missing variable. -/
theorem readings_agree (he : IsBraceless e) (hp : parse e = .ok p) (s : Store) :
    (∀ t, Spells t e → parse t = .ok p ∧ s.get (.str t) = s.get (.str e)) ∧
    (s.has p.base = true → s.resolve (wrapped e.toList) = s.shown e) ∧
    (∀ t, Pads t (wrapped e.toList) →
      (s.operand (some t) = .ok none ↔ s.get (.str e) = .ok .null) ∧
      (s.get (.str e) ≠ .ok .null → s.operand (some t) = (s.shown e).map some) ∧
      ∀ f, s.operand (some t) = .error f → f.isStoreError = false) ∧
    ∀ (t : Task) g, t.guard.text = .ok g → Pads g (wrapped e.toList) →
      ((∃ reason, t.skipReason s = .ok (some reason)) ↔
        ∃ shown, s.shown e = .ok shown ∧ lower (trim shown) ∈ falseGuards) ∧
      (∀ f, t.skipReason s = .error f → f.isStoreError = false) ∧
      ∀ env workers depth w, w.store = s → t.run env workers depth w = match s.shown e with
        | .error f => (.error f, w)
        | .ok shown =>
          if lower (trim shown) ∈ falseGuards then
            t.skip depth ("when: " ++ wrapped e.toList ++ " -> '" ++ shown ++ "'") w
          else t.announce depth (t.doing env workers depth) w := by
  refine ⟨fun t ht => ⟨parse_spells he ht hp, get_spells he ht hp⟩, resolve_wrapped he hp,
    fun t ht => ⟨operand_none_iff he hp ht, operand_shown he hp ht,
      fun f => operand_error he hp ht⟩,
    fun t g hg hpads => ⟨Task.skipped_iff he hp hg hpads,
      fun f => Task.skipReason_error he hp hg hpads, fun env workers depth w hw => ?_⟩⟩
  rw [Task.run_spelled he hp hg hpads, hw]

/-- The placeholder of a variable, with blanks inside and around it. -/
def flagText : String := "\n$\x7b Env.Flag\x7d "

/-- A task with a placeholder as its guard. -/
def flagTask : Task := .mk "a" "set" .null .null (.str flagText) .stop [] []

/-- The placeholder of an absent variable is absent as an operand, and as a guard it skips a task,
even where absent variables are errors. -/
theorem readings_agree_absent :
    IsBraceless " Env.Flag" ∧ parse " Env.Flag" = .ok ⟨"Env", "Flag", []⟩ ∧
      parse flagText = .ok ⟨"Env", "Flag", []⟩ ∧
      (Store.empty .throwError).operand (some flagText) = .ok none ∧
      ∃ reason, flagTask.skipReason (.empty .throwError) = .ok (some reason) := by
  have he : IsBraceless " Env.Flag" := ⟨by decide, by decide⟩
  have hp : parse " Env.Flag" = .ok ⟨"Env", "Flag", []⟩ := by decide
  have hpads : Pads flagText (wrapped " Env.Flag".toList) :=
    ⟨['\n'], [' '], List.forall_mem_singleton.2 (by decide),
      List.forall_mem_singleton.2 (by decide), by decide⟩
  obtain ⟨hparse, -, hoperand, hguard⟩ := readings_agree he hp (.empty .throwError)
  refine ⟨he, hp, (hparse _ (.inr hpads)).1, (hoperand _ hpads).1.2 rfl, ?_⟩
  exact (hguard flagTask _ rfl hpads).1.2 ⟨"", rfl, by decide⟩

end Runbook
