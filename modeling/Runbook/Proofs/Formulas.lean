import Runbook.Proofs.LetterCase
import Runbook.Proofs.ReadRoutes
import Runbook.Proofs.Results

/-!
# What formulas assert

A formula joins groups of conditions, and each condition compares two operands. All operands are
resolved, in their order, before anything is joined: the first one that cannot be resolved is what
the evaluation fails with. If all are resolved, the verdict is what the formula asserts.

* `Condition.Asserts`, `Group.Asserts`, `Formula.Asserts`: **what a formula asserts** of a store.
* `Formula.known_of_ofMap`: a formula from settings has operators that there are.
* `Condition.holds_eq`, `Group.holds_eq`, `Formula.evaluate_eq`: evaluation resolves all operands,
  level by level.
* `Formula.Rearranges`: the same groups and conditions in another order.
* `evaluate_asserts`: **the verdict on a formula**, and what its evaluation fails with.
-/

namespace Runbook

open Runbook.Text

/-! ### What is asserted -/

/-- The text that an operand is resolved to: an operand that cannot be resolved has none. -/
def Store.resolved (s : Store) (operand : Option String) : Option String :=
  match s.operand operand with
  | .ok text => text
  | .error _ => none

/-- What an operator asserts of two operands. Half of the operators deny what the others assert. -/
def Operator.Asserts : Operator → Option String → Option String → Prop
  | .equals, first, second => equal first second = true
  | .notEqual, first, second => ¬ equal first second = true
  | .isNull, first, _ => first = none
  | .isNotNull, first, _ => ¬ first = none
  | .isEmptyString, first, _ => first = none ∨ first = some ""
  | .isNotEmptyString, first, _ => ¬ (first = none ∨ first = some "")

/-- What members joined by an operator assert: all of them if it is "and", and one of them for any
other operator. -/
def Joins {α : Type} (operator : String) (holds : α → Prop) (members : List α) : Prop :=
  (IsAnd (trim operator).toList → ∀ x ∈ members, holds x) ∧
    (¬ IsAnd (trim operator).toList → ∃ x ∈ members, holds x)

/-- What a condition asserts of a store. -/
def Condition.Asserts (s : Store) (c : Condition) : Prop :=
  ∃ op, Operator.ofName? (lower c.operator) = some op ∧
    op.Asserts (s.resolved c.first) (s.resolved c.second)

/-- What a group asserts of a store; one without conditions asserts nothing that could fail. -/
def Group.Asserts (s : Store) (g : Group) : Prop :=
  g.conditions = [] ∨ Joins g.operator (Condition.Asserts s) g.conditions

/-- What a formula asserts of a store; one without groups asserts nothing that could fail. -/
def Formula.Asserts (s : Store) (f : Formula) : Prop :=
  f.groups = [] ∨ Joins f.between (Group.Asserts s) f.groups

/-- The operands of a condition. -/
def Condition.operands (c : Condition) : List (Option String) := [c.first, c.second]

/-- The operands of a group, condition by condition. -/
def Group.operands (g : Group) : List (Option String) := g.conditions.flatMap Condition.operands

/-- The operands of a formula, group by group. -/
def Formula.operands (f : Formula) : List (Option String) := f.groups.flatMap Group.operands

/-- A condition with an operator that there is. -/
def Condition.IsKnown (c : Condition) : Prop :=
  ∃ op, Operator.ofName? (lower c.operator) = some op

/-- A formula of such conditions. -/
def Formula.IsKnown (f : Formula) : Prop :=
  ∀ g ∈ f.groups, ∀ c ∈ g.conditions, c.IsKnown

section Operators

variable {s : Store} {c : Condition} {op : Operator} {first second : Option String}

theorem Operator.holds_iff : op.holds first second = true ↔ op.Asserts first second := by
  cases op <;> cases first <;> simp [Operator.holds, Operator.Asserts, Operator.isEmpty]

theorem asksForAll_iff {operator : String} :
    asksForAll operator = true ↔ IsAnd (trim operator).toList := by
  rw [asksForAll, beq_iff_eq, upper_eq_and_iff]

/-- Names of operators have no blanks. -/
theorem Operator.name_unblank {name : String} (h : Operator.ofName? name = some op) :
    ∀ c ∈ name.toList, isBlank c = false := by
  have hnames : ∀ op ∈ Operator.all, (op.name.toList.any isBlank) = false := by decide
  have hname : op.name = name := by simpa using List.find?_some h
  rw [← hname]
  simpa using hnames op (List.mem_of_find?_eq_some h)

/-- **Trimming an operator that there is** changes nothing. -/
theorem ofName?_trim (h : Operator.ofName? (lower c.operator) = some op) :
    Operator.ofName? (lower (trim c.operator)) = some op := by
  rwa [trim_of_lower_unblank (Operator.name_unblank h)]

end Operators

/-! ### Settings -/

section Settings

variable {v : Value} {c : Condition} {g : Group} {f : Formula} {entries : Entries}

theorem Condition.known_of_ofValue (h : Condition.ofValue v = .ok c) : c.IsKnown := by
  unfold Condition.ofValue at h
  obtain ⟨members, -, h⟩ := exists_of_bind_ok h
  simp only at h
  split at h
  · cases h
  · obtain ⟨operator, -, h⟩ := exists_of_bind_ok h
    split at h
    · cases h
    · rename_i hknown
      obtain ⟨first, -, h⟩ := exists_of_bind_ok h
      obtain ⟨second, -, h⟩ := exists_of_bind_ok h
      rw [← Except.ok.inj h]
      exact Option.ne_none_iff_exists'.1 fun hnone => hknown (by rw [hnone]; rfl)

theorem Group.known_of_ofValue (h : Group.ofValue v = .ok g) : ∀ c ∈ g.conditions, c.IsKnown := by
  unfold Group.ofValue at h
  obtain ⟨members, -, h⟩ := exists_of_bind_ok h
  obtain ⟨items, -, h⟩ := exists_of_bind_ok h
  obtain ⟨conditions, hconditions, h⟩ := exists_of_bind_ok h
  obtain ⟨operator, -, h⟩ := exists_of_bind_ok h
  obtain ⟨id, -, h⟩ := exists_of_bind_ok h
  rw [← Except.ok.inj h]
  exact forall_of_mapM hconditions fun _ _ => Condition.known_of_ofValue

/-- **A formula from settings** has operators that there are. -/
theorem Formula.known_of_ofMap (h : Formula.ofMap entries = .ok f) : f.IsKnown := by
  unfold Formula.ofMap at h
  split at h
  · obtain ⟨groups, hgroups, h⟩ := exists_of_bind_ok h
    obtain ⟨between, -, h⟩ := exists_of_bind_ok h
    rw [← Except.ok.inj h]
    exact forall_of_mapM hgroups fun _ _ => Group.known_of_ofValue
  · cases h

end Settings

/-! ### Evaluation -/

section Evaluation

variable {s : Store} {c : Condition} {g : Group} {f : Formula}

/-- Whether a condition holds of operands that are all resolved. -/
def Condition.truth (s : Store) (c : Condition) : Bool :=
  (Operator.ofName? (lower c.operator)).any fun op =>
    op.holds (s.resolved c.first) (s.resolved c.second)

/-- Whether a group holds of operands that are all resolved. -/
def Group.truth (s : Store) (g : Group) : Bool :=
  g.conditions.isEmpty || joinResults g.operator (g.conditions.map (Condition.truth s))

/-- Whether a formula holds of operands that are all resolved. -/
def Formula.truth (s : Store) (f : Formula) : Bool :=
  f.groups.isEmpty || joinResults f.between (f.groups.map (Group.truth s))

theorem Store.resolved_of_ok {operand text : Option String} (h : s.operand operand = .ok text) :
    s.resolved operand = text := by
  rw [Store.resolved, h]

theorem Condition.holds_eq (h : c.IsKnown) :
    c.holds s = (c.operands.mapM s.operand).map fun _ => c.truth s := by
  obtain ⟨op, hop⟩ := h
  rw [Condition.holds, Condition.operands, ofName?_trim hop, Condition.truth, hop]
  cases hfirst : s.operand c.first with
  | error e =>
    rw [mapM_cons_error hfirst]
    rfl
  | ok first =>
    rw [mapM_cons_ok hfirst, Store.resolved_of_ok hfirst]
    cases hsecond : s.operand c.second with
    | error e =>
      rw [mapM_cons_error hsecond]
      rfl
    | ok second =>
      rw [mapM_cons_ok hsecond, Store.resolved_of_ok hsecond]
      rfl

theorem Group.holds_eq (h : ∀ c ∈ g.conditions, c.IsKnown) :
    g.holds s = (g.operands.mapM s.operand).map fun _ => g.truth s := by
  have hall := mapM_flatMap (f := s.operand) fun c hc => Condition.holds_eq (s := s) (h c hc)
  rw [Group.holds, hall, Group.operands, Group.truth]
  cases (g.conditions.flatMap Condition.operands).mapM s.operand with
  | error e => rfl
  | ok texts => simp [Except.map, bind, Except.bind, pure, Except.pure]

/-- **Evaluating a formula** resolves all its operands first. -/
theorem Formula.evaluate_eq (h : f.IsKnown) :
    (f.evaluate s).map (·.satisfied) = (f.operands.mapM s.operand).map fun _ => f.truth s := by
  have hall := mapM_flatMap (f := s.operand) fun g hg => Group.holds_eq (s := s) (h g hg)
  rw [Formula.evaluate, hall, Formula.operands, Formula.truth]
  cases (f.groups.flatMap Group.operands).mapM s.operand with
  | error e => rfl
  | ok texts =>
    simp only [Except.map, bind, Except.bind, pure, Except.pure, List.isEmpty_map]
    cases f.groups.isEmpty <;> simp

/-! ### Verdicts -/

theorem Condition.truth_iff : c.truth s = true ↔ c.Asserts s := by
  rw [Condition.truth, Option.any_eq_true]
  exact exists_congr fun op => and_congr_right fun _ => Operator.holds_iff

theorem joinResults_iff {α : Type} {operator : String} {members : List α} {truth : α → Bool}
    {holds : α → Prop} (h : ∀ x, truth x = true ↔ holds x) :
    joinResults operator (members.map truth) = true ↔ Joins operator holds members := by
  rw [joinResults, Joins, ← asksForAll_iff]
  cases asksForAll operator <;> simp [h]

theorem Group.truth_iff : g.truth s = true ↔ g.Asserts s := by
  rw [Group.truth, Group.Asserts, Bool.or_eq_true, List.isEmpty_iff,
    joinResults_iff fun _ => Condition.truth_iff]

/-- A formula holds exactly if what it asserts is so. -/
theorem Formula.truth_iff : f.truth s = true ↔ f.Asserts s := by
  rw [Formula.truth, Formula.Asserts, Bool.or_eq_true, List.isEmpty_iff,
    joinResults_iff fun _ => Group.truth_iff]

/-- **The verdict on a formula**, if there is one. -/
theorem Formula.satisfied_iff {v : Verdict} (h : f.IsKnown) (hv : f.evaluate s = .ok v) :
    v.satisfied = true ↔ f.Asserts s := by
  have heval := Formula.evaluate_eq (s := s) h
  rw [hv] at heval
  cases htexts : f.operands.mapM s.operand with
  | error e =>
    rw [htexts] at heval
    cases heval
  | ok texts =>
    rw [htexts] at heval
    have hsame : v.satisfied = f.truth s := Except.ok.inj heval
    rw [hsame, Formula.truth_iff]

/-- **Evaluation fails** exactly as resolving the operands does. -/
theorem Formula.evaluate_error_iff {e : Error} (h : f.IsKnown) :
    f.evaluate s = .error e ↔ f.operands.mapM s.operand = .error e := by
  have heval := Formula.evaluate_eq (s := s) h
  cases hv : f.evaluate s with
  | error d =>
    cases htexts : f.operands.mapM s.operand with
    | error other =>
      rw [hv, htexts] at heval
      obtain rfl : d = other := Except.error.inj heval
      simp
    | ok texts =>
      rw [hv, htexts] at heval
      cases heval
  | ok v =>
    cases htexts : f.operands.mapM s.operand with
    | error other =>
      rw [hv, htexts] at heval
      cases heval
    | ok texts => simp

/-- A formula whose operands are all resolved has a verdict. -/
theorem Formula.exists_verdict (h : f.IsKnown)
    (hoperands : ∀ t ∈ f.operands, ∃ text, s.operand t = .ok text) : ∃ v, f.evaluate s = .ok v := by
  obtain ⟨texts, htexts⟩ := exists_mapM hoperands
  cases hv : f.evaluate s with
  | ok v => exact ⟨v, rfl⟩
  | error e =>
    rw [(Formula.evaluate_error_iff h).1 hv] at htexts
    cases htexts

end Evaluation

/-! ### Errors of operands -/

/-- An error of a condition. -/
def Error.isConditionFault : Error → Bool
  | .condition _ => true
  | _ => false

theorem Error.isConditionFault_of_isTextFault {e : Error} (h : e.isTextFault = true) :
    e.isConditionFault = false := by
  cases e <;> first | rfl | cases h

section Faults

variable {s : Store} {e : Error}

theorem parse_not_condition {expression : String} (h : Path.parse expression = .error e) :
    e.isConditionFault = false := by
  unfold Path.parse Path.tokenize at h
  split at h
  · cases h
    rfl
  · split at h
    · rename_i fault htokens
      split at htokens
      · cases htokens
      · rename_i fault _
        rw [← Except.error.inj h, ← Except.error.inj htokens]
        cases fault <;> rfl
    · split at h <;> cases h
      rfl

theorem drill_not_condition {v : Value} {segments : List Segment}
    (h : drill v segments = .error e) : e.isConditionFault = false := by
  obtain ⟨rfl, -⟩ := drill_error_iff.1 h
  rfl

theorem stringify_not_condition {v : Value} (h : v.stringify = .error e) :
    e.isConditionFault = false :=
  Error.isConditionFault_of_isTextFault (v.stringify_isTextFault h)

theorem fill_not_condition {inner : List Char} (h : s.fill inner = .error e) :
    e.isConditionFault = false := by
  unfold Store.fill at h
  split at h
  · cases h
    exact parse_not_condition ‹_›
  · split at h
    · split at h <;> cases h
      rfl
    · split at h
      · cases h
        exact drill_not_condition ‹_›
      · exact stringify_not_condition (error_of_map_error h)

theorem fillAll_not_condition {pieces : List Template.Piece} (h : s.fillAll pieces = .error e) :
    e.isConditionFault = false := by
  induction pieces with
  | nil => cases h
  | cons piece pieces ih =>
    cases piece with
    | char c =>
      rw [Store.fillAll] at h
      split at h
      · cases h
      · rename_i hrest
        exact ih (hrest.trans (congrArg _ (Except.error.inj h)))
    | placeholder inner =>
      rw [Store.fillAll] at h
      split at h
      · cases h
        exact fill_not_condition ‹_›
      · split at h
        · cases h
        · rename_i hrest
          exact ih (hrest.trans (congrArg _ (Except.error.inj h)))

theorem get_not_condition {expression : String} (h : s.get (.str expression) = .error e) :
    e.isConditionFault = false := by
  have hpath : Path.ofValue (.str expression) = Path.parse expression := rfl
  rw [Store.get, hpath] at h
  split at h
  · unfold Store.read at h
    split at h
    · cases h
    · exact drill_not_condition h
  · cases h
    exact parse_not_condition ‹_›

/-- **No operand fails with an error of a condition.** -/
theorem operand_not_condition {operand : Option String} (h : s.operand operand = .error e) :
    e.isConditionFault = false := by
  cases operand with
  | none => cases h
  | some template =>
    rw [Store.operand] at h
    split at h
    · split at h
      · cases h
        exact get_not_condition ‹_›
      · cases h
      · exact stringify_not_condition (error_of_map_error h)
    · exact fillAll_not_condition (error_of_map_error (error_of_map_error h))

end Faults

/-! ### Other orders -/

/-- The same conditions in another order, joined by the same operator. -/
structure Group.Rearranges (g g' : Group) : Prop where
  operator : g.operator = g'.operator
  conditions : g.conditions.Perm g'.conditions

/-- The same groups in another order, each of them with its conditions in another order. -/
structure Formula.Rearranges (f f' : Formula) : Prop where
  between : f.between = f'.between
  groups : ∃ groups, f.groups.Perm groups ∧ List.Forall₂ Group.Rearranges groups f'.groups

section Orders

variable {α β : Type} {R : α → β → Prop} {xs : List α} {ys : List β} {operator : String}
  {s : Store} {g g' : Group} {f f' : Formula} {entries : Entries}

theorem joins_perm {zs : List α} {holds : α → Prop} (h : xs.Perm zs) :
    Joins operator holds xs ↔ Joins operator holds zs := by
  simp only [Joins, h.mem_iff]

theorem joins_forall₂ {P : α → Prop} {Q : β → Prop} (h : List.Forall₂ R xs ys)
    (hR : ∀ x y, R x y → (P x ↔ Q y)) : Joins operator P xs ↔ Joins operator Q ys := by
  have hboth : ((∀ x ∈ xs, P x) ↔ ∀ y ∈ ys, Q y) ∧ ((∃ x ∈ xs, P x) ↔ ∃ y ∈ ys, Q y) := by
    induction h with
    | nil => simp
    | cons hxy _ ih =>
      simp only [List.forall_mem_cons, List.exists_mem_cons_iff, hR _ _ hxy, ih.1, ih.2, and_self]
  rw [Joins, Joins, hboth.1, hboth.2]

theorem Group.Rearranges.asserts (h : g.Rearranges g') : g.Asserts s ↔ g'.Asserts s := by
  have hnil : g.conditions = [] ↔ g'.conditions = [] := by
    rw [← List.length_eq_zero_iff, h.conditions.length_eq, List.length_eq_zero_iff]
  rw [Group.Asserts, Group.Asserts, hnil, h.operator, joins_perm h.conditions]

/-- **A rearranged formula** asserts the same. -/
theorem Formula.Rearranges.asserts (h : f.Rearranges f') : f.Asserts s ↔ f'.Asserts s := by
  obtain ⟨groups, hperm, hgroups⟩ := h.groups
  have hnil : f.groups = [] ↔ f'.groups = [] := by
    rw [← List.length_eq_zero_iff, hperm.length_eq, hgroups.length_eq, List.length_eq_zero_iff]
  rw [Formula.Asserts, Formula.Asserts, hnil, h.between, joins_perm hperm,
    joins_forall₂ hgroups fun _ _ => Group.Rearranges.asserts]

/-- Each condition of a rearranged formula is one of the formula's. -/
theorem Formula.Rearranges.exists_group (h : f.Rearranges f') (hg' : g' ∈ f'.groups) :
    ∃ g ∈ f.groups, ∀ c ∈ g'.conditions, c ∈ g.conditions := by
  obtain ⟨groups, hperm, hgroups⟩ := h.groups
  obtain ⟨g, hg, hsame⟩ := exists_of_forall₂ hgroups _ hg'
  exact ⟨g, hperm.mem_iff.2 hg, fun c hc => hsame.conditions.mem_iff.2 hc⟩

theorem Formula.Rearranges.known (h : f.Rearranges f') (hf : f.IsKnown) : f'.IsKnown := by
  intro g' hg' c hc
  obtain ⟨g, hg, hconditions⟩ := h.exists_group hg'
  exact hf g hg c (hconditions c hc)

theorem Formula.Rearranges.operands (h : f.Rearranges f') : ∀ t ∈ f'.operands, t ∈ f.operands := by
  intro t ht
  simp only [Formula.operands, Group.operands, List.mem_flatMap] at ht ⊢
  obtain ⟨g', hg', c, hc, ht⟩ := ht
  obtain ⟨g, hg, hconditions⟩ := h.exists_group hg'
  exact ⟨g, hg, c, hconditions c hc, ht⟩

/-- **A formula from settings is evaluated as it asserts.** Its evaluation never fails with an error
of a condition: it fails with what the first operand fails with that cannot be resolved, whatever
the others are. If all operands are resolved, the verdict is what the formula asserts, and no other
order of its groups, or of the conditions in them, changes it. -/
theorem evaluate_asserts (h : Formula.ofMap entries = .ok f) (s : Store) :
    (∀ fault, f.evaluate s ≠ .error (.condition fault)) ∧
    (∀ e, f.evaluate s = .error e ↔ ∃ before operand behind,
      f.operands = before ++ operand :: behind ∧ (∀ t ∈ before, ∃ text, s.operand t = .ok text) ∧
        s.operand operand = .error e) ∧
    (∀ v, f.evaluate s = .ok v → (v.satisfied = true ↔ f.Asserts s)) ∧
    ∀ f', f.Rearranges f' → (∀ t ∈ f.operands, ∃ text, s.operand t = .ok text) →
      ∃ v v', f.evaluate s = .ok v ∧ f'.evaluate s = .ok v' ∧ v.satisfied = v'.satisfied := by
  have hknown := Formula.known_of_ofMap h
  have hfails : ∀ e, f.evaluate s = .error e ↔ ∃ before operand behind,
      f.operands = before ++ operand :: behind ∧ (∀ t ∈ before, ∃ text, s.operand t = .ok text) ∧
        s.operand operand = .error e :=
    fun e => (Formula.evaluate_error_iff hknown).trans mapM_error_iff
  refine ⟨fun fault hfault => ?_, hfails, fun v => Formula.satisfied_iff hknown,
    fun f' hf' hoperands => ?_⟩
  · obtain ⟨_, _, _, -, -, hoperand⟩ := (hfails _).1 hfault
    cases operand_not_condition hoperand
  · have hknown' := hf'.known hknown
    obtain ⟨v, hv⟩ := Formula.exists_verdict hknown hoperands
    obtain ⟨v', hv'⟩ := Formula.exists_verdict hknown' fun t ht => hoperands t (hf'.operands t ht)
    refine ⟨v, v', hv, hv', ?_⟩
    rw [Bool.eq_iff_iff, Formula.satisfied_iff hknown hv, Formula.satisfied_iff hknown' hv',
      hf'.asserts]

/-- Settings with a first condition that holds of every store, and a second one with a variable. -/
def eitherSettings : Entries :=
  [(.str "groups", .list [.dict [
    (.str "group_operator", .str "Or"),
    (.str "conditions", .list [
      .dict [(.str "operator", .str "NotEqual"), (.str "first_value", .str "sent")],
      .dict [(.str "operator", .str "isNull"),
        (.str "first_value", .str "to $\x7bOrder.Receiver\x7d")]])]])]

/-- The formula that they describe, with its conditions in either order. -/
def eitherFormula (swapped : Bool) : Formula :=
  let sent : Condition := ⟨some "sent", "NotEqual", none⟩
  let receiver : Condition := ⟨some "to $\x7bOrder.Receiver\x7d", "isNull", none⟩
  ⟨[⟨if swapped then [receiver, sent] else [sent, receiver], "Or", none⟩], "AND"⟩

/-- The first condition is enough for the formula, but an absent variable that is an error is one
all the same; where it is not, the formula holds in both orders. -/
theorem evaluate_eitherFormula :
    Formula.ofMap eitherSettings = .ok (eitherFormula false) ∧
    (eitherFormula false).evaluate (.empty .throwError) =
      .error (.missingVariable "Order" "Receiver") ∧
    ∃ v v', (eitherFormula false).evaluate (.empty .keepAsIs) = .ok v ∧
      (eitherFormula true).evaluate (.empty .keepAsIs) = .ok v' ∧
      v.satisfied = true ∧ v'.satisfied = true := by
  have hsettings : Formula.ofMap eitherSettings = .ok (eitherFormula false) := rfl
  obtain ⟨-, hfails, -, -⟩ := evaluate_asserts hsettings (.empty .throwError)
  obtain ⟨-, -, hverdict, horders⟩ := evaluate_asserts hsettings (.empty .keepAsIs)
  have hbefore : ∀ t ∈ [some "sent", none],
      ∃ text, (Store.empty .throwError).operand t = .ok text := by
    intro t ht
    rcases List.mem_cons.1 ht with rfl | ht
    · exact ⟨_, rfl⟩
    · rw [List.mem_singleton.1 ht]
      exact ⟨_, rfl⟩
  have hresolved : ∀ t ∈ (eitherFormula false).operands,
      ∃ text, (Store.empty .keepAsIs).operand t = .ok text := by
    intro t ht
    have ht : t ∈ [some "sent", none, some "to $\x7bOrder.Receiver\x7d", none] := ht
    simp only [List.mem_cons, List.not_mem_nil, or_false] at ht
    rcases ht with rfl | rfl | rfl | rfl <;> exact ⟨_, rfl⟩
  have hswapped : (eitherFormula false).Rearranges (eitherFormula true) :=
    ⟨rfl, _, .refl _, .cons ⟨rfl, .swap _ _ _⟩ .nil⟩
  obtain ⟨v, v', hv, hv', hsame⟩ := horders _ hswapped hresolved
  have hholds : (eitherFormula false).Asserts (.empty .keepAsIs) := Formula.truth_iff.1 rfl
  have hsatisfied := (hverdict v hv).2 hholds
  exact ⟨hsettings, (hfails _).2 ⟨[some "sent", none], _, _, rfl, hbefore, rfl⟩, v, v', hv, hv',
    hsatisfied, hsame ▸ hsatisfied⟩

end Orders

end Runbook
