import Mathlib.Data.Sum.Basic
import Runbook.Proofs.History

/-!
# Operations of two sides

Two sides work on one store, each with its own operations in its own order. What an operation
answers depends on the variables it reads, and what it changes are the variables it touches. So
sides that keep off each other's variables do not notice each other, however they interleave.

* `Operation.touched`, `Operation.reads`: the variables of an operation, by its arguments alone.
* `perform_agree`: the step lemma. Stores that agree on an operation's variables give the same
  answer, and the stores behind it agree on what they agreed on.
* `view_agrees`: the run lemma. What one side sees of an interleaving is its own run.
* `interleaving_agrees`: **any interleaving of independent sides** is one side behind the other.
-/

namespace Runbook.Store

open Runbook.Text Template

/-! ## The variables of an operation -/

/-- The variable of an event that is about one. -/
def Event.base? : Event → Option Base
  | .wrote b _ => some b
  | .removed b => some b
  | .cleared => none

/-- The variables that an operation writes or removes. -/
def Operation.touched (op : Operation) : List Base := op.events.filterMap Event.base?

/-- The base variable that a placeholder names. -/
def placeholderBase? : Piece → Option Base
  | .char _ => none
  | .placeholder inner => namedBase? (.str (String.ofList inner))

/-- The base variables that the placeholders of a text name. -/
def templateBases (t : String) : List Base :=
  (pieces t.toList).filterMap placeholderBase?

/-- The variables that an operation reads. A removal reads whether its variable is there. -/
def Operation.reads : Operation → List Base
  | .remove name => (namedBase? name).toList
  | .lookup scope key _ => [(scope, key)]
  | .has scope key => [(scope, key)]
  | .contains name =>
    match name.asText? with
    | some text => (namedBase? (.str text)).toList
    | none => []
  | .get expression => (namedBase? expression).toList
  | .resolve template =>
    match template.asText? with
    | some text => templateBases text
    | none => []
  | _ => []

/-- Operations that are about base variables they name: single writes and removals, look-ups,
tests, expressions and templates. -/
def Operation.IsLocal : Operation → Prop
  | .set _ _ => True
  | .setScoped _ _ _ => True
  | .remove _ => True
  | .lookup _ _ _ => True
  | .has _ _ => True
  | .contains _ => True
  | .get _ => True
  | .resolve _ => True
  | _ => False

/-- An operation writes and removes nothing that another one reads, writes or removes. -/
def Operation.Spares (p q : Operation) : Prop :=
  ∀ b ∈ p.touched, b ∉ q.touched ∧ b ∉ q.reads

instance (p q : Operation) : Decidable (p.Spares q) :=
  inferInstanceAs (Decidable (∀ b ∈ p.touched, b ∉ q.touched ∧ b ∉ q.reads))

/-- Two sides keep off each other's variables. -/
def Independent (P Q : List Operation) : Prop :=
  ∀ p ∈ P, ∀ q ∈ Q, p.Spares q ∧ q.Spares p

instance (P Q : List Operation) : Decidable (Independent P Q) :=
  inferInstanceAs (Decidable (∀ p ∈ P, ∀ q ∈ Q, p.Spares q ∧ q.Spares p))

/-! ## Runs with their answers -/

/-- The answers of operations one after another. -/
def answers (s : Store) : List Operation → List (Except Error Value)
  | [] => []
  | op :: ops => (s.perform op).1 :: answers (s.perform op).2 ops

/-- The answers of two sides, each on its side. -/
def sideAnswers (s : Store) :
    List (Operation ⊕ Operation) → List (Except Error Value ⊕ Except Error Value)
  | [] => []
  | .inl p :: w => .inl (s.perform p).1 :: sideAnswers (s.perform p).2 w
  | .inr q :: w => .inr (s.perform q).1 :: sideAnswers (s.perform q).2 w

/-- The store behind the operations of two sides. -/
def runSides (s : Store) (w : List (Operation ⊕ Operation)) : Store :=
  s.run (w.map (Sum.elim id id))

/-- An order of the operations of two sides that keeps each side's own order. -/
inductive Interleaves : List Operation → List Operation → List (Operation ⊕ Operation) → Prop
  | nil : Interleaves [] [] []
  | left {P Q w} (p : Operation) (h : Interleaves P Q w) : Interleaves (p :: P) Q (.inl p :: w)
  | right {P Q w} (q : Operation) (h : Interleaves P Q w) : Interleaves P (q :: Q) (.inr q :: w)

/-- Stores with one policy that agree on some variables. -/
structure AgreeOn (F : Base → Prop) (s t : Store) : Prop where
  policy : s.policy = t.policy
  found : ∀ b, F b → s.lookup? b = t.lookup? b

variable {F : Base → Prop} {s t : Store} {op : Operation} {P Q : List Operation}
  {w : List (Operation ⊕ Operation)} {b : Base}

theorem AgreeOn.refl (F : Base → Prop) (s : Store) : AgreeOn F s s := ⟨rfl, fun _ _ => rfl⟩

theorem AgreeOn.symm (h : AgreeOn F s t) : AgreeOn F t s :=
  ⟨h.policy.symm, fun b hb => (h.found b hb).symm⟩

theorem AgreeOn.has (h : AgreeOn F s t) (hb : F b) : s.has b = t.has b := by
  rw [Store.has, Store.has, h.found b hb]

/-! ## One operation -/

theorem ne_clear (hop : op.IsLocal) : op ≠ .clear := by
  rintro rfl
  exact hop

theorem mem_touched : b ∈ op.touched ↔ op.Names b := by
  rw [Operation.touched, List.mem_filterMap]
  refine exists_congr fun e => and_congr_right fun _ => ?_
  cases e <;> simp [Event.base?, Event.Names]

/-- No local operation changes the policy. -/
theorem perform_policy (hop : op.IsLocal) (s : Store) : (s.perform op).2.policy = s.policy := by
  cases op with
  | set name v =>
    rcases assign_cases s name v with ⟨b, -, h⟩ | ⟨e, -, h⟩ <;>
      simp only [perform, h, afterWrite, put]
  | setScoped scope key v =>
    rcases setScoped_cases s scope key v with ⟨b, -, h⟩ | ⟨e, -, h⟩ <;>
      simp only [perform, h, afterWrite, put]
  | remove name =>
    rcases remove_cases s name with ⟨b, -, h⟩ | ⟨e, -, h⟩ <;> simp only [perform, h, erase]
  | lookup | has | contains | get | resolve => rfl
  | _ => exact absurd hop id

/-- An operation leaves alone what it does not touch. -/
theorem perform_spared (hop : op.IsLocal) (hb : b ∉ op.touched) (s : Store) :
    (s.perform op).2.lookup? b = s.lookup? b :=
  (careful s op).untouched (ne_clear hop) b fun hnames => hb (mem_touched.2 hnames)

theorem lookup?_apply_congr {vs ws : Variables} (h : vs.lookup? b = ws.lookup? b) (e : Event) :
    (e.apply vs).lookup? b = (e.apply ws).lookup? b := by
  cases e with
  | wrote c v => rw [Event.apply, Event.apply, Variables.lookup?_put, Variables.lookup?_put, h]
  | removed c => rw [Event.apply, Event.apply, Variables.lookup?_erase, Variables.lookup?_erase, h]
  | cleared => rfl

theorem lookup?_foldl_congr {vs ws : Variables} (h : vs.lookup? b = ws.lookup? b)
    (es : List Event) :
    (es.foldl Event.apply vs).lookup? b = (es.foldl Event.apply ws).lookup? b := by
  induction es generalizing vs ws with
  | nil => exact h
  | cons e es ih => exact ih (lookup?_apply_congr h e)

/-- What is found behind an operation depends on what was found before it. -/
theorem perform_lookup?_congr (h : s.lookup? b = t.lookup? b) (op : Operation) :
    (s.perform op).2.lookup? b = (t.perform op).2.lookup? b := by
  rw [lookup?, lookup?, perform_entries, perform_entries]
  exact lookup?_foldl_congr h op.events

/-- A placeholder is filled alike where its variable is found alike. -/
theorem fill_agree (h : AgreeOn F s t) {inner : List Char}
    (hread : ∀ b ∈ placeholderBase? (.placeholder inner), F b) : s.fill inner = t.fill inner := by
  cases hp : Path.parse (String.ofList inner) with
  | error e => rw [fill, fill, hp]
  | ok p =>
    have hnamed : placeholderBase? (.placeholder inner) = some p.base := namedBase?_ok hp
    have hfound : s.lookup? p.base = t.lookup? p.base := h.found _ (hread _ hnamed)
    rw [fill, fill, hp]
    simp only [hfound, h.policy]

/-- Pieces are filled alike where the variables of all their placeholders are found alike, so they
fail at the same placeholder if at all. -/
theorem fillAll_agree (h : AgreeOn F s t) {ps : List Piece}
    (hread : ∀ b ∈ ps.filterMap placeholderBase?, F b) : s.fillAll ps = t.fillAll ps := by
  induction ps with
  | nil => rfl
  | cons p ps ih =>
    have hrest : s.fillAll ps = t.fillAll ps := by
      refine ih fun b hb => hread b ?_
      obtain ⟨q, hq, hqb⟩ := List.mem_filterMap.1 hb
      exact List.mem_filterMap.2 ⟨q, List.mem_cons_of_mem _ hq, hqb⟩
    cases p with
    | char c => rw [fillAll, fillAll, hrest]
    | placeholder inner =>
      have hhere : s.fill inner = t.fill inner := fill_agree h fun b hb =>
        hread b (List.mem_filterMap.2 ⟨_, List.mem_cons_self, hb⟩)
      rw [fillAll, fillAll, hhere, hrest]

/-- **An operation answers alike** on stores that agree on what it reads. -/
theorem perform_answer (hop : op.IsLocal) (h : AgreeOn F s t) (hread : ∀ b ∈ op.reads, F b) :
    (s.perform op).1 = (t.perform op).1 := by
  cases op with
  | set name v =>
    -- whether a write succeeds is a matter of its name alone
    simp only [perform, assign]
    cases Path.ofValue name <;> rfl
  | setScoped scope key v =>
    cases hs : partText scope with
    | error e => simp only [perform, setScoped, hs, afterWrite]
    | ok scopeText =>
      cases hk : partText key with
      | error e => simp only [perform, setScoped, hs, hk, afterWrite]
      | ok keyText =>
        have hset : ∀ u : Store, u.setScoped scope key v =
            if isNull scope || isNull key || isBlankText scopeText || isBlankText keyText then
              .error (.malformed (Error.variableName scopeText keyText) .blankScopeOrKey)
            else .ok (u.put (trim scopeText, trim keyText) v) := by
          intro u
          rw [setScoped, hs, hk]
          rfl
        simp only [perform, hset]
        split <;> rfl
  | remove name =>
    simp only [perform, remove]
    cases hp : Path.ofValue name with
    | error e => rfl
    | ok p =>
      have hb : F p.base := hread _ (by simp [Operation.reads, namedBase?_ok hp])
      simp only [h.has hb]
  | lookup scope key default =>
    have hfound := h.found (scope, key) (hread _ (by simp [Operation.reads]))
    simp only [perform, hfound]
  | has scope key =>
    have hb : F (scope, key) := hread _ (by simp [Operation.reads])
    simp only [perform, h.has hb]
  | contains name =>
    simp only [perform, contains]
    cases ht : name.asText? with
    | none => rfl
    | some text =>
      simp only
      cases hp : Path.parse text with
      | error e => cases e <;> rfl
      | ok p =>
        have hnamed : namedBase? (.str text) = some p.base := namedBase?_ok hp
        have hb : F p.base := hread _ (by simp [Operation.reads, ht, hnamed])
        simp only [h.has hb]
  | get expression =>
    simp only [perform, get]
    cases hp : Path.ofValue expression with
    | error e => rfl
    | ok p =>
      have hb : F p.base := hread _ (by simp [Operation.reads, namedBase?_ok hp])
      simp only [read, h.found _ hb]
  | resolve template =>
    simp only [perform, resolveGiven, resolveValue]
    cases ht : template.asText? with
    | none => rfl
    | some text =>
      have hfill : s.fillAll (pieces text.toList) = t.fillAll (pieces text.toList) :=
        fillAll_agree h fun b hb =>
          hread b (by simpa only [Operation.reads, ht, templateBases] using hb)
      simp only [resolve, hfill]
  | _ => exact absurd hop id

/-- **The step lemma.** Stores that agree on what an operation reads give the same answer, and the
stores behind it agree on all they agreed on. -/
theorem perform_agree (hop : op.IsLocal) (h : AgreeOn F s t) (hread : ∀ b ∈ op.reads, F b) :
    (s.perform op).1 = (t.perform op).1 ∧ AgreeOn F (s.perform op).2 (t.perform op).2 := by
  refine ⟨perform_answer hop h hread, ?_, ?_⟩
  · rw [perform_policy hop, perform_policy hop, h.policy]
  · intro b hb
    exact perform_lookup?_congr (h.found b hb) op

/-- An operation that touches none of some variables is not noticed there. -/
theorem perform_unnoticed (hop : op.IsLocal) (h : AgreeOn F s t)
    (hspared : ∀ b ∈ op.touched, ¬ F b) : AgreeOn F (s.perform op).2 t := by
  refine ⟨?_, ?_⟩
  · rw [perform_policy hop, h.policy]
  · intro b hb
    have huntouched : b ∉ op.touched := fun ht => hspared b ht hb
    rw [perform_spared hop huntouched, h.found b hb]

/-! ## A whole run -/

theorem run_append (s : Store) (P Q : List Operation) : s.run (P ++ Q) = (s.run P).run Q := by
  rw [run, run, run, List.foldl_append]

/-- A run that touches none of some variables is not noticed there. -/
theorem run_unnoticed (hops : ∀ op ∈ P, op.IsLocal) (hspared : ∀ op ∈ P, ∀ b ∈ op.touched, ¬ F b)
    (s : Store) : AgreeOn F (s.run P) s := by
  induction P generalizing s with
  | nil => exact .refl F s
  | cons op ops ih =>
    have hrest := ih (fun q hq => hops q (by simp [hq])) (fun q hq => hspared q (by simp [hq]))
      (s.perform op).2
    have hhere : AgreeOn F (s.perform op).2 s :=
      perform_unnoticed (hops op (by simp)) (.refl F s) (hspared op (by simp))
    exact ⟨hrest.policy.trans hhere.policy, fun b hb =>
      (hrest.found b hb).trans (hhere.found b hb)⟩

/-- **The run lemma.** On the variables that the right side leaves alone, the left side sees its own
run: it gets the answers it would get alone, from any store that looks the same there. -/
theorem view_agrees (hw : Interleaves P Q w) (hP : ∀ p ∈ P, p.IsLocal) (hQ : ∀ q ∈ Q, q.IsLocal)
    (hread : ∀ p ∈ P, ∀ b ∈ p.reads, F b) (hspared : ∀ q ∈ Q, ∀ b ∈ q.touched, ¬ F b)
    (h : AgreeOn F s t) :
    (sideAnswers s w).filterMap Sum.getLeft? = answers t P ∧
      AgreeOn F (runSides s w) (t.run P) := by
  induction hw generalizing s t with
  | nil => exact ⟨rfl, h⟩
  | @left P Q w p hw ih =>
    obtain ⟨hanswer, hnext⟩ := perform_agree (hP p (by simp)) h (hread p (by simp))
    obtain ⟨hanswers, hend⟩ := ih (fun q hq => hP q (by simp [hq])) hQ
      (fun q hq => hread q (by simp [hq])) hspared hnext
    refine ⟨?_, hend⟩
    simp only [sideAnswers, answers, List.filterMap_cons, Sum.getLeft?_inl, hanswer, hanswers]
  | @right P Q w q hw ih =>
    have hnext : AgreeOn F (s.perform q).2 t :=
      perform_unnoticed (hQ q (by simp)) h (hspared q (by simp))
    obtain ⟨hanswers, hend⟩ := ih hP (fun p hp => hQ p (by simp [hp])) hread
      (fun p hp => hspared p (by simp [hp])) hnext
    refine ⟨?_, hend⟩
    simp only [sideAnswers, List.filterMap_cons, Sum.getLeft?_inr, hanswers]

/-! ## The sides exchanged -/

theorem Interleaves.swap (hw : Interleaves P Q w) : Interleaves Q P (w.map Sum.swap) := by
  induction hw with
  | nil => exact .nil
  | left p _ ih => exact .right p ih
  | right q _ ih => exact .left q ih

theorem runSides_swap (s : Store) (w : List (Operation ⊕ Operation)) :
    runSides s (w.map Sum.swap) = runSides s w := by
  have hsame : Sum.elim id id ∘ Sum.swap =
      (Sum.elim id id : Operation ⊕ Operation → Operation) := by
    funext side
    cases side <;> rfl
  rw [runSides, runSides, List.map_map, hsame]

theorem sideAnswers_swap (s : Store) (w : List (Operation ⊕ Operation)) :
    (sideAnswers s (w.map Sum.swap)).filterMap Sum.getLeft? =
      (sideAnswers s w).filterMap Sum.getRight? := by
  induction w generalizing s with
  | nil => rfl
  | cons side w ih =>
    cases side with
    | inl p => exact ih (s.perform p).2
    | inr q => exact congrArg (_ :: ·) (ih (s.perform q).2)

/-! ## Interleavings of independent sides -/

/-- **Independent operations commute under any interleaving.** Each side gets the answers, results
and errors alike, that it gets when one side runs behind the other, and the same variables with the
same values are left. -/
theorem interleaving_agrees (s : Store) (hw : Interleaves P Q w) (hP : ∀ p ∈ P, p.IsLocal)
    (hQ : ∀ q ∈ Q, q.IsLocal) (hfree : Independent P Q) :
    (sideAnswers s w).filterMap Sum.getLeft? = answers s P ∧
    (sideAnswers s w).filterMap Sum.getRight? = answers (s.run P) Q ∧
    ∀ b, (runSides s w).lookup? b = (s.run (P ++ Q)).lookup? b := by
  -- what the right side leaves alone, and what the left side leaves alone
  let L : Base → Prop := fun b => ∀ q ∈ Q, b ∉ q.touched
  let R : Base → Prop := fun b => ∀ p ∈ P, b ∉ p.touched
  have hspareL : ∀ q ∈ Q, ∀ b ∈ q.touched, ¬ L b := fun q hq b hb hL => hL q hq hb
  have hspareR : ∀ p ∈ P, ∀ b ∈ p.touched, ¬ R b := fun p hp b hb hR => hR p hp hb
  have hreadL : ∀ p ∈ P, ∀ b ∈ p.reads, L b :=
    fun p hp b hb q hq ht => ((hfree p hp q hq).2 b ht).2 hb
  have hreadR : ∀ q ∈ Q, ∀ b ∈ q.reads, R b :=
    fun q hq b hb p hp ht => ((hfree p hp q hq).1 b ht).2 hb
  obtain ⟨hleft, hendL⟩ := view_agrees hw hP hQ hreadL hspareL (.refl L s)
  -- the right side may as well begin where the left side ends
  have hbehind : AgreeOn R s (s.run P) := (run_unnoticed hP hspareR s).symm
  obtain ⟨hright, hendR⟩ := view_agrees hw.swap hQ hP hreadR hspareR hbehind
  rw [runSides_swap] at hendR
  rw [sideAnswers_swap] at hright
  refine ⟨hleft, hright, fun b => ?_⟩
  rw [run_append]
  by_cases hb : L b
  · have hkept : AgreeOn L ((s.run P).run Q) (s.run P) := run_unnoticed hQ hspareL _
    rw [hendL.found b hb, hkept.found b hb]
  · -- the right side touches the variable, so the left side does not
    have hbR : R b := by
      intro p hp ht
      refine hb fun q hq hq' => ?_
      exact ((hfree p hp q hq).1 b ht).1 hq'
    exact hendR.found b hbR

/-- A side that writes a price and asks for a text with it and with an absent tax. -/
def priceSide : List Operation :=
  [.set (.str "Bill.Price") (.str "7"), .resolve (.str "$\x7bBill.Price\x7d, $\x7bBill.Tax\x7d")]

/-- A side that writes a count, asks for it and removes it. -/
def countSide : List Operation :=
  [.setScoped (.str " Stock ") (.str "Count") (.int 3), .get (.str "$\x7bStock.Count\x7d"),
    .remove (.str "Stock.Count")]

/-- One order of both sides. -/
def billOrder : List (Operation ⊕ Operation) :=
  [.inr (.setScoped (.str " Stock ") (.str "Count") (.int 3)),
    .inl (.set (.str "Bill.Price") (.str "7")), .inr (.get (.str "$\x7bStock.Count\x7d")),
    .inr (.remove (.str "Stock.Count")),
    .inl (.resolve (.str "$\x7bBill.Price\x7d, $\x7bBill.Tax\x7d"))]

/-- The template fails at the absent tax, and the count is found and removed, in this order as in
any other. -/
theorem interleaving_agrees_bill :
    Interleaves priceSide countSide billOrder ∧ Independent priceSide countSide ∧
      (sideAnswers (empty .throwError) billOrder).filterMap Sum.getLeft? =
        [.ok .null, .error (.missingVariable "Bill" "Tax")] ∧
      (sideAnswers (empty .throwError) billOrder).filterMap Sum.getRight? =
        [.ok .null, .ok (.int 3), .ok (.bool true)] ∧
      (runSides (empty .throwError) billOrder).lookup? ("Bill", "Price") = some (.str "7") := by
  have hw : Interleaves priceSide countSide billOrder :=
    .right _ (.left _ (.right _ (.right _ (.left _ .nil))))
  have hfree : Independent priceSide countSide := by decide
  have hP : ∀ p ∈ priceSide, p.IsLocal := by simp [priceSide, Operation.IsLocal]
  have hQ : ∀ q ∈ countSide, q.IsLocal := by simp [countSide, Operation.IsLocal]
  obtain ⟨hleft, hright, hend⟩ := interleaving_agrees (empty .throwError) hw hP hQ hfree
  refine ⟨hw, hfree, hleft.trans ?_, hright.trans ?_, (hend _).trans ?_⟩
  · rfl
  · rfl
  · rfl

end Runbook.Store
