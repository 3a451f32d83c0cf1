import Mathlib.Data.Set.Card
import Mathlib.Tactic.Common
import Runbook.Proofs.Trimming
import Runbook.Proofs.Variables
import Runbook.Store.Operation

/-!
# The store and its history

Every operation comes to a list of events: base variables written, removed, or all of them cleared.
Which events is read off the operation's arguments alone. What a store holds is a function of its
history, the events of all operations so far: a variable has the value of its last write since it
was last removed, and variables are listed in the order in which they came to life.

* `LastWritten`, `Live`, `BornAt`: what a history says of a variable.
* `perform_entries`, `run_entries`: operations act on a store by their events.
* `lookup?_replay`, `bases_replay`: what is found and listed behind a history.
* `run_refines`: the store as an observer sees it, behind any operations.
-/

namespace Runbook

open Runbook.Text

namespace Path

/-- The scope and the key of a path are names. -/
theorem isName_of_ofSegments? {segments : List Segment} {p : Path}
    (h : ofSegments? segments = some p) : IsName p.scope ∧ IsName p.key := by
  unfold ofSegments? at h
  split at h
  · split at h
    · cases h
    · rename_i hblank
      simp only [Bool.or_eq_true, not_or, Bool.not_eq_true] at hblank
      obtain rfl := Option.some.inj h
      exact ⟨isName_trim hblank.1, isName_trim hblank.2⟩
  · cases h

theorem isName_of_parse {e : String} {p : Path} (h : parse e = .ok p) :
    IsName p.scope ∧ IsName p.key := by
  unfold parse at h
  split at h
  · cases h
  · split at h
    · cases h
    · split at h
      · rename_i hp
        obtain rfl := Except.ok.inj h
        exact isName_of_ofSegments? hp
      · cases h

theorem isName_of_ofValue {v : Value} {p : Path} (h : ofValue v = .ok p) :
    IsName p.scope ∧ IsName p.key := by
  unfold ofValue at h
  split at h
  case h_2 => exact isName_of_parse h
  all_goals cases h

end Path

namespace Store

/-- What happens to base variables. -/
inductive Event
  | wrote (b : Base) (v : Value)
  | removed (b : Base)
  | cleared

namespace Event

/-- The event takes a variable away. -/
def Ends (b : Base) : Event → Prop
  | .wrote _ _ => False
  | .removed c => c = b
  | .cleared => True

/-- The event names a variable. -/
def Names (b : Base) : Event → Prop
  | .wrote c _ => c = b
  | .removed c => c = b
  | .cleared => False

/-- The event writes a variable or takes it away. -/
def Touches (b : Base) (e : Event) : Prop := e.Names b ∨ e.Ends b

/-- Variables behind an event. -/
def apply (vs : Variables) : Event → Variables
  | .wrote b v => vs.put b v
  | .removed b => vs.erase b
  | .cleared => []

end Event

/-- The base variable that a name stands for. -/
def namedBase? (name : Value) : Option Base :=
  match Path.ofValue name with
  | .ok p => some p.base
  | .error _ => none

/-- No value at all. -/
def isNull : Value → Bool
  | .null => true
  | _ => false

/-- The trimmed text that a scope or a key stands for. -/
def givenName? (v : Value) : Option String :=
  match v.text with
  | .ok t => if isNull v || isBlankText t then none else some (trim t)
  | .error _ => none

/-- The base variable that a scope and a key stand for. -/
def scopedBase? (scope key : Value) : Option Base :=
  match givenName? scope, givenName? key with
  | some s, some k => some (s, k)
  | _, _ => none

/-- The event of a write, if there is a variable to write. -/
def writeEvents (v : Value) : Option Base → List Event
  | some b => [.wrote b v]
  | none => []

/-- The events of writing a map: names that are no expressions are passed over, and another error
ends the writing. -/
def entryEvents : Entries → List Event
  | [] => []
  | (name, v) :: rest =>
    match Path.ofValue name with
    | .ok p => .wrote p.base v :: entryEvents rest
    | .error (.malformed _ _) => entryEvents rest
    | .error _ => []

/-- **The events of an operation**, by its arguments alone. -/
def Operation.events : Operation → List Event
  | .set name v => writeEvents v (namedBase? name)
  | .setScoped scope key v => writeEvents v (scopedBase? scope key)
  | .update given =>
    match given.isTruthy, given.asMap "items" with
    | true, .ok entries => entryEvents entries
    | _, _ => []
  | .setRows name r =>
    match rowsOf r with
    | .ok rows => writeEvents (.list (rows.map .dict)) (namedBase? name)
    | .error _ => []
  | .remove name =>
    match namedBase? name with
    | some b => [.removed b]
    | none => []
  | .clear => [.cleared]
  | _ => []

/-- The events of operations one after another. -/
def history (ops : List Operation) : List Event := ops.flatMap Operation.events

/-- Variables behind a history. -/
def replay (h : List Event) : Variables := h.foldl Event.apply []

/-- The operation names a variable. -/
def Operation.Names (op : Operation) (b : Base) : Prop := ∃ e ∈ op.events, e.Names b

/-- **The last write of a variable** since it was last removed or all were cleared. -/
def LastWritten (h : List Event) (b : Base) (v : Value) : Prop :=
  ∃ before after, h = before ++ .wrote b v :: after ∧ ∀ e ∈ after, ¬ e.Touches b

/-- A variable that has been written and not been taken away since. -/
def Live (h : List Event) (b : Base) : Prop := ∃ v, LastWritten h b v

/-- The event that brought a variable to life: a write when it was not live, and it was not taken
away since. -/
def BornAt (h : List Event) (b : Base) (i : Nat) : Prop :=
  (∃ v, h[i]? = some (.wrote b v)) ∧ ¬ Live (h.take i) b ∧ ∀ e ∈ h.drop (i + 1), ¬ e.Ends b

/-! ## Operations act by their events -/

theorem namedBase?_ok {name : Value} {p : Path} (h : Path.ofValue name = .ok p) :
    namedBase? name = some p.base := by
  rw [namedBase?, h]

theorem namedBase?_error {name : Value} {e : Error} (h : Path.ofValue name = .error e) :
    namedBase? name = none := by
  rw [namedBase?, h]

/-- Writing under a name succeeds exactly if the name stands for a variable. -/
theorem assign_cases (s : Store) (name v : Value) :
    (∃ b, namedBase? name = some b ∧ s.assign name v = .ok (s.put b v)) ∨
      ∃ e, namedBase? name = none ∧ s.assign name v = .error e := by
  cases hp : Path.ofValue name with
  | ok p => exact .inl ⟨p.base, namedBase?_ok hp, by rw [assign, hp]⟩
  | error e => exact .inr ⟨e, namedBase?_error hp, by rw [assign, hp]⟩

/-- Writing under a scope and a key succeeds exactly if they stand for a variable. -/
theorem setScoped_cases (s : Store) (scope key v : Value) :
    (∃ b, scopedBase? scope key = some b ∧ s.setScoped scope key v = .ok (s.put b v)) ∨
      ∃ e, scopedBase? scope key = none ∧ s.setScoped scope key v = .error e := by
  -- both texts are taken before either of them is looked at
  cases hs : scope.text with
  | error e =>
    exact .inr ⟨e, by simp [scopedBase?, givenName?, hs], by simp [setScoped, partText, hs]⟩
  | ok scopeText =>
    cases hk : key.text with
    | error e =>
      refine .inr ⟨e, ?_, by simp [setScoped, partText, hs, hk]⟩
      rw [scopedBase?, givenName?, givenName?, hk]
      split <;> simp_all
    | ok keyText =>
      have hset : s.setScoped scope key v =
          if isNull scope || isNull key || isBlankText scopeText || isBlankText keyText then
            .error (.malformed (Error.variableName scopeText keyText) .blankScopeOrKey)
          else .ok (s.put (trim scopeText, trim keyText) v) := by
        rw [setScoped, partText, partText, hs, hk]
        rfl
      rw [hset, scopedBase?, givenName?, givenName?, hs, hk]
      simp only
      cases isNull scope <;> cases isNull key <;> cases isBlankText scopeText <;>
        cases isBlankText keyText <;> simp

theorem assign_of_base (s : Store) {name : Value} {b : Base} (hb : namedBase? name = some b)
    (v : Value) : s.assign name v = .ok (s.put b v) := by
  rcases assign_cases s name v with ⟨c, hc, hset⟩ | ⟨e, hnone, -⟩
  · rw [hb] at hc
    rw [hset, Option.some.inj hc]
  · rw [hb] at hnone; cases hnone

theorem setScoped_of_base (s : Store) {scope key : Value} {b : Base}
    (hb : scopedBase? scope key = some b) (v : Value) :
    s.setScoped scope key v = .ok (s.put b v) := by
  rcases setScoped_cases s scope key v with ⟨c, hc, hset⟩ | ⟨e, hnone, -⟩
  · rw [hb] at hc
    rw [hset, Option.some.inj hc]
  · rw [hb] at hnone; cases hnone

/-- Writing a map acts by its events, also if it ends in an error. -/
theorem setAll_spec (es : Entries) (s : Store) :
    (s.setAll es).2 = { s with entries := (entryEvents es).foldl Event.apply s.entries } := by
  induction es generalizing s with
  | nil => rfl
  | cons entry es ih =>
    obtain ⟨name, v⟩ := entry
    cases hp : Path.ofValue name with
    | ok p =>
      have hassign : s.assign name v = .ok (s.put p.base v) := by rw [assign, hp]
      simp only [setAll, hassign, entryEvents, hp, List.foldl_cons]
      rw [ih]
      rfl
    | error e =>
      have hassign : s.assign name v = .error e := by rw [assign, hp]
      -- only a malformed name is passed over
      cases e with
      | malformed expression fault =>
        simp only [setAll, hassign, entryEvents, hp]
        rw [← ih]
        split
        · rename_i h; rw [h]
        · rfl
      | _ => simp only [setAll, hassign, entryEvents, hp, List.foldl_nil]

/-- A removal acts by its event, and tells whether the variable was found. -/
theorem remove_cases (s : Store) (name : Value) :
    (∃ b, namedBase? name = some b ∧ s.remove name = .ok (s.has b, s.erase b)) ∨
      ∃ e, namedBase? name = none ∧ s.remove name = .error e := by
  cases hp : Path.ofValue name with
  | ok p => exact .inl ⟨p.base, namedBase?_ok hp, by rw [remove, hp]⟩
  | error e => exact .inr ⟨e, namedBase?_error hp, by rw [remove, hp]⟩

/-- **An operation acts on the variables by its events.** -/
theorem perform_entries (s : Store) (op : Operation) :
    (s.perform op).2.entries = op.events.foldl Event.apply s.entries := by
  cases op with
  | set name v =>
    rcases assign_cases s name v with ⟨b, hb, h⟩ | ⟨e, hb, h⟩ <;>
      simp only [perform, Operation.events, h, hb] <;> rfl
  | setScoped scope key v =>
    rcases setScoped_cases s scope key v with ⟨b, hb, h⟩ | ⟨e, hb, h⟩ <;>
      simp only [perform, Operation.events, h, hb] <;> rfl
  | update given =>
    simp only [perform, Operation.events, update]
    cases given.isTruthy with
    | false => rfl
    | true =>
      cases given.asMap "items" with
      | error e => rfl
      | ok entries => simp [setAll_spec]
  | setRows name r =>
    simp only [perform, Operation.events, setRows]
    cases rowsOf r with
    | error e => rfl
    | ok rows =>
      rcases assign_cases s name (.list (rows.map .dict)) with ⟨b, hb, h⟩ | ⟨e, hb, h⟩ <;>
        simp only [h, hb] <;> rfl
  | remove name =>
    rcases remove_cases s name with ⟨b, hb, h⟩ | ⟨e, hb, h⟩ <;>
      simp only [perform, Operation.events, h, hb] <;> rfl
  | setPolicy given =>
    simp only [perform, Operation.events, setPolicy]
    cases MissingPolicy.parse given <;> rfl
  | _ => rfl

/-- **Behind any operations** the variables are those of their history. -/
theorem run_entries (s : Store) (ops : List Operation) :
    (s.run ops).entries = (history ops).foldl Event.apply s.entries := by
  induction ops generalizing s with
  | nil => rfl
  | cons op ops ih =>
    have hrun : s.run (op :: ops) = (s.perform op).2.run ops := rfl
    have hhistory : history (op :: ops) = op.events ++ history ops := rfl
    rw [hrun, ih, perform_entries, hhistory, List.foldl_append]

theorem run_empty_entries (policy : MissingPolicy) (ops : List Operation) :
    ((empty policy).run ops).entries = replay (history ops) :=
  run_entries _ ops

/-! ## What a history says of a variable -/

variable {h : List Event} {e : Event} {b c : Base} {v : Value}

theorem replay_snoc (h : List Event) (e : Event) : replay (h ++ [e]) = e.apply (replay h) := by
  simp [replay]

/-- One more event is the last write itself, or does not touch the variable. -/
theorem lastWritten_snoc : LastWritten (h ++ [e]) b v ↔
    e = .wrote b v ∨ (¬ e.Touches b ∧ LastWritten h b v) := by
  constructor
  · rintro ⟨before, after, heq, hafter⟩
    -- either nothing follows the write, or the new event is the last that follows it
    rcases List.eq_nil_or_concat after with rfl | ⟨after, d, rfl⟩
    · obtain ⟨-, hlast⟩ := List.append_inj' heq rfl
      exact .inl (List.cons.inj hlast).1
    · have heq' : h ++ [e] = (before ++ .wrote b v :: after) ++ [d] := by simpa using heq
      obtain ⟨rfl, hlast⟩ := List.append_inj' heq' rfl
      obtain rfl := (List.cons.inj hlast).1
      exact .inr ⟨hafter e (by simp), before, after, rfl, fun d hd => hafter d (by simp [hd])⟩
  · rintro (rfl | ⟨he, before, after, rfl, hafter⟩)
    · exact ⟨h, [], rfl, by simp⟩
    · refine ⟨before, after ++ [e], by simp, fun d hd => ?_⟩
      rcases List.mem_append.1 hd with hd | hd
      · exact hafter d hd
      · rw [List.mem_singleton.1 hd]; exact he

theorem not_lastWritten_nil : ¬ LastWritten [] b v := by
  rintro ⟨before, after, h, -⟩
  simp at h

/-- **What is found behind a history** is the last write. -/
theorem lookup?_replay (h : List Event) (b : Base) (v : Value) :
    (replay h).lookup? b = some v ↔ LastWritten h b v := by
  induction h using List.reverseRecOn generalizing v with
  | nil => simp [replay, Variables.lookup?_nil, not_lastWritten_nil]
  | append_singleton h e ih =>
    rw [replay_snoc, lastWritten_snoc, ← ih]
    cases e with
    | wrote c w =>
      simp only [Event.apply, Variables.lookup?_put, Event.wrote.injEq, Event.Touches, Event.Names,
        Event.Ends, or_false]
      by_cases hbc : b = c
      · simp [hbc]
      · simp [hbc, Ne.symm hbc]
    | removed c =>
      simp only [Event.apply, Variables.lookup?_erase, Event.Touches, Event.Names, Event.Ends,
        or_self]
      by_cases hbc : b = c
      · simp [hbc]
      · simp [hbc, Ne.symm hbc]
    | cleared => simp [Event.apply, Variables.lookup?_nil, Event.Touches, Event.Ends]

/-- Listed behind a history are the live variables. -/
theorem mem_bases_replay : b ∈ (replay h).bases ↔ Live h b := by
  rw [← Variables.lookup?_isSome, Option.isSome_iff_exists]
  simp only [lookup?_replay, Live]

theorem nodup_bases_replay (h : List Event) : (replay h).bases.Nodup := by
  induction h using List.reverseRecOn with
  | nil => exact List.nodup_nil
  | append_singleton h e ih =>
    rw [replay_snoc]
    cases e with
    | wrote c w => exact Variables.nodup_put ih
    | removed c => exact Variables.nodup_erase ih
    | cleared => exact List.nodup_nil

/-- The number of live variables. -/
theorem ncard_live (h : List Event) : {b | Live h b}.ncard = (replay h).length := by
  have hset : {b | Live h b} = ((replay h).bases.toFinset : Set Base) := by
    ext b
    simp [mem_bases_replay]
  rw [hset, Set.ncard_coe_finset, List.toFinset_card_of_nodup (nodup_bases_replay h),
    Variables.bases, List.length_map]

/-! ## The order of births -/

theorem BornAt.lt {i : Nat} (hb : BornAt h b i) : i < h.length := by
  obtain ⟨⟨v, hv⟩, -, -⟩ := hb
  exact (List.getElem?_eq_some_iff.1 hv).1

/-- A birth before the last event was a birth before it. -/
theorem BornAt.of_snoc {i : Nat} (hb : BornAt (h ++ [e]) b i) (hi : i < h.length) :
    BornAt h b i ∧ ¬ e.Ends b := by
  obtain ⟨⟨v, hv⟩, hdead, hafter⟩ := hb
  rw [List.getElem?_append_left hi] at hv
  rw [List.take_append_of_le_length (by omega)] at hdead
  rw [List.drop_append_of_le_length (by omega)] at hafter
  exact ⟨⟨⟨v, hv⟩, hdead, fun d hd => hafter d (List.mem_append_left _ hd)⟩, hafter e (by simp)⟩

/-- A birth at the last event is a write of a variable that was not live. -/
theorem BornAt.at_last (hb : BornAt (h ++ [e]) b h.length) :
    (∃ v, e = .wrote b v) ∧ ¬ Live h b := by
  obtain ⟨⟨v, hv⟩, hdead, -⟩ := hb
  refine ⟨⟨v, by simpa using hv⟩, by simpa using hdead⟩

/-- A variable that was born is live. -/
theorem BornAt.live {i : Nat} (hb : BornAt h b i) : Live h b := by
  induction h using List.reverseRecOn generalizing i with
  | nil => exact absurd hb.lt (by simp)
  | append_singleton h e ih =>
    have hi := hb.lt
    rw [List.length_append, List.length_singleton] at hi
    -- born before the new event and not ended by it, or born at it
    rcases Nat.lt_succ_iff_lt_or_eq.1 hi with hi | rfl
    · obtain ⟨hborn, he⟩ := hb.of_snoc hi
      obtain ⟨v, hv⟩ := ih hborn
      by_cases ht : e.Touches b
      · cases e with
        | wrote c w =>
          obtain rfl : c = b := by simpa [Event.Touches, Event.Names, Event.Ends] using ht
          exact ⟨w, lastWritten_snoc.2 (.inl rfl)⟩
        | removed c => exact absurd (by simpa [Event.Touches, Event.Names, Event.Ends] using ht) he
        | cleared => exact absurd trivial he
      · exact ⟨v, lastWritten_snoc.2 (.inr ⟨ht, hv⟩)⟩
    · obtain ⟨⟨v, rfl⟩, -⟩ := hb.at_last
      exact ⟨v, lastWritten_snoc.2 (.inl rfl)⟩

/-- One variable was born before another. -/
def Earlier (h : List Event) (b c : Base) : Prop := ∀ i j, BornAt h b i → BornAt h c j → i < j

/-- An event that does not give birth to one of two variables keeps their order. -/
theorem Earlier.snoc (hbc : Earlier h b c) (hb : ∀ v, e = .wrote b v → Live h b)
    (hc : ∀ v, e = .wrote c v → Live h c) : Earlier (h ++ [e]) b c := by
  have hbefore : ∀ {d : Base} {i : Nat}, BornAt (h ++ [e]) d i →
      (∀ v, e = .wrote d v → Live h d) → i < h.length := by
    intro d i hd hlive
    have hi := hd.lt
    rw [List.length_append, List.length_singleton] at hi
    rcases Nat.lt_succ_iff_lt_or_eq.1 hi with hi | rfl
    · exact hi
    · obtain ⟨⟨v, hv⟩, hdead⟩ := hd.at_last
      exact absurd (hlive v hv) hdead
  intro i j hi hj
  exact hbc i j (hi.of_snoc (hbefore hi hb)).1 (hj.of_snoc (hbefore hj hc)).1

/-- **Variables are listed in the order of their births.** -/
theorem bases_replay (h : List Event) : (replay h).bases.Pairwise (Earlier h) := by
  induction h using List.reverseRecOn with
  | nil => exact List.Pairwise.nil
  | append_singleton h e ih =>
    rw [replay_snoc]
    cases e with
    | cleared => exact List.Pairwise.nil
    | removed d =>
      rw [Event.apply, Variables.bases_erase]
      refine (ih.sublist List.filter_sublist).imp fun hbc => hbc.snoc ?_ ?_ <;>
        intro v hv <;> cases hv
    | wrote d w =>
      have hkeep : ∀ x ∈ (replay h).bases, ∀ v, Event.wrote d w = .wrote x v → Live h x :=
        fun x hx v _ => mem_bases_replay.1 hx
      have hold : (replay h).bases.Pairwise (Earlier (h ++ [.wrote d w])) :=
        ih.imp_of_mem fun hx hy hxy => hxy.snoc (hkeep _ hx) (hkeep _ hy)
      rw [Event.apply, Variables.bases_put]
      split
      · exact hold
      · rename_i hd
        -- the written variable was not live, so it is born at this very event
        refine List.pairwise_append.2 ⟨hold, List.pairwise_singleton _ _, fun x hx y hy => ?_⟩
        obtain rfl := List.mem_singleton.1 hy
        have hdead : ¬ Live h y := fun hl => hd (mem_bases_replay.2 hl)
        intro i j hi hj
        have hxy : x ≠ y := by rintro rfl; exact hd hx
        have hilt : i < h.length := by
          have := hi.lt
          rw [List.length_append, List.length_singleton] at this
          rcases Nat.lt_succ_iff_lt_or_eq.1 this with hlt | rfl
          · exact hlt
          · obtain ⟨⟨v, hv⟩, -⟩ := hi.at_last
            exact absurd (Event.wrote.inj hv).1.symm hxy
        have hjge : ¬ j < h.length := fun hlt => hdead (hj.of_snoc hlt).1.live
        omega

/-! ## Names of written variables -/

/-- A base variable as it is stored. -/
def IsBase (b : Base) : Prop := IsName b.1 ∧ IsName b.2

theorem isBase_of_namedBase? {name : Value} (h : namedBase? name = some b) : IsBase b := by
  cases hp : Path.ofValue name with
  | ok p =>
    rw [namedBase?_ok hp] at h
    obtain rfl := Option.some.inj h
    exact Path.isName_of_ofValue hp
  | error e => rw [namedBase?_error hp] at h; cases h

theorem isName_of_givenName? {w : Value} {t : String} (h : givenName? w = some t) : IsName t := by
  unfold givenName? at h
  split at h
  · split at h
    · cases h
    · rename_i hblank
      simp only [Bool.or_eq_true, not_or, Bool.not_eq_true] at hblank
      obtain rfl := Option.some.inj h
      exact isName_trim hblank.2
  · cases h

theorem isBase_of_scopedBase? {scope key : Value} (h : scopedBase? scope key = some b) :
    IsBase b := by
  unfold scopedBase? at h
  split at h
  · rename_i hs hk
    obtain rfl := Option.some.inj h
    exact ⟨isName_of_givenName? hs, isName_of_givenName? hk⟩
  · cases h

theorem isBase_of_mem_writeEvents {target : Option Base} (ht : ∀ c, target = some c → IsBase c)
    {w : Value} (h : .wrote b v ∈ writeEvents w target) : IsBase b := by
  cases target with
  | none => cases h
  | some c =>
    obtain ⟨rfl, -⟩ := Event.wrote.inj (List.mem_singleton.1 h)
    exact ht b rfl

theorem isBase_of_mem_entryEvents {es : Entries} (h : .wrote b v ∈ entryEvents es) : IsBase b := by
  induction es with
  | nil => cases h
  | cons entry es ih =>
    obtain ⟨name, w⟩ := entry
    rw [entryEvents] at h
    split at h
    · rename_i p hp
      rcases List.mem_cons.1 h with h | h
      · obtain ⟨rfl, -⟩ := Event.wrote.inj h
        exact Path.isName_of_ofValue hp
      · exact ih h
    · exact ih h
    · cases h

/-- Operations write names only. -/
theorem Operation.isBase_of_mem_events {op : Operation} (h : .wrote b v ∈ op.events) :
    IsBase b := by
  cases op with
  | set name w => exact isBase_of_mem_writeEvents (fun _ => isBase_of_namedBase?) h
  | setScoped scope key w => exact isBase_of_mem_writeEvents (fun _ => isBase_of_scopedBase?) h
  | update given =>
    rw [events] at h
    split at h
    · exact isBase_of_mem_entryEvents h
    · cases h
  | setRows name r =>
    rw [events] at h
    split at h
    · exact isBase_of_mem_writeEvents (fun _ => isBase_of_namedBase?) h
    · cases h
  | remove name =>
    rw [events] at h
    split at h
    · cases List.mem_singleton.1 h
    · cases h
  | clear => cases List.mem_singleton.1 h
  | _ => cases h

theorem isBase_of_live {ops : List Operation} (hl : Live (history ops) b) : IsBase b := by
  obtain ⟨v, before, after, hh, -⟩ := hl
  have hmem : .wrote b v ∈ history ops := by rw [hh]; simp
  obtain ⟨op, -, hop⟩ := List.mem_flatMap.1 hmem
  exact Operation.isBase_of_mem_events hop

/-! ## What an observer sees -/

/-- **What a store answers behind a history.** Looking up gives the value of the last write of a
live variable and the default otherwise, and the names are those of the live variables in the order
of their births. -/
structure Observes (s : Store) (h : List Event) : Prop where
  found : ∀ scope key default v, LastWritten h (scope, key) v →
    (s.perform (.lookup scope key default)).1 = .ok v
  absent : ∀ scope key default, ¬ Live h (scope, key) →
    (s.perform (.lookup scope key default)).1 = .ok default
  has : ∀ scope key, ∃ answer, (s.perform (.has scope key)).1 = .ok (.bool answer) ∧
    (answer = true ↔ Live h (scope, key))
  size : (s.perform .size).1 = .ok (.int {b | Live h b}.ncard)
  names : ∃ bs : List Base, (∀ b, b ∈ bs ↔ Live h b) ∧ bs.Nodup ∧ bs.Pairwise (Earlier h) ∧
    (s.perform .names).1 = .ok (.list (bs.map fun b => .str (Error.variableName b.1 b.2)))
  removing : ∀ name b, namedBase? name = some b → ∃ answer,
    (s.perform (.remove name)).1 = .ok (.bool answer) ∧ (answer = true ↔ Live h b)
  named : ∀ e ∈ s.entries, IsBase e.1

/-- Operations that name one variable at most. -/
def Operation.IsSingle : Operation → Prop
  | .update _ => False
  | _ => True

/-- Operations that write or remove one variable. -/
def Operation.IsChange : Operation → Prop
  | .set _ _ => True
  | .setScoped _ _ _ => True
  | .setRows _ _ => True
  | .remove _ => True
  | _ => False

/-- **What an operation leaves alone.** -/
structure Careful (s : Store) (op : Operation) : Prop where
  untouched : op ≠ .clear → ∀ b, ¬ op.Names b → (s.perform op).2.lookup? b = s.lookup? b
  overwritten : ∀ b v, op.events = [.wrote b v] → b ∈ s.entries.bases →
    (s.perform op).2.entries.bases = s.entries.bases
  appended : ∀ b v, op.events = [.wrote b v] → b ∉ s.entries.bases →
    (s.perform op).2.entries.bases = s.entries.bases ++ [b]
  removed : ∀ b, op.events = [.removed b] →
    (s.perform op).2.entries.bases = s.entries.bases.filter (· ≠ b)
  succeeded : ∀ answer, op.IsChange → (s.perform op).1 = .ok answer → op.events ≠ []
  failed : ∀ e, op.IsSingle → (s.perform op).1 = .error e → op.events = [] ∧ (s.perform op).2 = s

theorem observes_replay {s : Store} {h : List Event} (hs : s.entries = replay h)
    (hbase : ∀ b, Live h b → IsBase b) : Observes s h := by
  have hlookup : ∀ b v, s.lookup? b = some v ↔ LastWritten h b v := by
    intro b v
    rw [lookup?, hs, lookup?_replay]
  have hhas : ∀ b, s.has b = true ↔ Live h b := by
    intro b
    rw [has, Option.isSome_iff_exists]
    simp only [hlookup, Live]
  refine ⟨?_, ?_, ?_, ?_, ?_, ?_, ?_⟩
  · intro scope key default v hv
    simp only [perform, (hlookup _ v).2 hv, Option.getD_some]
  · intro scope key default hdead
    have hnone : s.lookup? (scope, key) = none := by
      cases hl : s.lookup? (scope, key) with
      | none => rfl
      | some v => exact absurd ⟨v, (hlookup _ v).1 hl⟩ hdead
    simp only [perform, hnone, Option.getD_none]
  · intro scope key
    exact ⟨_, rfl, hhas _⟩
  · rw [ncard_live, ← hs]
    rfl
  · refine ⟨s.entries.bases, ?_, ?_, ?_, ?_⟩
    · intro b; rw [hs, mem_bases_replay]
    · rw [hs]; exact nodup_bases_replay h
    · rw [hs]; exact bases_replay h
    · simp [perform, names, Variables.bases]
  · intro name b hb
    rcases remove_cases s name with ⟨c, hc, hr⟩ | ⟨e, hnone, -⟩
    · obtain rfl : c = b := Option.some.inj (hc.symm.trans hb)
      exact ⟨s.has c, by simp only [perform, hr], hhas c⟩
    · rw [hb] at hnone; cases hnone
  · intro e he
    refine hbase e.1 (mem_bases_replay.1 ?_)
    rw [← hs]
    exact List.mem_map_of_mem he

/-- Events that do not touch a variable do not change what is found. -/
theorem lookup?_foldl_apply {es : List Event} (hes : ∀ e ∈ es, ¬ e.Touches b) (vs : Variables) :
    (es.foldl Event.apply vs).lookup? b = vs.lookup? b := by
  induction es generalizing vs with
  | nil => rfl
  | cons e es ih =>
    have he : ¬ e.Touches b := hes e (by simp)
    rw [List.foldl_cons, ih (fun d hd => hes d (by simp [hd]))]
    cases e with
    | wrote c w =>
      have hbc : b ≠ c := fun heq => he (.inl heq.symm)
      rw [Event.apply, Variables.lookup?_put, if_neg hbc]
    | removed c =>
      have hbc : b ≠ c := fun heq => he (.inl heq.symm)
      rw [Event.apply, Variables.lookup?_erase, if_neg hbc]
    | cleared => exact absurd (.inr trivial) he

/-- Only clearing clears. -/
theorem Operation.cleared_not_mem {op : Operation} (hop : op ≠ .clear) : .cleared ∉ op.events := by
  have hwrite : ∀ w target, .cleared ∉ writeEvents w target := by
    intro w target
    cases target <;> simp [writeEvents]
  have hentries : ∀ es, .cleared ∉ entryEvents es := by
    intro es
    induction es with
    | nil => simp [entryEvents]
    | cons entry es ih => rw [entryEvents]; split <;> simp [ih]
  cases op with
  | set name w => exact hwrite _ _
  | setScoped scope key w => exact hwrite _ _
  | update given => rw [events]; split <;> simp [hentries]
  | setRows name r => rw [events]; split <;> simp [hwrite]
  | remove name => rw [events]; split <;> simp
  | clear => exact absurd rfl hop
  | _ => simp [events]

/-- A change has an event and succeeds, or it has none, fails and leaves the store alone. -/
theorem perform_change (s : Store) {op : Operation} (hop : op.IsChange) :
    (op.events ≠ [] ∧ ∃ answer, (s.perform op).1 = .ok answer) ∨
      (op.events = [] ∧ ∃ e, s.perform op = (.error e, s)) := by
  cases op with
  | set name w =>
    rcases assign_cases s name w with ⟨b, hb, h⟩ | ⟨e, hb, h⟩
    · exact .inl ⟨by simp [Operation.events, hb, writeEvents], .null, by rw [perform, h]; rfl⟩
    · exact .inr ⟨by simp [Operation.events, hb, writeEvents], e, by rw [perform, h]; rfl⟩
  | setScoped scope key w =>
    rcases setScoped_cases s scope key w with ⟨b, hb, h⟩ | ⟨e, hb, h⟩
    · exact .inl ⟨by simp [Operation.events, hb, writeEvents], .null, by rw [perform, h]; rfl⟩
    · exact .inr ⟨by simp [Operation.events, hb, writeEvents], e, by rw [perform, h]; rfl⟩
  | setRows name r =>
    cases hr : rowsOf r with
    | error e =>
      exact .inr ⟨by simp [Operation.events, hr], e, by simp [perform, setRows, hr, afterWrite]⟩
    | ok rows =>
      rcases assign_cases s name (.list (rows.map .dict)) with ⟨b, hb, h⟩ | ⟨e, hb, h⟩
      · exact .inl ⟨by simp [Operation.events, hr, hb, writeEvents], .null, by
          simp [perform, setRows, hr, h, afterWrite]⟩
      · exact .inr ⟨by simp [Operation.events, hr, hb, writeEvents], e, by
          simp [perform, setRows, hr, h, afterWrite]⟩
  | remove name =>
    rcases remove_cases s name with ⟨b, hb, h⟩ | ⟨e, hb, h⟩
    · exact .inl ⟨by simp [Operation.events, hb], .bool (s.has b), by simp only [perform, h]⟩
    · exact .inr ⟨by simp [Operation.events, hb], e, by simp only [perform, h]⟩
  | _ => exact absurd hop id

/-- **A failed operation** other than the writing of a map has no event and changes nothing. -/
theorem perform_failed {s : Store} {op : Operation} {e : Error} (hop : op.IsSingle)
    (he : (s.perform op).1 = .error e) : op.events = [] ∧ (s.perform op).2 = s := by
  by_cases hchange : op.IsChange
  · rcases perform_change s hchange with ⟨-, answer, hok⟩ | ⟨hev, d, hfailed⟩
    · rw [hok] at he; cases he
    · exact ⟨hev, by rw [hfailed]⟩
  · cases op with
    | set | setScoped | setRows | remove => exact absurd trivial hchange
    | update given => exact absurd hop id
    | clear => simp [perform] at he
    | setPolicy given =>
      refine ⟨rfl, ?_⟩
      simp only [perform, setPolicy] at he ⊢
      cases hp : MissingPolicy.parse given with
      | error d => rfl
      | ok p => simp [hp, afterWrite] at he
    | _ => exact ⟨rfl, rfl⟩

/-- A change that succeeds has an event. -/
theorem perform_succeeded {s : Store} {op : Operation} {answer : Value} (hop : op.IsChange)
    (hok : (s.perform op).1 = .ok answer) : op.events ≠ [] := by
  rcases perform_change s hop with ⟨hev, -⟩ | ⟨-, e, hfailed⟩
  · exact hev
  · rw [hfailed] at hok; cases hok

theorem careful (s : Store) (op : Operation) : Careful s op := by
  refine ⟨?_, ?_, ?_, ?_, fun _ hop hok => perform_succeeded hop hok,
    fun _ hop he => perform_failed hop he⟩
  · intro hop b hb
    rw [lookup?, perform_entries, lookup?_foldl_apply, lookup?]
    rintro d hd (hnames | hends)
    · exact hb ⟨d, hd, hnames⟩
    · cases d with
      | wrote c w => exact hends
      | removed c => exact hb ⟨_, hd, hends⟩
      | cleared => exact Operation.cleared_not_mem hop hd
  · intro b v hev hb
    rw [perform_entries, hev, List.foldl_cons, List.foldl_nil, Event.apply, Variables.bases_put,
      if_pos hb]
  · intro b v hev hb
    rw [perform_entries, hev, List.foldl_cons, List.foldl_nil, Event.apply, Variables.bases_put,
      if_neg hb]
  · intro b hev
    rw [perform_entries, hev, List.foldl_cons, List.foldl_nil, Event.apply, Variables.bases_erase]

/-- **The store is a map that remembers the order of first writes.** Behind any operations, failed
ones among them, it answers as their history says, and every further operation leaves alone what it
does not name. -/
theorem run_refines (policy : MissingPolicy) (ops : List Operation) :
    Observes ((empty policy).run ops) (history ops) ∧
      ∀ op, Careful ((empty policy).run ops) op :=
  ⟨observes_replay (run_empty_entries policy ops) fun _ => isBase_of_live, careful _⟩

end Store

end Runbook
