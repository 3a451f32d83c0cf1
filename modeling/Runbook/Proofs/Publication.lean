import Runbook.Proofs.Transaction
import Runbook.Proofs.Trimming
import Runbook.Task.Check

/-!
# Calls as all or nothing

A task that calls a procedure writes what came back behind the commit, when the connection is
closed. What fails before that leaves the database and the variables as they were. What can fail
behind it are the names: the checks of a task take every parameter that has a name, but the name
that its output is written under may be blank all the same, and so may the scope.

* `Response.collect_named`: the names of outputs, and where blank ones come from.
* `Store.setKeys_error_iff`: writing fails exactly if the scope or a name is blank.
* `Task.fails_iff_rejected`: behind a call that succeeded only publishing can fail.
* `Task.callProcedure_allOrNothing`: when a task is all or nothing.
-/

namespace Runbook

open Runbook.Text

/-- An error that the text of a value can fail with: of a value or its kind, or of an object. -/
def Error.isTextFault : Error → Bool
  | .value _ => true
  | .kind _ => true
  | .failure _ => true
  | .interrupt => true
  | _ => false

theorem Error.isStoreError_of_isTextFault {e : Error} (h : e.isTextFault = true) :
    e.isStoreError = false := by
  cases e <;> first | rfl | cases h

theorem integerText_error {n : Int} {e : Error} (h : integerText n = .error e) :
    e.isTextFault = true := by
  unfold integerText at h
  split at h
  · cases h
  · cases h
    rfl

/-- A result's error is none of expressions and variables if a mapped result's is none. -/
theorem error_of_map_error {α β : Type} {x : Except Error α} {f : α → β} {e : Error}
    (h : x.map f = .error e) : x = .error e := by
  cases x with
  | error other =>
    cases h
    rfl
  | ok a => cases h

namespace Value

mutual

theorem literal_error (v : Value) {e : Error} (h : v.literal = .error e) :
    e.isTextFault = true := by
  cases v with
  | int n => exact integerText_error (by rwa [literal] at h)
  | list items => exact literals_error items (error_of_map_error (by rwa [literal] at h))
  | tuple items => exact literals_error items (error_of_map_error (by rwa [literal] at h))
  | dict entries => exact entryLiterals_error entries (error_of_map_error (by rwa [literal] at h))
  | mapping entries =>
    exact entryLiterals_error entries (error_of_map_error (by rwa [literal] at h))
  | _ =>
    unfold literal at h
    cases h

theorem literals_error (vs : List Value) {e : Error} (h : literals vs = .error e) :
    e.isTextFault = true := by
  cases vs with
  | nil => cases h
  | cons v vs =>
    rw [literals] at h
    cases hv : v.literal with
    | error other =>
      rw [hv] at h
      cases h
      exact literal_error v hv
    | ok s =>
      rw [hv] at h
      exact literals_error vs (error_of_map_error h)

theorem entryLiterals_error (es : List (Value × Value)) {e : Error}
    (h : entryLiterals es = .error e) : e.isTextFault = true := by
  cases es with
  | nil => cases h
  | cons entry es =>
    obtain ⟨k, v⟩ := entry
    rw [entryLiterals] at h
    cases hk : k.literal with
    | error other =>
      rw [hk] at h
      cases h
      exact literal_error k hk
    | ok s =>
      cases hv : v.literal with
      | error other =>
        rw [hk, hv] at h
        cases h
        exact literal_error v hv
      | ok t =>
        rw [hk, hv] at h
        exact entryLiterals_error es (error_of_map_error h)

end

theorem text_isTextFault (v : Value) {e : Error} (h : v.text = .error e) :
    e.isTextFault = true := by
  unfold text at h
  split at h <;> try cases h
  · exact entryLiterals_error _ (error_of_map_error h)
  · rename_i o
    cases hgiven : o.text <;> rw [hgiven] at h <;> cases h <;> rfl
  · exact literal_error _ h

/-- A value without a text is no fault of an expression or a variable. -/
theorem text_error (v : Value) {e : Error} (h : v.text = .error e) : e.isStoreError = false :=
  Error.isStoreError_of_isTextFault (v.text_isTextFault h)

end Value

/-! ### The names of outputs -/

theorem isBlankText_trim {s : String} (h : isBlankText s = false) :
    isBlankText (trim s) = false := by
  rw [← Bool.not_eq_true, isBlankText_iff, toList_trim, trimChars_trimChars, ← isBlankText_iff,
    Bool.not_eq_true]
  exact h

theorem isBlankText_givenBytes {literal : List UInt8 → String}
    (hliteral : ∀ bs, isBlankText (literal bs) = false) {bs : List UInt8} {s : String}
    (h : givenBytes literal bs = some s) : isBlankText s = false := by
  unfold givenBytes at h
  dsimp only at h
  split at h
  · cases h
  · cases h
    exact hliteral _

theorem isBlankText_of_mem {s : String} {c : Char} (hmem : c ∈ s.toList) (hc : isBlank c = false) :
    isBlankText s = false := by
  rw [isBlankText, List.all_eq_false]
  exact ⟨c, hmem, by rw [hc]; simp⟩

theorem isBlankText_quoteBytes (bs : List UInt8) : isBlankText (quoteBytes bs) = false :=
  isBlankText_of_mem (c := 'b') (by simp [quoteBytes]) (by decide)

theorem isBlankText_quoteByteArray (bs : List UInt8) :
    isBlankText (quoteByteArray bs) = false := by
  refine isBlankText_of_mem (c := ')') ?_ (by decide)
  dsimp only [quoteByteArray]
  rw [String.toList_ofList]
  exact List.mem_append_right _ (List.mem_cons_of_mem _ List.mem_cons_self)

/-- A text that counts as given is not blank. -/
theorem isBlankText_givenText {v : Value} {s : String} (h : givenText v = .ok (some s)) :
    isBlankText s = false := by
  unfold givenText at h
  split at h
  · cases h
  split at h
  · exact isBlankText_givenBytes isBlankText_quoteBytes (Except.ok.inj h)
  · exact isBlankText_givenBytes isBlankText_quoteByteArray (Except.ok.inj h)
  split at h
  · split at h
    · cases h
    · rename_i hblank
      cases h
      exact isBlankText_trim (Bool.not_eq_true _ ▸ hblank)
  · cases h

namespace Parameter

theorem isBlankText_valueName {p : Parameter} {s : String} (h : p.valueName = some s) :
    isBlankText s = false := by
  unfold valueName at h
  split at h
  · split at h
    · cases h
    · rename_i hblank
      cases h
      exact isBlankText_trim (Bool.not_eq_true _ ▸ hblank)
  · cases h

/-- The other name of an output is not blank. -/
theorem isBlankText_outputAlias {p : Parameter} {s : String} (h : p.outputAlias = .ok (some s)) :
    isBlankText s = false := by
  unfold outputAlias at h
  split at h
  · cases h
  · cases h
  · rename_i hgiven _
    cases h
    exact isBlankText_givenText hgiven
  · exact isBlankText_valueName (Except.ok.inj h)

end Parameter

namespace Response

/-- The names of outputs are texts, and a blank one is that of an output parameter. -/
def Named (params : List Parameter) (outputs : Entries) : Prop :=
  ∀ e ∈ outputs, ∃ name, e.1 = .str name ∧ (isBlankText name = true →
    ∃ p ∈ params, p.direction.isOutput = true ∧ p.outputName = name)

theorem mem_insert {entries : Entries} {key v : Value} {e : Value × Value}
    (h : e ∈ Entries.insert entries key v) : e.1 = key ∨ ∃ w, (e.1, w) ∈ entries := by
  induction entries with
  | nil =>
    obtain rfl : e = (key, v) := by simpa [Entries.insert] using h
    exact .inl rfl
  | cons entry rest ih =>
    obtain ⟨k, old⟩ := entry
    unfold Entries.insert at h
    split at h
    · rcases List.mem_cons.1 h with rfl | h
      · exact .inr ⟨old, List.mem_cons_self⟩
      · exact .inr ⟨e.2, List.mem_cons_of_mem _ h⟩
    · rcases List.mem_cons.1 h with rfl | h
      · exact .inr ⟨old, List.mem_cons_self⟩
      · rcases ih h with h | ⟨w, h⟩
        · exact .inl h
        · exact .inr ⟨w, List.mem_cons_of_mem _ h⟩

theorem Named.insert {params : List Parameter} {outputs : Entries} (h : Named params outputs)
    {name : String} (hname : isBlankText name = true →
      ∃ p ∈ params, p.direction.isOutput = true ∧ p.outputName = name) (v : Value) :
    Named params (Entries.insert outputs (.str name) v) := by
  intro e he
  rcases mem_insert he with hkey | ⟨w, hw⟩
  · exact ⟨name, hkey, hname⟩
  · exact h (e.1, w) hw

/-- Collecting outputs keeps their names: each one adds the name of its parameter, and another name
that is not blank. -/
theorem outputsOf_named {all : List Parameter} :
    ∀ (params : List Parameter) (values : List Value) (entries : Entries) {outputs : Entries},
      (∀ p ∈ params, p ∈ all) → Named all entries → outputsOf params values entries = .ok outputs →
        Named all outputs
  | [], _, _, _, _, hentries, h => by
    rw [outputsOf] at h
    · cases h
      exact hentries
    · simp
  | p :: params, [], _, _, _, hentries, h => by
    rw [outputsOf] at h
    · cases h
      exact hentries
    · simp
  | p :: params, v :: values, entries, outputs, hall, hentries, h => by
    have hrest : ∀ q ∈ params, q ∈ all := fun q hq => hall q (List.mem_cons_of_mem _ hq)
    rw [outputsOf] at h
    cases hdirection : p.direction.isOutput with
    | false =>
      rw [hdirection] at h
      exact outputsOf_named params values entries hrest hentries h
    | true =>
      rw [hdirection] at h
      have hnamed : Named all (Entries.insert entries (.str p.outputName) v) :=
        hentries.insert (fun _ => ⟨p, hall p List.mem_cons_self, hdirection, rfl⟩) v
      cases halias : p.outputAlias with
      | error e =>
        rw [halias] at h
        cases h
      | ok other =>
        rw [halias] at h
        cases other with
        | none => exact outputsOf_named params values _ hrest hnamed h
        | some s =>
          refine outputsOf_named params values _ hrest (hnamed.insert ?_ v) h
          intro hblank
          rw [Parameter.isBlankText_outputAlias halias] at hblank
          cases hblank

theorem collect_named {params : List Parameter} {returned : Value} {outputs : Entries}
    (h : collect params returned = .ok outputs) : Named params outputs := by
  have hnil : Named params [] := by
    intro e he
    cases he
  unfold collect at h
  split at h
  · cases h
    exact hnil
  · obtain ⟨values, -, hvalues⟩ := exists_of_bind_ok h
    exact outputsOf_named params values [] (fun p hp => hp) hnil hvalues

end Response

/-! ### Writing under names -/

namespace Store

theorem setScoped_text {scope : Value} {text : String} (hscope : scope ≠ .null)
    (htext : scope.text = .ok text) (s : Store) (key : String) (v : Value) :
    s.setScoped scope (.str key) v =
      if isBlankText text || isBlankText key then
        .error (.malformed (Error.variableName text key) .blankScopeOrKey)
      else .ok (s.put (trim text, trim key) v) := by
  have hkey : (Value.str key).text = .ok key := rfl
  unfold setScoped partText
  rw [htext, hkey]
  cases scope with
  | null => exact absurd rfl hscope
  | _ => rfl

/-- **Writing under names fails** exactly if the scope or one of the names is blank. -/
theorem setKeys_error_iff {scope : Value} {text : String} (hscope : scope ≠ .null)
    (htext : scope.text = .ok text) (s : Store) (entries : List (Value × Value))
    (hkeys : ∀ e ∈ entries, ∃ key, e.1 = .str key) :
    (∃ e, (s.setKeys scope entries).1 = .error e ∧ e.isStoreError = true) ↔
      ∃ key v, (.str key, v) ∈ entries ∧ (isBlankText text = true ∨ isBlankText key = true) := by
  induction entries generalizing s with
  | nil => simp [setKeys]
  | cons entry rest ih =>
    obtain ⟨k, v⟩ := entry
    obtain ⟨key, rfl⟩ : ∃ key, k = .str key := hkeys _ List.mem_cons_self
    rw [setKeys, setScoped_text hscope htext]
    cases hblank : isBlankText text || isBlankText key with
    | true =>
      have hany : isBlankText text = true ∨ isBlankText key = true := by simpa using hblank
      refine iff_of_true ⟨_, rfl, rfl⟩ ⟨key, v, List.mem_cons_self, hany⟩
    | false =>
      simp only [Bool.or_eq_false_iff] at hblank
      refine (ih _ fun e he => hkeys e (List.mem_cons_of_mem _ he)).trans ?_
      simp only [hblank.1, Bool.false_eq_true, false_or, List.mem_cons, Prod.mk.injEq]
      constructor
      · rintro ⟨key', v', hmem, hblank'⟩
        exact ⟨key', v', .inr hmem, hblank'⟩
      · rintro ⟨key', v', ⟨hkey, rfl⟩ | hmem, hblank'⟩
        · cases hkey
          rw [hblank.2] at hblank'
          cases hblank'
        · exact ⟨key', v', hmem, hblank'⟩

/-- A scope without a text is no fault of a name. -/
theorem setKeys_textless {scope : Value} {e : Error} (htext : scope.text = .error e) (s : Store)
    (entries : List (Value × Value)) {f : Error}
    (h : (s.setKeys scope entries).1 = .error f) : f.isStoreError = false := by
  cases entries with
  | nil => cases h
  | cons entry rest =>
    obtain ⟨k, v⟩ := entry
    have hset : s.setScoped scope k v = .error e := by
      unfold setScoped partText
      rw [htext]
    rw [setKeys, hset] at h
    cases h
    exact Value.text_error scope htext

end Store

namespace Response

/-- What came back from a call cannot be written: the scope is blank or the name of an output is. -/
def Rejected (r : Response) (scope : Value) : Prop :=
  ∃ text, scope.text = .ok text ∧ (isBlankText text = true ∨
    ∃ name v, (.str name, v) ∈ r.outputs ∧ isBlankText name = true)

/-- What is written besides the outputs has names of its own. -/
theorem mem_publication {r : Response} {e : Value × Value} (h : e ∈ r.publication) :
    e ∈ r.outputs ∨ ∃ name, e.1 = .str name ∧ isBlankText name = false := by
  unfold publication at h
  rcases List.mem_append.1 h with h | h
  · rcases List.mem_append.1 h with h | h
    · exact .inl h
    · unfold responses at h
      obtain ⟨⟨name, key⟩, hname, hkey⟩ := List.mem_filterMap.1 h
      have hblank : ∀ p ∈ responseNames, isBlankText p.2 = false := by decide
      dsimp only at hkey
      split at hkey
      · cases hkey
      · cases hkey
        exact .inr ⟨key, rfl, hblank _ hname⟩
  · simp only [List.mem_cons, List.not_mem_nil, or_false] at h
    rcases h with rfl | rfl
    · exact .inr ⟨"ResultSet", rfl, by decide⟩
    · exact .inr ⟨"UpdateCount", rfl, by decide⟩

/-- **A response is published** unless the scope or the name of an output is blank. -/
theorem setKeys_publication_iff {params : List Parameter} {r : Response}
    (hnamed : Named params r.outputs) {scope : Value} (hscope : scope ≠ .null) (s : Store) :
    (∃ e, (s.setKeys scope r.publication).1 = .error e ∧ e.isStoreError = true) ↔
      r.Rejected scope := by
  unfold Rejected
  cases htext : scope.text with
  | error e =>
    refine iff_of_false ?_ (by simp)
    rintro ⟨f, hf, hstore⟩
    rw [Store.setKeys_textless htext s _ hf] at hstore
    cases hstore
  | ok text =>
    have hkeys : ∀ e ∈ r.publication, ∃ key, e.1 = .str key := by
      intro e he
      rcases mem_publication he with h | ⟨name, h, -⟩
      · obtain ⟨name, h, -⟩ := hnamed e h
        exact ⟨name, h⟩
      · exact ⟨name, h⟩
    rw [Store.setKeys_error_iff hscope htext s _ hkeys]
    constructor
    · rintro ⟨key, v, hmem, hblank | hblank⟩
      · exact ⟨text, rfl, .inl hblank⟩
      · refine ⟨text, rfl, .inr ?_⟩
        rcases mem_publication hmem with h | ⟨name, hname, hnot⟩
        · exact ⟨key, v, h, hblank⟩
        · cases hname
          rw [hblank] at hnot
          cases hnot
    · rintro ⟨_, ⟨⟩, hblank | ⟨name, v, hmem, hblank⟩⟩
      · exact ⟨"UpdateCount", .int r.updates, by simp [publication], .inl hblank⟩
      · exact ⟨name, v, by simp [publication, hmem], .inr hblank⟩

end Response

/-! ### The whole task -/

namespace Connection

variable {c : Connection} {request : Request} {wanted : Bool} {r : Response}

/-- The outputs of work that succeeded are named after output parameters. -/
theorem named_of_work (h : c.work request wanted = .ok r) :
    Response.Named request.params r.outputs := by
  obtain ⟨-, hr, -⟩ := work_eq_ok_iff.1 h
  unfold respond at hr
  obtain ⟨returned, -, hr⟩ := exists_of_bind_ok hr
  obtain ⟨⟨sets, updates⟩, -, hr⟩ := exists_of_bind_ok hr
  obtain ⟨outputs, houtputs, hr⟩ := exists_of_bind_ok hr
  cases hr
  exact Response.collect_named houtputs

end Connection

namespace Task

variable {t : Task} {env : Surroundings} {w v : World} {c : Connection} {request : Request}

/-- A task fails: its outcome is a failure, or its error is one that a run takes for a failure. -/
def Fails (t : Task) (env : Surroundings) (w : World) : Prop :=
  (∃ reason, (t.callProcedure env w).1 = .ok (.failed reason)) ∨
    ∃ e, (t.callProcedure env w).1 = .error e ∧ e.isStoreError = true

/-- A commit of a task has succeeded. -/
def HasCommitted (t : Task) (env : Surroundings) (w : World) : Prop :=
  ∃ request c v uses, t.Opens env w request c v ∧
    (t.callProcedure env w).2.uses = v.uses ++ uses ∧
    .commit ∈ uses.map Use.kind ∧ c.commit = .ok ()

/-- A task that fails has changed neither the database nor the variables. -/
def AllOrNothing (t : Task) (env : Surroundings) (w : World) : Prop :=
  t.Fails env w → ¬ t.HasCommitted env w ∧ (t.callProcedure env w).2.store = w.store

/-- A call that succeeded gives back what cannot be written, when it is committed already or a part
of it is written. -/
def Torn (t : Task) (env : Surroundings) (w : World) : Prop :=
  ∃ request c v r, t.Opens env w request c v ∧ c.work request t.commits = .ok r ∧
    r.Rejected t.scope ∧
    (t.commits = true ∨ (w.store.setKeys t.scope r.publication).2 ≠ w.store)

theorem Opens.unique {request' : Request} {c' : Connection} {v' : World}
    (h : t.Opens env w request c v) (h' : t.Opens env w request' c' v') :
    request' = request ∧ c' = c ∧ v' = v := by
  obtain ⟨hrequest, -, hopen⟩ := h
  obtain ⟨hrequest', -, hopen'⟩ := h'
  rw [hrequest] at hrequest'
  rw [hopen] at hopen'
  cases hrequest'
  cases hopen'
  exact ⟨rfl, rfl, rfl⟩

theorem scope_ne_null (t : Task) : t.scope ≠ .null := by
  unfold scope Value.orElse
  split
  · rename_i htruthy
    intro hnull
    rw [hnull] at htruthy
    cases htruthy
  · intro hnull
    cases hnull

/-- A commit has succeeded exactly if one is wanted and the work has succeeded. -/
theorem hasCommitted_iff (h : t.Opens env w request c v) :
    t.HasCommitted env w ↔ t.commits = true ∧ ∃ r, c.work request t.commits = .ok r := by
  obtain ⟨cursor, commit, rollback, hkinds, -, hcommit, -⟩ :=
    c.kinds_transact request t.commits
  have huses := (publishesFrom_after h).uses_eq
  have hmem : .commit ∈ (c.transact request t.commits).2.map Use.kind ↔ commit = true := by
    rw [hkinds, Connection.commit_mem_courseOf]
  constructor
  · rintro ⟨request', c', v', uses, h', huses', hcommitted, hc⟩
    obtain ⟨rfl, rfl, rfl⟩ := h.unique h'
    obtain rfl : (c'.transact request' t.commits).2 = uses :=
      List.append_cancel_left (huses.symm.trans huses')
    obtain ⟨hwanted, hmakes, r, hr⟩ := hcommit.1 (hmem.1 hcommitted)
    exact ⟨hwanted, r, Connection.work_eq_ok_iff.2 ⟨hmakes, hr, fun _ => hc⟩⟩
  · rintro ⟨hwanted, r, hr⟩
    obtain ⟨hmakes, hrespond, hc⟩ := Connection.work_eq_ok_iff.1 hr
    exact ⟨request, c, v, _, h, huses, hmem.2 (hcommit.2 ⟨hwanted, hmakes, r, hrespond⟩),
      hc hwanted⟩

/-- A task whose work fails stores nothing. -/
theorem callProcedure_of_work_error (h : t.Opens env w request c v) {e : Error}
    (hwork : c.work request t.commits = .error e) : (t.callProcedure env w).2.store = w.store := by
  obtain ⟨opening, -, rfl⟩ := h.exists_after
  rw [callProcedure_opened h, callOver_run, Connection.transact_eq, hwork]
  dsimp only
  have hkept := c.undo_ne_kept request (c.workUses request t.commits) e
  rcases hundo : (c.undo request (c.workUses request t.commits) e).1 with e' | r | reason
  · rfl
  · exact absurd hundo (hkept r)
  · rfl

/-- A task whose work succeeds publishes what came back. -/
theorem callProcedure_of_work_ok (h : t.Opens env w request c v) {r : Response}
    (hwork : c.work request t.commits = .ok r) :
    ∃ name closed, closed.store = w.store ∧ t.callProcedure env w = t.publish name r closed := by
  obtain ⟨opening, -, rfl⟩ := h.exists_after
  obtain ⟨⟨-, ⟨name, hname⟩, -⟩, -, -⟩ := Connection.work_eq_ok_iff.1 hwork
  refine ⟨name, (w.after [opening]).after (c.workUses request t.commits ++ [.close]), rfl, ?_⟩
  rw [callProcedure_opened h, callOver_run, Connection.transact_eq, hwork]
  dsimp only
  rw [hname]

/-- A task whose work succeeds fails exactly if what came back is rejected. -/
theorem fails_iff_rejected (h : t.Opens env w request c v) {r : Response}
    (hwork : c.work request t.commits = .ok r) : t.Fails env w ↔ r.Rejected t.scope := by
  obtain ⟨name, closed, hstore, hrun⟩ := callProcedure_of_work_ok h hwork
  rw [← Response.setKeys_publication_iff (Connection.named_of_work hwork) t.scope_ne_null w.store,
    ← hstore]
  unfold Fails
  rw [hrun]
  rcases (publish_run t name r closed).2 with ⟨hset, output, hdone⟩ | ⟨e, hset, herror⟩
  · rw [hset, hdone]
    simp
  · rw [hset, herror]
    simp

/-- A task whose work succeeds is torn if what came back is rejected too late. -/
theorem torn_iff (h : t.Opens env w request c v) {r : Response}
    (hwork : c.work request t.commits = .ok r) :
    t.Torn env w ↔ r.Rejected t.scope ∧
      (t.commits = true ∨ (w.store.setKeys t.scope r.publication).2 ≠ w.store) := by
  constructor
  · rintro ⟨request', c', v', r', h', hr, hrest⟩
    obtain ⟨rfl, rfl, rfl⟩ := h.unique h'
    rw [hwork] at hr
    cases hr
    exact hrest
  · intro hrest
    exact ⟨request, c, v, r, h, hwork, hrest⟩

/-- **A task is all or nothing** exactly if it is not torn: it fails behind a commit, or with
variables changed, only if the scope or the name of an output is blank. -/
theorem allOrNothing_iff (t : Task) (env : Surroundings) (w : World) :
    t.AllOrNothing env w ↔ ¬ t.Torn env w := by
  by_cases hopens : ∃ request c v, t.Opens env w request c v
  · obtain ⟨request, c, v, h⟩ := hopens
    unfold AllOrNothing
    cases hwork : c.work request t.commits with
    | error e =>
      have hstore := callProcedure_of_work_error h hwork
      refine iff_of_true (fun _ => ⟨?_, hstore⟩) ?_
      · rw [hasCommitted_iff h, hwork]
        simp
      · rintro ⟨request', c', v', r, h', hr, -⟩
        obtain ⟨rfl, rfl, rfl⟩ := h.unique h'
        rw [hwork] at hr
        cases hr
    | ok r =>
      obtain ⟨name, closed, hstore, hrun⟩ := callProcedure_of_work_ok h hwork
      have hwritten : (t.callProcedure env w).2.store =
          (w.store.setKeys t.scope r.publication).2 := by
        rw [hrun, (publish_run t name r closed).1, hstore]
      rw [torn_iff h hwork, fails_iff_rejected h hwork, hasCommitted_iff h, hwritten, hwork]
      simp
  · refine iff_of_true (fun _ => ⟨?_, ?_⟩) ?_
    · rintro ⟨request, c, v, -, h, -⟩
      exact hopens ⟨request, c, v, h⟩
    · obtain ⟨opening, hworld, -⟩ := callProcedure_unopened hopens
      rw [hworld, World.store_after]
    · rintro ⟨request, c, v, -, h, -⟩
      exact hopens ⟨request, c, v, h⟩

/-- The scope of a task is not blank, and neither is the name of a parameter that gives a value
back. -/
def NamesOutputs (t : Task) (s : Store) : Prop :=
  (∀ text, t.scope.text = .ok text → isBlankText text = false) ∧
    ∀ request, t.request s = .ok request → ∀ p ∈ request.params, p.direction.isOutput = true →
      isBlankText p.outputName = false

theorem not_torn_of_namesOutputs (h : t.NamesOutputs w.store) : ¬ t.Torn env w := by
  obtain ⟨hscope, hparams⟩ := h
  rintro ⟨request, c, v, r, hopens, hwork, ⟨text, htext, hblank⟩, -⟩
  rcases hblank with hblank | ⟨name, value, hmem, hblank⟩
  · rw [hscope text htext] at hblank
    cases hblank
  · obtain ⟨name', hname, hof⟩ := Connection.named_of_work hwork _ hmem
    cases hname
    obtain ⟨p, hp, hdirection, rfl⟩ := hof hblank
    rw [hparams request hopens.1 p hp hdirection] at hblank
    cases hblank

/-- **When a task is all or nothing**: exactly if it is not torn, and in any case if the scope and
the names of the parameters that give values back are not blank. -/
theorem callProcedure_allOrNothing (t : Task) (env : Surroundings) (w : World) :
    (t.AllOrNothing env w ↔ ¬ t.Torn env w) ∧
      (t.NamesOutputs w.store → t.AllOrNothing env w) :=
  ⟨allOrNothing_iff t env w, fun h => (allOrNothing_iff t env w).2 (not_torn_of_namesOutputs h)⟩

/-! ### An output without a name -/

/-- A task whose settings name a second output by the mark of a parameter alone. -/
def markedOnly : Task :=
  .mk "a" "stored_procedure" .null .null .null .stop [(.str "procedure", .str "P"),
    (.str "connection", .str "main"), (.str "params", .list [
      .dict [(.str "name", .str "A"), (.str "direction", .str "OUT")],
      .dict [(.str "name", .str "@"), (.str "direction", .str "OUT")]])] []

/-- A connection that gives two values back. -/
def givingTwo : Connection :=
  ⟨.ok (), .ok (), .ok (.list [.int 1, .int 2]), [], true, .ok (), true⟩

/-- The settings pass the check, but the call is committed and the first output written when the
name of the second one is refused. -/
theorem markedOnly_not_allOrNothing :
    checkCallProcedure markedOnly = .ok () ∧
      ¬ markedOnly.AllOrNothing ⟨⟨"", []⟩, [(.str "main", .ready givingTwo)], []⟩ emptyWorld := by
  refine ⟨rfl, fun h => ?_⟩
  have hfails : markedOnly.Fails ⟨⟨"", []⟩, [(.str "main", .ready givingTwo)], []⟩ emptyWorld :=
    .inr ⟨.malformed "Taska." .blankScopeOrKey, rfl, rfl⟩
  have hsize : (markedOnly.callProcedure ⟨⟨"", []⟩, [(.str "main", .ready givingTwo)], []⟩
      emptyWorld).2.store.size = 0 := congrArg Store.size (h hfails).2
  have hone : (markedOnly.callProcedure ⟨⟨"", []⟩, [(.str "main", .ready givingTwo)], []⟩
      emptyWorld).2.store.size = 1 := rfl
  rw [hone] at hsize
  cases hsize

end Task

end Runbook
