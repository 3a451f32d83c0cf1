import Runbook.Proofs.History
import Runbook.Proofs.Publication
import Runbook.Run.Flow

/-!
# Variables behind failing tasks

A task that fails leaves the variables as they were, if it writes nothing before the last thing
that can fail. Setting a variable, branching, clearing and exporting are such. Removing takes names
one by one, and reading stores the document before the rows, so that both can fail halfway.

* `IsFailure`: what a task does ends in a failure, or in an error that a run takes for one.
* `Run.SparesStore`, `Run.SparesStoreOn`: computations that leave the variables as they are.
* `Store.StopsHalfway`, `Task.HalfRead`: removing and reading that fail halfway.
* `failing_intact_iff`: **a failing task leaves the variables as they were**, exactly if it is none
  of these.
-/

namespace Runbook

open Runbook.Text Runbook.Records

/-! ### Failures -/

/-- **A failure** of what a task does: its outcome is one, or it raises an error of expressions and
variables. -/
def IsFailure : Except Error Outcome → Prop
  | .ok (.done _ _) => False
  | .ok (.failed _) => True
  | .error e => e.isStoreError = true

/-- An error of expressions and variables. -/
def IsStoreFault {α : Type} : Except Error α → Prop
  | .ok _ => False
  | .error e => e.isStoreError = true

namespace Run

variable {α β : Type} {x : Run α} {f : α → Run β} {bad : Except Error β → Prop}

/-- A computation that leaves the variables as they are, whatever it comes to. -/
def SparesStore (x : Run α) : Prop := ∀ w, (x w).2.store = w.store

/-- A computation that leaves the variables as they are if what it comes to is of a certain sort. -/
def SparesStoreOn (bad : Except Error α → Prop) (x : Run α) : Prop :=
  ∀ w, bad (x w).1 → (x w).2.store = w.store

namespace SparesStore

theorem bind (hx : x.SparesStore) (hf : ∀ a, (f a).SparesStore) : (x >>= f).SparesStore :=
  bind_rel (fun w v => v.store = w.store) (fun h h' => h'.trans h) hx hf

theorem attempt (hx : x.SparesStore) : x.attempt.SparesStore := hx

protected theorem pure (a : α) : (pure a : Run α).SparesStore := fun _ => rfl

theorem fail (e : Error) : (Run.fail e : Run α).SparesStore := fun _ => rfl

theorem lift (r : Except Error α) : (liftM r : Run α).SparesStore := fun _ => rfl

theorem store : Run.store.SparesStore := fun _ => rfl

theorem writeFile (l : Location) (c : FileContent) : (Run.writeFile l c).SparesStore := by
  intro w
  rw [Run.writeFile]
  split <;> rfl

end SparesStore

namespace SparesStoreOn

theorem always (hx : (x : Run α).SparesStore) (bad : Except Error α → Prop) :
    x.SparesStoreOn bad := fun w _ => hx w

theorem entries {bad : Except Error α → Prop} (hx : x.SparesStoreOn bad) {w v : World}
    {r : Except Error α} (h : x w = (r, v)) (hr : bad r) : v.store.entries = w.store.entries := by
  have hspares := hx w
  rw [h] at hspares
  rw [hspares hr]

/-- Behind what spares the variables, it is the rest that matters. -/
theorem bind (hx : x.SparesStore) (hf : ∀ a, (f a).SparesStoreOn bad) :
    (x >>= f).SparesStoreOn bad := by
  intro w hbad
  have hfirst := hx w
  rcases hrun : x w with ⟨e | a, v⟩
  · rw [hrun] at hfirst
    rw [bind_error hrun]
    exact hfirst
  · rw [hrun] at hfirst
    rw [bind_ok hrun] at hbad ⊢
    exact (hf a v hbad).trans hfirst

/-- Where nothing behind the last writing goes bad, it is the writing that matters. -/
theorem last (hx : x.SparesStoreOn IsStoreFault) (hf : ∀ a w, ¬ bad (f a w).1)
    (hbad : ∀ e, bad (.error e) → e.isStoreError = true) : (x >>= f).SparesStoreOn bad := by
  intro w h
  have hfirst := hx w
  rcases hrun : x w with ⟨e | a, v⟩
  · rw [bind_error hrun] at h ⊢
    rw [hrun] at hfirst
    exact hfirst (hbad e h)
  · rw [bind_ok hrun] at h
    exact absurd h (hf a v)

theorem write (g : Store → Except Error Store) : (Run.write g).SparesStoreOn IsStoreFault := by
  intro w h
  rw [Run.write, onStore] at h ⊢
  cases hg : g w.store with
  | ok s =>
    rw [hg] at h
    exact h.elim
  | error e => rfl

end SparesStoreOn

/-- Nothing goes bad by a result that raises no error of expressions and variables. -/
theorem not_bad_lift {r : Except Error α} (hr : ∀ e, r = .error e → e.isStoreError = false)
    (hf : ∀ a w, ¬ bad (f a w).1) (hbad : ∀ e, bad (.error e) → e.isStoreError = true) (w : World) :
    ¬ bad (((liftM r : Run α) >>= f) w).1 := by
  cases hresult : r with
  | ok a =>
    rw [bind_lift rfl]
    exact hf a w
  | error e =>
    rw [bind_error (lift_run _ w)]
    intro h
    have hfault := hbad e h
    rw [hr e hresult] at hfault
    cases hfault

end Run

open Run

/-! ### Tasks that write last -/

namespace Task

variable {t : Task} {env : Surroundings}

theorem storeFor_spares (t : Task) (name : String) (v : Value) :
    (storeFor t name v).SparesStoreOn IsStoreFault := by
  unfold storeFor
  split
  · exact .last (.write _) (fun _ _ h => h) fun _ h => h
  · exact .last (.write _) (fun _ => not_bad_lift (fun _ => Value.text_error _)
      (fun _ _ h => h) fun _ h => h) fun _ h => h

/-- **Setting a variable** writes last. -/
theorem assign_spares (t : Task) : t.assign.SparesStoreOn IsFailure := by
  unfold assign
  refine .bind (.lift _) fun _ => .bind (.lift _) fun _ => .bind (.lift _) fun _ =>
    .bind .store fun _ => .bind (.lift _) fun plain => ?_
  split
  · exact .last (storeFor_spares t _ _) (fun _ _ h => h) fun _ h => h
  · split
    · exact .always (.bind (.lift _) fun _ => .pure _) _
    · exact .always (.fail _) _

theorem branchTarget_error (satisfied : Bool) {e : Error}
    (h : t.branchTarget satisfied = .error e) : e.isStoreError = false := by
  unfold branchTarget at h
  split at h
  · cases h
  · exact Value.text_error _ (error_of_map_error h)

/-- **Branching** writes last. -/
theorem branch_spares (t : Task) : t.branch.SparesStoreOn IsFailure := by
  unfold branch
  refine .bind .store fun s => ?_
  split
  · exact .always (.pure _) _
  · exact .always (.fail _) _
  · exact .last (.write _) (fun _ => not_bad_lift (fun _ => branchTarget_error _)
      (fun _ _ h => h) fun _ h => h) fun _ h => h

/-- **Clearing** does not fail. -/
theorem clearAll_spares : clearAll.SparesStoreOn IsFailure := by
  intro w h
  exact h.elim

/-- **Exporting** does not write variables. -/
theorem exportAll_spares (t : Task) (env : Surroundings) : (t.exportAll env).SparesStore := by
  unfold exportAll
  refine .bind .store fun _ => .bind (.lift _) fun _ => .bind (.lift _) fun _ =>
    .bind (.lift _) fun _ => .bind .store fun _ => .bind (.attempt (.writeFile _ _)) fun r => ?_
  split
  · split
    · exact .pure _
    · exact .fail _
  · split
    · exact .fail _
    · exact .pure _

end Task

/-! ### Removing -/

namespace Variables

/-- A write changes nothing exactly if the variable has that value already. -/
theorem put_eq_self_iff {vs : Variables} {b : Base} {v : Value} :
    vs.put b v = vs ↔ vs.lookup? b = some v := by
  induction vs with
  | nil => simp [put, lookup?_nil]
  | cons e vs ih =>
    obtain ⟨c, old⟩ := e
    rw [put, lookup?_cons]
    by_cases hc : c = b
    · simp [hc, eq_comm]
    · simp [hc, ih]

/-- A removal changes nothing exactly if the variable is absent. -/
theorem erase_eq_self_iff {vs : Variables} {b : Base} : vs.erase b = vs ↔ vs.lookup? b = none := by
  rw [erase, List.filter_eq_self, ← Option.not_isSome_iff_eq_none, lookup?_isSome, bases,
    List.mem_map]
  constructor
  · rintro h ⟨e, he, rfl⟩
    simpa using h e he
  · intro h e he
    simpa using fun hb => h ⟨e, he, hb⟩

end Variables

namespace Store

/-- **Removing names stops halfway**: behind names of which one is a variable that is there, comes
what is no name. -/
def StopsHalfway (s : Store) (names : List Value) : Prop :=
  ∃ front name behind, names = front ++ name :: behind ∧ namedBase? name = none ∧
    (∀ n ∈ front, (namedBase? n).isSome = true) ∧
    ∃ n ∈ front, ∃ b, namedBase? n = some b ∧ s.has b = true

variable {s : Store} {names front behind rest : List Value} {name : Value} {b : Base} {e : Error}

theorem erase_eq_self_iff : s.erase b = s ↔ s.has b = false := by
  obtain ⟨vs, policy⟩ := s
  have herase : (⟨vs, policy⟩ : Store).erase b = ⟨vs, policy⟩ ↔ vs.erase b = vs := by
    simp [Store.erase]
  rw [herase, Variables.erase_eq_self_iff]
  show _ ↔ (vs.lookup? b).isSome = false
  rw [Option.isSome_eq_false_iff, Option.isNone_iff_eq_none]

theorem remove_of_base (h : namedBase? name = some b) (s : Store) :
    s.remove name = .ok (s.has b, s.erase b) := by
  rcases remove_cases s name with ⟨c, hc, hremove⟩ | ⟨e, hnone, -⟩
  · rw [h] at hc
    rw [hremove, Option.some.inj hc]
  · rw [h] at hnone
    cases hnone

theorem removeAll_cons (h : namedBase? name = some b) (s : Store) (rest : List Value) :
    (s.removeAll (name :: rest)).2 = ((s.erase b).removeAll rest).2 := by
  rw [removeAll, remove_of_base h]
  rcases hrest : (s.erase b).removeAll rest with ⟨e | removed, s'⟩ <;> simp [hrest]

theorem removeAll_nameless (h : namedBase? name = none) (s : Store) (rest : List Value) :
    ∃ e, s.removeAll (name :: rest) = (.error e, s) := by
  rcases remove_cases s name with ⟨b, hb, -⟩ | ⟨e, -, hremove⟩
  · rw [h] at hb
    cases hb
  · exact ⟨e, by rw [removeAll, hremove]⟩

/-- Names are removed, and then what stands behind them. -/
theorem removeAll_append (hfront : ∀ n ∈ front, (namedBase? n).isSome = true) (s : Store) :
    ∃ removed s', s.removeAll front = (.ok removed, s') ∧ ∀ rest, s.removeAll (front ++ rest) =
      ((s'.removeAll rest).1.map (removed ++ ·), (s'.removeAll rest).2) := by
  induction front generalizing s with
  | nil =>
    refine ⟨[], s, rfl, fun rest => ?_⟩
    rcases hrest : s.removeAll rest with ⟨e | more, s'⟩ <;> simp [hrest, Except.map]
  | cons n ns ih =>
    obtain ⟨b, hb⟩ := Option.isSome_iff_exists.1 (hfront n List.mem_cons_self)
    obtain ⟨removed, s', hns, happend⟩ :=
      ih (fun m hm => hfront m (List.mem_cons_of_mem n hm)) (s.erase b)
    refine ⟨if s.has b then n :: removed else removed, s', ?_, fun rest => ?_⟩
    · rw [removeAll, remove_of_base hb]
      simp only [hns]
    · rw [List.cons_append, removeAll, remove_of_base hb]
      simp only [happend rest]
      rcases s'.removeAll rest with ⟨e | more, s''⟩
      · rfl
      · cases s.has b <;> rfl

/-- **Names are removed up to the first that is none**, and there the removing ends. -/
theorem removeAll_stops (hfront : ∀ n ∈ front, (namedBase? n).isSome = true)
    (hname : namedBase? name = none) (s : Store) (behind : List Value) :
    (s.removeAll (front ++ name :: behind)).2 = (s.removeAll front).2 := by
  obtain ⟨removed, s', hfirst, happend⟩ := removeAll_append hfront s
  obtain ⟨e, hstop⟩ := removeAll_nameless hname s' behind
  rw [happend, hstop, hfirst]

/-- Removing names takes away some of the variables. -/
theorem removeAll_sublist (s : Store) (names : List Value) :
    (s.removeAll names).2.entries.Sublist s.entries := by
  induction names generalizing s with
  | nil => exact .refl _
  | cons n ns ih =>
    cases hn : namedBase? n with
    | none =>
      obtain ⟨e, hstop⟩ := removeAll_nameless hn s ns
      rw [hstop]
    | some b =>
      rw [removeAll_cons hn]
      exact (ih (s.erase b)).trans List.filter_sublist

/-- **Removing names changes nothing** exactly if none of their variables is there. -/
theorem removeAll_eq_self_iff (hnames : ∀ n ∈ names, (namedBase? n).isSome = true) :
    (s.removeAll names).2.entries = s.entries ↔
      ∀ n ∈ names, ∀ b, namedBase? n = some b → s.has b = false := by
  induction names with
  | nil => simp [removeAll]
  | cons n ns ih =>
    obtain ⟨b, hb⟩ := Option.isSome_iff_exists.1 (hnames n List.mem_cons_self)
    have hrest := ih fun m hm => hnames m (List.mem_cons_of_mem n hm)
    rw [removeAll_cons hb]
    constructor
    · intro h
      -- what is left of all of them is left behind the first
      have hfirst : (s.erase b).entries = s.entries := by
        have hsublist := removeAll_sublist (s.erase b) ns
        rw [h] at hsublist
        exact List.filter_sublist.antisymm hsublist
      have herase : s.erase b = s := by rw [erase]; exact congrArg (Store.mk · s.policy) hfirst
      rw [herase] at h
      intro m hm c hc
      rcases List.mem_cons.1 hm with rfl | hm
      · rw [hb] at hc
        cases hc
        exact erase_eq_self_iff.1 herase
      · exact hrest.1 h m hm c hc
    · intro h
      have herase : s.erase b = s := erase_eq_self_iff.2 (h n List.mem_cons_self b hb)
      rw [herase]
      exact hrest.2 fun m hm => h m (List.mem_cons_of_mem n hm)

/-- **A removal that fails leaves the variables as they were**, exactly if it does not stop
halfway. -/
theorem removeAll_intact_iff (h : (s.removeAll names).1 = .error e) :
    (s.removeAll names).2.entries = s.entries ↔ ¬ s.StopsHalfway names := by
  constructor
  · rintro hsame ⟨front, name, behind, rfl, hname, hfront, n, hn, b, hb, hlive⟩
    rw [removeAll_stops hfront hname, removeAll_eq_self_iff hfront] at hsame
    rw [hsame n hn b hb] at hlive
    cases hlive
  · intro hnot
    cases hfind : names.find? fun n => (namedBase? n).isNone with
    | none =>
      -- names only are all removed
      have hall : ∀ n ∈ names, (namedBase? n).isSome = true := by
        simpa [Option.isSome_iff_ne_none] using List.find?_eq_none.1 hfind
      obtain ⟨removed, s', hok, -⟩ := removeAll_append hall s
      rw [hok] at h
      cases h
    | some name =>
      obtain ⟨hname, front, behind, rfl, hfront⟩ := List.find?_eq_some_iff_append.1 hfind
      have hname : namedBase? name = none := by simpa using hname
      have hfront : ∀ n ∈ front, (namedBase? n).isSome = true := by simpa using hfront
      rw [removeAll_stops hfront hname, removeAll_eq_self_iff hfront]
      intro n hn b hb
      rw [← Bool.not_eq_true]
      exact fun hlive => hnot ⟨front, name, behind, rfl, hname, hfront, n, hn, b, hb, hlive⟩

end Store

namespace Task

variable {t : Task} {env : Surroundings} {w v : World} {r : Except Error Outcome}

/-- Removing the variables that the settings name. -/
theorem removeNames_intact_iff (h : t.removeNames w = (r, v)) (hr : IsFailure r) :
    v.store.entries = w.store.entries ↔ ¬ ∃ given names, t.required "names" = .ok given ∧
      given.items = .ok names ∧ w.store.StopsHalfway names := by
  unfold removeNames at h
  cases hgiven : t.required "names" with
  | error e =>
    rw [hgiven, Run.bind_error (Run.lift_run _ w)] at h
    cases h
    simp
  | ok given =>
    cases hitems : given.items with
    | error e =>
      rw [hgiven, Run.bind_lift rfl, hitems, Run.bind_error (Run.lift_run _ w)] at h
      cases h
      simp [hitems]
    | ok names =>
      rw [hgiven, Run.bind_lift rfl, hitems, Run.bind_lift rfl] at h
      rcases hremove : w.store.removeAll names with ⟨e | removed, s⟩
      · have hrun : Run.onStore (·.removeAll names) w = (.error e, { w with store := s }) := by
          rw [Run.onStore, hremove]
        rw [Run.bind_error hrun] at h
        cases h
        have herror : (w.store.removeAll names).1 = .error e := by rw [hremove]
        have hintact := Store.removeAll_intact_iff herror
        rw [hremove] at hintact
        simpa [hitems] using hintact
      · have hrun : Run.onStore (·.removeAll names) w = (.ok removed, { w with store := s }) := by
          rw [Run.onStore, hremove]
        rw [Run.bind_ok hrun] at h
        cases h
        exact hr.elim

/-! ### Reading -/

/-- What a task reads: the settings of its reader. -/
def readerOf (t : Task) (env : Surroundings) (s : Store) : Except Error Records.Settings := do
  let path ← s.resolve (← (← t.required "file").text)
  let records ← arrayPath (t.setting "json_array_path")
  return ⟨env.locate path, (t.setting "jsonl").isTruthy, records, []⟩

/-- The name that a task writes the rows under. -/
def outputName (t : Task) : Except Error String := (t.settingOr "output" (.str "Rows")).text

/-- The rows that a task reads. -/
def rowsOf (t : Task) (settings : Records.Settings) (files : FileTree) :
    Except Error (List Value) :=
  readRows settings (t.setting "columns") (t.settingOr "batch_size" (.int defaultBatch)) files

/-- **Reading keeps the document** in a scope: the settings ask for it, and the rows and the
document are read. -/
structure Keeps (t : Task) (settings : Records.Settings) (w : World) (document : Value)
    (scope : String) : Prop where
  asked : (t.setting "keep_document").isTruthy = true
  rows : ∃ rows, t.rowsOf settings w.files = .ok rows
  holds : readDocument settings.file w.files = .ok document
  inScope : t.scope.text = .ok scope
  named : isBlankText scope = false

/-- **Reading stops halfway**: it keeps a document, which the variables do not hold yet, and the
name for the rows is blank. -/
def HalfRead (t : Task) (env : Surroundings) (w : World) : Prop :=
  ∃ settings document scope output, t.readerOf env w.store = .ok settings ∧
    t.Keeps settings w document scope ∧
    w.store.lookup? (trim scope, "Document") ≠ some document ∧
    t.outputName = .ok output ∧ isBlankText output = true

/-- **Writing in the scope of a task** changes nothing where the scope or the name is blank, and
succeeds where both are not. -/
theorem write_cases (t : Task) (name : String) (value : Value) (w : World) :
    (∃ e, (∀ scope, t.scope.text = .ok scope → isBlankText scope = true ∨ isBlankText name = true) ∧
      Run.write (·.setScoped t.scope (.str name) value) w = (.error e, w)) ∨
    ∃ scope, t.scope.text = .ok scope ∧ isBlankText scope = false ∧ isBlankText name = false ∧
      Run.write (·.setScoped t.scope (.str name) value) w =
        (.ok (), { w with store := w.store.put (trim scope, trim name) value }) := by
  cases htext : t.scope.text with
  | error e =>
    have hset : w.store.setScoped t.scope (.str name) value = .error e := by
      unfold Store.setScoped Store.partText
      rw [htext]
    exact .inl ⟨e, by simp, by simp only [Run.write, Run.onStore, hset]⟩
  | ok scope =>
    have hset := Store.setScoped_text t.scope_ne_null htext w.store name value
    cases hblank : isBlankText scope || isBlankText name with
    | true =>
      rw [if_pos hblank] at hset
      refine .inl ⟨.malformed (Error.variableName scope name) .blankScopeOrKey, ?_, ?_⟩
      · rintro _ ⟨⟩
        rwa [Bool.or_eq_true] at hblank
      · simp only [Run.write, Run.onStore, hset]
    | false =>
      rw [if_neg (by simp [hblank])] at hset
      rw [Bool.or_eq_false_iff] at hblank
      exact .inr ⟨scope, rfl, hblank.1, hblank.2, by simp only [Run.write, Run.onStore, hset]⟩

/-- **What reading leaves**: the document if it is to be kept, and else everything as it was. -/
theorem readRecords_cases (t : Task) (settings : Records.Settings) (w : World) :
    (∃ rows document scope, t.Keeps settings w document scope ∧ t.readRecords settings w =
      (.ok rows, { w with store := w.store.put (trim scope, "Document") document })) ∨
    ((∀ document scope, ¬ t.Keeps settings w document scope) ∧
      (t.readRecords settings w).2 = w) := by
  have hfiles : Run.files w = (.ok w.files, w) := rfl
  unfold readRecords
  rw [Run.bind_ok hfiles]
  cases hrows : readRows settings (t.setting "columns")
      (t.settingOr "batch_size" (.int defaultBatch)) w.files with
  | error e =>
    refine .inr ⟨fun document scope h => ?_, by rw [Run.bind_error (Run.lift_run _ w)]⟩
    obtain ⟨rows, hread⟩ := h.rows
    cases hrows.symm.trans hread
  | ok rows =>
    rw [Run.bind_lift rfl]
    cases hkeep : (t.setting "keep_document").isTruthy with
    | false =>
      refine .inr ⟨fun document scope h => ?_, rfl⟩
      cases hkeep.symm.trans h.asked
    | true =>
      simp only [if_true]
      cases hdocument : readDocument settings.file w.files with
      | error e =>
        refine .inr ⟨fun document scope h => ?_, by rw [Run.bind_error (Run.lift_run _ w)]⟩
        cases hdocument.symm.trans h.holds
      | ok document =>
        rw [Run.bind_lift rfl]
        rcases t.write_cases "Document" document w with
          ⟨e, hblank, hwrite⟩ | ⟨scope, hscope, hnamed, -, hwrite⟩
        · refine .inr ⟨fun document scope h => ?_, by rw [Run.bind_error hwrite]⟩
          rcases hblank scope h.inScope with hscope | hname
          · cases hscope.symm.trans h.named
          · cases hname
        · exact .inl ⟨rows, document, scope, ⟨hkeep, ⟨rows, hrows⟩, hdocument, hscope, hnamed⟩,
            Run.bind_ok hwrite⟩

/-- Reads with a reader, and writes the rows under a name. -/
def readInto (t : Task) (settings : Records.Settings) (output : String) : Run Outcome := do
  match ← Run.attempt (t.readRecords settings) with
  | .error (.file .notFound _) => return .failed ("File not found: " ++ settings.file.text)
  | .error e =>
    if e.isFileError || e.isValueError then
      return .failed ("Failed to read " ++ settings.file.text ++ ": " ++ e.message)
    Run.fail e
  | .ok rows =>
    Run.write (·.setScoped t.scope (.str output) (.list rows))
    let target := Error.variableName (← t.scope.text) output
    return .done ("Read " ++ natText rows.length ++ " row(s) into " ++ target) none

/-- Reading a file is reading with the reader of the task under the name of its output. -/
theorem readFile_eq (t : Task) (env : Surroundings) (w : World) : t.readFile env w =
    (liftM (t.readerOf env w.store) >>= fun settings =>
      liftM t.outputName >>= fun output => t.readInto settings output) w := by
  unfold readFile
  rw [Run.bind_ok (Run.store_run w)]
  unfold readerOf
  simp only [Run.lift_bind, Run.lift_pure_bind]
  rfl

/-- Behind rows that were read, a failure is one of the name that they are written under. -/
theorem readInto_of_read {settings : Records.Settings} {output : String} {rows : List Value}
    {u : World} (hread : t.readRecords settings w = (.ok rows, u))
    (h : t.readInto settings output w = (r, v)) (hr : IsFailure r) :
    v = u ∧ ∀ scope, t.scope.text = .ok scope →
      isBlankText scope = true ∨ isBlankText output = true := by
  rw [readInto, Run.bind_ok (Run.attempt_run _ w), hread] at h
  simp only at h
  rcases t.write_cases output (.list rows) u with
    ⟨e, hblank, hwrite⟩ | ⟨scope, hscope, -, -, hwrite⟩
  · rw [Run.bind_error hwrite] at h
    cases h
    exact ⟨rfl, hblank⟩
  · rw [Run.bind_ok hwrite, hscope, Run.bind_lift rfl] at h
    cases h
    exact hr.elim

/-- What was not read is not written. -/
theorem readInto_of_error {settings : Records.Settings} {e : Error} (output : String)
    (hread : t.readRecords settings w = (.error e, w)) :
    (t.readInto settings output w).2.store = w.store := by
  rw [readInto, Run.bind_ok (Run.attempt_run _ w), hread]
  refine (?_ : SparesStore _) w
  split
  · exact .pure _
  · split
    · exact .pure _
    · exact .fail _
  · rename_i hrows
    cases hrows

/-- **Reading that fails leaves the variables as they were**, exactly if it does not stop
halfway. -/
theorem readFile_intact_iff (h : t.readFile env w = (r, v)) (hr : IsFailure r) :
    v.store.entries = w.store.entries ↔ ¬ t.HalfRead env w := by
  rw [readFile_eq] at h
  cases hreader : t.readerOf env w.store with
  | error e =>
    rw [hreader, Run.bind_error (Run.lift_run _ w)] at h
    cases h
    simp [HalfRead, hreader]
  | ok settings =>
    cases houtput : t.outputName with
    | error e =>
      rw [hreader, Run.bind_lift rfl, houtput, Run.bind_error (Run.lift_run _ w)] at h
      cases h
      simp [HalfRead, houtput]
    | ok output =>
      rw [hreader, Run.bind_lift rfl, houtput, Run.bind_lift rfl] at h
      rcases t.readRecords_cases settings w with
        ⟨rows, document, scope, hkeeps, hread⟩ | ⟨hnot, hsame⟩
      · -- The document is stored, and it is the name for the rows that is refused: the store is as
        -- it was only where it held this very document before.
        obtain ⟨rfl, hblank⟩ := readInto_of_read hread h hr
        have hunnamed : isBlankText output = true :=
          (hblank scope hkeeps.inScope).resolve_left (by simp [hkeeps.named])
        have hput : (w.store.put (trim scope, "Document") document).entries = w.store.entries ↔
            w.store.lookup? (trim scope, "Document") = some document := Variables.put_eq_self_iff
        refine hput.trans ⟨?_, fun hhalf => ?_⟩
        · rintro hheld ⟨_, other, place, _, hsettings, hothers, hnew, -⟩
          cases hreader.symm.trans hsettings
          cases hkeeps.holds.symm.trans hothers.holds
          cases hkeeps.inScope.symm.trans hothers.inScope
          exact hnew hheld
        · exact not_not.1 fun hnew =>
            hhalf ⟨settings, document, scope, output, hreader, hkeeps, hnew, houtput, hunnamed⟩
      · -- No document is stored, so nothing is written in front of the rows.
        refine iff_of_true ?_ ?_
        · rcases hread : t.readRecords settings w with ⟨e | rows, u⟩
          · rw [hread] at hsame
            cases hsame
            have hspares := readInto_of_error output hread
            rw [h] at hspares
            rw [hspares]
          · rw [hread] at hsame
            cases hsame
            rw [(readInto_of_read hread h hr).1]
        · rintro ⟨_, document, scope, _, hsettings, hkeeps, -⟩
          cases hreader.symm.trans hsettings
          exact hnot document scope hkeeps

/-! ### Failing tasks -/

/-- **A task that fails halfway.** -/
inductive HalfDone (t : Task) (env : Surroundings) (w : World) : Prop
  /-- It removes variables, and stops halfway at what is no name. -/
  | removal {action given : Value} {names : List Value}
    (hkind : TaskKind.ofName t.type = .ok .maintain) (haction : t.required "action" = .ok action)
    (hremove : action.isText "remove" = true) (hgiven : t.required "names" = .ok given)
    (hnames : given.items = .ok names) (h : w.store.StopsHalfway names)
  /-- It reads a file, and cannot write the rows behind the document. -/
  | reading (hkind : TaskKind.ofName t.type = .ok .readFile) (h : t.HalfRead env w)

/-- Only tasks that maintain the variables or read a file fail halfway. -/
theorem HalfDone.ofName_eq (h : t.HalfDone env w) : TaskKind.ofName t.type = .ok .maintain ∨
    TaskKind.ofName t.type = .ok .readFile := by
  cases h with
  | removal hkind _ _ _ _ _ => exact .inl hkind
  | reading hkind _ => exact .inr hkind

theorem maintain_intact_iff (hkind : TaskKind.ofName t.type = .ok .maintain)
    (h : t.maintain env w = (r, v)) (hr : IsFailure r) :
    v.store.entries = w.store.entries ↔ ¬ t.HalfDone env w := by
  have hremoval : t.HalfDone env w ↔ ∃ action, t.required "action" = .ok action ∧
      action.isText "remove" = true ∧ ∃ given names, t.required "names" = .ok given ∧
        given.items = .ok names ∧ w.store.StopsHalfway names := by
    constructor
    · rintro (⟨-, haction, hremove, hgiven, hnames, hhalf⟩ | ⟨hread, -⟩)
      · exact ⟨_, haction, hremove, _, _, hgiven, hnames, hhalf⟩
      · cases hkind.symm.trans hread
    · rintro ⟨action, haction, hremove, given, names, hgiven, hnames, hhalf⟩
      exact .removal hkind haction hremove hgiven hnames hhalf
  rw [hremoval]
  unfold maintain at h
  cases haction : t.required "action" with
  | error e =>
    rw [haction, Run.bind_error (Run.lift_run _ w)] at h
    cases h
    simp
  | ok action =>
    rw [haction, Run.bind_lift rfl] at h
    cases hremove : action.isText "remove" with
    | true =>
      rw [if_pos hremove] at h
      rw [removeNames_intact_iff h hr]
      simp [hremove]
    | false =>
      rw [if_neg (by simp [hremove])] at h
      refine iff_of_true ?_ (by simp [hremove])
      split at h
      · exact clearAll_spares.entries h hr
      · exact (SparesStoreOn.always (exportAll_spares t env) IsFailure).entries h hr

/-- **A failing task leaves the variables as they were**, in contents and order, exactly if it does
not fail halfway. Tasks that set a variable or branch always do. -/
theorem failing_intact_iff {kind : TaskKind} {workers : Value}
    {nested : Option (Run (List NestedResult))} (hkind : TaskKind.ofName t.type = .ok kind)
    (hamong : kind ∈ [TaskKind.assign, .branch, .maintain, .readFile])
    (h : t.execute env workers nested w = (r, v)) (hr : IsFailure r) :
    v.store.entries = w.store.entries ↔ ¬ t.HalfDone env w := by
  have hother : kind ≠ .maintain → kind ≠ .readFile → ¬ t.HalfDone env w := by
    intro hmaintain hread hhalf
    rcases hhalf.ofName_eq with hkind' | hkind'
    · exact hmaintain (Except.ok.inj (hkind.symm.trans hkind'))
    · exact hread (Except.ok.inj (hkind.symm.trans hkind'))
  rw [execute, Run.bind_lift hkind] at h
  cases kind with
  | assign => exact iff_of_true ((assign_spares t).entries h hr) (hother (by simp) (by simp))
  | branch => exact iff_of_true ((branch_spares t).entries h hr) (hother (by simp) (by simp))
  | maintain => exact maintain_intact_iff hkind h hr
  | readFile =>
    rw [readFile_intact_iff h hr]
    refine not_congr ⟨.reading hkind, ?_⟩
    rintro (⟨hmaintain, -, -, -, -, -⟩ | ⟨-, hhalf⟩)
    · cases hkind.symm.trans hmaintain
    · exact hhalf
  | callProcedure => simp at hamong
  | fanOut => simp at hamong

/-! ### Removing what is no name -/

/-- A task that removes variables of names. -/
def removalTask (names : List String) : Task :=
  .mk "a" "variables" .null .null .null .stop
    [(.str "action", .str "remove"), (.str "names", .list (names.map .str))] []

/-- A world with one variable. -/
def singleWorld : World := .start ⟨[(("A", "x"), .int 1)], .keepAsIs⟩ ⟨[], []⟩

/-- A name that is none, in front of the variable: the task fails, and the variable stays. -/
theorem removalTask_intact : ∃ e v,
    (removalTask ["bad", "A.x"]).execute ⟨⟨"", []⟩, [], []⟩ .null none singleWorld =
      (.error e, v) ∧ v.store.entries = singleWorld.store.entries := by
  have hrun : ∃ v, (removalTask ["bad", "A.x"]).execute ⟨⟨"", []⟩, [], []⟩ .null none singleWorld =
      (.error (.malformed "bad" .noScopeAndKey), v) := ⟨_, rfl⟩
  obtain ⟨v, hrun⟩ := hrun
  have hmaintain : TaskKind.ofName (removalTask ["bad", "A.x"]).type = .ok .maintain := rfl
  refine ⟨_, v, hrun, (failing_intact_iff hmaintain (by simp) hrun rfl).2 ?_⟩
  rintro (⟨-, -, -, hgiven, hnames, hhalf⟩ | ⟨hread, -⟩)
  · cases hgiven
    cases hnames
    -- what stands in front of the first that is no name is nothing
    obtain ⟨front, name, behind, hsplit, -, hfront, n, hn, -⟩ := hhalf
    cases front with
    | nil => cases hn
    | cons u us =>
      obtain rfl : Value.str "bad" = u := (List.cons.inj hsplit).1
      have hbad := hfront (.str "bad") List.mem_cons_self
      cases hbad
  · cases hmaintain.symm.trans hread

/-- **A task that fails halfway**: behind the variable, it is removed before the task fails. Nothing
is wrong with the settings of the task. -/
theorem removalTask_not_intact : (removalTask ["A.x", "bad"]).checkSelf = .ok () ∧ ∃ e v,
    (removalTask ["A.x", "bad"]).execute ⟨⟨"", []⟩, [], []⟩ .null none singleWorld =
      (.error e, v) ∧ e.isStoreError = true ∧ v.store.entries ≠ singleWorld.store.entries := by
  have hcheck : (removalTask ["A.x", "bad"]).checkSelf = .ok () := rfl
  refine ⟨hcheck, .malformed "bad" .noScopeAndKey, _, rfl, rfl, ?_⟩
  exact List.cons_ne_nil _ _ |>.symm

end Task

end Runbook
