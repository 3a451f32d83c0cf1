import Runbook.Plan.Reading
import Runbook.Proofs.NamedEntries
import Runbook.Proofs.Publication

/-!
# Flaws of plans

Reading a plan stops at the first thing that is wrong with it. All that is wrong can also be listed,
in the order in which it is looked at: then a plan is read exactly if the list is empty, and what
reading fails with is the head of the list. Most flaws are faults of the configuration. The others
are strays: texts that cannot be taken, nested tasks that cannot be gone through though they are
given, and connections that are no pairs of a name and settings.

* `FailsFirst`: a reader fails at the first of some flaws.
* `Task.flaws`, `Plan.flaws`: **the flaws of a task and of a plan**.
* `Task.nestedOf_eq`, `Plan.ofValue_eq`: one equation for nested tasks and one for plans.
* `Task.Stray`, `Plan.Stray`: **the flaws that are no faults of the configuration**, by the data
  they come from.
* `fails_at_first_flaw`: **what reading a plan fails with**, and when it is a fault.
-/

namespace Runbook

open Runbook.Text

/-! ### Failing at the first flaw -/

/-- What fails at the first of some flaws, and fails at nothing where there are none. -/
def FailsFirst {α : Type} (r : Except Error α) : List Error → Prop
  | [] => ∃ x, r = .ok x
  | e :: _ => r = .error e

/-- The flaw that something fails at by itself. -/
def flawOf {α : Type} : Except Error α → List Error
  | .error e => [e]
  | .ok _ => []

section FailsFirst

variable {α β : Type} {r : Except Error α} {k : α → Except Error β} {flaws more : List Error}
  {e : Error}

theorem failsFirst_self (r : Except Error α) : FailsFirst r (flawOf r) := by
  cases r with
  | error e => exact rfl
  | ok x => exact ⟨x, rfl⟩

theorem failsFirst_ok (x : α) : FailsFirst (.ok x) [] := ⟨x, rfl⟩

/-- **One behind another**: the flaws of the second are looked at if the first has none. -/
theorem FailsFirst.before {r' : Except Error β} (h : FailsFirst r flaws)
    (herror : ∀ e, r = .error e → r' = .error e) (hok : ∀ x, r = .ok x → FailsFirst r' more) :
    FailsFirst r' (flaws ++ more) := by
  cases flaws with
  | nil =>
    obtain ⟨x, hx⟩ := h
    exact hok x hx
  | cons e flaws => exact herror e h

theorem FailsFirst.bind (h : FailsFirst r flaws) (hk : ∀ x, r = .ok x → FailsFirst (k x) more) :
    FailsFirst (r >>= k) (flaws ++ more) := by
  refine h.before (fun e he => ?_) fun x hx => ?_
  · rw [he]
    rfl
  · rw [hx]
    exact hk x hx

/-- What cannot fail adds no flaws. -/
theorem FailsFirst.map {f : α → β} (h : FailsFirst r flaws) :
    FailsFirst (r >>= fun x => .ok (f x)) flaws := by
  have hmap := h.bind (k := fun x => .ok (f x)) fun x _ => failsFirst_ok (f x)
  rwa [List.append_nil] at hmap

theorem FailsFirst.error_iff (h : FailsFirst r flaws) : r = .error e ↔ flaws.head? = some e := by
  cases flaws with
  | nil =>
    obtain ⟨x, hx⟩ := h
    rw [hx]
    simp
  | cons f flaws =>
    have hr : r = .error f := h
    rw [hr]
    simp

theorem FailsFirst.ok_iff (h : FailsFirst r flaws) : (∃ x, r = .ok x) ↔ flaws = [] := by
  cases flaws with
  | nil => exact iff_of_true h rfl
  | cons f flaws =>
    have hr : r = .error f := h
    rw [hr]
    simp

end FailsFirst

namespace Task

/-- Something within an element that is no text counts as a member of it. -/
def isMember : Xml.Node → Bool
  | .text _ => false
  | _ => true

/-- How many members a value has, none of which can be a task. -/
def strangers : Value → Except Error Nat
  | .rootElement d => .ok (d.children.countP isMember)
  | v => if v.isTruthy then v.items.map List.length else .ok 0

/-- The flaws of members that are no tasks: each of them is one. -/
def strangerFlaws (position : String) (v : Value) : List Error :=
  match strangers v with
  | .error e => [e]
  | .ok count =>
    (List.range count).map fun i => configError (.taskNotDictionary (nestedPosition position i))

mutual

/-- The flaws of a task, in the order in which it is read. -/
def flaws (position : String) : Value → List Error
  | .dict entries =>
    if !Entries.hasField entries "type" then [configError (.taskWithoutType position)]
    else
      flawOf (readOnError position entries) ++ (flawsIn position entries ++
        (flawOf (Entries.fieldOr entries "id" (.str position)).text ++
          flawOf (Entries.field entries "type").text))
  | _ => [configError (.taskNotDictionary position)]

/-- The flaws of the tasks nested in the entry named `tasks`. -/
def flawsIn (position : String) : List (Value × Value) → List Error
  | [] => []
  | (k, v) :: rest => if k.isText "tasks" then nestedFlaws position v else flawsIn position rest

/-- The flaws of the tasks that a value holds. -/
def nestedFlaws (position : String) : Value → List Error
  | .list items => allFlaws position 0 items
  | .tuple items => allFlaws position 0 items
  | .object ⟨_, _, _, _, _, some (.items members)⟩ => allFlaws position 0 members
  | v => strangerFlaws position v

/-- The flaws of tasks, numbered from an index on. -/
def allFlaws (position : String) (index : Nat) : List Value → List Error
  | [] => []
  | v :: vs => flaws (nestedPosition position index) v ++ allFlaws position (index + 1) vs

end

variable {position : String}

theorem failsFirst_ofEntries (entries : Entries) (onError : OnError) (nested : List Task) :
    FailsFirst (ofEntries position entries onError nested)
      (flawOf (entries.fieldOr "id" (.str position)).text ++ flawOf (entries.field "type").text) :=
  (failsFirst_self _).bind fun _ _ => (failsFirst_self _).map

/-- What nested tasks are read as where no member can be one: the first member is a flaw. -/
def readStrangers (position : String) (v : Value) : Except Error (List Task) :=
  match strangers v with
  | .error e => .error e
  | .ok 0 => .ok []
  | .ok (_ + 1) => .error (configError (.taskNotDictionary (nestedPosition position 0)))

theorem failsFirst_readStrangers (position : String) (v : Value) :
    FailsFirst (readStrangers position v) (strangerFlaws position v) := by
  unfold readStrangers strangerFlaws
  cases strangers v with
  | error e => exact rfl
  | ok count =>
    cases count with
    | zero => exact ⟨[], rfl⟩
    | succ count =>
      simp only [List.range_succ_eq_map]
      exact rfl

/-- The members among which tasks can be: those of a list, a tuple, or an object with members. -/
def sequence? : Value → Option (List Value)
  | .list items => some items
  | .tuple items => some items
  | .object ⟨_, _, _, _, _, some (.items members)⟩ => some members
  | _ => none

theorem readStrangers_eq {v : Value} (hv : ∀ d, v ≠ .rootElement d) :
    readStrangers position v =
      if !v.isTruthy then .ok []
      else match v.items with
        | .error e => .error e
        | .ok [] => .ok []
        | .ok _ => .error (configError (.taskNotDictionary (nestedPosition position 0))) := by
  have hcount : strangers v = if v.isTruthy then v.items.map List.length else .ok 0 := by
    unfold strangers
    split
    · exact absurd rfl (hv _)
    · rfl
  rw [readStrangers, hcount]
  cases v.isTruthy with
  | false => rfl
  | true =>
    match v.items with
    | .error e => rfl
    | .ok [] => rfl
    | .ok (_ :: _) => rfl

theorem readStrangers_element (d : Xml.Document) :
    readStrangers position (.rootElement d) =
      if (Value.rootElement d).isTruthy then
        .error (configError (.taskNotDictionary (nestedPosition position 0)))
      else .ok [] := by
  have htruthy : (Value.rootElement d).isTruthy = d.children.any isMember := rfl
  have hcount : d.children.any isMember = true ↔ 0 < d.children.countP isMember := by
    rw [List.any_eq_true, List.countP_pos_iff]
  rw [htruthy, readStrangers, strangers]
  cases hmembers : d.children.countP isMember with
  | zero => rw [if_neg (by rw [hcount]; omega)]
  | succ count => rw [if_pos (by rw [hcount]; omega)]

/-- **Nested tasks are looked for in sequences only.** -/
theorem nestedOf_eq (position : String) (v : Value) : nestedOf position v =
    match sequence? v with
    | some items => allOf position 0 items
    | none => readStrangers position v := by
  cases v with
  | list items => rfl
  | tuple items => rfl
  | object o =>
    obtain ⟨label, text, attributes, methods, properties, index⟩ := o
    match index with
    | some (.items members) => rfl
    | some (.fails reason) => rfl
    | none => rfl
  | rootElement d => exact (readStrangers_element d).symm
  | _ =>
    refine ((readStrangers_eq ?_).trans ?_).symm
    · exact fun _ h => Value.noConfusion h
    · rfl

mutual

theorem failsFirst_ofValue (position : String) (v : Value) :
    FailsFirst (ofValue position v) (flaws position v) := by
  cases v with
  | dict entries =>
    rw [ofValue, flaws]
    by_cases htype : (!Entries.hasField entries "type") = true
    · rw [if_pos htype, if_pos htype]
      exact rfl
    · rw [if_neg htype, if_neg htype]
      refine (failsFirst_self (readOnError position entries)).before (fun e he => by rw [he])
        fun onError honError => ?_
      rw [honError]
      refine (failsFirst_nestedIn position entries).before (fun e he => by rw [he])
        fun nested hnested => ?_
      rw [hnested]
      exact failsFirst_ofEntries entries onError nested
  | _ => exact rfl

theorem failsFirst_nestedIn (position : String) (entries : List (Value × Value)) :
    FailsFirst (nestedIn position entries) (flawsIn position entries) := by
  cases entries with
  | nil => exact ⟨[], rfl⟩
  | cons e rest =>
    obtain ⟨k, v⟩ := e
    rw [nestedIn, flawsIn]
    by_cases hk : k.isText "tasks" = true
    · rw [if_pos hk, if_pos hk]
      exact failsFirst_nestedOf position v
    · rw [if_neg hk, if_neg hk]
      exact failsFirst_nestedIn position rest

theorem failsFirst_nestedOf (position : String) (v : Value) :
    FailsFirst (nestedOf position v) (nestedFlaws position v) := by
  cases v with
  | list items => exact failsFirst_allOf position 0 items
  | tuple items => exact failsFirst_allOf position 0 items
  | object o =>
    obtain ⟨label, text, attributes, methods, properties, index⟩ := o
    match index with
    | some (.items members) => exact failsFirst_allOf position 0 members
    | some (.fails reason) =>
      rw [nestedOf_eq]
      exact failsFirst_readStrangers position _
    | none =>
      rw [nestedOf_eq]
      exact failsFirst_readStrangers position _
  | _ =>
    rw [nestedOf_eq]
    exact failsFirst_readStrangers position _

theorem failsFirst_allOf (position : String) (index : Nat) (vs : List Value) :
    FailsFirst (allOf position index vs) (allFlaws position index vs) := by
  cases vs with
  | nil => exact ⟨[], rfl⟩
  | cons v vs =>
    rw [allOf, allFlaws]
    refine (failsFirst_ofValue _ v).before (fun e he => by rw [he]) fun t ht => ?_
    rw [ht]
    have hrest := failsFirst_allOf position (index + 1) vs
    rw [← List.append_nil (allFlaws position (index + 1) vs)]
    refine hrest.before (fun e he => by rw [he]) fun ts hts => ?_
    rw [hts]
    exact failsFirst_ok _

end

end Task

/-! ### Plans -/

theorem failsFirst_mapM {α β : Type} (f : α → Except Error β) (xs : List α) :
    FailsFirst (xs.mapM f) (xs.flatMap fun x => flawOf (f x)) := by
  induction xs with
  | nil => exact ⟨[], rfl⟩
  | cons x xs ih =>
    rw [List.mapM_cons, List.flatMap_cons]
    exact (failsFirst_self (f x)).bind fun y _ => ih.map

/-- The flaws of the tasks of a plan, numbered from an index on. -/
def topFlaws (index : Nat) : List Value → List Error
  | [] => []
  | v :: vs => Task.flaws (natText (index + 1)) v ++ topFlaws (index + 1) vs

theorem failsFirst_topTasks (index : Nat) (vs : List Value) :
    FailsFirst (topTasks index vs) (topFlaws index vs) := by
  induction vs generalizing index with
  | nil => exact ⟨[], rfl⟩
  | cons v vs ih =>
    rw [topTasks, topFlaws]
    exact (Task.failsFirst_ofValue _ v).bind fun t _ => (ih (index + 1)).map

/-- Ids of more than one task are a flaw where all tasks can be read. -/
def duplicateFlaws : Except Error (List Task) → List Error
  | .error _ => []
  | .ok tasks =>
    if !(duplicateIds tasks).isEmpty then [configError (.duplicateIds (duplicateIds tasks))] else []

namespace Plan

/-- The tasks of a plan, whose ids have been compared. -/
def tasksOf (entries : Entries) : Except Error (List Task) :=
  match (entries.field "tasks").orElse (.list []) with
  | .list items => do
    let tasks ← topTasks 0 items
    if !(duplicateIds tasks).isEmpty then .error (configError (.duplicateIds (duplicateIds tasks)))
    else .ok tasks
  | _ => .error (configError .tasksNotList)

/-- The variables of a plan. -/
def varsOf (entries : Entries) : Except Error Entries :=
  match (entries.field "vars").orElse (.dict []) with
  | .dict vars => .ok vars
  | _ => .error (configError .varsNotDictionary)

/-- **Four readers, one behind another**, read a plan. -/
theorem ofValue_eq (entries : Entries) : Plan.ofValue (.dict entries) = (do
    let tasks ← tasksOf entries
    let policy ← policyOf (entries.fieldOr "missing_variables" (.str "keep_as_is"))
    let vars ← varsOf entries
    let connections ← connectionsOf (entries.field "connections")
    .ok {
      name := entries.fieldOr "name" (.str "Workflow")
      tasks
      policy
      maxWorkers := entries.field "max_workers"
      clearOnFinish := entries.fieldOr "clear_on_finish" (.bool false)
      connections
      vars }) := by
  have hmap : (Value.dict entries).asMap "get" = .ok entries := rfl
  unfold Plan.ofValue tasksOf varsOf
  rw [hmap]
  simp only [bind, Except.bind]
  cases (entries.field "tasks").orElse (.list []) with
  | list items =>
    dsimp only
    cases topTasks 0 items with
    | error e => rfl
    | ok tasks =>
      by_cases hduplicates : (!(duplicateIds tasks).isEmpty) = true
      · simp only [if_pos hduplicates]
        rfl
      · simp only [if_neg hduplicates]
        cases policyOf (entries.fieldOr "missing_variables" (.str "keep_as_is")) with
        | error e => rfl
        | ok policy =>
          cases (entries.field "vars").orElse (.dict []) <;> rfl
  | _ => rfl

/-- The flaws among the tasks of a plan. -/
def taskFlaws (entries : Entries) : List Error :=
  match (entries.field "tasks").orElse (.list []) with
  | .list items => topFlaws 0 items ++ duplicateFlaws (topTasks 0 items)
  | _ => [configError .tasksNotList]

/-- The flaws among connections. -/
def connectionFlaws (v : Value) : List Error :=
  match (v.orElse (.dict [])).pairItems with
  | .error e => [e]
  | .ok items => items.flatMap fun item => flawOf (namedConnection item)

/-- **The flaws of a plan**, in the order in which it is read. -/
def flaws (entries : Entries) : List Error :=
  taskFlaws entries ++
    (flawOf (policyOf (entries.fieldOr "missing_variables" (.str "keep_as_is"))) ++
      (flawOf (varsOf entries) ++ connectionFlaws (entries.field "connections")))

theorem failsFirst_tasksOf (entries : Entries) :
    FailsFirst (tasksOf entries) (taskFlaws entries) := by
  unfold tasksOf taskFlaws
  split
  · rename_i items hitems
    refine (failsFirst_topTasks 0 items).bind fun tasks htasks => ?_
    rw [htasks, duplicateFlaws]
    by_cases hduplicates : (!(duplicateIds tasks).isEmpty) = true
    · rw [if_pos hduplicates, if_pos hduplicates]
      exact rfl
    · rw [if_neg hduplicates, if_neg hduplicates]
      exact failsFirst_ok tasks
  · exact rfl

theorem failsFirst_connectionsOf (v : Value) :
    FailsFirst (connectionsOf v) (connectionFlaws v) := by
  unfold connectionsOf connectionFlaws
  cases (v.orElse (.dict [])).pairItems with
  | error e => exact rfl
  | ok items => exact (failsFirst_mapM namedConnection items).map

/-- **A plan is read unless it has flaws**; then the first of them is what reading fails with. -/
theorem failsFirst_ofValue (entries : Entries) :
    FailsFirst (Plan.ofValue (.dict entries)) (flaws entries) := by
  rw [ofValue_eq]
  exact (failsFirst_tasksOf entries).bind fun tasks _ =>
    (failsFirst_self _).bind fun policy _ => (failsFirst_self _).bind fun vars _ =>
      (failsFirst_connectionsOf _).map

end Plan

/-! ### Stray errors -/

/-- A fault of the configuration. -/
def Error.isConfig : Error → Bool
  | .config _ => true
  | _ => false

theorem mem_flawOf {α : Type} {r : Except Error α} {e : Error} : e ∈ flawOf r ↔ r = .error e := by
  cases r with
  | error f => simp [flawOf, eq_comm]
  | ok x => simp [flawOf]

section Fields

variable {entries : Entries} {name : String}

theorem sameKey_text (k : Value) (name : String) : k.sameKey (.str name) = k.isText name := by
  cases k with
  | float x =>
    show Value.sameScalar (.float x) (.str name) = false
    unfold Value.sameScalar
    dsimp only
    cases (Value.float x).exactNumber? <;> rfl
  | decimal d =>
    show Value.sameScalar (.decimal d) (.str name) = false
    unfold Value.sameScalar
    dsimp only
    cases (Value.decimal d).exactNumber? <;> rfl
  | _ => rfl

theorem field_cons (k v : Value) (rest : Entries) (name : String) :
    Entries.field ((k, v) :: rest) name = if k.isText name then v else Entries.field rest name := by
  unfold Entries.field Entries.field? Entries.get?
  rw [List.find?_cons, sameKey_text]
  cases k.isText name <;> rfl

/-- A default with a text changes no failing. -/
theorem text_fieldOr_error {default : Value} {e : Error} {s : String} (hs : default.text = .ok s)
    (h : (entries.fieldOr name default).text = .error e) :
    (entries.field name).text = .error e := by
  unfold Entries.fieldOr at h
  unfold Entries.field
  cases hfield : entries.field? name with
  | none =>
    rw [hfield, Option.getD_none, hs] at h
    cases h
  | some v => rwa [hfield] at h

end Fields

namespace Task

/-- **What reading a task strays from its faults by**: a text that cannot be taken, or nested tasks
that cannot be gone through, in the task or in one nested in it. -/
inductive Stray : Value → Error → Prop
  | text {entries : Entries} {name : String} {e : Error} (hname : name ∈ ["on_error", "id", "type"])
      (h : (entries.field name).text = .error e) : Stray (.dict entries) e
  | nested {entries : Entries} {e : Error} (h : strangers (entries.field "tasks") = .error e) :
      Stray (.dict entries) e
  | within {entries : Entries} {items : List Value} {v : Value} {e : Error}
      (hitems : sequence? (entries.field "tasks") = some items) (hv : v ∈ items) (h : Stray v e) :
      Stray (.dict entries) e

/-- What reading nested tasks strays by. -/
def NestedStray (v : Value) (e : Error) : Prop :=
  strangers v = .error e ∨ ∃ items, sequence? v = some items ∧ ∃ w ∈ items, Stray w e

theorem NestedStray.stray {entries : Entries} {e : Error}
    (h : NestedStray (entries.field "tasks") e) : Stray (.dict entries) e := by
  rcases h with h | ⟨items, hitems, w, hw, h⟩
  · exact .nested h
  · exact .within hitems hw h

variable {position : String} {e : Error}

theorem readOnError_error {entries : Entries} (h : readOnError position entries = .error e) :
    e.isConfig = true ∨ (entries.field "on_error").text = .error e := by
  unfold readOnError at h
  simp only at h
  split at h
  · cases h
  · cases htext : (entries.fieldOr "on_error" (.str "stop")).text with
    | error f =>
      rw [htext] at h
      cases h
      exact .inr (text_fieldOr_error (s := "stop") rfl htext)
    | ok given =>
      rw [htext] at h
      cases h
      exact .inl rfl

theorem mem_strangerFlaws (position : String) {v : Value} (h : e ∈ strangerFlaws position v) :
    e.isConfig = true ∨ strangers v = .error e := by
  unfold strangerFlaws at h
  cases hcount : strangers v with
  | error f =>
    rw [hcount] at h
    exact .inr (by rw [List.mem_singleton.1 h])
  | ok count =>
    simp only [hcount, List.mem_map] at h
    obtain ⟨i, -, rfl⟩ := h
    exact .inl rfl

mutual

/-- **The flaws of a task** are faults of the configuration or strays. -/
theorem stray_of_mem_flaws (position : String) (v : Value) (h : e ∈ flaws position v) :
    e.isConfig = true ∨ Stray v e := by
  cases v with
  | dict entries =>
    rw [flaws] at h
    split at h
    · rw [List.mem_singleton.1 h]
      exact .inl rfl
    · simp only [List.mem_append, mem_flawOf] at h
      rcases h with h | h | h | h
      · exact (readOnError_error h).imp_right fun h => .text (by simp) h
      · exact (stray_of_mem_flawsIn position entries h).imp_right NestedStray.stray
      · exact .inr (.text (by simp) (text_fieldOr_error (s := position) rfl h))
      · exact .inr (.text (by simp) h)
  | _ =>
    rw [List.mem_singleton.1 h]
    exact .inl rfl

theorem stray_of_mem_flawsIn (position : String) (entries : List (Value × Value))
    (h : e ∈ flawsIn position entries) :
    e.isConfig = true ∨ NestedStray (Entries.field entries "tasks") e := by
  cases entries with
  | nil => cases h
  | cons entry rest =>
    obtain ⟨k, v⟩ := entry
    rw [flawsIn] at h
    rw [field_cons]
    by_cases hk : k.isText "tasks" = true
    · rw [if_pos hk] at h ⊢
      exact stray_of_mem_nestedFlaws position v h
    · rw [if_neg hk] at h ⊢
      exact stray_of_mem_flawsIn position rest h

theorem stray_of_mem_nestedFlaws (position : String) (v : Value) (h : e ∈ nestedFlaws position v) :
    e.isConfig = true ∨ NestedStray v e := by
  cases v with
  | list items =>
    exact (stray_of_mem_allFlaws position 0 items h).imp_right fun h => .inr ⟨items, rfl, h⟩
  | tuple items =>
    exact (stray_of_mem_allFlaws position 0 items h).imp_right fun h => .inr ⟨items, rfl, h⟩
  | object o =>
    obtain ⟨label, text, attributes, methods, properties, index⟩ := o
    match index with
    | some (.items members) =>
      exact (stray_of_mem_allFlaws position 0 members h).imp_right fun h => .inr ⟨members, rfl, h⟩
    | some (.fails reason) => exact (mem_strangerFlaws position h).imp_right .inl
    | none => exact (mem_strangerFlaws position h).imp_right .inl
  | _ => exact (mem_strangerFlaws position h).imp_right .inl

theorem stray_of_mem_allFlaws (position : String) (index : Nat) (vs : List Value)
    (h : e ∈ allFlaws position index vs) : e.isConfig = true ∨ ∃ w ∈ vs, Stray w e := by
  cases vs with
  | nil => cases h
  | cons v vs =>
    rw [allFlaws, List.mem_append] at h
    rcases h with h | h
    · exact (stray_of_mem_flaws _ v h).imp_right fun h => ⟨v, List.mem_cons_self, h⟩
    · refine (stray_of_mem_allFlaws position (index + 1) vs h).imp_right ?_
      rintro ⟨w, hw, h⟩
      exact ⟨w, List.mem_cons_of_mem v hw, h⟩

end

end Task

/-- What a connection strays by: it is no pair, its name has no text where the driver is missing, or
its name cannot be one. -/
inductive StrayConnection (item : Value) : Error → Prop
  | pair {e : Error} (h : item.unpackPair = .error e) : StrayConnection item e
  | name {name settings : Value} {e : Error} (hpair : item.unpackPair = .ok (name, settings))
      (h : name.text = .error e) : StrayConnection item e
  | key {name settings : Value} {typeName : String} (hpair : item.unpackPair = .ok (name, settings))
      (h : name.unhashable? = some typeName) : StrayConnection item (.kind (.notHashable typeName))

/-- **What reading a plan strays from its faults by**: a stray task, a policy whose text fails in a
way of its own, connections that have no items to go through, or a stray connection. -/
inductive Plan.Stray (entries : Entries) : Error → Prop
  | task {items : List Value} {v : Value} {e : Error} (hitems : entries.field "tasks" = .list items)
      (hv : v ∈ items) (h : Task.Stray v e) : Stray entries e
  | policy {e : Error} (h : (entries.field "missing_variables").text = .error e)
      (hvalue : e.isValueError = false) : Stray entries e
  | connections {e : Error}
      (h : ((entries.field "connections").orElse (.dict [])).pairItems = .error e) : Stray entries e
  | connection {items : List Value} {item : Value} {e : Error}
      (hitems : ((entries.field "connections").orElse (.dict [])).pairItems = .ok items)
      (hitem : item ∈ items) (h : StrayConnection item e) : Stray entries e

section Strays

variable {entries : Entries} {v : Value} {e : Error}

theorem not_config_of_isTextFault (h : e.isTextFault = true) : e.isConfig = false := by
  cases e with
  | config fault => cases h
  | _ => rfl

theorem items_not_config (h : v.items = .error e) : e.isConfig = false := by
  cases v with
  | object o =>
    rw [Value.items] at h
    split at h
    · cases h
    · cases h
      rfl
    · cases h
      rfl
  | _ =>
    unfold Value.items at h
    cases h <;> rfl

theorem strangers_not_config (h : Task.strangers v = .error e) : e.isConfig = false := by
  unfold Task.strangers at h
  split at h
  · cases h
  · split at h
    · exact items_not_config (error_of_map_error h)
    · cases h

theorem Task.Stray.not_config (h : Task.Stray v e) : e.isConfig = false := by
  induction h with
  | text hname h => exact not_config_of_isTextFault (Value.text_isTextFault _ h)
  | nested h => exact strangers_not_config h
  | within hitems hv h ih => exact ih

theorem callMember_not_config {o : Object Value} {name : String}
    (h : o.callMember name = .error e) : e.isConfig = false := by
  unfold Object.callMember at h
  split at h
  · cases h
    rfl
  · cases h
    rfl
  · cases h
    rfl
  · unfold Method.call at h
    split at h <;> cases h <;> rfl
  · cases h
    rfl

theorem pairItems_not_config (h : v.pairItems = .error e) : e.isConfig = false := by
  cases v with
  | object o =>
    rw [Value.pairItems] at h
    split at h
    · cases h
      exact callMember_not_config ‹_›
    · exact items_not_config h
  | _ =>
    unfold Value.pairItems at h
    cases h <;> rfl

theorem unpackPair_not_config (h : v.unpackPair = .error e) : e.isConfig = false := by
  unfold Value.unpackPair at h
  split at h
  · cases h
  · cases h
    rfl
  · cases h
    rfl
  · rename_i f _ hitems
    cases h
    exact items_not_config hitems

theorem StrayConnection.not_config (h : StrayConnection v e) : e.isConfig = false := by
  cases h with
  | pair h => exact unpackPair_not_config h
  | name hpair h => exact not_config_of_isTextFault (Value.text_isTextFault _ h)
  | key hpair h => rfl

/-- **Strays are no faults of the configuration.** -/
theorem Plan.Stray.not_config (h : Plan.Stray entries e) : e.isConfig = false := by
  cases h with
  | task hitems hv h => exact h.not_config
  | policy h hvalue => exact not_config_of_isTextFault (Value.text_isTextFault _ h)
  | connections h => exact pairItems_not_config h
  | connection hitems hitem h => exact h.not_config

theorem stray_of_mem_topFlaws {index : Nat} {items : List Value} (h : e ∈ topFlaws index items) :
    e.isConfig = true ∨ ∃ v ∈ items, Task.Stray v e := by
  induction items generalizing index with
  | nil => cases h
  | cons v vs ih =>
    rw [topFlaws, List.mem_append] at h
    rcases h with h | h
    · exact (Task.stray_of_mem_flaws _ v h).imp_right fun h => ⟨v, List.mem_cons_self, h⟩
    · refine (ih h).imp_right ?_
      rintro ⟨w, hw, h⟩
      exact ⟨w, List.mem_cons_of_mem v hw, h⟩

theorem stray_of_mem_taskFlaws (h : e ∈ Plan.taskFlaws entries) :
    e.isConfig = true ∨ Plan.Stray entries e := by
  unfold Plan.taskFlaws at h
  split at h
  · rename_i items hitems
    rcases List.mem_append.1 h with h | h
    · refine (stray_of_mem_topFlaws h).imp_right ?_
      rintro ⟨v, hv, h⟩
      have hfield : entries.field "tasks" = .list items := by
        unfold Value.orElse at hitems
        split at hitems
        · exact hitems
        · cases hitems
          cases hv
      exact .task hfield hv h
    · left
      unfold duplicateFlaws at h
      split at h
      · cases h
      · split at h
        · rw [List.mem_singleton.1 h]
          rfl
        · cases h
  · rw [List.mem_singleton.1 h]
    exact .inl rfl

/-- Besides a text that names no policy, reading one fails with the text only. -/
theorem text_of_parse_error (h : MissingPolicy.parse v = .error e)
    (hvalue : e.isValueError = false) : v.text = .error e := by
  unfold MissingPolicy.parse at h
  split at h
  · cases h
  · cases htext : v.text with
    | error f =>
      rw [htext] at h
      cases h
      rfl
    | ok given =>
      rw [htext] at h
      simp only at h
      split at h
      · cases h
      · cases h
        cases hvalue

theorem stray_of_policyOf (h : policyOf (entries.fieldOr "missing_variables" (.str "keep_as_is")) =
    .error e) : e.isConfig = true ∨ Plan.Stray entries e := by
  unfold policyOf at h
  cases hread : MissingPolicy.parse (entries.fieldOr "missing_variables" (.str "keep_as_is")) with
  | ok p =>
    rw [hread] at h
    cases h
  | error f =>
    rw [hread] at h
    cases hvalue : f.isValueError with
    | true =>
      simp only [hvalue, if_true] at h
      cases h
      exact .inl rfl
    | false =>
      simp only [hvalue, Bool.false_eq_true, if_false] at h
      cases h
      have htext := text_of_parse_error hread hvalue
      exact .inr (.policy (text_fieldOr_error (s := "keep_as_is") rfl htext) hvalue)

theorem varsOf_isConfig (h : Plan.varsOf entries = .error e) : e.isConfig = true := by
  unfold Plan.varsOf at h
  split at h
  · cases h
  · cases h
    rfl

theorem connectionOf_error {name settings : Value} (h : connectionOf name settings = .error e) :
    e.isConfig = true ∨ name.text = .error e := by
  have hmessage : ∀ {α : Type}, (do throw (configError (.connectionWithoutDriver (← name.text))) :
      Except Error α) = .error e → e.isConfig = true ∨ name.text = .error e := by
    intro α h
    cases htext : name.text with
    | error f =>
      rw [htext] at h
      cases h
      exact .inr rfl
    | ok given =>
      rw [htext] at h
      cases h
      exact .inl rfl
  unfold connectionOf at h
  split at h
  · split at h
    · cases h
    · exact hmessage h
  · exact hmessage h

theorem stray_of_namedConnection (h : namedConnection v = .error e) :
    e.isConfig = true ∨ StrayConnection v e := by
  cases hpair : v.unpackPair with
  | error f =>
    rw [namedConnection, hpair] at h
    cases h
    exact .inr (.pair hpair)
  | ok pair =>
    obtain ⟨name, settings⟩ := pair
    rw [namedConnection, hpair] at h
    cases hconnection : connectionOf name settings with
    | error f =>
      have hf : f = e := by
        simp only [bind, Except.bind, hconnection] at h
        exact Except.error.inj h
      subst hf
      exact (connectionOf_error hconnection).imp_right (.name hpair)
    | ok connection =>
      simp only [bind, Except.bind, hconnection] at h
      split at h
      · rename_i typeName hkey
        cases h
        exact .inr (.key hpair hkey)
      · cases h

/-- **The flaws of a plan** are faults of the configuration or strays. -/
theorem stray_of_mem_flaws (h : e ∈ Plan.flaws entries) :
    e.isConfig = true ∨ Plan.Stray entries e := by
  simp only [Plan.flaws, List.mem_append, mem_flawOf] at h
  rcases h with h | h | h | h
  · exact stray_of_mem_taskFlaws h
  · exact stray_of_policyOf h
  · exact .inl (varsOf_isConfig h)
  · unfold Plan.connectionFlaws at h
    split at h
    · rename_i f hitems
      rw [List.mem_singleton.1 h]
      exact .inr (.connections hitems)
    · rename_i items hitems
      obtain ⟨item, hitem, h⟩ := List.mem_flatMap.1 h
      exact (stray_of_namedConnection (mem_flawOf.1 h)).imp_right (.connection hitems hitem)

end Strays

/-- **Reading a plan** fails at the first of its flaws, and comes to a plan if there are none. A
flaw is a fault of the configuration, unless it is a stray. So a plan or a fault of the
configuration is what reading comes to exactly if the first flaw is no stray. -/
theorem fails_at_first_flaw (entries : Entries) :
    FailsFirst (Plan.ofValue (.dict entries)) (Plan.flaws entries) ∧
    (∀ e ∈ Plan.flaws entries, e.isConfig = false ↔ Plan.Stray entries e) ∧
    (((∃ plan, Plan.ofValue (.dict entries) = .ok plan) ∨
        ∃ fault, Plan.ofValue (.dict entries) = .error (.config fault)) ↔
      ∀ e, (Plan.flaws entries).head? = some e → ¬ Plan.Stray entries e) := by
  have hfails := Plan.failsFirst_ofValue entries
  have hstray : ∀ e ∈ Plan.flaws entries, e.isConfig = false ↔ Plan.Stray entries e := by
    intro e he
    refine ⟨fun hconfig => ?_, Plan.Stray.not_config⟩
    exact (stray_of_mem_flaws he).resolve_left (by rw [hconfig]; exact Bool.false_ne_true)
  refine ⟨hfails, hstray, ?_, ?_⟩
  · rintro (hplan | ⟨fault, hfault⟩) e hfirst h
    · rw [hfails.ok_iff.1 hplan] at hfirst
      cases hfirst
    · rw [hfails.error_iff.1 hfault] at hfirst
      cases hfirst
      cases h.not_config
  · intro hfirst
    cases hread : Plan.ofValue (.dict entries) with
    | ok plan => exact .inl ⟨plan, rfl⟩
    | error e =>
      have hhead := hfails.error_iff.1 hread
      have hno := hfirst e hhead
      rcases stray_of_mem_flaws (List.mem_of_head? hhead) with hconfig | h
      · cases e with
        | config fault => exact .inr ⟨fault, rfl⟩
        | _ => cases hconfig
      · exact absurd h hno

/-- A plan whose task has a number where its nested tasks belong. -/
def countedTasks : List (String × Value) :=
  [("tasks", .list [.dict (Entries.named [("type", .str "parallel"), ("tasks", .int 5)])])]

theorem ofValue_countedTasks : Plan.ofValue (.dict (Entries.named countedTasks)) =
    .error (.kind (.notIterable "int")) := by
  have hhead : (Plan.flaws (Entries.named countedTasks)).head? =
      some (.kind (.notIterable "int")) := rfl
  exact (Plan.failsFirst_ofValue _).error_iff.2 hhead

/-- **Reading does not only fail with faults**: a number of nested tasks is a stray. -/
theorem countedTasks_strays : ¬ ∀ members : List (String × Value),
    (∃ plan, Plan.ofValue (.dict (Entries.named members)) = .ok plan) ∨
      ∃ fault, Plan.ofValue (.dict (Entries.named members)) = .error (.config fault) := by
  intro h
  rcases h countedTasks with ⟨plan, hplan⟩ | ⟨fault, hfault⟩
  · rw [ofValue_countedTasks] at hplan
    cases hplan
  · rw [ofValue_countedTasks] at hfault
    cases hfault

end Runbook
