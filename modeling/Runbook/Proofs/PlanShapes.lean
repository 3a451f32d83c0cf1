import Runbook.Proofs.Checking
import Runbook.Proofs.Course
import Runbook.Proofs.Digits
import Runbook.Proofs.PlanFlaws

/-!
# Shapes of plans

What is known of a plan that has been read. Its tasks stand as their data do, at every depth, and
each of them has what its dictionary says. No two tasks of the top share an id, and where no id is
given anywhere, no two tasks at all do: a task is then named by its position, and positions are
paths of numbers, of which one goes on from another behind an underscore only.

* `Task.TakenFrom`: a task as its dictionary has it.
* `Task.Mirrors`, `Task.MirrorsAll`: **tasks in the shape of their data**.
* `Task.Describes`: the dictionaries of tasks at any depth.
* `Below`, `Separate`: positions below others, and places that have none below both.
* `Task.Mirrors.ids_below`: without given ids, **tasks are named by their positions**.
* `accepted_shape`: **what is known of an accepted plan**.
-/

namespace Runbook

open Runbook.Text

namespace Task

/-! ### Tasks in the shape of their data -/

/-- **A task as its dictionary has it.** The id is the text of the given one or the position, the
settings are the entries under other keys than the seven shared ones, in their order. -/
structure TakenFrom (position : String) (entries : Entries) (t : Task) : Prop where
  id : (entries.fieldOr "id" (.str position)).text = .ok t.id
  hasType : entries.hasField "type" = true
  type : (entries.field "type").text = .ok t.type
  name : t.name = entries.field "name"
  scope : t.givenScope = entries.field "scope"
  guard : t.guard = entries.field "when"
  onError : ∃ text ∈ ["stop", "continue"],
    (entries.fieldOr "on_error" (.str "stop")).isText text = true ∧ t.onError.text = text
  settings : t.settings = entries.filter fun e =>
    !(["id", "type", "name", "scope", "when", "on_error", "tasks"].any e.1.isText)

mutual

/-- **A task in the shape of its data**: it has no tasks nested in it where none are given, and
where some are, one for each, in their order. -/
inductive Mirrors : String → Value → Task → Prop
  | leaf {position : String} {entries : Entries} {t : Task} (taken : TakenFrom position entries t)
      (hgiven : (entries.field "tasks").isTruthy = false) (hnested : t.nested = []) :
      Mirrors position (.dict entries) t
  | parent {position : String} {entries : Entries} {t : Task} {items : List Value}
      (taken : TakenFrom position entries t) (hgiven : (entries.field "tasks").isTruthy = true)
      (hitems : sequence? (entries.field "tasks") = some items)
      (hnested : MirrorsAll (nestedPosition position) 0 items t.nested) :
      Mirrors position (.dict entries) t

/-- Tasks in the shape of their data one by one, each at the place of its index. -/
inductive MirrorsAll : (Nat → String) → Nat → List Value → List Task → Prop
  | nil {place : Nat → String} {index : Nat} : MirrorsAll place index [] []
  | cons {place : Nat → String} {index : Nat} {v : Value} {t : Task} {vs : List Value}
      {ts : List Task} (first : Mirrors (place index) v t)
      (rest : MirrorsAll place (index + 1) vs ts) : MirrorsAll place index (v :: vs) (t :: ts)

end

/-- What nested tasks are read from. -/
def NestedMirrors (position : String) (v : Value) (ts : List Task) : Prop :=
  v.isTruthy = false ∧ ts = [] ∨
    v.isTruthy = true ∧ ∃ items, sequence? v = some items ∧
      MirrorsAll (nestedPosition position) 0 items ts

variable {position : String}

theorem NestedMirrors.mirrors {entries : Entries} {t : Task}
    (h : NestedMirrors position (entries.field "tasks") t.nested)
    (taken : TakenFrom position entries t) : Mirrors position (.dict entries) t := by
  rcases h with ⟨hgiven, hnested⟩ | ⟨hgiven, items, hitems, hnested⟩
  · exact .leaf taken hgiven hnested
  · exact .parent taken hgiven hitems hnested

theorem exists_of_readOnError {entries : Entries} {onError : OnError}
    (h : readOnError position entries = .ok onError) :
    ∃ text ∈ ["stop", "continue"],
      (entries.fieldOr "on_error" (.str "stop")).isText text = true ∧ onError.text = text := by
  unfold readOnError at h
  simp only at h
  split at h
  · rename_i given hgiven
    obtain ⟨text, htext, hread⟩ := Option.bind_eq_some_iff.1 hgiven
    cases h
    have hsame : onError.text = text :=
      beq_iff_eq.1 (List.find?_some (p := fun o : OnError => o.text == text) hread)
    refine ⟨text, ?_, beq_iff_eq.2 htext, hsame⟩
    rw [← hsame]
    cases onError <;> simp [OnError.text]
  · obtain ⟨given, -, h⟩ := exists_of_bind_ok h
    cases h

theorem takenFrom_of_ofEntries {entries : Entries} {onError : OnError} {nested : List Task}
    {t : Task} (hasType : Entries.hasField entries "type" = true)
    (honError : readOnError position entries = .ok onError)
    (h : ofEntries position entries onError nested = .ok t) :
    TakenFrom position entries t ∧ t.nested = nested := by
  obtain ⟨id, hid, h⟩ := exists_of_bind_ok h
  obtain ⟨type, htype, h⟩ := exists_of_bind_ok h
  cases h
  exact ⟨⟨hid, hasType, htype, rfl, rfl, rfl, exists_of_readOnError honError, rfl⟩, rfl⟩

/-- What has no items though it counts as given is an object that tasks are looked for in. -/
theorem items_ne_nil {v : Value} (hnone : sequence? v = none) (htruthy : v.isTruthy = true) :
    v.items ≠ .ok [] := by
  intro hitems
  have hnil : ∀ {α : Type} {f : α → Value} {xs : List α},
      (Except.ok (xs.map f) : Except Error (List Value)) = .ok [] → xs = [] :=
    fun h => List.map_eq_nil_iff.1 (Except.ok.inj h)
  cases v with
  | list items => cases hnone
  | tuple items => cases hnone
  | dict entries =>
    rw [hnil hitems] at htruthy
    cases htruthy
  | mapping entries =>
    rw [hnil hitems] at htruthy
    cases htruthy
  | str s =>
    rw [String.toList_eq_nil_iff.1 (hnil hitems)] at htruthy
    cases htruthy
  | policy p => cases p <;> cases hitems
  | bytes bs =>
    rw [hnil hitems] at htruthy
    cases htruthy
  | byteArray bs =>
    rw [hnil hitems] at htruthy
    cases htruthy
  | object o =>
    obtain ⟨label, text, attributes, methods, properties, index⟩ := o
    match index with
    | some (.items members) => cases hnone
    | some (.fails reason) => cases hitems
    | none => cases hitems
  | _ => cases hitems

/-- Where no members can be tasks and reading succeeds, nothing is given. -/
theorem nestedMirrors_of_strangers {v : Value} {ts : List Task} (hnone : sequence? v = none)
    (h : readStrangers position v = .ok ts) : NestedMirrors position v ts := by
  unfold readStrangers at h
  split at h
  · cases h
  · rename_i hcount
    cases h
    refine .inl ⟨?_, rfl⟩
    unfold strangers at hcount
    split at hcount
    · rename_i d
      have hzero : d.children.countP isMember = 0 := Except.ok.inj hcount
      have hany : (Value.rootElement d).isTruthy = d.children.any isMember := rfl
      rw [hany, Bool.eq_false_iff, Ne, List.any_eq_true, ← List.countP_pos_iff]
      omega
    · by_contra htruthy
      rw [Bool.not_eq_false] at htruthy
      rw [if_pos htruthy] at hcount
      refine items_ne_nil hnone htruthy ?_
      cases hitems : v.items with
      | error e =>
        rw [hitems] at hcount
        cases hcount
      | ok items =>
        rw [hitems] at hcount
        rw [List.length_eq_zero_iff.1 (Except.ok.inj hcount)]
  · cases h

/-- A row of tasks is given unless it is empty. -/
theorem nestedMirrors_of_row {v : Value} {items : List Value} {ts : List Task}
    (hitems : sequence? v = some items) (hgiven : v.isTruthy = !items.isEmpty)
    (h : MirrorsAll (nestedPosition position) 0 items ts) : NestedMirrors position v ts := by
  cases items with
  | nil =>
    cases h
    exact .inl ⟨hgiven, rfl⟩
  | cons w items => exact .inr ⟨hgiven, w :: items, hitems, h⟩

mutual

/-- **What is read as a task** is in the shape of its data. -/
theorem mirrors_of_ofValue (position : String) (v : Value) {t : Task}
    (h : ofValue position v = .ok t) : Mirrors position v t := by
  cases v with
  | dict entries =>
    rw [ofValue] at h
    split at h
    · cases h
    · rename_i hasType
      split at h
      · cases h
      · rename_i onError honError
        split at h
        · cases h
        · rename_i nested hnested
          obtain ⟨taken, rfl⟩ := takenFrom_of_ofEntries (by simpa using hasType) honError h
          exact (nestedMirrors_of_nestedIn position entries hnested).mirrors taken
  | _ => cases h

theorem nestedMirrors_of_nestedIn (position : String) (entries : List (Value × Value))
    {ts : List Task} (h : nestedIn position entries = .ok ts) :
    NestedMirrors position (Entries.field entries "tasks") ts := by
  cases entries with
  | nil =>
    cases h
    exact .inl ⟨rfl, rfl⟩
  | cons entry rest =>
    obtain ⟨k, v⟩ := entry
    rw [nestedIn] at h
    rw [field_cons]
    by_cases hk : k.isText "tasks" = true
    · rw [if_pos hk] at h ⊢
      exact nestedMirrors_of_nestedOf position v h
    · rw [if_neg hk] at h ⊢
      exact nestedMirrors_of_nestedIn position rest h

theorem nestedMirrors_of_nestedOf (position : String) (v : Value) {ts : List Task}
    (h : nestedOf position v = .ok ts) : NestedMirrors position v ts := by
  cases v with
  | list items => exact nestedMirrors_of_row rfl rfl (mirrorsAll_of_allOf position 0 items h)
  | tuple items => exact nestedMirrors_of_row rfl rfl (mirrorsAll_of_allOf position 0 items h)
  | object o =>
    obtain ⟨label, text, attributes, methods, properties, index⟩ := o
    match index with
    | some (.items members) =>
      exact .inr ⟨rfl, members, rfl, mirrorsAll_of_allOf position 0 members h⟩
    | some (.fails reason) =>
      rw [nestedOf_eq] at h
      exact nestedMirrors_of_strangers rfl h
    | none =>
      rw [nestedOf_eq] at h
      exact nestedMirrors_of_strangers rfl h
  | _ =>
    rw [nestedOf_eq] at h
    exact nestedMirrors_of_strangers rfl h

theorem mirrorsAll_of_allOf (position : String) (index : Nat) (vs : List Value) {ts : List Task}
    (h : allOf position index vs = .ok ts) : MirrorsAll (nestedPosition position) index vs ts := by
  cases vs with
  | nil =>
    cases h
    exact .nil
  | cons v vs =>
    rw [allOf] at h
    split at h
    · cases h
    · rename_i t ht
      split at h
      · cases h
      · rename_i rest hrest
        cases h
        exact .cons (mirrors_of_ofValue _ v ht) (mirrorsAll_of_allOf position (index + 1) vs hrest)

end

/-! ### Positions -/

/-- The dictionaries of tasks at any depth: that of a task and those of the tasks nested in it. -/
inductive Describes : Value → Entries → Prop
  | self {entries : Entries} : Describes (.dict entries) entries
  | within {entries inner : Entries} {items : List Value} {v : Value}
      (hitems : sequence? (entries.field "tasks") = some items) (hv : v ∈ items)
      (h : Describes v inner) : Describes (.dict entries) inner

/-- No task gives an id, at any depth. -/
def Unnamed (v : Value) : Prop :=
  ∀ entries, Describes v entries → Entries.hasField entries "id" = false

/-- A position and those below it: an id goes on behind the position with an underscore, or not at
all. -/
def Below (position id : String) : Prop :=
  ∃ rest, id.toList = position.toList ++ rest ∧ ∀ c ∈ rest.head?, c = '_'

/-- Places that have no position below two of them. -/
def Separate (place : Nat → String) : Prop :=
  ∀ i j id, Below (place i) id → Below (place j) id → i = j

theorem takeWhile_digits {n : Nat} {rest : List Char} (h : ∀ c ∈ rest.head?, c = '_') :
    (digitsOfNat n ++ rest).takeWhile isAsciiDigit = digitsOfNat n := by
  have hrest : rest.takeWhile isAsciiDigit = [] := by
    cases rest with
    | nil => rfl
    | cons c rest =>
      rw [List.takeWhile_cons, h c rfl]
      rfl
  rw [List.takeWhile_append_of_pos fun c hc => isAsciiDigit_of_mem_digitsOfNat hc, hrest,
    List.append_nil]

/-- A number in front of an underscore or the end can be read off. -/
theorem number_unique {m n : Nat} {rest rest' : List Char} (h : ∀ c ∈ rest.head?, c = '_')
    (h' : ∀ c ∈ rest'.head?, c = '_') (hsame : digitsOfNat m ++ rest = digitsOfNat n ++ rest') :
    m = n := by
  have hdigits : digitsOfNat m = digitsOfNat n := by
    calc digitsOfNat m = (digitsOfNat m ++ rest).takeWhile isAsciiDigit := (takeWhile_digits h).symm
      _ = (digitsOfNat n ++ rest').takeWhile isAsciiDigit := by rw [hsame]
      _ = digitsOfNat n := takeWhile_digits h'
  rw [← natOfDigits_digitsOfNat m, ← natOfDigits_digitsOfNat n, hdigits]

/-- The place of a task at the top. -/
def topPosition (index : Nat) : String := natText (index + 1)

theorem separate_topPosition : Separate topPosition := by
  rintro i j id ⟨rest, hid, hrest⟩ ⟨rest', hid', hrest'⟩
  have hsame := number_unique (m := i + 1) (n := j + 1) hrest hrest' (by
    rw [← toList_natText, ← toList_natText]
    exact hid.symm.trans hid')
  omega

theorem toList_nestedPosition (position : String) (index : Nat) :
    (nestedPosition position index).toList =
      position.toList ++ '_' :: digitsOfNat (index + 1) := by
  rw [nestedPosition, String.toList_append, String.toList_append, toList_natText]
  simp

theorem separate_nestedPosition (position : String) : Separate (nestedPosition position) := by
  rintro i j id ⟨rest, hid, hrest⟩ ⟨rest', hid', hrest'⟩
  have hsame := number_unique (m := i + 1) (n := j + 1) hrest hrest' (by
    rw [hid, toList_nestedPosition, toList_nestedPosition, List.append_assoc, List.append_assoc]
      at hid'
    exact (List.cons.inj (List.append_cancel_left hid')).2)
  omega

/-- What is below a nested position is below the outer one, and is not the outer one. -/
theorem below_of_nested {index : Nat} {id : String} (h : Below (nestedPosition position index) id) :
    Below position id ∧ id ≠ position := by
  obtain ⟨rest, hid, -⟩ := h
  rw [toList_nestedPosition, List.append_assoc] at hid
  refine ⟨⟨_, hid, by simp⟩, ?_⟩
  rintro rfl
  have hlength := congrArg List.length hid
  simp at hlength

theorem subtasks_eq (t : Task) : t.subtasks = t :: subtasksAll t.nested := by
  cases t
  rfl

theorem id_of_unnamed {entries : Entries} {t : Task} (taken : TakenFrom position entries t)
    (hno : Unnamed (.dict entries)) : t.id = position := by
  have hfield : entries.field? "id" = none := by
    have habsent := hno entries .self
    unfold Entries.hasField at habsent
    exact Option.isSome_eq_false_iff.1 habsent |> Option.isNone_iff_eq_none.1
  have hid := taken.id
  rw [Entries.fieldOr, hfield] at hid
  exact (Except.ok.inj hid).symm

theorem Unnamed.within {entries : Entries} {items : List Value}
    (h : Unnamed (.dict entries)) (hitems : sequence? (entries.field "tasks") = some items) :
    ∀ v ∈ items, Unnamed v :=
  fun _ hv inner hinner => h inner (.within hitems hv hinner)

/-- A task is unnamed if it gives no id and those nested in it are unnamed. -/
theorem Unnamed.intro {entries : Entries} (hid : Entries.hasField entries "id" = false)
    (hnested : ∀ v ∈ (sequence? (entries.field "tasks")).getD [], Unnamed v) :
    Unnamed (.dict entries) := by
  intro inner h
  cases h with
  | self => exact hid
  | within hitems hv h =>
    rw [hitems] at hnested
    exact hnested _ hv inner h

theorem Below.self (position : String) : Below position position :=
  ⟨[], by simp, by simp⟩

/-- **One task**: its own id is the position, and the ids within are below it. -/
theorem ids_below_of_nested {entries : Entries} {t : Task} (taken : TakenFrom position entries t)
    (hno : Unnamed (.dict entries)) (hnodup : ((subtasksAll t.nested).map (·.id)).Nodup)
    (hbelow : ∀ s ∈ subtasksAll t.nested, ∃ i, Below (nestedPosition position i) s.id) :
    (t.subtasks.map (·.id)).Nodup ∧ ∀ s ∈ t.subtasks, Below position s.id := by
  have hid := id_of_unnamed taken hno
  have hinner : ∀ s ∈ subtasksAll t.nested, Below position s.id ∧ s.id ≠ position := by
    intro s hs
    obtain ⟨i, hi⟩ := hbelow s hs
    exact below_of_nested hi
  rw [subtasks_eq]
  constructor
  · rw [List.map_cons, List.nodup_cons, hid]
    refine ⟨fun hmem => ?_, hnodup⟩
    obtain ⟨s, hs, hsame⟩ := List.mem_map.1 hmem
    exact (hinner s hs).2 hsame
  · intro s hs
    rcases List.mem_cons.1 hs with rfl | hs
    · rw [hid]
      exact .self position
    · exact (hinner s hs).1

mutual

/-- **Without given ids**, a task is named by its position, and those nested in it by positions
below, each by its own. -/
theorem Mirrors.ids_below {position : String} {v : Value} {t : Task} (h : Mirrors position v t)
    (hno : Unnamed v) :
    (t.subtasks.map (·.id)).Nodup ∧ ∀ s ∈ t.subtasks, Below position s.id := by
  match h with
  | .leaf taken _ hnested =>
    refine ids_below_of_nested taken hno ?_ fun s hs => ?_
    · rw [hnested]
      exact List.nodup_nil
    · rw [hnested] at hs
      cases hs
  | .parent taken _ hitems hnested =>
    obtain ⟨hnodup, hbelow⟩ :=
      hnested.ids_below (separate_nestedPosition position) (hno.within hitems)
    refine ids_below_of_nested taken hno hnodup fun s hs => ?_
    obtain ⟨i, -, hi⟩ := hbelow s hs
    exact ⟨i, hi⟩

theorem MirrorsAll.ids_below {place : Nat → String} {index : Nat} {vs : List Value} {ts : List Task}
    (h : MirrorsAll place index vs ts) (hplace : Separate place) (hno : ∀ v ∈ vs, Unnamed v) :
    ((subtasksAll ts).map (·.id)).Nodup ∧
      ∀ s ∈ subtasksAll ts, ∃ i, index ≤ i ∧ Below (place i) s.id := by
  match h with
  | .nil => exact ⟨List.nodup_nil, fun s hs => by cases hs⟩
  | .cons first rest =>
    obtain ⟨hfirst, hbelow⟩ := first.ids_below (hno _ List.mem_cons_self)
    obtain ⟨hrest, hbehind⟩ :=
      rest.ids_below hplace fun w hw => hno w (List.mem_cons_of_mem _ hw)
    rw [subtasksAll]
    constructor
    · rw [List.map_append, List.nodup_append]
      refine ⟨hfirst, hrest, ?_⟩
      -- an id of the first task and one of the others are below different places
      intro a ha b hb hsame
      obtain ⟨s, hs, rfl⟩ := List.mem_map.1 ha
      obtain ⟨u, hu, rfl⟩ := List.mem_map.1 hb
      obtain ⟨i, hi, hui⟩ := hbehind u hu
      have heq := hplace index i s.id (hbelow s hs) (by rw [hsame]; exact hui)
      omega
    · intro s hs
      rcases List.mem_append.1 hs with hs | hs
      · exact ⟨index, Nat.le_refl _, hbelow s hs⟩
      · obtain ⟨i, hi, hsi⟩ := hbehind s hs
        exact ⟨i, by omega, hsi⟩

end

/-- **Tasks of different ids share no scope** where none is given. -/
theorem scope_ne {t u : Task} (hid : t.id ≠ u.id) (ht : t.givenScope.isTruthy = false)
    (hu : u.givenScope.isTruthy = false) : t.scope ≠ u.scope := by
  have hdefault : ∀ s : Task, s.givenScope.isTruthy = false → s.scope = .str ("Task" ++ s.id) := by
    intro s hs
    rw [scope, Value.orElse, hs]
    rfl
  rw [hdefault t ht, hdefault u hu]
  intro hsame
  have htexts := congrArg String.toList (Value.str.inj hsame)
  rw [String.toList_append, String.toList_append] at htexts
  exact hid (String.toList_inj.1 (List.append_cancel_left htexts))

theorem pairwise_scope {ts : List Task} (h : (ts.map (·.id)).Nodup) :
    ts.Pairwise fun t u => t.givenScope.isTruthy = false → u.givenScope.isTruthy = false →
      t.scope ≠ u.scope :=
  (List.pairwise_map.1 h).imp scope_ne

theorem mirrorsAll_of_topTasks {index : Nat} {items : List Value} {ts : List Task}
    (h : topTasks index items = .ok ts) : MirrorsAll topPosition index items ts := by
  induction items generalizing index ts with
  | nil =>
    cases h
    exact .nil
  | cons v vs ih =>
    rw [topTasks] at h
    obtain ⟨t, ht, h⟩ := exists_of_bind_ok h
    obtain ⟨rest, hrest, h⟩ := exists_of_bind_ok h
    cases h
    exact .cons (mirrors_of_ofValue _ v ht) (ih hrest)

end Task

/-! ### Accepted plans -/

namespace Plan

/-- The data of the tasks of a plan, and how they were read. -/
theorem exists_tasks_of_ofValue {source : Value} {plan : Plan}
    (h : Plan.ofValue source = .ok plan) :
    ∃ entries items, source.asMap "get" = .ok entries ∧
      (entries.field "tasks").orElse (.list []) = .list items ∧
      topTasks 0 items = .ok plan.tasks := by
  obtain ⟨entries, hmap, -⟩ := exists_of_bind_ok h
  have hread : Plan.ofValue (.dict entries) = .ok plan := by
    rw [← h]
    unfold Plan.ofValue
    rw [hmap]
    rfl
  rw [ofValue_eq] at hread
  obtain ⟨tasks, htasks, hread⟩ := exists_of_bind_ok hread
  obtain ⟨policy, -, hread⟩ := exists_of_bind_ok hread
  obtain ⟨vars, -, hread⟩ := exists_of_bind_ok hread
  obtain ⟨connections, -, hread⟩ := exists_of_bind_ok hread
  cases hread
  unfold tasksOf at htasks
  split at htasks
  · rename_i items hitems
    obtain ⟨all, hall, htasks⟩ := exists_of_bind_ok htasks
    split at htasks
    · cases htasks
    · cases htasks
      exact ⟨entries, items, hmap, hitems, hall⟩
  · cases htasks

/-- **What is known of an accepted plan.** No two tasks of its top share an id, so that a target
names at most one place. Its tasks are in the shape of the data. And where no task gives an id, at
any depth, no two of its tasks at any depths share an id, nor a scope, unless one is given. -/
theorem accepted_shape {source : Value} {plan : Plan} (h : Plan.ofValue source = .ok plan) :
    ∃ entries items, source.asMap "get" = .ok entries ∧
      (entries.field "tasks").orElse (.list []) = .list items ∧
      (plan.tasks.map (·.id)).Nodup ∧
      (∀ (target : String) (i j : Nat), (plan.tasks.map (·.id))[i]? = some target →
        (plan.tasks.map (·.id))[j]? = some target → i = j) ∧
      Task.MirrorsAll Task.topPosition 0 items plan.tasks ∧
      ((∀ v ∈ items, Task.Unnamed v) →
        ((Task.subtasksAll plan.tasks).map (·.id)).Nodup ∧
        (Task.subtasksAll plan.tasks).Pairwise fun t u =>
          t.givenScope.isTruthy = false → u.givenScope.isTruthy = false → t.scope ≠ u.scope) := by
  obtain ⟨entries, items, hmap, hitems, htasks⟩ := exists_tasks_of_ofValue h
  have hnodup := nodup_ids h
  have hshape := Task.mirrorsAll_of_topTasks htasks
  refine ⟨entries, items, hmap, hitems, hnodup, fun target i j hi hj => ?_, hshape, fun hno => ?_⟩
  · obtain ⟨hlt, -⟩ := List.getElem?_eq_some_iff.1 hi
    exact (List.getElem?_inj hlt hnodup).1 (hi.trans hj.symm)
  · have hids := (hshape.ids_below Task.separate_topPosition hno).1
    exact ⟨hids, Task.pairwise_scope hids⟩

/-- Two tasks in a task, one of which has a task in it. -/
def innerTasks : List Value := [
  .dict [(.str "type", .str "set"), (.str "var", .str "x"), (.str "tasks", .null)],
  .dict [(.str "on_error", .str "continue"), (.str "type", .str "parallel"),
    (.str "tasks", .tuple [.dict [(.str "type", .str "if")]])]]

/-- Tasks in tasks, without ids. -/
def nestedTasks : List Value := [
  .dict [(.str "type", .str "parallel"), (.str "tasks", .list innerTasks)],
  .dict [(.str "type", .str "variables"), (.str "tasks", .list [])]]

theorem unnamed_nestedTasks : ∀ v ∈ nestedTasks, Task.Unnamed v := by
  have hnone : ∀ v ∈ ([] : List Value), Task.Unnamed v := List.forall_mem_nil _
  have hif : Task.Unnamed (.dict [(.str "type", .str "if")]) := .intro rfl hnone
  have hinner : ∀ v ∈ innerTasks, Task.Unnamed v := by
    rw [innerTasks, List.forall_mem_cons, List.forall_mem_singleton]
    exact ⟨.intro rfl hnone, .intro rfl (List.forall_mem_singleton.2 hif)⟩
  rw [nestedTasks, List.forall_mem_cons, List.forall_mem_singleton]
  exact ⟨.intro rfl hinner, .intro rfl hnone⟩

/-- The plan that they make. -/
def nestedPlan : Plan where
  name := .str "Workflow"
  tasks := [
    .mk "1" "parallel" .null .null .null .stop [] [
      .mk "1_1" "set" .null .null .null .stop [(.str "var", .str "x")] [],
      .mk "1_2" "parallel" .null .null .null .proceed [] [
        .mk "1_2_1" "if" .null .null .null .stop [] []]],
    .mk "2" "variables" .null .null .null .stop [] []]
  policy := .keepAsIs
  maxWorkers := .null
  clearOnFinish := .bool false
  connections := []
  vars := []

/-- They are in the shape of their data, each is named by its position, and no two share a scope. -/
theorem accepted_shape_nested :
    Plan.ofValue (.dict [(.str "tasks", .list nestedTasks)]) = .ok nestedPlan ∧
      Task.MirrorsAll Task.topPosition 0 nestedTasks nestedPlan.tasks ∧
      (nestedPlan.tasks.map (·.id)).Nodup ∧
      (Task.subtasksAll nestedPlan.tasks).map (·.id) = ["1", "1_1", "1_2", "1_2_1", "2"] ∧
      (Task.subtasksAll nestedPlan.tasks).Pairwise fun t u =>
        t.givenScope.isTruthy = false → u.givenScope.isTruthy = false → t.scope ≠ u.scope := by
  have hplan : Plan.ofValue (.dict [(.str "tasks", .list nestedTasks)]) = .ok nestedPlan := by
    with_unfolding_all rfl
  obtain ⟨entries, items, hmap, hitems, hnodup, -, hshape, hunnamed⟩ := accepted_shape hplan
  cases hmap
  have hsame : items = nestedTasks := (Value.list.inj hitems).symm
  subst hsame
  exact ⟨hplan, hshape, hnodup, rfl, (hunnamed unnamed_nestedTasks).2⟩

end Plan

end Runbook
