import Mathlib.Tactic.Common
import Runbook.Drill

/-!
# Members that cannot be observed

A name that begins with an underscore is private. Taking the private members away from all objects
in a value, at any depth, leaves its public part. How an object answers to an index belongs to its
shape, not to its members, and stays. Drilling commutes with this: what a path leads to
in the public part is the public part of what it leads to in the value. So two values with the same
public part cannot be told apart by any path.

* `Value.publicPart`: a value without private members.
* `Object.member_publicPart`: what a public name finds in the public part of an object.
* `step_publicPart`, `drill_publicPart`: one step, and a whole path.
* `publicPart_eq_self`: a value without objects has nothing private in it.
* `drill_private`: **private members cannot be observed.**
-/

namespace Runbook

/-- A name that begins with an underscore. -/
def isPrivate (name : String) : Bool :=
  name.toList.head? == some '_'

mutual

/-- A value without the private members of the objects in it. -/
def Value.publicPart : Value → Value
  | .list items => .list (publicItems items)
  | .tuple items => .tuple (publicItems items)
  | .dict entries => .dict (publicEntries entries)
  | .mapping entries => .mapping (publicEntries entries)
  | .object o => .object (Object.publicPart o)
  | v => v

/-- An object without its private members. -/
def Object.publicPart : Object Value → Object Value
  | ⟨label, text, attributes, methods, properties, index⟩ =>
    ⟨label, text, publicAttributes attributes, publicMethods methods, publicProperties properties,
      publicIndex index⟩

/-- The public parts of items. -/
def publicItems : List Value → List Value
  | [] => []
  | v :: vs => v.publicPart :: publicItems vs

/-- The public parts of keys and values. -/
def publicEntries : List (Value × Value) → List (Value × Value)
  | [] => []
  | (k, v) :: es => (k.publicPart, v.publicPart) :: publicEntries es

/-- The attributes with public names. -/
def publicAttributes : List (String × Value) → List (String × Value)
  | [] => []
  | (name, v) :: rest =>
    if isPrivate name then publicAttributes rest else (name, v.publicPart) :: publicAttributes rest

/-- The methods with public names. -/
def publicMethods : List (String × Method Value) → List (String × Method Value)
  | [] => []
  | (name, ⟨arity, reply⟩) :: rest =>
    if isPrivate name then publicMethods rest
    else (name, ⟨arity, publicReply reply⟩) :: publicMethods rest

/-- The properties with public names. -/
def publicProperties : List (String × Reply Value) → List (String × Reply Value)
  | [] => []
  | (name, reply) :: rest =>
    if isPrivate name then publicProperties rest
    else (name, publicReply reply) :: publicProperties rest

/-- The public part of what a member gives. -/
def publicReply : Reply Value → Reply Value
  | .gives v => .gives v.publicPart
  | .fails reason => .fails reason

/-- The public part of what indexing gives. -/
def publicIndex : Option (Indexing Value) → Option (Indexing Value)
  | none => none
  | some (.items members) => some (.items (publicItems members))
  | some (.fails reason) => some (.fails reason)

end

/-- Members with public names, changed by a function. -/
def publicNamed {α β : Type} (f : α → β) (members : List (String × α)) : List (String × β) :=
  (members.filter fun e => !isPrivate e.1).map fun e => (e.1, f e.2)

/-- The public part of a method. -/
def Method.publicPart (m : Method Value) : Method Value := ⟨m.arity, publicReply m.reply⟩

/-- The public part of what asking for a member finds. -/
def Object.Member.publicPart : Object.Member → Object.Member
  | .absent => .absent
  | .broken => .broken
  | .plain v => .plain v.publicPart
  | .method m => .method m.publicPart

/-! ### Parts of a value -/

section Parts

theorem publicItems_eq (items : List Value) : publicItems items = items.map Value.publicPart := by
  induction items with
  | nil => rfl
  | cons v vs ih => rw [publicItems, ih, List.map_cons]

theorem getD_map_publicPart (found : Option Value) :
    (found.map Value.publicPart).getD .null = (found.getD .null).publicPart := by
  cases found <;> rfl

theorem publicEntries_eq (entries : Entries) :
    publicEntries entries = entries.map fun e => (e.1.publicPart, e.2.publicPart) := by
  induction entries with
  | nil => rfl
  | cons e es ih => rw [publicEntries, ih, List.map_cons]

theorem publicNamed_cons {α β : Type} (f : α → β) (name : String) (a : α)
    (rest : List (String × α)) : publicNamed f ((name, a) :: rest) =
      if isPrivate name then publicNamed f rest else (name, f a) :: publicNamed f rest := by
  unfold publicNamed
  cases hname : isPrivate name <;> simp [hname]

theorem publicAttributes_eq (members : List (String × Value)) :
    publicAttributes members = publicNamed Value.publicPart members := by
  induction members with
  | nil => rfl
  | cons e rest ih => rw [publicAttributes, publicNamed_cons, ih]

theorem publicMethods_eq (members : List (String × Method Value)) :
    publicMethods members = publicNamed Method.publicPart members := by
  induction members with
  | nil => rfl
  | cons e rest ih => rw [publicMethods, publicNamed_cons, ih]; rfl

theorem publicProperties_eq (members : List (String × Reply Value)) :
    publicProperties members = publicNamed publicReply members := by
  induction members with
  | nil => rfl
  | cons e rest ih => rw [publicProperties, publicNamed_cons, ih]

/-- A public name finds among the public members what it finds among all. -/
theorem find?_publicNamed {α β : Type} (f : α → β) {name : String} (h : isPrivate name = false)
    (members : List (String × α)) :
    (publicNamed f members).find? (·.1 == name) =
      (members.find? (·.1 == name)).map fun e => (e.1, f e.2) := by
  induction members with
  | nil => rfl
  | cons e rest ih =>
    obtain ⟨other, a⟩ := e
    rw [publicNamed_cons]
    by_cases hother : other = name
    · rw [hother, h]
      simp
    · have hne : (other == name) = false := by simpa using hother
      cases isPrivate other <;> simp [hne, ih]

end Parts

/-! ### Members of objects -/

namespace Object

variable {o : Object Value} {name key : String}

/-- **A public name** finds the public part of what it finds in the whole object. -/
theorem member_publicPart (h : isPrivate name = false) (o : Object Value) :
    o.publicPart.member name = (o.member name).publicPart := by
  obtain ⟨label, text, attributes, methods, properties, index⟩ := o
  rw [publicPart, member, member, publicAttributes_eq, publicMethods_eq, publicProperties_eq]
  simp only [find?_publicNamed _ h]
  cases properties.find? (·.1 == name) with
  | some p => rcases p with ⟨_, _ | _⟩ <;> rfl
  | none =>
    cases attributes.find? (·.1 == name) with
    | some a => rfl
    | none => cases methods.find? (·.1 == name) <;> rfl

theorem call?_publicPart (m : Method Value) :
    call? m.publicPart = (call? m).map Value.publicPart := by
  rcases m with ⟨_ | _ | _, _ | _⟩ <;> rfl

theorem access?_publicPart (h : isPrivate name = false) (o : Object Value) :
    o.publicPart.access? name = (o.access? name).map Value.publicPart := by
  rw [access?, access?, member_publicPart h]
  cases o.member name with
  | method m => exact call?_publicPart m
  | _ => rfl

/-- No accessor has a private name, whatever the key. -/
theorem isPrivate_accessorNames (h : name ∈ accessorNames key) : isPrivate name = false := by
  have hget : ∀ s : String, isPrivate ("get" ++ s) = false := fun s => by simp [isPrivate]
  have hunder : ∀ s : String, isPrivate ("get_" ++ s) = false := fun s => by simp [isPrivate]
  have his : ∀ s : String, isPrivate ("is" ++ s) = false := fun s => by simp [isPrivate]
  have hisUnder : ∀ s : String, isPrivate ("is_" ++ s) = false := fun s => by simp [isPrivate]
  simp only [accessorNames, List.mem_cons, List.not_mem_nil, or_false] at h
  rcases h with rfl | rfl | rfl | rfl
  · exact hget _
  · exact hunder _
  · exact his _
  · exact hisUnder _

theorem findSome?_publicPart {names : List String} (h : ∀ n ∈ names, isPrivate n = false)
    (o : Object Value) :
    names.findSome? o.publicPart.access? = (names.findSome? o.access?).map Value.publicPart := by
  induction names with
  | nil => rfl
  | cons n names ih =>
    rw [List.findSome?_cons, List.findSome?_cons, access?_publicPart (h n List.mem_cons_self)]
    cases o.access? n with
    | some v => rfl
    | none => exact ih fun m hm => h m (List.mem_cons_of_mem n hm)

/-- **What a key leads to** in the public part of an object. A private key leads nowhere. -/
theorem lookup_publicPart (o : Object Value) (key : String) :
    o.publicPart.lookup key = (o.lookup key).publicPart := by
  rw [lookup, lookup]
  cases hkey : key == "" || key.toList.head? == some '_' with
  | true => rfl
  | false =>
    have hpublic : isPrivate key = false := (Bool.or_eq_false_iff.1 hkey).2
    simp only [Bool.false_eq_true, if_false, member_publicPart hpublic,
      findSome?_publicPart fun n hn => isPrivate_accessorNames hn]
    cases (accessorNames key).findSome? o.access? with
    | some v => rfl
    | none =>
      cases o.member key with
      | method m =>
        simp only [Option.map_none, Member.publicPart, call?_publicPart]
        cases call? m <;> rfl
      | _ => rfl

theorem itemAt_publicPart (items : List Value) (position : Int) :
    itemAt (publicItems items) position = (itemAt items position).publicPart := by
  rw [publicItems_eq]
  simp only [itemAt, List.length_map, List.getElem?_map]
  generalize (if position < 0 then position + (items.length : Int) else position) = place
  split
  · rfl
  · exact getD_map_publicPart _

theorem indexed_publicPart (o : Object Value) (position : Int) :
    o.publicPart.indexed position = (o.indexed position).publicPart := by
  obtain ⟨label, text, attributes, methods, properties, index⟩ := o
  rcases index with _ | ⟨members⟩ | ⟨reason⟩
  · rfl
  · exact itemAt_publicPart members position
  · rfl

end Object

/-! ### Steps and paths -/

section Paths

variable {v w : Value} {segments : List Segment}

theorem sequenceItem_publicPart (items : List Value) (position : Int) :
    Value.sequenceItem (publicItems items) position =
      (Value.sequenceItem items position).publicPart := by
  rw [publicItems_eq]
  simp only [Value.sequenceItem, List.getElem?_map]
  split
  · rfl
  · exact getD_map_publicPart _

/-- An object is no name, whatever its members. -/
theorem sameKey_publicPart (k : Value) (name : String) :
    k.publicPart.sameKey (.str name) = k.sameKey (.str name) := by
  cases k <;> rfl

theorem field_publicPart (entries : Entries) (name : String) :
    Entries.field (publicEntries entries) name = (Entries.field entries name).publicPart := by
  rw [publicEntries_eq, Entries.field, Entries.field, Entries.field?, Entries.field?, Entries.get?,
    Entries.get?, List.find?_map]
  have hkeys : ((fun e : Value × Value => e.1.sameKey (.str name)) ∘
      fun e : Value × Value => (e.1.publicPart, e.2.publicPart)) =
        fun e : Value × Value => e.1.sameKey (.str name) :=
    funext fun e => sameKey_publicPart e.1 name
  rw [hkeys]
  cases List.find? (fun e : Value × Value => e.1.sameKey (.str name)) entries <;> rfl

theorem foundValue_publicPart (texts : List String) :
    (Xml.foundValue texts).publicPart = Xml.foundValue texts := by
  rcases texts with _ | ⟨one, _ | ⟨two, texts⟩⟩
  · rfl
  · rfl
  · have htexts : ∀ ss : List String, publicItems (ss.map .str) = ss.map .str := by
      intro ss
      rw [publicItems_eq, List.map_map]
      exact List.map_congr_left fun _ _ => rfl
    exact congrArg Value.list (htexts _)

theorem xmlLookup_publicPart (d : Xml.Document) (key : String) :
    (Xml.lookup d key).map Value.publicPart = Xml.lookup d key := by
  unfold Xml.lookup
  dsimp only
  generalize (if looksLikeXPath key then key else "//" ++ key) = query
  cases Xml.XPath.select? d.index d.rootPlace query with
  | none => rfl
  | some places =>
    dsimp only
    cases places.mapM (Xml.shownText d.index) with
    | error e => rfl
    | ok texts => exact congrArg Except.ok (foundValue_publicPart texts)

/-- **One step** from the public part of a value. -/
theorem step_publicPart (v : Value) (s : Segment) :
    step v.publicPart s = (step v s).map Value.publicPart := by
  cases v with
  | list items =>
    cases s with
    | key _ => rfl
    | index i => exact congrArg Except.ok (sequenceItem_publicPart items i)
  | tuple items =>
    cases s with
    | key _ => rfl
    | index i => exact congrArg Except.ok (sequenceItem_publicPart items i)
  | dict entries =>
    cases s with
    | key name => exact congrArg Except.ok (field_publicPart entries name)
    | index _ => rfl
  | mapping entries =>
    cases s with
    | key name => exact congrArg Except.ok (field_publicPart entries name)
    | index _ => rfl
  | document d =>
    cases s with
    | key name => exact (xmlLookup_publicPart d name).symm
    | index _ => rfl
  | rootElement d =>
    cases s with
    | key name => exact (xmlLookup_publicPart d name).symm
    | index _ => rfl
  | object o =>
    cases s with
    | key name => exact congrArg Except.ok (o.lookup_publicPart name)
    | index i => exact congrArg Except.ok (o.indexed_publicPart i)
  | _ => cases s <;> rfl

theorem endsPath_publicPart (v : Value) (s : Segment) :
    endsPath v.publicPart s = endsPath v s := by
  cases s <;> cases v <;> rfl

/-- **A path** from the public part of a value leads to the public part of what it leads to. -/
theorem drill_publicPart (v : Value) (segments : List Segment) :
    drill v.publicPart segments = (drill v segments).map Value.publicPart := by
  induction segments generalizing v with
  | nil => rfl
  | cons s rest ih =>
    rw [drill, drill, step_publicPart, endsPath_publicPart]
    cases step v s with
    | error e => rfl
    | ok next =>
      simp only [Except.map]
      split
      · rfl
      · exact ih next

end Paths

/-! ### Values without objects -/

mutual

/-- Whether there is an object in a value that can be reached without one. -/
def Value.hasObject : Value → Bool
  | .list items => anyObject items
  | .tuple items => anyObject items
  | .dict entries => anyObjectIn entries
  | .mapping entries => anyObjectIn entries
  | .object _ => true
  | _ => false

/-- Whether there is an object in one of some items. -/
def anyObject : List Value → Bool
  | [] => false
  | v :: vs => v.hasObject || anyObject vs

/-- Whether there is an object in a key or a value. -/
def anyObjectIn : List (Value × Value) → Bool
  | [] => false
  | (k, v) :: es => k.hasObject || v.hasObject || anyObjectIn es

end

mutual

theorem publicPart_eq_self : (v : Value) → v.hasObject = false → v.publicPart = v
  | .list items, h => congrArg Value.list (publicItems_eq_self items h)
  | .tuple items, h => congrArg Value.tuple (publicItems_eq_self items h)
  | .dict entries, h => congrArg Value.dict (publicEntries_eq_self entries h)
  | .mapping entries, h => congrArg Value.mapping (publicEntries_eq_self entries h)
  | .object _, h => nomatch h
  | .null, _ | .bool _, _ | .int _, _ | .float _, _ | .decimal _, _ | .str _, _ | .bytes _, _
  | .byteArray _, _ | .date _, _ | .dateTime _, _ | .time _, _ | .document _, _
  | .rootElement _, _ | .type _, _ | .policy _, _ => rfl

theorem publicItems_eq_self : (items : List Value) → anyObject items = false →
    publicItems items = items
  | [], _ => rfl
  | v :: vs, h => by
    obtain ⟨hv, hvs⟩ := Bool.or_eq_false_iff.1 h
    rw [publicItems, publicPart_eq_self v hv, publicItems_eq_self vs hvs]

theorem publicEntries_eq_self : (entries : List (Value × Value)) → anyObjectIn entries = false →
    publicEntries entries = entries
  | [], _ => rfl
  | (k, v) :: es, h => by
    obtain ⟨hkv, hes⟩ := Bool.or_eq_false_iff.1 h
    obtain ⟨hk, hv⟩ := Bool.or_eq_false_iff.1 hkv
    rw [publicEntries, publicPart_eq_self k hk, publicPart_eq_self v hv,
      publicEntries_eq_self es hes]

end

mutual

theorem hasObject_publicPart : (v : Value) → v.publicPart.hasObject = v.hasObject
  | .list items => anyObject_publicItems items
  | .tuple items => anyObject_publicItems items
  | .dict entries => anyObjectIn_publicEntries entries
  | .mapping entries => anyObjectIn_publicEntries entries
  | .object _ => rfl
  | .null | .bool _ | .int _ | .float _ | .decimal _ | .str _ | .bytes _
  | .byteArray _ | .date _ | .dateTime _ | .time _ | .document _
  | .rootElement _ | .type _ | .policy _ => rfl

theorem anyObject_publicItems :
    (items : List Value) → anyObject (publicItems items) = anyObject items
  | [] => rfl
  | v :: vs => by
    rw [publicItems, anyObject, anyObject, hasObject_publicPart v, anyObject_publicItems vs]

theorem anyObjectIn_publicEntries : (entries : List (Value × Value)) →
    anyObjectIn (publicEntries entries) = anyObjectIn entries
  | [] => rfl
  | (k, v) :: es => by
    rw [publicEntries, anyObjectIn, anyObjectIn, hasObject_publicPart k, hasObject_publicPart v,
      anyObjectIn_publicEntries es]

end

/-! ### Two values -/

/-- Two values that differ in nothing but the private members of objects. -/
def SamePublic (v w : Value) : Prop :=
  v.publicPart = w.publicPart

/-- What two drills come to cannot be told apart: both fail in the same way, or both lead to
null, or they lead to values that differ in nothing but private members, and in nothing at all if
one of them has no object in it. -/
inductive Indistinct : Except Error Value → Except Error Value → Prop
  | fails (e : Error) : Indistinct (.error e) (.error e)
  | absent : Indistinct (.ok .null) (.ok .null)
  | found {a b : Value} (ha : a ≠ .null) (hb : b ≠ .null) (h : SamePublic a b)
    (hplain : a.hasObject = false ∨ b.hasObject = false → a = b) : Indistinct (.ok a) (.ok b)

section Pairs

variable {a b v w : Value}

theorem publicPart_eq_null : a.publicPart = .null ↔ a = .null := by
  constructor
  · intro h
    cases a <;> first | rfl | cases h
  · rintro rfl
    rfl

/-- Without objects there is nothing private to differ in. -/
theorem SamePublic.eq (h : SamePublic a b) (hplain : a.hasObject = false ∨ b.hasObject = false) :
    a = b := by
  have hboth : a.hasObject = b.hasObject := by
    rw [← hasObject_publicPart a, ← hasObject_publicPart b, h]
  have ha : a.hasObject = false := hplain.elim id hboth.trans
  rw [← publicPart_eq_self a ha, h, publicPart_eq_self b (hboth ▸ ha)]

/-- **Private members cannot be observed.** Of two values that differ in nothing but private
members of objects, at any depth, every path leads to the same. -/
theorem drill_private (h : SamePublic v w) (segments : List Segment) :
    Indistinct (drill v segments) (drill w segments) := by
  have hdrill :
      (drill v segments).map Value.publicPart = (drill w segments).map Value.publicPart := by
    rw [← drill_publicPart, ← drill_publicPart, h]
  cases hv : drill v segments with
  | error e =>
    cases hw : drill w segments with
    | error e' =>
      rw [hv, hw] at hdrill
      obtain rfl := Except.error.inj hdrill
      exact .fails e
    | ok b => rw [hv, hw] at hdrill; cases hdrill
  | ok a =>
    cases hw : drill w segments with
    | error e => rw [hv, hw] at hdrill; cases hdrill
    | ok b =>
      rw [hv, hw] at hdrill
      have hsame : SamePublic a b := Except.ok.inj hdrill
      by_cases ha : a = .null
      · have hb : b = .null := publicPart_eq_null.1 (hsame.symm.trans (publicPart_eq_null.2 ha))
        rw [ha, hb]
        exact .absent
      · have hb : b ≠ .null := fun hb =>
          ha (publicPart_eq_null.1 (hsame.trans (publicPart_eq_null.2 hb)))
        exact .found ha hb hsame hsame.eq

/-- A list in a map, with an account that has a public name and a private token, and a method with
a private name, that gives the account's key. -/
def accounts (token : String) : Value :=
  .dict [(.str "accounts", .list [.object
    ⟨"account", .gives "account", [("name", .str "Zoe"), ("_token", .str token)],
      [("_getToken", ⟨.none, .gives (.str token)⟩), ("getOwner", ⟨.none, .gives (.str "Ann")⟩)], [],
      none⟩])]

/-- Accounts with different tokens are told apart by no path: neither by the one to the account,
nor by one to its name or its owner, nor by the name of the token itself. -/
theorem drill_private_accounts :
    SamePublic (accounts "red") (accounts "blue") ∧ accounts "red" ≠ accounts "blue" ∧
      Indistinct (drill (accounts "red") [.key "accounts", .index 0])
        (drill (accounts "blue") [.key "accounts", .index 0]) ∧
      drill (accounts "red") [.key "accounts", .index 0, .key "owner"] = .ok (.str "Ann") ∧
      drill (accounts "red") [.key "accounts", .index 0, .key "_token"] = .ok .null := by
  have hsame : SamePublic (accounts "red") (accounts "blue") := rfl
  refine ⟨hsame, ?_, drill_private hsame _, rfl, rfl⟩
  intro h
  simp [accounts] at h

end Pairs

end Runbook
