import Runbook.CommandLine.Session
import Runbook.Proofs.BatchWrites
import Runbook.Proofs.NamedEntries
import Runbook.Proofs.ReadingBack
import Runbook.Proofs.Results
import Runbook.Proofs.Running

/-!
# Variables given as arguments

Arguments give variables that go over those of a plan. Both come as maps, and a map goes by the name
as it is written, while one variable has many names: blanks, braces and brackets around them do not
count. The maps are joined before a name is read, so a variable begins a run with the value of the
one of its names that stands last in the joint map, and that is not always the last argument's.

* `foldl_insert_named`, `joinNamed`: the names of joint maps, in order, and their values.
* `lookup?_setAll`: what writing a map leaves in a variable.
* `Gives`, `readOverride_spec`: what an argument gives, and to which variable.
* `seed_lookup?`: **what a variable begins a run with.**
* `override_wins_iff`: **when the last argument of a variable wins.**
-/

namespace Runbook

open Runbook.Text

namespace Entries

variable {members more : List (String × Value)}

/-! ### Joint maps -/

theorem eraseDups_concat (names : List String) (name : String) :
    (names ++ [name]).eraseDups =
      if name ∈ names then names.eraseDups else names.eraseDups ++ [name] := by
  rw [List.eraseDups_append]
  by_cases h : name ∈ names <;> simp [List.removeAll, h, List.eraseDups_cons]

theorem eraseDups_of_nodup {names : List String} (h : names.Nodup) : names.eraseDups = names := by
  induction names using List.reverseRecOn with
  | nil => rfl
  | append_singleton names name ih =>
    rw [← List.concat_eq_append, List.nodup_concat] at h
    rw [eraseDups_concat, if_neg h.1, ih h.2]

/-- Names once each, put behind others, are those names as they are. -/
theorem eraseDups_append_eraseDups (names more : List String) :
    (names ++ more.eraseDups).eraseDups = (names ++ more).eraseDups := by
  induction more using List.reverseRecOn with
  | nil => rfl
  | append_singleton more name ih =>
    rw [eraseDups_concat, ← List.append_assoc names more, eraseDups_concat]
    by_cases h : name ∈ more
    · rw [if_pos h, if_pos (List.mem_append_right _ h), ih]
    · rw [if_neg h, ← List.append_assoc, eraseDups_concat, ih]
      simp only [List.mem_append, List.mem_eraseDups]

theorem field?_eq_lastNamed (h : (members.map (·.1)).Nodup) (name : String) :
    (named members).field? name = lastNamed name members := by
  rw [← ofList_named h, field?_ofList_named]

/-- **Members written into a map**: the names are those of both, once each and in the order of first
use, and every name has the last value of it. -/
theorem foldl_insert_named (h : (members.map (·.1)).Nodup) (more : List (String × Value)) :
    ∃ joint, (named more).foldl (fun es e => insert es e.1 e.2) (named members) = named joint ∧
      (joint.map (·.1)).Nodup ∧ joint.map (·.1) = ((members ++ more).map (·.1)).eraseDups ∧
      ∀ name, lastNamed name joint = lastNamed name (members ++ more) := by
  induction more using List.reverseRecOn with
  | nil => exact ⟨members, rfl, h, by rw [List.append_nil, eraseDups_of_nodup h], by simp⟩
  | append_singleton more m ih =>
    obtain ⟨joint, hjoint, hnodup, hnames, hvalues⟩ := ih
    have hwritten : (named (more ++ [m])).foldl (fun es e => insert es e.1 e.2) (named members) =
        insert (named joint) (.str m.1) m.2 := by
      have hlast : named (more ++ [m]) = named more ++ [(.str m.1, m.2)] := List.map_append
      rw [hlast, List.foldl_append, hjoint]
      rfl
    have hvalue : ∀ name, (insert (named joint) (.str m.1) m.2).field? name =
        lastNamed name (members ++ (more ++ [m])) := by
      intro name
      rw [field?_insert_named, field?_eq_lastNamed hnodup, hvalues, ← List.append_assoc,
        lastNamed_concat]
    have hmem : m.1 ∈ joint.map (·.1) ↔ m.1 ∈ (members ++ more).map (·.1) := by
      rw [hnames, List.mem_eraseDups]
    rw [← List.append_assoc, List.map_append, List.map_singleton, eraseDups_concat, ← hnames]
    -- a name that is there keeps its place, and a new one comes last
    by_cases hm : m.1 ∈ joint.map (·.1)
    · obtain ⟨others, hinsert, hothers⟩ := insert_named_present hm m.2
      rw [← hothers] at hnodup
      refine ⟨others, hwritten.trans hinsert, hnodup, ?_, fun name => ?_⟩
      · rw [if_pos (hmem.1 hm), hothers]
      · rw [← field?_eq_lastNamed hnodup, ← hinsert, hvalue, List.append_assoc]
    · have hconcat : ((joint ++ [m]).map (·.1)).Nodup := by
        rw [List.map_append, List.map_singleton, ← List.concat_eq_append, List.nodup_concat]
        exact ⟨hm, hnodup⟩
      refine ⟨joint ++ [m], hwritten.trans (insert_named hm m.2), hconcat, ?_, fun name => ?_⟩
      · rw [if_neg fun h => hm (hmem.2 h), List.map_append, List.map_singleton]
      · rw [← field?_eq_lastNamed hconcat, ← insert_named hm, hvalue, List.append_assoc]

/-- **A map joined to another** is as if its members had been written one after another. -/
theorem joinNamed (h : (members.map (·.1)).Nodup) (more : List (String × Value)) :
    ∃ joint, (ofList (named more)).foldl (fun es e => insert es e.1 e.2) (named members) =
        named joint ∧
      (joint.map (·.1)).Nodup ∧ joint.map (·.1) = ((members ++ more).map (·.1)).eraseDups ∧
      ∀ name, lastNamed name joint = lastNamed name (members ++ more) := by
  obtain ⟨written, hwritten, -, hnames, hvalues⟩ := @foldl_insert_named [] List.nodup_nil more
  obtain ⟨joint, hjoint, hnodup, hkeys, hlast⟩ := foldl_insert_named h written
  have hmap : ofList (named more) = named written := hwritten
  refine ⟨joint, by rw [hmap, hjoint], hnodup, ?_, fun name => ?_⟩
  · rw [hkeys, List.map_append, hnames, List.nil_append, eraseDups_append_eraseDups,
      ← List.map_append]
  · rw [hlast, lastNamed_append, hvalues, List.nil_append, ← lastNamed_append]

end Entries

/-! ### Names of a variable -/

/-- Whether a name stands for a variable. -/
def isNameOf (b : Base) (name : String) : Bool :=
  Store.namedBase? (.str name) == some b

/-- **The spellings of a variable** among names, once each and in the order of first use. -/
def spellings (b : Base) (names : List String) : List String :=
  names.eraseDups.filter (isNameOf b)

variable {b : Base} {members : List (String × Value)} {s s' : Store} {skipped : List Value}

theorem isNameOf_iff {name : String} :
    isNameOf b name = true ↔ ∃ p, Path.parse name = .ok p ∧ p.base = b := by
  rw [isNameOf, beq_iff_eq]
  cases hparse : Path.parse name with
  | ok p =>
    have hpath : Path.ofValue (.str name) = .ok p := hparse
    simp [Store.namedBase?_ok hpath]
  | error e =>
    have hpath : Path.ofValue (.str name) = .error e := hparse
    simp [Store.namedBase?_error hpath]

/-- Blanks around a name do not count. -/
theorem isNameOf_trim (b : Base) (name : String) : isNameOf b (trim name) = isNameOf b name := by
  have hunwrap : Path.unwrapChars (trim name).toList = Path.unwrapChars name.toList := by
    rw [Path.unwrapChars, Path.unwrapChars, toList_trim, trimChars_trimChars]
  have hblank : isBlankText (trim name) = isBlankText name := by
    rw [Bool.eq_iff_iff, isBlankText_iff, isBlankText_iff, toList_trim, trimChars_trimChars]
  rw [Bool.eq_iff_iff, isNameOf_iff, isNameOf_iff]
  simp only [Path.parse_ok_iff, hunwrap, hblank]

/-- The last of the members with a name of a variable. -/
theorem getLast?_spelled (h : (members.map (·.1)).Nodup) :
    ((members.filter fun m => isNameOf b m.1).getLast?).map (·.2) =
      (((members.map (·.1)).filter (isNameOf b)).getLast?).bind (Entries.lastNamed · members) := by
  rw [List.filter_map, List.getLast?_map]
  have hcomp : isNameOf b ∘ (·.1) = fun m : String × Value => isNameOf b m.1 := rfl
  rw [hcomp]
  cases hlast : (members.filter fun m => isNameOf b m.1).getLast? with
  | none => rfl
  | some m =>
    have hm : m ∈ members := (List.mem_filter.1 (List.mem_of_getLast? hlast)).1
    rw [Option.map_some, Option.map_some, Option.bind_some, ← Entries.field?_eq_lastNamed h]
    exact ((Entries.field?_named h).2 hm).symm

/-- **What writing a map leaves in a variable**: the value of the last member with a name of it. -/
theorem lookup?_setAll (h : s.setAll (Entries.named members) = (.ok skipped, s')) :
    s'.lookup? b = (((members.filter fun m => isNameOf b m.1).getLast?).map (·.2)).or
      (s.lookup? b) := by
  obtain ⟨-, rfl⟩ := Store.setAll_written h
  rw [Store.lookup?_run_writes, Entries.named, List.filter_map, List.getLast?_map, Option.map_map]
  rfl

/-- A map of names that stand for variables is written as a whole. -/
theorem setAll_ok (h : ∀ m ∈ members, ∃ p, Path.parse m.1 = .ok p) (s : Store) :
    ∃ s', s.setAll (Entries.named members) = (.ok [], s') := by
  induction members generalizing s with
  | nil => exact ⟨s, rfl⟩
  | cons m members ih =>
    obtain ⟨⟨p, hp⟩, hmembers⟩ := List.forall_mem_cons.1 h
    obtain ⟨s', hs'⟩ := ih hmembers (s.put p.base m.2)
    have hname : Store.namedBase? (.str m.1) = some p.base := Store.namedBase?_ok (by exact hp)
    refine ⟨s', ?_⟩
    rw [Entries.named_cons, Store.setAll, Store.assign_of_base s hname]
    exact hs'

/-- A plan whose variables have names begins with them. -/
theorem seed_ok {plan : Plan} (hvars : plan.vars = Entries.named members)
    (h : ∀ m ∈ members, ∃ p, Path.parse m.1 = .ok p) : ∃ store, plan.seed none = .ok store := by
  obtain ⟨store, hset⟩ := setAll_ok h (Store.empty plan.policy)
  refine ⟨store, ?_⟩
  rw [Plan.seed, hvars]
  simp only [hset]
  rfl

/-! ### Arguments -/

namespace CommandLine

/-- **An argument gives a variable a value**: in front of its first equals sign is a name of the
variable, and the value is all that is behind it. -/
def Gives (item : String) (b : Base) (v : String) : Prop :=
  ∃ front, '=' ∉ front ∧ item.toList = front ++ '=' :: v.toList ∧
    isNameOf b (String.ofList front) = true

/-- What an argument writes into a map, and under which name. -/
def memberOf (item : String) : String × Value :=
  (trim (splitValue item).1, .str ((splitValue item).2.getD ""))

variable {item v path : String} {items : List String} {pair : String × String} {o : Options}
  {file : WorkflowFile} {given plan : Plan} {store : Store} {overrides : Entries}

theorem splitValue_at {front rest : List Char} (hfront : '=' ∉ front)
    (h : item.toList = front ++ '=' :: rest) :
    splitValue item = (String.ofList front, some (String.ofList rest)) := by
  have hbefore : ∀ c ∈ front, (c != '=') = true := by
    intro c hc
    rw [bne_iff_ne]
    rintro rfl
    exact hfront hc
  have htake : item.toList.takeWhile (· != '=') = front := by
    rw [h, List.takeWhile_append_of_pos hbefore]
    simp
  rw [splitValue, htake, h, List.drop_left]

/-- An argument with a value has an equals sign in it. -/
theorem exists_of_splitValue {a : String} (h : splitValue item = (a, some v)) :
    ∃ front, '=' ∉ front ∧ item.toList = front ++ '=' :: v.toList ∧ a = String.ofList front := by
  by_cases hitem : '=' ∈ item.toList
  · obtain ⟨front, rest, hsplit, hfront⟩ := List.eq_append_cons_of_mem hitem
    rw [splitValue_at hfront hsplit] at h
    cases h
    exact ⟨front, hfront, by rw [hsplit, String.toList_ofList], rfl⟩
  · have htake : item.toList.takeWhile (· != '=') = item.toList := by
      refine List.takeWhile_eq_self_iff.2 fun c hc => ?_
      rw [bne_iff_ne]
      rintro rfl
      exact hitem hc
    rw [splitValue, htake, List.drop_length] at h
    cases h

/-- An argument that is read is a member with its name and its value. -/
theorem readOverride_spec (h : readOverride item = .ok pair) :
    memberOf item = (pair.1, .str pair.2) ∧ ∃ front, '=' ∉ front ∧
      item.toList = front ++ '=' :: pair.2.toList ∧ pair.1 = trim (String.ofList front) := by
  rw [readOverride] at h
  split at h
  · cases h
  · rename_i a v hsplit
    dsimp only at h
    obtain ⟨front, hfront, hitem, rfl⟩ := exists_of_splitValue hsplit
    split at h
    · cases h
    · split at h <;> cases h
      exact ⟨by rw [memberOf, hsplit, Option.getD_some], front, hfront, hitem, rfl⟩

theorem gives_of_member (h : readOverride item = .ok pair) (hname : isNameOf b pair.1 = true) :
    Gives item b pair.2 := by
  obtain ⟨-, front, hfront, hitem, hpair⟩ := readOverride_spec h
  rw [hpair, isNameOf_trim] at hname
  exact ⟨front, hfront, hitem, hname⟩

theorem Gives.member (h : Gives item b v) :
    isNameOf b (memberOf item).1 = true ∧ (memberOf item).2 = .str v := by
  obtain ⟨front, hfront, hitem, hname⟩ := h
  rw [memberOf, splitValue_at hfront hitem, isNameOf_trim]
  exact ⟨hname, by rw [Option.getD_some, String.ofList_toList]⟩

theorem mapM_readOverride {pairs : List (String × String)}
    (h : items.mapM readOverride = .ok pairs) :
    (pairs.map fun p => (p.1, Value.str p.2)) = items.map memberOf ∧
      ∀ item ∈ items, ∃ pair, readOverride item = .ok pair := by
  refine ⟨?_, exists_of_mapM h⟩
  have hall := mapM_ok_iff.1 h
  clear h
  induction hall with
  | nil => rfl
  | cons hpair _ ih => rw [List.map_cons, List.map_cons, ih, (readOverride_spec hpair).1]

/-- Arguments that are read are the map of their members. -/
theorem readOverrides_spec (h : readOverrides items = .ok overrides) :
    overrides = Entries.ofList (Entries.named (items.map memberOf)) ∧
      ∀ item ∈ items, ∃ pair, readOverride item = .ok pair := by
  rw [readOverrides] at h
  cases hpairs : items.mapM readOverride with
  | error e =>
    rw [hpairs] at h
    cases h
  | ok pairs =>
    rw [hpairs] at h
    cases h
    obtain ⟨hmembers, hread⟩ := mapM_readOverride hpairs
    refine ⟨?_, hread⟩
    rw [← hmembers, Entries.named, List.map_map]
    rfl

/-- The name in the last argument of a variable has the value of this argument. -/
theorem lastNamed_last {front behind : List String} (hread : readOverrides items = .ok overrides)
    (hitems : items = front ++ item :: behind)
    (hgives : Gives item b v) (hlast : ∀ other ∈ behind, ∀ w, ¬ Gives other b w) :
    Entries.lastNamed (memberOf item).1 (members ++ items.map memberOf) = some (.str v) := by
  obtain ⟨-, hreadable⟩ := readOverrides_spec hread
  obtain ⟨hname, hvalue⟩ := hgives.member
  -- the name does not come again behind it, since it is one of the variable
  have hbehind : (memberOf item).1 ∉ (behind.map memberOf).map (·.1) := by
    intro hmem
    obtain ⟨_, hmember, hsame⟩ := List.mem_map.1 hmem
    obtain ⟨other, hother, rfl⟩ := List.mem_map.1 hmember
    have hmem : other ∈ items := by
      rw [hitems]
      exact List.mem_append_right _ (List.mem_cons_of_mem _ hother)
    obtain ⟨pair, hpair⟩ := hreadable other hmem
    rw [← hsame, (readOverride_spec hpair).1] at hname
    exact hlast other hother _ (gives_of_member hpair hname)
  rw [hitems, List.map_append, List.map_cons]
  refine Entries.lastNamed_eq_some.2
    ⟨members ++ front.map memberOf, behind.map memberOf, ?_, hbehind⟩
  rw [List.append_assoc, ← hvalue]

/-! ### What a run begins with -/

theorem planOf_spec (hload : file.load path = .ok given) (hplan : planOf o path file = .ok plan) :
    ∃ overrides, readOverrides o.vars = .ok overrides ∧
      plan.vars = overrides.foldl (fun vars e => Entries.insert vars e.1 e.2) given.vars := by
  obtain ⟨loaded, hloaded, hplan⟩ := exists_of_bind_ok hplan
  obtain ⟨overrides, hread, hplan⟩ := exists_of_bind_ok hplan
  obtain rfl : given = loaded := Except.ok.inj (hload.symm.trans hloaded)
  refine ⟨overrides, hread, ?_⟩
  -- the policy does not matter to the variables
  cases hpolicy : o.policy with
  | none =>
    rw [hpolicy] at hplan
    exact (congrArg Plan.vars (Except.ok.inj hplan)).symm
  | some text =>
    rw [hpolicy] at hplan
    obtain ⟨policy, -, hplan⟩ := exists_of_bind_ok hplan
    exact (congrArg Plan.vars (Except.ok.inj hplan)).symm

theorem seed_spec (h : plan.seed none = .ok store) :
    ∃ skipped, (Store.empty plan.policy).setAll plan.vars = (.ok skipped, store) := by
  rw [Plan.seed] at h
  split at h
  · rename_i skipped s hset
    cases htexts : Display.Notice.nameTexts 0 skipped with
    | error e => simp [htexts, Except.map] at h
    | ok texts =>
      rw [htexts] at h
      cases h
      exact ⟨skipped, hset⟩
  · cases h

section Seed

variable {members : List (String × Value)} (hload : file.load path = .ok given)
  (hvars : given.vars = Entries.named members) (hnodup : (members.map (·.1)).Nodup)
  (hplan : planOf o path file = .ok plan) (hseed : plan.seed none = .ok store)

include hload hvars hnodup hplan hseed

/-- **What a variable begins a run with**: of its names among those of the plan and of the
arguments, in the order of first use, the last; and of the members of this name, the last. -/
theorem seed_lookup? (b : Base) : store.lookup? b =
    (spellings b ((members ++ o.vars.map memberOf).map (·.1))).getLast?.bind
      (Entries.lastNamed · (members ++ o.vars.map memberOf)) := by
  obtain ⟨overrides, hread, hjoined⟩ := planOf_spec hload hplan
  obtain ⟨rfl, -⟩ := readOverrides_spec hread
  obtain ⟨joint, hjoint, hjointNodup, hnames, hvalues⟩ :=
    Entries.joinNamed hnodup (o.vars.map memberOf)
  rw [hvars, hjoint] at hjoined
  obtain ⟨skipped, hset⟩ := seed_spec hseed
  rw [hjoined] at hset
  have hempty : (Store.empty plan.policy).lookup? b = none := rfl
  rw [lookup?_setAll hset, hempty, Option.or_none, getLast?_spelled hjointNodup, hnames, spellings]
  simp only [hvalues]

/-- **With one spelling the last argument wins**: of a variable that the plan and the arguments
name in one way only. -/
theorem override_wins {front behind : List String} (hitems : o.vars = front ++ item :: behind)
    (hgives : Gives item b v) (hlast : ∀ other ∈ behind, ∀ w, ¬ Gives other b w)
    (hone : ∀ name ∈ (members ++ o.vars.map memberOf).map (·.1), isNameOf b name = true →
      name = (memberOf item).1) :
    store.lookup? b = some (.str v) := by
  have hspelled : (memberOf item).1 ∈
      spellings b ((members ++ o.vars.map memberOf).map (·.1)) := by
    rw [spellings, List.mem_filter, List.mem_eraseDups, hitems]
    exact ⟨by simp, hgives.member.1⟩
  obtain ⟨name, hstands⟩ := Option.ne_none_iff_exists'.1
    fun hnone => List.ne_nil_of_mem hspelled (List.getLast?_eq_none_iff.1 hnone)
  obtain ⟨hmem, hname⟩ := List.mem_filter.1 (List.mem_of_getLast? hstands)
  obtain rfl := hone name (List.mem_eraseDups.1 hmem) hname
  obtain ⟨overrides, hread, -⟩ := planOf_spec hload hplan
  rw [seed_lookup? hload hvars hnodup hplan hseed, hstands, Option.bind_some,
    lastNamed_last hread hitems hgives hlast]

/-- **When the last argument of a variable wins.** The variable begins the run with the value of
this argument exactly if the name in it is the one that stands last among the names of the
variable, or if the one that does has the same value. -/
theorem override_wins_iff {front behind : List String} (hitems : o.vars = front ++ item :: behind)
    (hgives : Gives item b v) (hlast : ∀ other ∈ behind, ∀ w, ¬ Gives other b w) :
    store.lookup? b = some (.str v) ↔
      ∃ name, (spellings b ((members ++ o.vars.map memberOf).map (·.1))).getLast? = some name ∧
        (name = (memberOf item).1 ∨
          Entries.lastNamed name (members ++ o.vars.map memberOf) = some (.str v)) := by
  obtain ⟨overrides, hread, -⟩ := planOf_spec hload hplan
  rw [seed_lookup? hload hvars hnodup hplan hseed]
  constructor
  · intro h
    obtain ⟨name, hstands, hname⟩ := Option.bind_eq_some_iff.1 h
    exact ⟨name, hstands, .inr hname⟩
  · rintro ⟨name, hstands, rfl | hvalue⟩
    · rw [hstands, Option.bind_some,
        lastNamed_last hread hitems hgives hlast]
    · rw [hstands, Option.bind_some, hvalue]

end Seed

/-! ### A file with variables -/

/-- The plan of variables with nothing to do. -/
def varsPlan (vars : List (String × Value)) : Plan where
  name := .str "Workflow"
  tasks := []
  policy := .keepAsIs
  maxWorkers := .null
  clearOnFinish := .bool false
  connections := []
  vars := Entries.named vars

/-- The file of such a plan. -/
def varsFile (vars : List (String × Value)) : WorkflowFile :=
  .content (.dict (Entries.named [("type", .str workflowType), ("version", .int 1),
    ("vars", .dict (Entries.named vars)), ("tasks", .list [])]))

theorem load_varsFile (path : String) (m : String × Value) (vars : List (String × Value)) :
    (varsFile (m :: vars)).load path = .ok (varsPlan (m :: vars)) := by
  have hids : duplicateIds [] = [] := by simp [duplicateIds, sortedTexts]
  change (if !(duplicateIds []).isEmpty then _ else _) = _
  rw [hids]
  rfl

/-- The options of a run with variables. -/
def regionOptions (items : List String) : Options := ⟨"w.yml", none, items, false⟩

theorem planOf_varsFile {m : String × Value} {vars joint : List (String × Value)}
    (h : readOverrides items = .ok overrides)
    (hjoint : overrides.foldl (fun vars e => Entries.insert vars e.1 e.2)
      (Entries.named (m :: vars)) = Entries.named joint) :
    planOf (regionOptions items) "w.yml" (varsFile (m :: vars)) = .ok (varsPlan joint) := by
  rw [planOf, load_varsFile]
  change (readOverrides items >>= _) = _
  rw [regionOptions, h]
  exact congrArg (fun vars => Except.ok { varsPlan [] with vars }) hjoint

theorem readOverrides_region :
    readOverrides ["Env.Region=eu"] = .ok [(.str "Env.Region", .str "eu")] := by
  have hitem : readOverride "Env.Region=eu" = .ok ("Env.Region", "eu") := by decide
  rw [readOverrides, List.mapM_cons, hitem]
  rfl

theorem gives_region : Gives "Env.Region=eu" ("Env", "Region") "eu" :=
  ⟨"Env.Region".toList, by decide, by decide, by decide⟩

theorem parse_region : Path.parse "Env.Region" = .ok ⟨"Env", "Region", []⟩ := by decide

/-- An argument goes over a variable that is spelled alike in the file. -/
theorem override_wins_region :
    ∃ plan store, planOf (regionOptions ["Env.Region=eu"]) "w.yml"
        (varsFile [("Env.Region", .str "us")]) = .ok plan ∧ plan.seed none = .ok store ∧
      store.lookup? ("Env", "Region") = some (.str "eu") := by
  have hplan : planOf (regionOptions ["Env.Region=eu"]) "w.yml"
      (varsFile [("Env.Region", .str "us")]) = .ok (varsPlan [("Env.Region", .str "eu")]) :=
    planOf_varsFile readOverrides_region rfl
  obtain ⟨store, hseed⟩ : ∃ store, (varsPlan [("Env.Region", .str "eu")]).seed none = .ok store :=
    seed_ok rfl (by simpa using ⟨_, parse_region⟩)
  refine ⟨_, store, hplan, hseed, ?_⟩
  have hnodup : ([("Env.Region", Value.str "us")].map (·.1)).Nodup := by decide
  have hitems : (regionOptions ["Env.Region=eu"]).vars = [] ++ "Env.Region=eu" :: [] := rfl
  have hlast : ∀ other ∈ ([] : List String), ∀ w, ¬ Gives other ("Env", "Region") w := by simp
  refine (override_wins_iff (load_varsFile _ _ _) rfl hnodup hplan hseed hitems gives_region
    hlast).2 ⟨"Env.Region", by decide, .inl (by decide)⟩

/-- **An argument does not go over another spelling**: of a variable that the file names in two
ways, the argument writes the first and the file has the last word. -/
theorem override_loses_region :
    ∃ plan store, planOf (regionOptions ["Env.Region=eu"]) "w.yml"
        (varsFile [("Env.Region", .str "us"), ("$\x7bEnv.Region\x7d", .str "ap")]) = .ok plan ∧
      plan.seed none = .ok store ∧ Gives "Env.Region=eu" ("Env", "Region") "eu" ∧
      store.lookup? ("Env", "Region") = some (.str "ap") ∧
      store.lookup? ("Env", "Region") ≠ some (.str "eu") := by
  have hplan : planOf (regionOptions ["Env.Region=eu"]) "w.yml"
      (varsFile [("Env.Region", .str "us"), ("$\x7bEnv.Region\x7d", .str "ap")]) =
        .ok (varsPlan [("Env.Region", .str "eu"), ("$\x7bEnv.Region\x7d", .str "ap")]) :=
    planOf_varsFile readOverrides_region rfl
  have hwrapped : Path.parse "$\x7bEnv.Region\x7d" = .ok ⟨"Env", "Region", []⟩ := by decide
  obtain ⟨store, hseed⟩ : ∃ store, (varsPlan [("Env.Region", .str "eu"),
      ("$\x7bEnv.Region\x7d", .str "ap")]).seed none = .ok store :=
    seed_ok rfl (by simpa using ⟨⟨_, parse_region⟩, ⟨_, hwrapped⟩⟩)
  have hstands : (spellings ("Env", "Region")
      ["Env.Region", "$\x7bEnv.Region\x7d", "Env.Region"]).getLast? =
        some "$\x7bEnv.Region\x7d" := by decide
  have hfound : store.lookup? ("Env", "Region") = some (.str "ap") := by
    rw [seed_lookup? (load_varsFile _ _ _) rfl (by decide) hplan hseed]
    exact Option.bind_eq_some_iff.2 ⟨_, hstands, rfl⟩
  refine ⟨_, store, hplan, hseed, gives_region, hfound, ?_⟩
  rw [hfound]
  simp

end CommandLine

end Runbook
