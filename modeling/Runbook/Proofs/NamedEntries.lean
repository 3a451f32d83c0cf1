import Mathlib.Data.List.Induction
import Mathlib.Data.List.Nodup
import Mathlib.Data.List.Perm.Subperm
import Mathlib.Tactic.Common
import Runbook.Value.Key

/-!
# Maps with names for keys

Members with names, written one after another into a map. A new name comes last, and a name that is
there keeps its place; so the map has each name once, and it has as many entries as there are
members exactly if their names are different from each other.

* `named`: the entries of members.
* `ofList_named`: members whose names are different from each other are the entries of their map.
* `length_ofList_named_iff`: no member is lost exactly if the names are different from each other.
* `field?_named`: looking up a name.
* `lastNamed`, `field?_ofList_named`: the last member of a name is the one that a map keeps.
-/

namespace Runbook.Entries

/-- The entries of members with names. -/
def named (members : List (String × Value)) : Entries :=
  members.map fun m => (.str m.1, m.2)

variable {members : List (String × Value)} {name : String}

theorem named_cons (m : String × Value) (members : List (String × Value)) :
    named (m :: members) = (.str m.1, m.2) :: named members :=
  rfl

theorem sameKey_str (a b : String) : (Value.str a).sameKey (.str b) = (a == b) :=
  rfl

/-- A member with a new name comes last. -/
theorem insert_named (h : name ∉ members.map (·.1)) (v : Value) :
    insert (named members) (.str name) v = named (members ++ [(name, v)]) := by
  induction members with
  | nil => rfl
  | cons m members ih =>
    rw [List.map_cons, List.mem_cons, not_or] at h
    rw [named_cons, insert, sameKey_str, beq_false_of_ne (Ne.symm h.1), ih h.2]
    rfl

/-- A member whose name is there keeps the place of the name. -/
theorem insert_named_present (h : name ∈ members.map (·.1)) (v : Value) :
    ∃ others, insert (named members) (.str name) v = named others ∧
      others.map (·.1) = members.map (·.1) := by
  induction members with
  | nil => cases h
  | cons m members ih =>
    rw [named_cons, insert, sameKey_str]
    by_cases hm : m.1 = name
    · exact ⟨(m.1, v) :: members, by rw [beq_iff_eq.2 hm]; rfl, rfl⟩
    · rw [List.map_cons, List.mem_cons] at h
      obtain ⟨others, hinsert, hothers⟩ := ih (h.resolve_left (Ne.symm hm))
      refine ⟨m :: others, ?_, by rw [List.map_cons, List.map_cons, hothers]⟩
      rw [beq_false_of_ne hm, hinsert]
      rfl

theorem ofList_named_concat (members : List (String × Value)) (m : String × Value) :
    ofList (named (members ++ [m])) = insert (ofList (named members)) (.str m.1) m.2 := by
  simp [ofList, named]

/-- **Members whose names are different from each other** are the entries of their map. -/
theorem ofList_named (h : (members.map (·.1)).Nodup) : ofList (named members) = named members := by
  induction members using List.reverseRecOn with
  | nil => rfl
  | append_singleton members m ih =>
    rw [List.map_append, List.map_singleton, ← List.concat_eq_append, List.nodup_concat] at h
    rw [ofList_named_concat, ih h.2, insert_named h.1]

/-- The map of members has each of their names once. -/
theorem exists_ofList_named (members : List (String × Value)) :
    ∃ others, ofList (named members) = named others ∧ (others.map (·.1)).Nodup ∧
      ∀ name, name ∈ others.map (·.1) ↔ name ∈ members.map (·.1) := by
  induction members using List.reverseRecOn with
  | nil => exact ⟨[], rfl, List.nodup_nil, fun _ => Iff.rfl⟩
  | append_singleton members m ih =>
    obtain ⟨others, hothers, hnodup, hnames⟩ := ih
    rw [ofList_named_concat, hothers]
    -- the last member either takes the place of its name or stands at the end
    by_cases hm : m.1 ∈ others.map (·.1)
    · obtain ⟨next, hinsert, hnext⟩ := insert_named_present hm m.2
      refine ⟨next, hinsert, by rwa [hnext], fun name => ?_⟩
      rw [hnext, hnames, List.map_append, List.map_singleton, List.mem_append, List.mem_singleton]
      rw [hnames] at hm
      exact ⟨.inl, fun h => h.elim id fun h => h ▸ hm⟩
    · refine ⟨others ++ [m], insert_named hm m.2, ?_, fun name => ?_⟩
      · rw [List.map_append, List.map_singleton, ← List.concat_eq_append, List.nodup_concat]
        exact ⟨hm, hnodup⟩
      · simp only [List.map_append, List.mem_append, hnames, List.map_singleton]

/-- **No member is lost** exactly if the names are different from each other. -/
theorem length_ofList_named_iff :
    (ofList (named members)).length = members.length ↔ (members.map (·.1)).Nodup := by
  constructor
  · intro h
    obtain ⟨others, hothers, hnodup, hnames⟩ := exists_ofList_named members
    rw [hothers, named, List.length_map] at h
    -- the names of the map are names of the members, and as many, so they are the same
    have hsub : (others.map (·.1)).Subperm (members.map (·.1)) :=
      List.subperm_of_subset hnodup fun name => (hnames name).1
    have hperm := hsub.perm_of_length_le (by simp [h])
    exact hperm.nodup_iff.1 hnodup
  · intro h
    rw [ofList_named h, named, List.length_map]

/-- **Looking up a name** in a map gives the member of that name. -/
theorem field?_named (h : (members.map (·.1)).Nodup) {v : Value} :
    (named members).field? name = some v ↔ (name, v) ∈ members := by
  induction members with
  | nil => simp [field?, get?, named]
  | cons m members ih =>
    rw [List.map_cons, List.nodup_cons] at h
    rw [field?, get?, named_cons, List.find?_cons, sameKey_str]
    by_cases hm : m.1 = name
    · subst hm
      have hnone : (m.1, v) ∉ members := fun hmem => h.1 (List.mem_map.2 ⟨_, hmem, rfl⟩)
      simp only [beq_self_eq_true, Option.map_some, Option.some.injEq, List.mem_cons, hnone,
        or_false]
      exact ⟨fun hv => by rw [← hv], fun hv => by rw [← hv]⟩
    · rw [beq_false_of_ne hm]
      rw [List.mem_cons, ← ih h.2, field?, get?]
      refine ⟨.inr, fun hv => hv.resolve_left fun heq => hm ?_⟩
      rw [← heq]

/-! ### The last member of a name -/

/-- The value of the last member of a name. -/
def lastNamed (name : String) : List (String × Value) → Option Value
  | [] => none
  | m :: members => (lastNamed name members).or (if m.1 = name then some m.2 else none)

theorem lastNamed_append (name : String) (members more : List (String × Value)) :
    lastNamed name (members ++ more) = (lastNamed name more).or (lastNamed name members) := by
  induction members with
  | nil => simp [lastNamed]
  | cons m members ih => rw [List.cons_append, lastNamed, ih, lastNamed, Option.or_assoc]

theorem lastNamed_concat (name : String) (members : List (String × Value)) (m : String × Value) :
    lastNamed name (members ++ [m]) =
      if m.1 = name then some m.2 else lastNamed name members := by
  rw [lastNamed_append, lastNamed, lastNamed, Option.none_or]
  split <;> rfl

theorem lastNamed_eq_none : lastNamed name members = none ↔ name ∉ members.map (·.1) := by
  induction members with
  | nil => simp [lastNamed]
  | cons m members ih =>
    rw [lastNamed, Option.or_eq_none_iff, ih, List.map_cons, List.mem_cons, not_or]
    by_cases hm : m.1 = name
    · simp [hm]
    · simp [hm, Ne.symm hm]

/-- **The last member of a name** is one with none of that name behind it. -/
theorem lastNamed_eq_some {v : Value} : lastNamed name members = some v ↔
    ∃ before after, members = before ++ (name, v) :: after ∧ name ∉ after.map (·.1) := by
  constructor
  · intro h
    induction members with
    | nil => cases h
    | cons m members ih =>
      cases hlast : lastNamed name members with
      | some w =>
        rw [lastNamed, hlast] at h
        obtain ⟨before, after, hmembers, hafter⟩ := ih (hlast.trans h)
        exact ⟨m :: before, after, by rw [hmembers, List.cons_append], hafter⟩
      | none =>
        rw [lastNamed, hlast, Option.none_or] at h
        split at h
        · rename_i hm
          obtain rfl := Option.some.inj h
          subst hm
          exact ⟨[], members, rfl, lastNamed_eq_none.1 hlast⟩
        · cases h
  · rintro ⟨before, after, rfl, hafter⟩
    rw [lastNamed_append, lastNamed, lastNamed_eq_none.2 hafter, if_pos rfl]
    rfl

/-- What is found under a name behind the writing of a member. -/
theorem field?_insert_named (members : List (String × Value)) (key : String) (v : Value)
    (name : String) : (insert (named members) (.str key) v).field? name =
      if key = name then some v else (named members).field? name := by
  induction members with
  | nil =>
    by_cases h : key = name <;> simp [insert, named, field?, get?, sameKey_str, h]
  | cons m members ih =>
    rw [named_cons, insert, sameKey_str]
    by_cases hm : m.1 = key
    · rw [beq_iff_eq.2 hm]
      by_cases h : key = name <;> simp [field?, get?, sameKey_str, hm, h]
    · rw [beq_false_of_ne hm]
      simp only [Bool.false_eq_true, if_false]
      by_cases hname : m.1 = name
      · have hkey : key ≠ name := fun h => hm (hname.trans h.symm)
        simp [field?, get?, sameKey_str, hname, hkey]
      · have hskip : ∀ es : Entries, field? ((Value.str m.1, m.2) :: es) name = field? es name := by
          intro es
          simp [field?, get?, sameKey_str, hname]
        rw [hskip, hskip, ih]

/-- **A map keeps the last member of each name.** -/
theorem field?_ofList_named (members : List (String × Value)) (name : String) :
    (ofList (named members)).field? name = lastNamed name members := by
  induction members using List.reverseRecOn with
  | nil => rfl
  | append_singleton members m ih =>
    obtain ⟨others, hothers, -⟩ := exists_ofList_named members
    rw [ofList_named_concat, lastNamed_concat, ← ih, hothers, field?_insert_named]

end Runbook.Entries
