import Runbook.Proofs.History
import Runbook.Proofs.NamedEntries

/-!
# What a snapshot shows of a store

A snapshot has the variables under their names, a scope and a key with a point between them. Two
variables can have one name, since both parts may have points of their own; then the snapshot shows
one of them only. It shows every variable exactly if no two of them share a name.

* `Describes`: a snapshot that shows all variables, each under a name of its own.
* `describes_iff`: which stores have such a snapshot.
* `namesApart_of_scopes`, `namesApart_of_keys`: it is enough that no scope, or no key, has a point.
-/

namespace Runbook

open Runbook.Text

/-- The name of a base variable. -/
def Base.name (b : Base) : String :=
  Error.variableName b.1 b.2

namespace Store

/-- **What is asked of names and snapshot**: no name twice, as many entries as variables, and the
value of each variable under its name. -/
structure Describes (s : Store) : Prop where
  names_nodup : s.names.Nodup
  length_eq : s.snapshot.length = s.size
  shown : ∀ b v, s.lookup? b = some v → s.snapshot.field? b.name = some v

/-- No two variables have the same name. -/
def NamesApart (s : Store) : Prop :=
  ∀ b ∈ s.entries.bases, ∀ c ∈ s.entries.bases, b.name = c.name → b = c

/-- The variables by name. -/
def members (s : Store) : List (String × Value) :=
  s.entries.map fun e => (e.1.name, e.2)

variable {s : Store}

theorem snapshot_eq (s : Store) : s.snapshot = Entries.ofList (Entries.named s.members) := by
  rw [snapshot, Entries.named, members, List.map_map]
  rfl

theorem names_eq (s : Store) : s.names = s.members.map (·.1) := by
  rw [names, members, List.map_map]
  rfl

theorem names_eq_bases (s : Store) : s.names = s.entries.bases.map Base.name := by
  rw [names, Variables.bases, List.map_map]
  rfl

theorem mem_members {b : Base} {v : Value} (h : s.lookup? b = some v) :
    (b.name, v) ∈ s.members := by
  rw [lookup?, Variables.lookup?, Option.map_eq_some_iff] at h
  obtain ⟨e, he, rfl⟩ := h
  have hb : e.1 = b := by simpa using List.find?_some he
  rw [members, ← hb]
  exact List.mem_map_of_mem (f := fun e => (e.1.name, e.2)) (List.mem_of_find?_eq_some he)

/-- Variables that are listed once have different names exactly if no two share one. -/
theorem names_nodup_iff (h : s.entries.bases.Nodup) : s.names.Nodup ↔ s.NamesApart := by
  rw [names_eq_bases, List.nodup_map_iff_inj_on h]
  rfl

/-- **A snapshot shows every variable** of a store, behind any operations, exactly if no two
variables have the same name. -/
theorem describes_iff (policy : MissingPolicy) (ops : List Operation) :
    ((empty policy).run ops).Describes ↔ ((empty policy).run ops).NamesApart := by
  have hnodup : ((empty policy).run ops).entries.bases.Nodup := by
    rw [run_empty_entries]
    exact nodup_bases_replay _
  generalize (empty policy).run ops = s at hnodup ⊢
  refine ⟨fun h => (names_nodup_iff hnodup).1 h.names_nodup, fun h => ?_⟩
  have hnames := (names_nodup_iff hnodup).2 h
  have hmembers := hnames
  rw [names_eq] at hmembers
  refine ⟨hnames, ?_, fun b v hv => ?_⟩
  · rw [snapshot_eq, Entries.length_ofList_named_iff.2 hmembers, members, List.length_map]
    rfl
  · rw [snapshot_eq, Entries.ofList_named hmembers, Entries.field?_named hmembers]
    exact mem_members hv

/-- Two variables under one name, of which a snapshot shows the second only. -/
theorem pointedPair_not_describes :
    ¬ ((empty .keepAsIs).run [.setScoped (.str "a.b") (.str "c") (.int 1),
      .setScoped (.str "a") (.str "b.c") (.int 2)]).Describes := by
  intro h
  cases h.length_eq

/-! ### Scopes or keys without points -/

theorem toList_name (b : Base) : b.name.toList = b.1.toList ++ '.' :: b.2.toList := by
  simp [Base.name, Error.variableName]

/-- The first of two points is told from the second where neither front has one. -/
theorem split_at_point {a b c d : List Char} (ha : '.' ∉ a) (hc : '.' ∉ c)
    (h : a ++ '.' :: b = c ++ '.' :: d) : a = c ∧ b = d := by
  have hfront : ∀ {cs : List Char} (rest : List Char), '.' ∉ cs →
      (cs ++ '.' :: rest).takeWhile (· != '.') = cs := by
    intro cs rest hcs
    rw [List.takeWhile_append_of_pos fun c hc => by rw [bne_iff_ne]; rintro rfl; exact hcs hc,
      List.takeWhile_cons_of_neg (by simp), List.append_nil]
  have hac : a = c := by rw [← hfront b ha, h, hfront d hc]
  subst hac
  exact ⟨rfl, (List.cons.inj (List.append_cancel_left h)).2⟩

/-- **Scopes without points** keep names apart. -/
theorem namesApart_of_scopes (h : ∀ b ∈ s.entries.bases, '.' ∉ b.1.toList) : s.NamesApart := by
  intro b hb c hc hname
  have htext := congrArg String.toList hname
  rw [toList_name, toList_name] at htext
  obtain ⟨hscope, hkey⟩ := split_at_point (h b hb) (h c hc) htext
  exact Prod.ext (String.toList_injective hscope) (String.toList_injective hkey)

/-- **Keys without points** keep names apart. -/
theorem namesApart_of_keys (h : ∀ b ∈ s.entries.bases, '.' ∉ b.2.toList) : s.NamesApart := by
  intro b hb c hc hname
  -- the last point of a text is the first of the text read backwards
  have htext := congrArg (fun n => n.toList.reverse) hname
  simp only [toList_name, List.reverse_append, List.reverse_cons, List.append_assoc,
    List.singleton_append] at htext
  obtain ⟨hkey, hscope⟩ := split_at_point (by simpa using h b hb) (by simpa using h c hc) htext
  exact Prod.ext (String.toList_injective (List.reverse_injective hscope))
    (String.toList_injective (List.reverse_injective hkey))

end Store

end Runbook
