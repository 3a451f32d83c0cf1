import Mathlib.Data.List.DropRight
import Mathlib.Tactic.Common
import Runbook.Text.Blank

/-!
# Trimming

What is left of a text when the blanks at its ends are taken off: the text is blanks, what is left,
and blanks again, and what is left neither begins nor ends in a blank.

* `trimChars_spec`: the parts of a text.
* `trimChars_eq_self`: the texts that trimming leaves alone.
* `trimChars_around`: blanks around a text make no difference.
* `trim_trim`, `trim_ne_empty`: trimmed names stay as they are and are not empty.
-/

namespace Runbook.Text

theorem trimEndChars_eq (cs : List Char) : trimEndChars cs = cs.rdropWhile isBlank := rfl

/-- A text is blanks, its trimmed text, and blanks. -/
theorem trimChars_spec (cs : List Char) :
    ∃ before after, cs = before ++ trimChars cs ++ after ∧ (∀ c ∈ before, isBlank c = true) ∧
      ∀ c ∈ after, isBlank c = true := by
  refine ⟨cs.takeWhile isBlank, (cs.dropWhile isBlank).rtakeWhile isBlank, ?_,
    fun c hc => List.mem_takeWhile_imp hc, fun c hc => List.mem_rtakeWhile_imp hc⟩
  have hback : trimChars cs ++ (cs.dropWhile isBlank).rtakeWhile isBlank = cs.dropWhile isBlank :=
    List.rdropWhile_append_rtakeWhile
  rw [List.append_assoc, hback, List.takeWhile_append_dropWhile]

/-- Every character of a trimmed text is one of the text. -/
theorem mem_of_mem_trimChars {c : Char} {cs : List Char} (h : c ∈ trimChars cs) : c ∈ cs := by
  obtain ⟨before, after, hcs, -, -⟩ := trimChars_spec cs
  rw [hcs]; simp [h]

/-- A trimmed text does not begin with a blank. -/
theorem head_trimChars {c : Char} {cs : List Char} (h : (trimChars cs).head? = some c) :
    isBlank c = false := by
  have hpre : trimChars cs <+: cs.dropWhile isBlank := List.rdropWhile_prefix isBlank _
  obtain ⟨tail, htail⟩ := List.head?_eq_some_iff.1 h
  obtain ⟨rest, hrest⟩ := hpre
  rw [htail, List.cons_append] at hrest
  have := List.head?_dropWhile_not isBlank cs
  rw [← hrest] at this
  simpa using this

/-- A trimmed text does not end in a blank. -/
theorem getLast_trimChars {c : Char} {cs : List Char} (h : (trimChars cs).getLast? = some c) :
    isBlank c = false := by
  have hne : trimChars cs ≠ [] := by rintro hnil; simp [hnil] at h
  have hlast := List.rdropWhile_last_not isBlank (cs.dropWhile isBlank) hne
  have : (trimChars cs).getLast hne = c := by
    rw [List.getLast?_eq_some_getLast hne] at h
    exact Option.some.inj h
  rw [← this]
  simpa [trimChars, trimEndChars_eq] using hlast

theorem dropWhile_blank_of_head {cs : List Char} (h : ∀ c, cs.head? = some c → isBlank c = false) :
    cs.dropWhile isBlank = cs := by
  cases cs with
  | nil => rfl
  | cons c cs => rw [List.dropWhile_cons_of_neg]; simp [h c rfl]

theorem trimEndChars_of_last {cs : List Char}
    (h : ∀ c, cs.getLast? = some c → isBlank c = false) : trimEndChars cs = cs := by
  rw [trimEndChars, dropWhile_blank_of_head, List.reverse_reverse]
  intro c hc
  rw [List.head?_reverse] at hc
  exact h c hc

/-- **Trimming leaves alone** exactly the texts that neither begin nor end in a blank. -/
theorem trimChars_eq_self {cs : List Char} : trimChars cs = cs ↔
    (∀ c, cs.head? = some c → isBlank c = false) ∧
      ∀ c, cs.getLast? = some c → isBlank c = false := by
  constructor
  · intro h
    exact ⟨fun c hc => head_trimChars (h.symm ▸ hc), fun c hc => getLast_trimChars (h.symm ▸ hc)⟩
  · rintro ⟨hhead, hlast⟩
    rw [trimChars, dropWhile_blank_of_head hhead, trimEndChars_of_last hlast]

/-- Trimming twice is trimming once. -/
theorem trimChars_trimChars (cs : List Char) : trimChars (trimChars cs) = trimChars cs :=
  trimChars_eq_self.2 ⟨fun _ hc => head_trimChars hc, fun _ hc => getLast_trimChars hc⟩

theorem trimChars_of_blank {cs : List Char} (h : ∀ c ∈ cs, isBlank c = true) :
    trimChars cs = [] := by
  rw [trimChars, List.dropWhile_eq_nil_iff.2 h]; rfl

/-- A text is left with nothing exactly if it is blank. -/
theorem trimChars_eq_nil {cs : List Char} : trimChars cs = [] ↔ ∀ c ∈ cs, isBlank c = true := by
  refine ⟨fun h c hc => ?_, trimChars_of_blank⟩
  obtain ⟨before, after, hcs, hbefore, hafter⟩ := trimChars_spec cs
  rw [h, List.append_nil] at hcs
  rw [hcs] at hc
  rcases List.mem_append.1 hc with hc | hc
  · exact hbefore c hc
  · exact hafter c hc

/-- **Blanks around a text make no difference.** -/
theorem trimChars_around {before cs after : List Char} (hbefore : ∀ c ∈ before, isBlank c = true)
    (hafter : ∀ c ∈ after, isBlank c = true) :
    trimChars (before ++ cs ++ after) = trimChars cs := by
  rw [List.append_assoc, trimChars, List.dropWhile_append_of_pos hbefore, List.dropWhile_append]
  split
  · -- nothing but blanks is left of nothing but blanks
    rename_i hnil
    rw [List.isEmpty_iff] at hnil
    have hall : ∀ c ∈ cs, isBlank c = true := List.dropWhile_eq_nil_iff.1 hnil
    rw [trimChars_of_blank hall, List.dropWhile_eq_nil_iff.2 hafter]
    rfl
  · rw [trimChars, trimEndChars, trimEndChars, List.reverse_append, List.dropWhile_append_of_pos]
    intro c hc
    exact hafter c (List.mem_reverse.1 hc)

/-- A text without blanks at its ends is what is left of it with blanks around it. -/
theorem trimChars_padded {before cs after : List Char} (hbefore : ∀ c ∈ before, isBlank c = true)
    (hafter : ∀ c ∈ after, isBlank c = true) (hcs : trimChars cs = cs) :
    trimChars (before ++ cs ++ after) = cs := by
  rw [trimChars_around hbefore hafter, hcs]

/-- Trimming takes away nothing but blanks. -/
theorem countP_trimChars {p : Char → Bool} (hp : ∀ c, isBlank c = true → p c = false)
    (cs : List Char) : (trimChars cs).countP p = cs.countP p := by
  have hblank : ∀ {b : List Char}, (∀ c ∈ b, isBlank c = true) → b.countP p = 0 := fun hb =>
    List.countP_eq_zero.2 fun c hc => by simp [hp c (hb c hc)]
  obtain ⟨before, after, hcs, hbefore, hafter⟩ := trimChars_spec cs
  conv_rhs => rw [hcs]
  rw [List.countP_append, List.countP_append, hblank hbefore, hblank hafter]
  omega

theorem count_trimChars {c : Char} (hc : isBlank c = false) (cs : List Char) :
    (trimChars cs).count c = cs.count c := by
  refine countP_trimChars (fun d hd => beq_false_of_ne ?_) cs
  rintro rfl
  rw [hc] at hd
  cases hd

theorem isBlankText_iff (s : String) : isBlankText s = true ↔ trimChars s.toList = [] := by
  rw [trimChars_eq_nil, isBlankText, List.all_eq_true]

theorem trim_trim (s : String) : trim (trim s) = trim s := by
  apply String.toList_injective
  rw [toList_trim, toList_trim, trimChars_trimChars]

/-- A text that is not blank is not empty when it is trimmed. -/
theorem trim_ne_empty {s : String} (h : isBlankText s = false) : trim s ≠ "" := by
  intro hempty
  have hnil : trimChars s.toList = [] := by rw [← toList_trim, hempty]; rfl
  rw [(isBlankText_iff s).2 hnil] at h
  cases h

/-- A scope or a key as it is stored: not empty, without blanks at its ends. -/
def IsName (s : String) : Prop := s ≠ "" ∧ trim s = s

instance (s : String) : Decidable (IsName s) :=
  inferInstanceAs (Decidable (s ≠ "" ∧ trim s = s))

theorem isName_trim {s : String} (h : isBlankText s = false) : IsName (trim s) :=
  ⟨trim_ne_empty h, trim_trim s⟩

end Runbook.Text
