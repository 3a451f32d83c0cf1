import Mathlib.Data.List.Forall2
import Mathlib.Tactic.Common
import Runbook.Condition
import Runbook.Proofs.Trimming

/-!
# Words in any case

A text that names something in any case is compared in upper or in lower case. Characters beyond
ASCII have cases too, so it has to be shown that none of them stands in for a letter, and that
blanks do not come and go with the case.

* `upper_eq_and_iff`: the texts that are "and" in upper case.
* `mem_lower_of_blank`: **blanks are kept** in lower case.
* `trim_of_lower_unblank`: a text without blanks in lower case is a trimmed one.
-/

namespace Runbook.Text

/-! ### Single characters -/

theorem eq_of_ofNat_eq {n : Nat} {c : Char} (h : Char.ofNat n = c) (hc : 0 < c.toNat) :
    n = c.toNat := by
  by_cases hn : n.isValidChar
  · rw [← h, Char.ofNat, dif_pos hn]
    rfl
  · rw [Char.ofNat, dif_neg hn] at h
    rw [← h] at hc
    exact absurd hc (by decide)

theorem upperChar_ascii {c : Char} (h : c.toNat < 0x80) :
    upperChar c = [if 97 ≤ c.toNat && c.toNat ≤ 122 then Char.ofNat (c.toNat - 32) else c] := by
  rw [upperChar, if_pos h]

/-- The letters of "and" in upper case. -/
def andLetters : List Char := ['A', 'N', 'D']

/-- No character of several in upper case has letters of "and" only. -/
theorem exists_foreign : ∀ e ∈ upperExpansions, ∃ n ∈ e.2, Char.ofNat n ∉ andLetters := by
  decide +kernel

/-- No run of characters beyond ASCII leads to a letter of "and". -/
theorem not_holds : ∀ r ∈ upperRuns, ∀ n ∈ andLetters.map Char.toNat,
    r.holds ((n : Int) - r.shift).toNat = true → ((n : Int) - r.shift).toNat < 0x80 := by
  decide +kernel

/-- **The letters of "and" in upper case** come from themselves and from their lower case only. -/
theorem upperChar_letter {c : Char} (h : ∀ x ∈ upperChar c, x ∈ andLetters) :
    ∃ x ∈ andLetters, upperChar c = [x] ∧ (c = x ∨ c.toNat = x.toNat + 32) := by
  have hletter : ∀ x ∈ andLetters, 0 < x.toNat ∧ x.toNat < 0x80 := by simp [andLetters]
  by_cases hascii : c.toNat < 0x80
  · rw [upperChar_ascii hascii] at h ⊢
    refine ⟨_, h _ List.mem_cons_self, rfl, ?_⟩
    by_cases hlow : (97 ≤ c.toNat && c.toNat ≤ 122) = true
    · rw [if_pos hlow] at h ⊢
      have hcode := eq_of_ofNat_eq rfl (hletter _ (h _ List.mem_cons_self)).1
      simp only [Bool.and_eq_true, decide_eq_true_eq] at hlow
      omega
    · rw [if_neg hlow]
      exact .inl rfl
  · rw [upperChar, if_neg hascii] at h
    split at h
    · rename_i k cs hfind
      obtain ⟨n, hn, hforeign⟩ := exists_foreign _ (List.mem_of_find?_eq_some hfind)
      exact absurd (h _ (List.mem_map_of_mem hn)) hforeign
    · -- the code of the letter leads back to the character, which no run holds
      have hx := h _ List.mem_cons_self
      have hcode := eq_of_ofNat_eq rfl (hletter _ hx).1
      have hbounds := hletter _ hx
      generalize Char.ofNat ((c.toNat : Int) + shiftIn upperRuns c.toNat).toNat = y at *
      rw [shiftIn] at hcode
      split at hcode
      · rename_i r hr
        have hholds := not_holds r (List.mem_of_find?_eq_some hr) _ (List.mem_map_of_mem hx)
        rw [show ((y.toNat : Int) - r.shift).toNat = c.toNat by omega] at hholds
        exact absurd (hholds (by simpa using List.find?_some hr)) hascii
      · omega

/-! ### The word "and" -/

/-- The word "and", each letter of it in either case. -/
def IsAnd (cs : List Char) : Prop :=
  ∃ a ∈ ['A', 'a'], ∃ n ∈ ['N', 'n'], ∃ d ∈ ['D', 'd'], cs = [a, n, d]

/-- Letters of "and" in upper case, one by one. -/
theorem flatMap_upperChar {cs word : List Char} (h : cs.flatMap upperChar = word)
    (hword : ∀ x ∈ word, x ∈ andLetters) :
    List.Forall₂ (fun c x => c = x ∨ c.toNat = x.toNat + 32) cs word := by
  induction cs generalizing word with
  | nil =>
    rw [← h]
    exact .nil
  | cons c cs ih =>
    rw [List.flatMap_cons] at h
    obtain ⟨x, -, hx, hcase⟩ := upperChar_letter fun x hx =>
      hword x (h ▸ List.mem_append_left _ hx)
    rw [hx] at h
    rw [← h] at hword ⊢
    exact .cons hcase (ih rfl fun y hy => hword y (List.mem_cons_of_mem x hy))

theorem upper_eq_and_iff {s : String} : upper s = "AND" ↔ IsAnd s.toList := by
  have hlist : upper s = "AND" ↔ s.toList.flatMap upperChar = andLetters := by
    rw [upper, ← String.toList_inj, String.toList_ofList]
    exact Iff.rfl
  have hcase : ∀ {c x y : Char}, c = x ∨ c.toNat = x.toNat + 32 → Char.ofNat (x.toNat + 32) = y →
      c ∈ [x, y] := by
    rintro c x y (rfl | hc) hy
    · exact List.mem_cons_self
    · rw [← hc, Char.ofNat_toNat] at hy
      simp [hy]
  rw [hlist]
  constructor
  · intro h
    have hall := flatMap_upperChar h fun x hx => hx
    generalize s.toList = cs at hall
    rcases hall with _ | ⟨ha, _ | ⟨hn, _ | ⟨hd, _ | _⟩⟩⟩
    exact ⟨_, hcase ha rfl, _, hcase hn rfl, _, hcase hd rfl, rfl⟩
  · rintro ⟨a, ha, n, hn, d, hd, hs⟩
    simp only [List.mem_cons, List.not_mem_nil, or_false] at ha hn hd
    rw [hs]
    rcases ha with rfl | rfl <;> rcases hn with rfl | rfl <;> rcases hd with rfl | rfl <;> decide

/-! ### Blanks in lower case -/

/-- The blanks beyond ASCII. -/
def farBlanks : List Nat :=
  [0x85, 0xA0, 0x1680] ++ List.range' 0x2000 11 ++ [0x2028, 0x2029, 0x202F, 0x205F, 0x3000]

theorem shiftIn_farBlanks : ∀ n ∈ farBlanks, n ≠ 0x130 ∧ n ≠ 0x3A3 ∧ shiftIn lowerRuns n = 0 := by
  decide +kernel

theorem isBlank_cases {c : Char} (h : isBlank c = true) : c.toNat ≤ 32 ∨ c.toNat ∈ farBlanks := by
  simp only [isBlank, Bool.or_eq_true, Bool.and_eq_true, decide_eq_true_eq, beq_iff_eq] at h
  simp only [farBlanks, List.mem_append, List.mem_cons, List.not_mem_nil, or_false,
    List.mem_range'_1]
  omega

/-- A blank has no case. -/
theorem lowerChar_blank {c : Char} (h : isBlank c = true) :
    c.toNat ≠ 0x3A3 ∧ lowerChar c = [c] := by
  rcases isBlank_cases h with hlow | hfar
  · refine ⟨by omega, ?_⟩
    have hcapital : ¬ (65 ≤ c.toNat && c.toNat ≤ 90) = true := by
      simp only [Bool.and_eq_true, decide_eq_true_eq]
      omega
    rw [lowerChar, if_pos (show c.toNat < 0x80 by omega), if_neg hcapital]
  · obtain ⟨hdotted, hsigma, hshift⟩ := shiftIn_farBlanks _ hfar
    refine ⟨hsigma, ?_⟩
    by_cases hascii : c.toNat < 0x80
    · have hnone : ∀ n ∈ farBlanks, ¬ n < 0x80 := by decide
      exact absurd hascii (hnone _ hfar)
    · rw [lowerChar, if_neg hascii, if_neg (by simpa using hdotted), hshift, Int.add_zero,
        Int.toNat_natCast, Char.ofNat_toNat]

/-- **Blanks are kept** in lower case. -/
theorem mem_lower_of_blank {c : Char} {s : String} (hc : c ∈ s.toList) (h : isBlank c = true) :
    c ∈ (lower s).toList := by
  have hfrom : ∀ (cs before : List Char), c ∈ cs → c ∈ lowerFrom before cs := by
    intro cs
    induction cs with
    | nil => exact fun _ hc => nomatch hc
    | cons d cs ih =>
      intro before hc
      rw [lowerFrom]
      rcases List.mem_cons.1 hc with rfl | hc
      · obtain ⟨hsigma, hlower⟩ := lowerChar_blank h
        rw [if_neg (by simpa using hsigma), hlower]
        exact List.mem_cons_self
      · exact List.mem_append_right _ (ih (d :: before) hc)
  rw [lower, String.toList_ofList]
  exact hfrom _ [] hc

/-- **A text without blanks in lower case** is a trimmed one. -/
theorem trim_of_lower_unblank {s : String} (h : ∀ c ∈ (lower s).toList, isBlank c = false) :
    trim s = s := by
  have hblank : ∀ c ∈ s.toList, isBlank c = false := by
    intro c hc
    cases hyes : isBlank c with
    | false => rfl
    | true => rw [← hyes, h c (mem_lower_of_blank hc hyes)]
  have hself : trimChars s.toList = s.toList := trimChars_eq_self.2
    ⟨fun c hc => hblank c (List.mem_of_mem_head? hc),
      fun c hc => hblank c (List.mem_of_getLast? hc)⟩
  rw [trim, hself, String.ofList_toList]

end Runbook.Text
