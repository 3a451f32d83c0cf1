import Mathlib.Data.List.DropRight
import Runbook.Proofs.JsonGrammar
import Runbook.Proofs.JsonWriting

/-!
# The texts of floating point numbers

A finite number is written by its shortest digits, with a point among them or with an exponent
behind them. Its digits do not begin with a zero, and something stands on either side of the point,
so its text is one that JSON has for a number, and never one for an integer.

* `shortest_ne_zero`: the shortest digits of a number other than zero.
* `IsSignificant`, `isSignificant_dropEndZeros`: digits that do not begin with a zero.
* `IsFloatText`: a numeral with a fraction or an exponent.
* `isFloatText_positional`, `isFloatText_scientific`: the two layouts.
* `written_float`: **every floating point number is written as a number**.
-/

namespace Runbook

open Runbook.Text Runbook.Number

namespace Binary64

/-! ### The shortest digits -/

section Shortest

variable {x : Binary64} {num den : Nat} {order exponent : Int} {fuel count : Nat}

/-- No digits read back as a number other than zero. -/
theorem neighbour?_ne_zero (hx : ∀ negative e, x ≠ .finite negative 0 e) {d : Nat}
    (h : neighbour? x num den exponent = some d) : d ≠ 0 := by
  have hreads : ∀ n, ofDecimal x.isNegative n exponent = x → n ≠ 0 := by
    rintro n hn rfl
    rw [ofDecimal, if_pos rfl] at hn
    exact hx _ _ hn.symm
  unfold neighbour? at h
  simp only at h
  split at h
  · rename_i hnearest
    cases h
    exact hreads _ (by simpa using hnearest)
  · split at h
    · rename_i hbelow
      cases h
      exact hreads _ (by simpa using hbelow)
    · split at h
      · rename_i habove
        cases h
        exact hreads _ (by simpa using habove)
      · cases h

theorem shortestFrom_ne_zero (hx : ∀ negative e, x ≠ .finite negative 0 e) :
    (shortestFrom x num den order fuel count).1 ≠ 0 := by
  induction fuel generalizing count with
  | zero =>
    have hpos : 1 ≤ max 1 (roundQuotient num den) := Nat.le_max_left _ _
    rw [shortestFrom]
    omega
  | succ fuel ih =>
    rw [shortestFrom]
    split
    · rename_i h
      exact neighbour?_ne_zero hx h
    · exact ih

theorem shortest_ne_zero {mantissa : Nat} (hmantissa : mantissa ≠ 0) (negative : Bool)
    (exponent : Int) :
    (shortest (.finite negative mantissa exponent) mantissa exponent).1 ≠ 0 := by
  refine shortestFrom_ne_zero fun other e h => ?_
  injection h with _ hzero _
  exact hmantissa hzero

end Shortest

end Binary64

namespace Json

/-! ### The layouts of digits -/

/-- Digits that do not begin with a zero, one at least. -/
def IsSignificant (ds : List Char) : Prop :=
  IsDigits ds ∧ ds.head? ≠ some '0'

/-- The text of a number with a fraction or an exponent, without its sign. -/
inductive IsFloatText : List Char → Prop
  | mk {whole fraction power} (hwhole : IsWholePart whole) (hfraction : IsFractionPart fraction)
    (hpower : IsPowerPart power) (h : fraction ≠ [] ∨ power ≠ []) :
    IsFloatText (whole ++ (fraction ++ power))

section Layouts

variable {ds cs : List Char} {n : Nat} {point exponent : Int}

theorem IsDigits.append {more : List Char} (h : IsDigits ds)
    (hmore : ∀ c ∈ more, isAsciiDigit c = true) : IsDigits (ds ++ more) where
  ne_nil := by simp [h.ne_nil]
  digits := fun c hc => (List.mem_append.1 hc).elim (h.digits c) (hmore c)

theorem isAsciiDigit_zeros {c : Char} {k : Nat} (h : c ∈ List.replicate k '0') :
    isAsciiDigit c = true := by
  rw [(List.mem_replicate.1 h).2]
  rfl

theorem isDigits_zero : IsDigits ['0'] :=
  ⟨List.cons_ne_nil _ _, fun _ hc => isAsciiDigit_zeros (k := 1) hc⟩

theorem isDigits_digitsOfNat (n : Nat) : IsDigits (digitsOfNat n) :=
  ⟨digitsOfNat_ne_nil n, fun _ => isAsciiDigit_of_mem_digitsOfNat⟩

theorem isDigits_paddedNat (width n : Nat) : IsDigits (paddedNat width n).toList := by
  rw [paddedNat, String.toList_ofList]
  exact ⟨by simp [digitsOfNat_ne_nil],
    fun c hc => (List.mem_append.1 hc).elim isAsciiDigit_zeros isAsciiDigit_of_mem_digitsOfNat⟩

theorem isSignificant_digitsOfNat (hn : n ≠ 0) : IsSignificant (digitsOfNat n) := by
  obtain ⟨c, ds, hds, hc⟩ := head_digitsOfNat hn
  refine ⟨isDigits_digitsOfNat n, ?_⟩
  rw [hds, List.head?_cons]
  exact fun h => hc (Option.some.inj h)

/-- A front of significant digits is significant. -/
theorem IsSignificant.front (h : IsSignificant ds) (hcs : cs <+: ds) (hne : cs ≠ []) :
    IsSignificant cs := by
  obtain ⟨rest, rfl⟩ := hcs
  obtain ⟨c, cs, rfl⟩ := List.exists_cons_of_ne_nil hne
  exact ⟨⟨hne, fun d hd => h.1.digits d (List.mem_append_left rest hd)⟩, h.2⟩

theorem dropEndZeros_eq (ds : List Char) :
    Binary64.dropEndZeros ds = ds.rdropWhile (· == '0') :=
  rfl

theorem isSignificant_dropEndZeros (h : IsSignificant ds) :
    IsSignificant (Binary64.dropEndZeros ds) := by
  rw [dropEndZeros_eq]
  refine h.front (List.rdropWhile_prefix _ _) fun hnil => ?_
  -- the first of the digits is no zero, so it is not dropped
  obtain ⟨c, t, rfl⟩ := List.exists_cons_of_ne_nil h.1.ne_nil
  have hzero := List.rdropWhile_eq_nil_iff.1 hnil c List.mem_cons_self
  exact h.2 (by rw [List.head?_cons, eq_of_beq hzero])

/-- **Digits with a point** among them or around them. -/
theorem isFloatText_positional (h : IsSignificant ds) (point : Int) :
    IsFloatText (Binary64.positional ds point) := by
  have hfloat : ∀ whole fraction, IsWholePart whole → IsDigits fraction →
      IsFloatText (whole ++ '.' :: fraction) := by
    intro whole fraction hwhole hfraction
    have htext := IsFloatText.mk hwhole (.inr ⟨fraction, hfraction, rfl⟩) (.inl rfl)
      (.inl (List.cons_ne_nil _ _))
    rwa [List.append_nil] at htext
  unfold Binary64.positional
  split
  · refine hfloat ['0'] _ (.inl rfl) ⟨by simp [h.1.ne_nil], fun c hc => ?_⟩
    exact (List.mem_append.1 hc).elim isAsciiDigit_zeros (h.1.digits c)
  · rename_i hpoint
    simp only
    split
    · refine hfloat (ds ++ List.replicate (point.toNat - ds.length) '0') ['0'] (.inr ⟨?_, ?_⟩)
        isDigits_zero
      · exact h.1.append fun c => isAsciiDigit_zeros
      · obtain ⟨c, t, rfl⟩ := List.exists_cons_of_ne_nil h.1.ne_nil
        exact h.2
    · rename_i hinside
      have hfront : ds.take point.toNat ≠ [] := by
        rw [Ne, List.take_eq_nil_iff, not_or]
        exact ⟨by omega, h.1.ne_nil⟩
      refine hfloat _ _ (.inr (h.front (List.take_prefix _ _) hfront)) ⟨?_, fun c hc => ?_⟩
      · rw [Ne, List.drop_eq_nil_iff]
        omega
      · exact h.1.digits c (List.mem_of_mem_drop hc)

/-- **Digits with an exponent**, and with a point behind the first if there are others. -/
theorem isFloatText_scientific (h : IsSignificant ds) (exponent : Int) :
    IsFloatText (Binary64.scientific ds exponent) := by
  have hpower : IsPowerPart ('e' :: (if exponent < 0 then '-' else '+') ::
      (paddedNat 2 exponent.natAbs).toList) := by
    refine .inr ⟨'e', [if exponent < 0 then '-' else '+'], decide (exponent < 0), _, .inl rfl, ?_,
      isDigits_paddedNat 2 exponent.natAbs, rfl⟩
    by_cases hnegative : exponent < 0
    · exact .inr ⟨by rw [if_pos hnegative], by simpa using hnegative⟩
    · exact .inl ⟨.inr (by rw [if_neg hnegative]), by simpa using hnegative⟩
  obtain ⟨d, t, rfl⟩ := List.exists_cons_of_ne_nil h.1.ne_nil
  have hwhole : IsWholePart [d] := .inr (h.front ⟨t, rfl⟩ (List.cons_ne_nil _ _))
  unfold Binary64.scientific
  cases t with
  | nil => exact .mk hwhole (.inl rfl) hpower (.inr (List.cons_ne_nil _ _))
  | cons e rest =>
    have hfraction : IsFractionPart ('.' :: e :: rest) :=
      .inr ⟨e :: rest, ⟨List.cons_ne_nil _ _, fun c hc => h.1.digits c (List.mem_cons_of_mem d hc)⟩,
        rfl⟩
    exact .mk hwhole hfraction hpower (.inl (List.cons_ne_nil _ _))

theorem isFloatText_unsigned (mantissa : Nat) (exponent : Int) :
    IsFloatText (Binary64.unsignedText mantissa exponent) := by
  unfold Binary64.unsignedText
  split
  · have hzero : IsFloatText (['0'] ++ (['.', '0'] ++ [])) :=
      .mk (.inl rfl) (.inr ⟨['0'], isDigits_zero, rfl⟩) (.inl rfl) (.inl (List.cons_ne_nil _ _))
    exact hzero
  · rename_i hmantissa
    have hdigits := isSignificant_dropEndZeros (isSignificant_digitsOfNat
      (Binary64.shortest_ne_zero hmantissa false exponent))
    simp only
    split
    · exact isFloatText_positional hdigits _
    · exact isFloatText_scientific hdigits _

end Layouts

/-! ### Numbers that are written -/

/-- How the text of a number with a fraction or an exponent is read. -/
theorem IsFloatText.reads {cs : List Char} (h : IsFloatText cs) (negative : Bool) :
    ∃ x, ∀ u, Ends u → ReadsNumber negative (cs ++ u) (.float x) u := by
  obtain @⟨whole, fraction, power, hwhole, hfraction, hpower, hsome⟩ := h
  obtain ⟨f, hf, hfractions⟩ := exists_readsFraction hfraction
  obtain ⟨p, hp, hpowers⟩ := exists_readsPower hpower
  obtain ⟨x, hx⟩ : ∃ x, numberValue negative whole f p = .ok (.float x) := by
    have hnumber : (f.isNone && p.isNone) = false := by
      rcases hsome with h | h
      · simp [Option.isNone_eq_false_iff.2 (hf h)]
      · simp [Option.isNone_eq_false_iff.2 (hp h)]
    exact ⟨_, by rw [numberValue, hnumber]; rfl⟩
  refine ⟨x, fun u hu => ?_⟩
  have hnofraction := hpower.noFraction hu
  rw [List.append_assoc, List.append_assoc]
  exact .mk (readsWhole_part hwhole (hfraction.noDigit hnofraction)) (hfractions _ hnofraction)
    (hpowers u hu) hx

/-- **Every floating point number is written as one**, or as the word for what is none. -/
theorem written_float (x : Binary64) : ∃ y, Written (floatText x).toList (.float y) := by
  cases x with
  | nan => exact ⟨.nan, written_word (by simp [words, floatText])⟩
  | infinity negative =>
    refine ⟨.infinity negative, ?_⟩
    cases negative <;> exact written_word (by simp [words, floatText])
  | finite negative mantissa exponent =>
    have htext := isFloatText_unsigned mantissa exponent
    obtain ⟨y, hreads⟩ := htext.reads negative
    refine ⟨y, ?_⟩
    rw [floatText, Binary64.finiteText, String.toList_ofList]
    cases negative with
    | true =>
      refine written_scalar rfl ⟨by decide, by decide, by decide, by decide⟩ (by decide)
        fun u hu => ?_
      exact .negative rfl (hreads u (hu rfl))
    | false =>
      have hends : Ends [] := by
        intro c t h
        cases h
      obtain ⟨c, t, hcs, hc⟩ := (hreads [] hends).exists_digit
      rw [List.append_nil] at hcs
      have hbegins : Begins c :=
        ⟨(beginsScalar_digit hc).2.2.2, (by rintro rfl; cases hc), (by rintro rfl; cases hc)⟩
      exact written_scalar hcs (beginsScalar_digit hc) hbegins fun u hu =>
        .positive (hreads u (hu rfl))

end Json

end Runbook
