import Mathlib.Data.List.TakeWhile
import Mathlib.Tactic.Common
import Runbook.Number.Reading
import Runbook.Proofs.Digits

/-!
# Texts of numbers

What is read from a text as a floating point number. Blanks around it, digits of other scripts and
underscores between digits are taken away first; of a text without digits only the blanks are, and
of the decimal text of an integer nothing is.

* `dropUnderscores?_eq_self`, `eq_of_dropUnderscores?`: underscores stand in front of digits only.
* `NamesNan`: the texts that name no number, "nan" in any case with a sign or without.
* `read?_eq_nan_iff`: **no other texts are read as NaN**.
* `read?_intText`: **the decimal text of an integer** is read as the number nearest to it.
-/

namespace Runbook

open Runbook.Text Runbook.Number

/-! ### Digits of all scripts -/

theorem digitValue?_lt {c : Char} {value : Nat} (h : digitValue? c = some value) : value < 10 := by
  unfold digitValue? at h
  simp only at h
  have hzero : '0'.toNat = 48 := rfl
  have hnine : '9'.toNat = 57 := rfl
  split at h
  · split at h
    · rename_i hdigit
      simp only [isAsciiDigit, Bool.and_eq_true, decide_eq_true_eq] at hdigit
      have hvalue := Option.some.inj h
      omega
    · cases h
  · obtain ⟨first, hfind, hvalue⟩ := Option.map_eq_some_iff.1 h
    have hrange := List.find?_some hfind
    simp only [Bool.and_eq_true, decide_eq_true_eq] at hrange
    omega

/-- A character that becomes no digit is left as it is. -/
theorem eq_of_asciiDigit {c d : Char} (h : asciiDigit c = d) (hd : isAsciiDigit d = false) :
    c = d := by
  unfold asciiDigit at h
  split at h
  · rename_i value hvalue
    rw [← h, isAsciiDigit_digitChar (digitValue?_lt hvalue)] at hd
    cases hd
  · exact h

theorem asciiDigit_of_isAsciiDigit {c : Char} (h : isAsciiDigit c = true) : asciiDigit c = c := by
  have hcode : '0'.toNat ≤ c.toNat ∧ c.toNat ≤ '9'.toNat := by
    simpa only [isAsciiDigit, Bool.and_eq_true, decide_eq_true_eq] using h
  have hzero : '0'.toNat = 48 := rfl
  have hnine : '9'.toNat = 57 := rfl
  have hvalue : digitValue? c = some (c.toNat - 48) := by
    unfold digitValue?
    simp only
    rw [if_pos (by omega), if_pos h]
    rfl
  rw [asciiDigit, hvalue]
  show digitChar (c.toNat - 48) = c
  have hback := toNat_digitChar (n := c.toNat - 48) (by omega)
  exact Char.toNat_inj.1 (by omega)

/-! ### Underscores -/

/-- A text without underscores loses none. -/
theorem dropUnderscores?_eq_self {cs : List Char} (h : '_' ∉ cs) (afterDigit : Bool) :
    dropUnderscores? afterDigit cs = some cs := by
  fun_induction dropUnderscores? afterDigit cs with
  | case1 => rfl
  | case2 => exact absurd List.mem_cons_self h
  | case3 => exact absurd List.mem_cons_self h
  | case4 afterDigit c cs hsplit hc => exact absurd (beq_iff_eq.1 hc ▸ List.mem_cons_self) h
  | case5 afterDigit c cs hsplit hc ih =>
    rw [ih fun hcs => h (List.mem_cons_of_mem c hcs)]
    rfl

/-- **Underscores stand in front of digits**: what is left without digits had no underscores. -/
theorem eq_of_dropUnderscores? {cs left : List Char} {afterDigit : Bool}
    (h : dropUnderscores? afterDigit cs = some left) (hleft : ∀ c ∈ left, isAsciiDigit c = false) :
    cs = left := by
  fun_induction dropUnderscores? afterDigit cs generalizing left with
  | case1 afterDigit => exact Option.some.inj h
  | case2 afterDigit c cs hdigit ih =>
    obtain ⟨rest, -, rfl⟩ := Option.map_eq_some_iff.1 h
    have hc : isAsciiDigit c = true := (Bool.and_eq_true_iff.1 hdigit).2
    rw [hleft c List.mem_cons_self] at hc
    cases hc
  | case3 => cases h
  | case4 => cases h
  | case5 afterDigit c cs hsplit hc ih =>
    obtain ⟨rest, hrest, rfl⟩ := Option.map_eq_some_iff.1 h
    rw [ih hrest fun d hd => hleft d (List.mem_cons_of_mem c hd)]

/-! ### Words -/

/-- The signs in front of a number. -/
def signs : List (List Char) := [[], ['+'], ['-']]

/-- **The texts that name no number**: "nan" in any case, with a sign or without. -/
def NamesNan (s : String) : Prop :=
  ∃ sign ∈ signs, ∃ word : List Char, word.map lowerAscii = "nan".toList ∧
    trimNumber s.toList = sign ++ word

/-- The letters of "nan" in either case. -/
def nanLetters : List Char := ['n', 'a', 'N', 'A']

theorem mem_nanLetters {c : Char} (h : lowerAscii c ∈ "nan".toList) : c ∈ nanLetters := by
  have hlower : lowerAscii c = 'n' ∨ lowerAscii c = 'a' := by
    simp at h
    tauto
  unfold lowerAscii at hlower
  split at hlower
  · rename_i hupper
    have hrange : 65 ≤ c.toNat ∧ c.toNat ≤ 90 := by
      simpa [Char.le_def, UInt32.le_iff_toNat_le] using hupper
    have hcode : (Char.ofNat (c.toNat + 32)).toNat = c.toNat + 32 := by
      have hvalid : (c.toNat + 32).isValidChar := .inl (by omega)
      rw [Char.ofNat, dif_pos hvalid]
      rfl
    rcases hlower with hn | ha
    · have hN : c.toNat = 'N'.toNat := by
        rw [hn] at hcode
        have : 'n'.toNat = 'N'.toNat + 32 := rfl
        omega
      simp [nanLetters, Char.toNat_inj.1 hN]
    · have hA : c.toNat = 'A'.toNat := by
        rw [ha] at hcode
        have : 'a'.toNat = 'A'.toNat + 32 := rfl
        omega
      simp [nanLetters, Char.toNat_inj.1 hA]
  · rcases hlower with rfl | rfl <;> simp [nanLetters]

/-- Signs and the letters of "nan" are read as they are. -/
theorem plain_nanLetters : ∀ c ∈ '+' :: '-' :: nanLetters,
    c ≠ '_' ∧ asciiDigit c = c ∧ isAsciiDigit c = false := by
  simp only [nanLetters, List.mem_cons, List.not_mem_nil, or_false, forall_eq_or_imp, forall_eq]
  decide

theorem mem_sign {sign : List Char} (h : sign ∈ signs) {c : Char} (hc : c ∈ sign) :
    c ∈ '+' :: '-' :: nanLetters := by
  simp only [signs, List.mem_cons, List.not_mem_nil, or_false] at h
  rcases h with rfl | rfl | rfl
  · cases hc
  · rw [List.mem_singleton.1 hc]
    exact List.mem_cons_self
  · rw [List.mem_singleton.1 hc]
    exact List.mem_cons_of_mem _ List.mem_cons_self

/-- A signed word is made of signs and letters of "nan". -/
theorem mem_signedNan {sign word : List Char} (hsign : sign ∈ signs)
    (hword : word.map lowerAscii = "nan".toList) {c : Char} (hc : c ∈ sign ++ word) :
    c ∈ '+' :: '-' :: nanLetters := by
  rcases List.mem_append.1 hc with hc | hc
  · exact mem_sign hsign hc
  · have hlower : lowerAscii c ∈ "nan".toList := hword ▸ List.mem_map_of_mem hc
    exact List.mem_cons_of_mem _ (List.mem_cons_of_mem _ (mem_nanLetters hlower))

theorem readSign_spec (cs : List Char) : ∃ sign ∈ signs, cs = sign ++ (readSign cs).2 := by
  unfold readSign
  split
  · exact ⟨['+'], by simp [signs], rfl⟩
  · exact ⟨['-'], by simp [signs], rfl⟩
  · exact ⟨[], by simp [signs], rfl⟩

theorem readSign_signed {sign word : List Char} (hsign : sign ∈ signs)
    (hword : ∀ c, word.head? = some c → c ≠ '+' ∧ c ≠ '-') :
    (readSign (sign ++ word)).2 = word := by
  simp only [signs, List.mem_cons, List.not_mem_nil, or_false] at hsign
  rcases hsign with rfl | rfl | rfl
  · rw [List.nil_append]
    unfold readSign
    split
    · exact absurd rfl (hword '+' rfl).1
    · exact absurd rfl (hword '-' rfl).2
    · rfl
  · rfl
  · rfl

/-- Without digits, nothing but blanks is taken off. -/
theorem eq_of_map_asciiDigit {cs left : List Char} (h : cs.map asciiDigit = left)
    (hleft : ∀ c ∈ left, isAsciiDigit c = false) : cs = left := by
  induction cs generalizing left with
  | nil => exact h
  | cons c cs ih =>
    subst h
    have hc : c = asciiDigit c := eq_of_asciiDigit rfl (hleft _ List.mem_cons_self)
    have hcs := ih rfl fun d hd => hleft d (List.mem_cons_of_mem _ hd)
    rw [List.map_cons, ← hc, ← hcs]

namespace Binary64

/-- A decimal number is no NaN. -/
theorem ofDecimal_ne_nan (negative : Bool) (digits : Nat) (exponent : Int) :
    ofDecimal negative digits exponent ≠ .nan := by
  have hzero : ∀ negative, zero negative ≠ .nan := fun _ h => by cases h
  have hpack : ∀ mantissa e, pack negative mantissa e ≠ .nan := by
    intro mantissa e
    unfold pack
    simp only
    generalize (if mantissa = Nat.pow 2 53 then e + 1 else e) = carried
    split <;> simp
  have hratio : ∀ num den, ofRatio negative num den ≠ .nan := by
    intro num den
    unfold ofRatio
    simp only
    split
    · exact hzero _
    · exact hpack _ _
  unfold ofDecimal
  split
  · exact hzero _
  · split
    · simp
    · split
      · exact hzero _
      · exact hratio _ _

/-- What a text without underscores and digits of other scripts is read as. -/
def ofPlain? (cs : List Char) : Option Binary64 :=
  let (negative, body) := readSign cs
  let word := String.ofList (body.map lowerAscii)
  if word == "nan" then some .nan
  else if word == "inf" || word == "infinity" then some (.infinity negative)
  else (readDecimal? body).map fun (ds, e) => .ofDecimal negative (natOfDigits ds) e

theorem read?_eq (s : String) :
    read? s = (dropUnderscores? false (plainChars s.toList)).bind ofPlain? := by
  unfold read?
  cases dropUnderscores? false (plainChars s.toList) with
  | none => rfl
  | some cs =>
    unfold ofPlain?
    simp only [Option.bind_eq_bind, Option.bind_some]
    congr 2
    cases readDecimal? (readSign cs).2 <;> rfl

theorem ofPlain?_eq_nan_iff {cs : List Char} :
    ofPlain? cs = some .nan ↔ (readSign cs).2.map lowerAscii = "nan".toList := by
  have hword : (String.ofList ((readSign cs).2.map lowerAscii) == "nan") = true ↔
      (readSign cs).2.map lowerAscii = "nan".toList := by
    rw [beq_iff_eq, ← String.toList_inj, String.toList_ofList]
  rw [← hword]
  unfold ofPlain?
  simp only
  constructor
  · intro h
    by_contra hno
    rw [if_neg hno] at h
    split at h
    · cases h
    · obtain ⟨decimal, -, hnan⟩ := Option.map_eq_some_iff.1 h
      exact ofDecimal_ne_nan _ _ _ hnan
  · intro h
    rw [if_pos h]

/-- **A text is read as NaN** exactly if it names none. -/
theorem read?_eq_nan_iff {s : String} : read? s = some .nan ↔ NamesNan s := by
  rw [read?_eq, Option.bind_eq_some_iff]
  constructor
  · rintro ⟨cs, hcs, hnan⟩
    have hword := ofPlain?_eq_nan_iff.1 hnan
    obtain ⟨sign, hsign, hsplit⟩ := readSign_spec cs
    have hnone : ∀ c ∈ cs, isAsciiDigit c = false := by
      intro c hc
      rw [hsplit] at hc
      exact (plain_nanLetters c (mem_signedNan hsign hword hc)).2.2
    have htrim := eq_of_map_asciiDigit (eq_of_dropUnderscores? hcs hnone) hnone
    exact ⟨sign, hsign, _, hword, htrim.trans hsplit⟩
  · rintro ⟨sign, hsign, word, hword, htrim⟩
    have hplain : ∀ c ∈ sign ++ word, c ≠ '_' ∧ asciiDigit c = c ∧ isAsciiDigit c = false :=
      fun c hc => plain_nanLetters c (mem_signedNan hsign hword hc)
    have hsame : plainChars s.toList = sign ++ word := by
      rw [plainChars, htrim]
      exact (List.map_congr_left fun c hc => (hplain c hc).2.1).trans (List.map_id _)
    have hunscored : '_' ∉ sign ++ word := fun h => (hplain _ h).1 rfl
    refine ⟨sign ++ word, by rw [hsame, dropUnderscores?_eq_self hunscored], ?_⟩
    have hhead : ∀ c, word.head? = some c → c ≠ '+' ∧ c ≠ '-' := by
      intro c hc
      have hletter : c ∈ nanLetters :=
        mem_nanLetters (hword ▸ List.mem_map_of_mem (List.mem_of_head? hc))
      constructor <;> rintro rfl <;> exact absurd hletter (by decide)
    rw [ofPlain?_eq_nan_iff, readSign_signed hsign hhead, hword]

end Binary64

/-! ### Integers -/

/-- The sign in front of the digits of an integer. -/
def signOf (n : Int) : List Char :=
  if n < 0 then ['-'] else []

theorem toList_intText (n : Int) : (intText n).toList = signOf n ++ digitsOfNat n.natAbs := by
  cases n with
  | ofNat n =>
    have hsign : signOf (Int.ofNat n) = [] := if_neg (by simp)
    rw [hsign, List.nil_append]
    exact toList_intText_ofNat n
  | negSucc n =>
    have hsign : signOf (Int.negSucc n) = ['-'] := if_pos (Int.negSucc_lt_zero n)
    rw [hsign, Int.natAbs_negSucc]
    exact toList_intText_negSucc n

/-- A character of the decimal text of an integer. -/
theorem integerChar_cases {n : Int} {c : Char} (hc : c ∈ (intText n).toList) :
    c = '-' ∨ isAsciiDigit c = true := by
  rw [toList_intText, List.mem_append] at hc
  rcases hc with hc | hc
  · left
    unfold signOf at hc
    split at hc
    · exact List.mem_singleton.1 hc
    · cases hc
  · exact .inr (isAsciiDigit_of_mem_digitsOfNat hc)

theorem isNumberBlank_digit {c : Char} (h : isAsciiDigit c = true) : isNumberBlank c = false := by
  rw [isNumberBlank, isBlank_digit h, Bool.false_and]

/-- A text without blanks is trimmed. -/
theorem trimNumber_eq_self {cs : List Char} (h : ∀ c ∈ cs, isNumberBlank c = false) :
    trimNumber cs = cs := by
  have hdrop : ∀ {ds : List Char}, (∀ c ∈ ds, isNumberBlank c = false) →
      ds.dropWhile isNumberBlank = ds := by
    intro ds hds
    cases ds with
    | nil => rfl
    | cons c ds => rw [List.dropWhile_cons, hds c List.mem_cons_self, if_neg Bool.false_ne_true]
  rw [trimNumber, hdrop h, hdrop fun c hc => h c (List.mem_reverse.1 hc), List.reverse_reverse]

/-- **The decimal text of an integer** is read from as it is. -/
theorem plainChars_intText (n : Int) :
    dropUnderscores? false (plainChars (intText n).toList) = some (intText n).toList := by
  have hblank : ∀ c ∈ (intText n).toList, isNumberBlank c = false := by
    intro c hc
    rcases integerChar_cases hc with rfl | hdigit
    · decide
    · exact isNumberBlank_digit hdigit
  have hplain : ∀ c ∈ (intText n).toList, asciiDigit c = c := by
    intro c hc
    rcases integerChar_cases hc with rfl | hdigit
    · decide
    · exact asciiDigit_of_isAsciiDigit hdigit
  have hunscored : '_' ∉ (intText n).toList := by
    intro hc
    rcases integerChar_cases hc with h | h <;> revert h <;> decide
  rw [plainChars, trimNumber_eq_self hblank, List.map_congr_left hplain, List.map_id',
    dropUnderscores?_eq_self hunscored]

theorem readSign_integer (n : Int) :
    readSign (signOf n ++ digitsOfNat n.natAbs) = (decide (n < 0), digitsOfNat n.natAbs) := by
  by_cases hn : n < 0
  · rw [signOf, if_pos hn, decide_eq_true hn]
    rfl
  · obtain ⟨c, ds, hds⟩ := List.exists_cons_of_ne_nil (digitsOfNat_ne_nil n.natAbs)
    have hc : isAsciiDigit c = true :=
      isAsciiDigit_of_mem_digitsOfNat (n := n.natAbs) (hds ▸ List.mem_cons_self)
    rw [signOf, if_neg hn, decide_eq_false hn, hds, List.nil_append]
    unfold readSign
    split
    · rename_i heq
      rw [(List.cons.inj heq).1] at hc
      exact absurd hc (by decide)
    · rename_i heq
      rw [(List.cons.inj heq).1] at hc
      exact absurd hc (by decide)
    · rfl

theorem lowerAscii_digit {c : Char} (h : isAsciiDigit c = true) : lowerAscii c = c := by
  have hnine : '9'.toNat = 57 := rfl
  simp only [isAsciiDigit, Bool.and_eq_true, decide_eq_true_eq] at h
  have hlow : ¬ ('A' ≤ c && c ≤ 'Z') = true := by
    simp only [Char.le_def, UInt32.le_iff_toNat_le, Bool.and_eq_true, decide_eq_true_eq, not_and]
    intro hle
    have hcode : 65 ≤ c.toNat := hle
    omega
  rw [lowerAscii, if_neg hlow]

theorem readDecimal?_digits (n : Nat) : readDecimal? (digitsOfNat n) = some (digitsOfNat n, 0) := by
  have hall : ∀ c ∈ digitsOfNat n, isAsciiDigit c = true := fun c => isAsciiDigit_of_mem_digitsOfNat
  have hspan : spanDigits (digitsOfNat n) = (digitsOfNat n, []) := by
    rw [spanDigits, List.takeWhile_eq_self_iff.2 hall, List.dropWhile_eq_nil_iff.2 hall]
  have hsome : (digitsOfNat n).isEmpty = false := by
    rw [List.isEmpty_eq_false_iff]
    exact digitsOfNat_ne_nil n
  unfold readDecimal?
  simp only [hspan, hsome, Bool.false_and, Bool.false_eq_true, if_false]
  simp [readExponent?]

namespace Binary64

/-- Digits are no word. -/
theorem ofPlain?_digits {cs : List Char} {negative : Bool} {n : Nat}
    (h : readSign cs = (negative, digitsOfNat n)) :
    ofPlain? cs = some (.ofDecimal negative n 0) := by
  obtain ⟨c, ds, hds⟩ := List.exists_cons_of_ne_nil (digitsOfNat_ne_nil n)
  have hc : isAsciiDigit c = true :=
    isAsciiDigit_of_mem_digitsOfNat (n := n) (hds ▸ List.mem_cons_self)
  have hword : ∀ word : String, isAsciiDigit (word.toList.headD '0') = false →
      (String.ofList ((digitsOfNat n).map lowerAscii) == word) = false := by
    intro word hhead
    rw [beq_eq_false_iff_ne]
    rintro rfl
    rw [String.toList_ofList, hds] at hhead
    rw [List.map_cons, List.headD_cons, lowerAscii_digit hc, hc] at hhead
    cases hhead
  unfold ofPlain?
  simp only [h]
  rw [hword "nan" (by decide), hword "inf" (by decide), hword "infinity" (by decide),
    readDecimal?_digits, Option.map_some, natOfDigits_digitsOfNat]
  rfl

/-- **The decimal text of an integer** is read as the number nearest to the integer. -/
theorem read?_intText (n : Int) : read? (intText n) = some (ofInt n) := by
  rw [read?_eq, plainChars_intText, Option.bind_some, toList_intText,
    ofPlain?_digits (readSign_integer n)]
  have hwhole : ofDecimal (decide (n < 0)) n.natAbs 0 = ofInt n := by
    unfold ofDecimal ofInt
    split
    · rename_i hzero
      unfold ofRatio
      rw [if_pos hzero]
    · rw [if_neg (by decide), if_neg (by omega)]
      simp [scaleRatio]
  rw [hwhole]

end Binary64

end Runbook
