import Mathlib.Data.List.TakeWhile
import Mathlib.Tactic.Common
import Runbook.Json.Reader

/-!
# Reading JSON takes up a front of the text

A value that is read takes up a front of the text, and the same front is read as the same value
whatever stands behind it; only a number must not go on in what stands behind. The fuel does not
matter either, as long as there is as much of it as the front has characters.

* `readNumber_front`, `readString_front`: the fronts of numbers and strings.
* `readValueWith_front`: the fronts of values, of items up to their closing bracket, and of members
  up to their closing brace, all at once by induction on the fuel.
* `readValue_front`: the fronts of values.
* `readValue_cut`: no part of an object that ends before its closing brace is a value.
-/

namespace Runbook.Json

open Runbook.Text Runbook.Number

/-- White space, and nothing else. -/
def IsGap (cs : List Char) : Prop :=
  ∀ c ∈ cs, isSpace c = true

/-- A character that a number can go on with. -/
def goesOn (c : Char) : Bool :=
  isAsciiDigit c || c == '.' || c == 'e' || c == 'E'

/-- Text that no number goes on with. -/
def Ends (u : List Char) : Prop :=
  ∀ c t, u = c :: t → goesOn c = false

/-- A number, which shows only by what stands behind it that it is complete. -/
def isNumber : Value → Bool
  | .int _ => true
  | .float _ => true
  | _ => false

/-- What may stand behind a value. -/
def MayFollow (v : Value) (u : List Char) : Prop :=
  isNumber v = true → Ends u

/-! ### White space -/

theorem isGap_nil : IsGap [] := fun _ hc => nomatch hc

theorem IsGap.append {a b : List Char} (ha : IsGap a) (hb : IsGap b) : IsGap (a ++ b) := by
  intro c hc
  rcases List.mem_append.1 hc with hc | hc
  · exact ha c hc
  · exact hb c hc

theorem skipSpace_gap {gap : List Char} (h : IsGap gap) (cs : List Char) :
    skipSpace (gap ++ cs) = skipSpace cs :=
  List.dropWhile_append_of_pos h

theorem skipSpace_cons {c : Char} (h : isSpace c = false) (cs : List Char) :
    skipSpace (c :: cs) = c :: cs := by
  rw [skipSpace, List.dropWhile_cons_of_neg (by simp [h])]

theorem skipSpace_of_gap {gap : List Char} (h : IsGap gap) : skipSpace gap = [] :=
  List.dropWhile_eq_nil_iff.2 h

/-- A text is white space and what is left behind it. -/
theorem exists_gap (cs : List Char) : ∃ gap, IsGap gap ∧ cs = gap ++ skipSpace cs :=
  ⟨cs.takeWhile isSpace, fun _ hc => List.mem_takeWhile_imp hc,
    (List.takeWhile_append_dropWhile).symm⟩

theorem isSpace_head_skipSpace {cs t : List Char} {c : Char} (h : skipSpace cs = c :: t) :
    isSpace c = false := by
  have := List.head?_dropWhile_not isSpace cs
  rw [← skipSpace, h] at this
  simpa using this

/-- White space in front of text that begins with something else. -/
theorem skipSpace_gap_cons {gap : List Char} {c : Char} (h : IsGap gap) (hc : isSpace c = false)
    (cs : List Char) : skipSpace (gap ++ c :: cs) = c :: cs := by
  rw [skipSpace_gap h, skipSpace_cons hc]

theorem goesOn_of_isSpace {c : Char} (h : isSpace c = true) : goesOn c = false := by
  simp only [isSpace, Bool.or_eq_true, beq_iff_eq] at h
  rcases h with ((rfl | rfl) | rfl) | rfl <;> decide

/-- White space in front of a character that no number goes on with ends a number. -/
theorem ends_gap_cons {gap : List Char} {c : Char} (h : IsGap gap) (hc : goesOn c = false)
    (cs : List Char) : Ends (gap ++ c :: cs) := by
  intro d t hd
  cases gap with
  | nil =>
    obtain ⟨rfl, -⟩ := List.cons.inj hd
    exact hc
  | cons g gap =>
    obtain ⟨rfl, -⟩ := List.cons.inj hd
    exact goesOn_of_isSpace (h g (by simp))

/-! ### Numbers -/

/-- Text that does not begin with a digit. -/
def NoDigit (u : List Char) : Prop :=
  ∀ c t, u = c :: t → isAsciiDigit c = false

theorem Ends.noDigit {u : List Char} (h : Ends u) : NoDigit u := by
  intro c t hu
  have := h c t hu
  simp only [goesOn, Bool.or_eq_false_iff] at this
  exact this.1.1.1

theorem spanDigits_append {ds u : List Char} (hds : ∀ c ∈ ds, isAsciiDigit c = true)
    (hu : NoDigit u) : spanDigits (ds ++ u) = (ds, u) := by
  rw [spanDigits, List.takeWhile_append_of_pos hds, List.dropWhile_append_of_pos hds]
  cases u with
  | nil => simp
  | cons c t =>
    have hc := hu c t rfl
    rw [List.takeWhile_cons_of_neg (by simp [hc]), List.dropWhile_cons_of_neg (by simp [hc]),
      List.append_nil]

/-- Digits and what is left behind them. -/
theorem spanDigits_spec (cs : List Char) :
    cs = (spanDigits cs).1 ++ (spanDigits cs).2 ∧ ∀ c ∈ (spanDigits cs).1, isAsciiDigit c = true :=
  ⟨(List.takeWhile_append_dropWhile).symm, fun _ hc => List.mem_takeWhile_imp hc⟩

theorem readWhole?_front {cs whole rest : List Char} (h : readWhole? cs = some (whole, rest)) :
    cs = whole ++ rest ∧ (whole ≠ [] ∧ ∀ c ∈ whole, isAsciiDigit c = true) ∧
      ∀ u, NoDigit u → readWhole? (whole ++ u) = some (whole, u) := by
  unfold readWhole? at h
  split at h
  · obtain ⟨rfl, rfl⟩ : ['0'] = whole ∧ _ = rest := by simpa using h
    exact ⟨rfl, ⟨by simp, by simp [isAsciiDigit]⟩, fun u _ => rfl⟩
  · rename_i c t hzero
    split at h
    · rename_i hc
      have hspan := Option.some.inj h
      obtain ⟨hcs, hds⟩ := spanDigits_spec (c :: t)
      rw [hspan] at hcs hds
      simp only at hcs hds
      have hwhole : whole = c :: t.takeWhile isAsciiDigit := by
        have := congrArg Prod.fst hspan
        rw [spanDigits, List.takeWhile_cons_of_pos hc] at this
        exact this.symm
      refine ⟨hcs, ⟨by simp [hwhole], hds⟩, fun u hu => ?_⟩
      -- a zero in front would have been the whole number
      rw [← spanDigits_append hds hu, hwhole, List.cons_append, readWhole?, if_pos hc]
      exact hzero
    · cases h
  · cases h

/-- Text that neither digits nor a fraction go on with. -/
def NoFraction (u : List Char) : Prop :=
  NoDigit u ∧ ∀ t, u ≠ '.' :: t

theorem Ends.noFraction {u : List Char} (h : Ends u) : NoFraction u := by
  refine ⟨h.noDigit, ?_⟩
  rintro t rfl
  cases h '.' t rfl

theorem readFraction_front {cs rest : List Char} {fraction : Option (List Char)}
    (h : readFraction cs = (fraction, rest)) :
    ∃ front, cs = front ++ rest ∧
      ∀ u, NoFraction u → NoDigit (front ++ u) ∧ readFraction (front ++ u) = (fraction, u) := by
  have hnone : ∀ u, NoFraction u → readFraction u = (none, u) := by
    intro u hu
    unfold readFraction
    split
    · rename_i t
      exact absurd rfl (hu.2 t)
    · rfl
  unfold readFraction at h
  split at h
  · rename_i t
    obtain ⟨ht, hds⟩ := spanDigits_spec t
    simp only at h
    split at h
    · obtain ⟨rfl, rfl⟩ := Prod.mk.inj h
      exact ⟨[], rfl, fun u hu => ⟨hu.1, hnone u hu⟩⟩
    · rename_i hne
      obtain ⟨rfl, rfl⟩ := Prod.mk.inj h
      refine ⟨'.' :: (spanDigits t).1, congrArg ('.' :: ·) ht, fun u hu => ⟨?_, ?_⟩⟩
      · intro c r hc
        obtain ⟨rfl, -⟩ := List.cons.inj hc
        decide
      · rw [List.cons_append, readFraction, spanDigits_append hds hu.1]
        simp only
        rw [if_neg hne]
  · obtain ⟨rfl, rfl⟩ := Prod.mk.inj h
    exact ⟨[], rfl, fun u hu => ⟨hu.1, hnone u hu⟩⟩

/-- A sign is taken up, or there is none. -/
theorem readSign_front {cs ds rest : List Char} {negative : Bool}
    (h : readSign cs = (negative, ds ++ rest)) (hne : ds ≠ [])
    (hds : ∀ c ∈ ds, isAsciiDigit c = true) :
    ∃ sign, cs = sign ++ (ds ++ rest) ∧
      ∀ u, readSign (sign ++ (ds ++ u)) = (negative, ds ++ u) := by
  obtain ⟨d, ds, rfl⟩ := List.exists_cons_of_ne_nil hne
  have hd := hds d (by simp)
  unfold readSign at h
  split at h
  · obtain ⟨rfl, rfl⟩ := Prod.mk.inj h
    exact ⟨['+'], rfl, fun u => rfl⟩
  · obtain ⟨rfl, rfl⟩ := Prod.mk.inj h
    exact ⟨['-'], rfl, fun u => rfl⟩
  · obtain ⟨rfl, rfl⟩ := Prod.mk.inj h
    refine ⟨[], rfl, fun u => ?_⟩
    have hplus : d ≠ '+' := by rintro rfl; cases hd
    have hminus : d ≠ '-' := by rintro rfl; cases hd
    rw [List.nil_append, List.cons_append, readSign]
    · intro r hr
      exact hplus (List.cons.inj hr).1
    · intro r hr
      exact hminus (List.cons.inj hr).1

theorem readPower_front {cs rest : List Char} {power : Option Int}
    (h : readPower cs = (power, rest)) :
    ∃ front, cs = front ++ rest ∧
      ∀ u, Ends u → NoFraction (front ++ u) ∧ readPower (front ++ u) = (power, u) := by
  have hnone : ∀ u, Ends u → readPower u = (none, u) := by
    intro u hu
    cases u with
    | nil => rfl
    | cons c t =>
      have hc := hu c t rfl
      simp only [goesOn, Bool.or_eq_false_iff] at hc
      rw [readPower, if_neg (by simp [hc])]
  unfold readPower at h
  split at h
  · rename_i c t
    split at h
    · rename_i hmark
      simp only at h
      split at h
      · obtain ⟨rfl, rfl⟩ := Prod.mk.inj h
        exact ⟨[], rfl, fun u hu => ⟨hu.noFraction, hnone u hu⟩⟩
      · rename_i hne
        obtain ⟨rfl, rfl⟩ := Prod.mk.inj h
        obtain ⟨hbody, hds⟩ := spanDigits_spec (readSign t).2
        obtain ⟨sign, ht, hsign⟩ := readSign_front (Prod.ext rfl hbody)
          (by simpa using hne) hds
        have hc : isAsciiDigit c = false ∧ c ≠ '.' := by
          simp only [Bool.or_eq_true, beq_iff_eq] at hmark
          rcases hmark with rfl | rfl <;> exact ⟨by decide, by decide⟩
        refine ⟨c :: (sign ++ (spanDigits (readSign t).2).1), ?_, fun u hu => ⟨⟨?_, ?_⟩, ?_⟩⟩
        · rw [List.cons_append, List.append_assoc, ← ht]
        · intro d r hd
          obtain ⟨rfl, -⟩ := List.cons.inj hd
          exact hc.1
        · intro r hr
          exact hc.2 (List.cons.inj hr).1
        · rw [List.cons_append, List.append_assoc, readPower, if_pos hmark, hsign]
          simp only
          rw [spanDigits_append hds hu.noDigit]
          simp only
          rw [if_neg hne]
    · rename_i hmark
      obtain ⟨rfl, rfl⟩ := Prod.mk.inj h
      exact ⟨[], rfl, fun u hu => ⟨hu.noFraction, hnone u hu⟩⟩
  · obtain ⟨rfl, rfl⟩ := Prod.mk.inj h
    exact ⟨[], rfl, fun u hu => ⟨hu.noFraction, hnone u hu⟩⟩

theorem isNumber_of_numberValue {negative : Bool} {whole : List Char}
    {fraction : Option (List Char)} {power : Option Int} {v : Value}
    (h : numberValue negative whole fraction power = .ok v) : isNumber v = true := by
  unfold numberValue at h
  split at h
  · split at h
    · cases h
    · rw [← Except.ok.inj h]; rfl
  · rw [← Except.ok.inj h]; rfl

/-- **The front of a number** begins with a digit. -/
theorem readNumber_front {negative : Bool} {start cs rest : List Char} {v : Value}
    (h : readNumber negative start cs = .ok (v, rest)) :
    isNumber v = true ∧
      ∃ front, cs = front ++ rest ∧ (∃ c t, front = c :: t ∧ isAsciiDigit c = true) ∧
      ∀ start u, Ends u → readNumber negative start (front ++ u) = .ok (v, u) := by
  unfold readNumber at h
  split at h
  · cases h
  rename_i whole rest₁ hwhole
  obtain ⟨rfl, ⟨hne, hds⟩, hwhole⟩ := readWhole?_front hwhole
  obtain ⟨c, t, rfl⟩ := List.exists_cons_of_ne_nil hne
  obtain ⟨f, hf, hfraction⟩ := readFraction_front (Prod.eta (readFraction rest₁)).symm
  obtain ⟨p, hp, hpower⟩ := readPower_front (Prod.eta (readPower (readFraction rest₁).2)).symm
  simp only at h
  split at h
  · rename_i w hvalue
    obtain ⟨rfl, rfl⟩ := Prod.mk.inj (Except.ok.inj h)
    refine ⟨isNumber_of_numberValue hvalue, c :: t ++ (f ++ p), ?_,
      ⟨c, _, rfl, hds c List.mem_cons_self⟩, fun start u hu => ?_⟩
    · rw [List.append_assoc, List.append_assoc, ← hp, ← hf]
    · obtain ⟨hnofraction, hpower⟩ := hpower u hu
      obtain ⟨hnodigit, hfraction⟩ := hfraction (p ++ u) hnofraction
      rw [List.append_assoc, List.append_assoc, readNumber, hwhole _ hnodigit]
      simp only
      rw [hfraction]
      simp only
      rw [hpower]
      simp only
      rw [hvalue]
  · cases h

/-! ### Words and strings -/

theorem afterWord?_front {word cs rest : List Char} (h : afterWord? word cs = some rest) :
    cs = word ++ rest := by
  induction word generalizing cs with
  | nil => exact Option.some.inj h
  | cons w ws ih =>
    cases cs with
    | nil => cases h
    | cons c cs =>
      rw [afterWord?] at h
      split at h
      · rename_i hw
        rw [ih h, ← eq_of_beq hw, List.cons_append]
      · cases h

theorem readWord?_front {table : List (List Char × Value)} {cs rest : List Char} {v : Value}
    (h : readWord? table cs = some (v, rest)) : ∃ word, (word, v) ∈ table ∧ cs = word ++ rest := by
  induction table with
  | nil => cases h
  | cons entry table ih =>
    obtain ⟨word, w⟩ := entry
    rw [readWord?] at h
    split at h
    · rename_i r hr
      obtain ⟨rfl, rfl⟩ := Prod.mk.inj (Option.some.inj h)
      exact ⟨word, by simp, afterWord?_front hr⟩
    · obtain ⟨found, hmem, hcs⟩ := ih h
      exact ⟨found, by simp [hmem], hcs⟩

/-- Every word is read as its own value. -/
theorem readWord?_word {word : List Char} {v : Value} (h : (word, v) ∈ words) (u : List Char) :
    readWord? words (word ++ u) = some (v, u) := by
  simp only [words, List.mem_cons, List.not_mem_nil, or_false, Prod.mk.injEq] at h
  rcases h with ⟨rfl, rfl⟩ | ⟨rfl, rfl⟩ | ⟨rfl, rfl⟩ | ⟨rfl, rfl⟩ | ⟨rfl, rfl⟩ | ⟨rfl, rfl⟩ <;> rfl

theorem word_head {word : List Char} {v : Value} (h : (word, v) ∈ words) :
    ∃ c t, word = c :: t ∧ c ≠ '"' ∧ c ≠ '[' ∧ c ≠ '\x7b' ∧ isSpace c = false := by
  simp only [words, List.mem_cons, List.not_mem_nil, or_false, Prod.mk.injEq] at h
  rcases h with ⟨rfl, -⟩ | ⟨rfl, -⟩ | ⟨rfl, -⟩ | ⟨rfl, -⟩ | ⟨rfl, -⟩ | ⟨rfl, -⟩ <;>
    exact ⟨_, _, rfl, by decide, by decide, by decide, by decide⟩

/-- No word begins with a digit, and none with a sign and a digit. -/
theorem readWord?_digit {c : Char} (hc : isAsciiDigit c = true) (t : List Char) :
    readWord? words (c :: t) = none ∧ readWord? words ('-' :: c :: t) = none := by
  have hne : ∀ d, isAsciiDigit d = false → d ≠ c := by rintro d hd rfl; rw [hc] at hd; cases hd
  have hn := hne 'n' (by decide)
  have ht := hne 't' (by decide)
  have hf := hne 'f' (by decide)
  have hN := hne 'N' (by decide)
  have hI := hne 'I' (by decide)
  have hm := hne '-' (by decide)
  constructor <;>
    simp [words, readWord?, afterWord?, hn, ht, hf, hN, hI, hm]

theorem readScalar_negative {c : Char} (hc : isAsciiDigit c = true) (t : List Char) :
    readScalar ('-' :: c :: t) = readNumber true ('-' :: c :: t) (c :: t) := by
  rw [readScalar, (readWord?_digit hc t).2]

theorem readScalar_positive {c : Char} (hc : isAsciiDigit c = true) (t : List Char) :
    readScalar (c :: t) = readNumber false (c :: t) (c :: t) := by
  have hminus : c ≠ '-' := by rintro rfl; cases hc
  rw [readScalar, (readWord?_digit hc t).1]
  intro r hr
  exact hminus (List.cons.inj hr).1

/-- A character that begins a scalar. -/
def BeginsScalar (c : Char) : Prop :=
  c ≠ '"' ∧ c ≠ '[' ∧ c ≠ '\x7b' ∧ isSpace c = false

theorem beginsScalar_digit {c : Char} (hc : isAsciiDigit c = true) : BeginsScalar c := by
  refine ⟨?_, ?_, ?_, Bool.eq_false_iff.2 fun hs => ?_⟩
  · rintro rfl; cases hc
  · rintro rfl; cases hc
  · rintro rfl; cases hc
  · have := goesOn_of_isSpace hs
    simp [goesOn, hc] at this

/-- **The front of a scalar.** -/
theorem readScalar_front {cs rest : List Char} {v : Value} (h : readScalar cs = .ok (v, rest)) :
    ∃ c t, cs = c :: t ++ rest ∧ BeginsScalar c ∧
      ∀ u, MayFollow v u → readScalar (c :: t ++ u) = .ok (v, u) := by
  unfold readScalar at h
  split at h
  · rename_i found hfound
    obtain rfl := Except.ok.inj h
    obtain ⟨word, hmem, rfl⟩ := readWord?_front hfound
    obtain ⟨c, t, rfl, hc⟩ := word_head hmem
    refine ⟨c, t, rfl, hc, fun u _ => ?_⟩
    unfold readScalar
    rw [readWord?_word hmem]
  · split at h
    · obtain ⟨hv, front, rfl, ⟨c, t, rfl, hc⟩, hfront⟩ := readNumber_front h
      refine ⟨'-', c :: t, rfl, ⟨by decide, by decide, by decide, by decide⟩, fun u hu => ?_⟩
      rw [List.cons_append, List.cons_append, readScalar_negative hc]
      exact hfront _ u (hu hv)
    · obtain ⟨hv, front, rfl, ⟨c, t, rfl, hc⟩, hfront⟩ := readNumber_front h
      refine ⟨c, t, rfl, beginsScalar_digit hc, fun u hu => ?_⟩
      rw [List.cons_append, readScalar_positive hc]
      exact hfront _ u (hu hv)

theorem consPoint_ok {n : Nat} {points : List Nat} {rest : List Char} {r : Reading (List Nat)}
    (h : consPoint n r = .ok (points, rest)) :
    ∃ more, r = .ok (more, rest) ∧ points = n :: more := by
  cases r with
  | error e => cases h
  | ok found =>
    obtain ⟨more, tail⟩ := found
    obtain ⟨rfl, rfl⟩ := Prod.mk.inj (Except.ok.inj h)
    exact ⟨more, rfl, rfl⟩

/-- How the points of a string are read. -/
inductive ReadsPoints (opening : List Char) : List Char → List Nat → List Char → Prop
  | quote {rest} : ReadsPoints opening ('"' :: rest) [] rest
  | code {h₁ h₂ h₃ h₄ next tail n points rest} (hunit : codeUnit? h₁ h₂ h₃ h₄ = some n)
    (h : readPoints opening (next :: tail) = .ok (points, rest)) :
    ReadsPoints opening ('\\' :: 'u' :: h₁ :: h₂ :: h₃ :: h₄ :: next :: tail) (n :: points) rest
  | escape {e d more points rest} (hu : e ≠ 'u') (hd : escaped? e = some d)
    (h : readPoints opening more = .ok (points, rest)) :
    ReadsPoints opening ('\\' :: e :: more) (d.toNat :: points) rest
  | plain {c more points rest} (hquote : c ≠ '"') (hslash : c ≠ '\\') (hcontrol : ¬ c.toNat < 0x20)
    (h : readPoints opening more = .ok (points, rest)) :
    ReadsPoints opening (c :: more) (c.toNat :: points) rest

theorem readsPoints_of_ok {opening cs rest : List Char} {points : List Nat}
    (h : readPoints opening cs = .ok (points, rest)) : ReadsPoints opening cs points rest := by
  rw [readPoints.eq_def] at h
  split at h
  · cases h
  rename_i c more
  split at h
  · rename_i hquote
    obtain ⟨rfl, rfl⟩ := Prod.mk.inj (Except.ok.inj h)
    rw [eq_of_beq hquote]
    exact .quote
  rename_i hquote
  split at h
  · rename_i hslash
    rw [eq_of_beq hslash]
    split at h
    · cases h
    split at h
    · rename_i hu
      rw [eq_of_beq hu]
      split at h
      · split at h
        · rename_i hunit
          obtain ⟨points, hmore, rfl⟩ := consPoint_ok h
          exact .code hunit hmore
        · cases h
      · cases h
    · rename_i hu
      split at h
      · rename_i hd
        obtain ⟨points, hmore, rfl⟩ := consPoint_ok h
        exact .escape (by simpa using hu) hd hmore
      · cases h
  · rename_i hslash
    split at h
    · cases h
    · rename_i hcontrol
      obtain ⟨points, hmore, rfl⟩ := consPoint_ok h
      exact .plain (by simpa using hquote) (by simpa using hslash) hcontrol hmore

/-- **The front of a string's points** ends in the closing quote. -/
theorem readPoints_front {opening cs rest : List Char} {points : List Nat}
    (h : readPoints opening cs = .ok (points, rest)) :
    ∃ front, front ≠ [] ∧ cs = front ++ rest ∧
      ∀ opening u, readPoints opening (front ++ u) = .ok (points, u) := by
  -- on the length of the text, since an escape takes up several characters at once
  induction hlen : cs.length using Nat.strongRecOn generalizing cs points with
  | ind n ih =>
    subst hlen
    cases readsPoints_of_ok h with
    | quote =>
      refine ⟨['"'], by simp, rfl, fun opening u => ?_⟩
      rw [List.cons_append, readPoints.eq_def]
      simp
    | code hunit h =>
      obtain ⟨front, hne, hcs, hfront⟩ := ih _ (by simp only [List.length_cons]; omega) h rfl
      obtain ⟨next, front, rfl⟩ := List.exists_cons_of_ne_nil hne
      obtain ⟨rfl, rfl⟩ := List.cons.inj hcs
      refine ⟨_ :: _ :: _ :: _ :: _ :: _ :: _ :: front, by simp, rfl, fun opening u => ?_⟩
      have hnext := hfront opening u
      simp only [List.cons_append] at hnext ⊢
      rw [readPoints.eq_def]
      simp [hunit, hnext, consPoint]
    | escape hu hd h =>
      obtain ⟨front, hne, rfl, hfront⟩ := ih _ (by simp only [List.length_cons]; omega) h rfl
      refine ⟨_ :: _ :: front, by simp, rfl, fun opening u => ?_⟩
      rw [List.cons_append, List.cons_append, readPoints.eq_def]
      simp [hu, hd, hfront, consPoint]
    | plain hquote hslash hcontrol h =>
      obtain ⟨front, hne, rfl, hfront⟩ := ih _ (by simp only [List.length_cons]; omega) h rfl
      refine ⟨_ :: front, by simp, rfl, fun opening u => ?_⟩
      rw [List.cons_append, readPoints.eq_def]
      simp [hquote, hslash, hcontrol, hfront, consPoint]

/-- **The front of a string** ends in its closing quote. -/
theorem readString_front {cs rest : List Char} {s : String} (h : readString cs = .ok (s, rest)) :
    ∃ front, front ≠ [] ∧ cs = front ++ rest ∧ ∀ u, readString (front ++ u) = .ok (s, u) := by
  unfold readString at h
  split at h
  · rename_i points r hpoints
    obtain ⟨rfl, rfl⟩ := Prod.mk.inj (Except.ok.inj h)
    obtain ⟨front, hne, rfl, hfront⟩ := readPoints_front hpoints
    exact ⟨front, hne, rfl, fun u => by rw [readString, hfront]⟩
  · cases h

/-! ### Values, items and members -/

section Building

variable {fuel : Nat} {cs r rest : List Char} {v : Value}

attribute [local simp] readValueWith readItemsWith readMembersWith

theorem readValueWith_string {s : String} (h : readString cs = .ok (s, rest)) :
    readValueWith (fuel + 1) ('"' :: cs) = .ok (.str s, rest) := by
  simp [h]

theorem readValueWith_emptyList (h : skipSpace cs = ']' :: rest) :
    readValueWith (fuel + 1) ('[' :: cs) = .ok (.list [], rest) := by
  simp [h]

theorem readValueWith_list {items : List Value} (hcs : ∀ t, skipSpace cs ≠ ']' :: t)
    (h : readItemsWith fuel (skipSpace cs) = .ok (items, rest)) :
    readValueWith (fuel + 1) ('[' :: cs) = .ok (.list items, rest) := by
  rw [readValueWith]
  split
  · rename_i t ht
    exact absurd ht (hcs t)
  · rw [h]

theorem readValueWith_emptyDict (h : skipSpace cs = '\x7d' :: rest) :
    readValueWith (fuel + 1) ('\x7b' :: cs) = .ok (.dict [], rest) := by
  simp [h]

theorem readValueWith_dict {members : List (Value × Value)} (hcs : ∀ t, skipSpace cs ≠ '\x7d' :: t)
    (h : readMembersWith fuel (skipSpace cs) = .ok (members, rest)) :
    readValueWith (fuel + 1) ('\x7b' :: cs) = .ok (.dict (Entries.ofList members), rest) := by
  rw [readValueWith]
  split
  · rename_i t ht
    exact absurd ht (hcs t)
  · rw [h]

theorem readValueWith_scalar {c : Char} (hc : BeginsScalar c) :
    readValueWith (fuel + 1) (c :: cs) = readScalar (c :: cs) := by
  rw [readValueWith]
  · exact fun t ht => hc.1 (List.cons.inj ht).1
  · exact fun t ht => hc.2.1 (List.cons.inj ht).1
  · exact fun t ht => hc.2.2.1 (List.cons.inj ht).1

theorem readItemsWith_last (h : readValueWith fuel cs = .ok (v, r))
    (hr : skipSpace r = ']' :: rest) :
    readItemsWith (fuel + 1) cs = .ok ([v], rest) := by
  simp [h, hr]

theorem readItemsWith_more {items : List Value} {t : List Char}
    (h : readValueWith fuel cs = .ok (v, r)) (hr : skipSpace r = ',' :: t)
    (hitems : readItemsWith fuel (skipSpace t) = .ok (items, rest)) :
    readItemsWith (fuel + 1) cs = .ok (v :: items, rest) := by
  simp [h, hr, hitems]

theorem readMembersWith_last {name : String} {r₁ t₁ r₂ : List Char}
    (hname : readString cs = .ok (name, r₁)) (hr₁ : skipSpace r₁ = ':' :: t₁)
    (h : readValueWith fuel (skipSpace t₁) = .ok (v, r₂)) (hr₂ : skipSpace r₂ = '\x7d' :: rest) :
    readMembersWith (fuel + 1) ('"' :: cs) = .ok ([(.str name, v)], rest) := by
  simp [hname, hr₁, h, hr₂]

theorem readMembersWith_more {name : String} {members : List (Value × Value)}
    {r₁ t₁ r₂ t₂ : List Char} (hname : readString cs = .ok (name, r₁))
    (hr₁ : skipSpace r₁ = ':' :: t₁) (h : readValueWith fuel (skipSpace t₁) = .ok (v, r₂))
    (hr₂ : skipSpace r₂ = ',' :: t₂)
    (hmembers : readMembersWith fuel (skipSpace t₂) = .ok (members, rest)) :
    readMembersWith (fuel + 1) ('"' :: cs) = .ok ((.str name, v) :: members, rest) := by
  simp [hname, hr₁, h, hr₂, hmembers]

end Building

/-- How a value is read. -/
inductive ReadsValue (fuel : Nat) : List Char → Value → List Char → Prop
  | string {cs rest s} (h : readString cs = .ok (s, rest)) :
    ReadsValue fuel ('"' :: cs) (.str s) rest
  | emptyList {cs rest} (h : skipSpace cs = ']' :: rest) :
    ReadsValue fuel ('[' :: cs) (.list []) rest
  | list {cs rest items} (hcs : ∀ t, skipSpace cs ≠ ']' :: t)
    (h : readItemsWith fuel (skipSpace cs) = .ok (items, rest)) :
    ReadsValue fuel ('[' :: cs) (.list items) rest
  | emptyDict {cs rest} (h : skipSpace cs = '\x7d' :: rest) :
    ReadsValue fuel ('\x7b' :: cs) (.dict []) rest
  | dict {cs rest members} (hcs : ∀ t, skipSpace cs ≠ '\x7d' :: t)
    (h : readMembersWith fuel (skipSpace cs) = .ok (members, rest)) :
    ReadsValue fuel ('\x7b' :: cs) (.dict (Entries.ofList members)) rest
  | scalar {cs v rest} (h : readScalar cs = .ok (v, rest)) : ReadsValue fuel cs v rest

theorem readsValue_of_ok {fuel : Nat} {cs rest : List Char} {v : Value}
    (h : readValueWith (fuel + 1) cs = .ok (v, rest)) : ReadsValue fuel cs v rest := by
  unfold readValueWith at h
  split at h
  · split at h
    · rename_i hstring
      obtain ⟨rfl, rfl⟩ := Prod.mk.inj (Except.ok.inj h)
      exact .string hstring
    · cases h
  · split at h
    · rename_i hskip
      obtain ⟨rfl, rfl⟩ := Prod.mk.inj (Except.ok.inj h)
      exact .emptyList hskip
    · rename_i hskip
      split at h
      · rename_i hitems
        obtain ⟨rfl, rfl⟩ := Prod.mk.inj (Except.ok.inj h)
        exact .list hskip hitems
      · cases h
  · split at h
    · rename_i hskip
      obtain ⟨rfl, rfl⟩ := Prod.mk.inj (Except.ok.inj h)
      exact .emptyDict hskip
    · rename_i hskip
      split at h
      · rename_i hmembers
        obtain ⟨rfl, rfl⟩ := Prod.mk.inj (Except.ok.inj h)
        exact .dict hskip hmembers
      · cases h
  · exact .scalar h

/-- How items are read. -/
inductive ReadsItems (fuel : Nat) : List Char → List Value → List Char → Prop
  | last {cs v r rest} (h : readValueWith fuel cs = .ok (v, r)) (hr : skipSpace r = ']' :: rest) :
    ReadsItems fuel cs [v] rest
  | more {cs v r t items rest} (h : readValueWith fuel cs = .ok (v, r))
    (hr : skipSpace r = ',' :: t) (hitems : readItemsWith fuel (skipSpace t) = .ok (items, rest)) :
    ReadsItems fuel cs (v :: items) rest

theorem readsItems_of_ok {fuel : Nat} {cs rest : List Char} {items : List Value}
    (h : readItemsWith (fuel + 1) cs = .ok (items, rest)) : ReadsItems fuel cs items rest := by
  unfold readItemsWith at h
  split at h
  · cases h
  · rename_i v r hv
    split at h
    · rename_i hskip
      obtain ⟨rfl, rfl⟩ := Prod.mk.inj (Except.ok.inj h)
      exact .last hv hskip
    · rename_i t hskip
      split at h
      · rename_i hitems
        obtain ⟨rfl, rfl⟩ := Prod.mk.inj (Except.ok.inj h)
        exact .more hv hskip hitems
      · cases h
    · cases h

/-- How members are read. -/
inductive ReadsMembers (fuel : Nat) : List Char → List (Value × Value) → List Char → Prop
  | last {cs name r₁ t₁ v r₂ rest} (hname : readString cs = .ok (name, r₁))
    (hr₁ : skipSpace r₁ = ':' :: t₁) (h : readValueWith fuel (skipSpace t₁) = .ok (v, r₂))
    (hr₂ : skipSpace r₂ = '\x7d' :: rest) :
    ReadsMembers fuel ('"' :: cs) [(.str name, v)] rest
  | more {cs name r₁ t₁ v r₂ t₂ members rest} (hname : readString cs = .ok (name, r₁))
    (hr₁ : skipSpace r₁ = ':' :: t₁) (h : readValueWith fuel (skipSpace t₁) = .ok (v, r₂))
    (hr₂ : skipSpace r₂ = ',' :: t₂)
    (hmembers : readMembersWith fuel (skipSpace t₂) = .ok (members, rest)) :
    ReadsMembers fuel ('"' :: cs) ((.str name, v) :: members) rest

theorem readsMembers_of_ok {fuel : Nat} {cs rest : List Char} {members : List (Value × Value)}
    (h : readMembersWith (fuel + 1) cs = .ok (members, rest)) :
    ReadsMembers fuel cs members rest := by
  unfold readMembersWith at h
  split at h
  · split at h
    · cases h
    · rename_i name r₁ hname
      split at h
      · rename_i t₁ hr₁
        split at h
        · cases h
        · rename_i v r₂ hv
          split at h
          · rename_i hr₂
            obtain ⟨rfl, rfl⟩ := Prod.mk.inj (Except.ok.inj h)
            exact .last hname hr₁ hv hr₂
          · rename_i t₂ hr₂
            split at h
            · rename_i hmembers
              obtain ⟨rfl, rfl⟩ := Prod.mk.inj (Except.ok.inj h)
              exact .more hname hr₁ hv hr₂ hmembers
            · cases h
          · cases h
      · cases h
  · cases h

/-- What a reading takes up: a front that is read the same whatever stands behind it, with any fuel
that is enough for its length. -/
def TakesUp {α : Type} (read : Nat → List Char → Reading α) (mayFollow : α → List Char → Prop)
    (cs : List Char) (a : α) (rest : List Char) : Prop :=
  ∃ front, front ≠ [] ∧ cs = front ++ rest ∧
    ∀ fuel u, front.length ≤ fuel → mayFollow a u → read fuel (front ++ u) = .ok (a, u)

/-- Nothing is read without fuel, so only fuel that is a successor counts. -/
theorem takesUp_of_succ {α : Type} {read : Nat → List Char → Reading α}
    {mayFollow : α → List Char → Prop} {cs rest : List Char} {a : α} (front : List Char)
    (hne : front ≠ []) (hcs : cs = front ++ rest)
    (h : ∀ fuel u, front.length ≤ fuel + 1 → mayFollow a u →
      read (fuel + 1) (front ++ u) = .ok (a, u)) : TakesUp read mayFollow cs a rest := by
  refine ⟨front, hne, hcs, fun fuel u hfuel hu => ?_⟩
  cases fuel with
  | zero => exact absurd (List.length_eq_zero_iff.1 (Nat.le_zero.1 hfuel)) hne
  | succ fuel => exact h fuel u hfuel hu

/-- Nothing is asked of what stands behind a closing bracket. -/
def Anything {α : Type} (_ : α) (_ : List Char) : Prop := True

/-- White space in front of what is taken up. If another character is not there, it is not there
either when something else stands behind. -/
theorem exists_gap_front {cs front rest : List Char} (h : skipSpace cs = front ++ rest)
    (hne : front ≠ []) :
    ∃ gap, cs = gap ++ front ++ rest ∧ ∀ u, skipSpace (gap ++ front ++ u) = front ++ u ∧
      ∀ d, (∀ t, skipSpace cs ≠ d :: t) → ∀ t, skipSpace (gap ++ front ++ u) ≠ d :: t := by
  obtain ⟨gap, hgap, hcs⟩ := exists_gap cs
  obtain ⟨c, front, rfl⟩ := List.exists_cons_of_ne_nil hne
  have hc : isSpace c = false := isSpace_head_skipSpace h
  have hskip : ∀ u, skipSpace (gap ++ c :: front ++ u) = c :: front ++ u := by
    intro u
    rw [List.append_assoc, List.cons_append, skipSpace_gap_cons hgap hc]
  refine ⟨gap, by rw [List.append_assoc, ← h]; exact hcs, fun u => ⟨hskip u, fun d hd t ht => ?_⟩⟩
  rw [hskip] at ht
  obtain ⟨rfl, -⟩ := List.cons.inj ht
  exact hd _ h

/-- White space in front of a character between or behind values. -/
theorem exists_gap_cons {r rest : List Char} {d : Char} (h : skipSpace r = d :: rest)
    (hd : goesOn d = false) : ∃ gap, r = gap ++ d :: rest ∧
      ∀ u, skipSpace (gap ++ d :: u) = d :: u ∧ Ends (gap ++ d :: u) := by
  obtain ⟨gap, hgap, hr⟩ := exists_gap r
  refine ⟨gap, by rw [← h]; exact hr, fun u => ⟨?_, ends_gap_cons hgap hd u⟩⟩
  rw [skipSpace_gap_cons hgap (isSpace_head_skipSpace h)]

section Steps

variable {fuel : Nat}

theorem takesUp_value
    (hitems : ∀ cs items rest, readItemsWith fuel cs = .ok (items, rest) →
      TakesUp readItemsWith Anything cs items rest)
    (hmembers : ∀ cs members rest, readMembersWith fuel cs = .ok (members, rest) →
      TakesUp readMembersWith Anything cs members rest)
    {cs rest : List Char} {v : Value} (h : ReadsValue fuel cs v rest) :
    TakesUp readValueWith MayFollow cs v rest := by
  cases h with
  | string h =>
    obtain ⟨front, -, rfl, hfront⟩ := readString_front h
    refine takesUp_of_succ ('"' :: front) (by simp) rfl fun g u hg _ => ?_
    exact readValueWith_string (hfront u)
  | @emptyList cs _ h =>
    obtain ⟨gap, rfl, hgap⟩ := exists_gap_cons h (by decide)
    refine takesUp_of_succ ('[' :: (gap ++ [']'])) (by simp) (by simp) fun g u hg _ => ?_
    rw [List.cons_append, List.append_assoc]
    exact readValueWith_emptyList (hgap u).1
  | @list cs _ items hcs h =>
    obtain ⟨front, hne, hskip, hfront⟩ := hitems _ _ _ h
    obtain ⟨gap, rfl, hgap⟩ := exists_gap_front hskip hne
    refine takesUp_of_succ ('[' :: (gap ++ front)) (by simp) (by simp) fun g u hg _ => ?_
    simp only [List.length_cons, List.length_append] at hg
    rw [List.cons_append]
    refine readValueWith_list ((hgap u).2 _ hcs) ?_
    rw [(hgap u).1]
    exact hfront g u (by omega) trivial
  | @emptyDict cs _ h =>
    obtain ⟨gap, rfl, hgap⟩ := exists_gap_cons h (by decide)
    refine takesUp_of_succ ('\x7b' :: (gap ++ ['\x7d'])) (by simp) (by simp) fun g u hg _ => ?_
    rw [List.cons_append, List.append_assoc]
    exact readValueWith_emptyDict (hgap u).1
  | @dict cs _ members hcs h =>
    obtain ⟨front, hne, hskip, hfront⟩ := hmembers _ _ _ h
    obtain ⟨gap, rfl, hgap⟩ := exists_gap_front hskip hne
    refine takesUp_of_succ ('\x7b' :: (gap ++ front)) (by simp) (by simp) fun g u hg _ => ?_
    simp only [List.length_cons, List.length_append] at hg
    rw [List.cons_append]
    refine readValueWith_dict ((hgap u).2 _ hcs) ?_
    rw [(hgap u).1]
    exact hfront g u (by omega) trivial
  | scalar h =>
    obtain ⟨c, t, rfl, hc, hfront⟩ := readScalar_front h
    refine takesUp_of_succ (c :: t) (by simp) rfl fun g u hg hu => ?_
    rw [List.cons_append, readValueWith_scalar hc]
    exact hfront u hu

theorem takesUp_items
    (hvalue : ∀ cs v rest, readValueWith fuel cs = .ok (v, rest) →
      TakesUp readValueWith MayFollow cs v rest)
    (hitems : ∀ cs items rest, readItemsWith fuel cs = .ok (items, rest) →
      TakesUp readItemsWith Anything cs items rest)
    {cs rest : List Char} {items : List Value} (h : ReadsItems fuel cs items rest) :
    TakesUp readItemsWith Anything cs items rest := by
  cases h with
  | last h hr =>
    obtain ⟨front, hne, rfl, hfront⟩ := hvalue _ _ _ h
    obtain ⟨gap, rfl, hgap⟩ := exists_gap_cons hr (by decide)
    refine takesUp_of_succ (front ++ (gap ++ [']'])) (by simp) (by simp) fun g u hg _ => ?_
    simp only [List.length_append, List.length_singleton] at hg
    have hv := hfront g (gap ++ ']' :: u) (by omega) fun _ => (hgap u).2
    rw [List.append_assoc, List.append_assoc]
    exact readItemsWith_last hv (hgap u).1
  | more h hr hrest =>
    obtain ⟨front, hne, rfl, hfront⟩ := hvalue _ _ _ h
    obtain ⟨gap, rfl, hgap⟩ := exists_gap_cons hr (by decide)
    obtain ⟨front₂, hne₂, hskip, hfront₂⟩ := hitems _ _ _ hrest
    obtain ⟨gap₂, rfl, hgap₂⟩ := exists_gap_front hskip hne₂
    refine takesUp_of_succ (front ++ (gap ++ ',' :: (gap₂ ++ front₂))) (by simp) (by simp)
      fun g u hg _ => ?_
    simp only [List.length_append, List.length_cons] at hg
    have hv := hfront g (gap ++ ',' :: (gap₂ ++ front₂ ++ u)) (by omega) fun _ => (hgap _).2
    have happ : front ++ (gap ++ ',' :: (gap₂ ++ front₂)) ++ u =
        front ++ (gap ++ ',' :: (gap₂ ++ front₂ ++ u)) := by simp
    rw [happ]
    refine readItemsWith_more hv (hgap _).1 ?_
    rw [(hgap₂ u).1]
    exact hfront₂ g u (by omega) trivial

/-- The front of a member's name and value, behind the quote that opens the name. -/
theorem member_front
    (hvalue : ∀ cs v rest, readValueWith fuel cs = .ok (v, rest) →
      TakesUp readValueWith MayFollow cs v rest)
    {cs r₁ t₁ r₂ : List Char} {name : String} {v : Value}
    (hname : readString cs = .ok (name, r₁)) (hcolon : skipSpace r₁ = ':' :: t₁)
    (h : readValueWith fuel (skipSpace t₁) = .ok (v, r₂)) :
    ∃ front, cs = front ++ r₂ ∧ ∀ g u, front.length ≤ g → MayFollow v u →
      ∃ r₁ t₁, readString (front ++ u) = .ok (name, r₁) ∧ skipSpace r₁ = ':' :: t₁ ∧
        readValueWith g (skipSpace t₁) = .ok (v, u) := by
  obtain ⟨front, -, rfl, hfront⟩ := readString_front hname
  obtain ⟨gap, rfl, hgap⟩ := exists_gap_cons hcolon (by decide)
  obtain ⟨front₂, hne₂, hskip, hfront₂⟩ := hvalue _ _ _ h
  obtain ⟨gap₂, rfl, hgap₂⟩ := exists_gap_front hskip hne₂
  refine ⟨front ++ (gap ++ ':' :: (gap₂ ++ front₂)), by simp, fun g u hg hu => ?_⟩
  simp only [List.length_append, List.length_cons] at hg
  have happ : front ++ (gap ++ ':' :: (gap₂ ++ front₂)) ++ u =
      front ++ (gap ++ ':' :: (gap₂ ++ front₂ ++ u)) := by simp
  refine ⟨_, _, by rw [happ]; exact hfront _, (hgap _).1, ?_⟩
  rw [(hgap₂ u).1]
  exact hfront₂ g u (by omega) hu

theorem takesUp_members
    (hvalue : ∀ cs v rest, readValueWith fuel cs = .ok (v, rest) →
      TakesUp readValueWith MayFollow cs v rest)
    (hmembers : ∀ cs members rest, readMembersWith fuel cs = .ok (members, rest) →
      TakesUp readMembersWith Anything cs members rest)
    {cs rest : List Char} {members : List (Value × Value)}
    (h : ReadsMembers fuel cs members rest) :
    TakesUp readMembersWith Anything cs members rest := by
  cases h with
  | last hname hcolon h hr =>
    obtain ⟨front, rfl, hfront⟩ := member_front hvalue hname hcolon h
    obtain ⟨gap, rfl, hgap⟩ := exists_gap_cons hr (by decide)
    refine takesUp_of_succ ('"' :: (front ++ (gap ++ ['\x7d']))) (by simp) (by simp)
      fun g u hg _ => ?_
    simp only [List.length_append, List.length_cons, List.length_nil] at hg
    obtain ⟨r, t, hread, hcolon, hv⟩ :=
      hfront g (gap ++ '\x7d' :: u) (by omega) fun _ => (hgap u).2
    rw [List.cons_append, List.append_assoc, List.append_assoc]
    exact readMembersWith_last hread hcolon hv (hgap u).1
  | more hname hcolon h hr hrest =>
    obtain ⟨front, rfl, hfront⟩ := member_front hvalue hname hcolon h
    obtain ⟨gap, rfl, hgap⟩ := exists_gap_cons hr (by decide)
    obtain ⟨front₂, hne₂, hskip, hfront₂⟩ := hmembers _ _ _ hrest
    obtain ⟨gap₂, rfl, hgap₂⟩ := exists_gap_front hskip hne₂
    refine takesUp_of_succ ('"' :: (front ++ (gap ++ ',' :: (gap₂ ++ front₂)))) (by simp) (by simp)
      fun g u hg _ => ?_
    simp only [List.length_append, List.length_cons] at hg
    obtain ⟨r, t, hread, hcolon, hv⟩ :=
      hfront g (gap ++ ',' :: (gap₂ ++ front₂ ++ u)) (by omega) fun _ => (hgap _).2
    have happ : '"' :: (front ++ (gap ++ ',' :: (gap₂ ++ front₂))) ++ u =
        '"' :: (front ++ (gap ++ ',' :: (gap₂ ++ front₂ ++ u))) := by simp
    rw [happ]
    refine readMembersWith_more hread hcolon hv (hgap (gap₂ ++ front₂ ++ u)).1 ?_
    rw [(hgap₂ u).1]
    exact hfront₂ g u (by omega) trivial

end Steps

/-- **Values, items and members take up a front of the text.** -/
theorem readValueWith_front (fuel : Nat) :
    (∀ cs v rest, readValueWith fuel cs = .ok (v, rest) →
      TakesUp readValueWith MayFollow cs v rest) ∧
    (∀ cs items rest, readItemsWith fuel cs = .ok (items, rest) →
      TakesUp readItemsWith Anything cs items rest) ∧
    (∀ cs members rest, readMembersWith fuel cs = .ok (members, rest) →
      TakesUp readMembersWith Anything cs members rest) := by
  induction fuel with
  | zero =>
    refine ⟨fun cs v rest h => ?_, fun cs items rest h => ?_, fun cs members rest h => ?_⟩
    · rw [readValueWith] at h; cases h
    · rw [readItemsWith] at h; cases h
    · rw [readMembersWith] at h; cases h
  | succ fuel ih =>
    obtain ⟨hvalue, hitems, hmembers⟩ := ih
    exact ⟨fun _ _ _ h => takesUp_value hitems hmembers (readsValue_of_ok h),
      fun _ _ _ h => takesUp_items hvalue hitems (readsItems_of_ok h),
      fun _ _ _ h => takesUp_members hvalue hmembers (readsMembers_of_ok h)⟩

/-- **A value takes up a front of the text**, whatever stands behind it. -/
theorem readValue_front {cs rest : List Char} {v : Value} (h : readValue cs = .ok (v, rest)) :
    ∃ front, front ≠ [] ∧ cs = front ++ rest ∧
      ∀ u, MayFollow v u → readValue (front ++ u) = .ok (v, u) := by
  obtain ⟨front, hne, rfl, hfront⟩ := (readValueWith_front _).1 _ _ _ h
  refine ⟨front, hne, rfl, fun u hu => hfront _ u ?_ hu⟩
  rw [List.length_append]
  omega

/-- What begins with a brace is an object, if it is a value. -/
theorem readValue_brace {cs rest : List Char} {v : Value}
    (h : readValue ('\x7b' :: cs) = .ok (v, rest)) : ∃ members, v = .dict members := by
  cases readsValue_of_ok h with
  | emptyDict _ => exact ⟨_, rfl⟩
  | dict _ _ => exact ⟨_, rfl⟩
  | scalar h =>
    obtain ⟨c, t, hcs, hc, -⟩ := readScalar_front h
    exact absurd (List.cons.inj hcs).1.symm hc.2.2.1

/-- **No part of an object that ends before its closing brace is a value.** -/
theorem readValue_cut {cut more rest : List Char} {v : Value}
    (h : readValue ('\x7b' :: cut ++ more) = .ok (v, rest)) (hrest : rest.length < more.length)
    (found : Value × List Char) : readValue ('\x7b' :: cut) ≠ .ok found := by
  obtain ⟨w, tail⟩ := found
  intro hcut
  obtain ⟨members, rfl⟩ := readValue_brace hcut
  obtain ⟨front, -, hfront, hread⟩ := readValue_front hcut
  -- an object does not depend on what stands behind it, so it would end at its first part too
  have hwhole := hread (tail ++ more) fun hv => by cases hv
  rw [← List.append_assoc, ← hfront, h] at hwhole
  have := congrArg List.length (Prod.mk.inj (Except.ok.inj hwhole)).2
  rw [List.length_append] at this
  omega

/-! ### The texts of objects -/

/-- The text of an object from its opening to its closing brace. -/
structure IsObject (core : List Char) (members : Entries) : Prop where
  brace : ∃ t, core = '\x7b' :: t
  reads : ∀ fuel u, core.length ≤ fuel → readValueWith fuel (core ++ u) = .ok (.dict members, u)

namespace IsObject

variable {core : List Char} {members : Entries}

theorem readValue_eq (h : IsObject core members) (u : List Char) :
    readValue (core ++ u) = .ok (.dict members, u) :=
  h.reads _ u (by rw [List.length_append]; omega)

theorem skipSpace_eq (h : IsObject core members) {gap : List Char} (hgap : IsGap gap)
    (u : List Char) : skipSpace (gap ++ core ++ u) = core ++ u := by
  obtain ⟨t, rfl⟩ := h.brace
  rw [List.append_assoc, List.cons_append, skipSpace_gap_cons hgap (by decide)]

/-- What is cut off before its closing brace is no value. -/
theorem readValue_ne_ok (h : IsObject core members) {cut more : List Char}
    (hcut : core = cut ++ more) (hne : cut ≠ []) (hmore : more ≠ []) (found : Value × List Char) :
    readValue cut ≠ .ok found := by
  obtain ⟨t, ht⟩ := h.brace
  obtain ⟨c, cut, rfl⟩ := List.exists_cons_of_ne_nil hne
  rw [ht] at hcut
  obtain ⟨rfl, -⟩ := List.cons.inj hcut
  have hread := h.readValue_eq []
  rw [List.append_nil, ht, hcut] at hread
  exact readValue_cut hread (List.length_pos_iff.2 hmore) found

end IsObject

/-- What is read without brackets and quotes is a word or a number. -/
theorem readScalar_ne {cs rest : List Char} {v : Value} (hword : ∀ word, (word, v) ∉ words)
    (hnumber : isNumber v = false) : readScalar cs ≠ .ok (v, rest) := by
  intro h
  unfold readScalar at h
  split at h
  · rename_i found hfound
    rw [Except.ok.inj h] at hfound
    obtain ⟨word, hmem, -⟩ := readWord?_front hfound
    exact hword word hmem
  · split at h
    · rw [(readNumber_front h).1] at hnumber
      cases hnumber
    · rw [(readNumber_front h).1] at hnumber
      cases hnumber

theorem readScalar_ne_dict {cs rest : List Char} {members : Entries} :
    readScalar cs ≠ .ok (.dict members, rest) :=
  readScalar_ne (by simp [words]) rfl

theorem readScalar_ne_list {cs rest : List Char} {items : List Value} :
    readScalar cs ≠ .ok (.list items, rest) :=
  readScalar_ne (by simp [words]) rfl

/-- Where an object is read, its text stands. -/
theorem exists_object {cs rest : List Char} {members : Entries}
    (h : readValue cs = .ok (.dict members, rest)) :
    ∃ core, IsObject core members ∧ cs = core ++ rest := by
  obtain ⟨front, hne, rfl, hfront⟩ := (readValueWith_front _).1 _ _ _ h
  refine ⟨front, ⟨?_, fun fuel u hfuel => hfront fuel u hfuel fun hv => by cases hv⟩, rfl⟩
  obtain ⟨c, t, rfl⟩ := List.exists_cons_of_ne_nil hne
  refine ⟨t, ?_⟩
  rw [readValue, List.cons_append] at h
  generalize htext : c :: (t ++ rest) = text at h
  generalize hvalue : Value.dict members = v at h
  cases readsValue_of_ok h with
  | emptyDict _ => rw [(List.cons.inj htext).1]
  | dict _ _ => rw [(List.cons.inj htext).1]
  | scalar h =>
    rw [← hvalue] at h
    exact absurd h readScalar_ne_dict
  | string _ => cases hvalue
  | emptyList _ => cases hvalue
  | list _ _ => cases hvalue

theorem readWhole_of_parse {cs : List Char} {v : Value} (h : parse cs = .ok v) :
    readWhole cs = .ok v := by
  unfold parse at h
  split at h
  · rename_i w hw
    rw [hw, Except.ok.inj h]
  · cases h

/-- What a whole text is read as stands in it between white space. -/
theorem parse_eq_ok_iff {cs : List Char} {v : Value} : parse cs = .ok v ↔
    (∀ t, cs ≠ '\uFEFF' :: t) ∧ ∃ rest, readValue (skipSpace cs) = .ok (v, rest) ∧ IsGap rest := by
  constructor
  · intro h
    have hwhole := readWhole_of_parse h
    unfold readWhole at hwhole
    split at hwhole
    · cases hwhole
    · rename_i hmark
      refine ⟨fun t ht => hmark t ht, ?_⟩
      split at hwhole
      · cases hwhole
      · rename_i v rest hread
        split at hwhole
        · rename_i hrest
          rw [Except.ok.inj hwhole] at hread
          exact ⟨rest, hread, List.dropWhile_eq_nil_iff.1 hrest⟩
        · cases hwhole
  · rintro ⟨hmark, rest, hread, hrest⟩
    have hwhole : readWhole cs = .ok v := by
      unfold readWhole
      split
      · exact absurd rfl (hmark _)
      · rw [hread]
        simp only
        rw [skipSpace_of_gap hrest]
    rw [parse, hwhole]

/-- A text is the value that stands in it between white space. -/
theorem parse_of_readValue (gap tail : List Char) {cs : List Char} {c : Char} {v : Value}
    (hgap : IsGap gap) (hc : isSpace c = false) (hmark : c ≠ '\uFEFF')
    (hread : readValue (c :: cs) = .ok (v, tail)) (htail : IsGap tail) :
    parse (gap ++ c :: cs) = .ok v := by
  refine parse_eq_ok_iff.2 ⟨fun t ht => ?_, tail, ?_, htail⟩
  · cases gap with
    | nil => exact hmark (List.cons.inj ht).1
    | cons g gap =>
      have hg := hgap g List.mem_cons_self
      rw [(List.cons.inj ht).1] at hg
      cases hg
  · rw [skipSpace_gap_cons hgap hc, hread]

/-- **The text of an object** is white space, the object from brace to brace, and white space. -/
theorem exists_object_of_parse {cs : List Char} {members : Entries}
    (h : parse cs = .ok (.dict members)) :
    ∃ before core after, cs = before ++ core ++ after ∧ IsGap before ∧ IsGap after ∧
      IsObject core members := by
  obtain ⟨-, rest, hread, hrest⟩ := parse_eq_ok_iff.1 h
  obtain ⟨core, hcore, hskip⟩ := exists_object hread
  obtain ⟨gap, hgap, hcs⟩ := exists_gap cs
  refine ⟨gap, core, rest, ?_, hgap, hrest, hcore⟩
  rw [List.append_assoc, ← hskip]
  exact hcs

/-! ### Text that breaks off in a long number -/

/-- Text that breaks off, or goes wrong, at an integer with too many digits. -/
def Overlong (cs : List Char) : Prop :=
  ∃ k, readValue cs = .error (.tooManyDigits k)

theorem not_overlong_nil : ¬ Overlong [] := by
  rintro ⟨k, hk⟩
  cases hk

theorem overlong_of_parse {cs : List Char} {k : Option Nat}
    (h : parse cs = .error (.value (.integerTooLong k))) : Overlong (skipSpace cs) := by
  unfold parse at h
  split at h
  · cases h
  · rename_i e hwhole
    unfold readWhole at hwhole
    split at hwhole
    · rw [← Except.error.inj hwhole] at h; cases h
    · split at hwhole
      · rename_i fault hfault
        cases fault with
        | problem p rest => rw [← Except.error.inj hwhole] at h; cases h
        | tooManyDigits count => exact ⟨count, hfault⟩
      · split at hwhole
        · cases hwhole
        · rw [← Except.error.inj hwhole] at h; cases h

theorem parse_of_overlong {cs : List Char} (hmark : ∀ t, cs ≠ '\uFEFF' :: t)
    (h : Overlong (skipSpace cs)) : ∃ k, parse cs = .error (.value (.integerTooLong k)) := by
  obtain ⟨k, hk⟩ := h
  refine ⟨some k, ?_⟩
  have hwhole : readWhole cs = .error (.tooManyDigits k) := by
    unfold readWhole
    split
    · rename_i t
      exact absurd rfl (hmark t)
    · rw [hk]
  rw [parse, hwhole]
  rfl

/-- **A cut text of an object** is a number with too many digits exactly if it is cut between its
braces and what is left of it there breaks off in such a number. -/
theorem parse_cut_iff {before core after cut more : List Char} {members : Entries}
    (hbefore : IsGap before) (hcore : IsObject core members)
    (hcut : before ++ core ++ after = cut ++ more) :
    (∃ k, parse cut = .error (.value (.integerTooLong k))) ↔
      ∃ part rest, cut = before ++ part ∧ core = part ++ rest ∧ Overlong part := by
  have hskip : ∀ part rest, core = part ++ rest → part ≠ [] → skipSpace part = part := by
    intro part rest hpart hne
    obtain ⟨t, ht⟩ := hcore.brace
    obtain ⟨c, part, rfl⟩ := List.exists_cons_of_ne_nil hne
    rw [ht] at hpart
    obtain ⟨rfl, -⟩ := List.cons.inj hpart
    exact skipSpace_cons (by decide) part
  constructor
  · rintro ⟨k, hk⟩
    have hover := overlong_of_parse hk
    rw [List.append_assoc] at hcut
    obtain ⟨part, rfl, hpart⟩ | ⟨tail, hgap, -⟩ := List.append_eq_append_iff.1 hcut
    · rw [skipSpace_gap hbefore] at hover
      obtain ⟨tail, rfl, -⟩ | ⟨rest, hrest, -⟩ := List.append_eq_append_iff.1 hpart
      · obtain ⟨k, hk⟩ := hover
        have hobject := hcore.skipSpace_eq isGap_nil tail
        rw [List.nil_append] at hobject
        rw [hobject, hcore.readValue_eq] at hk
        cases hk
      · refine ⟨part, rest, rfl, hrest, ?_⟩
        by_cases hne : part = []
        · rw [hne] at hover
          exact absurd hover not_overlong_nil
        · rwa [hskip part rest hrest hne] at hover
    · have hempty : skipSpace cut = [] :=
        skipSpace_of_gap fun c hc => hbefore c (by rw [hgap]; simp [hc])
      rw [hempty] at hover
      exact absurd hover not_overlong_nil
  · rintro ⟨part, rest, rfl, hrest, hover⟩
    have hne : part ≠ [] := by rintro rfl; exact not_overlong_nil hover
    refine parse_of_overlong (fun t ht => ?_) ?_
    · -- a text with a byte order mark in front begins neither with white space nor with a brace
      cases before with
      | nil =>
        obtain ⟨u, hu⟩ := hcore.brace
        rw [List.nil_append] at ht
        rw [hrest, ht] at hu
        cases (List.cons.inj hu).1
      | cons c before =>
        have hc := hbefore c (by simp)
        rw [(List.cons.inj ht).1] at hc
        cases hc
    · rwa [skipSpace_gap hbefore, hskip part rest hrest hne]

/-- A text with more digits in a row than an integer may have, and neither a fraction nor an
exponent behind them. -/
def HasLongInteger (cs : List Char) : Prop :=
  ∃ before ds after, cs = before ++ ds ++ after ∧ (∀ c ∈ ds, isAsciiDigit c = true) ∧
    maxIntegerDigits < ds.length ∧ (readFraction after).1 = none ∧ (readPower after).1 = none

theorem HasLongInteger.append_left {cs : List Char} (h : HasLongInteger cs) (front : List Char) :
    HasLongInteger (front ++ cs) := by
  obtain ⟨before, ds, after, rfl, hds⟩ := h
  exact ⟨front ++ before, ds, after, by simp, hds⟩

theorem hasLongInteger_of_skipSpace {cs : List Char} (h : HasLongInteger (skipSpace cs)) :
    HasLongInteger cs := by
  obtain ⟨gap, -, hcs⟩ := exists_gap cs
  rw [hcs]
  exact h.append_left gap

/-- A long integer behind a separator. -/
theorem hasLongInteger_behind {cs t : List Char} {d : Char} (hskip : skipSpace cs = d :: t)
    (h : HasLongInteger (skipSpace t)) : HasLongInteger cs := by
  apply hasLongInteger_of_skipSpace
  rw [hskip]
  exact (hasLongInteger_of_skipSpace h).append_left [d]

theorem readFraction_none {cs : List Char} (h : (readFraction cs).1 = none) :
    (readFraction cs).2 = cs := by
  unfold readFraction at h ⊢
  split
  · simp only at h ⊢
    split
    · rfl
    · rename_i hne
      rw [if_neg hne] at h
      cases h
  · rfl

theorem hasLongInteger_readNumber {negative : Bool} {start cs : List Char} {k : Nat}
    (h : readNumber negative start cs = .error (.tooManyDigits k)) : HasLongInteger cs := by
  unfold readNumber at h
  split at h
  · cases h
  rename_i whole rest hwhole
  obtain ⟨rfl, ⟨-, hds⟩, -⟩ := readWhole?_front hwhole
  simp only at h
  split at h
  · cases h
  rename_i e hvalue
  unfold numberValue at hvalue
  split at hvalue
  · rename_i hnone
    rw [Bool.and_eq_true, Option.isNone_iff_eq_none, Option.isNone_iff_eq_none] at hnone
    split at hvalue
    · rename_i hlen
      refine ⟨[], whole, rest, rfl, hds, hlen, hnone.1, ?_⟩
      rw [readFraction_none hnone.1] at hnone
      exact hnone.2
    · cases hvalue
  · cases hvalue

theorem hasLongInteger_readScalar {cs : List Char} {k : Nat}
    (h : readScalar cs = .error (.tooManyDigits k)) : HasLongInteger cs := by
  unfold readScalar at h
  split at h
  · cases h
  · split at h
    · exact (hasLongInteger_readNumber h).append_left ['-']
    · exact hasLongInteger_readNumber h

theorem consPoint_error {n : Nat} {r : Reading (List Nat)} {e : ReadFault}
    (h : consPoint n r = .error e) : r = .error e := by
  cases r with
  | ok found => cases h
  | error e' => exact h

theorem readPoints_ne_tooManyDigits (opening cs : List Char) (k : Nat) :
    readPoints opening cs ≠ .error (.tooManyDigits k) := by
  induction hlen : cs.length using Nat.strongRecOn generalizing cs with
  | ind n ih =>
    subst hlen
    intro h
    rw [readPoints.eq_def] at h
    split at h
    · cases h
    split at h
    · cases h
    split at h
    · split at h
      · cases h
      split at h
      · split at h
        · split at h
          · exact ih _ (by simp only [List.length_cons]; omega) _ rfl (consPoint_error h)
          · cases h
        · cases h
      · split at h
        · exact ih _ (by simp only [List.length_cons]; omega) _ rfl (consPoint_error h)
        · cases h
    · split at h
      · cases h
      · exact ih _ (by simp only [List.length_cons]; omega) _ rfl (consPoint_error h)

theorem readString_ne_tooManyDigits {cs : List Char} {k : Nat} :
    readString cs ≠ .error (.tooManyDigits k) := by
  intro h
  unfold readString at h
  split at h
  · cases h
  · rename_i e he
    rw [Except.error.inj h] at he
    exact readPoints_ne_tooManyDigits _ _ _ he

section LongIntegers

variable {fuel k : Nat} {cs : List Char}

theorem hasLongInteger_value
    (hitems : ∀ cs, readItemsWith fuel cs = .error (.tooManyDigits k) → HasLongInteger cs)
    (hmembers : ∀ cs, readMembersWith fuel cs = .error (.tooManyDigits k) → HasLongInteger cs)
    (h : readValueWith (fuel + 1) cs = .error (.tooManyDigits k)) : HasLongInteger cs := by
  unfold readValueWith at h
  split at h
  · split at h
    · cases h
    · rename_i hstring
      rw [Except.error.inj h] at hstring
      exact absurd hstring readString_ne_tooManyDigits
  · split at h
    · cases h
    · split at h
      · cases h
      · rename_i herror
        rw [Except.error.inj h] at herror
        exact (hasLongInteger_of_skipSpace (hitems _ herror)).append_left ['[']
  · split at h
    · cases h
    · split at h
      · cases h
      · rename_i herror
        rw [Except.error.inj h] at herror
        exact (hasLongInteger_of_skipSpace (hmembers _ herror)).append_left ['\x7b']
  · exact hasLongInteger_readScalar h

theorem hasLongInteger_items
    (hvalue : ∀ cs, readValueWith fuel cs = .error (.tooManyDigits k) → HasLongInteger cs)
    (hitems : ∀ cs, readItemsWith fuel cs = .error (.tooManyDigits k) → HasLongInteger cs)
    (h : readItemsWith (fuel + 1) cs = .error (.tooManyDigits k)) : HasLongInteger cs := by
  unfold readItemsWith at h
  split at h
  · rename_i herror
    rw [Except.error.inj h] at herror
    exact hvalue _ herror
  · rename_i v r hv
    obtain ⟨front, -, rfl, -⟩ := (readValueWith_front fuel).1 _ _ _ hv
    split at h
    · cases h
    · rename_i t hcomma
      split at h
      · cases h
      · rename_i herror
        rw [Except.error.inj h] at herror
        exact (hasLongInteger_behind hcomma (hitems _ herror)).append_left front
    · cases h

theorem hasLongInteger_members
    (hvalue : ∀ cs, readValueWith fuel cs = .error (.tooManyDigits k) → HasLongInteger cs)
    (hmembers : ∀ cs, readMembersWith fuel cs = .error (.tooManyDigits k) → HasLongInteger cs)
    (h : readMembersWith (fuel + 1) cs = .error (.tooManyDigits k)) : HasLongInteger cs := by
  unfold readMembersWith at h
  split at h
  · split at h
    · rename_i herror
      rw [Except.error.inj h] at herror
      exact absurd herror readString_ne_tooManyDigits
    · rename_i name r hname
      obtain ⟨front, -, rfl, -⟩ := readString_front hname
      split at h
      · rename_i t hcolon
        -- the long integer is in the member's value or in a later member, behind the colon
        suffices hbehind : HasLongInteger (skipSpace t) from
          ((hasLongInteger_behind hcolon hbehind).append_left front).append_left ['"']
        split at h
        · rename_i herror
          rw [Except.error.inj h] at herror
          exact hvalue _ herror
        · rename_i v r₂ hv
          obtain ⟨front₂, -, hcs, -⟩ := (readValueWith_front fuel).1 _ _ _ hv
          rw [hcs]
          split at h
          · cases h
          · rename_i t₂ hcomma
            split at h
            · cases h
            · rename_i herror
              rw [Except.error.inj h] at herror
              exact (hasLongInteger_behind hcomma (hmembers _ herror)).append_left front₂
          · cases h
      · cases h
  · cases h

end LongIntegers

/-- **Only a long integer has too many digits.** -/
theorem readValueWith_tooManyDigits (fuel : Nat) (k : Nat) :
    (∀ cs, readValueWith fuel cs = .error (.tooManyDigits k) → HasLongInteger cs) ∧
    (∀ cs, readItemsWith fuel cs = .error (.tooManyDigits k) → HasLongInteger cs) ∧
    (∀ cs, readMembersWith fuel cs = .error (.tooManyDigits k) → HasLongInteger cs) := by
  induction fuel with
  | zero =>
    refine ⟨fun cs h => ?_, fun cs h => ?_, fun cs h => ?_⟩
    · rw [readValueWith] at h; cases h
    · rw [readItemsWith] at h; cases h
    · rw [readMembersWith] at h; cases h
  | succ fuel ih =>
    obtain ⟨hvalue, hitems, hmembers⟩ := ih
    exact ⟨fun _ h => hasLongInteger_value hitems hmembers h,
      fun _ h => hasLongInteger_items hvalue hitems h,
      fun _ h => hasLongInteger_members hvalue hmembers h⟩

/-- **Text that breaks off in an overlong number** has a long integer in it. -/
theorem Overlong.hasLongInteger {cs : List Char} (h : Overlong cs) : HasLongInteger cs := by
  obtain ⟨k, hk⟩ := h
  exact (readValueWith_tooManyDigits _ k).1 cs hk

end Runbook.Json
