import Runbook.Proofs.JsonReading

/-!
# Reading a value in front of a cut

A value is read at the start of a text; the text is cut behind it, and it is read again without what
stands behind the cut. Only a number can be read as another value then: the cut takes the digits
from its fraction or its exponent, and the mark that is left stands behind a shorter number.

For each part of a number there is a relation that says how it is read, and what becomes of it when
something stands behind the cut or is taken away there.

* `ReadsWhole`, `ReadsFraction`, `ReadsPower`, `ReadsNumber`, `ReadsScalar`: how they are read.
* `IsMark`: what is left behind a shorter number.
* `readValue_of_append`: a value that ends in front of the cut is read without what stands behind.
* `readValue_append`: a value that ends in front of the cut is read whatever stands behind, but for
  a number in front of a mark.
-/

namespace Runbook.Json

open Runbook.Text Runbook.Number

/-! ### How the parts of a number are read -/

/-- How the integer part of a number is read. -/
inductive ReadsWhole : List Char → List Char → List Char → Prop
  | zero {rest} : ReadsWhole ('0' :: rest) ['0'] rest
  | digits {c ds rest} (hc : c ≠ '0') (hds : ∀ d ∈ c :: ds, isAsciiDigit d = true)
    (hrest : NoDigit rest) : ReadsWhole (c :: ds ++ rest) (c :: ds) rest

/-- How a fraction is read: it is taken up, or left alone where no digit stands behind its point. -/
inductive ReadsFraction : List Char → Option (List Char) → List Char → Prop
  | left {cs} (h : ∀ t, cs = '.' :: t → NoDigit t) : ReadsFraction cs none cs
  | taken {ds rest} (hne : ds ≠ []) (hds : ∀ c ∈ ds, isAsciiDigit c = true)
    (hrest : NoDigit rest) : ReadsFraction ('.' :: ds ++ rest) (some ds) rest

/-- The mark of an exponent. -/
def IsExponentMark (m : Char) : Prop := m = 'e' ∨ m = 'E'

/-- A sign that says whether a number is negative, or nothing. -/
def IsSign (negative : Bool) (sign : List Char) : Prop :=
  (sign = [] ∨ sign = ['+']) ∧ negative = false ∨ sign = ['-'] ∧ negative = true

/-- How an exponent is read: it is taken up, or left alone where no digit stands behind its mark and
its sign. -/
inductive ReadsPower : List Char → Option Int → List Char → Prop
  | left {cs} (h : ∀ m t, cs = m :: t → IsExponentMark m → NoDigit (readSign t).2) :
    ReadsPower cs none cs
  | taken {m sign negative ds rest} (hm : IsExponentMark m) (hsign : IsSign negative sign)
    (hne : ds ≠ []) (hds : ∀ c ∈ ds, isAsciiDigit c = true) (hrest : NoDigit rest) :
    ReadsPower (m :: (sign ++ (ds ++ rest)))
      (some (if negative then -(natOfDigits ds : Int) else natOfDigits ds)) rest

section Parts

variable {cs rest : List Char}

/-- Digits and what is left behind them, where no digit stands. -/
theorem spanDigits_iff {ds : List Char} : spanDigits cs = (ds, rest) ↔
    cs = ds ++ rest ∧ (∀ c ∈ ds, isAsciiDigit c = true) ∧ NoDigit rest := by
  constructor
  · intro h
    obtain ⟨hcs, hds⟩ := spanDigits_spec cs
    rw [h] at hcs hds
    refine ⟨hcs, hds, fun c t hrest => ?_⟩
    have hhead := List.head?_dropWhile_not isAsciiDigit cs
    have hdrop : cs.dropWhile isAsciiDigit = rest := (Prod.mk.inj h).2
    rw [hdrop, hrest] at hhead
    simpa using hhead
  · rintro ⟨rfl, hds, hrest⟩
    exact spanDigits_append hds hrest

theorem spanDigits_isEmpty : (spanDigits cs).1.isEmpty = true ↔ NoDigit cs := by
  rw [List.isEmpty_iff]
  constructor
  · intro h
    have hspan : spanDigits cs = ([], (spanDigits cs).2) := Prod.ext h rfl
    obtain ⟨hcs, -, hrest⟩ := spanDigits_iff.1 hspan
    rw [List.nil_append] at hcs
    rwa [hcs]
  · intro h
    have hspan : spanDigits cs = ([], cs) := spanDigits_iff.2 ⟨rfl, by simp, h⟩
    rw [hspan]

theorem readWhole?_iff {whole : List Char} :
    readWhole? cs = some (whole, rest) ↔ ReadsWhole cs whole rest := by
  constructor
  · intro h
    unfold readWhole? at h
    split at h
    · cases h
      exact .zero
    · rename_i c t hzero
      split at h
      · rename_i hc
        obtain ⟨hcs, hds, hrest⟩ := spanDigits_iff.1 (Option.some.inj h)
        cases whole with
        | nil =>
          rw [List.nil_append] at hcs
          rw [hrest c t hcs.symm] at hc
          cases hc
        | cons d ds =>
          obtain ⟨rfl, -⟩ := List.cons.inj hcs
          rw [hcs]
          exact .digits hzero hds hrest
      · cases h
    · cases h
  · intro h
    cases h with
    | zero => rfl
    | @digits c ds rest hc hds hrest =>
      rw [List.cons_append, readWhole?, if_pos (hds c List.mem_cons_self), ← List.cons_append,
        spanDigits_iff.2 ⟨rfl, hds, hrest⟩]
      exact hc

theorem readFraction_iff {fraction : Option (List Char)} :
    readFraction cs = (fraction, rest) ↔ ReadsFraction cs fraction rest := by
  constructor
  · intro h
    unfold readFraction at h
    split at h
    · rename_i t
      dsimp only at h
      split at h
      · rename_i hempty
        cases h
        refine .left fun u hu => ?_
        rw [← (List.cons.inj hu).2]
        exact spanDigits_isEmpty.1 hempty
      · rename_i hne
        obtain ⟨rfl, rfl⟩ := Prod.mk.inj h
        obtain ⟨ht, hds, hrest⟩ := spanDigits_iff.1 (Prod.eta (spanDigits t)).symm
        have htaken := ReadsFraction.taken (by simpa using hne) hds hrest
        rwa [List.cons_append, ← ht] at htaken
    · rename_i hpoint
      cases h
      exact .left fun t ht => absurd ht (hpoint t)
  · intro h
    cases h with
    | left h =>
      unfold readFraction
      split
      · rename_i t
        dsimp only
        rw [if_pos (spanDigits_isEmpty.2 (h t rfl))]
      · rfl
    | @taken ds rest hne hds hrest =>
      rw [List.cons_append, readFraction, spanDigits_iff.2 ⟨rfl, hds, hrest⟩]
      simp [hne]

theorem readSign_unsigned {c : Char} (hplus : c ≠ '+') (hminus : c ≠ '-') (t : List Char) :
    readSign (c :: t) = (false, c :: t) := by
  rw [readSign]
  · exact fun r hr => hplus (List.cons.inj hr).1
  · exact fun r hr => hminus (List.cons.inj hr).1

theorem readSign_iff {negative : Bool} {ds : List Char} (hne : ds ≠ [])
    (hds : ∀ c ∈ ds, isAsciiDigit c = true) :
    readSign cs = (negative, ds ++ rest) ↔
      ∃ sign, IsSign negative sign ∧ cs = sign ++ (ds ++ rest) := by
  constructor
  · intro h
    unfold readSign at h
    split at h
    · obtain ⟨rfl, rfl⟩ := Prod.mk.inj h
      exact ⟨['+'], .inl ⟨.inr rfl, rfl⟩, rfl⟩
    · obtain ⟨rfl, rfl⟩ := Prod.mk.inj h
      exact ⟨['-'], .inr ⟨rfl, rfl⟩, rfl⟩
    · obtain ⟨rfl, rfl⟩ := Prod.mk.inj h
      exact ⟨[], .inl ⟨.inl rfl, rfl⟩, rfl⟩
  · rintro ⟨sign, ⟨rfl | rfl, rfl⟩ | ⟨rfl, rfl⟩, rfl⟩
    · obtain ⟨d, ds, rfl⟩ := List.exists_cons_of_ne_nil hne
      have hd := hds d List.mem_cons_self
      have hplus : d ≠ '+' := by rintro rfl; cases hd
      have hminus : d ≠ '-' := by rintro rfl; cases hd
      exact readSign_unsigned hplus hminus _
    · rfl
    · rfl

theorem readPower_iff {power : Option Int} :
    readPower cs = (power, rest) ↔ ReadsPower cs power rest := by
  have hmark : ∀ c, (c == 'e' || c == 'E') = true ↔ IsExponentMark c := by
    intro c
    simp [IsExponentMark]
  constructor
  · intro h
    unfold readPower at h
    split at h
    · rename_i c t
      split at h
      · rename_i hc
        dsimp only at h
        split at h
        · rename_i hempty
          cases h
          refine .left fun m u hu _ => ?_
          rw [← (List.cons.inj hu).2]
          exact spanDigits_isEmpty.1 hempty
        · rename_i hne
          obtain ⟨rfl, rfl⟩ := Prod.mk.inj h
          obtain ⟨hbody, hds, hrest⟩ := spanDigits_iff.1 (Prod.eta (spanDigits (readSign t).2)).symm
          have hdigits : (spanDigits (readSign t).2).1 ≠ [] := by simpa using hne
          obtain ⟨sign, hsign, ht⟩ := (readSign_iff hdigits hds).1
            (show readSign t = ((readSign t).1, _) from Prod.ext rfl hbody)
          have htaken := ReadsPower.taken ((hmark c).1 hc) hsign hdigits hds hrest
          rwa [← ht] at htaken
      · rename_i hc
        cases h
        refine .left fun m u hu hm => absurd ((hmark m).2 hm) ?_
        rwa [← (List.cons.inj hu).1]
    · cases h
      exact .left fun m u hu _ => nomatch hu
  · intro h
    cases h with
    | left h =>
      unfold readPower
      split
      · rename_i c t
        split
        · rename_i hc
          dsimp only
          rw [if_pos (spanDigits_isEmpty.2 (h c t rfl ((hmark c).1 hc)))]
        · rfl
      · rfl
    | @taken m sign negative ds rest hm hsign hne hds hrest =>
      rw [readPower, if_pos ((hmark m).2 hm), (readSign_iff hne hds).2 ⟨sign, hsign, rfl⟩]
      dsimp only
      rw [spanDigits_iff.2 ⟨rfl, hds, hrest⟩]
      simp [hne]

end Parts

/-! ### Numbers that are cut -/

/-- The beginning of a fraction or of an exponent, without the digits that make it one. -/
def IsMark (tail : List Char) : Prop :=
  tail = ['.'] ∨ ∃ m, IsExponentMark m ∧ (tail = [m] ∨ tail = [m, '+'] ∨ tail = [m, '-'])

section Numbers

variable {cs more rest : List Char}

theorem NoDigit.append {u : List Char} (h : NoDigit u) (hne : u ≠ []) (more : List Char) :
    NoDigit (u ++ more) := by
  obtain ⟨c, t, rfl⟩ := List.exists_cons_of_ne_nil hne
  intro d r hd
  rw [List.cons_append] at hd
  rw [← (List.cons.inj hd).1]
  exact h c t rfl

theorem NoDigit.of_append {u : List Char} (h : NoDigit (u ++ more)) : NoDigit u := by
  intro c t hu
  exact h c (t ++ more) (by rw [hu, List.cons_append])

/-- What is read in front of the cut is read without what stands behind it. -/
theorem ReadsWhole.of_append {whole : List Char}
    (h : ReadsWhole (cs ++ more) whole (rest ++ more)) :
    ReadsWhole cs whole rest := by
  generalize hcs : cs ++ more = text at h
  generalize hrest : rest ++ more = tail at h
  cases h with
  | zero =>
    obtain rfl : cs = '0' :: rest :=
      List.append_cancel_right (by rw [hcs, List.cons_append, hrest])
    exact .zero
  | @digits c ds tail hc hds htail =>
    obtain rfl : cs = c :: ds ++ rest :=
      List.append_cancel_right (by rw [hcs, List.append_assoc, hrest])
    rw [← hrest] at htail
    exact .digits hc hds htail.of_append

/-- What is read in front of a cut is read whatever stands behind it. -/
theorem ReadsWhole.append {whole : List Char} (h : ReadsWhole cs whole rest) (hne : rest ≠ [])
    (more : List Char) : ReadsWhole (cs ++ more) whole (rest ++ more) := by
  cases h with
  | zero => exact .zero
  | digits hc hds hrest =>
    rw [List.append_assoc]
    exact .digits hc hds (hrest.append hne more)

theorem ReadsFraction.of_append {fraction : Option (List Char)}
    (h : ReadsFraction (cs ++ more) fraction (rest ++ more)) : ReadsFraction cs fraction rest := by
  generalize hcs : cs ++ more = text at h
  generalize hrest : rest ++ more = tail at h
  cases h with
  | left hpoint =>
    obtain rfl : cs = rest := List.append_cancel_right (hcs.trans hrest.symm)
    refine .left fun t ht => (hpoint (t ++ more) ?_).of_append
    rw [← hcs, ht, List.cons_append]
  | @taken ds tail hds hdigits htail =>
    obtain rfl : cs = '.' :: ds ++ rest :=
      List.append_cancel_right (by rw [hcs, List.append_assoc, hrest])
    rw [← hrest] at htail
    exact .taken hds hdigits htail.of_append

/-- A fraction may only be another one if the cut stands right behind its point. -/
theorem ReadsFraction.append {fraction : Option (List Char)} (h : ReadsFraction cs fraction rest)
    (hne : rest ≠ []) (more : List Char) : ReadsFraction (cs ++ more) fraction (rest ++ more) ∨
      cs = ['.'] ∧ fraction = none ∧ rest = ['.'] := by
  cases h with
  | left hpoint =>
    by_cases hcs : cs = ['.']
    · exact .inr ⟨hcs, rfl, hcs⟩
    · refine .inl (.left fun t ht => ?_)
      obtain ⟨c, u, rfl⟩ := List.exists_cons_of_ne_nil hne
      obtain ⟨rfl, rfl⟩ := List.cons.inj ht
      exact (hpoint u rfl).append (fun hu => hcs (by rw [hu])) more
  | taken hds hdigits hrest =>
    rw [List.append_assoc]
    exact .inl (.taken hds hdigits (hrest.append hne more))

theorem readSign_append (hne : cs ≠ []) (more : List Char) :
    (readSign (cs ++ more)).2 = (readSign cs).2 ++ more := by
  obtain ⟨c, t, rfl⟩ := List.exists_cons_of_ne_nil hne
  rw [List.cons_append]
  by_cases hplus : c = '+'
  · rw [hplus]
    rfl
  · by_cases hminus : c = '-'
    · rw [hminus]
      rfl
    · rw [readSign_unsigned hplus hminus, readSign_unsigned hplus hminus, List.cons_append]

/-- Nothing stands behind a sign alone. -/
theorem readSign_eq_nil (hne : cs ≠ []) (h : (readSign cs).2 = []) : cs = ['+'] ∨ cs = ['-'] := by
  obtain ⟨c, t, rfl⟩ := List.exists_cons_of_ne_nil hne
  by_cases hplus : c = '+'
  · subst hplus
    obtain rfl : t = [] := h
    exact .inl rfl
  · by_cases hminus : c = '-'
    · subst hminus
      obtain rfl : t = [] := h
      exact .inr rfl
    · rw [readSign_unsigned hplus hminus] at h
      cases h

theorem ReadsPower.of_append {power : Option Int}
    (h : ReadsPower (cs ++ more) power (rest ++ more)) :
    ReadsPower cs power rest := by
  generalize hcs : cs ++ more = text at h
  generalize hrest : rest ++ more = tail at h
  cases h with
  | left hmark =>
    obtain rfl : cs = rest := List.append_cancel_right (hcs.trans hrest.symm)
    refine .left fun m t ht hm => ?_
    have hdigit := hmark m (t ++ more) (by rw [← hcs, ht, List.cons_append]) hm
    by_cases hnil : t = []
    · rw [hnil]
      exact fun c u hu => nomatch hu
    · rw [readSign_append hnil] at hdigit
      exact hdigit.of_append
  | @taken m sign negative ds tail hm hsign hds hdigits htail =>
    obtain rfl : cs = m :: (sign ++ (ds ++ rest)) := by
      refine List.append_cancel_right (hcs.trans ?_)
      simp only [List.cons_append, List.append_assoc, hrest]
    rw [← hrest] at htail
    exact .taken hm hsign hds hdigits htail.of_append

/-- An exponent may only be another one if the cut stands right behind its mark or its sign. -/
theorem ReadsPower.append {power : Option Int} (h : ReadsPower cs power rest) (hne : rest ≠ [])
    (more : List Char) : ReadsPower (cs ++ more) power (rest ++ more) ∨
      IsMark cs ∧ power = none ∧ rest = cs := by
  cases h with
  | left hmark =>
    obtain ⟨m, t, rfl⟩ := List.exists_cons_of_ne_nil hne
    by_cases hm : IsExponentMark m
    · by_cases hnil : t = []
      · exact .inr ⟨.inr ⟨m, hm, .inl (by rw [hnil])⟩, rfl, rfl⟩
      · by_cases hbody : (readSign t).2 = []
        · refine .inr ⟨.inr ⟨m, hm, .inr ?_⟩, rfl, rfl⟩
          rcases readSign_eq_nil hnil hbody with rfl | rfl
          · exact .inl rfl
          · exact .inr rfl
        · refine .inl (.left fun m' t' ht _ => ?_)
          obtain ⟨rfl, rfl⟩ := List.cons.inj ht
          show NoDigit (readSign (t ++ more)).2
          rw [readSign_append hnil]
          exact (hmark m t rfl hm).append hbody more
    · exact .inl (.left fun m' t' ht hm' => absurd ((List.cons.inj ht).1 ▸ hm') hm)
  | taken hm hsign hds hdigits hrest =>
    rw [List.cons_append, List.append_assoc, List.append_assoc]
    exact .inl (.taken hm hsign hds hdigits (hrest.append hne more))

/-- A number has a value if it has a fraction or an exponent, or not too many digits. -/
theorem exists_numberValue_iff {negative : Bool} {whole : List Char} {fraction : Option (List Char)}
    {power : Option Int} : (∃ v, numberValue negative whole fraction power = .ok v) ↔
      fraction.isSome = true ∨ power.isSome = true ∨ whole.length ≤ maxIntegerDigits := by
  unfold numberValue
  cases fraction <;> cases power <;> simp
  split <;> simp_all

theorem ReadsWhole.suffix {whole : List Char} (h : ReadsWhole cs whole rest) :
    ∃ front, cs = front ++ rest := by
  cases h with
  | zero => exact ⟨['0'], rfl⟩
  | digits _ _ _ => exact ⟨_, rfl⟩

theorem ReadsFraction.suffix {fraction : Option (List Char)} (h : ReadsFraction cs fraction rest) :
    ∃ front, cs = front ++ rest := by
  cases h with
  | left _ => exact ⟨[], rfl⟩
  | taken _ _ _ => exact ⟨_, rfl⟩

theorem ReadsPower.suffix {power : Option Int} (h : ReadsPower cs power rest) :
    ∃ front, cs = front ++ rest := by
  cases h with
  | left _ => exact ⟨[], rfl⟩
  | @taken m sign negative ds rest _ _ _ _ _ => exact ⟨m :: (sign ++ ds), by simp⟩

/-- How a number is read. -/
inductive ReadsNumber (negative : Bool) (cs : List Char) (v : Value) (rest : List Char) : Prop
  | mk {whole fraction power behindWhole behindFraction}
    (hwhole : ReadsWhole cs whole behindWhole)
    (hfraction : ReadsFraction behindWhole fraction behindFraction)
    (hpower : ReadsPower behindFraction power rest)
    (hvalue : numberValue negative whole fraction power = .ok v)

theorem readNumber_iff {negative : Bool} {start : List Char} {v : Value} :
    readNumber negative start cs = .ok (v, rest) ↔ ReadsNumber negative cs v rest := by
  constructor
  · intro h
    unfold readNumber at h
    split at h
    · cases h
    · rename_i whole behind hwhole
      dsimp only at h
      split at h
      · rename_i w hvalue
        cases h
        exact .mk (readWhole?_iff.1 hwhole) (readFraction_iff.1 (Prod.eta _).symm)
          (readPower_iff.1 (Prod.eta _).symm) hvalue
      · cases h
  · rintro ⟨hwhole, hfraction, hpower, hvalue⟩
    rw [readNumber, readWhole?_iff.2 hwhole]
    dsimp only
    rw [readFraction_iff.2 hfraction]
    dsimp only
    rw [readPower_iff.2 hpower]
    dsimp only
    rw [hvalue]

theorem ReadsNumber.suffix {negative : Bool} {v : Value} (h : ReadsNumber negative cs v rest) :
    ∃ front, cs = front ++ rest := by
  obtain ⟨hwhole, hfraction, hpower, -⟩ := h
  obtain ⟨p, rfl⟩ := hpower.suffix
  obtain ⟨f, rfl⟩ := hfraction.suffix
  obtain ⟨w, rfl⟩ := hwhole.suffix
  exact ⟨w ++ f ++ p, by simp only [List.append_assoc]⟩

/-- A number that ends in front of a cut is read without what stands behind it. -/
theorem ReadsNumber.of_append {negative : Bool} {v : Value}
    (h : ReadsNumber negative (cs ++ more) v (rest ++ more)) : ReadsNumber negative cs v rest := by
  obtain ⟨hwhole, hfraction, hpower, hvalue⟩ := h
  obtain ⟨p, rfl⟩ := hpower.suffix
  obtain ⟨f, rfl⟩ := hfraction.suffix
  simp only [← List.append_assoc] at hpower hfraction hwhole
  exact .mk hwhole.of_append hfraction.of_append hpower.of_append hvalue

/-- **A number in front of a cut** is read whatever stands behind it, unless the cut stands behind a
mark; then another number may be read. -/
theorem ReadsNumber.append {negative : Bool} {v : Value} (h : ReadsNumber negative cs v rest)
    (hne : rest ≠ []) (more : List Char) : ReadsNumber negative (cs ++ more) v (rest ++ more) ∨
      IsMark rest ∧ ∃ w tail, ReadsNumber negative (cs ++ more) w tail := by
  obtain @⟨whole, fraction, power, behindWhole, behindFraction, hwhole, hfraction, hpower,
    hvalue⟩ := h
  have hvalues := exists_numberValue_iff.1 ⟨v, hvalue⟩
  have hbehindFraction : behindFraction ≠ [] := by
    obtain ⟨p, rfl⟩ := hpower.suffix
    simp [hne]
  have hbehindWhole : behindWhole ≠ [] := by
    obtain ⟨f, rfl⟩ := hfraction.suffix
    simp [hbehindFraction]
  have hwhole' := hwhole.append hbehindWhole more
  rcases hfraction.append hbehindFraction more with hfraction' | ⟨-, rfl, rfl⟩
  · rcases hpower.append hne more with hpower' | ⟨hmark, rfl, rfl⟩
    · exact .inl (.mk hwhole' hfraction' hpower' hvalue)
    · obtain ⟨w, hw⟩ : ∃ w, numberValue negative whole fraction
          (readPower (rest ++ more)).1 = .ok w :=
        exists_numberValue_iff.2 (by simp at hvalues; tauto)
      exact .inr ⟨hmark, w, _, .mk hwhole' hfraction' (readPower_iff.1 (Prod.eta _).symm) hw⟩
  · obtain ⟨rfl, rfl⟩ : power = none ∧ rest = ['.'] := by
      generalize hpoint : ['.'] = point at hpower
      cases hpower with
      | left _ => exact ⟨rfl, rfl⟩
      | taken hm _ _ _ _ =>
        rw [← (List.cons.inj hpoint).1] at hm
        rcases hm with hm | hm <;> cases hm
    obtain ⟨w, hw⟩ : ∃ w, numberValue negative whole (readFraction (behindWhole ++ more)).1
        (readPower (readFraction (behindWhole ++ more)).2).1 = .ok w :=
      exists_numberValue_iff.2 (by simp at hvalues; tauto)
    exact .inr ⟨.inl rfl, w, _, .mk hwhole' (readFraction_iff.1 (Prod.eta _).symm)
      (readPower_iff.1 (Prod.eta _).symm) hw⟩

end Numbers

/-! ### Values that are cut -/

section Values

variable {cs more rest : List Char} {v : Value}

/-- How a scalar is read: it is a word, or a number behind its sign. -/
inductive ReadsScalar (cs : List Char) (v : Value) (rest : List Char) : Prop
  | word {word} (hword : (word, v) ∈ words) (hcs : cs = word ++ rest)
  | negative {t} (hcs : cs = '-' :: t) (h : ReadsNumber true t v rest)
  | positive (h : ReadsNumber false cs v rest)

theorem ReadsNumber.exists_digit {negative : Bool} (h : ReadsNumber negative cs v rest) :
    ∃ c t, cs = c :: t ∧ isAsciiDigit c = true := by
  have hread : readNumber negative [] cs = .ok (v, rest) := readNumber_iff.2 h
  obtain ⟨-, front, rfl, ⟨c, t, rfl, hc⟩, -⟩ := readNumber_front hread
  exact ⟨c, t ++ rest, rfl, hc⟩

theorem readScalar_iff : readScalar cs = .ok (v, rest) ↔ ReadsScalar cs v rest := by
  constructor
  · intro h
    unfold readScalar at h
    split at h
    · rename_i found hfound
      rw [Except.ok.inj h] at hfound
      obtain ⟨word, hmem, hcs⟩ := readWord?_front hfound
      exact .word hmem hcs
    · split at h
      · exact .negative rfl (readNumber_iff.1 h)
      · exact .positive (readNumber_iff.1 h)
  · intro h
    cases h with
    | word hword hcs =>
      unfold readScalar
      rw [hcs, readWord?_word hword]
    | negative hcs h =>
      obtain ⟨c, t, rfl, hc⟩ := h.exists_digit
      rw [hcs, readScalar_negative hc]
      exact readNumber_iff.2 h
    | positive h =>
      obtain ⟨c, t, rfl, hc⟩ := h.exists_digit
      rw [readScalar_positive hc]
      exact readNumber_iff.2 h

theorem ReadsScalar.of_append (h : ReadsScalar (cs ++ more) v (rest ++ more)) :
    ReadsScalar cs v rest := by
  cases h with
  | word hword hcs =>
    refine .word hword (List.append_cancel_right (hcs.trans ?_))
    rw [List.append_assoc]
  | @negative t hcs h =>
    cases cs with
    | nil =>
      -- what stands behind the cut would stand behind the sign too
      obtain ⟨p, rfl⟩ := h.suffix
      have hlen := congrArg List.length hcs
      simp only [List.nil_append, List.length_cons, List.length_append] at hlen
      omega
    | cons c cs =>
      obtain ⟨rfl, rfl⟩ := List.cons.inj hcs
      exact .negative rfl h.of_append
  | positive h => exact .positive h.of_append

/-- **A scalar in front of a cut** is read whatever stands behind it, unless the cut stands behind a
mark. -/
theorem ReadsScalar.append (h : ReadsScalar cs v rest) (hne : rest ≠ []) (more : List Char) :
    ReadsScalar (cs ++ more) v (rest ++ more) ∨
      IsMark rest ∧ ∃ w tail, ReadsScalar (cs ++ more) w tail := by
  cases h with
  | word hword hcs =>
    refine .inl (.word hword ?_)
    rw [hcs, List.append_assoc]
  | negative hcs h =>
    rw [hcs]
    rcases h.append hne more with h | ⟨hmark, w, tail, h⟩
    · exact .inl (.negative rfl h)
    · exact .inr ⟨hmark, w, tail, .negative rfl h⟩
  | positive h =>
    rcases h.append hne more with h | ⟨hmark, w, tail, h⟩
    · exact .inl (.positive h)
    · exact .inr ⟨hmark, w, tail, .positive h⟩

/-- A value is read as a scalar, or it is no number and begins with a quote, a bracket or a brace.
-/
theorem readValue_cases (h : readValue cs = .ok (v, rest)) :
    isNumber v = false ∨ ∃ c t, cs = c :: t ∧ BeginsScalar c ∧ ReadsScalar cs v rest := by
  cases readsValue_of_ok h with
  | scalar h =>
    obtain ⟨c, t, hcs, hc, -⟩ := readScalar_front h
    exact .inr ⟨c, t ++ rest, hcs, hc, readScalar_iff.1 h⟩
  | _ => exact .inl rfl

theorem readValue_scalar {c : Char} {t : List Char} (hc : BeginsScalar c) :
    readValue (c :: t) = .ok (v, rest) ↔ ReadsScalar (c :: t) v rest := by
  rw [readValue, readValueWith_scalar hc, readScalar_iff]

/-- A value that is no number ends where it ends, whatever stands behind it. -/
theorem readValue_other (h : readValue cs = .ok (v, rest)) (hv : isNumber v = false) :
    ∃ front, cs = front ++ rest ∧ ∀ u, readValue (front ++ u) = .ok (v, u) := by
  obtain ⟨front, -, hcs, hfront⟩ := readValue_front h
  refine ⟨front, hcs, fun u => hfront u fun hnumber => ?_⟩
  rw [hv] at hnumber
  cases hnumber

/-- **A value that ends in front of a cut** is read without what stands behind the cut. -/
theorem readValue_of_append (h : readValue (cs ++ more) = .ok (v, rest ++ more)) :
    readValue cs = .ok (v, rest) := by
  rcases readValue_cases h with hv | ⟨c, t, hcs, hc, hscalar⟩
  · obtain ⟨front, hcs, hfront⟩ := readValue_other h hv
    obtain rfl : cs = front ++ rest :=
      List.append_cancel_right (by rw [hcs, List.append_assoc])
    exact hfront rest
  · have hscalar := hscalar.of_append
    cases cs with
    | nil =>
      obtain ⟨d, u, hnil, -⟩ := readScalar_front (readScalar_iff.2 hscalar)
      cases hnil
    | cons d cs =>
      obtain ⟨rfl, -⟩ := List.cons.inj hcs
      exact (readValue_scalar hc).2 hscalar

/-- **A value in front of a cut** is read whatever stands behind it, unless the cut stands behind
the mark of a number; then another value may be read. -/
theorem readValue_append (hne : rest ≠ []) (h : readValue cs = .ok (v, rest)) (more : List Char) :
    readValue (cs ++ more) = .ok (v, rest ++ more) ∨
      IsMark rest ∧ (∀ members, v ≠ .dict members) ∧
        ∃ found, readValue (cs ++ more) = .ok found := by
  rcases readValue_cases h with hv | ⟨c, t, rfl, hc, hscalar⟩
  · obtain ⟨front, rfl, hfront⟩ := readValue_other h hv
    rw [List.append_assoc]
    exact .inl (hfront _)
  · rcases hscalar.append hne more with h | ⟨hmark, w, tail, h⟩
    · exact .inl ((readValue_scalar hc).2 h)
    · refine .inr ⟨hmark, ?_, (w, tail), (readValue_scalar hc).2 h⟩
      rintro members rfl
      exact readScalar_ne_dict (readScalar_iff.2 hscalar)

theorem IsMark.head (h : IsMark rest) : ∃ m t, rest = m :: t ∧ (m = '.' ∨ m = 'e' ∨ m = 'E') := by
  rcases h with rfl | ⟨m, hm, rfl | rfl | rfl⟩
  · exact ⟨'.', [], rfl, .inl rfl⟩
  · exact ⟨m, [], rfl, .inr hm⟩
  · exact ⟨m, ['+'], rfl, .inr hm⟩
  · exact ⟨m, ['-'], rfl, .inr hm⟩

/-- What begins as a mark does is no value, and too many digits are not the reason. -/
theorem readValue_mark (hmark : IsMark rest) (more : List Char) :
    ∃ p left, readValue (rest ++ more) = .error (.problem p left) := by
  obtain ⟨m, t, rfl, hm⟩ := hmark.head
  refine ⟨.missingValue, m :: (t ++ more), ?_⟩
  rcases hm with rfl | rfl | rfl <;> rfl

end Values

end Runbook.Json
