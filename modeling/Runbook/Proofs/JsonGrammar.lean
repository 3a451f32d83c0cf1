import Mathlib.Tactic.Common
import Runbook.Proofs.Digits
import Runbook.Proofs.JsonCutting

/-!
# The grammar of JSON

What a text must be made of to be a JSON value: a word, a number, a string, or an array or an object
of values, with white space where it may stand. The reader comes to the end of every such text, or
to an integer with too many digits in it; and whatever it reads is such a text. So the grammar says
what is JSON without a limit on digits, and the reader says nothing else.

* `IsNumeral`, `IsStringBody`: the texts of numbers and strings.
* `Derives`: the texts of values, of the items of arrays and of the members of objects.
* `ReachesEnd`: a reading that comes to the end of a text, or to too many digits.
* `derives_completes`, `IsJson.readValue_reaches`: **completeness**, by induction on the derivation.
* `derives_of_ok`, `exists_isJson`: **soundness**, by induction on the fuel.
-/

namespace Runbook.Json

open Runbook.Text Runbook.Number

/-! ### Texts of numbers and strings -/

/-- Digits, one at least. -/
structure IsDigits (ds : List Char) : Prop where
  ne_nil : ds ≠ []
  digits : ∀ c ∈ ds, isAsciiDigit c = true

/-- The integer part of a number: a zero, or digits that do not begin with one. -/
def IsWholePart (ds : List Char) : Prop :=
  ds = ['0'] ∨ IsDigits ds ∧ ds.head? ≠ some '0'

/-- The fraction of a number, which may be missing. -/
def IsFractionPart (cs : List Char) : Prop :=
  cs = [] ∨ ∃ ds, IsDigits ds ∧ cs = '.' :: ds

/-- The exponent of a number, which may be missing. -/
def IsPowerPart (cs : List Char) : Prop :=
  cs = [] ∨ ∃ m sign negative ds, IsExponentMark m ∧ IsSign negative sign ∧ IsDigits ds ∧
    cs = m :: (sign ++ ds)

/-- The text of a number without its sign. -/
inductive IsNumeral : List Char → Prop
  | mk {whole fraction power} (hwhole : IsWholePart whole) (hfraction : IsFractionPart fraction)
    (hpower : IsPowerPart power) : IsNumeral (whole ++ (fraction ++ power))

/-- The text of a string from behind its opening quote to its closing quote. -/
inductive IsStringBody : List Char → Prop
  | close : IsStringBody ['"']
  | code {h₁ h₂ h₃ h₄ t} (hunit : (codeUnit? h₁ h₂ h₃ h₄).isSome = true) (ht : IsStringBody t) :
    IsStringBody ('\\' :: 'u' :: h₁ :: h₂ :: h₃ :: h₄ :: t)
  | escape {e t} (hu : e ≠ 'u') (he : (escaped? e).isSome = true) (ht : IsStringBody t) :
    IsStringBody ('\\' :: e :: t)
  | plain {c t} (hquote : c ≠ '"') (hslash : c ≠ '\\') (hcontrol : ¬ c.toNat < 0x20)
    (ht : IsStringBody t) : IsStringBody (c :: t)

/-! ### Texts of values -/

/-- What a text may be a derivation of: a value, or the items of an array or the members of an
object, one at least and up to the closing bracket or brace. -/
inductive Part
  | value
  | items
  | members

/-- **The texts of values**, of items and of members. -/
inductive Derives : Part → List Char → Prop
  | word {cs v} (h : (cs, v) ∈ words) : Derives .value cs
  | positive {cs} (h : IsNumeral cs) : Derives .value cs
  | negative {cs} (h : IsNumeral cs) : Derives .value ('-' :: cs)
  | string {cs} (h : IsStringBody cs) : Derives .value ('"' :: cs)
  | emptyArray {gap} (hgap : IsGap gap) : Derives .value ('[' :: (gap ++ [']']))
  | array {gap cs} (hgap : IsGap gap) (h : Derives .items cs) : Derives .value ('[' :: (gap ++ cs))
  | emptyObject {gap} (hgap : IsGap gap) : Derives .value ('\x7b' :: (gap ++ ['\x7d']))
  | object {gap cs} (hgap : IsGap gap) (h : Derives .members cs) :
    Derives .value ('\x7b' :: (gap ++ cs))
  | lastItem {x gap} (hx : Derives .value x) (hgap : IsGap gap) :
    Derives .items (x ++ (gap ++ [']']))
  | moreItems {x gap space cs} (hx : Derives .value x) (hgap : IsGap gap) (hspace : IsGap space)
    (h : Derives .items cs) : Derives .items (x ++ (gap ++ ',' :: (space ++ cs)))
  | lastMember {name gap space x last} (hname : IsStringBody name) (hgap : IsGap gap)
    (hspace : IsGap space) (hx : Derives .value x) (hlast : IsGap last) :
    Derives .members ('"' :: (name ++ (gap ++ ':' :: (space ++ (x ++ (last ++ ['\x7d']))))))
  | moreMembers {name gap space x last next cs} (hname : IsStringBody name) (hgap : IsGap gap)
    (hspace : IsGap space) (hx : Derives .value x) (hlast : IsGap last) (hnext : IsGap next)
    (h : Derives .members cs) :
    Derives .members
      ('"' :: (name ++ (gap ++ ':' :: (space ++ (x ++ (last ++ ',' :: (next ++ cs)))))))

/-- The text of a JSON value. -/
def IsJson (cs : List Char) : Prop := Derives .value cs

/-- A character that a value, an item or a member begins with: it is no blank and closes nothing. -/
def BeginsPart (c : Char) : Prop :=
  isBlank c = false ∧ c ≠ ']' ∧ c ≠ '\x7d'

instance (c : Char) : Decidable (BeginsPart c) := by
  unfold BeginsPart; infer_instance

/-! ### How texts begin -/

section Beginnings

variable {cs : List Char} {p : Part}

theorem beginsPart_digit {c : Char} (h : isAsciiDigit c = true) : BeginsPart c := by
  refine ⟨isBlank_digit h, ?_, ?_⟩
  · rintro rfl; cases h
  · rintro rfl; cases h

theorem IsNumeral.exists_digit (h : IsNumeral cs) : ∃ c t, cs = c :: t ∧ isAsciiDigit c = true := by
  obtain ⟨hwhole, -, -⟩ := h
  rcases hwhole with rfl | ⟨hds, -⟩
  · exact ⟨'0', _, rfl, by decide⟩
  · obtain ⟨c, ds, rfl⟩ := List.exists_cons_of_ne_nil hds.ne_nil
    exact ⟨c, _, rfl, hds.digits c List.mem_cons_self⟩

theorem IsStringBody.ne_nil (h : IsStringBody cs) : cs ≠ [] := by
  cases h <;> simp

/-- **Every derivation begins** with a character that is no blank and closes nothing. -/
theorem Derives.begins (h : Derives p cs) : ∃ c t, cs = c :: t ∧ BeginsPart c := by
  induction h with
  | @word cs v h =>
    simp only [words, List.mem_cons, List.not_mem_nil, or_false, Prod.mk.injEq] at h
    rcases h with ⟨rfl, -⟩ | ⟨rfl, -⟩ | ⟨rfl, -⟩ | ⟨rfl, -⟩ | ⟨rfl, -⟩ | ⟨rfl, -⟩ <;>
      exact ⟨_, _, rfl, by decide⟩
  | positive h =>
    obtain ⟨c, t, rfl, hc⟩ := h.exists_digit
    exact ⟨c, t, rfl, beginsPart_digit hc⟩
  | lastItem _ _ ih =>
    obtain ⟨c, t, rfl, hc⟩ := ih
    exact ⟨c, _, rfl, hc⟩
  | moreItems _ _ _ _ ih =>
    obtain ⟨c, t, rfl, hc⟩ := ih
    exact ⟨c, _, rfl, hc⟩
  | _ => exact ⟨_, _, rfl, by decide⟩

end Beginnings

/-! ### Completeness -/

/-- **A reading that comes to the end** of a text with something behind it, or to an integer with
too many digits in it. -/
inductive ReachesEnd {α : Type} (behind : List Char) : Reading α → Prop
  | ended (a : α) : ReachesEnd behind (.ok (a, behind))
  | overlong (count : Nat) : ReachesEnd behind (.error (.tooManyDigits count))

section Scalars

variable {cs u : List Char}

theorem readsWhole_part (h : IsWholePart cs) (hu : NoDigit u) : ReadsWhole (cs ++ u) cs u := by
  rcases h with rfl | ⟨hds, hzero⟩
  · exact .zero
  · obtain ⟨c, ds, rfl⟩ := List.exists_cons_of_ne_nil hds.ne_nil
    exact .digits (fun hc => hzero (by rw [hc]; rfl)) hds.digits hu

/-- A fraction is read the same whatever stands behind it; one that is there is taken up. -/
theorem exists_readsFraction (h : IsFractionPart cs) :
    ∃ fraction, (cs ≠ [] → fraction.isSome = true) ∧
      ∀ u, NoFraction u → ReadsFraction (cs ++ u) fraction u := by
  rcases h with rfl | ⟨ds, hds, rfl⟩
  · exact ⟨none, fun h => absurd rfl h, fun u hu => .left fun t ht => absurd ht (hu.2 t)⟩
  · exact ⟨some ds, fun _ => rfl, fun u hu => .taken hds.ne_nil hds.digits hu.1⟩

/-- An exponent is read the same whatever ends the number; one that is there is taken up. -/
theorem exists_readsPower (h : IsPowerPart cs) : ∃ power, (cs ≠ [] → power.isSome = true) ∧
    ∀ u, Ends u → ReadsPower (cs ++ u) power u := by
  rcases h with rfl | ⟨m, sign, negative, ds, hm, hsign, hds, rfl⟩
  · refine ⟨none, fun h => absurd rfl h, fun u hu => .left fun m t ht hm => ?_⟩
    have := hu m t ht
    rcases hm with rfl | rfl <;> cases this
  · refine ⟨some (if negative then -(natOfDigits ds : Int) else natOfDigits ds), fun _ => rfl,
      fun u hu => ?_⟩
    rw [List.cons_append, List.append_assoc]
    exact .taken hm hsign hds.ne_nil hds.digits hu.noDigit

/-- An exponent goes on with neither a digit nor a fraction. -/
theorem IsPowerPart.noFraction (h : IsPowerPart cs) (hu : Ends u) : NoFraction (cs ++ u) := by
  rcases h with rfl | ⟨m, sign, negative, ds, hm, -, -, rfl⟩
  · exact hu.noFraction
  · refine ⟨fun c t ht => ?_, fun t ht => ?_⟩
    · rw [← (List.cons.inj ht).1]
      rcases hm with rfl | rfl <;> rfl
    · have hpoint := (List.cons.inj ht).1
      rcases hm with rfl | rfl <;> cases hpoint

/-- A fraction does not go on with a digit. -/
theorem IsFractionPart.noDigit (h : IsFractionPart cs) (hu : NoFraction u) : NoDigit (cs ++ u) := by
  rcases h with rfl | ⟨ds, -, rfl⟩
  · exact hu.1
  · intro c t ht
    rw [← (List.cons.inj ht).1]
    rfl

theorem numberValue_error {negative : Bool} {whole : List Char} {fraction : Option (List Char)}
    {power : Option Int} {e : ReadFault}
    (h : numberValue negative whole fraction power = .error e) :
    ∃ count, e = .tooManyDigits count := by
  unfold numberValue at h
  split at h
  · split at h
    · exact ⟨_, (Except.error.inj h).symm⟩
    · cases h
  · cases h

theorem readNumber_reaches (h : IsNumeral cs) (hu : Ends u) (negative : Bool) (start : List Char) :
    ReachesEnd u (readNumber negative start (cs ++ u)) := by
  obtain @⟨whole, fraction, power, hwhole, hfraction, hpower⟩ := h
  have hnofraction := hpower.noFraction hu
  obtain ⟨p, -, hpowers⟩ := exists_readsPower hpower
  obtain ⟨f, -, hfractions⟩ := exists_readsFraction hfraction
  have hp := hpowers u hu
  have hf := hfractions _ hnofraction
  have hw := readsWhole_part hwhole (hfraction.noDigit hnofraction)
  rw [List.append_assoc, List.append_assoc, readNumber, readWhole?_iff.2 hw]
  dsimp only
  rw [readFraction_iff.2 hf]
  dsimp only
  rw [readPower_iff.2 hp]
  dsimp only
  cases hvalue : numberValue negative whole f p with
  | error e =>
    obtain ⟨count, rfl⟩ := numberValue_error hvalue
    exact .overlong count
  | ok v => exact .ended v

theorem readPoints_body (h : IsStringBody cs) (opening u : List Char) :
    ∃ points, readPoints opening (cs ++ u) = .ok (points, u) := by
  induction h with
  | close => exact ⟨[], by rw [List.cons_append, readPoints.eq_def]; simp⟩
  | @code h₁ h₂ h₃ h₄ t hunit ht ih =>
    obtain ⟨points, hpoints⟩ := ih
    obtain ⟨n, hn⟩ := Option.isSome_iff_exists.1 hunit
    obtain ⟨next, tail, rfl⟩ := List.exists_cons_of_ne_nil ht.ne_nil
    refine ⟨n :: points, ?_⟩
    simp only [List.cons_append] at hpoints ⊢
    rw [readPoints.eq_def]
    simp [hn, hpoints, consPoint]
  | @escape e t hu he ht ih =>
    obtain ⟨points, hpoints⟩ := ih
    obtain ⟨d, hd⟩ := Option.isSome_iff_exists.1 he
    refine ⟨d.toNat :: points, ?_⟩
    rw [List.cons_append, List.cons_append, readPoints.eq_def]
    simp [hu, hd, hpoints, consPoint]
  | @plain c t hquote hslash hcontrol ht ih =>
    obtain ⟨points, hpoints⟩ := ih
    refine ⟨c.toNat :: points, ?_⟩
    rw [List.cons_append, readPoints.eq_def]
    simp [hquote, hslash, hcontrol, hpoints, consPoint]

theorem readString_body (h : IsStringBody cs) (u : List Char) :
    ∃ s, readString (cs ++ u) = .ok (s, u) := by
  obtain ⟨points, hpoints⟩ := readPoints_body h ('"' :: (cs ++ u)) u
  exact ⟨_, by rw [readString, hpoints]⟩

theorem readScalar_word {v : Value} (h : (cs, v) ∈ words) (u : List Char) :
    readScalar (cs ++ u) = .ok (v, u) := by
  unfold readScalar
  rw [readWord?_word h]

end Scalars

/-! #### Values, items and members -/

theorem BeginsPart.isSpace_eq {c : Char} (h : BeginsPart c) : isSpace c = false := by
  refine Bool.eq_false_iff.2 fun hspace => ?_
  have hblank := h.1
  simp only [isSpace, Bool.or_eq_true, beq_iff_eq] at hspace
  rcases hspace with ((rfl | rfl) | rfl) | rfl <;> cases hblank

/-- White space in front of a derivation. -/
theorem Derives.skipSpace_eq {p : Part} {cs gap : List Char} (h : Derives p cs) (hgap : IsGap gap)
    (u : List Char) : skipSpace (gap ++ (cs ++ u)) = cs ++ u := by
  obtain ⟨c, t, rfl, hc⟩ := h.begins
  exact skipSpace_gap_cons hgap hc.isSpace_eq _

/-- A derivation does not begin with a closing bracket or brace. -/
theorem Derives.not_closed {p : Part} {cs : List Char} (h : Derives p cs) (u : List Char) :
    (∀ t, cs ++ u ≠ ']' :: t) ∧ ∀ t, cs ++ u ≠ '\x7d' :: t := by
  obtain ⟨c, t, rfl, hc⟩ := h.begins
  exact ⟨fun _ ht => hc.2.1 (List.cons.inj ht).1, fun _ ht => hc.2.2 (List.cons.inj ht).1⟩

/-- What is read of a text comes to its end, with as much fuel as it has characters. -/
def Completes {α : Type} (read : Nat → List Char → Reading α) (mayFollow : List Char → Prop)
    (cs : List Char) : Prop :=
  ∀ fuel u, cs.length ≤ fuel → mayFollow u → ReachesEnd u (read fuel (cs ++ u))

/-- What a derivation is read as comes to its end. -/
def Part.Completes : Part → List Char → Prop
  | .value => Json.Completes readValueWith Ends
  | .items => Json.Completes readItemsWith fun _ => True
  | .members => Json.Completes readMembersWith fun _ => True

/-- The reading of what is made of something that is read. -/
def made {α β : Type} (f : α → β) (r : Reading α) : Reading β :=
  r.map fun found => (f found.1, found.2)

section Steps

variable {α β : Type} {read : Nat → List Char → Reading α} {mayFollow : List Char → Prop}
  {fuel : Nat} {cs x name gap space last next u r t : List Char} {v : Value}

theorem completes_of_succ (hne : cs ≠ []) (h : ∀ fuel u, cs.length ≤ fuel + 1 → mayFollow u →
    ReachesEnd u (read (fuel + 1) (cs ++ u))) : Completes read mayFollow cs := by
  intro fuel u hfuel hu
  cases fuel with
  | zero => exact absurd (List.length_eq_zero_iff.1 (Nat.le_zero.1 hfuel)) hne
  | succ fuel => exact h fuel u hfuel hu

theorem ReachesEnd.made {r : Reading α} (h : ReachesEnd u r) (f : α → β) :
    ReachesEnd u (made f r) := by
  cases h with
  | ended a => exact .ended (f a)
  | overlong count => exact .overlong count

theorem readValueWith_items (hcs : ∀ t, skipSpace cs ≠ ']' :: t) :
    readValueWith (fuel + 1) ('[' :: cs) = made .list (readItemsWith fuel (skipSpace cs)) := by
  rw [readValueWith]
  split
  · rename_i t ht
    exact absurd ht (hcs t)
  · cases readItemsWith fuel (skipSpace cs) <;> rfl

theorem readValueWith_members (hcs : ∀ t, skipSpace cs ≠ '\x7d' :: t) :
    readValueWith (fuel + 1) ('\x7b' :: cs) =
      made (fun members => .dict (Entries.ofList members))
        (readMembersWith fuel (skipSpace cs)) := by
  rw [readValueWith]
  split
  · rename_i t ht
    exact absurd ht (hcs t)
  · cases readMembersWith fuel (skipSpace cs) <;> rfl

theorem readItemsWith_comma (h : readValueWith fuel cs = .ok (v, r)) (hr : skipSpace r = ',' :: t) :
    readItemsWith (fuel + 1) cs = made (v :: ·) (readItemsWith fuel (skipSpace t)) := by
  simp only [readItemsWith, h, hr]
  cases readItemsWith fuel (skipSpace t) <;> rfl

theorem readMembersWith_comma {s : String} {r₁ t₁ : List Char} (hname : readString cs = .ok (s, r₁))
    (hr₁ : skipSpace r₁ = ':' :: t₁) (h : readValueWith fuel (skipSpace t₁) = .ok (v, r))
    (hr : skipSpace r = ',' :: t) : readMembersWith (fuel + 1) ('"' :: cs) =
      made ((.str s, v) :: ·) (readMembersWith fuel (skipSpace t)) := by
  simp only [readMembersWith, hname, hr₁, h, hr]
  cases readMembersWith fuel (skipSpace t) <;> rfl

theorem readMembersWith_fault {s : String} {r₁ t₁ : List Char} {e : ReadFault}
    (hname : readString cs = .ok (s, r₁)) (hr₁ : skipSpace r₁ = ':' :: t₁)
    (h : readValueWith fuel (skipSpace t₁) = .error e) :
    readMembersWith (fuel + 1) ('"' :: cs) = .error e := by
  simp only [readMembersWith, hname, hr₁, h]

theorem completes_word (h : (cs, v) ∈ words) : Completes readValueWith Ends cs := by
  obtain ⟨c, t, rfl, hc⟩ := word_head h
  refine completes_of_succ (by simp) fun fuel u _ _ => ?_
  rw [List.cons_append, readValueWith_scalar hc, ← List.cons_append, readScalar_word h]
  exact .ended v

theorem completes_positive (h : IsNumeral cs) : Completes readValueWith Ends cs := by
  obtain ⟨c, t, rfl, hc⟩ := h.exists_digit
  refine completes_of_succ (by simp) fun fuel u _ hu => ?_
  rw [List.cons_append, readValueWith_scalar (beginsScalar_digit hc), readScalar_positive hc]
  exact readNumber_reaches h hu false _

theorem completes_negative (h : IsNumeral cs) : Completes readValueWith Ends ('-' :: cs) := by
  obtain ⟨c, t, rfl, hc⟩ := h.exists_digit
  refine completes_of_succ (by simp) fun fuel u _ hu => ?_
  rw [List.cons_append, readValueWith_scalar ⟨by decide, by decide, by decide, by decide⟩,
    List.cons_append, readScalar_negative hc]
  exact readNumber_reaches h hu true _

theorem completes_string (h : IsStringBody cs) : Completes readValueWith Ends ('"' :: cs) := by
  refine completes_of_succ (by simp) fun fuel u _ _ => ?_
  obtain ⟨s, hs⟩ := readString_body h u
  rw [List.cons_append, readValueWith_string hs]
  exact .ended _

theorem completes_emptyArray (hgap : IsGap gap) :
    Completes readValueWith Ends ('[' :: (gap ++ [']'])) := by
  refine completes_of_succ (by simp) fun fuel u _ _ => ?_
  rw [List.cons_append, List.append_assoc, List.singleton_append,
    readValueWith_emptyList (skipSpace_gap_cons hgap (by decide) u)]
  exact .ended _

theorem completes_array (hgap : IsGap gap) (h : Derives .items cs)
    (hcs : Completes readItemsWith (fun _ => True) cs) :
    Completes readValueWith Ends ('[' :: (gap ++ cs)) := by
  refine completes_of_succ (by simp) fun fuel u hfuel _ => ?_
  rw [List.length_cons, List.length_append] at hfuel
  have hskip := h.skipSpace_eq hgap u
  rw [List.cons_append, List.append_assoc,
    readValueWith_items (by rw [hskip]; exact (h.not_closed u).1), hskip]
  exact (hcs fuel u (by omega) trivial).made _

theorem completes_emptyObject (hgap : IsGap gap) :
    Completes readValueWith Ends ('\x7b' :: (gap ++ ['\x7d'])) := by
  refine completes_of_succ (by simp) fun fuel u _ _ => ?_
  rw [List.cons_append, List.append_assoc, List.singleton_append,
    readValueWith_emptyDict (skipSpace_gap_cons hgap (by decide) u)]
  exact .ended _

theorem completes_object (hgap : IsGap gap) (h : Derives .members cs)
    (hcs : Completes readMembersWith (fun _ => True) cs) :
    Completes readValueWith Ends ('\x7b' :: (gap ++ cs)) := by
  refine completes_of_succ (by simp) fun fuel u hfuel _ => ?_
  rw [List.length_cons, List.length_append] at hfuel
  have hskip := h.skipSpace_eq hgap u
  rw [List.cons_append, List.append_assoc,
    readValueWith_members (by rw [hskip]; exact (h.not_closed u).2), hskip]
  exact (hcs fuel u (by omega) trivial).made _

theorem completes_lastItem (hx : Completes readValueWith Ends x) (hgap : IsGap gap) :
    Completes readItemsWith (fun _ => True) (x ++ (gap ++ [']'])) := by
  refine completes_of_succ (by simp) fun fuel u hfuel _ => ?_
  simp only [List.length_append, List.length_singleton] at hfuel
  rw [List.append_assoc, List.append_assoc, List.singleton_append]
  have hvalue := hx fuel (gap ++ ']' :: u) (by omega) (ends_gap_cons hgap (by decide) u)
  generalize hread : readValueWith fuel _ = r at hvalue
  cases hvalue with
  | ended v =>
    rw [readItemsWith_last hread (skipSpace_gap_cons hgap (by decide) u)]
    exact .ended _
  | overlong count =>
    rw [readItemsWith, hread]
    exact .overlong count

theorem completes_moreItems (hx : Completes readValueWith Ends x) (hgap : IsGap gap)
    (hspace : IsGap space) (h : Derives .items cs)
    (hcs : Completes readItemsWith (fun _ => True) cs) :
    Completes readItemsWith (fun _ => True) (x ++ (gap ++ ',' :: (space ++ cs))) := by
  refine completes_of_succ (by simp) fun fuel u hfuel _ => ?_
  simp only [List.length_append, List.length_cons] at hfuel
  rw [List.append_assoc, List.append_assoc, List.cons_append, List.append_assoc]
  have hvalue := hx fuel (gap ++ ',' :: (space ++ (cs ++ u))) (by omega)
    (ends_gap_cons hgap (by decide) _)
  generalize hread : readValueWith fuel _ = r at hvalue
  cases hvalue with
  | ended v =>
    rw [readItemsWith_comma hread (skipSpace_gap_cons hgap (by decide) _), h.skipSpace_eq hspace]
    exact (hcs fuel u (by omega) trivial).made _
  | overlong count =>
    rw [readItemsWith, hread]
    exact .overlong count

/-- The name and the value of a member, with what stands behind it. -/
theorem member_reaches (hname : IsStringBody name) (hgap : IsGap gap) (hspace : IsGap space)
    (h : Derives .value x) (hx : Completes readValueWith Ends x) (hfuel : x.length ≤ fuel)
    (hu : Ends u) :
    ∃ s r₁ t₁, readString (name ++ (gap ++ ':' :: (space ++ (x ++ u)))) = .ok (s, r₁) ∧
      skipSpace r₁ = ':' :: t₁ ∧ ReachesEnd u (readValueWith fuel (skipSpace t₁)) := by
  obtain ⟨s, hs⟩ := readString_body hname (gap ++ ':' :: (space ++ (x ++ u)))
  refine ⟨s, _, _, hs, skipSpace_gap_cons hgap (by decide) _, ?_⟩
  rw [h.skipSpace_eq hspace]
  exact hx fuel u hfuel hu

theorem completes_lastMember (hname : IsStringBody name) (hgap : IsGap gap) (hspace : IsGap space)
    (h : Derives .value x) (hx : Completes readValueWith Ends x) (hlast : IsGap last) :
    Completes readMembersWith (fun _ => True)
      ('"' :: (name ++ (gap ++ ':' :: (space ++ (x ++ (last ++ ['\x7d'])))))) := by
  refine completes_of_succ (by simp) fun fuel u hfuel _ => ?_
  simp only [List.length_append, List.length_cons] at hfuel
  have hlen : x.length ≤ fuel := by omega
  have hends : Ends (last ++ '\x7d' :: u) := ends_gap_cons hlast (by decide) u
  simp only [List.cons_append, List.append_assoc, List.nil_append]
  obtain ⟨s, r₁, t₁, hs, hr₁, hvalue⟩ := member_reaches hname hgap hspace h hx hlen hends
  generalize hread : readValueWith fuel _ = r at hvalue
  cases hvalue with
  | ended v =>
    rw [readMembersWith_last hs hr₁ hread (skipSpace_gap_cons hlast (by decide) u)]
    exact .ended _
  | overlong count =>
    rw [readMembersWith_fault hs hr₁ hread]
    exact .overlong count

theorem completes_moreMembers (hname : IsStringBody name) (hgap : IsGap gap) (hspace : IsGap space)
    (h : Derives .value x) (hx : Completes readValueWith Ends x) (hlast : IsGap last)
    (hnext : IsGap next) (hmembers : Derives .members cs)
    (hcs : Completes readMembersWith (fun _ => True) cs) :
    Completes readMembersWith (fun _ => True)
      ('"' :: (name ++ (gap ++ ':' :: (space ++ (x ++ (last ++ ',' :: (next ++ cs))))))) := by
  refine completes_of_succ (by simp) fun fuel u hfuel _ => ?_
  simp only [List.length_append, List.length_cons] at hfuel
  have hlen : x.length ≤ fuel := by omega
  have hends : Ends (last ++ ',' :: (next ++ (cs ++ u))) := ends_gap_cons hlast (by decide) _
  simp only [List.cons_append, List.append_assoc]
  obtain ⟨s, r₁, t₁, hs, hr₁, hvalue⟩ := member_reaches hname hgap hspace h hx hlen hends
  generalize hread : readValueWith fuel _ = r at hvalue
  cases hvalue with
  | ended v =>
    rw [readMembersWith_comma hs hr₁ hread (skipSpace_gap_cons hlast (by decide) _),
      hmembers.skipSpace_eq hnext]
    exact (hcs fuel u (by omega) trivial).made _
  | overlong count =>
    rw [readMembersWith_fault hs hr₁ hread]
    exact .overlong count

end Steps

/-- **The reader comes to the end of every derivation**, or to an overlong integer in it. -/
theorem derives_completes {p : Part} {cs : List Char} (h : Derives p cs) : p.Completes cs := by
  induction h with
  | word h => exact completes_word h
  | positive h => exact completes_positive h
  | negative h => exact completes_negative h
  | string h => exact completes_string h
  | emptyArray hgap => exact completes_emptyArray hgap
  | array hgap h ih => exact completes_array hgap h ih
  | emptyObject hgap => exact completes_emptyObject hgap
  | object hgap h ih => exact completes_object hgap h ih
  | lastItem _ hgap ih => exact completes_lastItem ih hgap
  | moreItems _ hgap hspace h ihx ih => exact completes_moreItems ihx hgap hspace h ih
  | lastMember hname hgap hspace hx hlast ih =>
    exact completes_lastMember hname hgap hspace hx ih hlast
  | moreMembers hname hgap hspace hx hlast hnext h ihx ih =>
    exact completes_moreMembers hname hgap hspace hx ihx hlast hnext h ih

/-- **Completeness**: a JSON value is read to its end, or up to an overlong integer. -/
theorem IsJson.readValue_reaches {cs u : List Char} (h : IsJson cs) (hu : Ends u) :
    ReachesEnd u (readValue (cs ++ u)) :=
  derives_completes h _ u (by rw [List.length_append]; omega) hu

/-! ### Soundness -/

section Soundness

variable {fuel : Nat} {cs rest : List Char} {v : Value}

theorem isNumeral_of_reads {negative : Bool} (h : ReadsNumber negative cs v rest) :
    ∃ x, cs = x ++ rest ∧ IsNumeral x := by
  obtain @⟨whole, fraction, power, behindWhole, behindFraction, hwhole, hfraction, hpower, -⟩ := h
  obtain ⟨p, rfl, hp⟩ : ∃ p, behindFraction = p ++ rest ∧ IsPowerPart p := by
    cases hpower with
    | left _ => exact ⟨[], rfl, .inl rfl⟩
    | @taken m sign negative ds _ hm hsign hne hds _ =>
      exact ⟨m :: (sign ++ ds), by simp, .inr ⟨m, sign, negative, ds, hm, hsign, ⟨hne, hds⟩, rfl⟩⟩
  obtain ⟨f, rfl, hf⟩ : ∃ f, behindWhole = f ++ (p ++ rest) ∧ IsFractionPart f := by
    cases hfraction with
    | left _ => exact ⟨[], rfl, .inl rfl⟩
    | @taken ds _ hne hds _ => exact ⟨'.' :: ds, rfl, .inr ⟨ds, ⟨hne, hds⟩, rfl⟩⟩
  obtain ⟨w, rfl, hw⟩ : ∃ w, cs = w ++ (f ++ (p ++ rest)) ∧ IsWholePart w := by
    cases hwhole with
    | zero => exact ⟨['0'], rfl, .inl rfl⟩
    | @digits c ds _ hc hds _ =>
      exact ⟨c :: ds, rfl, .inr ⟨⟨by simp, hds⟩, by simpa using hc⟩⟩
  exact ⟨w ++ (f ++ p), by simp, .mk hw hf hp⟩

theorem isStringBody_of_readPoints {opening : List Char} {points : List Nat}
    (h : readPoints opening cs = .ok (points, rest)) : ∃ x, cs = x ++ rest ∧ IsStringBody x := by
  -- on the length of the text, since an escape takes up several characters at once
  induction hlen : cs.length using Nat.strongRecOn generalizing cs points with
  | ind n ih =>
    subst hlen
    cases readsPoints_of_ok h with
    | quote => exact ⟨['"'], rfl, .close⟩
    | code hunit h =>
      obtain ⟨x, hx, hbody⟩ := ih _ (by simp only [List.length_cons]; omega) h rfl
      exact ⟨_, by rw [hx]; rfl, .code (by rw [hunit]; rfl) hbody⟩
    | escape hu hd h =>
      obtain ⟨x, rfl, hbody⟩ := ih _ (by simp only [List.length_cons]; omega) h rfl
      exact ⟨_, rfl, .escape hu (by rw [hd]; rfl) hbody⟩
    | plain hquote hslash hcontrol h =>
      obtain ⟨x, rfl, hbody⟩ := ih _ (by simp only [List.length_cons]; omega) h rfl
      exact ⟨_, rfl, .plain hquote hslash hcontrol hbody⟩

theorem isStringBody_of_readString {s : String} (h : readString cs = .ok (s, rest)) :
    ∃ x, cs = x ++ rest ∧ IsStringBody x := by
  unfold readString at h
  split at h
  · rename_i points r hpoints
    obtain ⟨-, rfl⟩ := Prod.mk.inj (Except.ok.inj h)
    exact isStringBody_of_readPoints hpoints
  · cases h

/-- A front of a text that is a derivation. -/
def DerivesFront (p : Part) (cs rest : List Char) : Prop :=
  ∃ x, cs = x ++ rest ∧ Derives p x

theorem derives_scalar (h : readScalar cs = .ok (v, rest)) : DerivesFront .value cs rest := by
  cases readScalar_iff.1 h with
  | word hword hcs => exact ⟨_, hcs, .word hword⟩
  | negative hcs h =>
    obtain ⟨x, rfl, hx⟩ := isNumeral_of_reads h
    exact ⟨'-' :: x, hcs, .negative hx⟩
  | positive h =>
    obtain ⟨x, rfl, hx⟩ := isNumeral_of_reads h
    exact ⟨x, rfl, .positive hx⟩

theorem derives_value
    (hitems : ∀ {cs items rest}, readItemsWith fuel cs = .ok (items, rest) →
      DerivesFront .items cs rest)
    (hmembers : ∀ {cs members rest}, readMembersWith fuel cs = .ok (members, rest) →
      DerivesFront .members cs rest)
    (h : ReadsValue fuel cs v rest) : DerivesFront .value cs rest := by
  cases h with
  | string h =>
    obtain ⟨x, rfl, hx⟩ := isStringBody_of_readString h
    exact ⟨'"' :: x, rfl, .string hx⟩
  | @emptyList cs _ h =>
    obtain ⟨gap, hgap, hcs⟩ := exists_gap cs
    exact ⟨'[' :: (gap ++ [']']), by rw [hcs, h]; simp, .emptyArray hgap⟩
  | @list cs _ items _ h =>
    obtain ⟨gap, hgap, hcs⟩ := exists_gap cs
    obtain ⟨x, hx, hderives⟩ := hitems h
    exact ⟨'[' :: (gap ++ x), by rw [hcs, hx]; simp, .array hgap hderives⟩
  | @emptyDict cs _ h =>
    obtain ⟨gap, hgap, hcs⟩ := exists_gap cs
    exact ⟨'\x7b' :: (gap ++ ['\x7d']), by rw [hcs, h]; simp, .emptyObject hgap⟩
  | @dict cs _ members _ h =>
    obtain ⟨gap, hgap, hcs⟩ := exists_gap cs
    obtain ⟨x, hx, hderives⟩ := hmembers h
    exact ⟨'\x7b' :: (gap ++ x), by rw [hcs, hx]; simp, .object hgap hderives⟩
  | scalar h => exact derives_scalar h

theorem derives_items {items : List Value}
    (hvalue : ∀ {cs v rest}, readValueWith fuel cs = .ok (v, rest) → DerivesFront .value cs rest)
    (hitems : ∀ {cs items rest}, readItemsWith fuel cs = .ok (items, rest) →
      DerivesFront .items cs rest)
    (h : ReadsItems fuel cs items rest) : DerivesFront .items cs rest := by
  cases h with
  | @last _ r _ h hr =>
    obtain ⟨x, rfl, hx⟩ := hvalue h
    obtain ⟨gap, hgap, hcs⟩ := exists_gap r
    exact ⟨x ++ (gap ++ [']']), by rw [hcs, hr]; simp, .lastItem hx hgap⟩
  | @more _ r t _ _ h hr hrest =>
    obtain ⟨x, rfl, hx⟩ := hvalue h
    obtain ⟨gap, hgap, hcs⟩ := exists_gap r
    obtain ⟨space, hspace, ht⟩ := exists_gap t
    obtain ⟨y, hy, hderives⟩ := hitems hrest
    exact ⟨x ++ (gap ++ ',' :: (space ++ y)), by rw [hcs, hr, ht, hy]; simp,
      .moreItems hx hgap hspace hderives⟩

theorem derives_members {members : List (Value × Value)}
    (hvalue : ∀ {cs v rest}, readValueWith fuel cs = .ok (v, rest) → DerivesFront .value cs rest)
    (hmembers : ∀ {cs members rest}, readMembersWith fuel cs = .ok (members, rest) →
      DerivesFront .members cs rest)
    (h : ReadsMembers fuel cs members rest) : DerivesFront .members cs rest := by
  cases h with
  | @last _ _ r₁ t₁ _ r₂ _ hname hcolon h hr =>
    obtain ⟨name, rfl, hbody⟩ := isStringBody_of_readString hname
    obtain ⟨gap, hgap, hr₁⟩ := exists_gap r₁
    obtain ⟨space, hspace, ht₁⟩ := exists_gap t₁
    obtain ⟨x, hx, hderives⟩ := hvalue h
    obtain ⟨last, hlast, hr₂⟩ := exists_gap r₂
    exact ⟨'"' :: (name ++ (gap ++ ':' :: (space ++ (x ++ (last ++ ['\x7d']))))),
      by rw [hr₁, hcolon, ht₁, hx, hr₂, hr]; simp,
      .lastMember hbody hgap hspace hderives hlast⟩
  | @more _ _ r₁ t₁ _ r₂ t₂ _ _ hname hcolon h hr hrest =>
    obtain ⟨name, rfl, hbody⟩ := isStringBody_of_readString hname
    obtain ⟨gap, hgap, hr₁⟩ := exists_gap r₁
    obtain ⟨space, hspace, ht₁⟩ := exists_gap t₁
    obtain ⟨x, hx, hderives⟩ := hvalue h
    obtain ⟨last, hlast, hr₂⟩ := exists_gap r₂
    obtain ⟨next, hnext, ht₂⟩ := exists_gap t₂
    obtain ⟨y, hy, hmore⟩ := hmembers hrest
    exact ⟨'"' :: (name ++ (gap ++ ':' :: (space ++ (x ++ (last ++ ',' :: (next ++ y)))))),
      by rw [hr₁, hcolon, ht₁, hx, hr₂, hr, ht₂, hy]; simp,
      .moreMembers hbody hgap hspace hderives hlast hnext hmore⟩

end Soundness

/-- **What is read is derived**: the front of a text that is taken up as a value, as items or as
members. -/
theorem derives_of_ok (fuel : Nat) :
    (∀ {cs v rest}, readValueWith fuel cs = .ok (v, rest) → DerivesFront .value cs rest) ∧
    (∀ {cs items rest}, readItemsWith fuel cs = .ok (items, rest) → DerivesFront .items cs rest) ∧
    (∀ {cs members rest}, readMembersWith fuel cs = .ok (members, rest) →
      DerivesFront .members cs rest) := by
  induction fuel with
  | zero =>
    refine ⟨fun h => ?_, fun h => ?_, fun h => ?_⟩
    · rw [readValueWith] at h; cases h
    · rw [readItemsWith] at h; cases h
    · rw [readMembersWith] at h; cases h
  | succ fuel ih =>
    obtain ⟨hvalue, hitems, hmembers⟩ := ih
    exact ⟨fun h => derives_value hitems hmembers (readsValue_of_ok h),
      fun h => derives_items hvalue hitems (readsItems_of_ok h),
      fun h => derives_members hvalue hmembers (readsMembers_of_ok h)⟩

/-- **Soundness**: what is read as a value is the text of one. -/
theorem exists_isJson {cs rest : List Char} {v : Value} (h : readValue cs = .ok (v, rest)) :
    ∃ x, cs = x ++ rest ∧ IsJson x :=
  (derives_of_ok _).1 h

end Runbook.Json
