import Runbook.Proofs.JsonCutting
import Runbook.Proofs.Streaming

/-!
# What chunk edges do to a value

A stream decodes a value from what it has read of it, up to a chunk edge. If something stands behind
the value, or its digits are too many for an integer, that settles it; if not, the stream reads on.
So what is decoded depends on the text and on where the edges fall in it, and on nothing else.

It is the value of the whole text unless an edge spoils it. An edge does so in front of what looks
like the point or the exponent of a number but for its digits, and behind the digits of an overlong
integer that is none, because of the fraction or the exponent that follows.

* `decodeChunked`: what is decoded of a text.
* `Spoils`, `Cuts`: the edges that spoil a value, and the first of them.
* `decodeChunked_eq`: without such an edge, the value of the whole text.
* `Stream.decode_decodes`: a stream decodes what is decoded of its text.
-/

namespace Runbook.Records

open Runbook.Text
open Runbook.Json (IsMark Overlong readValue)

/-! ### Values at chunk edges -/

/-- The value at the start of a text and the text behind it, if there is one. -/
def valueOf (cs : List Char) : Option (Value × List Char) :=
  (readValue cs).toOption

/-- What is taken for the value when only `part` has been read and `more` is still to come.
Something behind a value shows that it is complete, and too many digits are a fault at once; all
else is read on. -/
def settled (part more : List Char) : Option (Option (Value × List Char)) :=
  match readValue part with
  | .ok (v, c :: rest) => some (some (v, c :: rest ++ more))
  | .error (.tooManyDigits _) => some none
  | _ => none

/-- The value of a text of which `part` has been read, with edges at multiples of the chunk size:
what is settled at the first edge where anything is, and the value of the whole text if nothing
is. -/
def decodeFrom (chunk position : Nat) (part : List Char) : List Char → Option (Value × List Char)
  | [] => valueOf part
  | c :: more =>
    if chunk ∣ position + part.length then
      (settled part (c :: more)).getD (decodeFrom chunk position (part ++ [c]) more)
    else decodeFrom chunk position (part ++ [c]) more

/-- The value at the start of what is left of a text of `total` characters. -/
def decodeChunked (chunk total : Nat) (cs : List Char) : Option (Value × List Char) :=
  decodeFrom chunk (total - cs.length) [] cs

/-- Nothing is settled at the edges among the first characters of a text. -/
def Unsettled (chunk position : Nat) (cs : List Char) (count : Nat) : Prop :=
  ∀ part more, cs = part ++ more → part.length < count → chunk ∣ position + part.length →
    settled part more = none

section Settling

variable {chunk position total : Nat} {part more cs : List Char}

theorem valueOf_eq_some {found : Value × List Char} :
    valueOf cs = some found ↔ readValue cs = .ok found := by
  unfold valueOf
  cases readValue cs <;> simp [Except.toOption]

theorem valueOf_eq_none : valueOf cs = none ↔ ∃ e, readValue cs = .error e := by
  unfold valueOf
  cases readValue cs <;> simp [Except.toOption]

theorem settled_value {v : Value} {rest : List Char} : settled part more = some (some (v, rest)) ↔
    ∃ tail, tail ≠ [] ∧ readValue part = .ok (v, tail) ∧ rest = tail ++ more := by
  unfold settled
  constructor
  · intro h
    split at h
    · rename_i w c tail hread
      obtain ⟨rfl, rfl⟩ := Prod.mk.inj (Option.some.inj (Option.some.inj h))
      exact ⟨c :: tail, by simp, hread, rfl⟩
    · cases h
    · cases h
  · rintro ⟨tail, hne, hread, rfl⟩
    obtain ⟨c, tail, rfl⟩ := List.exists_cons_of_ne_nil hne
    rw [hread]

theorem settled_nil : settled [] more = none := rfl

theorem settled_fault : settled part more = some none ↔ Overlong part := by
  unfold settled Overlong
  constructor
  · intro h
    split at h
    · cases h
    · rename_i k hread
      exact ⟨k, hread⟩
    · cases h
  · rintro ⟨k, hread⟩
    rw [hread]

theorem settled_eq_none : settled part more = none ↔
    (∀ v c rest, readValue part ≠ .ok (v, c :: rest)) ∧ ¬ Overlong part := by
  constructor
  · intro h
    constructor
    · intro v c rest hread
      rw [settled_value.2 ⟨c :: rest, by simp, hread, rfl⟩] at h
      cases h
    · intro hover
      rw [settled_fault.2 hover] at h
      cases h
  · rintro ⟨hvalue, hover⟩
    cases h : settled part more with
    | none => rfl
    | some found =>
      cases found with
      | none => exact absurd (settled_fault.1 h) hover
      | some found =>
        obtain ⟨v, rest⟩ := found
        obtain ⟨tail, hne, hread, -⟩ := settled_value.1 h
        obtain ⟨c, tail, rfl⟩ := List.exists_cons_of_ne_nil hne
        exact absurd hread (hvalue v c tail)

/-- Edges where nothing is settled are passed over. -/
theorem decodeFrom_skip (front : List Char)
    (h : ∀ a b, front = a ++ b → b ≠ [] → chunk ∣ position + (part ++ a).length →
      settled (part ++ a) (b ++ more) = none) :
    decodeFrom chunk position part (front ++ more) =
      decodeFrom chunk position (part ++ front) more := by
  induction front generalizing part with
  | nil => rw [List.nil_append, List.append_nil]
  | cons c front ih =>
    have hnext : decodeFrom chunk position (part ++ [c]) (front ++ more) =
        decodeFrom chunk position (part ++ c :: front) more := by
      rw [ih]
      · rw [List.append_assoc, List.singleton_append]
      · intro a b hfront hb hdvd
        rw [List.append_assoc] at hdvd ⊢
        exact h (c :: a) b (by rw [hfront, List.cons_append]) hb hdvd
    rw [List.cons_append, decodeFrom]
    split
    · rename_i hdvd
      have hnone := h [] (c :: front) rfl (by simp) (by rwa [List.append_nil])
      rw [List.append_nil, List.cons_append] at hnone
      rw [hnone, Option.getD_none, hnext]
    · exact hnext

theorem decodeFrom_unsettled (h : Unsettled chunk position (part ++ more) part.length) :
    decodeFrom chunk position [] (part ++ more) = decodeFrom chunk position part more := by
  refine decodeFrom_skip part fun a b hpart hb hdvd => ?_
  rw [List.nil_append] at hdvd ⊢
  refine h a (b ++ more) (by rw [hpart, List.append_assoc]) ?_ hdvd
  have := List.length_pos_iff.2 hb
  rw [hpart, List.length_append]
  omega

theorem decodeFrom_settled {found : Option (Value × List Char)} (hne : more ≠ [])
    (hdvd : chunk ∣ position + part.length) (h : settled part more = some found) :
    decodeFrom chunk position part more = found := by
  obtain ⟨c, more, rfl⟩ := List.exists_cons_of_ne_nil hne
  rw [decodeFrom, if_pos hdvd, h, Option.getD_some]

/-- Up to the next edge nothing more is settled. -/
theorem Unsettled.refill (h : Unsettled chunk position (part ++ more) part.length)
    (hdvd : chunk ∣ position + part.length) (hhere : settled part more = none) :
    Unsettled chunk position (part ++ more) (part ++ more.take chunk).length := by
  intro front back hcs hlt hedge
  rw [List.length_append, List.length_take] at hlt
  rcases Nat.lt_trichotomy front.length part.length with hshort | hsame | hlong
  · exact h front back hcs hshort hedge
  · obtain ⟨rfl, rfl⟩ := List.append_inj hcs hsame.symm
    exact hhere
  · have hstep := Nat.sub_pos_of_lt hlong
    have hdiff := Nat.dvd_sub hedge hdvd
    rw [Nat.add_sub_add_left] at hdiff
    have := Nat.le_of_dvd hstep hdiff
    omega

theorem Unsettled.next {c : Char} (h : Unsettled chunk position (part ++ c :: more) part.length)
    (hhere : chunk ∣ position + part.length → settled part (c :: more) = none) :
    Unsettled chunk position ((part ++ [c]) ++ more) (part ++ [c]).length := by
  intro front back hcs hlt hdvd
  rw [List.append_assoc, List.singleton_append] at hcs
  rw [List.length_append, List.length_singleton] at hlt
  rcases Nat.lt_or_ge front.length part.length with hshort | hlong
  · exact h front back hcs hshort hdvd
  · obtain ⟨rfl, rfl⟩ := List.append_inj hcs.symm (by omega)
    exact hhere hdvd

/-- What is decoded is settled at the first edge where anything is, from some part on. -/
theorem decodeFrom_cases (more : List Char)
    (h : Unsettled chunk position (part ++ more) part.length) :
    (Unsettled chunk position (part ++ more) (part ++ more).length ∧
      decodeFrom chunk position part more = valueOf (part ++ more)) ∨
    ∃ front back, part ++ more = front ++ back ∧ chunk ∣ position + front.length ∧
      Unsettled chunk position (part ++ more) front.length ∧
      settled front back = some (decodeFrom chunk position part more) := by
  induction more generalizing part with
  | nil =>
    rw [List.append_nil] at h ⊢
    exact .inl ⟨h, rfl⟩
  | cons c more ih =>
    have hnext : ∀ hhere : chunk ∣ position + part.length → settled part (c :: more) = none, _ :=
      fun hhere => ih (h.next hhere)
    rw [List.append_assoc, List.singleton_append] at hnext
    rw [decodeFrom]
    split
    · rename_i hdvd
      cases hfound : settled part (c :: more) with
      | none => exact hnext fun _ => hfound
      | some found => exact .inr ⟨part, c :: more, rfl, hdvd, h, hfound⟩
    · rename_i hdvd
      exact hnext fun hyes => absurd hyes hdvd

/-- **What is decoded** is the value of the whole text if nothing is settled at an edge, and what is
settled at the first edge where anything is. -/
theorem decodeChunked_cases (chunk total : Nat) (cs : List Char) :
    (Unsettled chunk (total - cs.length) cs cs.length ∧
      decodeChunked chunk total cs = valueOf cs) ∨
    ∃ part more, cs = part ++ more ∧ chunk ∣ total - cs.length + part.length ∧
      Unsettled chunk (total - cs.length) cs part.length ∧
      settled part more = some (decodeChunked chunk total cs) := by
  have hstart : Unsettled chunk (total - cs.length) ([] ++ cs) ([] : List Char).length :=
    fun _ _ _ h => absurd h (Nat.not_lt_zero _)
  exact decodeFrom_cases cs hstart

end Settling

/-! ### Values that a chunk edge spoils -/

/-- A cut behind `part` spoils the value of a text: it breaks off a number in front of a mark, so
that a shorter value is kept, or behind more digits than an integer may have, so that none is. -/
inductive Spoils (part more : List Char) : Option Value → Prop
  | shortened {v tail} (hread : readValue part = .ok (v, tail)) (hmark : IsMark tail)
    (h : readValue (part ++ more) ≠ .ok (v, tail ++ more)) : Spoils part more (some v)
  | overlong {found} (hover : Overlong part) (h : readValue (part ++ more) = .ok found) :
    Spoils part more none

/-- The first chunk edge that spoils the value at the start of what is left of a text keeps so much
of it. -/
def Cuts (chunk total : Nat) (cs : List Char) (kept : Option Value) : Prop :=
  ∃ part more, cs = part ++ more ∧ chunk ∣ total - cs.length + part.length ∧
    Spoils part more kept ∧ ∀ front back, cs = front ++ back → front.length < part.length →
      chunk ∣ total - cs.length + front.length → ∀ other, ¬ Spoils front back other

section Cutting

variable {chunk total : Nat} {part more front back cs rest : List Char} {kept other : Option Value}
  {v : Value}

/-- Only a value can be spoiled. -/
theorem Spoils.exists_value (h : Spoils part more kept) :
    ∃ found, valueOf (part ++ more) = some found := by
  cases h with
  | @shortened v tail hread hmark h =>
    obtain ⟨m, t, rfl, -⟩ := hmark.head
    rcases Json.readValue_append (by simp) hread more with hsame | ⟨-, -, found, hfound⟩
    · exact absurd hsame h
    · exact ⟨found, valueOf_eq_some.2 hfound⟩
  | @overlong found _ h => exact ⟨found, valueOf_eq_some.2 h⟩

theorem Spoils.more_ne_nil (h : Spoils part more kept) : more ≠ [] := by
  rintro rfl
  cases h with
  | shortened hread _ h =>
    rw [List.append_nil, List.append_nil] at h
    exact h hread
  | overlong hover h =>
    obtain ⟨k, hk⟩ := hover
    rw [List.append_nil, hk] at h
    cases h

theorem Spoils.settled_ne_none (h : Spoils part more kept) : settled part more ≠ none := by
  intro hnone
  cases h with
  | @shortened v tail hread hmark _ =>
    obtain ⟨m, t, rfl, -⟩ := hmark.head
    exact (settled_eq_none.1 hnone).1 _ _ _ hread
  | overlong hover _ => exact (settled_eq_none.1 hnone).2 hover

/-- What is settled at a cut that does not spoil the value is right. -/
theorem settled_right {found : Option (Value × List Char)} (h : settled part more = some found)
    (hsound : ∀ kept, ¬ Spoils part more kept) : found = valueOf (part ++ more) := by
  cases found with
  | none =>
    have hover := settled_fault.1 h
    refine (valueOf_eq_none.2 ?_).symm
    cases hread : readValue (part ++ more) with
    | error e => exact ⟨e, rfl⟩
    | ok found => exact absurd (.overlong hover hread) (hsound none)
  | some found =>
    obtain ⟨v, rest⟩ := found
    obtain ⟨tail, hne, hread, rfl⟩ := settled_value.1 h
    refine (valueOf_eq_some.2 ?_).symm
    by_contra hother
    rcases Json.readValue_append hne hread more with hsame | ⟨hmark, -⟩
    · exact hother hsame
    · exact hsound _ (.shortened hread hmark hother)

/-- Behind a cut where something right is settled, nothing is spoiled. -/
theorem Spoils.not_of_settled
    (hfront : settled front (back ++ more) = some (valueOf (front ++ back ++ more))) :
    ¬ Spoils (front ++ back) more kept := by
  intro h
  obtain ⟨⟨w, rest⟩, hvalue⟩ := h.exists_value
  rw [hvalue] at hfront
  obtain ⟨tail, -, hread, rfl⟩ := settled_value.1 hfront
  rw [← List.append_assoc] at hvalue
  have hwhole := valueOf_eq_some.1 hvalue
  have hpart := Json.readValue_of_append hwhole
  cases h with
  | shortened hread' _ h =>
    obtain ⟨rfl, rfl⟩ := Prod.mk.inj (Except.ok.inj (hpart.symm.trans hread'))
    exact h hwhole
  | overlong hover _ =>
    obtain ⟨k, hk⟩ := hover
    rw [hpart] at hk
    cases hk

/-- **A chunk edge that spoils the value** settles what is decoded, if it is the first. -/
theorem Cuts.settled (h : Cuts chunk total cs kept) : ∃ part more, cs = part ++ more ∧
    Spoils part more kept ∧ settled part more = some (decodeChunked chunk total cs) := by
  obtain ⟨part, more, hcs, hdvd, hspoils, hfirst⟩ := h
  refine ⟨part, more, hcs, hspoils, ?_⟩
  rcases decodeChunked_cases chunk total cs with
    ⟨hfree, -⟩ | ⟨front, back, hsplit, hedge, hfree, hfound⟩
  · have hlen := List.length_pos_iff.2 hspoils.more_ne_nil
    exact absurd (hfree part more hcs (by simp [hcs]; omega) hdvd) hspoils.settled_ne_none
  · rcases Nat.lt_trichotomy part.length front.length with hshort | hsame | hlong
    · exact absurd (hfree part more hcs hshort hdvd) hspoils.settled_ne_none
    · obtain ⟨rfl, rfl⟩ := List.append_inj (hcs.symm.trans hsplit) hsame
      exact hfound
    · -- an earlier edge would settle the right value
      have hright := settled_right hfound (hfirst front back hsplit hlong hedge)
      obtain ⟨middle, rfl, rfl⟩ : ∃ middle, part = front ++ middle ∧ back = middle ++ more := by
        rcases List.append_eq_append_iff.1 (hcs.symm.trans hsplit) with ⟨x, rfl, -⟩ | hsome
        · rw [List.length_append] at hlong
          omega
        · exact hsome
      rw [hright, ← List.append_assoc] at hfound
      exact absurd hspoils (Spoils.not_of_settled hfound)

/-- **Where no edge spoils the value**, it is decoded as it stands. -/
theorem decodeChunked_eq (h : ∀ kept, ¬ Cuts chunk total cs kept) :
    decodeChunked chunk total cs = valueOf cs := by
  rcases decodeChunked_cases chunk total cs with
    ⟨-, hvalue⟩ | ⟨front, back, hsplit, hedge, hfree, hfound⟩
  · exact hvalue
  · have hright := settled_right hfound fun kept hspoils =>
      h kept ⟨front, back, hsplit, hedge, hspoils, fun part more hcs hlt hdvd other hother =>
        hother.settled_ne_none (hfree part more hcs hlt hdvd)⟩
    rw [← hsplit] at hright
    exact hright

theorem decodeChunked_of_none (h : valueOf cs = none) : decodeChunked chunk total cs = none := by
  refine (decodeChunked_eq ?_).trans h
  rintro kept ⟨part, more, rfl, -, hspoils, -⟩
  obtain ⟨found, hfound⟩ := hspoils.exists_value
  rw [h] at hfound
  cases hfound

theorem Cuts.decodeChunked_none (h : Cuts chunk total cs none) :
    decodeChunked chunk total cs = none := by
  obtain ⟨part, more, rfl, hspoils, hsettled⟩ := h.settled
  cases hspoils with
  | overlong hover _ => exact Option.some.inj (hsettled.symm.trans (settled_fault.2 hover))

theorem Cuts.decodeChunked_some (h : Cuts chunk total cs (some v)) :
    ∃ tail more, decodeChunked chunk total cs = some (v, tail ++ more) ∧ IsMark tail ∧
      ∀ members, v ≠ .dict members := by
  obtain ⟨part, more, rfl, hspoils, hsettled⟩ := h.settled
  cases hspoils with
  | @shortened _ tail hread hmark hother =>
    obtain ⟨m, t, rfl, -⟩ := hmark.head
    refine ⟨m :: t, more, ?_, hmark, ?_⟩
    · exact Option.some.inj (hsettled.symm.trans (settled_value.2 ⟨_, by simp, hread, rfl⟩))
    · rcases Json.readValue_append (by simp) hread more with hsame | ⟨-, hdict, -⟩
      · exact absurd hsame hother
      · exact hdict

theorem valueOf_length (h : valueOf cs = some (v, rest)) : rest.length < cs.length := by
  obtain ⟨text, hne, rfl, -⟩ := Json.readValue_front (valueOf_eq_some.1 h)
  have := List.length_pos_iff.2 hne
  rw [List.length_append]
  omega

theorem decodeChunked_length (h : decodeChunked chunk total cs = some (v, rest)) :
    rest.length < cs.length := by
  rcases decodeChunked_cases chunk total cs with
    ⟨-, hvalue⟩ | ⟨front, back, hsplit, -, -, hfound⟩
  · exact valueOf_length (hvalue.symm.trans h)
  · rw [h] at hfound
    obtain ⟨tail, -, hread, rfl⟩ := settled_value.1 hfound
    have := valueOf_length (valueOf_eq_some.2 hread)
    simp only [hsplit, List.length_append]
    omega

/-- Nothing is spoiled where nothing is left. -/
theorem Cuts.ne_nil (h : Cuts chunk total cs kept) : cs ≠ [] := by
  rintro rfl
  obtain ⟨part, more, hcs, -, hspoils, -⟩ := h
  exact hspoils.more_ne_nil (List.append_eq_nil_iff.1 hcs.symm).2

/-- An edge that spoils a value lies inside the text. -/
theorem Cuts.chunk_lt (h : Cuts chunk total cs kept) (hle : cs.length ≤ total) : chunk < total := by
  obtain ⟨part, more, rfl, hdvd, hspoils, -⟩ := h
  have hpart : part ≠ [] := by
    rintro rfl
    exact hspoils.settled_ne_none settled_nil
  have := List.length_pos_iff.2 hpart
  have := List.length_pos_iff.2 hspoils.more_ne_nil
  have := Nat.le_of_dvd (by omega) hdvd
  rw [List.length_append] at *
  omega

end Cutting

/-! ### Decoding a stream -/

/-- How decoding a stream ends: with a value and the stream behind it, or in a value error. -/
def Decodes (chunk total : Nat) (result : Except Error (Value × Stream)) :
    Option (Value × List Char) → Prop
  | some (v, rest) => ∃ t, result = .ok (v, t) ∧ t.At chunk total ∧ t.remaining = rest
  | none => ∃ e, result = .error e ∧ e.isValueError = true

namespace Stream

variable {chunk total position : Nat} {s : Stream} {v : Value} {rest : List Char}

/-- A text is left behind a value up to the edge, and no edge that could have shown the value to be
complete has been passed: so no edge that need not have been passed has been. -/
theorem In.behind (h : s.In chunk total position)
    (hfree : Unsettled chunk (total - s.remaining.length) s.remaining s.ahead.length)
    (hread : readValue s.ahead = .ok (v, rest)) : (s.passTo rest).At chunk total := by
  obtain ⟨front, -, hahead, -⟩ := Json.readValue_front hread
  have hle := h.left_le
  have hremaining : s.remaining = front ++ rest ++ s.source.unread := by rw [remaining, hahead]
  have hpass := h.pass rest (by rw [hahead, List.length_append]; omega)
  refine { hpass with near := fun e he hbehind => ?_ }
  rw [remaining_passTo] at hbehind
  rw [hremaining] at hle
  simp only [passTo, List.length_append] at hbehind hle ⊢
  by_contra hedge
  -- such an edge cuts the text behind the value, and would have shown the value to be complete
  obtain ⟨k, rfl⟩ : ∃ k, e = total - (rest.length + s.source.unread.length) + k :=
    ⟨_, (Nat.add_sub_of_le (by omega)).symm⟩
  have hwhole : readValue ((front ++ rest.take k) ++ rest.drop k) =
      .ok (v, rest.take k ++ rest.drop k) := by
    rw [List.append_assoc, List.take_append_drop, ← hahead, hread]
  have hcut := Json.readValue_of_append hwhole
  have htail : rest.take k ≠ [] := by
    rw [← List.length_pos_iff, List.length_take]
    omega
  have hsplit : s.remaining = (front ++ rest.take k) ++ (rest.drop k ++ s.source.unread) := by
    rw [hremaining, List.append_assoc, List.append_assoc, ← List.append_assoc (rest.take k),
      List.take_append_drop]
  have hnone := hfree _ _ hsplit
    (by simp only [hahead, List.length_append, List.length_take]; omega)
    (by
      convert he using 1
      simp only [hremaining, List.length_append, List.length_take]
      omega)
  rw [settled_value.2 ⟨_, htail, hcut, rfl⟩] at hnone
  cases hnone

theorem isValueError_faultError (s : Stream) (e : Json.ReadFault) :
    (s.faultError e).isValueError = true := by
  cases e <;> rfl

/-- At the end of the text a fault is final. -/
theorem decodeWith_failed {fuel : Nat} {e : Json.ReadFault} (hread : readValue s.ahead = .error e)
    (hfill : s.fill = .ok none) : decodeWith fuel s = .error (s.faultError e) := by
  cases fuel with
  | zero => rw [decodeWith, hread]
  | succ fuel =>
    rw [decodeWith, hread]
    cases e with
    | problem p left => simp only [hfill]
    | tooManyDigits count => rfl

theorem decodeWith_end {fuel : Nat} (h : s.In chunk total position)
    (hfree : Unsettled chunk (total - s.remaining.length) s.remaining s.ahead.length)
    (hunread : s.source.unread = []) :
    Decodes chunk total (decodeWith fuel s) (valueOf s.ahead) := by
  cases hread : readValue s.ahead with
  | error e =>
    rw [valueOf_eq_none.2 ⟨e, hread⟩]
    exact ⟨_, decodeWith_failed hread (fill_end h hunread), isValueError_faultError s e⟩
  | ok found =>
    obtain ⟨v, rest⟩ := found
    rw [valueOf_eq_some.2 hread]
    refine ⟨_, decodeWith_complete h hread fun _ => hunread, h.behind hfree hread, ?_⟩
    rw [remaining_passTo, hunread, List.append_nil]

/-- **Decoding from the buffer** gives what is settled at the first edge where anything is, or the
value of the whole text. -/
theorem decodeWith_decodes (fuel : Nat) (h : s.In chunk total (total - s.source.unread.length))
    (hchunk : 1 ≤ chunk)
    (hfree : Unsettled chunk (total - s.remaining.length) s.remaining s.ahead.length)
    (hfuel : s.source.unread.length ≤ fuel) :
    Decodes chunk total (decodeWith fuel s) (decodeChunked chunk total s.remaining) := by
  have hfrom : decodeChunked chunk total s.remaining =
      decodeFrom chunk (total - s.remaining.length) s.ahead s.source.unread :=
    decodeFrom_unsettled hfree
  induction fuel generalizing s with
  | zero =>
    have hunread : s.source.unread = [] := List.length_eq_zero_iff.1 (by omega)
    rw [hfrom, hunread]
    exact decodeWith_end h hfree hunread
  | succ fuel ih =>
    by_cases hunread : s.source.unread = []
    · rw [hfrom, hunread]
      exact decodeWith_end h hfree hunread
    have hedge : chunk ∣ total - s.remaining.length + s.ahead.length := by
      convert h.edge hunread using 1
      have := h.left_le
      rw [length_remaining] at this ⊢
      omega
    cases hsettled : settled s.ahead s.source.unread with
    | some found =>
      rw [hfrom, decodeFrom_settled hunread hedge hsettled]
      cases found with
      | none =>
        obtain ⟨k, hk⟩ : ∃ k, decodeWith (fuel + 1) s = .error (.value (.integerTooLong k)) :=
          decodeWith_overlong (settled_fault.1 hsettled)
        exact ⟨_, hk, rfl⟩
      | some found =>
        obtain ⟨v, rest⟩ := found
        obtain ⟨tail, htail, hread, rfl⟩ := settled_value.1 hsettled
        exact ⟨_, decodeWith_complete h hread (absurd · htail), h.behind hfree hread, rfl⟩
    | none =>
      obtain ⟨hopen, hshort⟩ := settled_eq_none.1 hsettled
      obtain ⟨t, hfill, ht, hremains, hlt, hahead, -⟩ := fill_more h hchunk hunread le_rfl
      have hnext := Unsettled.refill hfree hedge hsettled
      rw [decodeWith_refill hopen hshort hfill, ← hremains]
      rw [← hahead] at hnext
      change Unsettled chunk _ s.remaining _ at hnext
      rw [← hremains] at hnext
      exact ih (ht.later (by omega)) hnext (by omega) (decodeFrom_unsettled hnext)

/-- **Decoding a stream** gives what is decoded behind the blanks. -/
theorem decode_decodes (h : s.At chunk total) (hchunk : 1 ≤ chunk) :
    Decodes chunk total s.decode (decodeChunked chunk total (s.remaining.dropWhile isBlank)) := by
  obtain ⟨t, hpeek, hat, htrem, -⟩ := peek_spec h hchunk
  have hdecode : s.decode = decodeWith (t.source.unread.length + 1) t := by
    rw [decode, hpeek]
  -- no edge lies between the beginning of the value and the edge that has been read up to
  have hfree : Unsettled chunk (total - t.remaining.length) t.remaining t.ahead.length := by
    intro part more hrem hlt hedge
    cases part with
    | nil => exact settled_nil
    | cons c part =>
      have hnear := hat.near _ hedge (by simp)
      have hle := hat.left_le
      rw [length_remaining] at hnear hle
      omega
  rw [hdecode, ← htrem]
  refine decodeWith_decodes _ (hat.later ?_) hchunk hfree (by omega)
  rw [length_remaining]
  omega

end Stream

end Runbook.Records
