import Mathlib.Data.List.Forall2
import Mathlib.Data.List.Infix
import Mathlib.Tactic.Common
import Runbook.Proofs.JsonCutting
import Runbook.Proofs.NamedEntries

/-!
# The layout of lists and dictionaries in JSON

The items of a list and the members of a dictionary stand one behind the other, with commas and
white space between them. How they are read does not depend on what they are: an element is a text
that is taken up at the head of the others, and a layout of elements is read as all of them.

A layout can also be cut. Then nothing is read, or all that is left of the text; but the reading
does not end in too many digits, if it never does for the elements.

* `Written`: a text that is read as a value, whatever stands behind it.
* `Cuttable`: a text that can be cut without its digits becoming too many.
* `Element`, `CutElement`: what is taken up at the head of others, and what can be cut there.
* `read_spread`, `sound_spread`: elements one behind the other, and those in front of a cut.
* `written_list`, `written_dict`: the texts of lists and dictionaries.
* `cuttable_list`, `cuttable_dict`: they can be cut if their items and members can.
-/

namespace Runbook.Json

open Runbook.Text Runbook.Number

/-- A character that is neither white space nor a closing bracket nor a byte order mark. -/
def Begins (c : Char) : Prop :=
  isSpace c = false ∧ c ≠ ']' ∧ c ≠ '\uFEFF'

instance (c : Char) : Decidable (Begins c) := by
  unfold Begins; infer_instance

/-- A text that is read as a value, whatever stands behind it. -/
structure Written (cs : List Char) (v : Value) : Prop where
  begins : ∃ c t, cs = c :: t ∧ Begins c
  reads : ∀ fuel u, cs.length ≤ fuel → MayFollow v u → readValueWith fuel (cs ++ u) = .ok (v, u)

theorem ends_cons {c : Char} (hc : goesOn c = false) (u : List Char) : Ends (c :: u) :=
  ends_gap_cons isGap_nil hc u

/-! ### Parts of a text -/

section Parts

variable {cs part behind gap : List Char}

theorem Ends.of_prefix (h : Ends behind) (hpart : part <+: behind) : Ends part := by
  obtain ⟨rest, rfl⟩ := hpart
  intro c t ht
  exact h c (t ++ rest) (by rw [ht, List.cons_append])

/-- A part of two texts is a part of the first, or the first and a part of the second. -/
theorem prefix_append_cases (h : part <+: cs ++ behind) :
    part <+: cs ∨ ∃ more, part = cs ++ more ∧ more <+: behind := by
  rcases List.prefix_or_prefix_of_prefix h (List.prefix_append cs behind) with h' | ⟨more, rfl⟩
  · exact .inl h'
  · exact .inr ⟨more, rfl, (List.prefix_append_right_inj cs).1 h⟩

/-- White space in front does not matter for a part of a text. -/
theorem skipSpace_prefix (hgap : IsGap gap) {c : Char} {t : List Char} (hc : isSpace c = false)
    (h : part <+: gap ++ c :: t) : skipSpace part <+: c :: t := by
  rcases prefix_append_cases h with ⟨rest, rfl⟩ | ⟨more, rfl, hmore⟩
  · rw [skipSpace_of_gap fun d hd => hgap d (List.mem_append_left rest hd)]
    exact List.nil_prefix
  · rw [skipSpace_gap hgap]
    cases more with
    | nil => exact List.nil_prefix
    | cons d more =>
      obtain ⟨rfl, -⟩ := List.cons_prefix_cons.1 hmore
      rwa [skipSpace_cons hc]

theorem length_skipSpace_le (cs : List Char) : (skipSpace cs).length ≤ cs.length :=
  (List.dropWhile_suffix isSpace).length_le

end Parts

/-- **A reading that does not end in too many digits**: it has gone wrong for another reason, or it
has left a part of a text behind. -/
inductive Sound {α : Type} (behind : List Char) : Reading α → Prop
  | problem (p : Problem) (rest : List Char) : Sound behind (.error (.problem p rest))
  | read (a : α) {rest : List Char} (h : rest <+: behind) : Sound behind (.ok (a, rest))

instance {α : Type} (behind : List Char) (r : Reading α) : Decidable (Sound behind r) :=
  match r with
  | .ok (a, rest) => decidable_of_iff (rest <+: behind) ⟨.read a, fun h => by cases h; assumption⟩
  | .error (.problem p rest) => isTrue (.problem p rest)
  | .error (.tooManyDigits _) => isFalse fun h => nomatch h

/-- **A text that can be cut**: what is left of it in front of the cut is read soundly. -/
def Cuttable (cs : List Char) : Prop :=
  ∀ fuel part, part <+: cs → 2 * part.length < fuel → Sound [] (readValueWith fuel part)

/-- A text that can be cut is read soundly with something behind it, wherever that is cut. -/
theorem Cuttable.sound {cs part behind : List Char} {v : Value} {fuel : Nat} (h : Cuttable cs)
    (hwritten : Written cs v) (hpart : part <+: cs ++ behind) (hends : Ends behind)
    (hfuel : 2 * part.length < fuel) : Sound behind (readValueWith fuel part) := by
  rcases prefix_append_cases hpart with hcut | ⟨more, rfl, hmore⟩
  · have hsound := h fuel part hcut hfuel
    generalize readValueWith fuel part = r at hsound
    cases hsound with
    | problem p rest => exact .problem p rest
    | read a hrest =>
      rw [List.prefix_nil.1 hrest]
      exact .read a List.nil_prefix
  · rw [List.length_append] at hfuel
    rw [hwritten.reads fuel more (by omega) fun _ => hends.of_prefix hmore]
    exact .read v hmore

/-! ### Elements one behind the other -/

/-- **An element**: a text that is taken up at the head of others, as the last one in front of the
closing bracket or with a comma behind it. -/
structure Element {α : Type} (read : Nat → List Char → Reading (List α)) (close : Char)
    (cs : List Char) (a : α) : Prop where
  begins : ∃ c t, cs = c :: t ∧ isSpace c = false ∧ c ≠ close
  last : ∀ {fuel r rest}, cs.length ≤ fuel → Ends r → skipSpace r = close :: rest →
    read (fuel + 1) (cs ++ r) = .ok ([a], rest)
  more : ∀ {fuel r t others rest}, cs.length ≤ fuel → Ends r → skipSpace r = ',' :: t →
    read fuel (skipSpace t) = .ok (others, rest) →
      read (fuel + 1) (cs ++ r) = .ok (a :: others, rest)

/-- What is left behind an element is read soundly: nothing stands behind a closing bracket, and
what stands behind a comma is read soundly. -/
structure SoundBehind {α : Type} (read : List Char → Reading (List α)) (close : Char)
    (rest : List Char) : Prop where
  closed : ∀ t, skipSpace rest = close :: t → t = []
  more : ∀ t, skipSpace rest = ',' :: t → Sound [] (read (skipSpace t))

/-- **An element that can be cut**: in front of a cut there is a sound reading, if what is left
behind the element is read soundly. -/
structure CutElement {α : Type} (read : Nat → List Char → Reading (List α)) (close : Char)
    (cs : List Char) (a : α) : Prop extends Element read close cs a where
  cut : ∀ {fuel part behind}, part <+: cs ++ behind → Ends behind → 2 * part.length < fuel →
    (∀ rest, rest <+: behind → rest.length < part.length → SoundBehind (read fuel) close rest) →
      Sound [] (read (fuel + 1) part)

/-- Texts that follow another one, each behind a comma and a gap. -/
def followers (gap : List Char) (css : List (List Char)) : List Char :=
  css.flatMap fun cs => ',' :: (gap ++ cs)

/-- **Texts between brackets**: each stands behind a bracket or a comma and a gap, and a gap stands
in front of the closing bracket. -/
def spread (gap last : List Char) (mark close : Char) : List (List Char) → List Char
  | [] => [mark, close]
  | cs :: css => mark :: (gap ++ (cs ++ (followers gap css ++ (last ++ [close]))))

/-- A character that closes a list or a dictionary. -/
def Closes (c : Char) : Prop :=
  isSpace c = false ∧ goesOn c = false ∧ c ≠ ','

section Elements

variable {α : Type} {read : Nat → List Char → Reading (List α)} {close mark : Char}
  {gap last cs : List Char} {css : List (List Char)} {a : α} {as : List α}

theorem followers_cons (gap cs : List Char) (css : List (List Char)) (u : List Char) :
    followers gap (cs :: css) ++ u = ',' :: (gap ++ (cs ++ (followers gap css ++ u))) := by
  simp [followers]

theorem Element.skipSpace_eq (h : Element read close cs a) (hgap : IsGap gap) (u : List Char) :
    skipSpace (gap ++ (cs ++ u)) = cs ++ u := by
  obtain ⟨c, t, rfl, hc, -⟩ := h.begins
  rw [List.cons_append, skipSpace_gap_cons hgap hc]

/-- What is left of an element and more behind white space does not begin with the bracket. -/
theorem Element.skipSpace_prefix (h : Element read close cs a) (hgap : IsGap gap)
    {part u : List Char} (hpart : part <+: gap ++ (cs ++ u)) :
    skipSpace part <+: cs ++ u ∧ ∀ t, skipSpace part ≠ close :: t := by
  obtain ⟨c, s, rfl, hspace, hclose⟩ := h.begins
  have hskip := Json.skipSpace_prefix hgap hspace hpart
  refine ⟨hskip, fun t ht => ?_⟩
  rw [ht] at hskip
  exact hclose (List.cons_prefix_cons.1 hskip).1.symm

theorem Element.skipSpace_open (h : Element read close cs a) (hgap : IsGap gap) (u : List Char)
    (t : List Char) : skipSpace (gap ++ (cs ++ u)) ≠ close :: t :=
  (h.skipSpace_prefix hgap (List.prefix_refl _)).2 t

theorem spread_cons_append (gap last : List Char) (mark close : Char) (cs : List Char)
    (css : List (List Char)) (u : List Char) : spread gap last mark close (cs :: css) ++ u =
      mark :: (gap ++ (cs ++ (followers gap css ++ (last ++ close :: u)))) := by
  simp [spread]

theorem length_spread_cons (gap last : List Char) (mark close : Char) (cs : List Char)
    (css : List (List Char)) : (spread gap last mark close (cs :: css)).length =
      gap.length + (cs ++ followers gap css).length + last.length + 2 := by
  simp only [spread, List.length_cons, List.length_append, List.length_nil]
  omega

theorem length_spread_pos (gap last : List Char) (mark close : Char) (css : List (List Char)) :
    0 < (spread gap last mark close css).length := by
  cases css <;> simp [spread]

theorem spread_begins (hmark : Begins mark) (css : List (List Char)) :
    ∃ c t, spread gap last mark close css = c :: t ∧ Begins c := by
  cases css with
  | nil => exact ⟨mark, _, rfl, hmark⟩
  | cons cs css => exact ⟨mark, _, rfl, hmark⟩

/-- **Elements one behind the other** are read up to the closing bracket. -/
theorem read_spread (hgap : IsGap gap) (hlast : IsGap last) (hclose : Closes close)
    (h : List.Forall₂ (Element read close) (cs :: css) (a :: as)) (fuel : Nat) (u : List Char)
    (hfuel : (cs ++ followers gap css).length + 1 ≤ fuel) :
    read fuel (cs ++ (followers gap css ++ (last ++ close :: u))) = .ok (a :: as, u) := by
  obtain ⟨fuel, rfl⟩ : ∃ n, fuel = n + 1 := ⟨fuel - 1, by omega⟩
  -- on the elements behind the first: none is left, or the next one stands behind a comma
  induction css generalizing cs a as fuel with
  | nil =>
    obtain ⟨hfirst, hrest⟩ := List.forall₂_cons.1 h
    cases hrest
    rw [List.length_append] at hfuel
    exact hfirst.last (by omega) (ends_gap_cons hlast hclose.2.1 u)
      (skipSpace_gap_cons hlast hclose.1 u)
  | cons ds css ih =>
    obtain ⟨hfirst, hrest⟩ := List.forall₂_cons.1 h
    obtain ⟨b, others, hnext, hothers, rfl⟩ := List.forall₂_cons_left_iff.1 hrest
    rw [← List.append_nil (followers gap (ds :: css)), followers_cons, List.append_nil] at hfuel
    simp only [List.length_append, List.length_cons] at hfuel
    obtain ⟨fuel, rfl⟩ : ∃ n, fuel = n + 1 := ⟨fuel - 1, by omega⟩
    rw [followers_cons]
    refine hfirst.more (by omega) (ends_cons (by decide) _) (skipSpace_cons (by decide) _) ?_
    rw [hnext.skipSpace_eq hgap]
    refine ih (.cons hnext hothers) fuel ?_
    rw [List.length_append]
    omega

/-- **Elements in front of a cut** are read soundly. -/
theorem sound_spread (hgap : IsGap gap) (hlast : IsGap last) (hclose : Closes close)
    (h : List.Forall₂ (CutElement read close) (cs :: css) (a :: as)) (fuel : Nat)
    {part : List Char} (hpart : part <+: cs ++ (followers gap css ++ (last ++ [close])))
    (hfuel : 2 * part.length + 1 < fuel) : Sound [] (read fuel part) := by
  induction css generalizing cs a as fuel part with
  | nil =>
    obtain ⟨hfirst, -⟩ := List.forall₂_cons.1 h
    obtain ⟨fuel, rfl⟩ : ∃ n, fuel = n + 1 := ⟨fuel - 1, by omega⟩
    refine hfirst.cut hpart (ends_gap_cons hlast hclose.2.1 []) (by omega) fun rest hrest _ => ?_
    have hskip := skipSpace_prefix hlast hclose.1 hrest
    constructor
    · intro t ht
      rw [ht] at hskip
      exact List.prefix_nil.1 (List.cons_prefix_cons.1 hskip).2
    · intro t ht
      rw [ht] at hskip
      exact absurd (List.cons_prefix_cons.1 hskip).1.symm hclose.2.2
  | cons ds css ih =>
    obtain ⟨hfirst, hrest⟩ := List.forall₂_cons.1 h
    obtain ⟨b, others, hnext, hothers, rfl⟩ := List.forall₂_cons_left_iff.1 hrest
    obtain ⟨fuel, rfl⟩ : ∃ n, fuel = n + 1 := ⟨fuel - 1, by omega⟩
    rw [followers_cons] at hpart
    refine hfirst.cut hpart (ends_cons (by decide) _) (by omega) fun rest hrest hlen => ?_
    have hskip := skipSpace_prefix isGap_nil (by decide) hrest
    have hshort := length_skipSpace_le rest
    constructor
    · intro t ht
      rw [ht] at hskip
      exact absurd (List.cons_prefix_cons.1 hskip).1 hclose.2.2
    · intro t ht
      rw [ht] at hskip hshort
      rw [List.length_cons] at hshort
      have hbehind := hnext.toElement.skipSpace_prefix hgap (List.cons_prefix_cons.1 hskip).2
      have hshorter := length_skipSpace_le t
      exact ih (.cons hnext hothers) fuel hbehind.1 (by omega)

theorem sound_noValue (fuel : Nat) : Sound [] (readValueWith fuel []) := by
  cases fuel <;> exact .problem _ _

/-- **Elements between brackets can be cut**, if what is left behind the opening bracket decides
what is read. -/
theorem cuttable_spread (hgap : IsGap gap) (hlast : IsGap last) (hclose : Closes close)
    (hmark : ∀ {fuel part}, (∀ t, skipSpace part = close :: t → t = []) →
      ((∀ t, skipSpace part ≠ close :: t) → Sound [] (read fuel (skipSpace part))) →
        Sound [] (readValueWith (fuel + 1) (mark :: part)))
    (hnone : ∀ fuel, Sound [] (read fuel [])) (h : List.Forall₂ (CutElement read close) css as) :
    Cuttable (spread gap last mark close css) := by
  intro fuel part hpart hfuel
  obtain ⟨fuel, rfl⟩ : ∃ n, fuel = n + 1 := ⟨fuel - 1, by omega⟩
  cases part with
  | nil => exact sound_noValue _
  | cons c part =>
    rw [List.length_cons] at hfuel
    cases h with
    | nil =>
      obtain ⟨rfl, hinner⟩ := List.cons_prefix_cons.1 hpart
      have hskip := skipSpace_prefix isGap_nil hclose.1 hinner
      refine hmark (fun t ht => ?_) fun hopen => ?_
      · rw [ht] at hskip
        exact List.prefix_nil.1 (List.cons_prefix_cons.1 hskip).2
      · cases hrest : skipSpace part with
        | nil => exact hnone fuel
        | cons d t =>
          rw [hrest] at hskip
          exact absurd (by rw [hrest, (List.cons_prefix_cons.1 hskip).1]) (hopen t)
    | cons hfirst hothers =>
      obtain ⟨rfl, hinner⟩ := List.cons_prefix_cons.1 hpart
      obtain ⟨hskip, hopen⟩ := hfirst.toElement.skipSpace_prefix hgap hinner
      have hshort := length_skipSpace_le part
      refine hmark (fun t ht => absurd ht (hopen t)) fun _ => ?_
      exact sound_spread hgap hlast hclose (.cons hfirst hothers) fuel hskip (by omega)

end Elements

/-! ### Lists -/

section Lists

variable {cs : List Char} {v : Value} {css : List (List Char)} {items : List Value}
  {gap last : List Char}

/-- What is written is an item. -/
theorem Written.item (h : Written cs v) : Element readItemsWith ']' cs v where
  begins := by
    obtain ⟨c, t, hcs, hspace, hclose, -⟩ := h.begins
    exact ⟨c, t, hcs, hspace, hclose⟩
  last := fun hfuel hends hskip => readItemsWith_last (h.reads _ _ hfuel fun _ => hends) hskip
  more := fun hfuel hends hskip hothers =>
    readItemsWith_more (h.reads _ _ hfuel fun _ => hends) hskip hothers

theorem length_of_readValueWith {fuel : Nat} {part rest : List Char}
    (h : readValueWith fuel part = .ok (v, rest)) : rest.length < part.length := by
  obtain ⟨front, hne, rfl, -⟩ := (readValueWith_front fuel).1 _ _ _ h
  have hpos := List.length_pos_iff.2 hne
  rw [List.length_append]
  omega

/-- What is written and can be cut is an item that can be cut. -/
theorem Written.cutItem (h : Written cs v) (hcut : Cuttable cs) :
    CutElement readItemsWith ']' cs v where
  toElement := h.item
  cut := by
    intro fuel part behind hpart hends hfuel hbehind
    have hsound := hcut.sound h hpart hends hfuel
    unfold readItemsWith
    generalize hread : readValueWith fuel part = r at hsound ⊢
    cases hsound with
    | problem p rest => exact .problem p rest
    | @read w rest hrest =>
      obtain ⟨hclosed, hmore⟩ := hbehind rest hrest (length_of_readValueWith hread)
      simp only
      split
      · rename_i t ht
        rw [hclosed t ht]
        exact .read _ List.nil_prefix
      · rename_i t ht
        have hothers := hmore t ht
        generalize readItemsWith fuel (skipSpace t) = r at hothers ⊢
        cases hothers with
        | problem p rest => exact .problem p rest
        | read others h => exact .read _ h
      · exact .problem _ _

theorem closes_bracket : Closes ']' := ⟨by decide, by decide, by decide⟩

/-- **A list whose items are written** is written. -/
theorem written_list (hgap : IsGap gap) (hlast : IsGap last)
    (h : List.Forall₂ Written css items) : Written (spread gap last '[' ']' css) (.list items) := by
  refine ⟨spread_begins (by decide) css, fun fuel u hfuel _ => ?_⟩
  obtain ⟨fuel, rfl⟩ : ∃ n, fuel = n + 1 :=
    ⟨fuel - 1, by have := length_spread_pos gap last '[' ']' css; omega⟩
  cases h with
  | nil => exact readValueWith_emptyList (skipSpace_cons (by decide) u)
  | @cons cs v css items hv hitems =>
    rw [length_spread_cons] at hfuel
    rw [spread_cons_append]
    refine readValueWith_list (hv.item.skipSpace_open hgap _) ?_
    rw [hv.item.skipSpace_eq hgap]
    exact read_spread hgap hlast closes_bracket
      ((List.Forall₂.cons hv hitems).imp fun _ _ h => h.item) fuel u (by omega)

/-- What is left of a list behind its opening bracket decides what is read of it. -/
theorem sound_bracket {fuel : Nat} {part : List Char}
    (hclosed : ∀ t, skipSpace part = ']' :: t → t = [])
    (hopen : (∀ t, skipSpace part ≠ ']' :: t) → Sound [] (readItemsWith fuel (skipSpace part))) :
    Sound [] (readValueWith (fuel + 1) ('[' :: part)) := by
  rw [readValueWith]
  split
  · rename_i t ht
    rw [hclosed t ht]
    exact .read _ List.nil_prefix
  · rename_i hne
    have hitems := hopen fun t ht => hne t ht
    generalize readItemsWith fuel (skipSpace part) = r at hitems ⊢
    cases hitems with
    | problem p rest => exact .problem p rest
    | read items h => exact .read _ h

theorem sound_noItems (fuel : Nat) : Sound [] (readItemsWith fuel []) := by
  cases fuel with
  | zero => exact .problem _ _
  | succ fuel =>
    have hvalue := sound_noValue fuel
    unfold readItemsWith
    generalize hread : readValueWith fuel [] = r at hvalue
    cases hvalue with
    | problem p rest => exact .problem p rest
    | read v h => cases length_of_readValueWith hread

/-- **A list can be cut** if its items can. -/
theorem cuttable_list (hgap : IsGap gap) (hlast : IsGap last)
    (h : List.Forall₂ (fun cs v => Written cs v ∧ Cuttable cs) css items) :
    Cuttable (spread gap last '[' ']' css) :=
  cuttable_spread hgap hlast closes_bracket sound_bracket sound_noItems
    (h.imp fun _ _ h => h.1.cutItem h.2)

end Lists

/-! ### Dictionaries -/

section Dictionaries

variable {body gap last space value : List Char} {name : String} {v : Value}
  {css : List (List Char)} {members : List (String × Value)}

/-- A text that is read as a name, whatever stands behind it. The quote that closes the name is part
of it, the quote that opens it is not. -/
def IsNameText (body : List Char) (name : String) : Prop :=
  ∀ u, readString (body ++ u) = .ok (name, u)

/-- The text of a member. -/
def memberText (body space value : List Char) : List Char :=
  '"' :: (body ++ ':' :: (space ++ value))

theorem memberText_append (body space value u : List Char) :
    memberText body space value ++ u = '"' :: (body ++ ':' :: (space ++ (value ++ u))) := by
  simp [memberText]

theorem Written.skipSpace_eq (h : Written value v) (hgap : IsGap gap) (u : List Char) :
    skipSpace (gap ++ (value ++ u)) = value ++ u :=
  h.item.skipSpace_eq hgap u

/-- What is written is a member with its name in front. -/
theorem Written.member (h : Written value v) (hname : IsNameText body name) (hspace : IsGap space) :
    Element readMembersWith '\x7d' (memberText body space value) (.str name, v) where
  begins := ⟨'"', _, rfl, by decide, by decide⟩
  last := by
    intro fuel r rest hfuel hends hskip
    simp only [memberText, List.length_cons, List.length_append] at hfuel
    rw [memberText_append]
    refine readMembersWith_last (hname _) (skipSpace_cons (by decide) _) ?_ hskip
    rw [h.skipSpace_eq hspace]
    exact h.reads _ _ (by omega) fun _ => hends
  more := by
    intro fuel r t others rest hfuel hends hskip hothers
    simp only [memberText, List.length_cons, List.length_append] at hfuel
    rw [memberText_append]
    refine readMembersWith_more (hname _) (skipSpace_cons (by decide) _) ?_ hskip hothers
    rw [h.skipSpace_eq hspace]
    exact h.reads _ _ (by omega) fun _ => hends

/-- A part of a text that begins with a string is read soundly as a string. -/
theorem sound_readString {cs part rest : List Char} {s : String}
    (h : readString cs = .ok (s, rest)) (hpart : part <+: cs) : Sound rest (readString part) := by
  cases hread : readString part with
  | error e =>
    cases e with
    | problem p left => exact .problem p left
    | tooManyDigits k => exact absurd hread readString_ne_tooManyDigits
  | ok found =>
    obtain ⟨t, left⟩ := found
    obtain ⟨more, rfl⟩ := hpart
    -- a string is read the same whatever stands behind it, so what is left goes on in the rest
    obtain ⟨front, -, rfl, hfront⟩ := readString_front hread
    rw [List.append_assoc, hfront] at h
    obtain ⟨-, rfl⟩ := Prod.mk.inj (Except.ok.inj h)
    exact .read t (List.prefix_append left more)

theorem length_of_readString {cs rest : List Char} {s : String}
    (h : readString cs = .ok (s, rest)) : rest.length < cs.length := by
  obtain ⟨front, hne, rfl, -⟩ := readString_front h
  have hpos := List.length_pos_iff.2 hne
  rw [List.length_append]
  omega

/-- What is written and can be cut is a member that can be cut, with its name in front. -/
theorem Written.cutMember (h : Written value v) (hcut : Cuttable value)
    (hname : IsNameText body name) (hspace : IsGap space) :
    CutElement readMembersWith '\x7d' (memberText body space value) (.str name, v) where
  toElement := h.member hname hspace
  cut := by
    intro fuel part behind hpart hends hfuel hbehind
    rw [memberText_append] at hpart
    cases part with
    | nil => exact .problem _ _
    | cons c part =>
    obtain ⟨rfl, hinner⟩ := List.cons_prefix_cons.1 hpart
    rw [List.length_cons] at hfuel hbehind
    have hstring := sound_readString (hname _) hinner
    rw [readMembersWith]
    generalize hread : readString part = r at hstring ⊢
    cases hstring with
    | problem p rest => exact .problem p rest
    | @read other rest hrest =>
    have hcolon := skipSpace_prefix isGap_nil (show isSpace ':' = false by decide) hrest
    have hshort := length_of_readString hread
    have hshorter := length_skipSpace_le rest
    simp only
    split
    · rename_i t ht
      rw [ht] at hcolon hshorter
      rw [List.length_cons] at hshorter
      obtain ⟨hvalue, -⟩ := h.item.skipSpace_prefix hspace (List.cons_prefix_cons.1 hcolon).2
      have hshortest := length_skipSpace_le t
      have hsound : Sound behind (readValueWith fuel (skipSpace t)) :=
        hcut.sound h hvalue hends (by omega)
      generalize hreadValue : readValueWith fuel (skipSpace t) = r at hsound ⊢
      cases hsound with
      | problem p rest => exact .problem p rest
      | @read w rest hrest =>
      have hlen := length_of_readValueWith hreadValue
      obtain ⟨hclosed, hmore⟩ := hbehind rest hrest (by omega)
      simp only
      split
      · rename_i t ht
        rw [hclosed t ht]
        exact .read _ List.nil_prefix
      · rename_i t ht
        have hothers := hmore t ht
        generalize readMembersWith fuel (skipSpace t) = r at hothers ⊢
        cases hothers with
        | problem p rest => exact .problem p rest
        | read others h => exact .read _ h
      · exact .problem _ _
    · exact .problem _ _

/-- A text of a member, with a text of its value. -/
def IsMember (isText : List Char → Value → Prop) (space cs : List Char)
    (m : String × Value) : Prop :=
  ∃ body value, cs = memberText body space value ∧ IsNameText body m.1 ∧ isText value m.2

theorem closes_brace : Closes '\x7d' := ⟨by decide, by decide, by decide⟩

/-- The members of a dictionary with their names. -/
theorem forall₂_members {isText : List Char → Value → Prop}
    {element : List Char → Value × Value → Prop}
    (h : List.Forall₂ (IsMember isText space) css members)
    (himp : ∀ body name value v, IsNameText body name → isText value v →
      element (memberText body space value) (.str name, v)) :
    List.Forall₂ element css (Entries.named members) := by
  induction h with
  | nil => exact .nil
  | cons hm _ ih =>
    obtain ⟨body, value, rfl, hname, hvalue⟩ := hm
    exact .cons (himp _ _ _ _ hname hvalue) ih

/-- **A map whose members are written** is written, with the last member of each name. -/
theorem written_map (hgap : IsGap gap) (hlast : IsGap last) (hspace : IsGap space)
    (h : List.Forall₂ (IsMember Written space) css members) :
    Written (spread gap last '\x7b' '\x7d' css)
      (.dict (Entries.ofList (Entries.named members))) := by
  refine ⟨spread_begins (by decide) css, fun fuel u hfuel _ => ?_⟩
  obtain ⟨fuel, rfl⟩ : ∃ n, fuel = n + 1 :=
    ⟨fuel - 1, by have := length_spread_pos gap last '\x7b' '\x7d' css; omega⟩
  have helements : List.Forall₂ (Element readMembersWith '\x7d') css (Entries.named members) :=
    forall₂_members h fun _ _ _ _ hname hvalue => hvalue.member hname hspace
  generalize Entries.named members = entries at helements
  cases helements with
  | nil => exact readValueWith_emptyDict (skipSpace_cons (by decide) u)
  | cons hm hmembers =>
    rw [length_spread_cons] at hfuel
    rw [spread_cons_append]
    refine readValueWith_dict (hm.skipSpace_open hgap _) ?_
    rw [hm.skipSpace_eq hgap]
    exact read_spread hgap hlast closes_brace (.cons hm hmembers) fuel u (by omega)

/-- **A dictionary whose members are written** is written. -/
theorem written_dict (hgap : IsGap gap) (hlast : IsGap last) (hspace : IsGap space)
    (h : List.Forall₂ (IsMember Written space) css members) (hnames : (members.map (·.1)).Nodup) :
    Written (spread gap last '\x7b' '\x7d' css) (.dict (Entries.named members)) := by
  rw [← Entries.ofList_named hnames]
  exact written_map hgap hlast hspace h

/-- What is left of a dictionary behind its opening brace decides what is read of it. -/
theorem sound_brace {fuel : Nat} {part : List Char}
    (hclosed : ∀ t, skipSpace part = '\x7d' :: t → t = [])
    (hopen : (∀ t, skipSpace part ≠ '\x7d' :: t) →
      Sound [] (readMembersWith fuel (skipSpace part))) :
    Sound [] (readValueWith (fuel + 1) ('\x7b' :: part)) := by
  rw [readValueWith]
  split
  · rename_i t ht
    rw [hclosed t ht]
    exact .read _ List.nil_prefix
  · rename_i hne
    have hmembers := hopen fun t ht => hne t ht
    generalize readMembersWith fuel (skipSpace part) = r at hmembers ⊢
    cases hmembers with
    | problem p rest => exact .problem p rest
    | read members h => exact .read _ h

theorem sound_noMembers (fuel : Nat) : Sound [] (readMembersWith fuel []) := by
  cases fuel <;> exact .problem _ _

/-- **A dictionary can be cut** if its members can. -/
theorem cuttable_dict (hgap : IsGap gap) (hlast : IsGap last) (hspace : IsGap space)
    (h : List.Forall₂ (IsMember (fun cs v => Written cs v ∧ Cuttable cs) space) css members) :
    Cuttable (spread gap last '\x7b' '\x7d' css) :=
  cuttable_spread hgap hlast closes_brace sound_brace sound_noMembers
    (forall₂_members h fun _ _ _ _ hname hvalue => hvalue.1.cutMember hvalue.2 hname hspace)

end Dictionaries

end Runbook.Json
