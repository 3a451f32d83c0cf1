import Runbook.Proofs.JsonWriting

/-!
# Indented JSON that lasts in a file

The indented text of a tree has every item on a line of its own and every character in ASCII. It is
read as the tree, like the compact text. It also lasts in a file that is read in chunks: it has no
carriage return, so its lines end as they were written, and it can be cut, because none of its
integers has too many digits.

* `writes_asciiChar`: characters beyond ASCII, by one code unit or by two surrogates.
* `Writes.cuttable_string`, `cuttable_integer`, `cuttable_word`: scalars can be cut.
* `Durable`: a text that is read back and lasts in a file.
* `indented_list`, `indented_dict`: the layout of lists and dictionaries.
* `exists_durable`: every tree has an indented text that lasts.
-/

namespace Runbook.Json

open Runbook.Text Runbook.Number

/-! ### Strings in ASCII -/

/-- The code units that a character is written by. -/
def asciiPoints (c : Char) : List Nat :=
  if c.toNat < 0x10000 then [c.toNat]
  else [0xD800 + (c.toNat - 0x10000) / 1024, 0xDC00 + (c.toNat - 0x10000) % 1024]

theorem toNat_lt (c : Char) : c.toNat < 0x110000 := by
  rcases c.valid with hlow | ⟨-, hhigh⟩
  · exact Nat.lt_trans hlow (by decide)
  · exact hhigh

theorem escape?_ascii {c : Char} {cs : List Char} (h : escape? c = some cs) : c.toNat < 0x80 := by
  unfold escape? at h
  split_ifs at h with hmark hnewline hreturn htab hback hfeed hcontrol
  · simp only [Bool.or_eq_true, beq_iff_eq] at hmark
    rcases hmark with rfl | rfl <;> decide
  · rw [eq_of_beq hnewline]; decide
  · rw [eq_of_beq hreturn]; decide
  · rw [eq_of_beq htab]; decide
  · rw [eq_of_beq hback]; decide
  · rw [eq_of_beq hfeed]; decide
  · omega

/-- How a character is written in ASCII: as in the compact layout, by its code, or by two
surrogates. -/
theorem asciiChar_cases (c : Char) :
    (asciiChar c = plainChar c ∧ c.toNat < 0x10000) ∨
    (asciiChar c = unitEscape c.toNat ∧ c.toNat < 0x10000) ∨
    (asciiChar c = unitEscape (0xD800 + (c.toNat - 0x10000) / 1024) ++
      unitEscape (0xDC00 + (c.toNat - 0x10000) % 1024) ∧ ¬ c.toNat < 0x10000) := by
  unfold asciiChar plainChar
  cases hescape : escape? c with
  | some cs =>
    have hsmall := escape?_ascii hescape
    exact .inl ⟨rfl, by omega⟩
  | none =>
    simp only [Option.getD_none]
    split_ifs with hascii hplane
    · exact .inl ⟨rfl, by omega⟩
    · exact .inr (.inl ⟨rfl, hplane⟩)
    · exact .inr (.inr ⟨rfl, hplane⟩)

/-- **Characters in ASCII** are read as their code units, and two surrogates are joined again. -/
theorem writes_asciiChar : Writes asciiChar asciiPoints where
  reads := by
    intro opening tail rest next more c h
    have hbound := toNat_lt c
    rcases asciiChar_cases c with ⟨he, hc⟩ | ⟨he, hc⟩ | ⟨he, hc⟩
    · rw [he, asciiPoints, if_pos hc]
      exact readPoints_plainChar opening c h
    · rw [he, asciiPoints, if_pos hc]
      exact readPoints_unitEscape hc h
    · rw [he, asciiPoints, if_neg hc, List.append_assoc]
      have hlow := readPoints_unitEscape (n := 0xDC00 + (c.toNat - 0x10000) % 1024) (by omega) h
      exact readPoints_unitEscape (by omega) hlow
  joins := by
    intro c more
    unfold asciiPoints
    split_ifs with hc
    · exact joinPoints_char c more
    · have hbound := toNat_lt c
      have hpair : isHighSurrogate (0xD800 + (c.toNat - 0x10000) / 1024) &&
          isLowSurrogate (0xDC00 + (c.toNat - 0x10000) % 1024) := by
        simp only [isHighSurrogate, isLowSurrogate, Bool.and_eq_true, decide_eq_true_eq]
        omega
      have hcode : 0x10000 + 1024 * (0xD800 + (c.toNat - 0x10000) / 1024 - 0xD800) +
          (0xDC00 + (c.toNat - 0x10000) % 1024 - 0xDC00) = c.toNat := by
        omega
      rw [List.cons_append, List.cons_append, List.nil_append, joinPoints, if_pos hpair, hcode,
        Char.ofNat_toNat]

/-- A carriage return is never written as it is. -/
theorem no_return_asciiChar (c : Char) : '\r' ∉ asciiChar c := by
  have hdigit : ∀ n, hexDigit (n % 16) ≠ '\r' := by
    intro n
    have hdigits : ∀ d < 16, hexDigit d ≠ '\r' := by decide
    exact hdigits _ (Nat.mod_lt _ (by decide))
  have hunit : ∀ n, '\r' ∉ unitEscape n := by
    intro n
    simp [unitEscape, hexDigits, (hdigit _).symm]
  rcases asciiChar_cases c with ⟨he, -⟩ | ⟨he, -⟩ | ⟨he, -⟩
  · rw [he]
    rcases plainChar_cases c with ⟨e, he, -, hd⟩ | ⟨he, -⟩ | ⟨he, -, -, hc⟩
    · rw [he]
      simp only [List.mem_cons, List.not_mem_nil, or_false, not_or]
      refine ⟨by decide, ?_⟩
      rintro rfl
      cases hd
    · rw [he]
      exact hunit _
    · rw [he, List.mem_singleton]
      rintro rfl
      exact hc (by decide)
  · rw [he]
    exact hunit _
  · rw [he, List.mem_append, not_or]
    exact ⟨hunit _, hunit _⟩

/-! ### Scalars that are cut -/

/-- **A string can be cut.** -/
theorem Writes.cuttable_string {write : Char → List Char} {points : Char → List Nat}
    (h : Writes write points) (s : String) : Cuttable (quoted write s.toList) := by
  intro fuel part hpart hfuel
  obtain ⟨fuel, rfl⟩ : ∃ n, fuel = n + 1 := ⟨fuel - 1, by omega⟩
  cases part with
  | nil => exact sound_noValue _
  | cons c part =>
    obtain ⟨rfl, hinner⟩ := List.cons_prefix_cons.1 hpart
    have hread := h.readString_quoted s []
    rw [List.append_nil] at hread
    have hstring := sound_readString hread hinner
    rw [readValueWith]
    generalize readString part = r at hstring ⊢
    cases hstring with
    | problem p rest => exact .problem p rest
    | read t hrest => exact .read _ hrest

/-- A scalar can be cut if what is left of it is read soundly as a scalar. -/
theorem cuttable_scalar {c : Char} {t : List Char} (hc : BeginsScalar c)
    (h : ∀ part, part <+: c :: t → Sound [] (readScalar part)) : Cuttable (c :: t) := by
  intro fuel part hpart hfuel
  obtain ⟨fuel, rfl⟩ : ∃ n, fuel = n + 1 := ⟨fuel - 1, by omega⟩
  cases part with
  | nil => exact sound_noValue _
  | cons d part =>
    have hsound := h _ hpart
    obtain ⟨rfl, -⟩ := List.cons_prefix_cons.1 hpart
    rwa [readValueWith_scalar hc]

theorem cuttable_word {word : List Char} {v : Value} (h : (word, v) ∈ words) : Cuttable word := by
  have hparts : ∀ entry ∈ words, ∀ part ∈ entry.1.inits, Sound [] (readScalar part) := by decide
  obtain ⟨c, t, rfl, hc⟩ := word_head h
  exact cuttable_scalar hc fun part hpart => hparts _ h part ((List.mem_inits part _).2 hpart)

/-- What is left of the digits of a number is read as digits. -/
theorem readsWhole_front {n : Nat} {part : List Char} (hne : part ≠ [])
    (hpart : part <+: digitsOfNat n) : ReadsWhole part part [] := by
  obtain ⟨d, t, rfl⟩ := List.exists_cons_of_ne_nil hne
  by_cases hn : n = 0
  · rw [hn, digitsOfNat_small (by decide)] at hpart
    obtain ⟨rfl, ht⟩ := List.cons_prefix_cons.1 hpart
    rw [List.prefix_nil.1 ht]
    exact .zero
  · obtain ⟨c, ds, hds, hc⟩ := head_digitsOfNat hn
    have hdigits : ∀ e ∈ d :: t, isAsciiDigit e = true := fun e he =>
      isAsciiDigit_of_mem_digitsOfNat (hpart.subset he)
    rw [hds] at hpart
    obtain ⟨rfl, -⟩ := List.cons_prefix_cons.1 hpart
    have hwhole : ReadsWhole (d :: t ++ []) (d :: t) [] :=
      .digits hc hdigits fun _ _ h => nomatch h
    rwa [List.append_nil] at hwhole

/-- The digits of a number that is not too long can be cut. -/
theorem sound_readNumber {negative : Bool} {start part : List Char} {n : Nat}
    (hn : n < tooLongInteger) (hpart : part <+: digitsOfNat n) :
    Sound [] (readNumber negative start part) := by
  by_cases hne : part = []
  · rw [hne]
    exact .problem _ _
  · have hshort : ¬ maxIntegerDigits < part.length := by
      have hdigits := length_digitsOfNat hn
      have hle := hpart.length_le
      omega
    have hvalue : ∃ v, numberValue negative part none none = .ok v :=
      exists_numberValue_iff.2 (.inr (.inr (by omega)))
    obtain ⟨v, hvalue⟩ := hvalue
    have hread : readNumber negative start part = .ok (v, []) :=
      readNumber_iff.2 (.mk (readsWhole_front hne hpart) (.left fun _ h => nomatch h)
        (.left fun _ _ h => nomatch h) hvalue)
    rw [hread]
    exact .read v List.nil_prefix

/-- **An integer that is not too long can be cut.** -/
theorem cuttable_integer {n : Int} (h : n.natAbs < tooLongInteger) :
    Cuttable (intText n).toList := by
  have hdigit : ∀ {n c t}, c :: t <+: digitsOfNat n → isAsciiDigit c = true := fun hpart =>
    isAsciiDigit_of_mem_digitsOfNat (hpart.subset List.mem_cons_self)
  cases n with
  | ofNat n =>
    obtain ⟨c, t, hdigits⟩ := List.exists_cons_of_ne_nil (digitsOfNat_ne_nil n)
    have hc : isAsciiDigit c = true := hdigit (n := n) (t := t) (by rw [hdigits])
    rw [toList_intText_ofNat, hdigits]
    refine cuttable_scalar (beginsScalar_digit hc) fun part hpart => ?_
    rw [← hdigits] at hpart
    cases part with
    | nil => exact .problem _ _
    | cons d part =>
      rw [readScalar_positive (hdigit hpart)]
      exact sound_readNumber h hpart
  | negSucc n =>
    rw [toList_intText_negSucc]
    refine cuttable_scalar ⟨by decide, by decide, by decide, by decide⟩ fun part hpart => ?_
    cases part with
    | nil => exact .problem _ _
    | cons d part =>
      obtain ⟨rfl, hdigits⟩ := List.cons_prefix_cons.1 hpart
      cases part with
      | nil => exact .problem _ _
      | cons d part =>
        rw [readScalar_negative (hdigit hdigits)]
        exact sound_readNumber h hdigits

/-! ### Texts that last -/

/-- **A text that lasts in a file**: it is read as a value, can be cut, and has no carriage return
that would be read as the end of a line. -/
structure Durable (cs : List Char) (v : Value) : Prop extends Written cs v where
  cuttable : Cuttable cs
  no_return : '\r' ∉ cs

theorem durable_word {word : List Char} {v : Value} (h : (word, v) ∈ words) : Durable word v := by
  have hreturn : ∀ entry ∈ words, '\r' ∉ entry.1 := by decide
  exact ⟨written_word h, cuttable_word h, hreturn _ h⟩

theorem durable_string (s : String) : Durable (quoted asciiChar s.toList) (.str s) := by
  refine ⟨writes_asciiChar.written_string s, writes_asciiChar.cuttable_string s, ?_⟩
  simp [quoted, no_return_asciiChar]

theorem durable_integer {n : Int} (h : n.natAbs < tooLongInteger) :
    Durable (intText n).toList (.int n) := by
  have hdigits : ∀ k, '\r' ∉ digitsOfNat k := fun k hmem => by
    cases isAsciiDigit_of_mem_digitsOfNat hmem
  obtain ⟨s, hs, hwritten⟩ := written_integer h
  rw [integerText, if_pos h] at hs
  obtain rfl := Except.ok.inj hs
  refine ⟨hwritten, cuttable_integer h, ?_⟩
  cases n with
  | ofNat n =>
    rw [toList_intText_ofNat]
    exact hdigits n
  | negSucc n =>
    rw [toList_intText_negSucc, List.mem_cons, not_or]
    exact ⟨by decide, hdigits (n + 1)⟩

/-! ### Lines -/

section Layouts

variable {gap last cs : List Char} {mark close : Char} {css : List (List Char)}

theorem no_return_spread (hgap : '\r' ∉ gap) (hlast : '\r' ∉ last) (hmark : mark ≠ '\r')
    (hclose : close ≠ '\r') (h : ∀ cs ∈ css, '\r' ∉ cs) :
    '\r' ∉ spread gap last mark close css := by
  cases css with
  | nil => simp [spread, hmark.symm, hclose.symm]
  | cons cs css =>
    rw [List.forall_mem_cons] at h
    simp only [spread, followers, List.mem_cons, List.mem_append, List.mem_flatMap,
      List.not_mem_nil, or_false, not_or, not_exists, not_and]
    exact ⟨hmark.symm, hgap, h.1, fun ds hds => ⟨by decide, hgap, h.2 ds hds⟩, hlast, hclose.symm⟩

/-- The white space at the start of a line. -/
theorem isGap_lineStart (level : Nat) : IsGap (lineStart level) := by
  intro c hc
  rcases List.mem_cons.1 hc with rfl | hc
  · rfl
  · rw [(List.mem_replicate.1 hc).2]
    rfl

theorem no_return_lineStart (level : Nat) : '\r' ∉ lineStart level := by
  simp [lineStart]

/-- The text of a name behind the quote that opens it. -/
def nameText (name : String) : List Char :=
  name.toList.flatMap asciiChar ++ ['"']

/-- A member of a dictionary on a line, with a text of its value. -/
def MemberLine (isText : List Char → Value → Prop) (cs : List Char) (m : String × Value) : Prop :=
  ∃ value, cs = memberText (nameText m.1) [' '] value ∧ isText value m.2

theorem MemberLine.imp {p q : List Char → Value → Prop} (hpq : ∀ cs v, p cs v → q cs v)
    (cs : List Char) (m : String × Value) (h : MemberLine p cs m) : MemberLine q cs m := by
  obtain ⟨value, hcs, hvalue⟩ := h
  exact ⟨value, hcs, hpq _ _ hvalue⟩

theorem MemberLine.isMember {p : List Char → Value → Prop} (cs : List Char) (m : String × Value)
    (h : MemberLine p cs m) : IsMember p [' '] cs m := by
  obtain ⟨value, hcs, hvalue⟩ := h
  exact ⟨_, value, hcs, writes_asciiChar.readString_quoted m.1, hvalue⟩

/-- An entry of a map on a line under the text of its key, with a text of its value. -/
def EntryLine (isText : List Char → Value → Prop) (cs : List Char) (e : Value × Value) : Prop :=
  ∃ name value, keyText e.1 = .ok name ∧ cs = memberText (nameText name) [' '] value ∧
    isText value e.2

theorem MemberLine.entryLine {p : List Char → Value → Prop} (cs : List Char) (m : String × Value)
    (h : MemberLine p cs m) : EntryLine p cs (.str m.1, m.2) := by
  obtain ⟨value, hcs, hvalue⟩ := h
  exact ⟨m.1, value, rfl, hcs, hvalue⟩

theorem forall_left {α β : Type} {r : α → β → Prop} {p : α → Prop} {as : List α} {bs : List β}
    (h : List.Forall₂ r as bs) (hp : ∀ a b, r a b → p a) : ∀ a ∈ as, p a := by
  induction h with
  | nil => exact fun _ ha => nomatch ha
  | cons hab _ ih => exact List.forall_mem_cons.2 ⟨hp _ _ hab, ih⟩

/-- **A list in lines lasts**, if its items do. -/
theorem durable_list {items : List Value} (level : Nat) (h : List.Forall₂ Durable css items) :
    Durable (spread (lineStart (level + 1)) (lineStart level) '[' ']' css) (.list items) where
  toWritten := written_list (isGap_lineStart _) (isGap_lineStart _) (h.imp fun _ _ h => h.toWritten)
  cuttable := cuttable_list (isGap_lineStart _) (isGap_lineStart _)
    (h.imp fun _ _ h => ⟨h.toWritten, h.cuttable⟩)
  no_return := no_return_spread (no_return_lineStart _) (no_return_lineStart _) (by decide)
    (by decide) (forall_left h fun _ _ h => h.no_return)

/-- **A dictionary in lines lasts**, if the values of its members do. -/
theorem durable_dict {members : List (String × Value)} (level : Nat)
    (h : List.Forall₂ (MemberLine Durable) css members) (hnames : (members.map (·.1)).Nodup) :
    Durable (spread (lineStart (level + 1)) (lineStart level) '\x7b' '\x7d' css)
      (.dict (Entries.named members)) := by
  have hspace : IsGap [' '] := by simp [IsGap, isSpace]
  have hmembers : ∀ {p : List Char → Value → Prop}, (∀ cs v, Durable cs v → p cs v) →
      List.Forall₂ (IsMember p [' ']) css members := fun hp =>
    h.imp fun cs m hm => (hm.imp hp cs m).isMember cs m
  refine ⟨?_, ?_, ?_⟩
  · exact written_dict (isGap_lineStart _) (isGap_lineStart _) hspace
      (hmembers fun _ _ h => h.toWritten) hnames
  · exact cuttable_dict (isGap_lineStart _) (isGap_lineStart _) hspace
      (hmembers fun _ _ h => ⟨h.toWritten, h.cuttable⟩)
  · refine no_return_spread (no_return_lineStart _) (no_return_lineStart _) (by decide) (by decide)
      (forall_left h ?_)
    rintro cs m ⟨value, rfl, hvalue⟩
    simp [memberText, nameText, no_return_asciiChar, hvalue.no_return]

end Layouts

section Lines

variable {level : Nat} {mark : Char} {front cs : List Char} {css : List (List Char)}
  {v : Value} {items : List Value} {members : List (String × Value)} {entries : Entries}

theorem Output.text_append (a b : List Char) : text a ++ text b = text (a ++ b) := rfl

/-- A value that is written in one piece. -/
theorem indented_piece {o : Output} (h : piece? v = some o) : indented level v = o := by
  rw [indented, h]
  · rintro items rfl
    cases h
  · rintro items rfl
    cases h
  · rintro entries rfl
    cases h

/-- An item behind its mark, whether it is written in one piece or not. -/
theorem indentedItems_cons (hv : indented level v = .text cs) :
    indentedItems level mark (v :: items) =
      .text (mark :: (lineStart level ++ cs)) ++ indentedItems level ',' items := by
  rw [indentedItems]
  cases hpiece : piece? v with
  | some o =>
    obtain rfl : o = .text cs := (indented_piece hpiece).symm.trans hv
    rfl
  | none =>
    rw [hv]
    rfl

theorem indentedItems_text (hv : indented level v = .text cs)
    (h : List.Forall₂ (fun cs v => indented level v = .text cs) css items) :
    indentedItems level mark (v :: items) =
      .text (mark :: (lineStart level ++ (cs ++ followers (lineStart level) css))) := by
  induction h generalizing mark v cs with
  | nil =>
    rw [indentedItems_cons hv, indentedItems, Output.text_append]
    simp [followers]
  | @cons ds w css items hw _ ih =>
    rw [indentedItems_cons hv, ih hw, Output.text_append]
    simp [followers]

/-- **A list in lines**: every item on a line of its own. -/
theorem indented_list (h : List.Forall₂ (fun cs v => indented (level + 1) v = .text cs) css items) :
    indented level (.list items) =
      .text (spread (lineStart (level + 1)) (lineStart level) '[' ']' css) := by
  cases h with
  | nil => simp [indented, spread]
  | cons hv hitems =>
    rw [indented, List.isEmpty_cons, if_neg (by simp), indentedItems_text hv hitems,
      Output.text_append]
    simp [spread]

theorem indentedMembers_text {e : Value × Value}
    (he : EntryLine (fun cs v => indented level v = .text cs) cs e)
    (h : List.Forall₂ (EntryLine fun cs v => indented level v = .text cs) css entries) :
    indentedMembers level front (e :: entries) =
      .text (front ++ (cs ++ followers (lineStart level) css)) := by
  induction h generalizing front e cs with
  | nil =>
    obtain ⟨name, value, hname, rfl, hvalue⟩ := he
    rw [indentedMembers, hname, hvalue, indentedMembers]
    simp [Output.text_append, followers, memberText, nameText, quoted]
  | @cons ds d css entries hd _ ih =>
    obtain ⟨name, value, hname, rfl, hvalue⟩ := he
    rw [indentedMembers, hname, hvalue, ih hd]
    simp [Output.text_append, followers, memberText, nameText, quoted]

/-- **A map in lines**: every entry on a line of its own. -/
theorem indented_entries
    (h : List.Forall₂ (EntryLine fun cs v => indented (level + 1) v = .text cs) css entries) :
    indented level (.dict entries) =
      .text (spread (lineStart (level + 1)) (lineStart level) '\x7b' '\x7d' css) := by
  cases h with
  | nil => simp [indented, spread]
  | @cons cs e css entries he hentries =>
    rw [indented, indentedMembers_text he hentries, List.isEmpty_cons, if_neg (by simp),
      Output.text_append, Output.text_append]
    simp [spread]

/-- **A dictionary in lines**: every member on a line of its own. -/
theorem indented_dict
    (h : List.Forall₂ (MemberLine fun cs v => indented (level + 1) v = .text cs) css members) :
    indented level (.dict (Entries.named members)) =
      .text (spread (lineStart (level + 1)) (lineStart level) '\x7b' '\x7d' css) :=
  indented_entries (List.forall₂_map_right_iff.2 (h.imp MemberLine.entryLine))

end Lines

/-! ### Trees -/

theorem exists_forall₂ {α β : Type} {r : α → β → Prop} {bs : List β} (h : ∀ b ∈ bs, ∃ a, r a b) :
    ∃ as, List.Forall₂ r as bs := by
  induction bs with
  | nil => exact ⟨[], .nil⟩
  | cons b bs ih =>
    rw [List.forall_mem_cons] at h
    obtain ⟨a, ha⟩ := h.1
    obtain ⟨as, has⟩ := ih h.2
    exact ⟨a :: as, .cons ha has⟩

/-- **Every tree** has an indented text, and the text lasts. -/
theorem exists_durable {v : Value} (h : IsTree v) (level : Nat) :
    ∃ cs, indented level v = .text cs ∧ Durable cs v := by
  induction h generalizing level with
  | null => exact ⟨_, rfl, durable_word (by simp [words])⟩
  | bool b => cases b <;> exact ⟨_, rfl, durable_word (by simp [words])⟩
  | @int n h =>
    have htext : integerText n = .ok (intText n) := by rw [integerText, if_pos h]
    refine ⟨(intText n).toList, ?_, durable_integer h⟩
    rw [indented_piece (o := .ofExcept (integerText n)) rfl, htext]
    rfl
  | str s => exact ⟨_, indented_piece rfl, durable_string s⟩
  | list _ ih =>
    obtain ⟨css, hcss⟩ := exists_forall₂ fun v hv => ih v hv (level + 1)
    exact ⟨_, indented_list (hcss.imp fun _ _ h => h.1),
      durable_list level (hcss.imp fun _ _ h => h.2)⟩
  | @dict members hnames _ ih =>
    have hlines : ∀ m ∈ members, ∃ cs,
        MemberLine (fun cs v => indented (level + 1) v = .text cs ∧ Durable cs v) cs m := by
      intro m hm
      obtain ⟨value, hvalue⟩ := ih m hm (level + 1)
      exact ⟨_, value, rfl, hvalue⟩
    obtain ⟨css, hcss⟩ := exists_forall₂ hlines
    exact ⟨_, indented_dict (hcss.imp (MemberLine.imp fun _ _ h => h.1)),
      durable_dict level (hcss.imp (MemberLine.imp fun _ _ h => h.2)) hnames⟩

/-- A text that can be cut does not break off in a number with too many digits. -/
theorem Cuttable.not_overlong {cs part : List Char} (h : Cuttable cs) (hpart : part <+: cs) :
    ¬ Overlong part := by
  rintro ⟨k, hk⟩
  have hsound := h (2 * part.length + 2) part hpart (by omega)
  rw [readValue] at hk
  rw [hk] at hsound
  cases hsound

end Runbook.Json
