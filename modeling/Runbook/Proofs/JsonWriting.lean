import Mathlib.Data.List.Forall2
import Mathlib.Tactic.Common
import Runbook.Json.Printer
import Runbook.Proofs.Digits
import Runbook.Proofs.JsonLayout

/-!
# Writing JSON so that it reads back

A tree is made of null, truth values, integers, strings, lists and dictionaries. Its compact text is
read as the same tree, whatever stands behind it. Writer and reader have nothing in common, so each
part of the text is followed through the reader: characters, strings, numbers, items and members.

* `IsTree`: the trees.
* `Writes`: a way to write the characters of strings.
* `writes_plainChar`, `Writes.readString_quoted`: the text of a character, and of a string.
* `readsNumber_digitsOfNat`: the text of a number.
* `exists_written`, `parse_compact`: every tree has a text that is read as the tree.
-/

namespace Runbook.Json

open Runbook.Text Runbook.Number

/-- A tree: null, truth values, integers that are not too long, strings, and lists and dictionaries
of trees. The names in a dictionary are different from each other. -/
inductive IsTree : Value → Prop
  | null : IsTree .null
  | bool (b : Bool) : IsTree (.bool b)
  | int {n : Int} (h : n.natAbs < tooLongInteger) : IsTree (.int n)
  | str (s : String) : IsTree (.str s)
  | list {items : List Value} (h : ∀ v ∈ items, IsTree v) : IsTree (.list items)
  | dict {members : List (String × Value)} (hnames : (members.map (·.1)).Nodup)
    (h : ∀ m ∈ members, IsTree m.2) : IsTree (.dict (Entries.named members))

/-- A list or a dictionary. -/
def IsContainer : Value → Prop
  | .list _ => True
  | .dict _ => True
  | _ => False

/-! ### Strings -/

theorem hexValue?_hexDigit : ∀ d < 16, hexValue? (hexDigit d) = some d := by decide

/-- The digits of a code unit are read as that unit. -/
theorem unitEscape_code {n : Nat} (hn : n < 0x10000) : ∃ h₁ h₂ h₃ h₄,
    unitEscape n = ['\\', 'u', h₁, h₂, h₃, h₄] ∧ codeUnit? h₁ h₂ h₃ h₄ = some n := by
  refine ⟨_, _, _, _, rfl, ?_⟩
  simp only [codeUnit?, hexValue?_hexDigit _ (Nat.mod_lt _ (by decide))]
  congr 1
  omega

/-- **A code unit** is read, if something stands behind it. -/
theorem readPoints_unitEscape {opening tail rest : List Char} {n : Nat} (hn : n < 0x10000)
    {next : Char} {points : List Nat} (h : readPoints opening (next :: tail) = .ok (points, rest)) :
    readPoints opening (unitEscape n ++ next :: tail) = .ok (n :: points, rest) := by
  obtain ⟨h₁, h₂, h₃, h₄, hunit, hcode⟩ := unitEscape_code hn
  rw [hunit, readPoints.eq_def]
  simp [hcode, h, consPoint]

/-- How a character of a string is written: by a letter behind a backslash, by its code, or as it
is. -/
theorem plainChar_cases (c : Char) :
    (∃ e, plainChar c = ['\\', e] ∧ e ≠ 'u' ∧ escaped? e = some c) ∨
    (plainChar c = unitEscape c.toNat ∧ c.toNat < 32) ∨
    (plainChar c = [c] ∧ c ≠ '"' ∧ c ≠ '\\' ∧ ¬ c.toNat < 32) := by
  unfold plainChar escape?
  split_ifs with hmark hnewline hreturn htab hback hfeed hcontrol
  · simp only [Bool.or_eq_true, beq_iff_eq] at hmark
    rcases hmark with rfl | rfl
    · exact .inl ⟨'"', rfl, by decide, by decide⟩
    · exact .inl ⟨'\\', rfl, by decide, by decide⟩
  · rw [eq_of_beq hnewline]; exact .inl ⟨'n', rfl, by decide, by decide⟩
  · rw [eq_of_beq hreturn]; exact .inl ⟨'r', rfl, by decide, by decide⟩
  · rw [eq_of_beq htab]; exact .inl ⟨'t', rfl, by decide, by decide⟩
  · rw [eq_of_beq hback]; exact .inl ⟨'b', rfl, by decide, by decide⟩
  · rw [eq_of_beq hfeed]; exact .inl ⟨'f', rfl, by decide, by decide⟩
  · exact .inr (.inl ⟨rfl, hcontrol⟩)
  · simp only [Bool.or_eq_true, beq_iff_eq, not_or] at hmark
    exact .inr (.inr ⟨rfl, hmark.1, hmark.2, hcontrol⟩)

/-- **The text of a character** is read as the character. Something must stand behind it, if only
the quote that closes the string. -/
theorem readPoints_plainChar (opening : List Char) (c : Char) {next : Char}
    {tail rest : List Char} {points : List Nat}
    (h : readPoints opening (next :: tail) = .ok (points, rest)) :
    readPoints opening (plainChar c ++ next :: tail) = .ok (c.toNat :: points, rest) := by
  rcases plainChar_cases c with ⟨e, he, hu, hc⟩ | ⟨he, hc⟩ | ⟨he, hquote, hslash, hc⟩
  · rw [he, List.cons_append, List.cons_append, List.nil_append, readPoints.eq_def]
    simp [hu, hc, h, consPoint]
  · rw [he]
    exact readPoints_unitEscape (by omega) h
  · rw [he, List.cons_append, List.nil_append, readPoints.eq_def]
    simp [hquote, hslash, hc, h, consPoint]

/-- No character is a surrogate. -/
theorem not_surrogate (c : Char) :
    isHighSurrogate c.toNat = false ∧ isLowSurrogate c.toNat = false := by
  have hvalid : c.toNat < 0xD800 ∨ 0xDFFF < c.toNat ∧ c.toNat < 0x110000 := c.valid
  simp only [isHighSurrogate, isLowSurrogate, Bool.and_eq_false_iff, decide_eq_false_iff_not]
  omega

theorem pointChar_toNat (c : Char) : pointChar c.toNat = c := by
  simp [pointChar, not_surrogate c, Char.ofNat_toNat]

/-- The code point of a character in front of others is joined to the character. -/
theorem joinPoints_char (c : Char) (points : List Nat) :
    joinPoints (c.toNat :: points) = c :: joinPoints points := by
  cases points with
  | nil => simp [joinPoints, pointChar_toNat]
  | cons n points => rw [joinPoints, if_neg (by simp [not_surrogate c]), pointChar_toNat]

/-- **A way to write characters**: each is read as code points that are joined to the character,
whatever else is written behind it. -/
structure Writes (write : Char → List Char) (points : Char → List Nat) : Prop where
  reads : ∀ {opening tail rest next more} (c : Char),
    readPoints opening (next :: tail) = .ok (more, rest) →
      readPoints opening (write c ++ next :: tail) = .ok (points c ++ more, rest)
  joins : ∀ c more, joinPoints (points c ++ more) = c :: joinPoints more

theorem writes_plainChar : Writes plainChar fun c => [c.toNat] where
  reads := fun c h => readPoints_plainChar _ c h
  joins := joinPoints_char

namespace Writes

variable {write : Char → List Char} {points : Char → List Nat}

theorem readPoints_string (h : Writes write points) (opening s u : List Char) :
    readPoints opening (s.flatMap write ++ '"' :: u) = .ok (s.flatMap points, u) := by
  induction s with
  | nil =>
    rw [readPoints.eq_def]
    rfl
  | cons c s ih =>
    -- an escape is only read with something behind it, which here is at least the quote
    have hne : s.flatMap write ++ '"' :: u ≠ [] := by simp
    obtain ⟨next, tail, hnext⟩ := List.exists_cons_of_ne_nil hne
    rw [hnext] at ih
    rw [List.flatMap_cons, List.append_assoc, hnext, List.flatMap_cons]
    exact h.reads c ih

/-- The code points of written characters are joined to the characters. -/
theorem joinPoints_string (h : Writes write points) (s : List Char) :
    joinPoints (s.flatMap points) = s := by
  induction s with
  | nil => rfl
  | cons c s ih => rw [List.flatMap_cons, h.joins, ih]

/-- **A string in quotes** is read as the string. -/
theorem readString_quoted (h : Writes write points) (s : String) :
    IsNameText (s.toList.flatMap write ++ ['"']) s := by
  intro u
  rw [List.append_assoc, List.singleton_append]
  simp only [readString, h.readPoints_string, h.joinPoints_string, String.ofList_toList]

theorem written_string (h : Writes write points) (s : String) :
    Written (quoted write s.toList) (.str s) := by
  refine ⟨⟨'"', _, rfl, by decide⟩, fun fuel u hfuel _ => ?_⟩
  obtain ⟨fuel, rfl⟩ : ∃ n, fuel = n + 1 := ⟨fuel - 1, by simp [quoted] at hfuel; omega⟩
  exact readValueWith_string (h.readString_quoted s u)

end Writes

/-! ### Scalars -/

/-- The digits of a number other than zero do not begin with a zero. -/
theorem head_digitsOfNat {n : Nat} (hn : n ≠ 0) : ∃ c ds, digitsOfNat n = c :: ds ∧ c ≠ '0' := by
  induction n using Nat.strongRecOn with
  | ind n ih =>
    by_cases hsmall : n < 10
    · refine ⟨_, [], digitsOfNat_small hsmall, fun hzero => hn ?_⟩
      have hvalue := toNat_digitChar hsmall
      rw [hzero] at hvalue
      have hcode : '0'.toNat = 48 := rfl
      omega
    · obtain ⟨c, ds, hds, hc⟩ := ih (n / 10) (by omega) (by omega)
      exact ⟨c, ds ++ [digitChar (n % 10)], by rw [digitsOfNat_step hsmall, hds]; rfl, hc⟩

theorem readsWhole_digitsOfNat (n : Nat) {u : List Char} (hu : NoDigit u) :
    ReadsWhole (digitsOfNat n ++ u) (digitsOfNat n) u := by
  by_cases hn : n = 0
  · rw [hn, digitsOfNat_small (by decide)]
    exact .zero
  · obtain ⟨c, ds, hds, hc⟩ := head_digitsOfNat hn
    have hdigits : ∀ d ∈ c :: ds, isAsciiDigit d = true := by
      rw [← hds]
      exact fun d => isAsciiDigit_of_mem_digitsOfNat
    rw [hds]
    exact .digits hc hdigits hu

theorem length_digitsOfNat {n : Nat} (hn : n < tooLongInteger) :
    (digitsOfNat n).length ≤ maxIntegerDigits := by
  have hpos : 0 < maxIntegerDigits := by decide
  -- the bound is opened for any number of digits, so that the power is not computed
  delta tooLongInteger at hn
  generalize maxIntegerDigits = k at hn hpos ⊢
  obtain ⟨k, rfl⟩ := Nat.exists_eq_add_of_lt hpos
  rw [Nat.zero_add] at hn ⊢
  exact length_digitsOfNat_of_lt hn

/-- A number with no more digits than integers are written with. -/
theorem lt_tooLongInteger {n k : Nat} (hk : k ≤ maxIntegerDigits) (h : n < 10 ^ k) :
    n < tooLongInteger := by
  delta tooLongInteger
  generalize maxIntegerDigits = most at hk ⊢
  exact Nat.lt_of_lt_of_le h (Nat.pow_le_pow_right (by decide) hk)

/-- **The digits of a number** are read as the number, where no number goes on. -/
theorem readsNumber_digitsOfNat (negative : Bool) {n : Nat} (hn : n < tooLongInteger)
    {u : List Char} (hu : Ends u) :
    ReadsNumber negative (digitsOfNat n ++ u) (.int (if negative then -(n : Int) else n)) u := by
  -- what ends a number is neither a fraction nor a power, so the digits are all that is read
  have hfraction : ReadsFraction u none u := .left fun t ht => absurd ht (hu.noFraction.2 t)
  have hpower : ReadsPower u none u := by
    refine .left fun m t ht hm => ?_
    have hends := hu m t ht
    rcases hm with rfl | rfl <;> cases hends
  refine .mk (readsWhole_digitsOfNat n hu.noDigit) hfraction hpower ?_
  have hlength := length_digitsOfNat hn
  simp only [numberValue, Option.isNone_none, Bool.and_self, if_true]
  rw [if_neg (by omega), natOfDigits_digitsOfNat]

/-- A scalar is written as it is read. -/
theorem written_scalar {cs : List Char} {v : Value} {c : Char} {t : List Char} (hcs : cs = c :: t)
    (hc : BeginsScalar c) (hbegins : Begins c)
    (h : ∀ u, MayFollow v u → ReadsScalar (cs ++ u) v u) : Written cs v := by
  refine ⟨⟨c, t, hcs, hbegins⟩, fun fuel u hfuel hu => ?_⟩
  rw [hcs, List.length_cons] at hfuel
  obtain ⟨fuel, rfl⟩ : ∃ n, fuel = n + 1 := ⟨fuel - 1, by omega⟩
  have hread := readScalar_iff.2 (h u hu)
  rw [hcs, List.cons_append] at hread ⊢
  rw [readValueWith_scalar hc, hread]

theorem word_begins {word : List Char} {v : Value} (h : (word, v) ∈ words) :
    ∃ c t, word = c :: t ∧ Begins c := by
  simp only [words, List.mem_cons, List.not_mem_nil, or_false, Prod.mk.injEq] at h
  rcases h with ⟨rfl, -⟩ | ⟨rfl, -⟩ | ⟨rfl, -⟩ | ⟨rfl, -⟩ | ⟨rfl, -⟩ | ⟨rfl, -⟩ <;>
    exact ⟨_, _, rfl, by decide⟩

theorem written_word {word : List Char} {v : Value} (h : (word, v) ∈ words) : Written word v := by
  obtain ⟨c, t, hword, hc⟩ := word_head h
  obtain ⟨d, u, hbegin, hd⟩ := word_begins h
  obtain ⟨rfl, -⟩ := List.cons.inj (hword.symm.trans hbegin)
  exact written_scalar hword hc hd fun _ _ => .word h rfl

/-- **An integer that is not too long** has a text, and is read from it. -/
theorem written_integer {n : Int} (h : n.natAbs < tooLongInteger) :
    ∃ s, integerText n = .ok s ∧ Written s.toList (.int n) := by
  refine ⟨intText n, by rw [integerText, if_pos h], ?_⟩
  cases n with
  | ofNat n =>
    obtain ⟨c, t, hdigits⟩ := List.exists_cons_of_ne_nil (digitsOfNat_ne_nil n)
    have hc : isAsciiDigit c = true :=
      isAsciiDigit_of_mem_digitsOfNat (n := n) (by rw [hdigits]; exact List.mem_cons_self)
    rw [toList_intText_ofNat]
    have hbegins : Begins c :=
      ⟨(beginsScalar_digit hc).2.2.2, (by rintro rfl; cases hc), (by rintro rfl; cases hc)⟩
    refine written_scalar hdigits (beginsScalar_digit hc) hbegins fun u hu => ?_
    exact .positive (readsNumber_digitsOfNat false h (hu rfl))
  | negSucc n =>
    rw [toList_intText_negSucc]
    refine written_scalar rfl ⟨by decide, by decide, by decide, by decide⟩ (by decide)
      fun u hu => ?_
    exact .negative rfl (readsNumber_digitsOfNat true h (hu rfl))

/-! ### Trees -/

theorem joinItems_eq (mark close : Char) (css : List (List Char)) :
    joinItems mark css close = spread [] [] mark close css := by
  cases css with
  | nil => rfl
  | cons cs css =>
    have hjoin : [','].intercalate (cs :: css) = cs ++ followers [] css := by
      induction css generalizing cs with
      | nil => simp [followers]
      | cons ds css ih => rw [List.intercalate_cons_cons, ih]; simp [followers]
    rw [joinItems, hjoin]
    simp [spread]

theorem isMember_member {cs : List Char} {m : String × Value} (h : Written cs m.2) :
    IsMember Written [] (member m.1.toList cs) m :=
  ⟨_, cs, by simp [member, memberText, quoted], writes_plainChar.readString_quoted m.1, h⟩

theorem compactItems_written {items : List Value}
    (h : ∀ v ∈ items, ∃ cs, compact v = .ok cs ∧ Written cs v) :
    ∃ css, compactItems items = .ok css ∧ List.Forall₂ Written css items := by
  induction items with
  | nil => exact ⟨[], rfl, .nil⟩
  | cons v items ih =>
    obtain ⟨cs, hcs, hv⟩ := h v List.mem_cons_self
    obtain ⟨css, hcss, hitems⟩ := ih fun w hw => h w (List.mem_cons_of_mem v hw)
    exact ⟨cs :: css, by rw [compactItems, hcs, hcss], .cons hv hitems⟩

theorem compactMembers_written {members : List (String × Value)}
    (h : ∀ m ∈ members, ∃ cs, compact m.2 = .ok cs ∧ Written cs m.2) :
    ∃ css, compactMembers (Entries.named members) = .ok css ∧
      List.Forall₂ (IsMember Written []) css members := by
  induction members with
  | nil => exact ⟨[], rfl, .nil⟩
  | cons m members ih =>
    obtain ⟨cs, hcs, hm⟩ := h m List.mem_cons_self
    obtain ⟨css, hcss, hmembers⟩ := ih fun w hw => h w (List.mem_cons_of_mem m hw)
    refine ⟨member m.1.toList cs :: css, ?_, .cons (isMember_member hm) hmembers⟩
    rw [Entries.named_cons, compactMembers, hcs, hcss]
    rfl

/-- **Every tree** has a compact text that is read as the tree. -/
theorem exists_written {v : Value} (h : IsTree v) : ∃ cs, compact v = .ok cs ∧ Written cs v := by
  induction h with
  | null => exact ⟨_, rfl, written_word (by simp [words])⟩
  | bool b => cases b <;> exact ⟨_, rfl, written_word (by simp [words])⟩
  | int h =>
    obtain ⟨s, hs, hwritten⟩ := written_integer h
    exact ⟨s.toList, by rw [compact, hs]; rfl, hwritten⟩
  | str s => exact ⟨_, rfl, writes_plainChar.written_string s⟩
  | list _ ih =>
    obtain ⟨css, hcss, hitems⟩ := compactItems_written ih
    have hlist := written_list isGap_nil isGap_nil hitems
    rw [← joinItems_eq] at hlist
    exact ⟨_, by rw [compact, hcss]; rfl, hlist⟩
  | dict hnames _ ih =>
    obtain ⟨css, hcss, hmembers⟩ := compactMembers_written ih
    have hdict := written_dict isGap_nil isGap_nil isGap_nil hmembers hnames
    rw [← joinItems_eq] at hdict
    exact ⟨_, by rw [compact, hcss]; rfl, hdict⟩

/-- What is written is the text of its value. -/
theorem Written.parse {cs : List Char} {v : Value} (h : Written cs v) : parse cs = .ok v := by
  obtain ⟨c, t, rfl, hspace, -, hmark⟩ := h.begins
  have hread := h.reads (2 * (c :: t).length + 2) [] (by omega) fun _ _ _ hu => nomatch hu
  rw [List.append_nil] at hread
  exact parse_of_readValue [] [] isGap_nil hspace hmark hread isGap_nil

/-- **What is written is read back**: the compact text of a tree is the text of the tree. -/
theorem parse_compact {v : Value} (h : IsTree v) : ∃ cs, compact v = .ok cs ∧ parse cs = .ok v := by
  obtain ⟨cs, hcs, hwritten⟩ := exists_written h
  exact ⟨cs, hcs, hwritten.parse⟩

end Runbook.Json
