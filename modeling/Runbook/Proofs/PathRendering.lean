import Runbook.Proofs.Digits
import Runbook.Proofs.Trimming
import Runbook.Template

/-!
# Writing paths so that they parse back

A path can be written in several ways: a name after a point or in brackets, an index with zeros or
blanks in its brackets. `Item` is one segment with the way it is written, `Renders` the texts of a
path in any choice of ways.

* `tokens_render`: the segments of a written list of items are those of the items.
* `renderable_of_tokens`: every segment that is read can be written.
* `parse_baseName`: the base name of what is parsed leads to the variable itself.
* `parse_rendering`: parsing undoes writing, and what parsing gives can be written.
-/

namespace Runbook

namespace Path

open Runbook.Text

/-- Text that brackets read as an index. -/
def IsIndexText (cs : List Char) : Prop :=
  cs ≠ [] ∧ ∀ c ∈ cs, isAsciiDigit c = true

theorem isIndexText_iff (cs : List Char) :
    IsIndexText cs ↔ (cs.isEmpty || !cs.all isAsciiDigit) = false := by
  simp [IsIndexText]

instance (cs : List Char) : Decidable (IsIndexText cs) :=
  decidable_of_iff _ (isIndexText_iff cs).symm

/-- A name that can stand after a point. -/
structure IsWord (k : String) : Prop where
  ne_empty : k ≠ ""
  no_point : '.' ∉ k.toList
  no_bracket : '[' ∉ k.toList

/-- A name that can stand in brackets. -/
structure IsQuotable (k : String) : Prop where
  no_close : ']' ∉ k.toList
  trimmed : trim k = k
  not_digits : ¬ IsIndexText k.toList

/-- A written index: zeros in front of its digits, and blanks around them. -/
structure Numeral where
  before : List Char
  zeros : Nat
  value : Nat
  after : List Char
  blank_before : ∀ c ∈ before, isBlank c = true
  blank_after : ∀ c ∈ after, isBlank c = true
  length_le : zeros + (digitsOfNat value).length ≤ maxIntegerDigits

/-- The digits of a written index. -/
def Numeral.digits (n : Numeral) : List Char :=
  List.replicate n.zeros '0' ++ digitsOfNat n.value

/-- What stands in the brackets of a written index. -/
def Numeral.chars (n : Numeral) : List Char :=
  n.before ++ n.digits ++ n.after

/-- A segment with the way it is written. -/
inductive Item
  | word (k : String) (hk : IsWord k)
  | quoted (k : String) (hk : IsQuotable k)
  | numeral (n : Numeral)

namespace Item

/-- The segment that an item writes. -/
def segment : Item → Segment
  | .word k _ => .key k
  | .quoted k _ => .key k
  | .numeral n => .index n.value

/-- The text of an item. A word has a point in front unless it is first, and one behind if it is
last and ends in a blank. -/
def chars (first last : Bool) : Item → List Char
  | .word k _ => (if first then [] else ['.']) ++ k.toList ++
      (if last && k.toList.getLast?.any isBlank then ['.'] else [])
  | .quoted k _ => '[' :: k.toList ++ [']']
  | .numeral n => '[' :: n.chars ++ [']']

end Item

/-- The text of items. -/
def render (first : Bool) : List Item → List Char
  | [] => []
  | i :: is => i.chars first is.isEmpty ++ render false is

/-- **The renderings of a path**: the texts of its scope, its key and its segments, each written in
any way it can be. -/
structure Renders (p : Path) (cs : List Char) : Prop where
  scope_name : IsName p.scope
  key_name : IsName p.key
  items : ∃ is : List Item,
    is.map Item.segment = .key p.scope :: .key p.key :: p.segments ∧ cs = render true is

/-- Text as an expression, with `$` and braces around it. -/
def wrapped (cs : List Char) : String :=
  String.ofList (Template.written cs)

/-! ### Reading what is written -/

theorem toList_ne_nil {k : String} (h : k ≠ "") : k.toList ≠ [] := by
  intro hnil
  exact h (String.toList_injective hnil)

theorem wordSegment_toList {k : String} (h : k ≠ "") : wordSegment k.toList = [.key k] := by
  rw [wordSegment, if_neg (by simpa using toList_ne_nil h), String.ofList_toList]

theorem andThen_nil (r : Except TokenFault (List Segment)) : andThen [] r = r := by
  cases r <;> rfl

theorem tokensOutside_point (word cs : List Char) :
    tokensOutside word ('.' :: cs) = andThen (wordSegment word) (tokensOutside [] cs) := by
  rw [tokensOutside]; rfl

theorem tokensOutside_bracket (word cs : List Char) :
    tokensOutside word ('[' :: cs) = andThen (wordSegment word) (tokensInside [] cs) := by
  rw [tokensOutside]; rfl

/-- Characters without points and brackets are read into the name. -/
theorem tokensOutside_word {k : List Char} (hpoint : '.' ∉ k) (hbracket : '[' ∉ k)
    (word cs : List Char) : tokensOutside word (k ++ cs) = tokensOutside (word ++ k) cs := by
  induction k generalizing word with
  | nil => simp
  | cons c k ih =>
    have hc : c ≠ '.' := fun h => hpoint (by simp [h])
    have hc' : c ≠ '[' := fun h => hbracket (by simp [h])
    rw [List.cons_append, tokensOutside, if_neg (by simpa using hc), if_neg (by simpa using hc'),
      ih (fun h => hpoint (List.mem_cons_of_mem _ h))
        (fun h => hbracket (List.mem_cons_of_mem _ h))]
    simp

/-- Brackets are read up to the first that closes; what they hold is a segment or ends the reading.
-/
theorem tokensInside_close {k : List Char} (hclose : ']' ∉ k) (content cs : List Char) :
    tokensInside content (k ++ ']' :: cs) =
      match bracketSegment (content ++ k) with
      | .ok s => andThen [s] (tokensOutside [] cs)
      | .error e => .error e := by
  induction k generalizing content with
  | nil =>
    rw [List.nil_append, List.append_nil]
    cases hs : bracketSegment content <;> simp [tokensInside, hs]
  | cons c k ih =>
    have hc : c ≠ ']' := fun h => hclose (by simp [h])
    rw [List.cons_append, tokensInside, if_neg (by simpa using hc),
      ih (fun h => hclose (List.mem_cons_of_mem _ h)), List.append_assoc, List.singleton_append]

theorem tokensInside_content {k content : List Char} {s : Segment} (hclose : ']' ∉ k)
    (hs : bracketSegment (content ++ k) = .ok s) (cs : List Char) :
    tokensInside content (k ++ ']' :: cs) = andThen [s] (tokensOutside [] cs) := by
  rw [tokensInside_close hclose, hs]

theorem bracketSegment_quoted {k : String} (hk : IsQuotable k) :
    bracketSegment k.toList = .ok (.key k) := by
  have htrim : trimChars k.toList = k.toList := by rw [← toList_trim, hk.trimmed]
  have hno := hk.not_digits
  rw [isIndexText_iff, Bool.not_eq_false] at hno
  simp only [bracketSegment]
  rw [htrim, if_pos hno, String.ofList_toList]

theorem isBlank_of_isAsciiDigit {c : Char} (h : isAsciiDigit c = true) : isBlank c = false := by
  have h0 : '0'.toNat = 48 := rfl
  have h9 : '9'.toNat = 57 := rfl
  simp only [isAsciiDigit, Bool.and_eq_true, decide_eq_true_eq, h0, h9] at h
  simp [isBlank]
  omega

theorem trimChars_of_digits {cs : List Char} (h : IsIndexText cs) : trimChars cs = cs := by
  refine trimChars_eq_self.2 ⟨fun c hc => ?_, fun c hc => ?_⟩
  · exact isBlank_of_isAsciiDigit (h.2 c (List.mem_of_head? hc))
  · exact isBlank_of_isAsciiDigit (h.2 c (List.mem_of_getLast? hc))

/-- The segment of an index, as long as it is not too long. -/
theorem bracketSegment_index {content : List Char} (h : IsIndexText (trimChars content))
    (hlen : (trimChars content).length ≤ maxIntegerDigits) :
    bracketSegment content = .ok (.index (natOfDigits (trimChars content))) := by
  have hdigits := (isIndexText_iff _).1 h
  simp only [bracketSegment]
  rw [if_neg (by simp [hdigits]), if_neg (by omega)]

namespace Numeral

variable (n : Numeral)

theorem isIndexText_digits : IsIndexText n.digits := by
  refine ⟨fun h => digitsOfNat_ne_nil n.value (List.append_eq_nil_iff.1 h).2, fun c hc => ?_⟩
  rcases List.mem_append.1 hc with hc | hc
  · rw [(List.mem_replicate.1 hc).2]; rfl
  · exact isAsciiDigit_of_mem_digitsOfNat hc

theorem trimChars_chars : trimChars n.chars = n.digits :=
  trimChars_padded n.blank_before n.blank_after (trimChars_of_digits n.isIndexText_digits)

theorem bracketSegment_chars : bracketSegment n.chars = .ok (.index n.value) := by
  have hlen : n.digits.length ≤ maxIntegerDigits := by
    rw [digits, List.length_append, List.length_replicate]
    exact n.length_le
  rw [bracketSegment_index (by rw [trimChars_chars]; exact n.isIndexText_digits)
    (by rw [trimChars_chars]; exact hlen), trimChars_chars, digits, natOfDigits_zeros,
    natOfDigits_digitsOfNat]

theorem not_mem_chars : ']' ∉ n.chars := by
  have hblank : isBlank ']' = false := by decide
  have hdigit : isAsciiDigit ']' = false := by decide
  intro h
  rcases List.mem_append.1 h with h | h
  · rcases List.mem_append.1 h with h | h
    · rw [n.blank_before _ h] at hblank; cases hblank
    · rw [n.isIndexText_digits.2 _ h] at hdigit; cases hdigit
  · rw [n.blank_after _ h] at hblank; cases hblank

end Numeral

/-- An item behind others ends the name before it; then it is read as if it were the first. -/
theorem tokensOutside_next (word : List Char) (i : Item) (is : List Item) :
    tokensOutside word (render false (i :: is)) =
      andThen (wordSegment word) (tokens (render true (i :: is))) := by
  cases i with
  | word k hk => simp [render, Item.chars, tokensOutside_point, tokens]
  | quoted k hk =>
    simp [render, Item.chars, tokensOutside_bracket, tokens, wordSegment, andThen_nil]
  | numeral n =>
    simp [render, Item.chars, tokensOutside_bracket, tokens, wordSegment, andThen_nil]

/-- Once the text of items is read right, it is read right behind a name. -/
theorem tokensOutside_render {is : List Item}
    (h : tokens (render true is) = .ok (is.map Item.segment)) (word : List Char) :
    tokensOutside word (render false is) = .ok (wordSegment word ++ is.map Item.segment) := by
  cases is with
  | nil => simp [render, tokensOutside]
  | cons i is => rw [tokensOutside_next, h]; rfl

theorem tokens_brackets {content : List Char} {s : Segment} {is : List Item}
    (hclose : ']' ∉ content)
    (hs : bracketSegment content = .ok s)
    (h : tokens (render true is) = .ok (is.map Item.segment)) :
    tokens ('[' :: content ++ [']'] ++ render false is) = .ok (s :: is.map Item.segment) := by
  have hread := @tokensInside_content content [] s hclose hs (render false is)
  rw [tokensOutside_render h] at hread
  rw [List.append_assoc, List.cons_append, tokens, tokensOutside_bracket]
  exact (andThen_nil _).trans hread

/-- **The segments of written items** are those of the items. -/
theorem tokens_render (is : List Item) :
    tokens (render true is) = .ok (is.map Item.segment) := by
  induction is with
  | nil => rfl
  | cons i is ih =>
    cases i with
    | word k hk =>
      have hword : ∀ cs, tokens (k.toList ++ cs) = tokensOutside k.toList cs := fun cs =>
        tokensOutside_word hk.no_point hk.no_bracket [] cs
      cases is with
      | nil =>
        -- the point behind a last name that ends in a blank ends the name as the end would
        have hpoint : tokensOutside k.toList ['.'] = .ok (wordSegment k.toList) := by
          rw [tokensOutside_point]; simp [tokensOutside, andThen, wordSegment]
        simp only [render, Item.chars, if_true, List.nil_append, List.isEmpty_nil, Bool.true_and,
          List.append_nil, hword]
        split
        · rw [hpoint, wordSegment_toList hk.ne_empty]; rfl
        · rw [tokensOutside, wordSegment_toList hk.ne_empty]; rfl
      | cons j js =>
        have hrest := tokensOutside_render ih k.toList
        rw [wordSegment_toList hk.ne_empty, ← hword] at hrest
        simpa [render, Item.chars, Item.segment] using hrest
    | quoted k hk => exact tokens_brackets hk.no_close (bracketSegment_quoted hk) ih
    | numeral n => exact tokens_brackets n.not_mem_chars n.bracketSegment_chars ih

/-! ### The text around it -/

theorem isBlank_head_of_trimmed {k : String} {c : Char} (h : trim k = k)
    (hc : k.toList.head? = some c) : isBlank c = false := by
  rw [← h, toList_trim] at hc
  exact head_trimChars hc

theorem Item.chars_ne_nil (first last : Bool) (i : Item) : i.chars first last ≠ [] := by
  cases i with
  | word k hk => simp [Item.chars, toList_ne_nil hk.ne_empty]
  | quoted k hk => simp [Item.chars]
  | numeral n => simp [Item.chars]

/-- The text of the last item does not end in a blank. -/
theorem Item.getLast_chars {first : Bool} {i : Item} {c : Char}
    (h : (i.chars first true).getLast? = some c) : isBlank c = false := by
  cases i with
  | word k hk =>
    by_cases hlast : k.toList.getLast?.any isBlank = true
    · simp only [Item.chars, Bool.true_and, if_pos hlast, List.getLast?_concat] at h
      obtain rfl : '.' = c := Option.some.inj h
      decide
    · simp only [Item.chars, Bool.true_and, if_neg hlast, List.append_nil] at h
      rw [List.getLast?_append_of_ne_nil _ (toList_ne_nil hk.ne_empty)] at h
      simpa [h] using hlast
  | quoted k hk =>
    rw [Item.chars, List.getLast?_concat] at h
    obtain rfl : ']' = c := Option.some.inj h
    decide
  | numeral n =>
    rw [Item.chars, List.getLast?_concat] at h
    obtain rfl : ']' = c := Option.some.inj h
    decide

/-- The text of items does not end in a blank. -/
theorem getLast_render {first : Bool} {is : List Item} {c : Char}
    (h : (render first is).getLast? = some c) : isBlank c = false := by
  induction is generalizing first with
  | nil => simp [render] at h
  | cons i is ih =>
    cases is with
    | nil => exact Item.getLast_chars (by simpa [render] using h)
    | cons j js =>
      have hne : render false (j :: js) ≠ [] := by simp [render, Item.chars_ne_nil]
      rw [render, List.getLast?_append_of_ne_nil _ hne] at h
      exact ih h

/-- The text of items does not begin with a blank, if the name that is first does not. -/
theorem head_render {k : String} {i : Item} {is : List Item} {c : Char} (hi : i.segment = .key k)
    (hk : trim k = k) (h : (render true (i :: is)).head? = some c) : isBlank c = false := by
  cases i with
  | word l hl =>
    obtain rfl : l = k := by simpa [Item.segment] using hi
    refine isBlank_head_of_trimmed hk ?_
    rwa [render, Item.chars, if_pos rfl, List.nil_append, List.append_assoc,
      List.head?_append_of_ne_nil _ (toList_ne_nil hl.ne_empty)] at h
  | quoted l hl =>
    obtain rfl : '[' = c := by simpa [render, Item.chars] using h
    decide
  | numeral n => cases hi

theorem trimChars_render {k : String} {i : Item} {is : List Item} (hi : i.segment = .key k)
    (hk : trim k = k) : trimChars (render true (i :: is)) = render true (i :: is) :=
  trimChars_eq_self.2 ⟨fun _ => head_render hi hk, fun _ => getLast_render⟩

/-- Trimming leaves a placeholder as it is. -/
theorem trimChars_written (cs : List Char) :
    trimChars (Template.written cs) = Template.written cs := by
  refine trimChars_eq_self.2 ⟨fun c hc => ?_, fun c hc => ?_⟩
  · obtain rfl : '$' = c := by simpa [Template.written] using hc
    decide
  · rw [Template.written, List.getLast?_concat] at hc
    obtain rfl : '\x7d' = c := by simpa using hc
    decide

/-- What an expression between braces is about. -/
theorem unwrapChars_written (cs : List Char) :
    unwrapChars (Template.written cs) = trimChars cs := by
  -- trimming leaves the wrapper alone; the inner text is trimmed once the wrapper is off
  have hlast : (Template.written cs).getLast? = some '\x7d' := by
    rw [Template.written, List.getLast?_concat]
  rw [unwrapChars, trimChars_written, hlast]
  simp [Template.written]

theorem isBlankText_wrapped (cs : List Char) : isBlankText (wrapped cs) = false := by
  have hdollar : isBlank '$' = false := by decide
  simp [isBlankText, wrapped, Template.written, hdollar]

theorem isBlankText_of_isName {k : String} (h : IsName k) : isBlankText k = false := by
  rw [Bool.eq_false_iff]
  intro hblank
  rw [isBlankText_iff, ← toList_trim, h.2] at hblank
  exact toList_ne_nil h.1 hblank

/-- The path of two names and segments. -/
theorem ofSegments?_names {scope key : String} (hscope : IsName scope) (hkey : IsName key)
    (segments : List Segment) :
    ofSegments? (.key scope :: .key key :: segments) = some ⟨scope, key, segments⟩ := by
  simp [ofSegments?, isBlankText_of_isName, hscope, hkey, hscope.2, hkey.2]

/-- **Parsing a rendering** gives the path. -/
theorem parse_wrapped {p : Path} {cs : List Char} (h : Renders p cs) :
    parse (wrapped cs) = .ok p := by
  obtain ⟨hscope, hkey, is, hsegments, rfl⟩ := h
  obtain ⟨i, is, rfl⟩ : ∃ i js, is = i :: js := by
    cases is with
    | nil => cases hsegments
    | cons i js => exact ⟨i, js, rfl⟩
  have hi : i.segment = .key p.scope := (List.cons.inj hsegments).1
  have htokens := tokens_render (i :: is)
  have hunwrap : (unwrap (wrapped (render true (i :: is)))).toList = render true (i :: is) := by
    rw [unwrap, wrapped, String.toList_ofList, String.toList_ofList, unwrapChars_written,
      trimChars_render hi hscope.2]
  rw [parse, isBlankText_wrapped, tokenize, hunwrap, htokens, hsegments]
  simp [ofSegments?_names hscope hkey]

/-! ### Writing what is read -/

/-- A segment that can be written. -/
def Renderable (s : Segment) : Prop :=
  ∃ i : Item, i.segment = s

theorem renderable_wordSegment {word : List Char} (hpoint : '.' ∉ word) (hbracket : '[' ∉ word) :
    ∀ s ∈ wordSegment word, Renderable s := by
  intro s hs
  unfold wordSegment at hs
  split at hs
  · cases hs
  · rename_i hne
    rw [List.mem_singleton] at hs
    have hword : (String.ofList word).toList = word := String.toList_ofList
    refine ⟨.word (String.ofList word) ⟨?_, by rwa [hword], by rwa [hword]⟩, hs.symm⟩
    rintro hempty
    rw [hempty] at hword
    exact hne (by rw [← hword]; rfl)

/-- What brackets hold can be written: a name that is not an index, or an index with no more digits
than were read. -/
theorem renderable_bracketSegment {content : List Char} {s : Segment} (hclose : ']' ∉ content)
    (h : bracketSegment content = .ok s) : Renderable s := by
  by_cases hindex : IsIndexText (trimChars content)
  · by_cases hlen : (trimChars content).length ≤ maxIntegerDigits
    · rw [bracketSegment_index hindex hlen] at h
      obtain rfl := Except.ok.inj h
      have hdigits := length_digitsOfNat_le hindex.1 hindex.2
      exact ⟨.numeral ⟨[], 0, natOfDigits (trimChars content), [], by simp, by simp, by omega⟩, rfl⟩
    · have hno := (isIndexText_iff _).1 hindex
      simp only [bracketSegment] at h
      rw [if_neg (by simp [hno]), if_pos (by omega)] at h
      cases h
  · have hno := hindex
    rw [isIndexText_iff, Bool.not_eq_false] at hno
    simp only [bracketSegment] at h
    rw [if_pos hno] at h
    obtain rfl := Except.ok.inj h
    have hk : (String.ofList (trimChars content)).toList = trimChars content := String.toList_ofList
    refine ⟨.quoted (String.ofList (trimChars content)) ⟨?_, ?_, by rwa [hk]⟩, rfl⟩
    · rw [hk]; exact fun hmem => hclose (mem_of_mem_trimChars hmem)
    · rw [trim, hk, trimChars_trimChars]

theorem andThen_ok {front segments : List Segment} {r : Except TokenFault (List Segment)}
    (h : andThen front r = .ok segments) : ∃ more, r = .ok more ∧ segments = front ++ more := by
  cases r with
  | error e => cases h
  | ok more => exact ⟨more, rfl, (Except.ok.inj h).symm⟩

/-- **Every segment that is read can be written**, outside brackets and inside. -/
theorem renderable_of_tokens (cs : List Char) :
    (∀ word segments, '.' ∉ word → '[' ∉ word → tokensOutside word cs = .ok segments →
      ∀ s ∈ segments, Renderable s) ∧
    (∀ content segments, ']' ∉ content → tokensInside content cs = .ok segments →
      ∀ s ∈ segments, Renderable s) := by
  -- what has been read of a word or of brackets holds no character that would have ended it
  induction cs with
  | nil =>
    refine ⟨fun word segments hpoint hbracket h => ?_, fun content segments _ h => ?_⟩
    · rw [tokensOutside] at h
      obtain rfl := Except.ok.inj h
      exact renderable_wordSegment hpoint hbracket
    · rw [tokensInside] at h; cases h
  | cons c cs ih =>
    obtain ⟨ihout, ihin⟩ := ih
    constructor
    · intro word segments hpoint hbracket h
      rw [tokensOutside] at h
      split at h
      · obtain ⟨more, hmore, rfl⟩ := andThen_ok h
        intro s hs
        rcases List.mem_append.1 hs with hs | hs
        · exact renderable_wordSegment hpoint hbracket s hs
        · exact ihout [] more (by simp) (by simp) hmore s hs
      · split at h
        · obtain ⟨more, hmore, rfl⟩ := andThen_ok h
          intro s hs
          rcases List.mem_append.1 hs with hs | hs
          · exact renderable_wordSegment hpoint hbracket s hs
          · exact ihin [] more (by simp) hmore s hs
        · rename_i hc hc'
          refine ihout (word ++ [c]) segments ?_ ?_ h
          · simp only [List.mem_append, List.mem_singleton, not_or]
            exact ⟨hpoint, fun he => hc (by simp [← he])⟩
          · simp only [List.mem_append, List.mem_singleton, not_or]
            exact ⟨hbracket, fun he => hc' (by simp [← he])⟩
    · intro content segments hclose h
      rw [tokensInside] at h
      split at h
      · split at h
        · rename_i s hs
          obtain ⟨more, hmore, rfl⟩ := andThen_ok h
          intro t ht
          rcases List.mem_append.1 ht with ht | ht
          · obtain rfl := List.mem_singleton.1 ht
            exact renderable_bracketSegment hclose hs
          · exact ihout [] more (by simp) (by simp) hmore t ht
        · cases h
      · rename_i hc
        refine ihin (content ++ [c]) segments ?_ h
        simp only [List.mem_append, List.mem_singleton, not_or]
        exact ⟨hclose, fun he => hc (by simp [← he])⟩

/-- A name that can be written can be written without the blanks at its ends. -/
theorem renderable_trim {k : String} (hk : isBlankText k = false) (h : Renderable (.key k)) :
    Renderable (.key (trim k)) := by
  have hmem : ∀ c, c ∈ (trim k).toList → c ∈ k.toList := by
    intro c hc
    rw [toList_trim] at hc
    exact mem_of_mem_trimChars hc
  obtain ⟨i, hi⟩ := h
  -- a trimmed word stays a word, and what is quoted is trimmed already
  cases i with
  | word l hl =>
    obtain rfl : l = k := by simpa [Item.segment] using hi
    exact ⟨.word (trim l) ⟨trim_ne_empty hk, fun h => hl.no_point (hmem _ h),
      fun h => hl.no_bracket (hmem _ h)⟩, rfl⟩
  | quoted l hl =>
    obtain rfl : l = k := by simpa [Item.segment] using hi
    exact ⟨.quoted (trim l) (by rwa [hl.trimmed]), rfl⟩
  | numeral n => cases hi

/-- Segments that can be written each can be written together. -/
theorem exists_items {segments : List Segment} (h : ∀ s ∈ segments, Renderable s) :
    ∃ is : List Item, is.map Item.segment = segments := by
  induction segments with
  | nil => exact ⟨[], rfl⟩
  | cons s segments ih =>
    obtain ⟨i, hi⟩ := h s (by simp)
    obtain ⟨is, his⟩ := ih fun t ht => h t (List.mem_cons_of_mem _ ht)
    exact ⟨i :: is, by rw [List.map_cons, hi, his]⟩

/-- The two names that make segments a path. -/
theorem ofSegments?_some {segments : List Segment} {p : Path} (h : ofSegments? segments = some p) :
    ∃ scope key, segments = .key scope :: .key key :: p.segments ∧ isBlankText scope = false ∧
      isBlankText key = false ∧ p.scope = trim scope ∧ p.key = trim key := by
  unfold ofSegments? at h
  split at h
  · rename_i scope key rest
    split at h
    · cases h
    · rename_i hblank
      obtain rfl := Option.some.inj h
      simp only [Bool.or_eq_true, not_or, Bool.not_eq_true] at hblank
      exact ⟨scope, key, rfl, hblank.1, hblank.2, rfl, rfl⟩
  · cases h

/-- **What parsing gives can be written.** -/
theorem exists_renders {e : String} {p : Path} (h : parse e = .ok p) : ∃ cs, Renders p cs := by
  unfold parse at h
  split at h
  · cases h
  split at h
  · cases h
  rename_i segments htokens
  split at h
  · rename_i q hq
    obtain rfl := Except.ok.inj h
    obtain ⟨scope, key, rfl, hscope, hkey, hps, hpk⟩ := ofSegments?_some hq
    unfold tokenize at htokens
    split at htokens
    · rename_i segments' hread
      obtain rfl := Except.ok.inj htokens
      have hall := (renderable_of_tokens _).1 [] _ (by simp) (by simp) hread
      obtain ⟨is, his⟩ : ∃ is : List Item,
          is.map Item.segment = .key q.scope :: .key q.key :: q.segments := exists_items <| by
        intro s hs
        simp only [List.mem_cons] at hs
        rcases hs with rfl | rfl | hs
        · rw [hps]; exact renderable_trim hscope (hall _ (by simp))
        · rw [hpk]; exact renderable_trim hkey (hall _ (by simp))
        · exact hall _ (by simp [hs])
      exact ⟨_, by rw [hps]; exact isName_trim hscope, by rw [hpk]; exact isName_trim hkey, is, his,
        rfl⟩
    · cases htokens
  · cases h

/-- The last character of a name is no blank. -/
theorem getLast_of_isName {k : String} (h : IsName k) :
    k.toList.getLast?.any isBlank = false := by
  have htrim : trimChars k.toList = k.toList := by rw [← toList_trim, h.2]
  cases hlast : k.toList.getLast? with
  | none => rfl
  | some c => exact (trimChars_eq_self.1 htrim).2 c hlast

/-- **The base name** of a path is written as the path without its segments, if both names can
stand after a point. -/
theorem renders_baseName {p : Path} (hscope : IsName p.scope) (hkey : IsName p.key)
    (hfirst : IsWord p.scope) (hsecond : IsWord p.key) :
    Renders ⟨p.scope, p.key, []⟩ p.baseName.toList := by
  refine ⟨hscope, hkey, [.word p.scope hfirst, .word p.key hsecond], rfl, ?_⟩
  simp [render, Item.chars, getLast_of_isName hkey, baseName, Error.variableName]

/-- The base name of what is parsed leads to the variable itself. -/
theorem parse_baseName {e : String} {p : Path} (h : parse e = .ok p) (hfirst : IsWord p.scope)
    (hsecond : IsWord p.key) :
    parse (wrapped p.baseName.toList) = .ok ⟨p.scope, p.key, []⟩ := by
  obtain ⟨cs, hscope, hkey, -⟩ := exists_renders h
  exact parse_wrapped (renders_baseName hscope hkey hfirst hsecond)

/-- **Parsing undoes writing**, whichever way each segment is written, and every path that parsing
gives can be written, so that writing and parsing it again gives what it was parsed to. -/
theorem parse_rendering :
    (∀ p cs, Renders p cs → parse (wrapped cs) = .ok p) ∧
      ∀ e p, parse e = .ok p →
        (∃ cs, Renders p cs) ∧ ∀ cs, Renders p cs → parse (wrapped cs) = parse e := by
  refine ⟨fun p cs => parse_wrapped, fun e p he => ⟨exists_renders he, fun cs hcs => ?_⟩⟩
  rw [he, parse_wrapped hcs]

theorem parse_rendering_mixed :
    Renders ⟨"a", "b", [.key "x.y", .index 7, .key "t "]⟩ "a[b][x.y][ 007 ].t .".toList ∧
      parse (wrapped "a[b][x.y][ 007 ].t .".toList) =
        .ok ⟨"a", "b", [.key "x.y", .index 7, .key "t "]⟩ := by
  have hseven : digitsOfNat 7 = ['7'] := digitsOfNat_small (by decide)
  have hblank : ∀ c ∈ [' '], isBlank c = true := by simp [isBlank]
  have hrenders : Renders ⟨"a", "b", [.key "x.y", .index 7, .key "t "]⟩
      "a[b][x.y][ 007 ].t .".toList := by
    refine ⟨by decide, by decide, [.word "a" ⟨by decide, by decide, by decide⟩,
      .quoted "b" ⟨by decide, by decide, by decide⟩,
      .quoted "x.y" ⟨by decide, by decide, by decide⟩,
      .numeral ⟨[' '], 2, 7, [' '], hblank, hblank, by rw [hseven]; decide⟩,
      .word "t " ⟨by decide, by decide, by decide⟩], rfl, ?_⟩
    simp only [render, Item.chars, Numeral.chars, Numeral.digits, hseven]
    rfl
  exact ⟨hrenders, parse_rendering.1 _ _ hrenders⟩

end Path

end Runbook
