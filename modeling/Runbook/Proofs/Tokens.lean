import Mathlib.Tactic.Common
import Mathlib.Tactic.Tauto
import Runbook.Proofs.PathRendering

/-!
# Segments of joined texts

The segments of a text are those of its parts, one behind the other: behind a text that has
segments, a point or a closed bracket lets the reading begin anew. Names without points and brackets
stand for themselves, so every text is taken apart in this way, up to a bracket that nothing closes.

* `Opens`, `LeavesOpen`, `Encloses`: the brackets of a text that stand outside of others.
* `text_cases`: texts by their first point or bracket, as a principle of induction.
* `tokens_anew`: reading begins anew behind segments.
* `tokens_outcome`: what reading comes to, by the brackets of the text alone.
* `Compositional`: the laws of joined texts. `Compositional.agree`: they determine the segments.
* `tokenize_compositional`: **the segments of joined texts**, and when there are none.
-/

namespace Runbook.Path

open Runbook.Text

/-! ### The brackets of a text -/

/-- Whether a character leaves the reading inside a bracket. -/
def staysInside (inside : Bool) (c : Char) : Bool :=
  if inside then c != ']' else c == '['

/-- A bracket opens in front of the rest of a text, where no other one is open. -/
def OpensFrom (inside : Bool) (cs rest : List Char) : Prop :=
  ∃ front, cs = front ++ '[' :: rest ∧ front.foldl staysInside inside = false

/-- A bracket outside of others opens in front of the rest of a text. -/
def Opens (cs rest : List Char) : Prop :=
  OpensFrom false cs rest

/-- Nothing closes a bracket that opens outside of others. -/
def LeavesOpen (cs : List Char) : Prop :=
  ∃ rest, Opens cs rest ∧ ']' ∉ rest

/-- What a closed bracket outside of others holds. -/
def Encloses (cs content : List Char) : Prop :=
  ∃ behind, Opens cs (content ++ ']' :: behind) ∧ ']' ∉ content

/-- An index of more digits than integers are read with. -/
def IsOverlong (content : List Char) : Prop :=
  IsIndexText (trimChars content) ∧ maxIntegerDigits < (trimChars content).length

/-- A closed bracket holds an overlong index. -/
def HasOverlongIndex (cs : List Char) : Prop :=
  ∃ content, Encloses cs content ∧ IsOverlong content

/-- The segment of what brackets hold: the index that its digits write, or a name without the
blanks around it. -/
def segmentOf (content : List Char) : Segment :=
  if IsIndexText (trimChars content) then .index (natOfDigits (trimChars content))
  else .key (String.ofList (trimChars content))

section Brackets

variable {inside : Bool} {x cs rest content behind : List Char} {c : Char}

theorem opensFrom_nil : ¬ OpensFrom inside [] rest := by
  rintro ⟨front, hfront, -⟩
  cases front <;> cases hfront

/-- The first character opens the bracket, or the bracket opens behind it. -/
theorem opensFrom_cons : OpensFrom inside (c :: cs) rest ↔
    (inside = false ∧ c = '[' ∧ cs = rest) ∨ OpensFrom (staysInside inside c) cs rest := by
  constructor
  · rintro ⟨front, hfront, hinside⟩
    cases front with
    | nil =>
      obtain ⟨rfl, rfl⟩ := List.cons.inj hfront
      exact .inl ⟨hinside, rfl, rfl⟩
    | cons d front =>
      obtain ⟨rfl, rfl⟩ := List.cons.inj hfront
      exact .inr ⟨front, rfl, hinside⟩
  · rintro (⟨rfl, rfl, rfl⟩ | ⟨front, rfl, hinside⟩)
    · exact ⟨[], rfl, rfl⟩
    · exact ⟨c :: front, rfl, hinside⟩

/-- No bracket opens in a text without one. -/
theorem opensFrom_outside (hx : '[' ∉ x) :
    OpensFrom false (x ++ cs) rest ↔ OpensFrom false cs rest := by
  induction x with
  | nil => rfl
  | cons c x ih =>
    rw [List.mem_cons, not_or] at hx
    have hstays : staysInside false c = false := by
      simpa [staysInside] using Ne.symm hx.1
    have hno : ¬ (false = false ∧ c = '[' ∧ x ++ cs = rest) := fun h => hx.1 h.2.1.symm
    rw [List.cons_append, opensFrom_cons, hstays, or_iff_right hno, ih hx.2]

/-- Inside of a bracket none opens until it is closed. -/
theorem opensFrom_inside (hx : ']' ∉ x) :
    OpensFrom true (x ++ cs) rest ↔ OpensFrom true cs rest := by
  induction x with
  | nil => rfl
  | cons c x ih =>
    rw [List.mem_cons, not_or] at hx
    have hstays : staysInside true c = true := by
      simpa [staysInside] using Ne.symm hx.1
    rw [List.cons_append, opensFrom_cons, hstays, or_iff_right (fun h => nomatch h.1), ih hx.2]

theorem opens_word (hx : '[' ∉ x) : ¬ Opens x rest := by
  intro h
  rw [← List.append_nil x, Opens, opensFrom_outside hx] at h
  exact opensFrom_nil h

theorem opens_point (hx : '[' ∉ x) : Opens (x ++ '.' :: cs) rest ↔ Opens cs rest := by
  have hpoint : ¬ (false = false ∧ '.' = '[' ∧ cs = rest) := fun h => nomatch h.2.1
  rw [Opens, opensFrom_outside hx, opensFrom_cons, or_iff_right hpoint]
  rfl

theorem opens_unclosed (hx : '[' ∉ x) (hcontent : ']' ∉ content) :
    Opens (x ++ '[' :: content) rest ↔ content = rest := by
  have hinside : ¬ OpensFrom true content rest := by
    rw [← List.append_nil content, opensFrom_inside hcontent]
    exact opensFrom_nil
  rw [Opens, opensFrom_outside hx, opensFrom_cons]
  exact ⟨fun h => h.elim (·.2.2) fun h => absurd h hinside, fun h => .inl ⟨rfl, rfl, h⟩⟩

theorem opens_closed (hx : '[' ∉ x) (hcontent : ']' ∉ content) :
    Opens (x ++ '[' :: (content ++ ']' :: cs)) rest ↔
      content ++ ']' :: cs = rest ∨ Opens cs rest := by
  have hinside : OpensFrom true (content ++ ']' :: cs) rest ↔ Opens cs rest := by
    rw [opensFrom_inside hcontent, opensFrom_cons, or_iff_right (fun h => nomatch h.1)]
    rfl
  rw [Opens, opensFrom_outside hx, opensFrom_cons]
  exact or_congr ⟨(·.2.2), fun h => ⟨rfl, rfl, h⟩⟩ hinside

/-- What stands in front of the first closing bracket. -/
theorem close_unique {first second u v : List Char} (hfirst : ']' ∉ first) (hsecond : ']' ∉ second)
    (h : first ++ ']' :: u = second ++ ']' :: v) : first = second := by
  induction first generalizing second with
  | nil =>
    cases second with
    | nil => rfl
    | cons d second =>
      obtain ⟨rfl, -⟩ := List.cons.inj h
      exact absurd List.mem_cons_self hsecond
  | cons c first ih =>
    cases second with
    | nil =>
      obtain ⟨rfl, -⟩ := List.cons.inj h
      exact absurd List.mem_cons_self hfirst
    | cons d second =>
      rw [List.mem_cons, not_or] at hfirst hsecond
      obtain ⟨rfl, htail⟩ := List.cons.inj h
      rw [ih hfirst.2 hsecond.2 htail]

/-! Which brackets a text leaves open, and what those that it closes hold. -/

theorem not_leavesOpen_word (hx : '[' ∉ x) : ¬ LeavesOpen x :=
  fun ⟨_, h, _⟩ => opens_word hx h

theorem not_encloses_word (hx : '[' ∉ x) : ¬ Encloses x content :=
  fun ⟨_, h, _⟩ => opens_word hx h

theorem leavesOpen_point (hx : '[' ∉ x) : LeavesOpen (x ++ '.' :: cs) ↔ LeavesOpen cs :=
  exists_congr fun _ => and_congr_left fun _ => opens_point hx

theorem encloses_point (hx : '[' ∉ x) : Encloses (x ++ '.' :: cs) content ↔ Encloses cs content :=
  exists_congr fun _ => and_congr_left fun _ => opens_point hx

theorem leavesOpen_unclosed (hx : '[' ∉ x) (hcontent : ']' ∉ content) :
    LeavesOpen (x ++ '[' :: content) :=
  ⟨content, (opens_unclosed hx hcontent).2 rfl, hcontent⟩

theorem not_encloses_unclosed {other : List Char} (hx : '[' ∉ x) (hcontent : ']' ∉ content) :
    ¬ Encloses (x ++ '[' :: content) other := by
  rintro ⟨behind, hopens, -⟩
  rw [opens_unclosed hx hcontent] at hopens
  exact hcontent (by rw [hopens]; simp)

theorem leavesOpen_closed (hx : '[' ∉ x) (hcontent : ']' ∉ content) :
    LeavesOpen (x ++ '[' :: (content ++ ']' :: cs)) ↔ LeavesOpen cs := by
  constructor
  · rintro ⟨rest, hopens, hrest⟩
    rcases (opens_closed hx hcontent).1 hopens with rfl | hopens
    · exact absurd (by simp) hrest
    · exact ⟨rest, hopens, hrest⟩
  · rintro ⟨rest, hopens, hrest⟩
    exact ⟨rest, (opens_closed hx hcontent).2 (.inr hopens), hrest⟩

theorem encloses_closed {other : List Char} (hx : '[' ∉ x) (hcontent : ']' ∉ content) :
    Encloses (x ++ '[' :: (content ++ ']' :: cs)) other ↔ other = content ∨ Encloses cs other := by
  constructor
  · rintro ⟨behind, hopens, hother⟩
    rcases (opens_closed hx hcontent).1 hopens with heq | hopens
    · exact .inl (close_unique hcontent hother heq).symm
    · exact .inr ⟨behind, hopens, hother⟩
  · rintro (rfl | ⟨behind, hopens, hother⟩)
    · exact ⟨cs, (opens_closed hx hcontent).2 (.inl rfl), hcontent⟩
    · exact ⟨behind, (opens_closed hx hcontent).2 (.inr hopens), hother⟩

end Brackets

/-! ### Texts by their first point or bracket -/

/-- A text without points and brackets. -/
def IsBare (x : List Char) : Prop :=
  '.' ∉ x ∧ '[' ∉ x

/-- A text up to the first character of a kind. -/
theorem exists_first (p : Char → Bool) (cs : List Char) :
    (∀ c ∈ cs, p c = false) ∨
      ∃ front c rest, cs = front ++ c :: rest ∧ p c = true ∧ ∀ d ∈ front, p d = false := by
  induction cs with
  | nil => exact .inl fun _ h => nomatch h
  | cons c cs ih =>
    cases hc : p c with
    | true => exact .inr ⟨[], c, cs, rfl, hc, fun _ h => nomatch h⟩
    | false =>
      rcases ih with hall | ⟨front, d, rest, rfl, hd, hfront⟩
      · exact .inl (List.forall_mem_cons.2 ⟨hc, hall⟩)
      · exact .inr ⟨c :: front, d, rest, rfl, hd, List.forall_mem_cons.2 ⟨hc, hfront⟩⟩

/-- **Texts by their first point or bracket**: a bare text; a bare text, a point and a text; a bare
text and a bracket that nothing closes; or a bare text, a closed bracket and a text. -/
theorem text_cases {motive : List Char → Prop} (bare : ∀ x, IsBare x → motive x)
    (point : ∀ x cs, IsBare x → motive cs → motive (x ++ '.' :: cs))
    (unclosed : ∀ x content, IsBare x → ']' ∉ content → motive (x ++ '[' :: content))
    (closed : ∀ x content cs, IsBare x → ']' ∉ content → motive cs →
      motive (x ++ '[' :: (content ++ ']' :: cs)))
    (cs : List Char) : motive cs := by
  induction hlen : cs.length using Nat.strongRecOn generalizing cs with
  | ind n ih =>
    subst hlen
    have hbare : ∀ x : List Char, (∀ c ∈ x, (c == '.' || c == '[') = false) → IsBare x := by
      intro x hx
      constructor
      · intro h
        cases hx '.' h
      · intro h
        cases hx '[' h
    rcases exists_first (fun c => c == '.' || c == '[') cs with hall | ⟨x, c, rest, rfl, hc, hx⟩
    · exact bare cs (hbare cs hall)
    · rw [Bool.or_eq_true, beq_iff_eq, beq_iff_eq] at hc
      have hshort : rest.length < (x ++ c :: rest).length := by
        rw [List.length_append, List.length_cons]; omega
      rcases hc with rfl | rfl
      · exact point x rest (hbare x hx) (ih rest.length hshort rest rfl)
      · rcases exists_first (· == ']') rest with hopen | ⟨content, d, behind, rfl, hd, hcontent⟩
        · exact unclosed x rest (hbare x hx) fun h => by cases hopen ']' h
        · obtain rfl : d = ']' := beq_iff_eq.1 hd
          have hshorter : behind.length < (content ++ ']' :: behind).length := by
            rw [List.length_append, List.length_cons]; omega
          exact closed x content behind (hbare x hx) (fun h => by cases hcontent ']' h)
            (ih behind.length (hshorter.trans hshort) behind rfl)

/-! ### Reading joined texts -/

theorem andThen_andThen (a b : List Segment) (r : Except TokenFault (List Segment)) :
    andThen a (andThen b r) = andThen (a ++ b) r := by
  cases r with
  | error e => rfl
  | ok more => simp [andThen]

/-- Where the name in front ends in any case, reading begins anew behind the segments of a text. -/
theorem tokens_anew {rest : List Char} {k : Except TokenFault (List Segment)}
    (hrest : ∀ word, tokensOutside word rest = andThen (wordSegment word) k) (a : List Char) :
    (∀ word segments, tokensOutside word a = .ok segments →
      tokensOutside word (a ++ rest) = andThen segments k) ∧
    (∀ content segments, tokensInside content a = .ok segments →
      tokensInside content (a ++ rest) = andThen segments k) := by
  -- a text with segments ends outside of brackets, with a name that may still go on
  induction a with
  | nil =>
    refine ⟨fun word segments h => ?_, fun content segments h => ?_⟩
    · rw [tokensOutside] at h
      obtain rfl := Except.ok.inj h
      exact hrest word
    · rw [tokensInside] at h
      cases h
  | cons c a ih =>
    obtain ⟨ihout, ihin⟩ := ih
    constructor
    · intro word segments h
      rw [tokensOutside] at h
      rw [List.cons_append, tokensOutside]
      split at h
      -- a point ends the name in front, and so does an opening bracket
      · rename_i hc
        obtain ⟨more, hmore, rfl⟩ := andThen_ok h
        rw [if_pos hc, ihout [] more hmore, andThen_andThen]
      · rename_i hc
        rw [if_neg hc]
        split at h
        · rename_i hc'
          obtain ⟨more, hmore, rfl⟩ := andThen_ok h
          rw [if_pos hc', ihin [] more hmore, andThen_andThen]
        · rename_i hc'
          rw [if_neg hc', ihout _ segments h]
    · intro content segments h
      rw [tokensInside] at h
      rw [List.cons_append, tokensInside]
      split at h
      · rename_i hc
        rw [if_pos hc]
        split at h
        · obtain ⟨more, hmore, rfl⟩ := andThen_ok h
          rw [ihout [] more hmore, andThen_andThen]
        · cases h
      · rename_i hc
        rw [if_neg hc, ihin _ segments h]

section Joining

variable {a x content : List Char} {segments : List Segment}

/-- **A point** lets the reading begin anew. -/
theorem tokens_pointed (h : tokens a = .ok segments) (b : List Char) :
    tokens (a ++ '.' :: b) = andThen segments (tokens b) :=
  (tokens_anew (fun word => tokensOutside_point word b) a).1 [] segments h

/-- **A closed bracket** gives its segment, and lets the reading begin anew. -/
theorem tokens_closed (h : tokens a = .ok segments) (hcontent : ']' ∉ content) (b : List Char) :
    tokens (a ++ '[' :: (content ++ ']' :: b)) = andThen segments (
      match bracketSegment content with
      | .ok s => andThen [s] (tokens b)
      | .error e => .error e) := by
  have hbracket := (tokens_anew (fun word => tokensOutside_bracket word (content ++ ']' :: b)) a).1
    [] segments h
  rw [tokensInside_close hcontent, List.nil_append] at hbracket
  exact hbracket

/-- A bracket that nothing closes has no segment. -/
theorem tokensInside_unclosed (hcontent : ']' ∉ content) (held : List Char) :
    tokensInside held content = .error .openBracket := by
  induction content generalizing held with
  | nil => rfl
  | cons c content ih =>
    rw [List.mem_cons, not_or] at hcontent
    rw [tokensInside, if_neg (by simpa using Ne.symm hcontent.1), ih hcontent.2]

theorem tokens_unclosed (h : tokens a = .ok segments) (hcontent : ']' ∉ content) :
    tokens (a ++ '[' :: content) = .error .openBracket := by
  have hbracket := (tokens_anew (fun word => tokensOutside_bracket word content) a).1 [] segments h
  rw [tokensInside_unclosed hcontent] at hbracket
  exact hbracket

/-- **A bare text** is its own segment, and the empty one is none. -/
theorem tokens_bare (hx : IsBare x) : tokens x = .ok (wordSegment x) := by
  have hread := tokensOutside_word hx.1 hx.2 [] []
  rwa [List.append_nil, List.nil_append, tokensOutside] at hread

end Joining

/-- **What brackets hold** is a segment, unless it is an overlong index. -/
theorem bracketSegment_cases (content : List Char) :
    IsOverlong content ∧
        bracketSegment content = .error (.tooManyDigits (trimChars content).length) ∨
      ¬ IsOverlong content ∧ bracketSegment content = .ok (segmentOf content) := by
  by_cases hindex : IsIndexText (trimChars content)
  · by_cases hlen : maxIntegerDigits < (trimChars content).length
    · have hno := (isIndexText_iff _).1 hindex
      refine .inl ⟨⟨hindex, hlen⟩, ?_⟩
      simp only [bracketSegment]
      rw [if_neg (by simp [hno]), if_pos hlen]
    · refine .inr ⟨fun h => hlen h.2, ?_⟩
      rw [bracketSegment_index hindex (by omega), segmentOf, if_pos hindex]
  · refine .inr ⟨fun h => hindex h.1, ?_⟩
    have hname := hindex
    rw [isIndexText_iff, Bool.not_eq_false] at hname
    simp only [bracketSegment]
    rw [if_pos hname, segmentOf, if_neg hindex]

/-- What is no longer than an index may be is not overlong. -/
theorem not_isOverlong_of_length {content : List Char} (h : content.length ≤ maxIntegerDigits) :
    ¬ IsOverlong content := by
  rintro ⟨-, hlen⟩
  obtain ⟨before, after, hcontent, -, -⟩ := trimChars_spec content
  have hlength := congrArg List.length hcontent
  simp only [List.length_append] at hlength
  omega

/-! ### What reading comes to -/

/-- **What reading comes to**, by the brackets of the text: segments, if all brackets are closed and
no index is overlong; the fault of an overlong index; or that of the bracket which is left open. -/
inductive TokenOutcome (cs : List Char) : Except TokenFault (List Segment) → Prop
  | reads (segments : List Segment) (hclosed : ¬ LeavesOpen cs) (hshort : ¬ HasOverlongIndex cs) :
    TokenOutcome cs (.ok segments)
  | overlong {content : List Char} (h : Encloses cs content) (hlong : IsOverlong content) :
    TokenOutcome cs (.error (.tooManyDigits (trimChars content).length))
  | unclosed (hopen : LeavesOpen cs) (hshort : ¬ HasOverlongIndex cs) :
    TokenOutcome cs (.error .openBracket)

section Outcomes

variable {cs : List Char}

/-- What a part of a text comes to with segments in front, if the brackets of the text are those of
the part, but for some that hold no overlong index. -/
theorem TokenOutcome.behind {whole : List Char} {segments : List Segment}
    {r : Except TokenFault (List Segment)} (h : TokenOutcome cs r)
    (hopen : LeavesOpen whole ↔ LeavesOpen cs)
    (hencloses : ∀ content, Encloses cs content → Encloses whole content)
    (hlong : HasOverlongIndex whole → HasOverlongIndex cs) :
    TokenOutcome whole (andThen segments r) := by
  cases h with
  | reads more hclosed hshort =>
    exact .reads _ (fun h => hclosed (hopen.1 h)) fun h => hshort (hlong h)
  | overlong h hover => exact .overlong (hencloses _ h) hover
  | unclosed hleft hshort => exact .unclosed (hopen.2 hleft) fun h => hshort (hlong h)

/-- **What reading comes to** is told by the brackets of the text. -/
theorem tokens_outcome (cs : List Char) : TokenOutcome cs (tokens cs) := by
  induction cs using text_cases with
  | bare x hx =>
    rw [tokens_bare hx]
    exact .reads _ (not_leavesOpen_word hx.2) fun ⟨_, h, _⟩ => not_encloses_word hx.2 h
  | point x cs hx ih =>
    rw [tokens_pointed (tokens_bare hx)]
    refine ih.behind (leavesOpen_point hx.2) (fun content => (encloses_point hx.2).2) ?_
    exact fun ⟨content, h, hlong⟩ => ⟨content, (encloses_point hx.2).1 h, hlong⟩
  | unclosed x content hx hcontent =>
    rw [tokens_unclosed (tokens_bare hx) hcontent]
    exact .unclosed (leavesOpen_unclosed hx.2 hcontent) fun ⟨_, h, _⟩ =>
      not_encloses_unclosed hx.2 hcontent h
  | closed x content cs hx hcontent ih =>
    rw [tokens_closed (tokens_bare hx) hcontent]
    have hhere : Encloses (x ++ '[' :: (content ++ ']' :: cs)) content :=
      (encloses_closed hx.2 hcontent).2 (.inl rfl)
    -- the first overlong index ends the reading, whatever stands behind its bracket
    rcases bracketSegment_cases content with ⟨hlong, hsegment⟩ | ⟨hshort, hsegment⟩
    · rw [hsegment]
      exact .overlong hhere hlong
    · rw [hsegment]
      simp only [andThen_andThen]
      refine ih.behind (leavesOpen_closed hx.2 hcontent)
        (fun other h => (encloses_closed hx.2 hcontent).2 (.inr h)) ?_
      rintro ⟨other, hother, hlong⟩
      rcases (encloses_closed hx.2 hcontent).1 hother with rfl | hother
      · exact absurd hlong hshort
      · exact ⟨other, hother, hlong⟩

theorem tokens_openBracket_iff :
    tokens cs = .error .openBracket ↔ LeavesOpen cs ∧ ¬ HasOverlongIndex cs := by
  have houtcome := tokens_outcome cs
  generalize tokens cs = r at houtcome
  cases houtcome with
  | reads _ hclosed _ => exact ⟨fun h => (nomatch h), fun h => absurd h.1 hclosed⟩
  | overlong h hlong => exact ⟨fun h => (nomatch h), fun h' => absurd ⟨_, h, hlong⟩ h'.2⟩
  | unclosed hopen hshort => exact ⟨fun _ => ⟨hopen, hshort⟩, fun _ => rfl⟩

theorem tokens_tooManyDigits_iff :
    (∃ count, tokens cs = .error (.tooManyDigits count)) ↔ HasOverlongIndex cs := by
  have houtcome := tokens_outcome cs
  generalize tokens cs = r at houtcome
  cases houtcome with
  | reads _ _ hshort => exact ⟨fun ⟨_, h⟩ => (nomatch h), fun h => absurd h hshort⟩
  | overlong h hlong => exact ⟨fun _ => ⟨_, h, hlong⟩, fun _ => ⟨_, rfl⟩⟩
  | unclosed _ hshort => exact ⟨fun ⟨_, h⟩ => (nomatch h), fun h => absurd h hshort⟩

/-- The texts without segments, and the errors that say why. -/
theorem tokenize_error_iff {text : String} {e : Error} : tokenize text = .error e ↔
    (e = .malformed text .openBracket ∧ tokens text.toList = .error .openBracket) ∨
      ∃ count, e = .value (.integerTooLong (some count)) ∧
        tokens text.toList = .error (.tooManyDigits count) := by
  unfold tokenize
  cases tokens text.toList with
  | ok segments => simp
  | error fault => cases fault <;> simp [TokenFault.toError, eq_comm]

end Outcomes

/-! ### The laws of joined texts -/

/-- **The laws of joined texts**, for a way to read texts that may give no segments. The law for
closed brackets is one for contents of some kind. -/
structure Compositional (kind : List Char → Prop) (read : String → Option (List Segment)) :
    Prop where
  empty : read "" = some []
  bare : ∀ x, x ≠ "" → IsBare x.toList → read x = some [.key x]
  point : ∀ a b segments, read a = some segments →
    read (a ++ "." ++ b) = (read b).map (segments ++ ·)
  closed : ∀ a content b segments, read a = some segments → ']' ∉ content.toList →
    kind content.toList →
      read (a ++ "[" ++ content ++ "]" ++ b) =
        (read b).map (segments ++ segmentOf content.toList :: ·)
  unclosed : ∀ t, LeavesOpen t.toList → read t = none

section Laws

variable {kind : List Char → Prop} {read other : String → Option (List Segment)}

theorem ofList_point (a b : List Char) :
    String.ofList (a ++ '.' :: b) = String.ofList a ++ "." ++ String.ofList b := by
  apply String.toList_injective
  simp

theorem ofList_closed (a content b : List Char) :
    String.ofList (a ++ '[' :: (content ++ ']' :: b)) =
      String.ofList a ++ "[" ++ String.ofList content ++ "]" ++ String.ofList b := by
  apply String.toList_injective
  simp

/-- Bare texts are read as themselves. -/
theorem Compositional.read_bare (h : Compositional kind read) {x : List Char} (hx : IsBare x) :
    read (String.ofList x) = some (wordSegment x) := by
  cases x with
  | nil => exact h.empty
  | cons c x =>
    refine h.bare _ (fun hempty => ?_) (by rwa [String.toList_ofList])
    have hnil := congrArg String.toList hempty
    rw [String.toList_ofList] at hnil
    cases hnil

/-- **The laws determine the segments** of every text whose brackets hold contents of the kind. -/
theorem Compositional.agree (h : Compositional kind read) (h' : Compositional kind other)
    (cs : List Char) (hkind : ∀ content, Encloses cs content → kind content) :
    read (String.ofList cs) = other (String.ofList cs) := by
  induction cs using text_cases with
  | bare x hx => rw [h.read_bare hx, h'.read_bare hx]
  | point x cs hx ih =>
    rw [ofList_point, h.point _ _ _ (h.read_bare hx), h'.point _ _ _ (h'.read_bare hx),
      ih fun content hcontent => hkind content ((encloses_point hx.2).2 hcontent)]
  | unclosed x content hx hcontent =>
    have hopen := leavesOpen_unclosed hx.2 hcontent
    rw [h.unclosed _ (by rwa [String.toList_ofList]), h'.unclosed _ (by rwa [String.toList_ofList])]
  | closed x content cs hx hcontent ih =>
    have hhere := hkind content ((encloses_closed hx.2 hcontent).2 (.inl rfl))
    have hno : ']' ∉ (String.ofList content).toList := by rwa [String.toList_ofList]
    have hof : kind (String.ofList content).toList := by rwa [String.toList_ofList]
    rw [ofList_closed, h.closed _ _ _ _ (h.read_bare hx) hno hof,
      h'.closed _ _ _ _ (h'.read_bare hx) hno hof,
      ih fun other hother => hkind other ((encloses_closed hx.2 hcontent).2 (.inr hother))]

/-- The segments of a text, if it has any. -/
def segments? (text : String) : Option (List Segment) :=
  (tokenize text).toOption

theorem segments?_eq (text : String) : segments? text = (tokens text.toList).toOption := by
  unfold segments? tokenize
  cases tokens text.toList <;> rfl

theorem segments?_eq_some {text : String} {segments : List Segment} :
    segments? text = some segments ↔ tokens text.toList = .ok segments := by
  rw [segments?_eq]
  cases tokens text.toList <;> simp [Except.toOption]

theorem toOption_andThen (front : List Segment) (r : Except TokenFault (List Segment)) :
    (andThen front r).toOption = r.toOption.map (front ++ ·) := by
  cases r <;> rfl

/-- **The segments of texts** follow the laws, for all contents but overlong indexes. -/
theorem compositional_segments? (hkind : ∀ content, kind content → ¬ IsOverlong content) :
    Compositional kind segments? where
  empty := rfl
  bare := by
    intro x hne hx
    rw [segments?_eq_some, tokens_bare hx, wordSegment_toList hne]
  point := by
    intro a b segments ha
    have hjoined : (a ++ "." ++ b).toList = a.toList ++ '.' :: b.toList := by simp
    rw [segments?_eq, hjoined, tokens_pointed (segments?_eq_some.1 ha), toOption_andThen,
      segments?_eq]
  closed := by
    intro a content b segments ha hcontent hof
    have hjoined : (a ++ "[" ++ content ++ "]" ++ b).toList =
        a.toList ++ '[' :: (content.toList ++ ']' :: b.toList) := by simp
    rw [segments?_eq, hjoined, tokens_closed (segments?_eq_some.1 ha) hcontent]
    rcases bracketSegment_cases content.toList with ⟨hlong, -⟩ | ⟨-, hsegment⟩
    · exact absurd hlong (hkind _ hof)
    · rw [hsegment]
      simp only [andThen_andThen]
      rw [toOption_andThen, segments?_eq]
      simp
  unclosed := by
    intro t hopen
    rw [segments?_eq]
    have houtcome := tokens_outcome t.toList
    generalize tokens t.toList = r at houtcome
    cases houtcome with
    | reads _ hclosed _ => exact absurd hopen hclosed
    | overlong _ _ => rfl
    | unclosed _ _ => rfl

end Laws

/-- **The segments of joined texts.** The laws hold for closed brackets of every content but an
overlong index, so for those of no more characters than an index may have digits. They determine
the segments of every text whose closed brackets hold contents of the kind that they are laws for.
A text has no segments exactly if it leaves a bracket open or closes one around an overlong index;
the error is that of the index if there is one. So reading fails exactly at brackets that are left
open, but for overlong indexes in texts that leave none open. -/
theorem tokenize_compositional (text : String) :
    Compositional (¬ IsOverlong ·) segments? ∧
    Compositional (·.length ≤ maxIntegerDigits) segments? ∧
    (∀ (kind : List Char → Prop) (read : String → Option (List Segment)),
      (∀ content, kind content → ¬ IsOverlong content) → Compositional kind read →
        (∀ content, Encloses text.toList content → kind content) → read text = segments? text) ∧
    (tokenize text = .error (.malformed text .openBracket) ↔
      LeavesOpen text.toList ∧ ¬ HasOverlongIndex text.toList) ∧
    ((∃ count, tokenize text = .error (.value (.integerTooLong (some count)))) ↔
      HasOverlongIndex text.toList) ∧
    ((∃ e, tokenize text = .error e) ↔ LeavesOpen text.toList ∨ HasOverlongIndex text.toList) ∧
    (((∃ e, tokenize text = .error e) ↔ LeavesOpen text.toList) ↔
      (HasOverlongIndex text.toList → LeavesOpen text.toList)) := by
  have hunclosed : tokenize text = .error (.malformed text .openBracket) ↔
      LeavesOpen text.toList ∧ ¬ HasOverlongIndex text.toList := by
    rw [tokenize_error_iff, ← tokens_openBracket_iff]
    simp
  have hlong : (∃ count, tokenize text = .error (.value (.integerTooLong (some count)))) ↔
      HasOverlongIndex text.toList := by
    rw [← tokens_tooManyDigits_iff]
    refine exists_congr fun count => ?_
    rw [tokenize_error_iff]
    simp
  have hfails : (∃ e, tokenize text = .error e) ↔
      LeavesOpen text.toList ∨ HasOverlongIndex text.toList := by
    constructor
    · rintro ⟨e, he⟩
      rcases tokenize_error_iff.1 he with ⟨-, hopen⟩ | ⟨count, -, hdigits⟩
      · exact .inl (tokens_openBracket_iff.1 hopen).1
      · exact .inr (tokens_tooManyDigits_iff.1 ⟨count, hdigits⟩)
    · intro h
      by_cases hindex : HasOverlongIndex text.toList
      · obtain ⟨count, hcount⟩ := hlong.2 hindex
        exact ⟨_, hcount⟩
      · exact ⟨_, hunclosed.2 ⟨h.resolve_right hindex, hindex⟩⟩
  refine ⟨compositional_segments? fun _ h => h,
    compositional_segments? fun _ => not_isOverlong_of_length, ?_, hunclosed, hlong, hfails, ?_⟩
  · intro kind read hkind hread hcontents
    have hagree := hread.agree (compositional_segments? hkind) text.toList hcontents
    rwa [String.ofList_toList] at hagree
  · rw [hfails]
    tauto

/-- Closed brackets around an index of one digit more than integers are read with. -/
def overlongText : String :=
  String.ofList ('[' :: (List.replicate (maxIntegerDigits + 1) '1' ++ [']']))

theorem isOverlong_ones {n : Nat} (hn : maxIntegerDigits < n) :
    IsOverlong (List.replicate n '1') := by
  have hindex : IsIndexText (List.replicate n '1') := by
    refine ⟨fun h => ?_, fun c hc => ?_⟩
    · have hzero := (List.replicate_eq_nil_iff _).1 h
      omega
    · rw [(List.mem_replicate.1 hc).2]
      rfl
  rw [IsOverlong, trimChars_of_digits hindex, List.length_replicate]
  exact ⟨hindex, hn⟩

theorem not_close_ones (n : Nat) : ']' ∉ List.replicate n '1' := by
  intro h
  cases (List.mem_replicate.1 h).2

/-- The text leaves no bracket open, and still it has no segments. -/
theorem overlongText_fails :
    (∃ e, tokenize overlongText = .error e) ∧ ¬ LeavesOpen overlongText.toList := by
  have hno := not_close_ones (maxIntegerDigits + 1)
  have hencloses : Encloses overlongText.toList (List.replicate (maxIntegerDigits + 1) '1') := by
    rw [overlongText, String.toList_ofList]
    rw [← List.nil_append ('[' :: _)]
    exact (encloses_closed (by simp) hno).2 (.inl rfl)
  constructor
  · obtain ⟨count, hcount⟩ :=
      tokens_tooManyDigits_iff.2 ⟨_, hencloses, isOverlong_ones (Nat.lt_succ_self _)⟩
    exact ⟨_, tokenize_error_iff.2 (.inr ⟨count, rfl, hcount⟩)⟩
  · rw [overlongText, String.toList_ofList]
    intro hopen
    rw [← List.nil_append ('[' :: _), leavesOpen_closed (by simp) hno] at hopen
    exact not_leavesOpen_word (by simp) hopen

end Runbook.Path
