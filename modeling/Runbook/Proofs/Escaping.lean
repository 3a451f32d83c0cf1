import Mathlib.Data.List.TakeWhile
import Mathlib.Tactic.Common
import Runbook.Text.Markup

/-!
# Escaped text in markup

Markup is read in pieces. A tag opens a style or closes one; what matters of markup is the styles
that are open behind it, and whether each closing tag closes the innermost of them. Escaped text
opens and closes none, whatever it is and whatever stands behind it.

* `markup_induction`: a text is taken apart piece by piece.
* `stylesBehind`, `IsNested`: the styles that are open behind markup, and markup that nests.
* `readTag?_escapedText`: escaping makes no tag out of what is none.
* `stylesBehind_escape`: **escaped text leaves the open styles as they are**.
* `Neutral`, `Stands`: text that leaves the open styles as they are, and text that is shown behind
  any of them.
-/

namespace Runbook.Text

variable {c : Char} {cs rest text : List Char} {n : Nat}

/-! ### Brackets and tags -/

/-- A square bracket. -/
def isBracket (c : Char) : Bool := c == '[' || c == ']'

/-- The first square bracket of a text. -/
def firstBracket (cs : List Char) : Option Char := cs.find? isBracket

/-- A text that is one tag. -/
def IsTag (text : List Char) : Prop := readTag? text = some (text, [])

/-- The tag that a text begins with, behind backslashes. -/
def tagBehind? (cs : List Char) : Option (List Char × List Char) :=
  readTag? (cs.dropWhile (· == '\\'))

theorem isBracket_of_isTagStart (h : isTagStart c = true) : isBracket c = false := by
  by_contra hbracket
  simp only [isBracket, Bool.not_eq_false, Bool.or_eq_true, beq_iff_eq] at hbracket
  rcases hbracket with rfl | rfl
  · cases h
  · cases h

theorem readTag?_of_ne (h : c ≠ '[') (cs : List Char) : readTag? (c :: cs) = none := by
  unfold readTag?
  split
  · rename_i heq
    cases heq
    exact absurd rfl h
  · rfl

theorem drop_takeWhile {α : Type} (p : α → Bool) (l : List α) :
    l.drop (l.takeWhile p).length = l.dropWhile p := by
  conv_lhs => rw [← List.takeWhile_append_dropWhile (p := p) (l := l)]
  induction l with
  | nil => rfl
  | cons a l ih => cases h : p a <;> simp_all

/-- **What is read as a tag**: a bracket, a character that can begin a tag, and what follows up to
the next bracket, if that closes the tag. -/
theorem readTag?_eq_some_iff : readTag? ('[' :: c :: cs) = some (text, rest) ↔
    isTagStart c = true ∧ cs.dropWhile (!isBracket ·) = ']' :: rest ∧
      text = '[' :: c :: cs.takeWhile (!isBracket ·) ++ [']'] := by
  have hbody : (fun d : Char => d != '[' && d != ']') = (!isBracket ·) := by
    funext d
    simp [isBracket, bne]
  rw [readTag?]
  simp only [hbody, drop_takeWhile]
  by_cases hstart : isTagStart c = true
  · rw [if_pos hstart]
    split
    · rename_i behind hbehind
      simp [hstart, hbehind, eq_comm, and_comm]
    · rename_i hnone
      have hne : ∀ rest, cs.dropWhile (!isBracket ·) ≠ ']' :: rest := fun rest h => hnone rest h
      simp [hne]
  · simp [hstart]

/-- A text begins with a tag exactly if the next bracket closes it. -/
theorem isSome_readTag?_iff : (readTag? ('[' :: c :: cs)).isSome = true ↔
    isTagStart c = true ∧ firstBracket cs = some ']' := by
  have hfirst : firstBracket cs = (cs.dropWhile (!isBracket ·)).head? :=
    List.find?_eq_head?_dropWhile_not isBracket cs
  rw [Option.isSome_iff_exists, hfirst, List.head?_eq_some_iff]
  constructor
  · rintro ⟨⟨text, rest⟩, h⟩
    obtain ⟨hstart, hrest, -⟩ := readTag?_eq_some_iff.1 h
    exact ⟨hstart, rest, hrest⟩
  · rintro ⟨hstart, rest, hrest⟩
    exact ⟨_, readTag?_eq_some_iff.2 ⟨hstart, hrest, rfl⟩⟩

/-- A tag that is read is in front of the text behind it, and is read again before any other. -/
theorem isTag_of_readTag? (h : readTag? cs = some (text, rest)) :
    cs = text ++ rest ∧ ∀ more, readTag? (text ++ more) = some (text, more) := by
  rcases cs with _ | ⟨a, _ | ⟨d, ds⟩⟩
  · cases h
  · simp [readTag?] at h
  by_cases ha : a = '['
  · subst ha
    obtain ⟨hstart, hrest, rfl⟩ := readTag?_eq_some_iff.1 h
    refine ⟨?_, fun more => ?_⟩
    · have hsplit := List.takeWhile_append_dropWhile (p := (!isBracket ·)) (l := ds)
      rw [hrest] at hsplit
      simp [hsplit]
    · have hbody : ∀ e ∈ ds.takeWhile (!isBracket ·), (!isBracket e) = true :=
        fun e he => List.mem_takeWhile_imp (p := (!isBracket ·)) he
      have hmore : '[' :: d :: ds.takeWhile (!isBracket ·) ++ [']'] ++ more =
          '[' :: d :: (ds.takeWhile (!isBracket ·) ++ ']' :: more) := by simp
      have hclose : (!isBracket ']') = false := rfl
      rw [hmore, readTag?_eq_some_iff, List.dropWhile_append_of_pos hbody,
        List.takeWhile_append_of_pos hbody]
      exact ⟨hstart, List.dropWhile_cons_of_neg (by simp [hclose]),
        by rw [List.takeWhile_cons_of_neg (by simp [hclose]), List.append_nil]⟩
  · rw [readTag?_of_ne ha] at h
    cases h

theorem IsTag.append (h : IsTag text) (more : List Char) :
    readTag? (text ++ more) = some (text, more) :=
  (isTag_of_readTag? h).2 more

theorem IsTag.exists_cons (h : IsTag text) : ∃ ds, text = '[' :: ds := by
  rcases text with _ | ⟨a, ds⟩
  · cases h
  · by_cases ha : a = '['
    · exact ⟨ds, by rw [ha]⟩
    · rw [IsTag, readTag?_of_ne ha] at h
      cases h

/-- A tag is not empty. -/
theorem length_readTag? (h : readTag? cs = some (text, rest)) : rest.length < cs.length := by
  obtain ⟨hsplit, hmore⟩ := isTag_of_readTag? h
  have htext : text ≠ [] := by
    rintro rfl
    cases hmore []
  have hpos := List.length_pos_iff.2 htext
  rw [hsplit, List.length_append]
  omega

/-! ### Pieces -/

theorem markupPiecesFrom_eq {fuel enough : Nat} (hfuel : cs.length ≤ fuel)
    (henough : cs.length ≤ enough) : markupPiecesFrom fuel cs = markupPiecesFrom enough cs := by
  induction fuel generalizing enough cs with
  | zero =>
    obtain rfl := List.length_eq_zero_iff.1 (Nat.le_zero.1 hfuel)
    cases enough <;> rfl
  | succ fuel ih =>
    cases cs with
    | nil => cases enough <;> rfl
    | cons c cs =>
      obtain ⟨enough, rfl⟩ : ∃ k, enough = k + 1 := ⟨enough - 1, by simp at henough; omega⟩
      rw [List.length_cons] at hfuel henough
      rw [markupPiecesFrom, markupPiecesFrom]
      split
      · rename_i text rest htag
        have hlength := length_readTag? htag
        rw [List.length_drop, List.length_cons] at hlength
        exact congrArg (_ :: ·) (ih (by omega) (by omega))
      · exact congrArg (_ :: ·) (ih (by omega) (by omega))

/-- A tag is a piece, with the backslashes in front of it. -/
theorem markupPieces_of_tag (h : tagBehind? cs = some (text, rest)) :
    markupPieces cs = .tag (cs.takeWhile (· == '\\')).length text :: markupPieces rest := by
  cases cs with
  | nil => cases h
  | cons c cs =>
    rw [tagBehind?, ← drop_takeWhile] at h
    have hlength := length_readTag? h
    rw [List.length_drop, List.length_cons] at hlength
    rw [markupPieces, List.length_cons, markupPiecesFrom, h]
    dsimp only
    rw [markupPieces, markupPiecesFrom_eq (by omega) (Nat.le_refl _)]

/-- A character that no tag begins with is a piece. -/
theorem markupPieces_of_none (h : tagBehind? (c :: cs) = none) :
    markupPieces (c :: cs) = .char c :: markupPieces cs := by
  rw [tagBehind?, ← drop_takeWhile] at h
  rw [markupPieces, List.length_cons, markupPiecesFrom, h]
  rfl

/-- A text is taken apart piece by piece: it ends, or begins with a tag behind backslashes, or with
a character that no tag begins with. -/
theorem markup_induction {p : List Char → Prop} (nil : p [])
    (tag : ∀ n text rest, IsTag text → p rest → p (List.replicate n '\\' ++ (text ++ rest)))
    (char : ∀ c cs, tagBehind? (c :: cs) = none → p cs → p (c :: cs)) (cs : List Char) : p cs := by
  induction hlength : cs.length using Nat.strongRecOn generalizing cs with
  | ind k ih =>
    subst hlength
    cases htag : tagBehind? cs with
    | none =>
      cases cs with
      | nil => exact nil
      | cons c cs => exact char c cs htag (ih _ (by simp) cs rfl)
    | some found =>
      obtain ⟨text, rest⟩ := found
      have hslashes : cs.takeWhile (· == '\\') =
          List.replicate (cs.takeWhile (· == '\\')).length '\\' :=
        List.eq_replicate_of_mem fun d hd => by
          simpa using List.mem_takeWhile_imp (p := (· == '\\')) hd
      have hsplit := List.takeWhile_append_dropWhile (p := (· == '\\')) (l := cs)
      have hlength := length_readTag? htag
      have hdrop := List.length_dropWhile_le (· == '\\') cs
      have hrest := ih _ (by omega) rest rfl
      obtain ⟨hcs, hmore⟩ := isTag_of_readTag? htag
      rw [hcs, hslashes] at hsplit
      have htext : IsTag text := by simpa [IsTag] using hmore []
      exact hsplit ▸ tag _ text rest htext hrest

theorem dropWhile_slashes (n : Nat) (h : cs.head? ≠ some '\\') :
    (List.replicate n '\\' ++ cs).dropWhile (· == '\\') = cs := by
  rw [List.dropWhile_append_of_pos (by simp)]
  cases cs with
  | nil => rfl
  | cons c cs => exact List.dropWhile_cons_of_neg (by simpa using h)

theorem takeWhile_slashes (n : Nat) (h : cs.head? ≠ some '\\') :
    (List.replicate n '\\' ++ cs).takeWhile (· == '\\') = List.replicate n '\\' := by
  rw [List.takeWhile_append_of_pos (by simp)]
  cases cs with
  | nil => exact List.append_nil _
  | cons c cs =>
    rw [List.takeWhile_cons_of_neg (by simpa using h), List.append_nil]

theorem IsTag.markupPieces (h : IsTag text) (n : Nat) (rest : List Char) :
    markupPieces (List.replicate n '\\' ++ (text ++ rest)) = .tag n text :: markupPieces rest := by
  have hhead : (text ++ rest).head? ≠ some '\\' := by
    obtain ⟨ds, rfl⟩ := h.exists_cons
    simp
  have htag : tagBehind? (List.replicate n '\\' ++ (text ++ rest)) = some (text, rest) := by
    rw [tagBehind?, dropWhile_slashes n hhead, h.append]
  rw [markupPieces_of_tag htag, takeWhile_slashes n hhead, List.length_replicate]

/-! ### Escaping -/

/-- A text with every tag in it escaped, but for its end. -/
def escapedText (cs : List Char) : List Char := (markupPieces cs).flatMap (·.escaped)

theorem IsTag.escapedText (h : IsTag text) (n : Nat) (rest : List Char) :
    escapedText (List.replicate n '\\' ++ (text ++ rest)) =
      List.replicate (2 * n + 1) '\\' ++ (text ++ escapedText rest) := by
  rw [Text.escapedText, h.markupPieces, List.flatMap_cons, MarkupPiece.escaped, List.append_assoc]
  rfl

theorem escapedText_cons (h : tagBehind? (c :: cs) = none) :
    escapedText (c :: cs) = c :: escapedText cs := by
  rw [escapedText, markupPieces_of_none h]
  rfl

theorem firstBracket_cons (c : Char) (cs : List Char) :
    firstBracket (c :: cs) = if isBracket c then some c else firstBracket cs := by
  rw [firstBracket, List.find?_cons]
  cases isBracket c <;> rfl

theorem firstBracket_slashes (n : Nat) (cs : List Char) :
    firstBracket (List.replicate n '\\' ++ cs) = firstBracket cs := by
  have hslash : isBracket '\\' = false := rfl
  induction n with
  | zero => rfl
  | succ n ih =>
    rw [List.replicate_succ, List.cons_append, firstBracket_cons, hslash, ih]
    rfl

/-- The first bracket of a text is also the first one of the escaped text. -/
theorem firstBracket_escapedText (cs behind : List Char) :
    firstBracket (escapedText cs ++ behind) = firstBracket (cs ++ behind) := by
  induction cs using markup_induction with
  | nil => rfl
  | tag n text rest htag _ =>
    obtain ⟨ds, rfl⟩ := htag.exists_cons
    rw [htag.escapedText, List.append_assoc, List.append_assoc, List.append_assoc,
      firstBracket_slashes, firstBracket_slashes]
    rfl
  | char c cs hnone ih =>
    rw [escapedText_cons hnone, List.cons_append, List.cons_append, firstBracket_cons,
      firstBracket_cons, ih]

theorem firstBracket_append (cs behind : List Char) :
    firstBracket (cs ++ behind) = (firstBracket cs).or (firstBracket behind) := List.find?_append

/-- Escaped text that begins with a tag begins with a backslash. -/
theorem exists_slash_of_tag (h : tagBehind? cs = some (text, rest)) :
    ∃ ds, escapedText cs = '\\' :: ds := by
  rw [escapedText, markupPieces_of_tag h, List.flatMap_cons, MarkupPiece.escaped,
    List.replicate_succ]
  exact ⟨_, rfl⟩

/-- **Escaping makes no tag out of what is none**, unless a bracket behind the text closes it. -/
theorem readTag?_escapedText {behind : List Char} (h : readTag? ('[' :: cs) = none)
    (hbehind : firstBracket behind ≠ some ']') :
    readTag? ('[' :: (escapedText cs ++ behind)) = none := by
  by_contra hsome
  rw [← ne_eq, ← Option.isSome_iff_ne_none] at hsome
  cases cs with
  | nil =>
    cases behind with
    | nil => cases hsome
    | cons d ds =>
      obtain ⟨hstart, hfirst⟩ := isSome_readTag?_iff.1 hsome
      rw [firstBracket_cons, isBracket_of_isTagStart hstart] at hbehind
      exact hbehind hfirst
  | cons c cs =>
    cases htag : tagBehind? (c :: cs) with
    | some found =>
      -- a backslash begins no tag
      obtain ⟨ds, hds⟩ := exists_slash_of_tag htag
      rw [hds, List.cons_append, isSome_readTag?_iff] at hsome
      cases hsome.1
    | none =>
      rw [escapedText_cons htag, List.cons_append, isSome_readTag?_iff,
        firstBracket_escapedText, firstBracket_append] at hsome
      obtain ⟨hstart, hfirst⟩ := hsome
      -- the bracket that closes it would be one of the text or the first behind it
      cases hown : firstBracket cs with
      | none =>
        rw [hown, Option.none_or] at hfirst
        exact hbehind hfirst
      | some b =>
        rw [hown, Option.some_or] at hfirst
        have hread := isSome_readTag?_iff.2 ⟨hstart, hown.trans hfirst⟩
        rw [h] at hread
        cases hread

theorem tagBehind?_slashes (n : Nat) (h : cs.head? ≠ some '\\') :
    tagBehind? (List.replicate n '\\' ++ cs) = readTag? cs := by
  rw [tagBehind?, dropWhile_slashes n h]

/-- Backslashes in front of what is no tag are kept. -/
theorem escapedText_slashes (n : Nat) (hhead : cs.head? ≠ some '\\') (h : readTag? cs = none) :
    escapedText (List.replicate n '\\' ++ cs) = List.replicate n '\\' ++ escapedText cs := by
  induction n with
  | zero => rfl
  | succ n ih =>
    have hnone := (tagBehind?_slashes (n + 1) hhead).trans h
    rw [List.replicate_succ, List.cons_append] at hnone ⊢
    rw [escapedText_cons hnone, ih, List.cons_append]

/-- Backslashes, and a character behind them that is none. -/
theorem exists_slashes (cs : List Char) : ∃ n, cs = List.replicate n '\\' ∨
    ∃ d ds, d ≠ '\\' ∧ cs = List.replicate n '\\' ++ d :: ds := by
  induction cs with
  | nil => exact ⟨0, .inl rfl⟩
  | cons c cs ih =>
    by_cases hc : c = '\\'
    · obtain ⟨n, rfl | ⟨d, ds, hd, rfl⟩⟩ := ih
      · exact ⟨n + 1, .inl (by rw [hc]; rfl)⟩
      · exact ⟨n + 1, .inr ⟨d, ds, hd, by rw [hc]; rfl⟩⟩
    · exact ⟨0, .inr ⟨c, cs, hc, rfl⟩⟩

/-- No tag begins at a character of escaped text. -/
theorem tagBehind?_escapedText {behind ds : List Char} {d : Char} (hd : d ≠ '\\')
    (h : tagBehind? (List.replicate n '\\' ++ d :: ds) = none)
    (hbehind : firstBracket behind ≠ some ']') :
    tagBehind? (escapedText (List.replicate n '\\' ++ d :: ds) ++ behind) = none := by
  have hhead : ∀ l : List Char, (d :: l).head? ≠ some '\\' := fun l => by simpa using hd
  rw [tagBehind?_slashes n (hhead ds)] at h
  have hown : tagBehind? (d :: ds) = none := (tagBehind?_slashes 0 (hhead ds)).trans h
  rw [escapedText_slashes n (hhead ds) h, escapedText_cons hown, List.append_assoc,
    List.cons_append, tagBehind?_slashes n (hhead _)]
  by_cases hbracket : d = '['
  · rw [hbracket] at h ⊢
    exact readTag?_escapedText h hbehind
  · exact readTag?_of_ne hbracket _

/-! ### Open styles -/

/-- A character of a style: styles are words in small letters. -/
def isStyleChar (c : Char) : Bool := ('a' ≤ c && c ≤ 'z') || c == ' '

/-- The styles that are open behind a tag, the innermost first, if it opens a style of words or
closes the innermost one. -/
def stylesAfter (styles : List (List Char)) (tag : List Char) : Option (List (List Char)) :=
  match (tag.drop 1).dropLast with
  | '/' :: name =>
    match styles with
    | style :: outer => if name = [] ∨ name = style then some outer else none
    | [] => none
  | name => if name.all isStyleChar then some (name :: styles) else none

/-- The styles that are open behind pieces of markup; a tag behind an odd number of backslashes is
text. -/
def openStyles : List (List Char) → List MarkupPiece → Option (List (List Char))
  | styles, [] => some styles
  | styles, .char _ :: ps => openStyles styles ps
  | styles, .tag n tag :: ps =>
    if n % 2 = 1 then openStyles styles ps
    else (stylesAfter styles tag).bind fun styles => openStyles styles ps

/-- The styles that are open behind a text. -/
def stylesBehind (styles : List (List Char)) (cs : List Char) : Option (List (List Char)) :=
  openStyles styles (markupPieces cs)

/-- **Markup that nests**: its tags are styles of words in small letters, and each closing tag
closes the innermost style that is open. Styles may stay open. -/
def IsNested (s : String) : Prop := (stylesBehind [] s.toList).isSome = true

instance (s : String) : Decidable (IsNested s) := inferInstanceAs (Decidable (_ = true))

variable {styles : List (List Char)}

theorem stylesBehind_of_none (h : tagBehind? (c :: cs) = none) :
    stylesBehind styles (c :: cs) = stylesBehind styles cs := by
  rw [stylesBehind, markupPieces_of_none h]
  rfl

/-- Backslashes in front of what is no tag are text. -/
theorem stylesBehind_slashes (n : Nat) (hhead : cs.head? ≠ some '\\') (h : readTag? cs = none) :
    stylesBehind styles (List.replicate n '\\' ++ cs) = stylesBehind styles cs := by
  induction n with
  | zero => rfl
  | succ n ih =>
    have hnone := (tagBehind?_slashes (n + 1) hhead).trans h
    rw [List.replicate_succ, List.cons_append] at hnone ⊢
    rw [stylesBehind_of_none hnone, ih]

theorem stylesBehind_escaping (h : IsTag text) (k : Nat) (cs : List Char) :
    stylesBehind styles (List.replicate (2 * k + 1) '\\' ++ (text ++ cs)) =
      stylesBehind styles cs := by
  rw [stylesBehind, h.markupPieces, openStyles, if_pos (by omega)]
  rfl

/-- Behind backslashes a tag is a tag or text. -/
theorem stylesBehind_tag (styles : List (List Char)) (h : IsTag text) (n : Nat) (cs : List Char) :
    stylesBehind styles (List.replicate n '\\' ++ (text ++ cs)) = stylesBehind styles cs ∨
      stylesBehind styles (List.replicate n '\\' ++ (text ++ cs)) =
        (stylesAfter styles text).bind (stylesBehind · cs) := by
  rw [stylesBehind, h.markupPieces, openStyles]
  split
  · exact .inl rfl
  · exact .inr rfl

/-- **Escaped text leaves the open styles as they are**; of the text only backslashes at its end
matter for what stands behind it. -/
theorem stylesBehind_escapedText (cs : List Char) {behind : List Char}
    (hbehind : firstBracket behind ≠ some ']') : ∃ n, ∀ styles,
      stylesBehind styles (escapedText cs ++ behind) =
        stylesBehind styles (List.replicate n '\\' ++ behind) := by
  induction cs using markup_induction with
  | nil => exact ⟨0, fun _ => rfl⟩
  | tag k text rest htag ih =>
    -- behind an odd number of backslashes the tag is text
    obtain ⟨n, hn⟩ := ih
    refine ⟨n, fun styles => ?_⟩
    rw [htag.escapedText, List.append_assoc, List.append_assoc, stylesBehind_escaping htag, hn]
  | char c cs hnone ih =>
    obtain ⟨k, hslashes | ⟨d, ds, hd, hsplit⟩⟩ := exists_slashes (c :: cs)
    · -- nothing but backslashes
      refine ⟨k, fun styles => ?_⟩
      have hempty : escapedText [] = [] := rfl
      have hnone : readTag? [] = none := rfl
      have hkept := escapedText_slashes k (by simp) hnone
      rw [hempty, List.append_nil] at hkept
      rw [hslashes, hkept]
    · obtain ⟨n, hn⟩ := ih
      refine ⟨n, fun styles => ?_⟩
      have hbehindTag := tagBehind?_escapedText hd (hsplit ▸ hnone) hbehind
      rw [← hsplit, escapedText_cons hnone, List.cons_append] at hbehindTag
      rw [escapedText_cons hnone, List.cons_append, stylesBehind_of_none hbehindTag, hn]

theorem toList_escapeMarkup (s : String) :
    (escapeMarkup s).toList = escapedText s.toList ∨
      (escapeMarkup s).toList = escapedText s.toList ++ ['\\'] := by
  rw [escapeMarkup, String.toList_ofList, closeBackslash]
  split
  · exact .inl rfl
  · exact .inr rfl
  · exact .inl rfl

/-- **What stands behind escaped text**, stands behind backslashes. -/
theorem stylesBehind_escape (s : String) {behind : List Char}
    (hbehind : firstBracket behind ≠ some ']') : ∃ n, ∀ styles,
      stylesBehind styles ((escapeMarkup s).toList ++ behind) =
        stylesBehind styles (List.replicate n '\\' ++ behind) := by
  rcases toList_escapeMarkup s with h | h
  · rw [h]
    exact stylesBehind_escapedText _ hbehind
  · have hslash : firstBracket ('\\' :: behind) ≠ some ']' := hbehind
    obtain ⟨n, hn⟩ := stylesBehind_escapedText s.toList hslash
    refine ⟨n + 1, fun styles => ?_⟩
    rw [h, List.append_assoc, List.singleton_append, hn, List.replicate_succ',
      List.append_assoc, List.singleton_append]

/-! ### Texts that leave the open styles as they are -/

/-- A character that begins neither a tag nor backslashes in front of one. -/
def isPlain (c : Char) : Bool := c != '[' && c != '\\'

/-- A tag that opens a style, and one that closes it. -/
structure Encloses (opening closing : List Char) : Prop where
  isTag : IsTag opening ∧ IsTag closing
  styles : ∃ style, ∀ styles, stylesAfter styles opening = some (style :: styles) ∧
    stylesAfter (style :: styles) closing = some styles

theorem isTag_cons {body : List Char} (hstart : isTagStart c = true)
    (hbody : ∀ e ∈ body, isBracket e = false) : IsTag ('[' :: c :: (body ++ [']'])) := by
  have hopen : ∀ e ∈ body, (!isBracket e) = true := fun e he => by rw [hbody e he]; rfl
  rw [IsTag, readTag?_eq_some_iff, List.dropWhile_append_of_pos hopen,
    List.takeWhile_append_of_pos hopen]
  exact ⟨hstart, rfl, by simp [isBracket]⟩

theorem isBracket_of_isStyleChar (h : isStyleChar c = true) : isBracket c = false := by
  by_contra hbracket
  simp only [isBracket, Bool.not_eq_false, Bool.or_eq_true, beq_iff_eq] at hbracket
  rcases hbracket with rfl | rfl
  · cases h
  · cases h

/-- **A style of words** is opened and closed by its name. -/
theorem encloses_word {ds : List Char} (hc : c ≠ '/' ∧ isTagStart c = true)
    (hstyle : ∀ e ∈ c :: ds, isStyleChar e = true) :
    Encloses ('[' :: c :: (ds ++ [']'])) ('[' :: '/' :: (c :: ds ++ [']'])) := by
  have hbody : ∀ e ∈ c :: ds, isBracket e = false :=
    fun e he => isBracket_of_isStyleChar (hstyle e he)
  refine ⟨⟨isTag_cons hc.2 fun e he => hbody e (List.mem_cons_of_mem c he),
    isTag_cons rfl hbody⟩, c :: ds, fun styles => ⟨?_, ?_⟩⟩
  · have hname : (('[' :: c :: (ds ++ [']'])).drop 1).dropLast = c :: ds := by
      rw [List.drop_one, List.tail_cons, ← List.cons_append, List.dropLast_concat]
    unfold stylesAfter
    rw [hname]
    split
    · rename_i heq
      exact absurd (List.cons.inj heq).1 hc.1
    · rw [if_pos (List.all_eq_true.2 hstyle)]
  · have hname : (('[' :: '/' :: (c :: ds ++ [']'])).drop 1).dropLast = '/' :: c :: ds := by
      rw [List.drop_one, List.tail_cons, ← List.cons_append, List.dropLast_concat]
    unfold stylesAfter
    rw [hname]
    exact if_pos (.inr rfl)

theorem tagBehind?_of_plain (h : isPlain c = true) (cs : List Char) :
    tagBehind? (c :: cs) = none := by
  rw [isPlain, Bool.and_eq_true, bne_iff_ne, bne_iff_ne] at h
  rw [tagBehind?, List.dropWhile_cons_of_neg (by simpa using h.2), readTag?_of_ne h.1]

theorem IsTag.stylesBehind (h : IsTag text) (styles : List (List Char)) (cs : List Char) :
    stylesBehind styles (text ++ cs) = (stylesAfter styles text).bind (stylesBehind · cs) := by
  have hpieces := h.markupPieces 0 cs
  rw [Text.stylesBehind, ← List.nil_append (text ++ cs), ← List.replicate_zero, hpieces]
  rfl

/-- **A text that leaves the open styles as they are**, whatever stands behind it. -/
def Neutral (front : List Char) : Prop :=
  ∀ styles cs, stylesBehind styles (front ++ cs) = stylesBehind styles cs

namespace Neutral

variable {front body opening closing : List Char}

theorem plain (h : ∀ c ∈ front, isPlain c = true) : Neutral front := by
  intro styles cs
  induction front with
  | nil => rfl
  | cons c front ih =>
    have hnone := tagBehind?_of_plain (h c List.mem_cons_self) (front ++ cs)
    rw [List.cons_append, stylesBehind_of_none hnone]
    exact ih fun d hd => h d (List.mem_cons_of_mem c hd)

theorem of_all (h : front.all isPlain = true) : Neutral front := plain (List.all_eq_true.1 h)

theorem append (hfront : Neutral front) (hbody : Neutral body) : Neutral (front ++ body) :=
  fun styles cs => by rw [List.append_assoc, hfront, hbody]

/-- A text in a style is as the text. -/
theorem enclosed (henclose : Encloses opening closing) (hbody : Neutral body) :
    Neutral (opening ++ (body ++ closing)) := by
  intro styles cs
  obtain ⟨style, hstyles⟩ := henclose.styles
  rw [List.append_assoc, List.append_assoc, henclose.isTag.1.stylesBehind, (hstyles styles).1,
    Option.bind_some, hbody, henclose.isTag.2.stylesBehind, (hstyles styles).2, Option.bind_some]

/-- A bracket in front of another one begins no tag. -/
theorem bracket (hhead : front.head? = some '[') (h : Neutral front) : Neutral ('[' :: front) := by
  obtain ⟨ds, rfl⟩ := List.head?_eq_some_iff.1 hhead
  exact fun styles cs => (stylesBehind_of_none rfl).trans (h styles cs)

end Neutral

/-- The name of a style of words. -/
def isStyleName (name : String) : Bool :=
  match name.toList with
  | c :: ds => c != '/' && isTagStart c && (c :: ds).all isStyleChar
  | [] => false

/-- A style of words is opened and closed by its name. -/
theorem encloses_name (name : String) (h : isStyleName name = true) :
    Encloses ("[" ++ name ++ "]").toList ("[/" ++ name ++ "]").toList := by
  unfold isStyleName at h
  split at h
  · rename_i c ds hname
    simp only [Bool.and_eq_true, bne_iff_ne] at h
    rw [String.toList_append, String.toList_append, String.toList_append, String.toList_append,
      hname]
    exact encloses_word h.1 (List.all_eq_true.1 h.2)
  · cases h

/-! ### Texts that stand anywhere -/

/-- **A text that nests whatever styles are open** in front of it. -/
def Stands (cs : List Char) : Prop := ∀ styles, (stylesBehind styles cs).isSome = true

namespace Stands

theorem nested {s : String} (h : Stands s.toList) : IsNested s := h []

theorem nil : Stands [] := fun _ => rfl

theorem behind {front : List Char} (hfront : Neutral front) (h : Stands cs) :
    Stands (front ++ cs) := fun styles => by
  rw [hfront]
  exact h styles

/-- **Escaped text at the end** stands. -/
theorem escaped_nil (s : String) : Stands (escapeMarkup s).toList := by
  intro styles
  have hnone : firstBracket [] ≠ some ']' := by simp [firstBracket]
  obtain ⟨n, hn⟩ := stylesBehind_escape s hnone
  rw [List.append_nil] at hn
  rw [hn, stylesBehind_slashes n (by simp) rfl]
  rfl

/-- **Escaped text in front of a plain character** stands, unless a bracket behind closes one in
it. -/
theorem escaped (s : String) (hc : isPlain c = true) (hbracket : firstBracket (c :: cs) ≠ some ']')
    (h : Stands (c :: cs)) : Stands ((escapeMarkup s).toList ++ c :: cs) := by
  intro styles
  obtain ⟨n, hn⟩ := stylesBehind_escape s hbracket
  have hhead : (c :: cs).head? ≠ some '\\' := by
    rw [isPlain, Bool.and_eq_true, bne_iff_ne] at hc
    simpa using hc.2
  have hnone := (tagBehind?_slashes 0 hhead).symm.trans (tagBehind?_of_plain hc cs)
  rw [hn, stylesBehind_slashes n hhead hnone]
  exact h styles

/-- **Escaped text in a style** stands. Backslashes at its end may make text of the closing tag. -/
theorem enclosed_escaped {opening closing front : List Char} (s : String)
    (henclose : Encloses opening closing) (hfront : Neutral front) (h : Stands cs) :
    Stands (opening ++ (front ++ ((escapeMarkup s).toList ++ (closing ++ cs)))) := by
  intro styles
  obtain ⟨style, hstyles⟩ := henclose.styles
  have hbracket : firstBracket (closing ++ cs) ≠ some ']' := by
    obtain ⟨ds, hds⟩ := henclose.isTag.2.exists_cons
    rw [hds, List.cons_append, firstBracket_cons]
    simp [isBracket]
  obtain ⟨n, hn⟩ := stylesBehind_escape s hbracket
  rw [henclose.isTag.1.stylesBehind, (hstyles styles).1, Option.bind_some, hfront, hn]
  rcases stylesBehind_tag (style :: styles) henclose.isTag.2 n cs with htag | htag
  · rw [htag]
    exact h _
  · rw [htag, (hstyles styles).2, Option.bind_some]
    exact h styles

end Stands

theorem Neutral.stands {front : List Char} (h : Neutral front) : Stands front := by
  have hstands := Stands.nil.behind h
  rwa [List.append_nil] at hstands

end Runbook.Text
