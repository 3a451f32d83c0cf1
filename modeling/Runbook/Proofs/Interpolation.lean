import Mathlib.Data.List.Forall2
import Mathlib.Data.List.TakeWhile
import Mathlib.Tactic.Common
import Runbook.Store.Operation

/-!
# Interpolation means replacing the leftmost placeholders

A template is literal text with placeholders between it. `Leftmost` says declaratively which
placeholders a text has: those that begin as far left as possible and do not overlap. The scan of
`Template.pieces` finds exactly them, and resolving a template replaces each by the text of its
variable, keeps the literal text and looks at nothing twice.

* `placeholder?_eq_some`: what it means that a text begins with a placeholder.
* `leftmost_exists`, `leftmost_unique`: every text has one leftmost split.
* `pieces_leftmost`: the scan gives the pieces of the leftmost split.
* `fill_ok_iff`, `fill_error_iff`: what a placeholder becomes, case by case.
* `resolve_leftmost`: resolving a template, by its leftmost split.
-/

namespace Runbook

namespace Template

/-- What may stand between the braces of a placeholder. -/
def IsContent (cs : List Char) : Prop :=
  cs ≠ [] ∧ '\x7b' ∉ cs ∧ '\x7d' ∉ cs

/-- A text that begins with a placeholder. -/
def Opens (cs : List Char) : Prop :=
  ∃ content rest, IsContent content ∧ cs = written content ++ rest

/-- No placeholder begins inside `literal` when `behind` follows it. -/
def Clear (literal behind : List Char) : Prop :=
  ∀ before after, literal = before ++ after → after ≠ [] → ¬ Opens (after ++ behind)

/-- A placeholder's content with the literal text up to the next placeholder. -/
structure Mark where
  content : List Char
  behind : List Char

/-- The text of marks. -/
def marksText : List Mark → List Char
  | [] => []
  | m :: ms => written m.content ++ m.behind ++ marksText ms

/-- **The leftmost split of a text** into literal text and marks: between them no placeholder
begins. -/
def Leftmost (literal : List Char) : List Mark → Prop
  | [] => Clear literal []
  | m :: ms => Clear literal (marksText (m :: ms)) ∧ IsContent m.content ∧ Leftmost m.behind ms

/-- The pieces of literal text and marks. -/
def splitPieces (literal : List Char) (ms : List Mark) : List Piece :=
  literal.map .char ++ ms.flatMap fun m => .placeholder m.content :: m.behind.map .char

theorem isInner_iff (c : Char) : isInner c = true ↔ c ≠ '\x7b' ∧ c ≠ '\x7d' := by
  simp [isInner]

/-- Content and a closing brace are told apart by the first character that is not inner. -/
theorem span_content {content : List Char} (h : IsContent content) (rest : List Char) :
    (content ++ '\x7d' :: rest).takeWhile isInner = content ∧
      (content ++ '\x7d' :: rest).dropWhile isInner = '\x7d' :: rest := by
  have hin : ∀ c ∈ content, isInner c = true := by
    intro c hc
    refine (isInner_iff c).2 ⟨?_, ?_⟩
    · rintro rfl; exact h.2.1 hc
    · rintro rfl; exact h.2.2 hc
  have hstop : isInner '\x7d' = false := by decide
  rw [List.takeWhile_append_of_pos hin, List.dropWhile_append_of_pos hin]
  simp [hstop]

/-- A placeholder at the start of a text is its content between `$`, a brace and a brace. -/
theorem placeholder?_eq_some {cs content rest : List Char} :
    placeholder? cs = some (content, rest) ↔ IsContent content ∧ cs = written content ++ rest := by
  constructor
  · intro h
    unfold placeholder? at h
    split at h
    · rename_i tail
      simp only at h
      split at h
      · rename_i c cs' rest' hin hdrop
        obtain ⟨rfl, rfl⟩ : tail.takeWhile isInner = content ∧ rest' = rest := by simpa using h
        have hmem : ∀ d ∈ tail.takeWhile isInner, d ≠ '\x7b' ∧ d ≠ '\x7d' :=
          fun d hd => (isInner_iff d).1 (List.mem_takeWhile_imp hd)
        refine ⟨⟨by simp [hin], fun hb => (hmem _ hb).1 rfl, fun hb => (hmem _ hb).2 rfl⟩, ?_⟩
        have htail : tail = tail.takeWhile isInner ++ '\x7d' :: rest' := by
          rw [← hdrop, List.takeWhile_append_dropWhile]
        simp only [written, List.cons_append, List.append_assoc, List.nil_append]
        rw [← htail]
      · cases h
    · cases h
  · rintro ⟨hc, rfl⟩
    obtain ⟨htake, hdrop⟩ := span_content hc rest
    obtain ⟨c, cs, rfl⟩ := List.exists_cons_of_ne_nil hc.1
    simp only [written, List.cons_append, List.append_assoc, List.nil_append, placeholder?] at *
    rw [htake, hdrop]
    rfl

theorem placeholder?_eq_none {cs : List Char} : placeholder? cs = none ↔ ¬ Opens cs := by
  rw [Option.eq_none_iff_forall_not_mem]
  constructor
  · rintro h ⟨content, rest, hc⟩
    exact h (content, rest) (placeholder?_eq_some.2 hc)
  · rintro h ⟨content, rest⟩ hmem
    exact h ⟨content, rest, placeholder?_eq_some.1 hmem⟩

theorem Clear.head {c : Char} {literal behind : List Char} (h : Clear (c :: literal) behind) :
    ¬ Opens (c :: (literal ++ behind)) :=
  h [] (c :: literal) rfl (by simp)

theorem Clear.tail {c : Char} {literal behind : List Char} (h : Clear (c :: literal) behind) :
    Clear literal behind := by
  intro before after hl hne
  exact h (c :: before) after (by rw [hl]; rfl) hne

theorem Clear.nil (behind : List Char) : Clear [] behind := by
  intro before after hl hne
  obtain ⟨-, rfl⟩ := List.append_eq_nil_iff.1 hl.symm
  exact absurd rfl hne

theorem Clear.cons {c : Char} {literal behind : List Char} (hc : ¬ Opens (c :: (literal ++ behind)))
    (h : Clear literal behind) : Clear (c :: literal) behind := by
  intro before after hl hne
  cases before with
  | nil =>
    simp only [List.nil_append] at hl
    rw [← hl]; exact hc
  | cons b before =>
    simp only [List.cons_append, List.cons.injEq] at hl
    exact h before after hl.2 hne

/-- The text of a leftmost split. -/
theorem Leftmost.clear {literal : List Char} {ms : List Mark} (h : Leftmost literal ms) :
    Clear literal (marksText ms) := by
  cases ms with
  | nil => exact h
  | cons m ms => exact h.1

theorem Leftmost.tail {c : Char} {literal : List Char} {ms : List Mark}
    (h : Leftmost (c :: literal) ms) : Leftmost literal ms := by
  cases ms with
  | nil => exact Clear.tail h
  | cons m ms => exact ⟨h.1.tail, h.2⟩

theorem Leftmost.cons {c : Char} {literal : List Char} {ms : List Mark}
    (hc : ¬ Opens (c :: (literal ++ marksText ms))) (h : Leftmost literal ms) :
    Leftmost (c :: literal) ms := by
  cases ms with
  | nil => exact Clear.cons hc h
  | cons m ms => exact ⟨Clear.cons hc h.1, h.2⟩

/-- With enough fuel the scan gives the pieces of a leftmost split. -/
theorem piecesFrom_leftmost :
    ∀ (fuel : Nat) (literal : List Char) (ms : List Mark), Leftmost literal ms →
      (literal ++ marksText ms).length ≤ fuel →
      piecesFrom fuel (literal ++ marksText ms) = splitPieces literal ms := by
  intro fuel
  induction fuel with
  | zero =>
    intro literal ms _ hlen
    have hnil : literal ++ marksText ms = [] := List.length_eq_zero_iff.1 (by omega)
    obtain ⟨rfl, hms⟩ := List.append_eq_nil_iff.1 hnil
    cases ms with
    | nil => rfl
    | cons m ms => simp [marksText, written] at hms
  | succ fuel ih =>
    intro literal ms h hlen
    cases literal with
    | cons c literal =>
      -- no placeholder begins in the literal text, so one character is passed over
      have hnone : placeholder? (c :: (literal ++ marksText ms)) = none :=
        placeholder?_eq_none.2 h.clear.head
      simp only [List.cons_append, List.length_cons] at hlen ⊢
      rw [piecesFrom, hnone]
      simp only
      rw [ih literal ms h.tail (by omega)]
      simp [splitPieces]
    | nil =>
      cases ms with
      | nil => rfl
      | cons m ms =>
        obtain ⟨-, hcontent, hrest⟩ := h
        have hsome : placeholder? (marksText (m :: ms)) =
            some (m.content, m.behind ++ marksText ms) :=
          placeholder?_eq_some.2 ⟨hcontent, by simp [marksText]⟩
        obtain ⟨tail, htail⟩ : ∃ tail, marksText (m :: ms) = '$' :: tail := ⟨_, rfl⟩
        have hshort : (m.behind ++ marksText ms).length ≤ fuel := by
          simp [marksText, written] at hlen ⊢; omega
        rw [List.nil_append, htail, piecesFrom, ← htail, hsome]
        simp only
        rw [ih m.behind ms hrest hshort]
        simp [splitPieces]

/-- **The scan finds the leftmost placeholders.** -/
theorem pieces_leftmost {literal : List Char} {ms : List Mark} (h : Leftmost literal ms) :
    pieces (literal ++ marksText ms) = splitPieces literal ms :=
  piecesFrom_leftmost _ literal ms h le_rfl

/-- Every text has a leftmost split. -/
theorem leftmost_exists :
    ∀ (n : Nat) (cs : List Char), cs.length ≤ n →
      ∃ literal ms, Leftmost literal ms ∧ cs = literal ++ marksText ms := by
  -- on a bound of the length, since a placeholder takes up several characters at once
  intro n
  induction n with
  | zero =>
    intro cs hlen
    obtain rfl : cs = [] := List.length_eq_zero_iff.1 (by omega)
    exact ⟨[], [], Clear.nil [], rfl⟩
  | succ n ih =>
    intro cs hlen
    cases cs with
    | nil => exact ⟨[], [], Clear.nil [], rfl⟩
    | cons c cs =>
      simp only [List.length_cons] at hlen
      by_cases ho : Opens (c :: cs)
      · obtain ⟨content, rest, hcontent, hcs⟩ := ho
        have hshort : rest.length ≤ n := by
          have := congrArg List.length hcs
          simp [written] at this; omega
        obtain ⟨literal, ms, hleft, rfl⟩ := ih rest hshort
        exact ⟨[], ⟨content, literal⟩ :: ms, ⟨Clear.nil _, hcontent, hleft⟩, by
          simp [marksText, hcs]⟩
      · obtain ⟨literal, ms, hleft, rfl⟩ := ih cs (by omega)
        exact ⟨c :: literal, ms, hleft.cons ho, rfl⟩

theorem map_char_injective {a b : List Char} {ps qs : List Piece}
    (hp : ∀ p ∈ ps.head?, ∃ content, p = .placeholder content)
    (hq : ∀ q ∈ qs.head?, ∃ content, q = .placeholder content)
    (h : a.map Piece.char ++ ps = b.map Piece.char ++ qs) : a = b ∧ ps = qs := by
  induction a generalizing b with
  | nil =>
    cases b with
    | nil => exact ⟨rfl, h⟩
    | cons d b =>
      simp only [List.map_nil, List.nil_append, List.map_cons, List.cons_append] at h
      obtain ⟨content, hc⟩ := hp (.char d) (by simp [h])
      cases hc
  | cons c a ih =>
    cases b with
    | nil =>
      simp only [List.map_nil, List.nil_append, List.map_cons, List.cons_append] at h
      obtain ⟨content, hc⟩ := hq (.char c) (by simp [← h])
      cases hc
    | cons d b =>
      simp only [List.map_cons, List.cons_append, List.cons.injEq, Piece.char.injEq] at h
      obtain ⟨hab, hrest⟩ := ih h.2
      exact ⟨by rw [h.1, hab], hrest⟩

/-- The pieces of a split tell the split. -/
theorem splitPieces_injective {a b : List Char} {ms ns : List Mark}
    (h : splitPieces a ms = splitPieces b ns) : a = b ∧ ms = ns := by
  have hhead : ∀ (ms : List Mark),
      ∀ p ∈ (ms.flatMap fun m => Piece.placeholder m.content :: m.behind.map .char).head?,
        ∃ content, p = .placeholder content := by
    intro ms p hp
    cases ms with
    | nil => simp at hp
    | cons m ms => exact ⟨m.content, by simpa [eq_comm] using hp⟩
  induction ms generalizing a b ns with
  | nil =>
    obtain ⟨hab, hrest⟩ := map_char_injective (hhead []) (hhead ns) h
    cases ns with
    | nil => exact ⟨hab, rfl⟩
    | cons n ns => simp at hrest
  | cons m ms ih =>
    obtain ⟨hab, hrest⟩ := map_char_injective (hhead (m :: ms)) (hhead ns) h
    cases ns with
    | nil => simp at hrest
    | cons n ns =>
      simp only [List.flatMap_cons, List.cons_append, List.cons.injEq,
        Piece.placeholder.injEq] at hrest
      obtain ⟨hbehind, hms⟩ := ih hrest.2
      cases m; cases n
      exact ⟨hab, by simp_all⟩

/-- **A text has only one leftmost split.** -/
theorem leftmost_unique {a b : List Char} {ms ns : List Mark} (ha : Leftmost a ms)
    (hb : Leftmost b ns) (h : a ++ marksText ms = b ++ marksText ns) : a = b ∧ ms = ns := by
  apply splitPieces_injective
  rw [← pieces_leftmost ha, ← pieces_leftmost hb, h]

end Template

namespace Store

open Template

/-- What a placeholder becomes: the text of its value, or what the policy says of an absent
variable. -/
inductive Fills (s : Store) (content : List Char) : List Char → Prop
  | stored {p : Path} {v w : Value} {r : String} (hp : Path.parse (String.ofList content) = .ok p)
      (hv : s.lookup? p.base = some v) (hw : drill v p.segments = .ok w)
      (hr : w.stringify = .ok r) : Fills s content r.toList
  | kept {p : Path} (hp : Path.parse (String.ofList content) = .ok p)
      (hv : s.lookup? p.base = none) (hs : s.policy = .keepAsIs) : Fills s content (written content)
  | emptied {p : Path} (hp : Path.parse (String.ofList content) = .ok p)
      (hv : s.lookup? p.base = none) (hs : s.policy = .replaceWithEmpty) : Fills s content []

/-- Why a placeholder becomes nothing. -/
inductive Refuses (s : Store) (content : List Char) : Error → Prop
  | malformed {e : Error} (hp : Path.parse (String.ofList content) = .error e) : Refuses s content e
  | absent {p : Path} (hp : Path.parse (String.ofList content) = .ok p)
      (hv : s.lookup? p.base = none) (hs : s.policy = .throwError) :
      Refuses s content (.missingVariable p.scope p.key)
  | drilling {p : Path} {v : Value} {e : Error} (hp : Path.parse (String.ofList content) = .ok p)
      (hv : s.lookup? p.base = some v) (hw : drill v p.segments = .error e) : Refuses s content e
  | text {p : Path} {v w : Value} {e : Error} (hp : Path.parse (String.ofList content) = .ok p)
      (hv : s.lookup? p.base = some v) (hw : drill v p.segments = .ok w)
      (hr : w.stringify = .error e) : Refuses s content e

variable {s : Store} {content : List Char}

/-- Each placeholder is filled or refused, as the two relations say. -/
theorem fill_cases : (∃ f, s.fill content = .ok f ∧ Fills s content f) ∨
    ∃ e, s.fill content = .error e ∧ Refuses s content e := by
  cases hp : Path.parse (String.ofList content) with
  | error e => exact .inr ⟨e, by rw [fill, hp], .malformed hp⟩
  | ok p =>
    cases hv : s.lookup? p.base with
    | none =>
      match hs : s.policy with
      | .keepAsIs => exact .inl ⟨_, by rw [fill, hp]; simp only [hv, hs], .kept hp hv hs⟩
      | .replaceWithEmpty => exact .inl ⟨_, by rw [fill, hp]; simp only [hv, hs], .emptied hp hv hs⟩
      | .throwError => exact .inr ⟨_, by rw [fill, hp]; simp only [hv, hs], .absent hp hv hs⟩
    | some v =>
      cases hw : drill v p.segments with
      | error e => exact .inr ⟨e, by rw [fill, hp]; simp only [hv, hw], .drilling hp hv hw⟩
      | ok w =>
        cases hr : w.stringify with
        | error e =>
          refine .inr ⟨e, ?_, .text hp hv hw hr⟩
          rw [fill, hp]; simp only [hv, hw, hr, Except.map]
        | ok r =>
          refine .inl ⟨r.toList, ?_, .stored hp hv hw hr⟩
          rw [fill, hp]; simp only [hv, hw, hr, Except.map]

/-- What fills a placeholder is what the code puts in. -/
theorem fill_of_fills {f : List Char} (h : Fills s content f) : s.fill content = .ok f := by
  cases h with
  | stored hp hv hw hr => rw [fill, hp]; simp only [hv, hw, hr, Except.map]
  | kept hp hv hs => rw [fill, hp]; simp only [hv, hs]
  | emptied hp hv hs => rw [fill, hp]; simp only [hv, hs]

theorem fill_of_refuses {e : Error} (h : Refuses s content e) : s.fill content = .error e := by
  cases h with
  | malformed hp => rw [fill, hp]
  | absent hp hv hs => rw [fill, hp]; simp only [hv, hs]
  | drilling hp hv hw => rw [fill, hp]; simp only [hv, hw]
  | text hp hv hw hr => rw [fill, hp]; simp only [hv, hw, hr, Except.map]

theorem fill_ok_iff {f : List Char} : s.fill content = .ok f ↔ Fills s content f := by
  refine ⟨fun h => ?_, fill_of_fills⟩
  rcases @fill_cases s content with ⟨g, hg, hfills⟩ | ⟨e, he, -⟩
  · obtain rfl : g = f := Except.ok.inj (hg.symm.trans h)
    exact hfills
  · rw [h] at he; cases he

theorem fill_error_iff {e : Error} : s.fill content = .error e ↔ Refuses s content e := by
  refine ⟨fun h => ?_, fill_of_refuses⟩
  rcases @fill_cases s content with ⟨g, hg, -⟩ | ⟨d, hd, hrefuses⟩
  · rw [h] at hg; cases hg
  · obtain rfl : d = e := Except.error.inj (hd.symm.trans h)
    exact hrefuses

/-- What is put in for marks, each with the literal text behind it. -/
def joinedMarks : List Mark → List (List Char) → List Char
  | m :: ms, f :: fills => f ++ m.behind ++ joinedMarks ms fills
  | _, _ => []

/-- The pieces of marks. -/
def markPieces (ms : List Mark) : List Piece :=
  ms.flatMap fun m => .placeholder m.content :: m.behind.map .char

theorem markPieces_cons (m : Mark) (ms : List Mark) : markPieces (m :: ms) =
    .placeholder m.content :: (m.behind.map .char ++ markPieces ms) := by
  simp [markPieces]

theorem fillAll_literal (literal : List Char) (ps : List Piece) :
    s.fillAll (literal.map .char ++ ps) = (s.fillAll ps).map (literal ++ ·) := by
  induction literal with
  | nil => cases h : s.fillAll ps <;> simp [h, Except.map]
  | cons c literal ih =>
    rw [List.map_cons, List.cons_append, fillAll, ih]
    cases h : s.fillAll ps <;> simp [Except.map]

theorem fillAll_mark (m : Mark) (ms : List Mark) {f : List Char} (hf : s.fill m.content = .ok f) :
    s.fillAll (markPieces (m :: ms)) =
      (s.fillAll (markPieces ms)).map (fun cs => f ++ (m.behind ++ cs)) := by
  rw [markPieces_cons, fillAll, hf]
  simp only
  rw [fillAll_literal]
  cases h : s.fillAll (markPieces ms) <;> simp [Except.map]

theorem fillAll_mark_error (m : Mark) (ms : List Mark) {e : Error}
    (he : s.fill m.content = .error e) : s.fillAll (markPieces (m :: ms)) = .error e := by
  rw [markPieces_cons, fillAll, he]

/-- Marks are filled when each of them is. -/
theorem fillAll_ok_iff (ms : List Mark) (r : List Char) :
    s.fillAll (markPieces ms) = .ok r ↔
      ∃ fills, List.Forall₂ (fun m f => Fills s m.content f) ms fills ∧
        r = joinedMarks ms fills := by
  induction ms generalizing r with
  | nil =>
    simp only [markPieces, List.flatMap_nil, fillAll, Except.ok.injEq, List.forall₂_nil_left_iff,
      exists_eq_left, joinedMarks]
    exact eq_comm
  | cons m ms ih =>
    constructor
    · intro h
      cases hf : s.fill m.content with
      | error e => rw [fillAll_mark_error m ms hf] at h; cases h
      | ok f =>
        rw [fillAll_mark m ms hf] at h
        cases hrest : s.fillAll (markPieces ms) with
        | error e => rw [hrest] at h; cases h
        | ok cs =>
          rw [hrest] at h
          obtain ⟨fills, hfills, rfl⟩ := (ih cs).1 hrest
          refine ⟨f :: fills, .cons (fill_ok_iff.1 hf) hfills, ?_⟩
          simpa [Except.map, joinedMarks] using h.symm
    · rintro ⟨fills, hfills, rfl⟩
      cases hfills with
      | cons hf hrest =>
        rw [fillAll_mark m ms (fill_of_fills hf), (ih _).2 ⟨_, hrest, rfl⟩]
        simp [Except.map, joinedMarks]

/-- The error of marks is that of the first one that is refused. -/
theorem fillAll_error_iff (ms : List Mark) (e : Error) :
    s.fillAll (markPieces ms) = .error e ↔
      ∃ before m after, ms = before ++ m :: after ∧ (∀ b ∈ before, ∃ f, Fills s b.content f) ∧
        Refuses s m.content e := by
  induction ms with
  | nil => simp [markPieces, fillAll]
  | cons m ms ih =>
    constructor
    · intro h
      cases hf : s.fill m.content with
      | error d =>
        obtain rfl : d = e := Except.error.inj ((fillAll_mark_error m ms hf).symm.trans h)
        exact ⟨[], m, ms, rfl, by simp, fill_error_iff.1 hf⟩
      | ok f =>
        rw [fillAll_mark m ms hf] at h
        have hrest : s.fillAll (markPieces ms) = .error e := by
          cases hrest : s.fillAll (markPieces ms) with
          | error d => rw [hrest] at h; simpa [Except.map] using h
          | ok cs => rw [hrest] at h; cases h
        obtain ⟨before, n, after, rfl, hbefore, hn⟩ := ih.1 hrest
        refine ⟨m :: before, n, after, rfl, ?_, hn⟩
        intro b hb
        rcases List.mem_cons.1 hb with rfl | hb
        · exact ⟨f, fill_ok_iff.1 hf⟩
        · exact hbefore b hb
    · rintro ⟨before, n, after, hms, hbefore, hn⟩
      cases before with
      | nil =>
        obtain ⟨rfl, rfl⟩ := List.cons.inj hms
        exact fillAll_mark_error _ _ (fill_of_refuses hn)
      | cons b before =>
        obtain ⟨rfl, rfl⟩ := List.cons.inj hms
        obtain ⟨f, hf⟩ := hbefore m (by simp)
        rw [fillAll_mark _ _ (fill_of_fills hf),
          ih.2 ⟨before, n, after, rfl, fun b hb => hbefore b (by simp [hb]), hn⟩]
        rfl

/-- Resolving a template in terms of its leftmost split. -/
theorem resolve_eq {t : String} {literal : List Char} {ms : List Mark} (h : Leftmost literal ms)
    (ht : t.toList = literal ++ marksText ms) :
    s.resolve t = (s.fillAll (markPieces ms)).map fun cs => String.ofList (literal ++ cs) := by
  have hpieces : pieces t.toList = literal.map .char ++ markPieces ms := by
    rw [ht, pieces_leftmost h]; rfl
  rw [resolve, hpieces, fillAll_literal]
  cases s.fillAll (markPieces ms) <;> rfl

/-- A placeholder alone becomes what its content does. -/
theorem resolve_written {content : List Char} (h : IsContent content) :
    s.resolve (String.ofList (written content)) = (s.fill content).map String.ofList := by
  have hleft : Leftmost [] [⟨content, []⟩] := ⟨Clear.nil _, h, Clear.nil _⟩
  have htext : (String.ofList (written content)).toList = [] ++ marksText [⟨content, []⟩] := by
    simp [marksText]
  have hpieces : markPieces [⟨content, []⟩] = [.placeholder content] := rfl
  rw [resolve_eq hleft htext, hpieces, fillAll]
  cases s.fill content <;> simp [fillAll, Except.map]

theorem perform_resolve (s : Store) (t : String) :
    s.perform (.resolve (.str t)) = ((s.resolve t).map .str, s) := by
  simp [perform, resolveGiven, resolveValue, Value.asText?]

/-- Some mark is refused exactly if a first one is, with all before it filled. -/
theorem refuses_first (s : Store) (ms : List Mark) :
    (∃ m ∈ ms, ∃ e, Refuses s m.content e) ↔ ∃ e, s.fillAll (markPieces ms) = .error e := by
  constructor
  · rintro ⟨m, hm, e, he⟩
    cases h : s.fillAll (markPieces ms) with
    | error d => exact ⟨d, rfl⟩
    | ok r =>
      -- if all were filled, this one would be filled and refused
      obtain ⟨fills, hfills, -⟩ := (fillAll_ok_iff ms r).1 h
      obtain ⟨f, -, hf⟩ : ∃ f ∈ fills, Fills s m.content f := by
        clear h
        induction hfills with
        | nil => cases hm
        | cons hf _ ih =>
          rcases List.mem_cons.1 hm with rfl | hm
          · exact ⟨_, List.mem_cons_self, hf⟩
          · obtain ⟨g, hg, hfills⟩ := ih hm
            exact ⟨g, List.mem_cons_of_mem _ hg, hfills⟩
      have := (fill_of_fills hf).symm.trans (fill_of_refuses he)
      cases this
  · rintro ⟨e, h⟩
    obtain ⟨before, m, after, rfl, -, hm⟩ := (fillAll_error_iff ms e).1 h
    exact ⟨m, by simp, e, hm⟩

/-- **Interpolation replaces the leftmost placeholders.** A text has exactly one leftmost split.
Resolving it gives the literal text with what fills each placeholder between it, or the error of
the first placeholder that is refused, and leaves the store as it is. -/
theorem resolve_leftmost (s : Store) (t : String) :
    ∃ literal ms, Leftmost literal ms ∧ t.toList = literal ++ marksText ms ∧
      (∀ literal' ms', Leftmost literal' ms' → t.toList = literal' ++ marksText ms' →
        literal' = literal ∧ ms' = ms) ∧
      (∀ v, (s.perform (.resolve (.str t))).1 = .ok v ↔
        ∃ fills, List.Forall₂ (fun m f => Fills s m.content f) ms fills ∧
          v = .str (String.ofList (literal ++ joinedMarks ms fills))) ∧
      (∀ e, (s.perform (.resolve (.str t))).1 = .error e ↔
        ∃ before m after, ms = before ++ m :: after ∧ (∀ b ∈ before, ∃ f, Fills s b.content f) ∧
          Refuses s m.content e) ∧
      ((∃ e, (s.perform (.resolve (.str t))).1 = .error e) ↔ ∃ m ∈ ms, ∃ e, Refuses s m.content e) ∧
      (s.perform (.resolve (.str t))).2 = s := by
  obtain ⟨literal, ms, hleft, ht⟩ := leftmost_exists _ t.toList le_rfl
  have hunique : ∀ literal' ms', Leftmost literal' ms' → t.toList = literal' ++ marksText ms' →
      literal' = literal ∧ ms' = ms := by
    intro literal' ms' hleft' ht'
    exact leftmost_unique hleft' hleft (ht'.symm.trans ht)
  have herror : ∀ e, (s.perform (.resolve (.str t))).1 = .error e ↔
      s.fillAll (markPieces ms) = .error e := by
    intro e
    rw [perform_resolve, resolve_eq hleft ht]
    cases s.fillAll (markPieces ms) <;> simp [Except.map]
  refine ⟨literal, ms, hleft, ht, hunique, ?_, ?_, ?_, ?_⟩
  · intro v
    rw [perform_resolve, resolve_eq hleft ht]
    constructor
    · intro h
      cases hr : s.fillAll (markPieces ms) with
      | error e => rw [hr] at h; cases h
      | ok r =>
        obtain ⟨fills, hfills, rfl⟩ := (fillAll_ok_iff ms r).1 hr
        rw [hr] at h
        exact ⟨fills, hfills, (Except.ok.inj h).symm⟩
    · rintro ⟨fills, hfills, rfl⟩
      rw [(fillAll_ok_iff ms _).2 ⟨fills, hfills, rfl⟩]
      rfl
  · intro e
    rw [herror]
    exact fillAll_error_iff ms e
  · rw [refuses_first]
    simp only [herror]
  · rw [perform_resolve]

end Store

end Runbook
