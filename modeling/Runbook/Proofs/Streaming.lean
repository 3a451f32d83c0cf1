import Runbook.Proofs.BlockDecoding
import Runbook.Proofs.RowReading
import Runbook.Proofs.StreamDecoding

/-!
# Streaming loses, duplicates and reorders nothing

A document is a text of objects, one after another or in one array, with white space around them.
Streamed in chunks of any size and read in batches of any size, it gives exactly its objects in
order, as parsing the whole text does, unless a chunk edge cuts an object inside a number, behind
more digits than an integer may have and before the fraction or exponent that makes it none. Such
an edge makes the reading fail.

* `Document`, `Document.IsCut`: documents, and the chunk sizes that cut them so.
* `gives_document`: the rows of a streamed document.
* `parse_array`: parsing an array of objects.
* `readAll_document`: all rows of a streamed document.
-/

namespace Runbook.Records

open Runbook.Text
open Runbook.Json (IsGap IsObject)

/-- The text of an object. -/
structure ObjectText where
  chars : List Char
  members : Entries
  parse_eq : Json.parse chars = .ok (.dict members)

/-- How the objects of a document stand in it. -/
inductive Layout
  | sequence
  | array
  deriving DecidableEq

namespace Layout

/-- What may stand in front of the first object. -/
def IsOpening : Layout → List Char → Prop
  | .sequence, cs => IsGap cs
  | .array, cs => ∃ before after, IsGap before ∧ IsGap after ∧ cs = before ++ '[' :: after

/-- What may stand between two objects. -/
def IsSeparator : Layout → List Char → Prop
  | .sequence, cs => IsGap cs
  | .array, cs => ∃ before after, IsGap before ∧ IsGap after ∧ cs = before ++ ',' :: after

/-- What may stand behind the last object. -/
def IsClosing : Layout → List Char → Prop
  | .sequence, cs => IsGap cs
  | .array, cs => ∃ before after, IsGap before ∧ IsGap after ∧ cs = before ++ ']' :: after

end Layout

/-- An object with what stands in front of it. -/
structure Part where
  front : List Char
  object : ObjectText

/-- The value of a part. -/
def Part.value (p : Part) : Value := .dict p.object.members

/-- The text of parts. -/
def partsText : List Part → List Char
  | [] => []
  | p :: ps => p.front ++ p.object.chars ++ partsText ps

/-- Parts and what stands behind them, as they are laid out. -/
def Layout.Fits (l : Layout) : List Part → List Char → Prop
  | [], closing => ∃ front back, l.IsOpening front ∧ l.IsClosing back ∧ closing = front ++ back
  | p :: ps, closing =>
    l.IsOpening p.front ∧ (∀ q ∈ ps, l.IsSeparator q.front) ∧ l.IsClosing closing

/-- **A document**: objects one after another, or the items of one array, with white space around
brackets, commas and objects. -/
structure Document where
  layout : Layout
  parts : List Part
  closing : List Char
  fits : layout.Fits parts closing

namespace Document

/-- The text of a document. -/
def text (d : Document) : List Char := partsText d.parts ++ d.closing

/-- The objects of a document. -/
def values (d : Document) : List Value := d.parts.map Part.value

/-- **A chunk edge cuts a number**: it falls inside an object, and what is read of the object up to
it cannot be parsed because of an integer with too many digits. -/
def IsCut (d : Document) (chunk : Nat) : Prop :=
  ∃ before p after part rest, d.parts = before ++ p :: after ∧ p.object.chars = part ++ rest ∧
    chunk ∣ (partsText before ++ p.front ++ part).length ∧
    ∃ k, Json.parse part = .error (.value (.integerTooLong k))

end Document

/-! ### Steps of the stream -/

namespace Stream

variable {chunk total : Nat} {s : Stream}

theorem At.advance (h : s.At chunk total) {c : Char} {rest : List Char}
    (hrem : s.remaining = c :: rest)
    (hne : s.ahead ≠ []) : s.advance.At chunk total ∧ s.advance.remaining = rest := by
  obtain ⟨d, ahead, hahead⟩ := List.exists_cons_of_ne_nil hne
  have hrest : s.advance.remaining = rest := by
    rw [remaining, hahead] at hrem
    rw [remaining, Stream.advance, hahead]
    exact (List.cons.inj hrem).2
  refine ⟨In.later (h.pass (s.ahead.drop 1) (by simp)) ?_, hrest⟩
  rw [hrest, hrem, List.length_cons]
  omega

/-- Peeking at a character behind white space. -/
theorem peek_char (c : Char) (rest : List Char) (h : s.At chunk total) (hchunk : 1 ≤ chunk)
    {gap : List Char} (hgap : IsGap gap) (hc : isBlank c = false)
    (hrem : s.remaining = gap ++ c :: rest) :
    ∃ t, s.peek = .ok (some c, t) ∧ t.At chunk total ∧ t.remaining = c :: rest ∧
      t.advance.At chunk total ∧ t.advance.remaining = rest := by
  obtain ⟨t, hpeek, hat, htrem, hahead, -⟩ := peek_spec h hchunk
  rw [hrem, dropWhile_gap hgap hc] at hpeek htrem
  have hne : t.ahead ≠ [] := by
    intro hnil
    rw [hahead hnil] at htrem
    cases htrem
  exact ⟨t, hpeek, hat, htrem, hat.advance htrem hne⟩

/-- Peeking at the end. -/
theorem peek_end (h : s.At chunk total) (hchunk : 1 ≤ chunk) (hrem : IsGap s.remaining) :
    ∃ t, s.peek = .ok (none, t) ∧ t.At chunk total ∧ t.remaining = [] := by
  obtain ⟨t, hpeek, hat, htrem, -⟩ := peek_spec h hchunk
  rw [List.dropWhile_eq_nil_iff.2 fun c hc => isBlank_of_isSpace (hrem c hc)] at hpeek htrem
  exact ⟨t, hpeek, hat, htrem⟩

/-- Peeking twice is peeking once. -/
theorem peek_peek {c : Char} {t : Stream} (h : s.At chunk total) (hchunk : 1 ≤ chunk)
    (hpeek : s.peek = .ok (some c, t)) : t.peek = .ok (some c, t) := by
  obtain ⟨u, hu, -, hrem, hahead, -⟩ := peek_spec h hchunk
  obtain ⟨hhead, rfl⟩ := Prod.mk.inj (Except.ok.inj (hu.symm.trans hpeek))
  have hblank : isBlank c = false := by
    have := List.head?_dropWhile_not isBlank s.remaining
    rw [hhead] at this
    simpa using this
  rw [← hrem] at hhead
  cases hcs : u.ahead with
  | nil =>
    rw [hahead hcs] at hhead
    cases hhead
  | cons d ahead =>
    obtain rfl : d = c := by
      rw [remaining, hcs] at hhead
      exact Option.some.inj hhead
    have hskip : u.skipBlanks = u := by
      rw [skipBlanks, hcs, List.dropWhile_cons_of_neg (by simp [hblank]), ← hcs]
    rw [peek, peekWith, hskip]
    simp only [hcs, List.head?_cons]

/-- Decoding peeks first. -/
theorem decode_peek {c : Char} {t : Stream} (h : s.At chunk total) (hchunk : 1 ≤ chunk)
    (hpeek : s.peek = .ok (some c, t)) : t.decode = s.decode := by
  rw [decode, decode, peek_peek h hchunk hpeek, hpeek]

end Stream

/-- A chunk edge cuts an object, which stands in front of `behind` at the end of a text, in a
number. -/
def CutsObject (chunk total : Nat) (object : ObjectText) (behind : List Char) : Prop :=
  ∃ part rest, object.chars = part ++ rest ∧
    chunk ∣ total - (object.chars ++ behind).length + part.length ∧
    ∃ k, Json.parse part = .error (.value (.integerTooLong k))

section Objects

variable {chunk total : Nat} {s : Stream} {gap behind : List Char} {object : ObjectText}

/-- **Decoding an object** of a document. -/
theorem decode_object (h : s.At chunk total) (hchunk : 1 ≤ chunk) (hgap : IsGap gap)
    (hrem : s.remaining = gap ++ object.chars ++ behind) :
    ((∃ t after, s.decode = .ok (.dict object.members, t) ∧ t.At chunk total ∧ IsGap after ∧
      t.remaining = after ++ behind) ∧ ¬ CutsObject chunk total object behind) ∨
    (∃ k, s.decode = .error (.value (.integerTooLong k))) ∧
      CutsObject chunk total object behind := by
  obtain ⟨before, core, after, hchars, hbefore, hafter, hcore⟩ :=
    Json.exists_object_of_parse object.parse_eq
  have hle := h.left_le
  -- only an edge between the braces cuts the text, so white space around them does not matter
  have hcut : CutsObject chunk total object behind ↔
      CutsNumber chunk (total - (core ++ (after ++ behind)).length) core := by
    rw [hrem] at hle
    simp only [hchars, List.length_append] at hle
    constructor
    · rintro ⟨part, rest, hpart, hdvd, hover⟩
      obtain ⟨inner, rest', rfl, hinner, hover⟩ :=
        (Json.parse_cut_iff hbefore hcore (hchars.symm.trans hpart)).1 hover
      refine ⟨inner, rest', hinner, ?_, hover⟩
      convert hdvd using 1
      simp only [hchars, List.length_append]
      omega
    · rintro ⟨inner, rest, hinner, hdvd, hover⟩
      have hpart : object.chars = (before ++ inner) ++ (rest ++ after) := by
        rw [hchars, hinner]
        simp
      refine ⟨before ++ inner, rest ++ after, hpart, ?_,
        (Json.parse_cut_iff hbefore hcore (hchars.symm.trans hpart)).2
          ⟨inner, rest, rfl, hinner, hover⟩⟩
      convert hdvd using 1
      simp only [hchars, List.length_append]
      omega
  have hrem' : s.remaining = gap ++ before ++ core ++ (after ++ behind) := by
    rw [hrem, hchars]
    simp
  rcases Stream.decode_spec hcore h hchunk (hgap.append hbefore) hrem' with
    ⟨⟨t, ht, hat, htrem, -⟩, hno⟩ | ⟨herror, hyes⟩
  · exact .inl ⟨⟨t, after, ht, hat, hafter, htrem⟩, fun hc => hno (hcut.1 hc)⟩
  · exact .inr ⟨herror, hcut.2 hyes⟩

theorem ObjectText.exists_brace (object : ObjectText) :
    ∃ before t, object.chars = before ++ '\x7b' :: t ∧ IsGap before := by
  obtain ⟨before, core, after, hchars, hbefore, -, hcore⟩ :=
    Json.exists_object_of_parse object.parse_eq
  obtain ⟨t, rfl⟩ := hcore.brace
  exact ⟨before, t ++ after, by rw [hchars]; simp, hbefore⟩

/-- Peeking at an object. -/
theorem peek_object (h : s.At chunk total) (hchunk : 1 ≤ chunk) (hgap : IsGap gap)
    (hrem : s.remaining = gap ++ object.chars ++ behind) :
    ∃ t, s.peek = .ok (some '\x7b', t) ∧ t.peek = .ok (some '\x7b', t) ∧ t.decode = s.decode := by
  obtain ⟨before, rest, hchars, hbefore⟩ := object.exists_brace
  obtain ⟨t, hpeek, -⟩ := Stream.peek_char '\x7b' (rest ++ behind) h hchunk
    (hgap.append hbefore) (by decide) (by rw [hrem, hchars]; simp)
  exact ⟨t, hpeek, Stream.peek_peek h hchunk hpeek, Stream.decode_peek h hchunk hpeek⟩

end Objects

namespace Layout

/-- Where a stream stands in front of an object. -/
def phaseBefore : Layout → Phase
  | .sequence => .sequence
  | .array => .item

/-- Where a stream stands behind an object. -/
def phaseBehind : Layout → Phase
  | .sequence => .sequence
  | .array => .separator

end Layout

/-- The next record is the object, with the cursor behind it, or the error of the chunk edge that
cuts it in a number. -/
def NextObject (l : Layout) (chunk total : Nat) (object : ObjectText) (behind : List Char)
    (next : Cursor.Next) : Prop :=
  ((∃ t gap, next = .ok (some (.dict object.members, .stream l.phaseBehind t)) ∧
    t.At chunk total ∧ IsGap gap ∧ t.remaining = gap ++ behind) ∧
      ¬ CutsObject chunk total object behind) ∨
  (∃ k, next = .error (.value (.integerTooLong k))) ∧ CutsObject chunk total object behind

namespace Cursor

variable {l : Layout} {chunk total : Nat} {s : Stream} {gap behind : List Char}
  {object : ObjectText}

/-- A stream in front of an object gives it. -/
theorem nextStreamed_object (fuel : Nat) (h : s.At chunk total) (hchunk : 1 ≤ chunk)
    (hgap : IsGap gap) (hrem : s.remaining = gap ++ object.chars ++ behind) :
    NextObject l chunk total object behind (nextStreamed (fuel + 1) l.phaseBefore s) := by
  obtain ⟨u, hpeek, -, hdecode⟩ := peek_object h hchunk hgap hrem
  rcases decode_object h hchunk hgap hrem with
    ⟨⟨t, after, ht, hat, hafter, htrem⟩, hno⟩ | ⟨⟨k, hk⟩, hyes⟩
  · refine .inl ⟨⟨t, after, ?_, hat, hafter, htrem⟩, hno⟩
    cases l with
    | sequence =>
      simp only [Layout.phaseBefore, Layout.phaseBehind, nextStreamed, hpeek, hdecode, ht]
    | array => simp only [Layout.phaseBefore, Layout.phaseBehind, nextStreamed, ht]
  · refine .inr ⟨⟨k, ?_⟩, hyes⟩
    cases l with
    | sequence => simp only [Layout.phaseBefore, nextStreamed, hpeek, hdecode, hk]
    | array => simp only [Layout.phaseBefore, nextStreamed, hk]

/-- A stream in front of a separator and an object gives the object. -/
theorem nextStreamed_separator (fuel : Nat) (h : s.At chunk total) (hchunk : 1 ≤ chunk)
    (hgap : IsGap gap) {front : List Char} (hfront : l.IsSeparator front)
    (hrem : s.remaining = gap ++ (front ++ object.chars ++ behind)) :
    NextObject l chunk total object behind (nextStreamed (fuel + 2) l.phaseBehind s) := by
  cases l with
  | sequence =>
    exact nextStreamed_object (l := .sequence) (fuel + 1) h hchunk (hgap.append hfront)
      (by rw [hrem]; simp)
  | array =>
    obtain ⟨before, after, hbefore, hafter, rfl⟩ := hfront
    obtain ⟨t, hpeek, -, -, hat, htrem⟩ := Stream.peek_char ',' (after ++ object.chars ++ behind)
      h hchunk (hgap.append hbefore) (by decide) (by rw [hrem]; simp)
    have hnext : nextStreamed (fuel + 2) Layout.array.phaseBehind s =
        nextStreamed (fuel + 1) Layout.array.phaseBefore t.advance := by
      simp only [Layout.phaseBehind, Layout.phaseBefore, nextStreamed, hpeek]
    rw [hnext]
    exact nextStreamed_object (l := .array) fuel hat hchunk hafter htrem

/-- A stream in front of the closing text gives nothing more. -/
theorem nextStreamed_closing (fuel : Nat) (h : s.At chunk total) (hchunk : 1 ≤ chunk)
    (hgap : IsGap gap) {closing : List Char} (hclosing : l.IsClosing closing)
    (hrem : s.remaining = gap ++ closing) :
    nextStreamed (fuel + 1) l.phaseBehind s = .ok none := by
  cases l with
  | sequence =>
    obtain ⟨t, hpeek, -⟩ := Stream.peek_end h hchunk (hrem ▸ hgap.append hclosing)
    simp only [Layout.phaseBehind, nextStreamed, hpeek]
  | array =>
    obtain ⟨before, after, hbefore, -, rfl⟩ := hclosing
    obtain ⟨t, hpeek, -⟩ := Stream.peek_char ']' after h hchunk
      (hgap.append hbefore) (by decide) (by rw [hrem]; simp)
    simp only [Layout.phaseBehind, nextStreamed, hpeek]

/-- A stream at the start of a document gives its first object. -/
theorem nextStreamed_start (fuel : Nat) (h : s.At chunk total) (hchunk : 1 ≤ chunk)
    {front : List Char} (hfront : l.IsOpening front)
    (hrem : s.remaining = front ++ object.chars ++ behind) :
    NextObject l chunk total object behind (nextStreamed (fuel + 2) .start s) := by
  cases l with
  | sequence =>
    obtain ⟨t, hpeek, hagain, hdecode⟩ := peek_object h hchunk hfront hrem
    have hnext : nextStreamed (fuel + 2) .start s =
        nextStreamed (fuel + 1) Layout.sequence.phaseBefore s := by
      simp [Layout.phaseBefore, nextStreamed, hpeek, hagain]
    rw [hnext]
    exact nextStreamed_object (l := .sequence) fuel h hchunk hfront hrem
  | array =>
    obtain ⟨before, after, hbefore, hafter, rfl⟩ := hfront
    obtain ⟨t, hpeek, -, -, hat, htrem⟩ := Stream.peek_char '[' (after ++ object.chars ++ behind)
      h hchunk hbefore (by decide) (by rw [hrem]; simp)
    obtain ⟨u, hpeek₂, -, hdecode⟩ := peek_object hat hchunk hafter htrem
    have hnext : nextStreamed (fuel + 2) .start s =
        nextStreamed (fuel + 1) Layout.array.phaseBefore t.advance := by
      simp [Layout.phaseBefore, nextStreamed, hpeek, hpeek₂, hdecode]
    rw [hnext]
    exact nextStreamed_object (l := .array) fuel hat hchunk hafter htrem

/-- A stream at the start of a document without objects gives nothing. -/
theorem nextStreamed_empty (fuel : Nat) (h : s.At chunk total) (hchunk : 1 ≤ chunk)
    {front closing : List Char} (hfront : l.IsOpening front) (hclosing : l.IsClosing closing)
    (hrem : s.remaining = front ++ closing) : nextStreamed (fuel + 2) .start s = .ok none := by
  cases l with
  | sequence =>
    obtain ⟨t, hpeek, hat, htrem⟩ :=
      Stream.peek_end h hchunk (hrem ▸ hfront.append hclosing)
    obtain ⟨u, hpeek₂, -⟩ := Stream.peek_end hat hchunk (htrem ▸ Json.isGap_nil)
    simp only [nextStreamed, hpeek, hpeek₂]
  | array =>
    obtain ⟨before, after, hbefore, hafter, rfl⟩ := hfront
    obtain ⟨before₂, after₂, hbefore₂, -, rfl⟩ := hclosing
    obtain ⟨t, hpeek, -, -, hat, htrem⟩ := Stream.peek_char '['
      (after ++ (before₂ ++ ']' :: after₂)) h hchunk hbefore (by decide) (by rw [hrem]; simp)
    obtain ⟨u, hpeek₂, -⟩ := Stream.peek_char ']' after₂ hat hchunk
      (hafter.append hbefore₂) (by decide) (by rw [htrem]; simp)
    simp only [nextStreamed, hpeek, hpeek₂]

end Cursor

/-! ### Whole documents -/

/-- A chunk edge cuts one of the objects at the end of a text in a number. -/
def CutsParts (chunk total : Nat) (parts : List Part) (closing : List Char) : Prop :=
  ∃ before p after, parts = before ++ p :: after ∧
    CutsObject chunk total p.object (partsText after ++ closing)

/-- A cursor gives all objects of parts, or fails because one of them is cut. -/
def GivesParts (chunk total : Nat) (parts : List Part) (closing : List Char) (c : Cursor) : Prop :=
  (Gives [] c (parts.map Part.value) none ∧ ¬ CutsParts chunk total parts closing) ∨
  (∃ rows k, rows.length ≤ parts.length ∧
    Gives [] c rows (some (.value (.integerTooLong k)))) ∧ CutsParts chunk total parts closing

section Run

variable {l : Layout} {chunk total : Nat} {p : Part} {ps : List Part} {closing : List Char}

theorem not_cutsParts_nil : ¬ CutsParts chunk total [] closing := by
  rintro ⟨before, p, after, hparts, -⟩
  simp at hparts

theorem cutsParts_cons : CutsParts chunk total (p :: ps) closing ↔
    CutsObject chunk total p.object (partsText ps ++ closing) ∨
        CutsParts chunk total ps closing := by
  constructor
  · rintro ⟨before, q, after, hparts, hcut⟩
    cases before with
    | nil =>
      obtain ⟨rfl, rfl⟩ := List.cons.inj hparts
      exact .inl hcut
    | cons b before => exact .inr ⟨before, q, after, (List.cons.inj hparts).2, hcut⟩
  · rintro (hcut | ⟨before, q, after, rfl, hcut⟩)
    · exact ⟨[], p, ps, rfl, hcut⟩
    · exact ⟨p :: before, q, after, rfl, hcut⟩

/-- The first object and the others make all of them. -/
theorem givesParts_cons {c : Cursor}
    (hnext : NextObject l chunk total p.object (partsText ps ++ closing) c.next)
    (hrest : ∀ t gap, t.At chunk total → IsGap gap →
      t.remaining = gap ++ (partsText ps ++ closing) →
        GivesParts chunk total ps closing (.stream l.phaseBehind t)) :
    GivesParts chunk total (p :: ps) closing c := by
  rcases hnext with ⟨⟨t, gap, hnext, hat, hgap, hrem⟩, hno⟩ | ⟨⟨k, hk⟩, hyes⟩
  · rcases hrest t gap hat hgap hrem with ⟨hgives, hclear⟩ | ⟨⟨rows, k, hlen, hgives⟩, hcut⟩
    · refine .inl ⟨.more hnext rfl hgives, fun hcut => ?_⟩
      rcases cutsParts_cons.1 hcut with hcut | hcut
      · exact hno hcut
      · exact hclear hcut
    · refine .inr ⟨⟨p.value :: rows, k, ?_, .more hnext rfl hgives⟩, cutsParts_cons.2 (.inr hcut)⟩
      rw [List.length_cons, List.length_cons]
      omega
  · exact .inr ⟨⟨[], k, Nat.zero_le _, .failed hk⟩, cutsParts_cons.2 (.inl hyes)⟩

/-- **The run behind an object**: the other objects, up to the closing text. -/
theorem gives_parts (hchunk : 1 ≤ chunk) {s : Stream} {gap : List Char} (h : s.At chunk total)
    (hgap : IsGap gap) (hps : ∀ q ∈ ps, l.IsSeparator q.front) (hclosing : l.IsClosing closing)
    (hrem : s.remaining = gap ++ (partsText ps ++ closing)) :
    GivesParts chunk total ps closing (.stream l.phaseBehind s) := by
  induction ps generalizing s gap with
  | nil =>
    refine .inl ⟨.done ?_, not_cutsParts_nil⟩
    exact Cursor.nextStreamed_closing _ h hchunk hgap hclosing hrem
  | cons p ps ih =>
    refine givesParts_cons (l := l) ?_ fun t after hat hafter htrem =>
      ih hat hafter (fun q hq => hps q (List.mem_cons_of_mem _ hq)) htrem
    refine Cursor.nextStreamed_separator (2 * s.left + 1) h hchunk hgap
      (hps p List.mem_cons_self) ?_
    rw [hrem, partsText, List.append_assoc]

end Run

namespace Document

variable (d : Document) {chunk : Nat}

/-- **The run of a document**: all of its objects. -/
theorem gives_document (hchunk : 1 ≤ chunk) {s : Stream} (h : s.At chunk d.text.length)
    (hrem : s.remaining = d.text) :
    GivesParts chunk d.text.length d.parts d.closing (.stream .start s) := by
  obtain ⟨layout, parts, closing, hfits⟩ := d
  cases parts with
  | nil =>
    obtain ⟨front, back, hfront, hback, rfl⟩ := hfits
    refine .inl ⟨.done ?_, not_cutsParts_nil⟩
    exact Cursor.nextStreamed_empty (2 * s.left + 1) h hchunk hfront hback hrem
  | cons p ps =>
    obtain ⟨hfront, hps, hclosing⟩ := hfits
    refine givesParts_cons (l := layout) ?_ fun t after hat hafter htrem =>
      gives_parts hchunk hat hafter hps hclosing htrem
    refine Cursor.nextStreamed_start (2 * s.left + 1) h hchunk hfront ?_
    rw [hrem, text, partsText, List.append_assoc]

theorem partsText_append (ps qs : List Part) :
    partsText (ps ++ qs) = partsText ps ++ partsText qs := by
  induction ps with
  | nil => rfl
  | cons p ps ih => rw [List.cons_append, partsText, ih, partsText]; simp

/-- Where an object is cut, counted from the beginning and from the end of the text. -/
theorem isCut_iff : d.IsCut chunk ↔ CutsParts chunk d.text.length d.parts d.closing := by
  -- an object's end is as far from the end of the text as what stands behind it is long
  have hposition : ∀ before p after, d.parts = before ++ p :: after → ∀ part : List Char,
      d.text.length - (p.object.chars ++ (partsText after ++ d.closing)).length + part.length =
        (partsText before ++ p.front ++ part).length := by
    intro before p after hparts part
    rw [text, hparts, partsText_append, partsText]
    simp only [List.length_append]
    omega
  constructor
  · rintro ⟨before, p, after, part, rest, hparts, hpart, hdvd, hover⟩
    exact ⟨before, p, after, hparts, part, rest, hpart,
      by rwa [hposition before p after hparts part], hover⟩
  · rintro ⟨before, p, after, hparts, part, rest, hpart, hdvd, hover⟩
    exact ⟨before, p, after, part, rest, hparts, hpart,
      by rwa [hposition before p after hparts part] at hdvd, hover⟩

/-- A document is no shorter than the number of its objects. -/
theorem length_parts_le : d.parts.length ≤ d.text.length := by
  have hparts : ∀ ps : List Part, ps.length ≤ (partsText ps).length := by
    intro ps
    induction ps with
    | nil => simp
    | cons p ps ih =>
      obtain ⟨before, t, hchars, -⟩ := p.object.exists_brace
      rw [partsText, hchars]
      simp only [List.length_cons, List.length_append]
      omega
  have := hparts d.parts
  rw [text, List.length_append]
  omega

/-! ### Parsing the whole text of an array -/

/-- The items of an array are its objects, as long as there is fuel for its text. -/
theorem readItemsWith_parts {p : Part} {ps : List Part} {closing gap : List Char} (fuel : Nat)
    (hgap : IsGap gap) (hps : ∀ q ∈ ps, Layout.array.IsSeparator q.front)
    (hclosing : Layout.array.IsClosing closing)
    (hfuel : (p.object.chars ++ (partsText ps ++ closing)).length ≤ fuel) :
    ∃ tail, IsGap tail ∧
      Json.readItemsWith fuel
          (Json.skipSpace (gap ++ p.object.chars ++ (partsText ps ++ closing))) =
        .ok ((p :: ps).map Part.value, tail) := by
  induction ps generalizing p gap fuel with
  | nil =>
    obtain ⟨before, core, after, hchars, hbefore, hafter, hcore⟩ :=
      Json.exists_object_of_parse p.object.parse_eq
    obtain ⟨before₂, after₂, hbefore₂, hafter₂, rfl⟩ := hclosing
    obtain ⟨fuel, rfl⟩ : ∃ k, fuel = k + 1 := ⟨fuel - 1, by simp at hfuel; omega⟩
    simp only [partsText, hchars, List.length_append, List.length_cons, List.length_nil] at hfuel
    have happ : gap ++ p.object.chars ++ (partsText [] ++ (before₂ ++ ']' :: after₂)) =
        (gap ++ before) ++ core ++ ((after ++ before₂) ++ ']' :: after₂) := by
      simp [hchars, partsText]
    refine ⟨after₂, hafter₂, ?_⟩
    rw [happ, hcore.skipSpace_eq (hgap.append hbefore)]
    exact Json.readItemsWith_last (hcore.reads fuel _ (by omega))
      (Json.skipSpace_gap_cons (hafter.append hbefore₂) (by decide) _)
  | cons q ps ih =>
    obtain ⟨before, core, after, hchars, hbefore, hafter, hcore⟩ :=
      Json.exists_object_of_parse p.object.parse_eq
    obtain ⟨before₂, after₂, hbefore₂, hafter₂, hfront⟩ := hps q List.mem_cons_self
    obtain ⟨fuel, rfl⟩ : ∃ k, fuel = k + 1 :=
      ⟨fuel - 1, by simp [partsText, hfront] at hfuel; omega⟩
    simp only [partsText, hchars, hfront, List.length_append, List.length_cons] at hfuel
    have happ : gap ++ p.object.chars ++ (partsText (q :: ps) ++ closing) =
        (gap ++ before) ++ core ++ ((after ++ before₂) ++
          ',' :: (after₂ ++ q.object.chars ++ (partsText ps ++ closing))) := by
      simp [hchars, partsText, hfront]
    obtain ⟨tail, htail, hitems⟩ := ih fuel hafter₂
      (fun r hr => hps r (List.mem_cons_of_mem _ hr)) (p := q)
      (by simp only [List.length_append]; omega)
    refine ⟨tail, htail, ?_⟩
    rw [happ, hcore.skipSpace_eq (hgap.append hbefore)]
    exact Json.readItemsWith_more (hcore.reads fuel _ (by omega))
      (Json.skipSpace_gap_cons (hafter.append hbefore₂) (by decide) _) hitems

/-- **Parsing an array of objects** gives them. -/
theorem parse_array (harray : d.layout = .array) : Json.parse d.text = .ok (.list d.values) := by
  obtain ⟨layout, parts, closing, hfits⟩ := d
  obtain rfl : layout = .array := harray
  cases parts with
  | nil =>
    obtain ⟨front, back, ⟨before, after, hbefore, hafter, rfl⟩,
      ⟨before₂, after₂, hbefore₂, hafter₂, rfl⟩, rfl⟩ := hfits
    have htext : partsText [] ++ (before ++ '[' :: after ++ (before₂ ++ ']' :: after₂)) =
        before ++ '[' :: ((after ++ before₂) ++ ']' :: after₂) := by
      simp [partsText]
    rw [text, htext]
    refine Json.parse_of_readValue before after₂ hbefore (by decide) (by decide) ?_ hafter₂
    exact Json.readValueWith_emptyList
      (Json.skipSpace_gap_cons (hafter.append hbefore₂) (by decide) _)
  | cons p ps =>
    obtain ⟨⟨before, after, hbefore, hafter, hfront⟩, hps, hclosing⟩ := hfits
    have htext : partsText (p :: ps) ++ closing =
        before ++ '[' :: (after ++ p.object.chars ++ (partsText ps ++ closing)) := by
      simp [partsText, hfront]
    rw [text, htext]
    obtain ⟨tail, htail, hitems⟩ := readItemsWith_parts (p := p)
      (2 * ('[' :: (after ++ p.object.chars ++ (partsText ps ++ closing))).length + 1)
      hafter hps hclosing (by simp only [List.length_cons, List.length_append]; omega)
    refine Json.parse_of_readValue before tail hbefore (by decide) (by decide) ?_ htail
    refine Json.readValueWith_list (fun t ht => ?_) hitems
    -- what follows the opening bracket is a brace, not the closing bracket
    obtain ⟨before₂, u, hchars, hbefore₂⟩ := p.object.exists_brace
    have hbrace : after ++ p.object.chars ++ (partsText ps ++ closing) =
        (after ++ before₂) ++ '\x7b' :: (u ++ (partsText ps ++ closing)) := by
      simp [hchars]
    rw [hbrace, Json.skipSpace_gap_cons (hafter.append hbefore₂) (by decide)] at ht
    cases (List.cons.inj ht).1

end Document

/-! ### Reading a document from a file -/

namespace Reader

/-- A reader that streams the records of a file as they are. -/
def streaming (file : Location) (chunk : Nat) : Reader :=
  .ofSettings ⟨file, false, none, []⟩ chunk

/-- A file without faults is a source of its text. -/
theorem exists_content {files : FileTree} {file : Location} {cs : List Char}
    (hfile : files.readText file = .ok cs) :
    ∃ c, files.read file = .ok c ∧ ∀ request, Source.ofContent request c = ⟨cs, none⟩ := by
  unfold FileTree.readText at hfile
  split at hfile
  · cases hfile
  · rename_i c hread
    split at hfile
    · rename_i chars hdecode
      refine ⟨c, hread, ?_⟩
      intro request
      rw [Source.ofContent_eq hdecode request, Except.ok.inj hfile]
    · cases hfile

/-- A reader without a path starts with a stream of the text of a file without faults. -/
theorem start_streaming {files : FileTree} {file : Location} {cs : List Char} (columns : List Value)
    (chunk : Nat) (hfile : files.readText file = .ok cs) :
    (ofSettings ⟨file, false, none, columns⟩ chunk).start files =
      .ok (.stream .start (.ofSource file.text chunk ⟨cs, none⟩)) := by
  obtain ⟨c, hread, hsource⟩ := exists_content hfile
  simp [start, ofSettings, hread, Except.map, hsource]

/-- Opening a file without faults begins a stream of its text. -/
theorem openFile_streaming {files : FileTree} {file : Location} {cs : List Char} (chunk : Nat)
    (hfile : files.readText file = .ok cs) :
    ∃ r, (streaming file chunk).openFile files = .ok r ∧ r.columns = [] ∧
      r.cursor = some (.stream .start (.ofSource file.text chunk ⟨cs, none⟩)) := by
  have hstart : (streaming file chunk).start files =
      .ok (.stream .start (.ofSource file.text chunk ⟨cs, none⟩)) := start_streaming [] chunk hfile
  refine ⟨{ streaming file chunk with
    cursor := some (.stream .start (.ofSource file.text chunk ⟨cs, none⟩)) }, ?_, rfl, rfl⟩
  rw [openFile, hstart]
  rfl

end Reader

theorem Stream.ofSource_at (name : String) (chunk : Nat) (cs : List Char) :
    (Stream.ofSource name chunk ⟨cs, none⟩).At chunk cs.length where
  chunk_eq := rfl
  healthy := rfl
  left_le := le_rfl
  edge := fun _ => by simp [Stream.ofSource]
  near := fun e _ _ => by simp [Stream.ofSource]

namespace Document

variable {d : Document} {files : FileTree} {file : Location} {chunk : Nat}

/-- The outcome of reading a document from a file. -/
theorem readAll_outcome (size : Int) (hchunk : 1 ≤ chunk)
    (hfile : files.readText file = .ok d.text) :
    ∃ r, (Reader.streaming file chunk).openFile files = .ok r ∧
      (((r.readAll size).1 = .ok d.values ∧ ¬ d.IsCut chunk) ∨
        (∃ k, (r.readAll size).1 = .error (.value (.integerTooLong k))) ∧ d.IsCut chunk) := by
  have hlen := d.length_parts_le
  have hbound : (Cursor.stream .start (.ofSource file.text chunk ⟨d.text, none⟩)).bound =
      d.text.length := by
    simp [Cursor.bound, Stream.left, Stream.ofSource]
  obtain ⟨r, hopen, hcolumns, hcursor⟩ := Reader.openFile_streaming chunk hfile
  refine ⟨r, hopen, ?_⟩
  rw [isCut_iff]
  rcases d.gives_document hchunk (Stream.ofSource_at file.text chunk d.text) rfl with
    ⟨hgives, hno⟩ | ⟨⟨rows, k, hrows, hgives⟩, hyes⟩
  · rw [← hcolumns] at hgives
    have hread := Reader.readAll_gives size r hcursor hgives (by
      rw [hbound, List.length_map]
      exact hlen)
    exact .inl ⟨hread, hno⟩
  · rw [← hcolumns] at hgives
    have hread := Reader.readAll_gives size r hcursor hgives (by
      rw [hbound]
      omega)
    exact .inr ⟨⟨k, hread⟩, hyes⟩

/-- **Documents without overlong rows of digits are not cut**, whatever the chunk size. -/
theorem not_isCut (h : ∀ before ds after, d.text = before ++ ds ++ after →
    (∀ c ∈ ds, isAsciiDigit c = true) → ds.length ≤ maxIntegerDigits) : ¬ d.IsCut chunk := by
  rintro ⟨before, p, after, part, rest, hparts, hpart, -, k, hk⟩
  obtain ⟨front, ds, back, hds, hdigits, hlong, -⟩ :=
    Json.hasLongInteger_of_skipSpace (Json.overlong_of_parse hk).hasLongInteger
  have hshort := h (partsText before ++ p.front ++ front) ds
    (back ++ rest ++ (partsText after ++ d.closing)) (by
      rw [text, hparts, partsText_append, partsText, hpart, hds]
      simp) hdigits
  omega

/-- **Streaming a document** with any chunk size and any batch size gives exactly its objects in
order, which are also what its text parses to if it is an array. This holds exactly if no chunk edge
cuts a number; if one does, reading fails because of an integer that is none. -/
theorem readAll_document (size : Int) (hchunk : 1 ≤ chunk)
    (hfile : files.readText file = .ok d.text) :
    ∃ r, (Reader.streaming file chunk).openFile files = .ok r ∧
      ((r.readAll size).1 = .ok d.values ↔ ¬ d.IsCut chunk) ∧
      (d.IsCut chunk → ∃ k, (r.readAll size).1 = .error (.value (.integerTooLong k))) ∧
      (d.layout = .array → Json.parse d.text = .ok (.list d.values)) := by
  obtain ⟨r, hopen, hread⟩ := readAll_outcome size hchunk hfile
  refine ⟨r, hopen, ?_, fun hcut => ?_, d.parse_array⟩
  · rcases hread with ⟨hok, hno⟩ | ⟨⟨k, hk⟩, hyes⟩
    · exact ⟨fun _ => hno, fun _ => hok⟩
    · refine ⟨fun hok => ?_, fun hno => absurd hyes hno⟩
      rw [hk] at hok
      cases hok
  · rcases hread with ⟨-, hno⟩ | ⟨herror, -⟩
    · exact absurd hcut hno
    · exact herror

/-! ### Two documents in a file -/

/-- The only file of a tree. -/
def soleFile : Location := ⟨"", ["data.json"]⟩

/-- A tree with one file, which holds a text. -/
def soleTree (cs : List Char) : FileTree := ⟨[], [(soleFile.way, .text cs)]⟩

/-- What has no carriage return in it stays in front of what is unified. -/
theorem unifyLines_append {cs : List Char} (h : '\r' ∉ cs) (rest : List Char) :
    unifyLines (cs ++ rest) = cs ++ unifyLines rest := by
  induction cs with
  | nil => rfl
  | cons c cs ih =>
    have hc : c ≠ '\r' := fun he => h (by simp [he])
    rw [List.cons_append, unifyLines, ih fun hmem => h (List.mem_cons_of_mem _ hmem)]
    · rfl
    · exact fun _ he => absurd he hc
    · exact hc

theorem unifyLines_eq_self {cs : List Char} (h : '\r' ∉ cs) : unifyLines cs = cs := by
  have happend := unifyLines_append h []
  rwa [List.append_nil, unifyLines, List.append_nil] at happend

theorem readText_soleTree {cs : List Char} (h : '\r' ∉ cs) :
    (soleTree cs).readText soleFile = .ok cs := by
  have hread : (soleTree cs).read soleFile = .ok (.text cs) := rfl
  simp only [FileTree.readText, hread, FileContent.decode, unifyLines_eq_self h]

section Fields

variable {cs rest : List Char} {v : Value} {e : Json.ReadFault}

theorem readString_name (cs : List Char) : Json.readString ('a' :: '"' :: cs) = .ok ("a", cs) := by
  have hquote : ∀ opening, Json.readPoints opening ('"' :: cs) = .ok ([], cs) := by
    intro opening
    rw [Json.readPoints.eq_def]
    rfl
  have hpoints : ∀ opening, Json.readPoints opening ('a' :: '"' :: cs) = .ok ([97], cs) := by
    intro opening
    rw [Json.readPoints.eq_def]
    simp [hquote, Json.consPoint]
  rw [Json.readString, hpoints]
  rfl

/-- The fuel for the text of an object of one number, as calls. -/
theorem readValue_fieldText (cs : List Char) :
    Json.readValue ("\x7b\"a\":".toList ++ '1' :: cs) =
      Json.readValueWith (2 * cs.length + 11 + 1 + 1 + 1)
        ('\x7b' :: '"' :: 'a' :: '"' :: ':' :: '1' :: cs) := by
  have htext :
      "\x7b\"a\":".toList ++ '1' :: cs = '\x7b' :: '"' :: 'a' :: '"' :: ':' :: '1' :: cs := rfl
  rw [htext, Json.readValue]
  congr 1

theorem skipSpace_brace : Json.skipSpace ['\x7d'] = ['\x7d'] := rfl

/-- An object of one number is read as the number is. -/
theorem readValue_field (h : Json.readScalar ('1' :: cs) = .ok (v, ['\x7d'])) :
    Json.readValue ("\x7b\"a\":".toList ++ '1' :: cs) = .ok (.dict [(.str "a", v)], []) := by
  rw [readValue_fieldText]
  have hskip := Json.skipSpace_cons (show Json.isSpace '"' = false by decide)
    ('a' :: '"' :: ':' :: '1' :: cs)
  have hvalue : Json.readValueWith (2 * cs.length + 11 + 1) (Json.skipSpace ('1' :: cs)) =
      .ok (v, ['\x7d']) := by
    rw [Json.skipSpace_cons (by decide),
      Json.readValueWith_scalar (Json.beginsScalar_digit (by decide))]
    exact h
  have hmembers := Json.readMembersWith_last (readString_name (':' :: '1' :: cs))
    (Json.skipSpace_cons (by decide) _) hvalue skipSpace_brace
  rw [← hskip] at hmembers
  refine Json.readValueWith_dict (fun t ht => ?_) hmembers
  rw [hskip] at ht
  cases (List.cons.inj ht).1

theorem parse_field (h : Json.readScalar ('1' :: cs) = .ok (v, ['\x7d'])) :
    Json.parse ("\x7b\"a\":".toList ++ '1' :: cs) = .ok (.dict [(.str "a", v)]) :=
  Json.parse_of_readValue [] [] Json.isGap_nil (by decide) (by decide) (readValue_field h)
    Json.isGap_nil

theorem readValue_field_error (h : Json.readScalar ('1' :: cs) = .error e) :
    Json.readValue ("\x7b\"a\":".toList ++ '1' :: cs) = .error e := by
  have hvalue : ∀ fuel, Json.readValueWith (fuel + 1) ('1' :: cs) = .error e := by
    intro fuel
    rw [Json.readValueWith_scalar (Json.beginsScalar_digit (by decide))]
    exact h
  have hmembers : ∀ fuel,
      Json.readMembersWith (fuel + 1 + 1) ('"' :: 'a' :: '"' :: ':' :: '1' :: cs) = .error e := by
    intro fuel
    simp only [Json.readMembersWith, readString_name, Json.skipSpace_cons (c := ':') (by decide),
      Json.skipSpace_cons (c := '1') (by decide), hvalue]
  rw [readValue_fieldText, Json.readValueWith, Json.skipSpace_cons (by decide)]
  simp [hmembers]

theorem readWhole?_ones (digits : Nat) {u : List Char} (hu : Json.NoDigit u) :
    Json.readWhole? ('1' :: (List.replicate digits '1' ++ u)) =
      some ('1' :: List.replicate digits '1', u) := by
  have hones : ∀ c ∈ '1' :: List.replicate digits '1', isAsciiDigit c = true := by
    intro c hc
    rw [← List.replicate_succ] at hc
    rw [(List.mem_replicate.1 hc).2]
    rfl
  have hspan := Json.spanDigits_append hones hu
  rw [Json.readWhole?, if_pos (by decide)]
  · exact congrArg some hspan
  · decide

/-- The number of so many digits and one more with an exponent. -/
def longValue (digits : Nat) : Value :=
  .float (.ofDecimal false (natOfDigits ('1' :: List.replicate digits '1')) (-4300))

/-- Digits with an exponent behind them are no integer. -/
theorem readScalar_exponent (digits : Nat) : Json.readScalar
    ('1' :: (List.replicate digits '1' ++ "e-4300\x7d".toList)) =
      .ok (longValue digits, ['\x7d']) := by
  have hend : Json.NoDigit "e-4300\x7d".toList := by
    rintro c t hc
    rw [← (List.cons.inj hc).1]
    rfl
  have hfraction : Json.readFraction "e-4300\x7d".toList = (none, "e-4300\x7d".toList) := rfl
  have hpower : Json.readPower "e-4300\x7d".toList = (some (-4300), ['\x7d']) := rfl
  rw [Json.readScalar_positive (by decide), Json.readNumber, readWhole?_ones digits hend]
  simp only [hfraction, hpower]
  simp [Json.numberValue, longValue]

/-- So many digits and one more are too many for an integer. -/
theorem readScalar_digits {digits : Nat} (h : maxIntegerDigits ≤ digits) :
    Json.readScalar ('1' :: List.replicate digits '1') = .error (.tooManyDigits (digits + 1)) := by
  have hones := readWhole?_ones digits (u := []) (fun c t hc => by cases hc)
  rw [List.append_nil] at hones
  have hlong : maxIntegerDigits < digits + 1 := by omega
  rw [Json.readScalar_positive (by decide), Json.readNumber, hones]
  simp only [Json.readFraction, Json.readPower, Json.numberValue]
  simp [hlong]

end Fields

/-- An array of two objects, one of them empty. -/
def pair : Document where
  layout := .array
  parts := [⟨['['], ⟨"\x7b\"a\":1\x7d".toList, [(.str "a", .int 1)], parse_field rfl⟩⟩,
    ⟨[',', ' '], ⟨"\x7b\x7d".toList, [], rfl⟩⟩]
  closing := [']']
  fits := by
    refine ⟨⟨[], [], Json.isGap_nil, Json.isGap_nil, rfl⟩, ?_,
      ⟨[], [], Json.isGap_nil, Json.isGap_nil, rfl⟩⟩
    intro q hq
    obtain rfl := List.mem_singleton.1 hq
    exact ⟨[], [' '], Json.isGap_nil, by simp [IsGap, Json.isSpace], rfl⟩

theorem readAll_pair :
    ∃ r, (Reader.streaming soleFile 1).openFile (soleTree pair.text) = .ok r ∧
      (r.readAll 1).1 = .ok [.dict [(.str "a", .int 1)], .dict []] := by
  have hfile : (soleTree pair.text).readText soleFile = .ok pair.text :=
    readText_soleTree (by decide)
  obtain ⟨r, hopen, hread, -⟩ := readAll_document 1 (Nat.le_refl 1) hfile
  refine ⟨r, hopen, hread.2 (not_isCut fun before ds after htext _ => ?_)⟩
  have hlen := congrArg List.length htext
  have hpair : pair.text.length = 13 := by decide
  simp only [List.length_append] at hlen
  rw [maxIntegerDigits]
  omega

/-- The text of an object of one number, of so many digits and one more with an exponent. -/
def longText (digits : Nat) : List Char :=
  "\x7b\"a\":".toList ++ '1' :: (List.replicate digits '1' ++ "e-4300\x7d".toList)

theorem parse_longText (digits : Nat) :
    Json.parse (longText digits) = .ok (.dict [(.str "a", longValue digits)]) :=
  parse_field (readScalar_exponent digits)

theorem not_mem_longText (digits : Nat) : '\r' ∉ longText digits := by
  simp [longText]

/-- A document of one such object. -/
def longDocument (digits : Nat) : Document where
  layout := .sequence
  parts := [⟨[], ⟨longText digits, [(.str "a", longValue digits)], parse_longText digits⟩⟩]
  closing := []
  fits := ⟨Json.isGap_nil, by simp, Json.isGap_nil⟩

/-- A chunk edge between the digits and the exponent cuts the document. -/
theorem isCut_longDocument {digits : Nat} (h : maxIntegerDigits ≤ digits) :
    (longDocument digits).IsCut (digits + 6) := by
  have hover : Json.Overlong (Json.skipSpace
      ("\x7b\"a\":".toList ++ '1' :: List.replicate digits '1')) :=
    ⟨digits + 1, readValue_field_error (readScalar_digits h)⟩
  refine ⟨[], _, [], "\x7b\"a\":".toList ++ '1' :: List.replicate digits '1',
    "e-4300\x7d".toList, rfl, ?_, ?_, Json.parse_of_overlong (fun t ht => ?_) hover⟩
  · simp [longText]
  · simp [partsText]
  · cases (List.cons.inj ht).1

/-- **A number that a chunk edge cuts is lost**, though the text of its object can be parsed. -/
theorem readAll_longDocument :
    (soleTree (longText 4300)).readText soleFile = .ok (longText 4300) ∧
      Json.parse (longText 4300) = .ok (.dict [(.str "a", longValue 4300)]) ∧
      ∃ r, (Reader.streaming soleFile 4306).openFile (soleTree (longText 4300)) = .ok r ∧
        ∃ k, (r.readAll 1000).1 = .error (.value (.integerTooLong k)) := by
  have hfile := readText_soleTree (not_mem_longText 4300)
  have htext : (longDocument 4300).text = longText 4300 := by
    simp only [text, longDocument, partsText, List.nil_append, List.append_nil]
  refine ⟨hfile, parse_longText 4300, ?_⟩
  obtain ⟨r, hopen, hread⟩ := readAll_outcome 1000 (show 1 ≤ 4306 by decide)
    (hfile.trans (congrArg _ htext.symm))
  refine ⟨r, hopen, ?_⟩
  rcases hread with ⟨-, hno⟩ | ⟨herror, -⟩
  · exact absurd (isCut_longDocument (show maxIntegerDigits ≤ 4300 by decide)) hno
  · exact herror

end Document

end Runbook.Records
