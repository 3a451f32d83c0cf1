import Runbook.Proofs.ChunkSizes
import Runbook.Proofs.JsonGrammar
import Runbook.Proofs.RecordSequences

/-!
# The calls on a stream

Reading records off a stream comes to a sequence of three calls: looking at the next character,
passing over it, and decoding a value. Each call takes some text off the front of what is to come:
blanks, one character, or blanks and the text of a value. Chunks that are read in between change
where the buffer begins, and never what is to come.

* `Point`, `Point.act`: the reading as a flow of control, with the call it makes at each point.
* `Step`, `Trace`, `Stops`: one call, calls one after another, and how the reading ends.
* `Consumes`, `Step.consumes`: **what a call takes off the text.**
* `Trace.measure`: every call makes a number smaller that the text bounds.
* `next_follows`, `Yields.follows`: the records of a stream are read by such calls.
* `Trace.goes_on`: there is one reading, of which all calls are a part.
* `reading_conserves`: **no text is dropped or repeated, and reading ends.**
-/

namespace Runbook.Records

open Runbook.Text

/-! ### Points and calls -/

/-- What is done at a point of the reading, and where it goes on. -/
inductive Act (P : Type)
  | peek (next : Option Char → P)
  | advance (c : Char) (next : P)
  | decode (next : P)
  | stop

/-- Where the reading of a stream stands: at its start, at the bracket of an array and behind it, at
an item, behind one and at the comma, at the head of the loop over values and at a value, at the
end, and where no separator was found. -/
inductive Point
  | start
  | opening
  | first
  | item
  | separator
  | comma
  | sequence
  | value
  | done
  | refused
  deriving DecidableEq, Repr

namespace Point

/-- **The flow of control** of the reading. -/
def act : Point → Act Point
  | start => .peek fun found => if found = some '[' then opening else sequence
  | opening => .advance '[' first
  | first => .peek fun found => if found = some ']' then done else item
  | item => .decode separator
  | separator => .peek fun found =>
    if found = some ']' then done else if found = some ',' then comma else refused
  | comma => .advance ',' item
  | sequence => .peek fun found => if found = none then done else value
  | value => .decode sequence
  | done => .stop
  | refused => .stop

/-- How many calls there may be at most before a character is passed over. -/
def rank : Point → Nat
  | start => 2
  | first => 1
  | separator => 1
  | sequence => 1
  | _ => 0

variable {p q : Point} {next : Option Char → Point} {c : Char} {found : Option Char}

theorem rank_peek (h : p.act = .peek next) (found : Option Char) : (next found).rank < p.rank := by
  cases p <;> cases h
  case separator =>
    dsimp only
    split_ifs <;> decide
  all_goals
    dsimp only
    split <;> decide

theorem rank_advance (h : p.act = .advance c q) : q.rank ≤ 1 := by
  cases p <;> cases h <;> decide

theorem rank_decode (h : p.act = .decode q) : q.rank ≤ 1 := by
  cases p <;> cases h <;> decide

/-- A character is passed over only where it has been looked at. -/
theorem peeked (h : p.act = .peek next) (hnext : (next found).act = .advance c q) :
    found = some c := by
  cases p <;> cases h
  all_goals
    dsimp only at hnext
    split_ifs at hnext <;> cases hnext <;> assumption

theorem not_advance_behind_advance {d : Char} {r : Point} (h : p.act = .advance c q) :
    q.act ≠ .advance d r := by
  cases p <;> cases h <;> exact nofun

theorem not_advance_behind_decode {r : Point} (h : p.act = .decode q) : q.act ≠ .advance c r := by
  cases p <;> cases h <;> exact nofun

end Point

/-- The point of a phase. -/
def Phase.point : Phase → Point
  | .start => .start
  | .item => .item
  | .separator => .separator
  | .sequence => .sequence

/-- A call on a stream with its answer; one that passes over a character is told which. -/
inductive Call
  | peek (found : Option Char)
  | advance (c : Char)
  | decode (v : Value)

/-- **One call of the reading.** -/
inductive Step (p : Point) (s : Stream) : Call → Point → Stream → Prop
  | peek {next found q t} (hact : p.act = .peek next) (h : s.peek = .ok (found, t))
    (hnext : next found = q) : Step p s (.peek found) q t
  | advance {c q} (hact : p.act = .advance c q) : Step p s (.advance c) q s.advance
  | decode {q v t} (hact : p.act = .decode q) (h : s.decode = .ok (v, t)) : Step p s (.decode v) q t

/-- **Calls of the reading**, one after another. -/
inductive Trace (p : Point) (s : Stream) : List Call → Point → Stream → Prop
  | here : Trace p s [] p s
  | call {calls call q t r u} (h : Trace p s calls q t) (hstep : Step q t call r u) :
    Trace p s (calls ++ [call]) r u

/-- The error that the reading ends with where it stands. -/
inductive Fails : Point → Stream → Error → Prop
  | peek {p s next e} (hact : p.act = .peek next) (h : s.peek = .error e) : Fails p s e
  | decode {p s q e} (hact : p.act = .decode q) (h : s.decode = .error e) : Fails p s e
  | refused {s} : Fails .refused s (.value (.separatorExpected s.name))

/-- The reading ends where it stands, with an error or without one. -/
inductive Stops : Point → Stream → Option Error → Prop
  | done {s} : Stops .done s none
  | failed {p s e} (h : Fails p s e) : Stops p s (some e)

/-! ### What a call takes off the text -/

/-- **What a call takes off the text**: blanks, the one character that was looked at, or blanks and
the text of the value that is given. -/
inductive Consumes : Call → List Char → Prop
  | peek {found x} (hx : ∀ c ∈ x, isBlank c = true) : Consumes (.peek found) x
  | advance {c} : Consumes (.advance c) [c]
  | decode {v blanks x} (hblanks : ∀ c ∈ blanks, isBlank c = true) (hjson : Json.IsJson x)
    (hparse : Json.parse x = .ok v) : Consumes (.decode v) (blanks ++ x)

namespace Stream

/-- The place in the buffer where what is to come begins. -/
def position (s : Stream) : Nat :=
  s.buffer.length - s.ahead.length

/-- A stream whose position is in its buffer, and which reads chunks of a size. -/
structure Inside (chunk : Nat) (s : Stream) : Prop where
  chunk_eq : s.chunk = chunk
  suffix : s.ahead <:+ s.buffer

variable {chunk fuel : Nat} {s t : Stream} {v : Value} {rest : List Char} {found : Option Char}

theorem Inside.ahead_eq (h : s.Inside chunk) : s.ahead = s.buffer.drop s.position :=
  List.suffix_iff_eq_drop.1 h.suffix

theorem Inside.passTo (h : s.Inside chunk) (hrest : rest <:+ s.ahead) :
    (s.passTo rest).Inside chunk :=
  ⟨h.chunk_eq, hrest.trans h.suffix⟩

/-- Reading a chunk leaves what is to come as it is. -/
theorem fill_keeps (h : s.fill = .ok (some t)) (hs : s.Inside chunk) :
    t.remaining = s.remaining ∧ t.Inside chunk := by
  unfold fill at h
  split at h
  · cases h
  · cases h
  · rename_i hread
    cases h
    refine ⟨?_, hs.chunk_eq, List.suffix_refl _⟩
    rw [remaining, remaining, List.append_assoc, ← Source.read_ok hread]

theorem fill_shorter (h : s.fill = .ok (some t)) :
    t.source.unread.length < s.source.unread.length := by
  unfold fill at h
  split at h
  · cases h
  · cases h
  · rename_i cs source hne hread
    cases h
    have hlength := congrArg List.length (Source.read_ok hread)
    have hpos : 0 < cs.length := List.length_pos_iff.2 hne
    rw [List.length_append] at hlength
    simp only
    omega

/-- Nothing is read only where nothing is left to be read. -/
theorem fill_none (hchunk : 1 ≤ s.chunk) (h : s.fill = .ok none) : s.source.unread = [] := by
  have htake : s.source.unread.take s.chunk = [] := by
    unfold fill Source.read at h
    split at h
    · cases h
    · rename_i hread
      split at hread
      · exact (Prod.mk.inj (Except.ok.inj hread)).1
      · split at hread
        · cases hread
        · exact (Prod.mk.inj (Except.ok.inj hread)).1
    · cases h
  rcases List.take_eq_nil_iff.1 htake with hzero | hnil
  · omega
  · exact hnil

/-! #### Looking at the next character -/

/-- What passing over blanks comes to. -/
structure Peeked (chunk : Nat) (s t : Stream) : Prop where
  blanks : ∃ x, (∀ c ∈ x, isBlank c = true) ∧ s.remaining = x ++ t.remaining
  inside : t.Inside chunk
  unblank : ∀ c, t.ahead.head? = some c → isBlank c = false

theorem skipBlanks_peeked (hs : s.Inside chunk) : Peeked chunk s s.skipBlanks where
  blanks := by
    refine ⟨s.ahead.takeWhile isBlank, fun c hc => List.mem_takeWhile_imp hc, ?_⟩
    rw [remaining, remaining, skipBlanks, ← List.append_assoc, List.takeWhile_append_dropWhile]
  inside := ⟨hs.chunk_eq, (List.dropWhile_suffix _).trans hs.suffix⟩
  unblank := by
    intro c hc
    have hno := List.head?_dropWhile_not isBlank s.ahead
    rw [skipBlanks] at hc
    rw [hc] at hno
    simpa using hno

theorem Peeked.refill {u w : Stream} (h : Peeked chunk s t) (hfill : t.fill = .ok (some u))
    (hw : Peeked chunk u w) : Peeked chunk s w := by
  obtain ⟨x, hx, hrem⟩ := h.blanks
  obtain ⟨y, hy, hrem'⟩ := hw.blanks
  refine ⟨⟨x ++ y, fun c hc => ?_, ?_⟩, hw.inside, hw.unblank⟩
  · rcases List.mem_append.1 hc with hc | hc
    · exact hx c hc
    · exact hy c hc
  · rw [hrem, ← (fill_keeps hfill h.inside).1, hrem', List.append_assoc]

theorem peekWith_peeked (hs : s.Inside chunk) (h : peekWith fuel s = .ok t) : Peeked chunk s t := by
  induction fuel generalizing s with
  | zero =>
    cases h
    exact skipBlanks_peeked hs
  | succ fuel ih =>
    have hskip := skipBlanks_peeked hs
    rw [peekWith] at h
    split at h
    · cases h
      exact hskip
    · split at h
      · cases h
      · cases h
        exact hskip
      · rename_i hfill
        exact hskip.refill hfill (ih (fill_keeps hfill hskip.inside).2 h)

/-- Nothing is found only at the end of the text. -/
theorem peekWith_end (hchunk : 1 ≤ chunk) (hs : s.Inside chunk) (h : peekWith fuel s = .ok t)
    (hfuel : s.source.unread.length < fuel) (hahead : t.ahead = []) : t.source.unread = [] := by
  induction fuel generalizing s with
  | zero => omega
  | succ fuel ih =>
    have hskip := skipBlanks_peeked hs
    rw [peekWith] at h
    split at h
    · rename_i hcons
      cases h
      rw [hahead] at hcons
      cases hcons
    · split at h
      · cases h
      · rename_i hfill
        cases h
        exact fill_none (by rw [hskip.inside.chunk_eq]; exact hchunk) hfill
      · rename_i u hfill
        have hshorter := fill_shorter hfill
        refine ih (fill_keeps hfill hskip.inside).2 h ?_
        have hsame : s.skipBlanks.source = s.source := rfl
        rw [hsame] at hshorter
        omega

theorem peek_ok (hs : s.Inside chunk) (h : s.peek = .ok (found, t)) :
    Peeked chunk s t ∧ found = t.ahead.head? := by
  unfold peek at h
  split at h
  · cases h
  · rename_i hpeek
    cases h
    exact ⟨peekWith_peeked hs hpeek, rfl⟩

/-- What is found is the next character of the text, and none at its end. -/
theorem peek_found (hchunk : 1 ≤ chunk) (hs : s.Inside chunk) (h : s.peek = .ok (found, t)) :
    found = t.remaining.head? := by
  obtain ⟨-, hfound⟩ := peek_ok hs h
  unfold peek at h
  split at h
  · cases h
  · rename_i hpeek
    cases h
    cases hahead : t.ahead with
    | nil => rw [remaining, hahead, peekWith_end hchunk hs hpeek (Nat.lt_succ_self _) hahead]; rfl
    | cons c cs => rw [remaining, hahead]; rfl

/-! #### Passing over a character, and decoding a value -/

theorem advance_inside (hs : s.Inside chunk) : s.advance.Inside chunk :=
  hs.passTo (List.drop_suffix 1 _)

theorem advance_consumes {c : Char} (h : s.ahead.head? = some c) :
    s.remaining = [c] ++ s.advance.remaining := by
  cases hahead : s.ahead with
  | nil =>
    rw [hahead] at h
    cases h
  | cons d cs =>
    rw [hahead] at h
    obtain rfl := Option.some.inj h
    rw [remaining, remaining, advance, hahead]
    rfl

/-- The text that is read as a value is the text of that value alone. -/
theorem readValue_text {cs : List Char} (h : Json.readValue cs = .ok (v, rest)) :
    ∃ x, cs = x ++ rest ∧ Json.IsJson x ∧ Json.parse x = .ok v := by
  obtain ⟨x, rfl, hjson⟩ := Json.exists_isJson h
  have hread : Json.readValue x = .ok (v, []) := Json.readValue_of_append h
  obtain ⟨c, t, rfl, hbegins⟩ := hjson.begins
  have hmark : c ≠ '\uFEFF' := by
    rintro rfl
    cases hread
  exact ⟨_, rfl, hjson,
    Json.parse_of_readValue [] [] (fun _ hc => nomatch hc) hbegins.isSpace_eq hmark hread
      fun _ hc => nomatch hc⟩

/-- What decoding comes to. -/
structure TakesValue (chunk : Nat) (v : Value) (s t : Stream) : Prop where
  text : ∃ x, Json.IsJson x ∧ Json.parse x = .ok v ∧ s.remaining = x ++ t.remaining
  inside : t.Inside chunk

theorem takesValue_here (hs : s.Inside chunk) (h : Json.readValue s.ahead = .ok (v, rest)) :
    TakesValue chunk v s (s.passTo rest) := by
  obtain ⟨x, hahead, hjson, hparse⟩ := readValue_text h
  refine ⟨⟨x, hjson, hparse, ?_⟩, hs.passTo ⟨x, hahead.symm⟩⟩
  rw [remaining, hahead, List.append_assoc]
  rfl

theorem decodeWith_takesValue (hs : s.Inside chunk) (h : decodeWith fuel s = .ok (v, t)) :
    TakesValue chunk v s t := by
  induction fuel generalizing s with
  | zero =>
    rw [decodeWith] at h
    split at h
    · rename_i hread
      cases h
      exact takesValue_here hs hread
    · cases h
  | succ fuel ih =>
    -- reading a chunk leaves the text to be decoded as it is
    have hmore : ∀ u, s.fill = .ok (some u) → decodeWith fuel u = .ok (v, t) →
        TakesValue chunk v s t := by
      intro u hfill hdecode
      obtain ⟨hrem, hu⟩ := fill_keeps hfill hs
      have hdecoded := ih hu hdecode
      exact ⟨hrem ▸ hdecoded.text, hdecoded.inside⟩
    rw [decodeWith] at h
    split at h
    · rename_i hread
      split at h
      · cases h
        exact takesValue_here hs hread
      · split at h
        · cases h
        · cases h
          exact takesValue_here hs hread
        · rename_i hfill
          exact hmore _ hfill h
    · cases h
    · split at h
      · cases h
      · cases h
      · rename_i hfill
        exact hmore _ hfill h

theorem decode_ok (hs : s.Inside chunk) (h : s.decode = .ok (v, t)) :
    (∃ x, Consumes (.decode v) x ∧ x ≠ [] ∧ s.remaining = x ++ t.remaining) ∧
      t.Inside chunk := by
  unfold decode at h
  split at h
  · cases h
  · rename_i found u hpeek
    obtain ⟨hpeeked, -⟩ := peek_ok hs hpeek
    have hdecoded := decodeWith_takesValue hpeeked.inside h
    obtain ⟨blanks, hblanks, hrem⟩ := hpeeked.blanks
    obtain ⟨x, hjson, hparse, hrem'⟩ := hdecoded.text
    obtain ⟨c, tail, rfl, -⟩ := hjson.begins
    refine ⟨⟨blanks ++ c :: tail, .decode hblanks hjson hparse, by simp, ?_⟩, hdecoded.inside⟩
    rw [hrem, hrem', List.append_assoc]

end Stream

/-! ### Calls one after another -/

section Traces

variable {chunk : Nat} {p q r : Point} {s t u : Stream} {call : Call} {calls more : List Call}
  {fault : Option Error}

/-- The character to be passed over at a point, if there is one, is the next of the stream. -/
def Expects (p : Point) (s : Stream) : Prop :=
  ∀ c q, p.act = .advance c q → s.ahead.head? = some c

/-- **A call takes off the text** what it consumes and nothing else; values have some text. -/
theorem Step.consumes (h : Step p s call q t) (hs : s.Inside chunk) (hp : Expects p s) :
    t.Inside chunk ∧ ∃ x, Consumes call x ∧ s.remaining = x ++ t.remaining := by
  cases h with
  | peek _ h _ =>
    obtain ⟨hpeeked, -⟩ := Stream.peek_ok hs h
    obtain ⟨x, hx, hrem⟩ := hpeeked.blanks
    exact ⟨hpeeked.inside, x, .peek hx, hrem⟩
  | advance hact =>
    exact ⟨Stream.advance_inside hs, _, .advance, Stream.advance_consumes (hp _ _ hact)⟩
  | decode _ h =>
    obtain ⟨⟨x, hx, -, hrem⟩, hinside⟩ := Stream.decode_ok hs h
    exact ⟨hinside, x, hx, hrem⟩

theorem Step.expects (h : Step p s call q t) (hs : s.Inside chunk) : Expects q t := by
  cases h with
  | peek hact h hq =>
    intro c r hnext
    rw [← (Stream.peek_ok hs h).2]
    exact Point.peeked hact (hq ▸ hnext)
  | advance hact => exact fun c r hnext => absurd hnext (Point.not_advance_behind_advance hact)
  | decode hact _ => exact fun c r hnext => absurd hnext (Point.not_advance_behind_decode hact)

/-- **Every call makes a number smaller**: twice what is left, and what the point allows for. -/
theorem Step.measure (h : Step p s call q t) (hs : s.Inside chunk) (hp : Expects p s) :
    2 * t.remaining.length + q.rank < 2 * s.remaining.length + p.rank := by
  cases h with
  | @peek next found _ t hact h hq =>
    obtain ⟨x, -, hrem⟩ := (Stream.peek_ok hs h).1.blanks
    have hrank := Point.rank_peek hact found
    rw [hq] at hrank
    rw [hrem, List.length_append]
    omega
  | advance hact =>
    have hrank := Point.rank_advance hact
    rw [Stream.advance_consumes (hp _ _ hact), List.length_append, List.length_singleton]
    omega
  | decode hact h =>
    obtain ⟨⟨x, -, hne, hrem⟩, -⟩ := Stream.decode_ok hs h
    have hrank := Point.rank_decode hact
    have hpos := List.length_pos_iff.2 hne
    rw [hrem, List.length_append]
    omega

theorem Trace.trans (h : Trace p s calls q t) (h' : Trace q t more r u) :
    Trace p s (calls ++ more) r u := by
  induction h' with
  | here => rwa [List.append_nil]
  | call _ hstep ih =>
    rw [← List.append_assoc]
    exact ih.call hstep

theorem Trace.one (h : Step p s call q t) : Trace p s [call] q t :=
  Trace.here.call h

/-- What is known where the reading stands is known behind its calls. -/
theorem Trace.keeps (h : Trace p s calls q t) (hs : s.Inside chunk) (hp : Expects p s) :
    t.Inside chunk ∧ Expects q t := by
  induction h with
  | here => exact ⟨hs, hp⟩
  | call _ hstep ih =>
    obtain ⟨ht, hq⟩ := ih
    exact ⟨(hstep.consumes ht hq).1, hstep.expects ht⟩

/-- **Calls take off the text** what each of them consumes, one behind the other. -/
theorem Trace.consumes (h : Trace p s calls q t) (hs : s.Inside chunk) (hp : Expects p s) :
    ∃ texts, List.Forall₂ Consumes calls texts ∧ s.remaining = texts.flatten ++ t.remaining := by
  induction h with
  | here => exact ⟨[], .nil, rfl⟩
  | call h hstep ih =>
    obtain ⟨texts, htexts, hrem⟩ := ih
    obtain ⟨ht, hq⟩ := h.keeps hs hp
    obtain ⟨-, x, hx, hrem'⟩ := hstep.consumes ht hq
    refine ⟨texts ++ [x], List.rel_append htexts (.cons hx .nil), ?_⟩
    rw [hrem, hrem', List.flatten_append, List.flatten_singleton, List.append_assoc]

/-- There are no more calls than the number that each of them makes smaller. -/
theorem Trace.measure (h : Trace p s calls q t) (hs : s.Inside chunk) (hp : Expects p s) :
    2 * t.remaining.length + q.rank + calls.length ≤ 2 * s.remaining.length + p.rank := by
  induction h with
  | here => exact Nat.le_refl _
  | call h hstep ih =>
    obtain ⟨ht, hq⟩ := h.keeps hs hp
    have hfalls := hstep.measure ht hq
    rw [List.length_append, List.length_singleton]
    omega

/-- The last call and the point in front of it. -/
theorem Trace.last (h : Trace p s calls q t) (hlast : calls.getLast? = some call) :
    ∃ front r u, Trace p s front r u ∧ Step r u call q t := by
  cases h with
  | here => cases hlast
  | call h hstep =>
    rw [List.getLast?_concat] at hlast
    obtain rfl := Option.some.inj hlast
    exact ⟨_, _, _, h, hstep⟩

/-- A character is passed over right behind the call that has looked at it. -/
theorem Trace.peeked {c : Char} (h : Trace .start s calls p t) (hact : p.act = .advance c q) :
    calls.getLast? = some (.peek (some c)) := by
  cases h with
  | here => cases hact
  | call h hstep =>
    rw [List.getLast?_concat]
    cases hstep with
    | @peek _ found _ _ hpeek _ hq =>
      subst hq
      rw [Point.peeked hpeek hact]
    | advance hadvance => exact absurd hact (Point.not_advance_behind_advance hadvance)
    | decode hdecode _ => exact absurd hact (Point.not_advance_behind_decode hdecode)

/-- At every point the reading ends, or there is one more call. -/
theorem stops_or_steps (p : Point) (s : Stream) :
    (∃ fault, Stops p s fault) ∨ ∃ call q t, Step p s call q t := by
  cases hact : p.act with
  | peek next =>
    cases h : s.peek with
    | error e => exact .inl ⟨_, .failed (.peek hact h)⟩
    | ok found => exact .inr ⟨_, _, _, .peek hact h rfl⟩
  | advance c q => exact .inr ⟨_, _, _, .advance hact⟩
  | decode q =>
    cases h : s.decode with
    | error e => exact .inl ⟨_, .failed (.decode hact h)⟩
    | ok found => exact .inr ⟨_, _, _, .decode hact h⟩
  | stop =>
    cases p with
    | done => exact .inl ⟨_, .done⟩
    | refused => exact .inl ⟨_, .failed .refused⟩
    | _ => cases hact

/-- At every point there is one call at most. -/
theorem Step.unique {other : Call} {q' : Point} {t' : Stream} (h : Step p s call q t)
    (h' : Step p s other q' t') : call = other ∧ q = q' ∧ t = t' := by
  cases h with
  | peek hact h hq =>
    cases h' with
    | peek hact' h' hq' =>
      cases hact.symm.trans hact'
      cases h.symm.trans h'
      exact ⟨rfl, hq.symm.trans hq', rfl⟩
    | advance hact' => cases hact.symm.trans hact'
    | decode hact' _ => cases hact.symm.trans hact'
  | advance hact =>
    cases h' with
    | peek hact' _ _ => cases hact.symm.trans hact'
    | advance hact' =>
      cases hact.symm.trans hact'
      exact ⟨rfl, rfl, rfl⟩
    | decode hact' _ => cases hact.symm.trans hact'
  | decode hact h =>
    cases h' with
    | peek hact' _ _ => cases hact.symm.trans hact'
    | advance hact' => cases hact.symm.trans hact'
    | decode hact' h' =>
      cases hact.symm.trans hact'
      cases h.symm.trans h'
      exact ⟨rfl, rfl, rfl⟩

theorem Step.not_stop (h : Step p s call q t) : p.act ≠ .stop := by
  cases h with
  | peek hact _ _ => rw [hact]; exact nofun
  | advance hact => rw [hact]; exact nofun
  | decode hact _ => rw [hact]; exact nofun

/-- Where the reading ends there is no further call. -/
theorem Stops.no_step (h : Stops p s fault) : ¬ Step p s call q t := by
  intro hstep
  cases h with
  | done => exact hstep.not_stop rfl
  | failed h =>
    cases h with
    | refused => exact hstep.not_stop rfl
    | peek hact h =>
      cases hstep with
      | peek _ h' _ => cases h.symm.trans h'
      | advance hact' => cases hact.symm.trans hact'
      | decode hact' _ => cases hact.symm.trans hact'
    | decode hact h =>
      cases hstep with
      | peek hact' _ _ => cases hact.symm.trans hact'
      | advance hact' => cases hact.symm.trans hact'
      | decode _ h' => cases h.symm.trans h'

/-- The first call, if there is one. -/
theorem Trace.first (h : Trace p s calls q t) :
    (calls = [] ∧ p = q ∧ s = t) ∨
      ∃ call more r u, calls = call :: more ∧ Step p s call r u ∧ Trace r u more q t := by
  induction h with
  | here => exact .inl ⟨rfl, rfl, rfl⟩
  | call h hstep ih =>
    rcases ih with ⟨rfl, rfl, rfl⟩ | ⟨first, more, r, u, rfl, hfirst, hmore⟩
    · exact .inr ⟨_, [], _, _, rfl, hstep, .here⟩
    · exact .inr ⟨first, _, r, u, rfl, hfirst, hmore.call hstep⟩

/-- **There is one reading**: whatever calls it has made, it goes on with the others. -/
theorem Trace.goes_on {others : List Call} (h : Trace p s calls q t) (hstops : Stops q t fault)
    (h' : Trace p s others r u) : ∃ more, calls = others ++ more ∧ Trace r u more q t := by
  induction h' with
  | here => exact ⟨calls, rfl, h⟩
  | call _ hstep ih =>
    obtain ⟨more, rfl, hmore⟩ := ih
    -- the whole reading cannot be over here, and a point and a stream have one call only
    rcases hmore.first with ⟨-, rfl, rfl⟩ | ⟨call, more, r', u', rfl, hfirst, hrest⟩
    · exact absurd hstep hstops.no_step
    · obtain ⟨rfl, rfl, rfl⟩ := hfirst.unique hstep
      exact ⟨more, by rw [List.append_assoc]; rfl, hrest⟩

end Traces

/-! ### Records are read by calls -/

/-- What the next record of a stream is read by: calls up to the value that is given, to the end, or
to an error. -/
inductive Follows (p : Point) (s : Stream) : Cursor.Next → Prop
  | gives {calls v phase t} (h : Trace p s calls (Phase.point phase) t)
    (hlast : calls.getLast? = some (.decode v)) : Follows p s (.ok (some (v, .stream phase t)))
  | ends {calls t} (h : Trace p s calls .done t) : Follows p s (.ok none)
  | fails {calls q t e} (h : Trace p s calls q t) (he : Fails q t e) : Follows p s (.error e)

section Records

variable {chunk fuel : Nat} {p q : Point} {s t : Stream} {calls : List Call} {next : Cursor.Next}
  {records : List Value} {fault : Option Error} {phase : Phase}

theorem Follows.behind (h : Trace p s calls q t) (hnext : Follows q t next) : Follows p s next := by
  cases hnext with
  | gives hmore hlast =>
    refine .gives (h.trans hmore) ?_
    rw [List.getLast?_append, hlast]
    rfl
  | ends hmore => exact .ends (h.trans hmore)
  | fails hmore he => exact .fails (h.trans hmore) he

theorem Follows.failed {e : Error} (h : Fails p s e) : Follows p s (.error e) :=
  .fails .here h

theorem expects_phase (phase : Phase) (s : Stream) : Expects phase.point s := by
  intro c q h
  cases phase <;> cases h

/-- The turns of the reading with so much fuel read their records by calls. -/
def TurnsFollow (chunk fuel : Nat) : Prop :=
  ∀ (phase : Phase) (s : Stream), s.Inside chunk →
    2 * s.remaining.length + phase.point.rank < fuel →
      Follows phase.point s (Cursor.nextStreamed fuel phase s)

/-- Behind some calls there is fuel enough for the turns that follow. -/
theorem TurnsFollow.behind (hturns : TurnsFollow chunk fuel) (phase behind : Phase)
    (hs : s.Inside chunk)
    (hfuel : 2 * s.remaining.length + phase.point.rank < fuel + 1)
    (h : Trace phase.point s calls behind.point t) (hcalls : calls ≠ []) :
    Follows phase.point s (Cursor.nextStreamed fuel behind t) := by
  have hp := expects_phase phase s
  have hmeasure := h.measure hs hp
  have hpos := List.length_pos_iff.2 hcalls
  exact .behind h (hturns behind t (h.keeps hs hp).1 (by omega))

theorem TurnsFollow.start (hturns : TurnsFollow chunk fuel) (hs : s.Inside chunk)
    (hfuel : 2 * s.remaining.length + Phase.start.point.rank < fuel + 1) :
    Follows .start s (Cursor.nextStreamed (fuel + 1) .start s) := by
  rw [Cursor.nextStreamed]
  split
  · rename_i hpeek
    exact .failed (.peek rfl hpeek)
  · rename_i t hpeek
    have hopens : Trace .start s [.peek (some '[')] .opening t :=
      .one (.peek rfl hpeek (if_pos rfl))
    have hpassed : Trace .start s ([.peek (some '[')] ++ [.advance '[']) .first t.advance :=
      hopens.call (.advance rfl)
    -- behind the bracket stands the end of an empty array, or its first item
    split
    · rename_i hagain
      exact .fails hpassed (.peek rfl hagain)
    · rename_i hagain
      exact .ends (hpassed.call (.peek rfl hagain (if_pos rfl)))
    · rename_i found u hclose hagain
      have hitem := hpassed.call (.peek rfl hagain (if_neg hclose))
      exact hturns.behind .start .item hs hfuel hitem (by simp)
  · rename_i found t hopen hpeek
    have hvalues := Trace.one (.peek (p := .start) rfl hpeek (if_neg hopen))
    exact hturns.behind .start .sequence hs hfuel hvalues (by simp)

theorem TurnsFollow.item (hturns : TurnsFollow chunk fuel) (hs : s.Inside chunk)
    (hfuel : 2 * s.remaining.length + Phase.item.point.rank < fuel + 1) :
    Follows .item s (Cursor.nextStreamed (fuel + 1) .item s) := by
  rw [Cursor.nextStreamed]
  split
  · rename_i hdecode
    exact .failed (.decode rfl hdecode)
  · rename_i entries t hdecode
    have hrecord : Trace .item s [.decode (.dict entries)] (Phase.point .separator) t :=
      .one (.decode rfl hdecode)
    exact .gives hrecord rfl
  · rename_i hdecode
    exact hturns.behind .item .separator hs hfuel (.one (.decode rfl hdecode))
      (by simp)

theorem TurnsFollow.separator (hturns : TurnsFollow chunk fuel) (hs : s.Inside chunk)
    (hfuel : 2 * s.remaining.length + Phase.separator.point.rank < fuel + 1) :
    Follows .separator s (Cursor.nextStreamed (fuel + 1) .separator s) := by
  rw [Cursor.nextStreamed]
  split
  · rename_i hpeek
    exact .failed (.peek rfl hpeek)
  · rename_i hpeek
    exact .ends (.one (.peek rfl hpeek (if_pos rfl)))
  · rename_i t hpeek
    have hcomma : Trace .separator s [.peek (some ',')] .comma t := .one (.peek rfl hpeek rfl)
    exact hturns.behind .separator .item hs hfuel
      (hcomma.call (.advance rfl)) (by simp)
  · rename_i found t hclose hcomma hpeek
    have hrefused : Trace .separator s [.peek found] .refused t :=
      .one (.peek rfl hpeek ((if_neg hclose).trans (if_neg hcomma)))
    exact .fails hrefused .refused

theorem Follows.sequence (fuel : Nat) (s : Stream) :
    Follows .sequence s (Cursor.nextStreamed (fuel + 1) .sequence s) := by
  rw [Cursor.nextStreamed]
  split
  · rename_i hpeek
    exact .failed (.peek rfl hpeek)
  · rename_i hpeek
    exact .ends (.one (.peek rfl hpeek (if_pos rfl)))
  · rename_i c t hpeek
    have hvalue : Trace .sequence s [.peek (some c)] .value t := .one (.peek rfl hpeek rfl)
    split
    · rename_i hdecode
      exact .fails hvalue (.decode rfl hdecode)
    · rename_i v u hdecode
      have hrecord :
        Trace .sequence s ([.peek (some c)] ++ [.decode v]) (Phase.point .sequence) u :=
        hvalue.call (.decode rfl hdecode)
      exact .gives hrecord List.getLast?_concat

theorem turnsFollow (chunk fuel : Nat) : TurnsFollow chunk fuel := by
  induction fuel with
  | zero => exact fun _ _ _ hfuel => absurd hfuel (Nat.not_lt_zero _)
  | succ fuel ih =>
    intro phase s hs hfuel
    cases phase with
    | start => exact ih.start hs hfuel
    | item => exact ih.item hs hfuel
    | separator => exact ih.separator hs hfuel
    | sequence => exact .sequence fuel s

/-- **The next record of a stream** is read by the calls of the reading. -/
theorem next_follows (phase : Phase) (hs : s.Inside chunk) :
    Follows phase.point s (Cursor.stream phase s).next := by
  have hrank : phase.point.rank ≤ 2 := by cases phase <;> decide
  have hleft : s.left = s.remaining.length := (Stream.length_remaining s).symm
  exact turnsFollow chunk _ phase s hs (by omega)

/-- **All records of a stream** are read by the calls of the reading. -/
theorem Yields.follows (h : Yields (.stream phase s) records fault) (hs : s.Inside chunk) :
    ∃ calls p t, Trace phase.point s calls p t ∧ Stops p t fault := by
  generalize hc : Cursor.stream phase s = c at h
  induction h generalizing phase s with
  | done h =>
    subst hc
    have hnext := next_follows phase hs
    rw [h] at hnext
    cases hnext with
    | ends htrace => exact ⟨_, _, _, htrace, .done⟩
  | failed h =>
    subst hc
    have hnext := next_follows phase hs
    rw [h] at hnext
    cases hnext with
    | fails htrace he => exact ⟨_, _, _, htrace, .failed he⟩
  | more h _ ih =>
    subst hc
    have hnext := next_follows phase hs
    rw [h] at hnext
    cases hnext with
    | gives htrace _ =>
      obtain ⟨calls, p, t, hmore, hstops⟩ :=
        ih (htrace.keeps hs (expects_phase phase s)).1 rfl
      exact ⟨_, p, t, htrace.trans hmore, hstops⟩

end Records

/-! ### Text is neither dropped nor repeated -/

theorem inside_ofSource (name : String) (chunk : Nat) (source : Source) :
    (Stream.ofSource name chunk source).Inside chunk :=
  ⟨rfl, List.suffix_refl _⟩

/-- **Where the reading of a text stands behind some calls**: what they have consumed, with the rest
of the buffer and what is unread, is the text; what is still to come is kept by each further call
but for what this call consumes; and whatever comes next, the calls come to an end. -/
structure Conserves (text : List Char) (calls : List Call) (p : Point) (s : Stream) : Prop where
  account : ∃ texts, List.Forall₂ Consumes calls texts ∧
    text = texts.flatten ++ s.buffer.drop s.position ++ s.source.unread
  inside : s.ahead <:+ s.buffer ∧ s.position ≤ s.buffer.length
  found : ∀ found, calls.getLast? = some (.peek found) → found = s.remaining.head?
  peeked : ∀ c q, p.act = .advance c q →
    calls.getLast? = some (.peek (some c)) ∧ s.remaining.head? = some c
  step : ∀ call q t, Step p s call q t →
    ∃ x, Consumes call x ∧ s.buffer.drop s.position ++ s.source.unread =
      x ++ (t.buffer.drop t.position ++ t.source.unread)
  goesOn : (∃ fault, Stops p s fault) ∨ ∃ call q t, Step p s call q t
  loop : ∀ more t, more ≠ [] → Trace p s more p t → t.remaining.length < s.remaining.length
  bounded : calls.length ≤ 2 * text.length + 2

theorem conserves {chunk : Nat} (hchunk : 1 ≤ chunk) {name : String} {source : Source}
    {calls : List Call} {p : Point} {s : Stream}
    (h : Trace .start (.ofSource name chunk source) calls p s) :
    Conserves source.unread calls p s := by
  have hstart := inside_ofSource name chunk source
  have hpoint := expects_phase .start (.ofSource name chunk source)
  have htext : (Stream.ofSource name chunk source).remaining = source.unread := rfl
  obtain ⟨hs, hp⟩ := h.keeps hstart hpoint
  have hremaining : s.remaining = s.buffer.drop s.position ++ s.source.unread := by
    rw [← hs.ahead_eq]
    rfl
  -- every call lowers the measure, which is twice the text and two more at the start
  have hmeasure := h.measure hstart hpoint
  rw [htext] at hmeasure
  refine ⟨?_, ⟨hs.suffix, Nat.sub_le _ _⟩, ?_, ?_, ?_, stops_or_steps p s, ?_, ?_⟩
  · obtain ⟨texts, htexts, hrem⟩ := h.consumes hstart hpoint
    exact ⟨texts, htexts, by rw [← htext, hrem, hremaining, List.append_assoc]⟩
  · intro found hlast
    obtain ⟨front, q, u, hfront, hstep⟩ := h.last hlast
    cases hstep with
    | peek _ hpeek _ => exact Stream.peek_found hchunk (hfront.keeps hstart hpoint).1 hpeek
  · intro c q hact
    refine ⟨h.peeked hact, ?_⟩
    rw [Stream.remaining, List.head?_append, hp c q hact]
    rfl
  · intro call q t hstep
    obtain ⟨ht, x, hx, hrem⟩ := hstep.consumes hs hp
    refine ⟨x, hx, ?_⟩
    rw [← hremaining, hrem, ← ht.ahead_eq]
    rfl
  · intro more t hmore hloop
    have hfalls := hloop.measure hs hp
    have hpos := List.length_pos_iff.2 hmore
    omega
  · have hrank : Point.start.rank = 2 := rfl
    omega

/-- **No text is dropped or repeated, and reading ends.** Behind whatever calls the reading of a
text has made in chunks of one character at least, its text is accounted for. The records of every
text are read, to an end or an error, by such calls, and no others are made on the way. -/
theorem reading_conserves {chunk : Nat} (hchunk : 1 ≤ chunk) (name : String) (source : Source) :
    (∀ calls p s, Trace .start (.ofSource name chunk source) calls p s →
      Conserves source.unread calls p s) ∧
    ∃ records fault, Yields (.stream .start (.ofSource name chunk source)) records fault ∧
      ∃ calls p s, Trace .start (.ofSource name chunk source) calls p s ∧ Stops p s fault ∧
        ∀ front q t, Trace .start (.ofSource name chunk source) front q t →
          ∃ more, calls = front ++ more ∧ Trace q t more p s := by
  refine ⟨fun calls p s => conserves hchunk, ?_⟩
  obtain ⟨records, fault, hyields, -⟩ :=
    exists_records (c := .stream .start (.ofSource name chunk source)) trivial
  obtain ⟨calls, p, s, htrace, hstops⟩ := hyields.follows (inside_ofSource name chunk source)
  exact ⟨records, fault, hyields, calls, p, s, htrace, hstops,
    fun front q t hfront => htrace.goes_on hstops hfront⟩

/-- An array of two numbers. -/
def numberArray : List Char := ['[', '1', '2', ',', '3', ']']

/-- The calls that read it. -/
def numberCalls : List Call :=
  [.peek (some '['), .advance '[', .peek (some '1'), .decode (.int 12), .peek (some ','),
    .advance ',', .decode (.int 3), .peek (some ']')]

/-- Two characters are read at a time, so that the end of a chunk cuts the first number. -/
theorem reading_conserves_numberArray : 1 ≤ 2 ∧ ∃ s,
    Trace .start (.ofSource "data.json" 2 ⟨numberArray, none⟩) numberCalls .done s ∧
    Conserves numberArray numberCalls .done s := by
  have hchunk : 1 ≤ 2 := by decide
  have htrace :
      ∃ s, Trace .start (.ofSource "data.json" 2 ⟨numberArray, none⟩) numberCalls .done s :=
    ⟨_, (((((((Trace.one (.peek (p := .start)
      (s := .ofSource "data.json" 2 ⟨numberArray, none⟩) rfl rfl rfl)).call (.advance rfl)).call
      (.peek rfl rfl rfl)).call (.decode rfl rfl)).call (.peek rfl rfl rfl)).call
      (.advance rfl)).call (.decode rfl rfl)).call (.peek rfl rfl rfl)⟩
  obtain ⟨s, htrace⟩ := htrace
  exact ⟨hchunk, s, htrace,
    (reading_conserves hchunk "data.json" ⟨numberArray, none⟩).1 _ _ _ htrace⟩

end Runbook.Records
