import Runbook.Proofs.ChunkDecoding
import Runbook.Proofs.Streaming

/-!
# Whether the chunk size can be seen

A text is streamed in turns: each decodes a value or passes over a bracket or a comma. What the
turns make of a text depends on the chunk size only through the values they decode. If an edge
spoils one of them, the stream fails behind it, as what is left of the value begins with a mark.

So two chunk sizes give the same records and the same end, unless an edge of one of them spoils a
value and the records up to there with a failure are not what the text gives as a whole.

* `turnOf`, `Runs`: one turn in front of a text, and all turns up to its end.
* `nextStreamed_turn`, `nextStreamed_begins`, `exists_yields`: a stream takes these turns.
* `runs_cutsRun`, `runs_uncut`: a run that an edge cuts, and one that none does.
* `streamsAlike_iff`: which chunk sizes are told apart.
-/

namespace Runbook.Records

open Runbook.Text
open Runbook.Json (IsMark Overlong readValue)

/-! ### Turns of a stream -/

/-- What a stream does in one turn: it ends, it fails, or it goes on with a record or without. -/
inductive Turn
  | ends
  | fails
  | goes (record : Option Value) (phase : Phase) (rest : List Char)

/-- The record that an item of an array is, if it is an object. -/
def itemRecord : Value → Option Value
  | .dict members => some (.dict members)
  | _ => none

/-- A turn with the value that is decoded and what is left behind it. -/
def taken (give : Value → Option Value) (phase : Phase) : Option (Value × List Char) → Turn
  | none => .fails
  | some (v, rest) => .goes (give v) phase rest

/-- The turn at the start: into the items of an array, or on to the values of a sequence. -/
def startTurn : List Char → Turn
  | '[' :: rest =>
    match rest.dropWhile isBlank with
    | ']' :: _ => .ends
    | rest => .goes none .item rest
  | cs => .goes none .sequence cs

/-- The turn behind an item of an array. -/
def separatorTurn : List Char → Turn
  | ']' :: _ => .ends
  | ',' :: rest => .goes none .item rest
  | _ => .fails

/-- A turn in front of a text that does not begin with blanks, for a way to decode values. -/
def turnAt (decoder : List Char → Option (Value × List Char)) : Phase → List Char → Turn
  | .start, cs => startTurn cs
  | .item, cs => taken itemRecord .separator (decoder cs)
  | .separator, cs => separatorTurn cs
  | .sequence, cs => if cs = [] then .ends else taken some .sequence (decoder cs)

/-- A turn in front of a text. -/
def turnOf (decoder : List Char → Option (Value × List Char)) (phase : Phase)
    (cs : List Char) : Turn :=
  turnAt decoder phase (cs.dropWhile isBlank)

/-- The turns that may give no record beyond one for each character. -/
def spareTurns : Phase → Nat
  | .start => 2
  | _ => 1

/-- Turns up to the end of a text or to a failure, with their records. -/
inductive Runs (decoder : List Char → Option (Value × List Char)) :
    Phase → List Char → List Value → Bool → Prop
  | ends {phase cs} (h : turnOf decoder phase cs = .ends) : Runs decoder phase cs [] false
  | fails {phase cs} (h : turnOf decoder phase cs = .fails) : Runs decoder phase cs [] true
  | goes {phase cs record next rest records failed}
    (h : turnOf decoder phase cs = .goes record next rest)
    (hrest : Runs decoder next rest records failed) :
    Runs decoder phase cs (record.toList ++ records) failed

section Turns

variable {decoder : List Char → Option (Value × List Char)} {phase next : Phase}
  {cs rest : List Char} {records others : List Value} {failed other : Bool} {record : Option Value}

theorem Runs.goes_iff (h : turnOf decoder phase cs = .goes record next rest) :
    Runs decoder phase cs others failed ↔
      ∃ records, Runs decoder next rest records failed ∧ others = record.toList ++ records := by
  constructor
  · intro hruns
    cases hruns with
    | ends h' => rw [h] at h'; cases h'
    | fails h' => rw [h] at h'; cases h'
    | goes h' hrest =>
      rw [h] at h'
      cases h'
      exact ⟨_, hrest, rfl⟩
  · rintro ⟨records, hrest, rfl⟩
    exact .goes h hrest

/-- There is one run of a text. -/
theorem Runs.unique (h : Runs decoder phase cs records failed)
    (h' : Runs decoder phase cs others other) : records = others ∧ failed = other := by
  induction h generalizing others with
  | ends h =>
    cases h' with
    | ends _ => exact ⟨rfl, rfl⟩
    | fails h' => rw [h] at h'; cases h'
    | goes h' _ => rw [h] at h'; cases h'
  | fails h =>
    cases h' with
    | ends h' => rw [h] at h'; cases h'
    | fails _ => exact ⟨rfl, rfl⟩
    | goes h' _ => rw [h] at h'; cases h'
  | goes h _ ih =>
    obtain ⟨records', hrest', rfl⟩ := (Runs.goes_iff h).1 h'
    obtain ⟨rfl, rfl⟩ := ih hrest'
    exact ⟨rfl, rfl⟩

theorem taken_eq_goes {give : Value → Option Value} {behind : Phase}
    {found : Option (Value × List Char)} (h : taken give behind found = .goes record next rest) :
    (∃ v, found = some (v, rest)) ∧ next = behind := by
  cases found with
  | none => cases h
  | some found =>
    obtain ⟨v, tail⟩ := found
    cases h
    exact ⟨⟨v, rfl⟩, rfl⟩

/-- A turn makes the text shorter, but for the first. -/
theorem turnOf_shorter
    (hdecoder : ∀ {cs v rest}, decoder cs = some (v, rest) → rest.length < cs.length)
    (h : turnOf decoder phase cs = .goes record next rest) :
    rest.length ≤ cs.length ∧ rest.length + spareTurns next < cs.length + spareTurns phase := by
  have hdrop := List.length_dropWhile_le isBlank cs
  unfold turnOf at h
  generalize cs.dropWhile isBlank = tail at h hdrop
  cases phase with
  | start =>
    rw [turnAt, startTurn.eq_def] at h
    split at h
    · rename_i behind
      have hbehind := List.length_dropWhile_le isBlank behind
      rw [List.length_cons] at hdrop
      split at h
      · cases h
      · cases h
        simp only [spareTurns]
        omega
    · cases h
      simp only [spareTurns]
      omega
  | item =>
    obtain ⟨⟨v, hfound⟩, rfl⟩ := taken_eq_goes h
    have := hdecoder hfound
    simp only [spareTurns]
    omega
  | separator =>
    rw [turnAt, separatorTurn.eq_def] at h
    split at h
    · cases h
    · cases h
      rw [List.length_cons] at hdrop
      simp only [spareTurns]
      omega
    · cases h
  | sequence =>
    rw [turnAt] at h
    split at h
    · cases h
    · obtain ⟨⟨v, hfound⟩, rfl⟩ := taken_eq_goes h
      have := hdecoder hfound
      simp only [spareTurns]
      omega

end Turns

/-! ### Runs that a chunk edge cuts short -/

/-- What a turn gives of a value that an edge spoils, before the stream fails. -/
inductive CutsTurn (chunk total : Nat) : Phase → List Char → List Value → Prop
  | item {cs kept} (h : Cuts chunk total (cs.dropWhile isBlank) kept) :
      CutsTurn chunk total .item cs []
  | sequence {cs kept} (h : Cuts chunk total (cs.dropWhile isBlank) kept) :
    CutsTurn chunk total .sequence cs kept.toList

/-- The records up to the first value that a chunk edge spoils. -/
inductive CutsRun (chunk total : Nat) : Phase → List Char → List Value → Prop
  | here {phase cs records} (h : CutsTurn chunk total phase cs records) :
    CutsRun chunk total phase cs records
  | later {phase cs record next rest records}
      (hno : ∀ others, ¬ CutsTurn chunk total phase cs others)
    (h : turnOf valueOf phase cs = .goes record next rest)
    (hrest : CutsRun chunk total next rest records) :
    CutsRun chunk total phase cs (record.toList ++ records)

/-- **A chunk edge is seen**: what comes before the first value that it spoils, and a failure, is
not what the values of the text make. -/
def Shows (chunk : Nat) (cs : List Char) (records : List Value) : Prop :=
  CutsRun chunk cs.length .start cs records ∧ ¬ Runs valueOf .start cs records true

section Cutting

variable {chunk total : Nat} {phase : Phase} {cs : List Char} {records : List Value} {failed : Bool}
  {kept : Option Value}

/-- A turn that no edge cuts is the turn of the whole text. -/
theorem turnOf_decodeChunked (h : ∀ others, ¬ CutsTurn chunk total phase cs others) :
    turnOf (decodeChunked chunk total) phase cs = turnOf valueOf phase cs := by
  unfold turnOf
  have hvalue : phase = .item ∨ phase = .sequence →
      decodeChunked chunk total (cs.dropWhile isBlank) = valueOf (cs.dropWhile isBlank) := by
    rintro (rfl | rfl)
    · exact decodeChunked_eq fun kept hcut => h _ (.item hcut)
    · exact decodeChunked_eq fun kept hcut => h _ (.sequence hcut)
  cases phase with
  | start => rfl
  | item => rw [turnAt, turnAt, hvalue (.inl rfl)]
  | separator => rfl
  | sequence => rw [turnAt, turnAt, hvalue (.inr rfl)]

theorem dropWhile_mark {tail : List Char} (h : IsMark tail) (more : List Char) :
    (tail ++ more).dropWhile isBlank = tail ++ more := by
  obtain ⟨m, t, rfl, hm⟩ := h.head
  rcases hm with rfl | rfl | rfl <;> rfl

/-- Nothing can be read in front of a mark. -/
theorem turnOf_mark {tail : List Char} (h : IsMark tail) (more : List Char) :
    turnOf (decodeChunked chunk total) .separator (tail ++ more) = .fails ∧
      turnOf (decodeChunked chunk total) .sequence (tail ++ more) = .fails := by
  obtain ⟨p, left, hread⟩ := Json.readValue_mark h more
  have hnone : decodeChunked chunk total (tail ++ more) = none :=
    decodeChunked_of_none (valueOf_eq_none.2 ⟨_, hread⟩)
  rw [turnOf, turnOf, dropWhile_mark h]
  obtain ⟨m, t, rfl, hm⟩ := h.head
  constructor
  · rcases hm with rfl | rfl | rfl <;> rfl
  · rw [turnAt, if_neg (by simp), hnone, taken]

/-- A turn that an edge cuts is the last that gives anything. -/
theorem runs_cutsTurn (h : CutsTurn chunk total phase cs records) :
    Runs (decodeChunked chunk total) phase cs records true := by
  cases h with
  | @item _ kept h =>
    cases kept with
    | none => exact .fails (by rw [turnOf, turnAt, h.decodeChunked_none]; rfl)
    | some v =>
      obtain ⟨tail, more, hdecode, hmark, hdict⟩ := h.decodeChunked_some
      have hturn : turnOf (decodeChunked chunk total) .item cs =
          .goes none .separator (tail ++ more) := by
        rw [turnOf, turnAt, hdecode, taken, itemRecord]
        exact hdict
      exact .goes hturn (.fails (turnOf_mark hmark more).1)
  | @sequence _ kept h =>
    cases kept with
    | none =>
      have hturn : turnOf (decodeChunked chunk total) .sequence cs = .fails := by
        rw [turnOf, turnAt, if_neg h.ne_nil, h.decodeChunked_none, taken]
      exact .fails hturn
    | some v =>
      obtain ⟨tail, more, hdecode, hmark, -⟩ := h.decodeChunked_some
      have hturn : turnOf (decodeChunked chunk total) .sequence cs =
          .goes (some v) .sequence (tail ++ more) := by
        rw [turnOf, turnAt, if_neg h.ne_nil, hdecode, taken]
      exact .goes hturn (.fails (turnOf_mark hmark more).2)

/-- A run that an edge cuts gives the records up to the value that it spoils, and fails. -/
theorem runs_cutsRun (h : CutsRun chunk total phase cs records) :
    Runs (decodeChunked chunk total) phase cs records true := by
  induction h with
  | here h => exact runs_cutsTurn h
  | later hno h _ ih => exact .goes ((turnOf_decodeChunked hno).trans h) ih

theorem CutsRun.chunk_lt (h : CutsRun chunk total phase cs records) (hle : cs.length ≤ total) :
    chunk < total := by
  induction h with
  | @here phase cs records h =>
    have hdrop := List.length_dropWhile_le isBlank cs
    cases h with
    | item h => exact h.chunk_lt (by omega)
    | sequence h => exact h.chunk_lt (by omega)
  | later _ h _ ih =>
    have := turnOf_shorter valueOf_length h
    exact ih (by omega)

/-- A run that no edge cuts is the run of the whole text. -/
theorem runs_uncut (h : Runs (decodeChunked chunk total) phase cs records failed)
    (hno : ∀ others, ¬ CutsRun chunk total phase cs others) :
    Runs valueOf phase cs records failed := by
  have hturn : ∀ {phase cs}, (∀ others, ¬ CutsRun chunk total phase cs others) →
      turnOf (decodeChunked chunk total) phase cs = turnOf valueOf phase cs :=
    fun hno => turnOf_decodeChunked fun others hcut => hno others (.here hcut)
  induction h with
  | ends h => exact .ends ((hturn hno).symm.trans h)
  | fails h => exact .fails ((hturn hno).symm.trans h)
  | goes h _ ih =>
    have hvalue := (hturn hno).symm.trans h
    exact .goes hvalue (ih fun others hrest =>
      hno _ (.later (fun _ hcut => hno _ (.here hcut)) hvalue hrest))

end Cutting

/-! ### Streams in turns -/

/-- A turn as a stream takes it, with fuel for those behind it. -/
inductive TakesTurn (chunk total fuel : Nat) : Turn → Cursor.Next → Prop
  | ends : TakesTurn chunk total fuel .ends (.ok none)
  | fails {e} (he : e.isValueError = true) : TakesTurn chunk total fuel .fails (.error e)
  | passes {next t} (hat : t.At chunk total) :
    TakesTurn chunk total fuel (.goes none next t.remaining) (Cursor.nextStreamed fuel next t)
  | gives {v next t} (hat : t.At chunk total) :
    TakesTurn chunk total fuel (.goes (some v) next t.remaining) (.ok (some (v, .stream next t)))

/-- The records that a cursor leads to, and the error behind them. -/
inductive Yields : Cursor → List Value → Option Error → Prop
  | done {c} (h : c.next = .ok none) : Yields c [] none
  | failed {c e} (h : c.next = .error e) : Yields c [] (some e)
  | more {c d v records fault} (h : c.next = .ok (some (v, d))) (hd : Yields d records fault) :
    Yields c (v :: records) fault

/-- The next record of a stream in front of a text, or its end, is the first of a run, and the
stream behind it goes on with the run. -/
inductive BeginsRun (chunk total : Nat) (phase : Phase) (cs : List Char) : Cursor.Next → Prop
  | ends (h : Runs (decodeChunked chunk total) phase cs [] false) :
    BeginsRun chunk total phase cs (.ok none)
  | fails {e} (h : Runs (decodeChunked chunk total) phase cs [] true) (he : e.isValueError = true) :
    BeginsRun chunk total phase cs (.error e)
  | gives {v next t} (hat : t.At chunk total)
    (hlt : t.remaining.length + spareTurns next < cs.length + spareTurns phase)
    (h : ∀ records failed, Runs (decodeChunked chunk total) next t.remaining records failed →
      Runs (decodeChunked chunk total) phase cs (v :: records) failed) :
    BeginsRun chunk total phase cs (.ok (some (v, .stream next t)))

section Streams

variable {chunk total : Nat} {phase next : Phase} {s : Stream} {cs rest : List Char} {v : Value}
  {result : Cursor.Next} {c : Cursor} {records others : List Value} {fault other : Option Error}

theorem head?_ne {c : Char} (h : ∀ tail, cs = c :: tail → False) : cs.head? ≠ some c := by
  rintro hhead
  cases cs with
  | nil => cases hhead
  | cons d cs => exact h cs (by rw [Option.some.inj hhead])

/-- What is peeked at can be passed over. -/
theorem peek_advance (h : s.At chunk total) (hchunk : 1 ≤ chunk) :
    ∃ t, s.peek = .ok ((s.remaining.dropWhile isBlank).head?, t) ∧ t.At chunk total ∧
      t.remaining = s.remaining.dropWhile isBlank ∧
      ∀ c rest, s.remaining.dropWhile isBlank = c :: rest →
        t.advance.At chunk total ∧ t.advance.remaining = rest := by
  obtain ⟨t, hpeek, hat, htrem, hahead, -⟩ := Stream.peek_spec h hchunk
  refine ⟨t, hpeek, hat, htrem, fun c rest htail => ?_⟩
  refine hat.advance (htrem.trans htail) fun hnil => ?_
  rw [htrem, htail] at hahead
  cases hahead hnil

/-- The first turn: what stands in front of the text decides whether its items or its values are
read. -/
theorem turn_start (fuel : Nat) (h : s.At chunk total) (hchunk : 1 ≤ chunk) :
    TakesTurn chunk total fuel (startTurn (s.remaining.dropWhile isBlank))
      (Cursor.nextStreamed (fuel + 1) .start s) := by
  obtain ⟨t, hpeek, hat, htrem, hadvance⟩ := peek_advance h hchunk
  generalize s.remaining.dropWhile isBlank = tail at hpeek htrem hadvance
  rw [startTurn.eq_def]
  split
  · rename_i rest
    obtain ⟨hat₁, rfl⟩ := hadvance _ _ rfl
    obtain ⟨u, hpeek₁, hat₂, htrem₂, -⟩ := Stream.peek_spec hat₁ hchunk
    rw [← htrem₂] at hpeek₁ ⊢
    simp only [Cursor.nextStreamed, hpeek, List.head?_cons, hpeek₁]
    split
    · rename_i hclose
      rw [hclose]
      exact .ends
    · rename_i hitem
      split
      · rename_i heq
        cases heq
      · rename_i heq
        exact absurd (Prod.mk.inj (Except.ok.inj heq)).1 (head?_ne hitem)
      · rename_i heq
        cases heq
        exact .passes hat₂
  · rename_i hvalue
    simp only [Cursor.nextStreamed, hpeek]
    split
    · rename_i heq
      cases heq
    · rename_i heq
      exact absurd (Prod.mk.inj (Except.ok.inj heq)).1 (head?_ne hvalue)
    · rename_i heq
      cases heq
      rw [← htrem]
      exact .passes hat

/-- The turn in front of an item: it is decoded, and is a record if it is an object. -/
theorem turn_item (fuel : Nat) (h : s.At chunk total) (hchunk : 1 ≤ chunk) :
    TakesTurn chunk total fuel
      (taken itemRecord .separator (decodeChunked chunk total (s.remaining.dropWhile isBlank)))
      (Cursor.nextStreamed (fuel + 1) .item s) := by
  have hdecodes := Stream.decode_decodes h hchunk
  generalize decodeChunked chunk total (s.remaining.dropWhile isBlank) = found at hdecodes
  cases found with
  | none =>
    obtain ⟨e, he, hvalue⟩ := hdecodes
    simp only [Cursor.nextStreamed, he]
    exact .fails hvalue
  | some found =>
    obtain ⟨v, rest⟩ := found
    obtain ⟨u, hu, huat, rfl⟩ := hdecodes
    rw [taken]
    cases v <;> simp only [Cursor.nextStreamed, hu, itemRecord]
    case dict => exact .gives huat
    all_goals exact .passes huat

/-- The turn behind an item: a bracket ends the stream, and a comma leads to the next item. -/
theorem turn_separator (fuel : Nat) (h : s.At chunk total) (hchunk : 1 ≤ chunk) :
    TakesTurn chunk total fuel (separatorTurn (s.remaining.dropWhile isBlank))
      (Cursor.nextStreamed (fuel + 1) .separator s) := by
  obtain ⟨t, hpeek, hat, htrem, hadvance⟩ := peek_advance h hchunk
  generalize s.remaining.dropWhile isBlank = tail at hpeek htrem hadvance
  rw [separatorTurn.eq_def]
  split
  · simp only [Cursor.nextStreamed, hpeek]
    exact .ends
  · obtain ⟨hat₁, rfl⟩ := hadvance _ _ rfl
    simp only [Cursor.nextStreamed, hpeek]
    exact .passes hat₁
  · rename_i hclose hcomma
    simp only [Cursor.nextStreamed, hpeek]
    split
    · rename_i heq
      cases heq
    · rename_i heq
      exact absurd (Prod.mk.inj (Except.ok.inj heq)).1 (head?_ne hclose)
    · rename_i heq
      exact absurd (Prod.mk.inj (Except.ok.inj heq)).1 (head?_ne hcomma)
    · exact .fails rfl

/-- The turn in front of a value of a sequence: it is decoded, if anything is left. -/
theorem turn_sequence (fuel : Nat) (h : s.At chunk total) (hchunk : 1 ≤ chunk) :
    TakesTurn chunk total fuel
      (if s.remaining.dropWhile isBlank = [] then .ends
        else taken some .sequence (decodeChunked chunk total (s.remaining.dropWhile isBlank)))
      (Cursor.nextStreamed (fuel + 1) .sequence s) := by
  obtain ⟨t, hpeek, -⟩ := Stream.peek_spec h hchunk
  have hdecodes := Stream.decode_decodes h hchunk
  generalize s.remaining.dropWhile isBlank = tail at hpeek hdecodes
  cases tail with
  | nil =>
    simp only [Cursor.nextStreamed, hpeek]
    exact .ends
  | cons c tail =>
    have hagain := Stream.decode_peek h hchunk hpeek
    rw [if_neg (by simp)]
    simp only [Cursor.nextStreamed, hpeek, List.head?_cons, hagain]
    generalize decodeChunked chunk total (c :: tail) = found at hdecodes
    cases found with
    | none =>
      obtain ⟨e, he, hvalue⟩ := hdecodes
      rw [he]
      exact .fails hvalue
    | some found =>
      obtain ⟨v, rest⟩ := found
      obtain ⟨u, hu, huat, rfl⟩ := hdecodes
      rw [hu]
      exact .gives huat

/-- **One turn of a stream** is the turn in front of its text. -/
theorem nextStreamed_turn (phase : Phase) (fuel : Nat) (h : s.At chunk total) (hchunk : 1 ≤ chunk) :
    TakesTurn chunk total fuel (turnOf (decodeChunked chunk total) phase s.remaining)
      (Cursor.nextStreamed (fuel + 1) phase s) := by
  cases phase with
  | start => exact turn_start fuel h hchunk
  | item => exact turn_item fuel h hchunk
  | separator => exact turn_separator fuel h hchunk
  | sequence => exact turn_sequence fuel h hchunk

/-- **The next record of a stream**: turns without a record are made until there is one. -/
theorem nextStreamed_begins (fuel : Nat) (h : s.At chunk total) (hchunk : 1 ≤ chunk)
    (hfuel : s.remaining.length + spareTurns phase ≤ fuel) :
    BeginsRun chunk total phase s.remaining (Cursor.nextStreamed fuel phase s) := by
  induction fuel generalizing phase s with
  | zero => cases phase <;> simp [spareTurns] at hfuel
  | succ fuel ih =>
    have hturn := nextStreamed_turn phase fuel h hchunk
    generalize hmade : turnOf (decodeChunked chunk total) phase s.remaining = turn at hturn
    generalize Cursor.nextStreamed (fuel + 1) phase s = result at hturn ⊢
    cases hturn with
    | ends => exact .ends (.ends hmade)
    | fails he => exact .fails (.fails hmade) he
    | @passes next t hat =>
      obtain ⟨-, hlt⟩ := turnOf_shorter decodeChunked_length hmade
      have hbegins : BeginsRun chunk total next t.remaining (Cursor.nextStreamed fuel next t) :=
        ih hat (by omega)
      generalize Cursor.nextStreamed fuel next t = result at hbegins ⊢
      cases hbegins with
      | ends hruns => exact .ends (.goes hmade hruns)
      | fails hruns he => exact .fails (.goes hmade hruns) he
      | gives hat hshort hruns =>
        exact .gives hat (by omega) fun records failed hrest => .goes hmade (hruns _ _ hrest)
    | gives hat =>
      obtain ⟨-, hlt⟩ := turnOf_shorter decodeChunked_length hmade
      exact .gives hat hlt fun records failed hrest => .goes hmade hrest

/-- **The records of a stream** are those of the run of its text, and it fails as the run does. -/
theorem exists_yields (phase : Phase) (h : s.At chunk total) (hchunk : 1 ≤ chunk) :
    ∃ records fault, Yields (.stream phase s) records fault ∧
      Runs (decodeChunked chunk total) phase s.remaining records fault.isSome ∧
      ∀ e, fault = some e → e.isValueError = true := by
  generalize hn : s.remaining.length + spareTurns phase = n
  induction n using Nat.strong_induction_on generalizing phase s with
  | _ n ih =>
    have hfuel : s.remaining.length + spareTurns phase ≤ 2 * s.left + 3 := by
      have hleft : s.left = s.remaining.length := (Stream.length_remaining s).symm
      have hspare : spareTurns phase ≤ 2 := by cases phase <;> simp [spareTurns]
      omega
    have hbegins := nextStreamed_begins _ h hchunk hfuel
    generalize hnext : Cursor.nextStreamed (2 * s.left + 3) phase s = next at hbegins
    cases hbegins with
    | ends hruns => exact ⟨[], none, .done hnext, hruns, by simp⟩
    | @fails e hruns he =>
      refine ⟨[], some e, .failed hnext, hruns, ?_⟩
      rintro d hd
      rwa [← Option.some.inj hd]
    | gives hat hlt hruns =>
      obtain ⟨records, fault, hyields, hrest, hvalue⟩ := ih _ (hn ▸ hlt) _ hat rfl
      exact ⟨_, fault, .more hnext hyields, hruns _ _ hrest, hvalue⟩

/-- A cursor leads to one list of records. -/
theorem Yields.unique (h : Yields c records fault) (h' : Yields c others other) :
    records = others ∧ fault = other := by
  induction h generalizing others with
  | done h =>
    cases h' with
    | done _ => exact ⟨rfl, rfl⟩
    | failed h' => rw [h] at h'; cases h'
    | more h' _ => rw [h] at h'; cases h'
  | failed h =>
    cases h' with
    | done h' => rw [h] at h'; cases h'
    | failed h' => exact ⟨rfl, congrArg some (Except.error.inj (h.symm.trans h'))⟩
    | more h' _ => rw [h] at h'; cases h'
  | more h _ ih =>
    cases h' with
    | done h' => rw [h] at h'; cases h'
    | failed h' => rw [h] at h'; cases h'
    | more h' hrest' =>
      obtain ⟨rfl, rfl⟩ := Prod.mk.inj (Option.some.inj (Except.ok.inj (h.symm.trans h')))
      obtain ⟨rfl, rfl⟩ := ih hrest'
      exact ⟨rfl, rfl⟩

end Streams

/-! ### Streaming a file -/

/-- **Streaming a file** in chunks of a size gives these records, and a value error behind them if
it fails. -/
def Streams (files : FileTree) (file : Location) (chunk : Nat) (records : List Value)
    (failed : Bool) : Prop :=
  ∃ r c fault, (Reader.streaming file chunk).openFile files = .ok r ∧ r.cursor = some c ∧
    Yields c records fault ∧ fault.isSome = failed ∧ ∀ e, fault = some e → e.isValueError = true

/-- Two chunk sizes are told apart by nothing: the same records, and the same end. -/
def StreamsAlike (files : FileTree) (file : Location) (chunk other : Nat) : Prop :=
  ∃ records failed, Streams files file chunk records failed ∧
    Streams files file other records failed

section Files

variable {files : FileTree} {file : Location} {cs : List Char} {chunk a b : Nat}
  {records others : List Value} {failed : Bool}

theorem streams_iff (hfile : files.readText file = .ok cs) (hchunk : 1 ≤ chunk) :
    Streams files file chunk records failed ↔
      Runs (decodeChunked chunk cs.length) .start cs records failed := by
  obtain ⟨r, hopen, -, hcursor⟩ := Reader.openFile_streaming chunk hfile
  obtain ⟨all, fault, hyields, hruns, hvalue⟩ :=
    exists_yields .start (Stream.ofSource_at file.text chunk cs) hchunk
  constructor
  · rintro ⟨r', c, fault', hopen', hcursor', hyields', rfl, -⟩
    obtain rfl := Except.ok.inj (hopen.symm.trans hopen')
    obtain rfl := Option.some.inj (hcursor.symm.trans hcursor')
    obtain ⟨rfl, rfl⟩ := hyields.unique hyields'
    exact hruns
  · intro h
    obtain ⟨rfl, rfl⟩ := hruns.unique h
    exact ⟨r, _, fault, hopen, hcursor, hyields, rfl, hvalue⟩

theorem Streams.exists (hfile : files.readText file = .ok cs) (hchunk : 1 ≤ chunk) :
    ∃ records failed, Streams files file chunk records failed := by
  obtain ⟨records, fault, -, hruns, -⟩ :=
    exists_yields .start (Stream.ofSource_at file.text chunk cs) hchunk
  exact ⟨records, fault.isSome, (streams_iff hfile hchunk).2 hruns⟩

theorem Shows.streams (hfile : files.readText file = .ok cs) (hchunk : 1 ≤ chunk)
    (h : Shows chunk cs records) : Streams files file chunk records true :=
  (streams_iff hfile hchunk).2 (runs_cutsRun h.1)

/-- A stream whose chunk edges do not show gives what the values of the text make. -/
theorem Streams.whole (hfile : files.readText file = .ok cs) (hchunk : 1 ≤ chunk)
    (hno : ∀ others, ¬ Shows chunk cs others) (h : Streams files file chunk records failed) :
    Runs valueOf .start cs records failed := by
  have hruns := (streams_iff hfile hchunk).1 h
  by_cases hcut : ∃ others, CutsRun chunk cs.length .start cs others
  · obtain ⟨others, hcut⟩ := hcut
    obtain ⟨rfl, rfl⟩ := hruns.unique (runs_cutsRun hcut)
    by_contra hother
    exact hno _ ⟨hcut, hother⟩
  · exact runs_uncut hruns fun others hothers => hcut ⟨others, hothers⟩

/-- A chunk that holds the whole text has no edge that shows. -/
theorem not_shows_whole (hchunk : cs.length ≤ chunk) : ¬ Shows chunk cs records := by
  intro h
  have := h.1.chunk_lt le_rfl
  omega

/-- **Chunk sizes are told apart** exactly by the edges that show: two sizes give the same records
and end in the same way if and only if an edge of the one shows where one of the other does. No edge
of a chunk shows that holds the whole text. -/
theorem streamsAlike_iff (hfile : files.readText file = .ok cs) (ha : 1 ≤ a) (hb : 1 ≤ b) :
    (StreamsAlike files file a b ↔ ∀ records, Shows a cs records ↔ Shows b cs records) ∧
      (cs.length ≤ b → ∀ records, ¬ Shows b cs records) := by
  refine ⟨⟨?_, ?_⟩, fun hlong _ => not_shows_whole hlong⟩
  · -- where an edge shows, the records are not those of the text, so one of the other size shows
    -- too
    have hone : ∀ {a b}, 1 ≤ a → 1 ≤ b → StreamsAlike files file a b →
        ∀ records, Shows a cs records → Shows b cs records := by
      rintro a b ha hb ⟨records, failed, hstreams, hsame⟩ others hshows
      obtain ⟨rfl, rfl⟩ := ((streams_iff hfile ha).1 hstreams).unique
        ((streams_iff hfile ha).1 (hshows.streams hfile ha))
      by_contra hno
      refine hshows.2 (hsame.whole hfile hb fun others hothers => hno ?_)
      obtain ⟨rfl, -⟩ := ((streams_iff hfile hb).1 hsame).unique
        ((streams_iff hfile hb).1 (hothers.streams hfile hb))
      exact hothers
    intro halike records
    obtain ⟨shared, failed, hstreams, hsame⟩ := halike
    exact ⟨hone ha hb ⟨shared, failed, hstreams, hsame⟩ records,
      hone hb ha ⟨shared, failed, hsame, hstreams⟩ records⟩
  · intro hshows
    obtain ⟨records, failed, hstreams⟩ := Streams.exists hfile ha
    obtain ⟨others, other, hothers⟩ := Streams.exists hfile hb
    by_cases hshown : ∃ shown, Shows a cs shown
    · obtain ⟨shown, hshown⟩ := hshown
      exact ⟨shown, true, hshown.streams hfile ha, ((hshows _).1 hshown).streams hfile hb⟩
    · have hwhole := hstreams.whole hfile ha fun shown h => hshown ⟨shown, h⟩
      have hwhole' := hothers.whole hfile hb fun shown h => hshown ⟨shown, (hshows _).2 h⟩
      obtain ⟨rfl, rfl⟩ := hwhole.unique hwhole'
      exact ⟨_, _, hstreams, hothers⟩

end Files

/-! ### A number that stands by itself -/

namespace Document

/-- The text of a number with a fraction. -/
def pointText : List Char := "1.5".toList

theorem readText_pointText : (soleTree pointText).readText soleFile = .ok pointText :=
  readText_soleTree (by decide)

/-- In one chunk, the number is read. -/
theorem streams_pointText_whole :
    Streams (soleTree pointText) soleFile 3 [.float (.ofDecimal false 15 (-1))] false :=
  ⟨_, _, none, rfl, rfl, .more rfl (.done rfl), rfl, by simp⟩

/-- With an edge behind the point, its whole part is taken for a number. -/
theorem streams_pointText_cut : Streams (soleTree pointText) soleFile 2 [.int 1] true := by
  refine ⟨_, _, some (.value (.jsonStream "data.json" _)), rfl, rfl, .more rfl (.failed rfl), rfl,
    ?_⟩
  rintro e he
  rw [← Option.some.inj he]
  rfl

theorem not_alike_pointText {records : List Value} {failed : Bool}
    (h : Streams (soleTree pointText) soleFile 2 records failed) :
    ¬ Streams (soleTree pointText) soleFile 3 records failed := by
  intro h'
  have hcut := ((streams_iff readText_pointText (by decide)).1 h).unique
    ((streams_iff readText_pointText (by decide)).1 streams_pointText_cut)
  have hwhole := ((streams_iff readText_pointText (by decide)).1 h').unique
    ((streams_iff readText_pointText (by decide)).1 streams_pointText_whole)
  have hends := hcut.2.symm.trans hwhole.2
  cases hends

/-- **A chunk edge behind a point shows**: the two sizes give different records, and only one of
them ends without a failure. -/
theorem not_streamsAlike_pointText :
    (soleTree pointText).readText soleFile = .ok pointText ∧
      Streams (soleTree pointText) soleFile 3 [.float (.ofDecimal false 15 (-1))] false ∧
      Streams (soleTree pointText) soleFile 2 [.int 1] true ∧
      ¬ StreamsAlike (soleTree pointText) soleFile 2 3 :=
  ⟨readText_pointText, streams_pointText_whole, streams_pointText_cut,
    fun ⟨_, _, h, h'⟩ => not_alike_pointText h h'⟩

theorem shows_pointText :
    (∃ records, Shows 2 pointText records) ∧ ∀ records, ¬ Shows 3 pointText records := by
  obtain ⟨halike, hwhole⟩ :=
    streamsAlike_iff readText_pointText (show 1 ≤ 2 by decide) (show 1 ≤ 3 by decide)
  have hnone := hwhole (by decide)
  refine ⟨?_, hnone⟩
  by_contra hno
  obtain ⟨records, failed, h, h'⟩ := halike.2 fun records =>
    ⟨fun h => absurd ⟨records, h⟩ hno, fun h => absurd h (hnone records)⟩
  exact not_alike_pointText h h'

end Document

end Runbook.Records
