import Runbook.Proofs.JsonReading
import Runbook.Records.Stream

/-!
# Decoding a stream in chunks

A stream that reads a text without faults stands at a position of it and has read it up to an edge:
a multiple of the chunk size, or the end of the text. It reads no further than it has to, so no
multiple of the chunk size lies between its position and its edge.

* `peek_spec`: peeking passes over blanks and no more.
* `decodeWith_spec`: where an object stands, decoding gives it, unless a chunk edge cuts it inside
  a number, behind more digits than an integer may have.
-/

namespace Runbook.Records

open Runbook.Text

/-- A chunk edge that cuts the text of a value, which stands at a position, where what is read of
it breaks off in an overlong number. -/
def CutsNumber (chunk position : Nat) (text : List Char) : Prop :=
  ∃ part rest, text = part ++ rest ∧ chunk ∣ position + part.length ∧ Json.Overlong part

namespace Stream

/-- The text that is still to come. -/
def remaining (s : Stream) : List Char := s.ahead ++ s.source.unread

/-- A stream in a text of so many characters, of which no chunk edge behind `position` has been
passed that need not have been. -/
structure In (chunk total position : Nat) (s : Stream) : Prop where
  chunk_eq : s.chunk = chunk
  healthy : s.source.fault = none
  left_le : s.remaining.length ≤ total
  edge : s.source.unread ≠ [] → chunk ∣ total - s.source.unread.length
  near : ∀ e, chunk ∣ e → position < e → total - s.source.unread.length ≤ e

variable {chunk total position : Nat} {s t : Stream}

theorem length_remaining (s : Stream) :
    s.remaining.length = s.ahead.length + s.source.unread.length :=
  List.length_append

/-- What is known of a stream is known of it at any later position. -/
theorem In.later {next : Nat} (h : s.In chunk total position) (hle : position ≤ next) :
    s.In chunk total next :=
  { h with near := fun e he hpos => h.near e he (by omega) }

/-- Passing over what lies ahead changes nothing about chunks. -/
theorem In.pass (h : s.In chunk total position) (rest : List Char)
    (hle : rest.length ≤ s.ahead.length) : (s.passTo rest).In chunk total position where
  chunk_eq := h.chunk_eq
  healthy := h.healthy
  left_le := by
    have := h.left_le
    rw [length_remaining] at this ⊢
    simp only [passTo]
    omega
  edge := h.edge
  near := h.near

/-- At the end nothing is read. -/
theorem fill_end (h : s.In chunk total position) (hunread : s.source.unread = []) :
    s.fill = .ok none := by
  simp [fill, Source.read, h.healthy, hunread]

/-- Before the end a chunk is read, if the position has come to the edge. -/
theorem fill_more (h : s.In chunk total position) (hchunk : 1 ≤ chunk)
    (hunread : s.source.unread ≠ []) (hedge : total - s.source.unread.length ≤ position) :
    ∃ t, s.fill = .ok (some t) ∧ t.In chunk total position ∧ t.remaining = s.remaining ∧
      t.source.unread.length < s.source.unread.length ∧
      t.ahead = s.ahead ++ s.source.unread.take chunk ∧ t.name = s.name := by
  obtain ⟨c, cs, hcs⟩ := List.exists_cons_of_ne_nil hunread
  obtain ⟨n, rfl⟩ : ∃ n, chunk = n + 1 := ⟨chunk - 1, by omega⟩
  have hleft := h.left_le
  have hdvd := h.edge hunread
  rw [length_remaining] at hleft
  refine ⟨{ s with buffer := s.ahead ++ s.source.unread.take (n + 1), ahead :=
    s.ahead ++ s.source.unread.take (n + 1), source := ⟨s.source.unread.drop (n + 1), none⟩ },
    ?_, ⟨h.chunk_eq, rfl, ?_, fun hne => ?_, fun e he hpos => ?_⟩, ?_, ?_, rfl, rfl⟩
  · simp [fill, Source.read, h.healthy, h.chunk_eq, hcs]
  · rw [length_remaining]
    simp only [List.length_append, List.length_take, List.length_drop]
    omega
  · have hlt : (s.source.unread.drop (n + 1)).length ≠ 0 := fun h0 =>
      hne (List.length_eq_zero_iff.1 h0)
    simp only [List.length_drop] at hlt ⊢
    have : total - (s.source.unread.length - (n + 1)) =
        total - s.source.unread.length + (n + 1) := by omega
    rw [this]
    exact Nat.dvd_add hdvd (Nat.dvd_refl _)
  · simp only [List.length_drop]
    -- a multiple behind the old edge is a whole chunk behind it
    have hstep : n + 1 ≤ e - (total - s.source.unread.length) :=
      Nat.le_of_dvd (by omega) (Nat.dvd_sub he hdvd)
    omega
  · simp [remaining]
  · simp only [List.length_drop, hcs, List.length_cons]
    omega

/-! ### Peeking -/

/-- A stream that stands where what is still to come begins. -/
abbrev At (chunk total : Nat) (s : Stream) : Prop :=
  s.In chunk total (total - s.remaining.length)

theorem At.skipBlanks (h : s.At chunk total) : s.skipBlanks.At chunk total := by
  have hle := List.length_dropWhile_le isBlank s.ahead
  refine In.later (In.pass h _ hle) ?_
  rw [length_remaining, length_remaining]
  simp only [Stream.skipBlanks]
  omega

theorem remaining_passTo (s : Stream) (rest : List Char) :
    (s.passTo rest).remaining = rest ++ s.source.unread := rfl

/-- Passing over blanks, with chunks read where the buffer ends. -/
theorem peekWith_spec (fuel : Nat) (h : s.At chunk total) (hchunk : 1 ≤ chunk)
    (hfuel : s.source.unread.length ≤ fuel) :
    ∃ t, peekWith fuel s = .ok t ∧ t.At chunk total ∧
      t.remaining = s.remaining.dropWhile isBlank ∧ (t.ahead = [] → t.remaining = []) ∧
      t.name = s.name := by
  induction fuel generalizing s with
  | zero =>
    have hunread : s.source.unread = [] := List.length_eq_zero_iff.1 (by omega)
    refine ⟨s.skipBlanks, rfl, h.skipBlanks, ?_, fun hnil => ?_, rfl⟩
    · simp [skipBlanks, remaining, hunread]
    · rw [remaining, hnil]
      exact hunread
  | succ fuel ih =>
    rw [peekWith]
    cases hahead : s.ahead.dropWhile isBlank with
    | cons c cs =>
      have hskip : s.skipBlanks.ahead = c :: cs := hahead
      refine ⟨s.skipBlanks, by simp only [hskip], h.skipBlanks, ?_, fun hnil => ?_, rfl⟩
      · rw [remaining, remaining, hskip, List.dropWhile_append, hahead]
        rfl
      · rw [hskip] at hnil; cases hnil
    | nil =>
      have hskip : s.skipBlanks.ahead = [] := hahead
      have hremaining : s.remaining.dropWhile isBlank = s.source.unread.dropWhile isBlank := by
        rw [remaining, List.dropWhile_append, hahead]
        rfl
      by_cases hunread : s.source.unread = []
      · refine ⟨s.skipBlanks, ?_, h.skipBlanks, ?_, fun _ => ?_, rfl⟩
        · simp only [hskip, fill_end h.skipBlanks hunread]
        · rw [hremaining, remaining, hskip]
          simp [skipBlanks, hunread]
        · rw [remaining, hskip]
          exact hunread
      · have hedge : total - s.skipBlanks.source.unread.length ≤
            total - s.skipBlanks.remaining.length := by
          rw [length_remaining, hskip]
          simp
        obtain ⟨t, hfill, ht, hremains, hlt, -, hname⟩ :=
          fill_more h.skipBlanks hchunk hunread hedge
        rw [← hremains] at ht
        obtain ⟨w, hw, hat, hrest, hend, hnamed⟩ := ih ht (by
          have : t.source.unread.length < s.source.unread.length := hlt
          omega)
        refine ⟨w, ?_, hat, ?_, hend, hnamed.trans hname⟩
        · simp only [hskip, hfill, hw]
        · rw [hrest, hremains, hremaining, remaining, hskip]
          rfl

/-- **Peeking passes over blanks** and gives the first of what is still to come behind them. -/
theorem peek_spec (h : s.At chunk total) (hchunk : 1 ≤ chunk) :
    ∃ t, s.peek = .ok ((s.remaining.dropWhile isBlank).head?, t) ∧ t.At chunk total ∧
      t.remaining = s.remaining.dropWhile isBlank ∧ (t.ahead = [] → t.remaining = []) ∧
      t.name = s.name := by
  obtain ⟨t, hpeek, hat, hrest, hend, hname⟩ :=
    peekWith_spec (s.source.unread.length + 1) h hchunk (by omega)
  refine ⟨t, ?_, hat, hrest, hend, hname⟩
  have hhead : t.ahead.head? = t.remaining.head? := by
    cases hahead : t.ahead with
    | nil => rw [hend hahead]
    | cons c cs => rw [remaining, hahead]; rfl
  rw [peek, hpeek, ← hrest, ← hhead]

/-! ### Decoding -/

/-- A value is complete if something stands behind it, or if it ends with the text. -/
theorem decodeWith_complete {fuel : Nat} {v : Value} {rest : List Char}
    (h : s.In chunk total position) (hread : Json.readValue s.ahead = .ok (v, rest))
    (hend : rest = [] → s.source.unread = []) :
    decodeWith fuel s = .ok (v, s.passTo rest) := by
  cases fuel with
  | zero => rw [decodeWith, hread]
  | succ fuel =>
    rw [decodeWith, hread]
    simp only
    cases rest with
    | nil => simp only [fill_end h (hend rfl)]
    | cons c rest => rfl

/-- What is no value yet, or ends with the buffer, is decoded again with more text. -/
theorem decodeWith_refill {fuel : Nat}
    (hread : ∀ v c rest, Json.readValue s.ahead ≠ .ok (v, c :: rest))
    (hshort : ¬ Json.Overlong s.ahead) (hfill : s.fill = .ok (some t)) :
    decodeWith (fuel + 1) s = decodeWith fuel t := by
  rw [decodeWith]
  split
  · rename_i v rest hv
    cases rest with
    | nil => simp only [hfill]
    | cons c rest => exact absurd hv (hread v c rest)
  · rename_i count hcount
    exact absurd ⟨count, hcount⟩ hshort
  · simp only [hfill]

theorem decodeWith_overlong {fuel : Nat} (h : Json.Overlong s.ahead) :
    ∃ k, decodeWith fuel s = .error (.value (.integerTooLong k)) := by
  obtain ⟨k, hk⟩ := h
  refine ⟨some k, ?_⟩
  cases fuel with
  | zero => rw [decodeWith, hk]; rfl
  | succ fuel => rw [decodeWith, hk]; rfl

section Object

variable {core after : List Char} {members : Entries}

/-- The edge of a stream that stands at the beginning of an object. -/
theorem edge_eq (h : s.In chunk total position) (hrem : s.remaining = core ++ after) :
    total - s.source.unread.length = total - (core ++ after).length + s.ahead.length := by
  have hle := h.left_le
  rw [← hrem]
  rw [length_remaining] at hle ⊢
  omega

/-- Chunk edges from the next one on do not cut a number, if the one that has been read up to does
not. -/
theorem clear_refill (hrem : s.remaining = core ++ after) (hshort : ¬ Json.Overlong s.ahead)
    (hdvd : chunk ∣ position + s.ahead.length)
    (ht : t.ahead = s.ahead ++ s.source.unread.take chunk)
    (hclear : ∀ part rest, core = part ++ rest → t.ahead.length ≤ part.length →
      chunk ∣ position + part.length → ¬ Json.Overlong part) :
    ∀ part rest, core = part ++ rest → s.ahead.length ≤ part.length →
      chunk ∣ position + part.length → ¬ Json.Overlong part := by
  intro part rest hpart hle hdiv
  by_cases hlen : t.ahead.length ≤ part.length
  · exact hclear part rest hpart hlen hdiv
  · -- less than a chunk behind the old edge, the only edge is the old one itself
    have htlen : t.ahead.length ≤ s.ahead.length + chunk := by
      rw [ht, List.length_append, List.length_take]
      omega
    have hdiff : chunk ∣ part.length - s.ahead.length := by
      have := Nat.dvd_sub hdiv hdvd
      rwa [Nat.add_sub_add_left] at this
    have hzero : part.length - s.ahead.length = 0 :=
      Nat.eq_zero_of_dvd_of_lt hdiff (by omega)
    have heq : part = s.ahead := by
      rw [remaining, hpart, List.append_assoc] at hrem
      exact (List.append_inj hrem (by omega)).1.symm
    rwa [heq]

/-- Decoding went well: the object is given, and no chunk edge from the one that had been read up
to cuts it in an overlong number. -/
def Decoded (chunk total : Nat) (core after : List Char) (members : Entries) (fuel : Nat)
    (s : Stream) : Prop :=
  (∃ t, decodeWith fuel s = .ok (.dict members, t) ∧ t.At chunk total ∧ t.remaining = after ∧
    t.name = s.name) ∧
  ∀ part rest, core = part ++ rest → s.ahead.length ≤ part.length →
    chunk ∣ total - (core ++ after).length + part.length → ¬ Json.Overlong part

/-- An object that has been read to its end, and further if more of the text is left. -/
theorem decoded_whole {fuel : Nat} {rest : List Char} (hcore : Json.IsObject core members)
    (h : s.In chunk total (total - after.length)) (hrem : s.remaining = core ++ after)
    (hahead : s.ahead = core ++ rest) (hend : rest = [] → s.source.unread = []) :
    Decoded chunk total core after members fuel s := by
  have hafter : rest ++ s.source.unread = after := by
    rw [remaining, hahead, List.append_assoc] at hrem
    exact List.append_cancel_left hrem
  have hread : Json.readValue s.ahead = .ok (.dict members, rest) := by
    rw [hahead, hcore.readValue_eq]
  have hpass := h.pass rest (by rw [hahead, List.length_append]; omega)
  refine ⟨⟨s.passTo rest, decodeWith_complete h hread hend, ?_, hafter, rfl⟩, ?_⟩
  · rw [At, remaining_passTo, hafter]
    exact hpass
  · rintro part more hpart hle - ⟨k, hk⟩
    have hmore : more = [] := by
      rw [hahead, hpart] at hle
      simp only [List.length_append] at hle
      exact List.length_eq_zero_iff.1 (by omega)
    have hwhole := hcore.readValue_eq []
    rw [hpart, hmore, List.append_nil, List.append_nil, hk] at hwhole
    cases hwhole

/-- **Decoding an object**: it is given, with the stream behind it, or a chunk edge that is still
to come cuts it in an overlong number. -/
theorem decodeWith_spec (hcore : Json.IsObject core members) (fuel : Nat)
    (h : s.In chunk total (total - after.length)) (hchunk : 1 ≤ chunk)
    (hrem : s.remaining = core ++ after) (hne : s.ahead ≠ [])
    (hfuel : s.source.unread.length ≤ fuel) :
    Decoded chunk total core after members fuel s ∨
    (∃ k, decodeWith fuel s = .error (.value (.integerTooLong k))) ∧
      CutsNumber chunk (total - (core ++ after).length) core := by
  induction fuel generalizing s with
  | zero =>
    have hunread : s.source.unread = [] := List.length_eq_zero_iff.1 (by omega)
    have hahead : s.ahead = core ++ after := by
      rw [← hrem, remaining, hunread, List.append_nil]
    exact .inl (decoded_whole hcore h hrem hahead fun _ => hunread)
  | succ fuel ih =>
    have hedge := edge_eq h hrem
    -- with more text read, the claim is the claim for the stream that has read it
    have refill : (∀ v c rest, Json.readValue s.ahead ≠ .ok (v, c :: rest)) →
        ¬ Json.Overlong s.ahead → s.source.unread ≠ [] → s.ahead.length ≤ core.length →
        Decoded chunk total core after members (fuel + 1) s ∨
        (∃ k, decodeWith (fuel + 1) s = .error (.value (.integerTooLong k))) ∧
          CutsNumber chunk (total - (core ++ after).length) core := by
      intro hread hshort hunread hle
      have hlen : total - (core ++ after).length + core.length ≤ total - after.length := by
        have := h.left_le
        rw [hrem] at this
        rw [List.length_append] at this ⊢
        omega
      obtain ⟨t, hfill, ht, hremains, hlt, hahead, hname⟩ :=
        fill_more h hchunk hunread (by rw [hedge]; omega)
      have htne : t.ahead ≠ [] := by rw [hahead]; simp [hne]
      rw [Decoded, decodeWith_refill hread hshort hfill]
      rcases ih ht (hremains.trans hrem) htne (by omega) with
        ⟨⟨w, hw, hat, hwrem, hwname⟩, hclear⟩ | hcut
      · refine .inl ⟨⟨w, hw, hat, hwrem, hwname.trans hname⟩, ?_⟩
        exact clear_refill hrem hshort (hedge ▸ h.edge hunread) hahead hclear
      · exact .inr hcut
    rcases Nat.lt_or_ge s.ahead.length core.length with hlt | hge
    · -- the edge lies inside the object
      obtain ⟨rest, hrest, hunread⟩ : ∃ rest, core = s.ahead ++ rest ∧
          s.source.unread = rest ++ after := by
        obtain h1 | ⟨rest, hahead, -⟩ := List.append_eq_append_iff.1 hrem
        · exact h1
        · have := congrArg List.length hahead
          rw [List.length_append] at this
          omega
      have hrestne : rest ≠ [] := by
        rintro rfl
        rw [hrest, List.append_nil] at hlt
        omega
      have hunreadne : s.source.unread ≠ [] := by rw [hunread]; simp [hrestne]
      by_cases hover : Json.Overlong s.ahead
      · exact .inr ⟨decodeWith_overlong hover, s.ahead, rest, hrest,
          hedge ▸ h.edge hunreadne, hover⟩
      · exact refill (fun v c r => hcore.readValue_ne_ok hrest hne hrestne (v, c :: r)) hover
          hunreadne (by omega)
    · -- the edge lies at the end of the object or behind it
      obtain ⟨rest, hahead⟩ : ∃ rest, s.ahead = core ++ rest := by
        obtain ⟨rest, hcore, -⟩ | ⟨rest, hahead, -⟩ := List.append_eq_append_iff.1 hrem
        · refine ⟨[], ?_⟩
          have hnil : rest = [] := by
            rw [hcore, List.length_append] at hge
            exact List.length_eq_zero_iff.1 (by omega)
          rw [hcore, hnil, List.append_nil, List.append_nil]
        · exact ⟨rest, hahead⟩
      by_cases hend : rest = [] → s.source.unread = []
      · exact .inl (decoded_whole hcore h hrem hahead hend)
      · obtain ⟨rfl, hunread⟩ := Classical.not_imp.1 hend
        have hread : Json.readValue s.ahead = .ok (.dict members, []) := by
          rw [hahead, hcore.readValue_eq]
        refine refill (fun v c r hv => ?_) ?_ hunread (by rw [hahead, List.append_nil])
        · rw [hread] at hv; cases hv
        · rintro ⟨k, hk⟩
          rw [hread] at hk; cases hk

theorem isBlank_of_isSpace {c : Char} (h : Json.isSpace c = true) : isBlank c = true := by
  simp only [Json.isSpace, Bool.or_eq_true, beq_iff_eq] at h
  rcases h with ((rfl | rfl) | rfl) | rfl <;> decide

/-- Blanks are passed over up to a character that is none. -/
theorem dropWhile_blanks {gap : List Char} {c : Char} (hgap : ∀ d ∈ gap, isBlank d = true)
    (hc : isBlank c = false) (rest : List Char) :
    (gap ++ c :: rest).dropWhile isBlank = c :: rest := by
  rw [List.dropWhile_append_of_pos hgap, List.dropWhile_cons_of_neg (by simp [hc])]

theorem blank_of_isGap {gap : List Char} (h : Json.IsGap gap) : ∀ c ∈ gap, isBlank c = true :=
  fun c hc => isBlank_of_isSpace (h c hc)

/-- White space is passed over up to a character that is no blank. -/
theorem dropWhile_gap {gap rest : List Char} {c : Char} (hgap : Json.IsGap gap)
    (hc : isBlank c = false) : (gap ++ c :: rest).dropWhile isBlank = c :: rest :=
  dropWhile_blanks (blank_of_isGap hgap) hc rest

/-- **An object behind white space** is decoded, exactly if no chunk edge cuts it in an overlong
number. -/
theorem decode_spec {gap : List Char} (hcore : Json.IsObject core members) (h : s.At chunk total)
    (hchunk : 1 ≤ chunk) (hgap : Json.IsGap gap) (hrem : s.remaining = gap ++ core ++ after) :
    ((∃ t, s.decode = .ok (.dict members, t) ∧ t.At chunk total ∧ t.remaining = after ∧
      t.name = s.name) ∧ ¬ CutsNumber chunk (total - (core ++ after).length) core) ∨
    (∃ k, s.decode = .error (.value (.integerTooLong k))) ∧
      CutsNumber chunk (total - (core ++ after).length) core := by
  have hblank : s.remaining.dropWhile isBlank = core ++ after := by
    obtain ⟨t, rfl⟩ := hcore.brace
    rw [hrem, List.append_assoc, List.cons_append, dropWhile_gap hgap (by decide)]
  obtain ⟨t, hpeek, hat, htrem, hahead, htname⟩ := peek_spec h hchunk
  rw [hblank] at htrem
  have hne : t.ahead ≠ [] := by
    intro hnil
    obtain ⟨u, rfl⟩ := hcore.brace
    rw [hahead hnil] at htrem
    cases htrem
  rw [At, htrem] at hat
  have hlater : t.In chunk total (total - after.length) := by
    refine hat.later ?_
    rw [List.length_append]
    omega
  have hdecode : s.decode = decodeWith (t.source.unread.length + 1) t := by
    rw [decode, hpeek]
  rw [hdecode]
  rcases decodeWith_spec hcore (t.source.unread.length + 1) hlater hchunk htrem hne (by omega) with
    ⟨⟨w, hw, hwat, hwrem, hwname⟩, hclear⟩ | hcut
  · refine .inl ⟨⟨w, hw, hwat, hwrem, hwname.trans htname⟩, ?_⟩
    -- no edge lies between the beginning of the object and the edge read up to
    rintro ⟨part, rest, hpart, hdvd, hover⟩
    have hpartne : part ≠ [] := by rintro rfl; exact Json.not_overlong_nil hover
    have hpos := List.length_pos_iff.2 hpartne
    have hnear := hat.near _ hdvd (by omega)
    rw [edge_eq hat htrem] at hnear
    exact hclear part rest hpart (by omega) hdvd hover
  · exact .inr hcut

end Object

end Stream

end Runbook.Records
