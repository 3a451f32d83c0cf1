import Mathlib.Data.List.TakeWhile
import Runbook.Records.Stream

/-!
# Text does not show its blocks

A file is decoded block by block, and a character or a line ending may be cut by the end of a
block. What is held back there is put in front of the next block, so that bytes without faults are
the same text however they are cut.

* `Utf8.Begins`: bytes that begin with a character.
* `Utf8.decode_append`: decoding bytes, and then what is left of them with more bytes behind it.
* `unifyLines_cut`: lines of two texts, one behind the other.
* `Blocks.readFrom_eq`: a reader of blocks, by induction on the bytes that are left.
* `Blocks.fault_of_readFrom`: a reader without faults has read bytes without faults.
* `Source.ofContent_eq`: **the text of a file without faults**.
-/

namespace Runbook

/-! ### Bytes that begin with a character -/

namespace Utf8

/-- Bytes begin with a character, which takes up so many of them. -/
inductive Begins : List UInt8 → Nat → Char → Prop
  | single {b : UInt8} {rest : List UInt8} (h : tailCount? b.toNat = some 0) :
    Begins (b :: rest) 1 (Char.ofNat b.toNat)
  | several {b : UInt8} {rest : List UInt8} {count : Nat} (h : tailCount? b.toNat = some count)
    (hcount : count ≠ 0) (hvalid : validTail b.toNat count rest = count) :
    Begins (b :: rest) (count + 1) (Char.ofNat (codePoint b.toNat (rest.take count)))

variable {bs xs ys rest : List UInt8} {b : UInt8} {n count fuel m position : Nat} {c : Char}

/-! ### Bytes that continue a character -/

theorem validTail_le (first count : Nat) (rest : List UInt8) :
    validTail first count rest ≤ rest.length := by
  cases rest with
  | nil => simp [validTail]
  | cons b more =>
    have hlength := List.takeWhile_prefix (l := more.take (count - 1)) isTail
    have := hlength.length_le
    have := List.length_take_le (count - 1) more
    have := List.length_take_le' (count - 1) more
    simp only [validTail, List.length_cons]
    split <;> omega

/-- Only so many bytes matter as a character has. -/
theorem validTail_append (h : count ≤ xs.length) (hcount : count ≠ 0) :
    validTail n count (xs ++ ys) = validTail n count xs := by
  cases xs with
  | nil => exact absurd (Nat.le_zero.1 h) hcount
  | cons b more =>
    rw [List.length_cons] at h
    rw [List.cons_append, validTail, validTail]
    rw [List.take_append_of_le_length (by omega)]

/-- A character that is complete with more bytes behind has been right so far. -/
theorem validTail_front (h : validTail n count (xs ++ ys) = count) (hlt : xs.length < count) :
    validTail n count xs = xs.length := by
  cases xs with
  | nil => rfl
  | cons b more =>
    rw [List.length_cons] at hlt
    rw [List.cons_append, validTail] at h
    rw [validTail, List.length_cons]
    split at h
    · rename_i hrange
      rw [if_pos hrange]
      have hall : ((more ++ ys).take (count - 1)).takeWhile isTail =
          (more ++ ys).take (count - 1) := by
        refine (List.takeWhile_prefix isTail).eq_of_length_le ?_
        have := List.length_take_le (count - 1) (more ++ ys)
        omega
      have hmore : ∀ x ∈ more, isTail x = true := by
        intro x hx
        refine List.takeWhile_eq_self_iff.1 hall x ?_
        rw [List.take_append, List.mem_append, List.take_of_length_le (by omega)]
        exact .inl hx
      rw [List.take_of_length_le (by omega), List.takeWhile_eq_self_iff.2 hmore, Nat.add_comm]
    · omega

namespace Begins

theorem pos (h : Begins bs n c) : 1 ≤ n := by
  cases h with
  | single _ => exact Nat.le_refl 1
  | several _ _ _ => omega

theorem le_length (h : Begins bs n c) : n ≤ bs.length := by
  cases h with
  | single _ => simp
  | @several b rest count _ _ hvalid =>
    have hle := validTail_le b.toNat count rest
    rw [hvalid] at hle
    rw [List.length_cons]
    omega

theorem decodeFrom (h : Begins bs n c) (fuel position : Nat) :
    decodeFrom (fuel + 1) position bs = (decodeFrom fuel (position + n) (bs.drop n)).cons c := by
  cases h with
  | single h => simp only [Utf8.decodeFrom, h, List.drop_one, List.tail_cons]
  | @several b rest count h hcount hvalid =>
    cases count with
    | zero => exact absurd rfl hcount
    | succ count =>
      simp only [Utf8.decodeFrom, h, hvalid, if_true, List.drop_succ_cons]
      rw [Nat.add_assoc]

/-- A character that lies in front of a cut is there without what is behind. -/
theorem front (h : Begins (xs ++ ys) n c) (hle : n ≤ xs.length) : Begins xs n c := by
  generalize hbs : xs ++ ys = bs at h
  cases h with
  | single h =>
    obtain ⟨b, more, rfl⟩ := List.exists_cons_of_length_pos (l := xs) (by omega)
    rw [List.cons_append, List.cons.injEq] at hbs
    rw [← hbs.1] at h ⊢
    exact .single h
  | @several b rest count h hcount hvalid =>
    obtain ⟨b', more, rfl⟩ := List.exists_cons_of_length_pos (l := xs) (by omega)
    rw [List.cons_append, List.cons.injEq] at hbs
    obtain ⟨rfl, rfl⟩ := hbs
    rw [List.length_cons] at hle
    rw [validTail_append (by omega) hcount] at hvalid
    rw [List.take_append_of_le_length (by omega)]
    exact .several h hcount hvalid

/-- What is behind a character does not matter for it. -/
theorem append (h : Begins xs n c) (ys : List UInt8) : Begins (xs ++ ys) n c := by
  have hle := h.le_length
  cases h with
  | single h => exact .single h
  | @several b rest count h hcount hvalid =>
    rw [List.length_cons] at hle
    have hcount' : count ≤ rest.length := by omega
    have htake : (rest ++ ys).take count = rest.take count := List.take_append_of_le_length hcount'
    rw [← htake]
    exact .several h hcount ((validTail_append hcount' hcount).trans hvalid)

/-- A character that a cut goes through may go on behind it. -/
theorem cut (h : Begins (xs ++ ys) n c) (hne : xs ≠ []) (hlt : xs.length < n)
    (fuel position : Nat) :
    ∃ f, Utf8.decodeFrom (fuel + 1) position xs = ⟨[], some f⟩ ∧ f.problem = .ended ∧
      f.first = position := by
  generalize hbs : xs ++ ys = bs at h
  obtain ⟨b', more, rfl⟩ := List.exists_cons_of_ne_nil hne
  rw [List.length_cons] at hlt
  cases h with
  | single _ => omega
  | @several b rest count h hcount hvalid =>
    rw [List.cons_append, List.cons.injEq] at hbs
    obtain ⟨rfl, rfl⟩ := hbs
    have hfront := validTail_front hvalid (by omega)
    have hne : ¬ more.length = count := by omega
    cases count with
    | zero => exact absurd rfl hcount
    | succ count =>
      refine ⟨⟨.ended, b', position, more.length + 1⟩, ?_, rfl, rfl⟩
      simp only [Utf8.decodeFrom, h, hfront, if_neg hne, if_true]

end Begins

/-- Bytes begin with a character, or are a fault at their first place and no text. -/
theorem begins_or_fault (b : UInt8) (rest : List UInt8) :
    (∃ n c, Begins (b :: rest) n c) ∨ ∃ f, decode (b :: rest) = ⟨[], some f⟩ ∧ f.first = 0 := by
  rw [decode, List.length_cons, decodeFrom]
  simp only
  split
  · exact .inr ⟨_, rfl, rfl⟩
  · exact .inl ⟨_, _, .single ‹_›⟩
  · rename_i count hzero hcount
    split
    · rename_i hvalid
      exact .inl ⟨_, _, .several hcount (fun hnil => hzero (hnil ▸ rfl)) hvalid⟩
    · split
      · exact .inr ⟨_, rfl, rfl⟩
      · exact .inr ⟨_, rfl, rfl⟩

/-! ### Decoding bytes in two parts -/

/-- Fuel for each byte is enough. -/
theorem decodeFrom_fuel (hn : bs.length ≤ n) (hm : bs.length ≤ m) (position : Nat) :
    decodeFrom n position bs = decodeFrom m position bs := by
  induction n generalizing m position bs with
  | zero =>
    obtain rfl := List.eq_nil_of_length_eq_zero (Nat.le_zero.1 hn)
    cases m <;> rfl
  | succ n ih =>
    cases bs with
    | nil => cases m <;> rfl
    | cons b rest =>
      rw [List.length_cons] at hn hm
      obtain ⟨m, rfl⟩ : ∃ k, m = k + 1 := ⟨m - 1, by omega⟩
      have hrest : decodeFrom n (position + 1) rest = decodeFrom m (position + 1) rest :=
        ih (by omega) (by omega) _
      have hbehind : ∀ count, decodeFrom n (position + count + 1) (rest.drop count) =
          decodeFrom m (position + count + 1) (rest.drop count) := by
        intro count
        have := List.length_drop (i := count) (l := rest)
        exact ih (by omega) (by omega) _
      simp only [decodeFrom, hrest, hbehind]

/-- A text does not depend on the position of its bytes, and faults are moved with them. -/
theorem decodeFrom_shift (fuel offset position : Nat) (bs : List UInt8) :
    decodeFrom fuel (offset + position) bs =
      ⟨(decodeFrom fuel position bs).chars,
        (decodeFrom fuel position bs).fault.map fun f => { f with first := offset + f.first }⟩ := by
  induction fuel generalizing position bs with
  | zero => rfl
  | succ fuel ih =>
    cases bs with
    | nil => rfl
    | cons b rest =>
      simp only [decodeFrom]
      split
      · rfl
      · rw [Nat.add_assoc, ih]
        rfl
      · split
        · rw [Nat.add_assoc, Nat.add_assoc, ← Nat.add_assoc position, ih]
          rfl
        · split <;> rfl

/-- A character at the beginning is decoded first. -/
theorem Begins.decode (h : Begins bs n c) :
    decode bs = ⟨c :: (Utf8.decode (bs.drop n)).chars,
      (Utf8.decode (bs.drop n)).fault.map fun f => { f with first := n + f.first }⟩ := by
  have hpos := h.pos
  have hle := h.le_length
  obtain ⟨k, hk⟩ : ∃ k, bs.length = k + 1 := ⟨bs.length - 1, by omega⟩
  have hlength : (bs.drop n).length ≤ k := by rw [List.length_drop]; omega
  rw [Utf8.decode, hk, h.decodeFrom, Nat.zero_add, Utf8.decode,
    decodeFrom_fuel hlength (Nat.le_refl _), ← Nat.add_zero n, decodeFrom_shift, Nat.add_zero]
  rfl

/-- What is left of bytes behind their text: those of a character that is not complete. -/
def remains (bs : List UInt8) : Option Utf8Fault → List UInt8
  | none => []
  | some f => bs.drop f.first

/-- **Decoding bytes, and then what is left of them with more bytes behind it**, gives the text of
all of them: by induction on the characters, of which one at most is cut. -/
theorem decode_append {cs : List Char} (h : decode (xs ++ ys) = ⟨cs, none⟩) :
    ∃ front fault behind, decode xs = ⟨front, fault⟩ ∧
      (∀ f, fault = some f → f.problem = .ended) ∧
      decode (remains xs fault ++ ys) = ⟨behind, none⟩ ∧ cs = front ++ behind := by
  generalize hk : xs.length = k
  induction k using Nat.strong_induction_on generalizing xs cs with
  | _ k ih =>
    cases xs with
    | nil => exact ⟨[], none, cs, rfl, by simp, h, rfl⟩
    | cons b more =>
      obtain ⟨n, c, hbegins⟩ : ∃ n c, Begins (b :: (more ++ ys)) n c := by
        refine (begins_or_fault b (more ++ ys)).resolve_right ?_
        rintro ⟨f, hf, -⟩
        rw [List.cons_append, hf] at h
        cases h
      have hpos := hbegins.pos
      by_cases hle : n ≤ (b :: more).length
      · have hfront : Begins (b :: more) n c := Begins.front hbegins hle
        have hdrop : ((b :: more) ++ ys).drop n = (b :: more).drop n ++ ys :=
          List.drop_append_of_le_length hle
        have hall := hbegins.decode
        rw [← List.cons_append, hdrop, h] at hall
        have hchars : cs = c :: (decode ((b :: more).drop n ++ ys)).chars :=
          congrArg Decoded.chars hall
        have hfault : none = (decode ((b :: more).drop n ++ ys)).fault.map _ :=
          congrArg Decoded.fault hall
        have hrest : decode ((b :: more).drop n ++ ys) =
            ⟨(decode ((b :: more).drop n ++ ys)).chars, none⟩ := by
          rw [← Option.map_eq_none_iff.1 hfault.symm]
        obtain ⟨front, fault, behind, hdecode, hended, hbehind, hcs⟩ :=
          ih ((b :: more).drop n).length (by rw [List.length_drop]; omega) hrest rfl
        refine ⟨c :: front, fault.map fun f => { f with first := n + f.first }, behind,
          ?_, ?_, ?_, ?_⟩
        · rw [hfront.decode, hdecode]
        · intro f hf
          obtain ⟨g, hg, rfl⟩ := Option.map_eq_some_iff.1 hf
          exact hended g hg
        · cases fault with
          | none => exact hbehind
          | some g => rwa [remains, List.drop_drop] at hbehind
        · rw [hchars, hcs, List.cons_append]
      · -- the character goes on behind the cut, and all of it is left
        have hcut : Begins ((b :: more) ++ ys) n c := hbegins
        obtain ⟨f, hf, hended, hfirst⟩ :=
          hcut.cut (List.cons_ne_nil b more) (by omega) more.length 0
        refine ⟨[], some f, cs, hf, fun g hg => ?_, ?_, rfl⟩
        · rw [← Option.some.inj hg, hended]
        · rwa [remains, hfirst, List.drop_zero]

/-- Bytes are without faults if what is left of their front is so with the others behind it. -/
theorem fault_of_remains (hended : ∀ f, (decode xs).fault = some f → f.problem = .ended)
    (h : (decode (remains xs (decode xs).fault ++ ys)).fault = none) :
    (decode (xs ++ ys)).fault = none := by
  generalize hk : xs.length = k
  induction k using Nat.strong_induction_on generalizing xs with
  | _ k ih =>
    cases xs with
    | nil => exact h
    | cons b more =>
      rcases begins_or_fault b more with ⟨n, c, hbegins⟩ | ⟨f, hf, hfirst⟩
      · have hpos := hbegins.pos
        have hle := hbegins.le_length
        have hfault := congrArg Decoded.fault hbegins.decode
        have hrest : (decode ((b :: more).drop n ++ ys)).fault = none := by
          refine ih ((b :: more).drop n).length (by rw [List.length_drop]; omega) ?_ ?_ rfl
          · intro f hf
            exact hended { f with first := n + f.first } (by rw [hfault, hf]; rfl)
          · rw [hfault] at h
            cases hrest : (decode ((b :: more).drop n)).fault with
            | none => rwa [hrest] at h
            | some f =>
              rw [hrest, Option.map_some, remains] at h
              rwa [remains, List.drop_drop]
        rw [(hbegins.append ys).decode, List.drop_append_of_le_length hle, hrest]
        rfl
      · -- nothing of the front has been decoded
        rwa [hf, remains, hfirst, List.drop_zero] at h

end Utf8

/-! ### Line endings that a block may cut -/

/-- Line endings of two texts are unified apart from one another if the cut goes through none. -/
theorem unifyLines_cut (xs ys : List Char)
    (h : xs.getLast? = some '\r' → ys.head? ≠ some '\n') :
    unifyLines (xs ++ ys) = unifyLines xs ++ unifyLines ys := by
  have hlast : ∀ (c : Char) (cs : List Char), cs.getLast? = some '\r' →
      (c :: cs).getLast? = some '\r' := by
    intro c cs hcs
    rw [List.getLast?_cons, hcs, Option.getD_some]
  fun_induction unifyLines xs with
  | case1 cs ih =>
    have hcs := ih fun hcs => h (hlast _ _ (hlast _ _ hcs))
    rw [List.cons_append, List.cons_append, unifyLines, hcs, List.cons_append]
  | case2 cs hfeed ih =>
    have hcs := ih fun hcs => h (hlast _ _ hcs)
    rw [List.cons_append, unifyLines, hcs, List.cons_append]
    -- no line feed is behind the carriage return, on either side of the cut
    intro more hmore
    cases cs with
    | nil =>
      rw [List.nil_append] at hmore
      exact h rfl (by rw [hmore]; rfl)
    | cons c cs =>
      rw [List.cons_append, List.cons.injEq] at hmore
      exact hfeed cs (by rw [hmore.1])
  | case3 c cs hpair hreturn ih =>
    have hcs := ih fun hcs => h (hlast _ _ hcs)
    rw [List.cons_append, unifyLines, hcs, List.cons_append]
    · exact fun more hc => absurd hc hreturn
    · exact hreturn
  | case4 => rfl

namespace Blocks

variable {b : Blocks} {request fuel : Nat} {bs block : List UInt8} {cs text : List Char}

theorem splitReturn_eq (cs : List Char) :
    cs = (splitReturn cs).1 ++ (splitReturn cs).2 := by
  unfold splitReturn
  split
  · rename_i hlast
    obtain ⟨front, rfl⟩ := List.getLast?_eq_some_iff.1 hlast
    rw [List.dropLast_concat]
  · exact (List.append_nil cs).symm

/-- A text and what is behind it are unified apart if the carriage return at its end is held
back. -/
theorem unifyLines_splitReturn (cs behind : List Char) :
    unifyLines (splitReturn cs).1 ++ unifyLines ((splitReturn cs).2 ++ behind) =
      unifyLines (cs ++ behind) := by
  have hcut : (splitReturn cs).1.getLast? = some '\r' →
      ((splitReturn cs).2 ++ behind).head? ≠ some '\n' := by
    unfold splitReturn
    split
    · intro _ hhead
      cases hhead
    · rename_i hlast
      exact fun hlast' => absurd hlast' hlast
  rw [← unifyLines_cut _ _ hcut, ← List.append_assoc, ← splitReturn_eq]

theorem size_pos (b : Blocks) : 1 ≤ b.size := by
  have hleast : leastSize ≤ b.size := Nat.le_max_left _ _
  exact Nat.le_trans (by decide) hleast

/-- **One block** of bytes without faults: its text, and that of the bytes behind it with what is
held back in front of them, are the text of all. -/
theorem exists_take {behind : List UInt8} (request : Nat)
    (h : Utf8.decode (b.pending ++ (block ++ behind)) = ⟨cs, none⟩) :
    ∃ text next rest, b.take request block = .ok (text, next) ∧
      Utf8.decode (next.pending ++ behind) = ⟨rest, none⟩ ∧
      text ++ unifyLines (next.held ++ rest) = unifyLines (b.held ++ cs) := by
  rw [← List.append_assoc] at h
  obtain ⟨front, fault, rest, hdecode, hended, hrest, rfl⟩ := Utf8.decode_append h
  have htext := unifyLines_splitReturn (b.held ++ front) rest
  rw [List.append_assoc] at htext
  unfold take
  simp only [hdecode]
  cases fault with
  | none => exact ⟨_, _, rest, rfl, hrest, htext⟩
  | some f =>
    simp only [hended f rfl, if_true]
    exact ⟨_, _, rest, rfl, hrest, htext⟩

/-- **Bytes without faults are one text**, however they are cut: by induction on the blocks. -/
theorem readFrom_eq (hfuel : bs.length < fuel)
    (h : Utf8.decode (b.pending ++ bs) = ⟨cs, none⟩) :
    readFrom request fuel b bs = ⟨unifyLines (b.held ++ cs), none⟩ := by
  induction fuel generalizing b bs cs with
  | zero => exact absurd hfuel (Nat.not_lt_zero _)
  | succ fuel ih =>
    cases bs with
    | nil =>
      rw [List.append_nil] at h
      simp only [readFrom, h]
    | cons byte bytes =>
      have hsize := b.size_pos
      have hcut := List.take_append_drop b.size (byte :: bytes)
      rw [← hcut] at h
      obtain ⟨text, next, rest, htake, hrest, htext⟩ := exists_take request h
      have hlength : ((byte :: bytes).drop b.size).length < fuel := by
        rw [List.length_cons] at hfuel
        rw [List.length_drop, List.length_cons]
        omega
      have hbehind := ih hlength hrest
      simp only [readFrom, htake, hbehind]
      rw [htext]

theorem take_ok {next : Blocks} (h : b.take request block = .ok (text, next)) :
    (∀ f, (Utf8.decode (b.pending ++ block)).fault = some f → f.problem = .ended) ∧
      next.pending =
        Utf8.remains (b.pending ++ block) (Utf8.decode (b.pending ++ block)).fault := by
  unfold take at h
  simp only at h
  split at h
  · rename_i hfault
    cases h
    rw [hfault]
    exact ⟨by simp, rfl⟩
  · rename_i f hfault
    split at h
    · rename_i hended
      cases h
      rw [hfault]
      refine ⟨fun g hg => ?_, rfl⟩
      rwa [← Option.some.inj hg]
    · cases h

/-- **A fault comes up in some block**: bytes that are read without one have none. -/
theorem fault_of_readFrom (hfuel : bs.length < fuel)
    (h : (readFrom request fuel b bs).fault = none) :
    (Utf8.decode (b.pending ++ bs)).fault = none := by
  induction fuel generalizing b bs with
  | zero => exact absurd hfuel (Nat.not_lt_zero _)
  | succ fuel ih =>
    cases bs with
    | nil =>
      rw [List.append_nil]
      rw [readFrom] at h
      split at h
      · assumption
      · cases h
    | cons byte bytes =>
      have hsize := b.size_pos
      have hlength : ((byte :: bytes).drop b.size).length < fuel := by
        rw [List.length_cons] at hfuel
        rw [List.length_drop, List.length_cons]
        omega
      rw [readFrom] at h
      split at h
      · cases h
      · rename_i text next htake
        obtain ⟨hended, hpending⟩ := take_ok htake
        have hbehind := ih hlength h
        rw [hpending] at hbehind
        have hall := Utf8.fault_of_remains hended hbehind
        rwa [List.append_assoc, List.take_append_drop] at hall

end Blocks

/-- **A file without faults is a source of its text**, whatever is asked for at a time. -/
theorem Records.Source.ofContent_eq {content : FileContent} {cs : List Char}
    (h : content.decode = ⟨cs, none⟩) (request : Nat) :
    Records.Source.ofContent request content = ⟨unifyLines cs, none⟩ := by
  cases content with
  | text given =>
    obtain rfl : given = cs := congrArg Utf8.Decoded.chars h
    rfl
  | bytes bs =>
    have hread : Blocks.read request bs = ⟨unifyLines cs, none⟩ :=
      Blocks.readFrom_eq (Nat.lt_succ_self _) h
    rw [ofContent, hread]

/-- A file that is read without a fault is text. -/
theorem Records.Source.fault_of_ofContent {content : FileContent} {request : Nat}
    (h : (Records.Source.ofContent request content).fault = none) :
    content.decode.fault = none := by
  cases content with
  | text given => rfl
  | bytes bs => exact Blocks.fault_of_readFrom (Nat.lt_succ_self _) h

end Runbook
