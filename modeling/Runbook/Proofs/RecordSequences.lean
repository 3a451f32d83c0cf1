import Runbook.Proofs.ReadableRows

/-!
# Records one after another

A cursor leads to records, one after another, and to an error behind them if there is one. Whatever
the mode is and whatever the file holds, each step leaves less to be read, so the records come to an
end, and there are no more of them than the bound of the cursor says.

* `AtMost`: no list in a value that is read has more items than its text has characters.
* `Cursor.next_advances`: **one step of a cursor** gives a readable record and leaves less.
* `exists_records`: **the records of a cursor**, by induction on what is left.
* `LineRecords`: what a line holds, which is blank, a document with its records, or invalid.
* `LineSequence`, `FileRecords`: the records of lines, and of a file in each mode.
* `exists_fileRecords`: **the records of a file** are those of the cursor at its start.
-/

namespace Runbook

open Runbook.Text Runbook.Records

/-! ### How many items a text has room for -/

/-- A value in which no list that names lead to has more than so many items. -/
inductive AtMost (n : Nat) : Value → Prop
  | list {items : List Value} (h : items.length ≤ n) : AtMost n (.list items)
  | dict {entries : Entries} (h : ∀ e ∈ entries, AtMost n e.2) : AtMost n (.dict entries)
  | other {v : Value} (hlist : ∀ items, v ≠ .list items) (hdict : ∀ entries, v ≠ .dict entries) :
    AtMost n v

namespace AtMost

variable {m n : Nat} {v : Value}

theorem mono (h : AtMost m v) (hle : m ≤ n) : AtMost n v := by
  induction h with
  | list h => exact .list (h.trans hle)
  | dict _ ih => exact .dict ih
  | other hlist hdict => exact .other hlist hdict

theorem values (entries : Entries) (h : AtMost n (.dict entries)) :
    ∀ e ∈ entries, AtMost n e.2 := by
  cases h with
  | dict h => exact h
  | other _ hdict => exact absurd rfl (hdict entries)

/-- A value stands for no more records than that, but for one at least. -/
theorem length_recordsOf (h : AtMost n v) (hn : 1 ≤ n) : (recordsOf v).length ≤ n := by
  cases h with
  | list h => exact h
  | dict _ => exact hn
  | other hlist _ => cases v <;> first | exact hn | exact absurd rfl (hlist _)

end AtMost

namespace Json

variable {fuel : Nat} {cs rest : List Char} {v : Value}

theorem readValueWith_length (h : readValueWith fuel cs = .ok (v, rest)) :
    rest.length < cs.length := by
  obtain ⟨front, hne, rfl, -⟩ := (readValueWith_front fuel).1 _ _ _ h
  have := List.length_pos_iff.2 hne
  rw [List.length_append]
  omega

theorem length_skipSpace (cs : List Char) : (skipSpace cs).length ≤ cs.length :=
  List.length_dropWhile_le _ _

/-- What stands behind white space and a character is shorter. -/
theorem length_behind {t : List Char} {c : Char} (h : skipSpace cs = c :: t) :
    t.length < cs.length := by
  have := length_skipSpace cs
  rw [h, List.length_cons] at this
  omega

section Steps

theorem atMost_scalar {n : Nat} (h : readScalar cs = .ok (v, rest)) : AtMost n v :=
  .other (fun _ hv => readScalar_ne_list (hv ▸ h)) fun _ hv => readScalar_ne_dict (hv ▸ h)

theorem atMost_value
    (hitems : ∀ {cs items rest}, readItemsWith fuel cs = .ok (items, rest) →
      items.length ≤ cs.length)
    (hmembers : ∀ {cs members rest}, readMembersWith fuel cs = .ok (members, rest) →
      ∀ e ∈ members, AtMost cs.length e.2)
    (h : ReadsValue fuel cs v rest) : AtMost cs.length v := by
  cases h with
  | string _ => exact .other (fun _ h => nomatch h) fun _ h => nomatch h
  | emptyList _ => exact .list (Nat.zero_le _)
  | @list cs _ _ _ h =>
    exact .list ((hitems h).trans ((length_skipSpace cs).trans (Nat.le_succ _)))
  | emptyDict _ => exact .dict fun _ he => nomatch he
  | @dict cs _ _ _ h =>
    have hentries := Entries.forall_ofList (K := fun _ => True)
      fun e he => ⟨trivial, hmembers h e he⟩
    exact .dict fun e he => (hentries e he).2.mono ((length_skipSpace cs).trans (Nat.le_succ _))
  | scalar h => exact atMost_scalar h

theorem length_items {items : List Value}
    (hitems : ∀ {cs items rest}, readItemsWith fuel cs = .ok (items, rest) →
      items.length ≤ cs.length)
    (h : ReadsItems fuel cs items rest) : items.length ≤ cs.length := by
  cases h with
  | last h _ => exact Nat.lt_of_le_of_lt (Nat.zero_le _) (readValueWith_length h)
  | @more _ _ t _ _ h ht hrest =>
    have hread := readValueWith_length h
    have hbehind := length_behind ht
    have hskip := length_skipSpace t
    have hmore := hitems hrest
    rw [List.length_cons]
    omega

theorem atMost_members {members : List (Value × Value)}
    (hvalue : ∀ {cs v rest}, readValueWith fuel cs = .ok (v, rest) → AtMost cs.length v)
    (hmembers : ∀ {cs members rest}, readMembersWith fuel cs = .ok (members, rest) →
      ∀ e ∈ members, AtMost cs.length e.2)
    (h : ReadsMembers fuel cs members rest) : ∀ e ∈ members, AtMost cs.length e.2 := by
  -- the value of a member, and the members behind it, stand behind its name
  have hname : ∀ {cs r t : List Char} {s : String}, readString cs = .ok (s, r) →
      skipSpace r = ':' :: t → (skipSpace t).length < cs.length := by
    intro cs r t s hs hr
    obtain ⟨front, hne, rfl, -⟩ := readString_front hs
    have hbehind := length_behind hr
    have hskip := length_skipSpace t
    rw [List.length_append]
    omega
  cases h with
  | last hs hr h _ =>
    intro e he
    rw [List.mem_singleton.1 he]
    exact (hvalue h).mono ((hname hs hr).le.trans (Nat.le_succ _))
  | @more _ _ _ _ _ _ t _ _ hs hr h ht hrest =>
    intro e he
    rcases List.mem_cons.1 he with rfl | he
    · exact (hvalue h).mono ((hname hs hr).le.trans (Nat.le_succ _))
    · have hlength := hname hs hr
      have hread := readValueWith_length h
      have hbehind := length_behind ht
      have hskip := length_skipSpace t
      exact (hmembers hrest e he).mono (by rw [List.length_cons]; omega)

end Steps

theorem atMost_of_ok (fuel : Nat) :
    (∀ {cs v rest}, readValueWith fuel cs = .ok (v, rest) → AtMost cs.length v) ∧
    (∀ {cs items rest}, readItemsWith fuel cs = .ok (items, rest) → items.length ≤ cs.length) ∧
    (∀ {cs members rest}, readMembersWith fuel cs = .ok (members, rest) →
      ∀ e ∈ members, AtMost cs.length e.2) := by
  induction fuel with
  | zero =>
    refine ⟨fun h => ?_, fun h => ?_, fun h => ?_⟩
    · rw [readValueWith] at h; cases h
    · rw [readItemsWith] at h; cases h
    · rw [readMembersWith] at h; cases h
  | succ fuel ih =>
    obtain ⟨hvalue, hitems, hmembers⟩ := ih
    exact ⟨fun h => atMost_value hitems hmembers (readsValue_of_ok h),
      fun h => length_items hitems (readsItems_of_ok h),
      fun h => atMost_members hvalue hmembers (readsMembers_of_ok h)⟩

/-- **A text has room for the items** of what is read from it. -/
theorem atMost_of_parse (h : parse cs = .ok v) : AtMost cs.length v := by
  obtain ⟨-, rest, hread, -⟩ := parse_eq_ok_iff.1 h
  exact ((atMost_of_ok _).1 hread).mono (length_skipSpace cs)

theorem isReadable_of_parse (h : parse cs = .ok v) : IsReadable v := by
  obtain ⟨-, rest, hread, -⟩ := parse_eq_ok_iff.1 h
  exact isReadable_of_readValue hread

theorem isValueError_of_parse {e : Error} (h : parse cs = .error e) : e.isValueError = true := by
  unfold parse at h
  split at h
  · cases h
  · rename_i fault _
    rw [← Except.error.inj h]
    cases fault <;> rfl

end Json

namespace Records

/-! ### One step of a stream -/

namespace Source

variable {s t : Source} {cs line : List Char} {count : Nat} {e : Error}

theorem read_ok (h : s.read count = .ok (cs, t)) : s.unread = cs ++ t.unread := by
  unfold read at h
  split at h
  · cases h
    exact (List.take_append_drop _ _).symm
  · split at h
    · cases h
    · cases h
      exact (List.take_append_drop _ _).symm

theorem read_error (h : s.read count = .error e) : e.isValueError = true := by
  unfold read at h
  split at h
  · cases h
  · split at h
    · cases h
      rfl
    · cases h

/-- What is unread has a line feed in it, or it is the last line. -/
theorem exists_line (cs : List Char) :
    (∃ line rest, cs = line ++ '\n' :: rest ∧ '\n' ∉ line) ∨ '\n' ∉ cs := by
  by_cases h : '\n' ∈ cs
  · obtain ⟨line, rest, hcs, hline⟩ := List.eq_append_cons_of_mem h
    exact .inl ⟨line, rest, hcs, hline⟩
  · exact .inr h

theorem readLine_feed {rest : List Char} (h : '\n' ∉ line)
    (hunread : s.unread = line ++ '\n' :: rest) :
    s.readLine = .ok (line ++ ['\n'], { s with unread := rest }) := by
  have htake : s.unread.takeWhile (· != '\n') = line := by
    rw [hunread, List.takeWhile_append_of_pos, List.takeWhile_cons_of_neg (by simp),
      List.append_nil]
    intro c hc
    simpa using fun he : c = '\n' => h (he ▸ hc)
  have hdrop : s.unread.drop line.length = '\n' :: rest := by rw [hunread, List.drop_left]
  simp only [readLine, htake, hdrop]

theorem readLine_last (h : '\n' ∉ s.unread) :
    s.readLine = match s.fault with
      | none => .ok (s.unread, { s with unread := [] })
      | some f => .error (.encoding f) := by
  have htake : s.unread.takeWhile (· != '\n') = s.unread := by
    rw [List.takeWhile_eq_self_iff]
    intro c hc
    simpa using fun he : c = '\n' => h (he ▸ hc)
  simp only [readLine, htake, List.drop_length]
  cases s.fault <;> rfl

/-- A line is the front of what is unread. -/
theorem readLine_ok (h : s.readLine = .ok (line, t)) : s.unread = line ++ t.unread := by
  rcases exists_line s.unread with ⟨front, rest, hunread, hfront⟩ | hlast
  · rw [readLine_feed hfront hunread] at h
    cases h
    rw [hunread, List.append_assoc, List.singleton_append]
  · rw [readLine_last hlast] at h
    cases hfault : s.fault with
    | none =>
      rw [hfault] at h
      cases h
      exact (List.append_nil _).symm
    | some f =>
      rw [hfault] at h
      cases h

theorem readLine_error (h : s.readLine = .error e) : e.isValueError = true := by
  rcases exists_line s.unread with ⟨front, rest, hunread, hfront⟩ | hlast
  · rw [readLine_feed hfront hunread] at h
    cases h
  · rw [readLine_last hlast] at h
    cases hfault : s.fault with
    | none =>
      rw [hfault] at h
      cases h
    | some f =>
      rw [hfault] at h
      cases h
      rfl

end Source

namespace Stream

/-- What passing over blanks comes to: no more is left than before. -/
inductive LeavesNoMore (s : Stream) : Except Error Stream → Prop
  | fails {e} (he : e.isValueError = true) : LeavesNoMore s (.error e)
  | leaves {t : Stream} (hle : t.left ≤ s.left) : LeavesNoMore s (.ok t)

/-- What decoding a value comes to: a readable value, and less is left than before. -/
inductive LeavesLess (s : Stream) : Except Error (Value × Stream) → Prop
  | fails {e} (he : e.isValueError = true) : LeavesLess s (.error e)
  | leaves {v : Value} {t : Stream} (hv : IsReadable v) (hlt : t.left < s.left) :
    LeavesLess s (.ok (v, t))

variable {s t : Stream} {e : Error}

theorem fill_left (h : s.fill = .ok (some t)) : t.left = s.left := by
  unfold fill at h
  split at h
  · cases h
  · cases h
  · rename_i hread
    cases h
    have hunread := congrArg List.length (Source.read_ok hread)
    rw [List.length_append] at hunread
    simp only [left, List.length_append]
    omega

theorem fill_error (h : s.fill = .error e) : e.isValueError = true := by
  unfold fill at h
  split at h
  · rename_i hread
    rw [← Except.error.inj h]
    exact Source.read_error hread
  · cases h
  · cases h

theorem skipBlanks_left (s : Stream) : s.skipBlanks.left ≤ s.left :=
  Nat.add_le_add_right (List.length_dropWhile_le _ _) _

theorem peekWith_leaves (fuel : Nat) (s : Stream) : LeavesNoMore s (peekWith fuel s) := by
  induction fuel generalizing s with
  | zero => exact .leaves s.skipBlanks_left
  | succ fuel ih =>
    rw [peekWith]
    split
    · exact .leaves s.skipBlanks_left
    · cases hfill : s.skipBlanks.fill with
      | error e => exact .fails (fill_error hfill)
      | ok more =>
        cases more with
        | none => exact .leaves s.skipBlanks_left
        | some t =>
          have hleft := fill_left hfill
          have hskip := s.skipBlanks_left
          have hleaves := ih t
          show LeavesNoMore s (peekWith fuel t)
          generalize peekWith fuel t = result at hleaves ⊢
          cases hleaves with
          | fails he => exact .fails he
          | leaves hle => exact .leaves (by omega)

/-- What is decoded from the buffer makes it shorter. -/
theorem leavesLess_here {v : Value} {rest : List Char}
    (h : Json.readValue s.ahead = .ok (v, rest)) :
    LeavesLess s (.ok (v, s.passTo rest)) :=
  .leaves (Json.isReadable_of_readValue h)
    (Nat.add_lt_add_right (Json.readValueWith_length h) _)

theorem faultError_isValueError (s : Stream) (fault : Json.ReadFault) :
    (s.faultError fault).isValueError = true := by
  cases fault <;> rfl

theorem decodeWith_leaves (fuel : Nat) (s : Stream) : LeavesLess s (decodeWith fuel s) := by
  induction fuel generalizing s with
  | zero =>
    rw [decodeWith]
    split
    · rename_i hread
      exact leavesLess_here hread
    · exact .fails (s.faultError_isValueError _)
  | succ fuel ih =>
    -- the value is complete, or the same is done with more text
    have hmore : ∀ (t : Stream), s.fill = .ok (some t) → LeavesLess s (decodeWith fuel t) := by
      intro t hfill
      have hleft := fill_left hfill
      have hleaves := ih t
      generalize decodeWith fuel t = result at hleaves ⊢
      cases hleaves with
      | fails he => exact .fails he
      | leaves hv hlt => exact .leaves hv (by omega)
    rw [decodeWith]
    split
    · rename_i hread
      split
      · exact leavesLess_here hread
      · split
        · rename_i hfill
          exact .fails (fill_error hfill)
        · exact leavesLess_here hread
        · rename_i hfill
          exact hmore _ hfill
    · exact .fails (s.faultError_isValueError _)
    · split
      · rename_i hfill
        exact .fails (fill_error hfill)
      · exact .fails (s.faultError_isValueError _)
      · rename_i hfill
        exact hmore _ hfill

theorem peek_error (h : s.peek = .error e) : e.isValueError = true := by
  have hleaves := peekWith_leaves (s.source.unread.length + 1) s
  unfold peek at h
  split at h
  · rename_i hpeek
    rw [hpeek, Except.error.inj h] at hleaves
    cases hleaves with
    | fails he => exact he
  · cases h

theorem peek_left {c : Option Char} (h : s.peek = .ok (c, t)) : t.left ≤ s.left := by
  have hleaves := peekWith_leaves (s.source.unread.length + 1) s
  unfold peek at h
  split at h
  · cases h
  · rename_i hpeek
    rw [hpeek, (Prod.mk.inj (Except.ok.inj h)).2] at hleaves
    cases hleaves with
    | leaves hle => exact hle

theorem advance_left (s : Stream) : s.advance.left ≤ s.left := by
  simp only [left, advance, List.length_drop]
  omega

/-- **Decoding a value** leaves less of the stream. -/
theorem decode_leaves (s : Stream) : LeavesLess s s.decode := by
  unfold decode
  split
  · rename_i hpeek
    exact .fails (peek_error hpeek)
  · rename_i t hpeek
    have hleft := peek_left hpeek
    have hleaves := decodeWith_leaves (t.source.unread.length + 1) t
    generalize decodeWith (t.source.unread.length + 1) t = result at hleaves ⊢
    cases hleaves with
    | fails he => exact .fails he
    | leaves hv hlt => exact .leaves hv (by omega)

end Stream

/-! ### One step of a cursor -/

namespace Cursor

variable {c d : Cursor} {v : Value} {n : Nat} {path : Option String}

/-- What a cursor has at hand has been read from JSON. -/
def IsSound : Cursor → Prop
  | .list records => ∀ v ∈ records, IsReadable v
  | .lines pending _ _ _ => ∀ v ∈ pending, IsReadable v
  | .stream _ _ => True

/-- What one step of a cursor comes to, of which at most so much is left: a readable record, with
less left behind it. -/
inductive Advances (n : Nat) : Next → Prop
  | ends : Advances n (.ok none)
  | fails {e} (he : e.isValueError = true) : Advances n (.error e)
  | gives {v : Value} {d : Cursor} (hv : IsReadable v) (hd : d.IsSound) (hlt : d.bound < n) :
    Advances n (.ok (some (v, d)))

theorem Advances.mono {m : Nat} {next : Next} (h : Advances m next) (hle : m ≤ n) :
    Advances n next := by
  cases h with
  | ends => exact .ends
  | fails he => exact .fails he
  | gives hv hd hlt => exact .gives hv hd (by omega)

/-- The records that a readable value stands for are readable. -/
theorem recordsOf_readable {root : Value} (h : IsReadable root) :
    ∀ v ∈ recordsOf root, IsReadable v := by
  cases h with
  | list h => exact h
  | _ =>
    intro v hv
    rw [List.mem_singleton.1 hv]
    constructor <;> assumption

/-- The records of a line are readable, and the line has room for them. -/
theorem lineRecords_ok {number : Nat} {line : List Char} {items : List Value}
    (h : lineRecords number path line = .ok items) :
    (∀ v ∈ items, IsReadable v) ∧ items.length ≤ line.length := by
  unfold lineRecords at h
  split at h
  · cases h
    exact ⟨fun _ hv => (nomatch hv), Nat.zero_le _⟩
  · rename_i hblank
    have hline : 1 ≤ line.length := by
      rw [Nat.one_le_iff_ne_zero, Ne, List.length_eq_zero_iff]
      rintro rfl
      exact hblank rfl
    split at h
    · cases h
    · cases h
    · rename_i root hparse
      have hroot := Json.isReadable_of_parse hparse
      have hroom := Json.atMost_of_parse hparse
      split at h
      · cases h
        exact ⟨recordsOf_readable hroot, hroom.length_recordsOf hline⟩
      · rename_i path
        cases hfound : navigate root path with
        | none =>
          rw [hfound] at h
          cases h
          exact ⟨fun _ hv => (nomatch hv), Nat.zero_le _⟩
        | some w =>
          rw [hfound] at h
          cases h
          exact ⟨recordsOf_readable (IsReadable.follow hroot hfound),
            (follow_keeps AtMost.values hroom hfound).length_recordsOf hline⟩

theorem lineRecords_error {number : Nat} {line : List Char} {e : Error}
    (h : lineRecords number path line = .error e) : e.isValueError = true := by
  unfold lineRecords at h
  split at h
  · cases h
  · split at h
    · cases h
      rfl
    · rename_i hparse
      rw [← Except.error.inj h]
      exact Json.isValueError_of_parse hparse
    · split at h <;> cases h

theorem nextLine_advances (fuel number : Nat) (source : Source) :
    Advances source.unread.length (nextLine fuel number path source) := by
  induction fuel generalizing number source with
  | zero => exact .ends
  | succ fuel ih =>
    rw [nextLine]
    split
    · rename_i hline
      exact .fails (Source.readLine_error hline)
    · exact .ends
    · rename_i line rest _ hline
      have hunread := congrArg List.length (Source.readLine_ok hline)
      rw [List.length_append] at hunread
      split
      · rename_i hrecords
        exact .fails (lineRecords_error hrecords)
      · exact (ih _ _).mono (by omega)
      · rename_i v pending hrecords
        obtain ⟨hreadable, hlength⟩ := lineRecords_ok hrecords
        rw [List.length_cons] at hlength
        refine .gives (hreadable v List.mem_cons_self)
          (fun w hw => hreadable w (List.mem_cons_of_mem v hw)) ?_
        simp only [bound]
        omega

theorem nextStreamed_advances (fuel : Nat) (phase : Phase) (s : Stream) :
    Advances s.left (nextStreamed fuel phase s) := by
  induction fuel generalizing phase s with
  | zero =>
    rw [nextStreamed]
    exact .ends
  | succ fuel ih =>
    cases phase with
    | start =>
      rw [nextStreamed]
      split
      · rename_i hpeek
        exact .fails (Stream.peek_error hpeek)
      · rename_i t hpeek
        have hleft := Stream.peek_left hpeek
        have hadvance := t.advance_left
        split
        · rename_i hagain
          exact .fails (Stream.peek_error hagain)
        · exact .ends
        · rename_i hagain
          have hbehind := Stream.peek_left hagain
          exact (ih _ _).mono (by omega)
      · rename_i hpeek
        exact (ih _ _).mono (Stream.peek_left hpeek)
    | item =>
      have hleaves := s.decode_leaves
      rw [nextStreamed]
      generalize s.decode = result at hleaves ⊢
      cases hleaves with
      | fails he => exact .fails he
      | @leaves v t hv hlt =>
        cases v with
        | dict entries => exact .gives hv trivial hlt
        | _ => exact (ih _ _).mono hlt.le
    | separator =>
      rw [nextStreamed]
      split
      · rename_i hpeek
        exact .fails (Stream.peek_error hpeek)
      · exact .ends
      · rename_i t hpeek
        have hleft := Stream.peek_left hpeek
        have hadvance := t.advance_left
        exact (ih _ _).mono (by omega)
      · exact .fails rfl
    | sequence =>
      rw [nextStreamed]
      split
      · rename_i hpeek
        exact .fails (Stream.peek_error hpeek)
      · exact .ends
      · rename_i t hpeek
        have hleft := Stream.peek_left hpeek
        have hleaves := t.decode_leaves
        generalize t.decode = result at hleaves ⊢
        cases hleaves with
        | fails he => exact .fails he
        | leaves hv hlt => exact .gives hv trivial (Nat.lt_of_lt_of_le hlt hleft)

/-- **One step of a cursor** gives a readable record and leaves less to be read. -/
theorem next_advances (h : c.IsSound) : Advances c.bound c.next := by
  cases c with
  | list records =>
    cases records with
    | nil => exact .ends
    | cons v records =>
      exact .gives (h v List.mem_cons_self) (fun w hw => h w (List.mem_cons_of_mem v hw))
        (Nat.lt_succ_self _)
  | lines pending number path source =>
    cases pending with
    | nil => exact (nextLine_advances _ _ _).mono (Nat.le_add_left _ _)
    | cons v pending =>
      refine .gives (h v List.mem_cons_self) (fun w hw => h w (List.mem_cons_of_mem v hw)) ?_
      simp only [bound, List.length_cons]
      omega
  | stream phase s => exact nextStreamed_advances _ _ _

end Cursor

/-! ### The records of a cursor -/

section Yields

variable {c : Cursor} {records : List Value} {fault : Option Error}

/-- **The records of a cursor** come to an end: they are readable, there is room for them in what is
left, and what is behind them is an error of values if it is one. -/
theorem exists_records (h : c.IsSound) :
    ∃ records fault, Yields c records fault ∧ (∀ v ∈ records, IsReadable v) ∧
      records.length ≤ c.bound ∧ ∀ e, fault = some e → e.isValueError = true := by
  generalize hn : c.bound = n
  induction n using Nat.strong_induction_on generalizing c with
  | _ n ih =>
    have hadvances := Cursor.next_advances h
    generalize hnext : c.next = next at hadvances
    cases hadvances with
    | ends => exact ⟨[], none, .done hnext, by simp, Nat.zero_le _, by simp⟩
    | @fails e he => exact ⟨[], some e, .failed hnext, by simp, Nat.zero_le _, by simpa using he⟩
    | @gives v d hv hd hlt =>
      obtain ⟨records, fault, hyields, hreadable, hlength, hfault⟩ := ih _ (hn ▸ hlt) hd rfl
      exact ⟨v :: records, fault, .more hnext hyields, List.forall_mem_cons.2 ⟨hv, hreadable⟩,
        by rw [List.length_cons]; omega, hfault⟩

end Yields

/-! ### The records of a line -/

/-- What a document has at a path; without a path, that is all of it. -/
def valueAt? (path : Option String) (root : Value) : Option Value :=
  match path with
  | none => some root
  | some path => navigate root path

/-- **The records of a line**, or why it has none: a line that is not blank is a document. -/
inductive LineRecords (path : Option String) (number : Nat) (line : List Char) :
    Except Error (List Value) → Prop
  /-- A blank line is passed over, -/
  | blank (h : ∀ c ∈ line, isBlank c = true) : LineRecords path number line (.ok [])
  /-- and so is one with nothing at the path. -/
  | missing {root : Value} (h : ∃ c ∈ line, isBlank c = false)
    (hroot : Json.parse line = .ok root) (hnone : valueAt? path root = none) :
    LineRecords path number line (.ok [])
  /-- A list at the path stands for its items, -/
  | items {root : Value} {items : List Value} (h : ∃ c ∈ line, isBlank c = false)
    (hroot : Json.parse line = .ok root) (hfound : valueAt? path root = some (.list items)) :
    LineRecords path number line (.ok items)
  /-- and any other value for itself. -/
  | single {root v : Value} (h : ∃ c ∈ line, isBlank c = false)
    (hroot : Json.parse line = .ok root) (hfound : valueAt? path root = some v)
    (hv : ∀ items, v ≠ .list items) : LineRecords path number line (.ok [v])
  /-- A line that is no JSON is told with its number, -/
  | malformed {l : Json.Located} (h : ∃ c ∈ line, isBlank c = false)
    (herror : Json.parse line = .error (.json l)) :
    LineRecords path number line (.error (.value (.jsonLine number l)))
  /-- and one with an integer that is too long is not. -/
  | refused {e : Error} (h : ∃ c ∈ line, isBlank c = false) (herror : Json.parse line = .error e)
    (he : ∀ l, e ≠ .json l) : LineRecords path number line (.error e)

theorem not_blank_iff {line : List Char} :
    line.all isBlank = false ↔ ∃ c ∈ line, isBlank c = false := by
  rw [List.all_eq_false]
  simp only [Bool.not_eq_true]

/-- A cursor finds the records of a line, -/
theorem lineRecords_spec (path : Option String) (number : Nat) (line : List Char) :
    LineRecords path number line (Cursor.lineRecords number path line) := by
  unfold Cursor.lineRecords
  cases hblank : line.all isBlank with
  | true => exact .blank (List.all_eq_true.1 hblank)
  | false =>
    have hline := not_blank_iff.1 hblank
    rw [if_neg Bool.false_ne_true]
    split
    · exact .malformed hline ‹_›
    · rename_i e hother herror
      exact .refused hline herror hother
    · rename_i root hroot
      have hrecords : ∀ v, valueAt? path root = some v →
          LineRecords path number line (.ok (recordsOf v)) := by
        intro v hv
        cases v with
        | list items => exact .items hline hroot hv
        | _ => exact .single hline hroot hv fun items h => by cases h
      split
      · exact hrecords root rfl
      · rename_i given
        cases hfound : navigate root given with
        | none => exact .missing hline hroot hfound
        | some v => exact hrecords v hfound

/-- and no others. -/
theorem LineRecords.eq {path : Option String} {number : Nat} {line : List Char}
    {r : Except Error (List Value)} (h : LineRecords path number line r) :
    Cursor.lineRecords number path line = r := by
  have hlist : ∀ root, Json.parse line = .ok root → (∃ c ∈ line, isBlank c = false) →
      Cursor.lineRecords number path line =
        .ok (((valueAt? path root).map recordsOf).getD []) := by
    intro root hroot hline
    rw [Cursor.lineRecords, not_blank_iff.2 hline, if_neg Bool.false_ne_true, hroot]
    cases path <;> rfl
  cases h with
  | blank h => rw [Cursor.lineRecords, if_pos (List.all_eq_true.2 h)]
  | missing h hroot hnone => rw [hlist _ hroot h, hnone]; rfl
  | items h hroot hfound => rw [hlist _ hroot h, hfound]; rfl
  | @single root v h hroot hfound hv =>
    rw [hlist _ hroot h, hfound]
    cases v <;> first | rfl | exact absurd rfl (hv _)
  | malformed h herror =>
    rw [Cursor.lineRecords, not_blank_iff.2 h, if_neg Bool.false_ne_true, herror]
  | refused h herror he =>
    rw [Cursor.lineRecords, not_blank_iff.2 h, if_neg Bool.false_ne_true, herror]
    split
    · rename_i heq
      exact absurd (Except.error.inj heq) (he _)
    · rename_i heq
      exact congrArg Except.error (Except.error.inj heq).symm
    · rename_i heq
      cases heq

/-! ### Lines one after another -/

/-- The lines of a text, each with the line feed that ends it. -/
def linesOf : List Char → List (List Char)
  | [] => []
  | '\n' :: cs => ['\n'] :: linesOf cs
  | c :: cs =>
    match linesOf cs with
    | [] => [[c]]
    | line :: lines => (c :: line) :: lines

/-- The lines of a text that a line feed ends. -/
def endedLines (cs : List Char) : List (List Char) :=
  (linesOf cs).filter fun line => line.getLast? == some '\n'

/-- **The records of lines** one after another, and the error behind them: that of the first line
that is no document, or what is behind the last line. -/
inductive LineSequence (path : Option String) (last : Option Error) :
    Nat → List (List Char) → List Value → Option Error → Prop
  | ended {number} : LineSequence path last number [] [] last
  | invalid {number line lines e} (h : LineRecords path (number + 1) line (.error e)) :
    LineSequence path last number (line :: lines) [] (some e)
  | line {number line lines items records fault}
    (h : LineRecords path (number + 1) line (.ok items))
    (hrest : LineSequence path last (number + 1) lines records fault) :
    LineSequence path last number (line :: lines) (items ++ records) fault

theorem linesOf_feed {line : List Char} (h : '\n' ∉ line) (rest : List Char) :
    linesOf (line ++ '\n' :: rest) = (line ++ ['\n']) :: linesOf rest := by
  induction line with
  | nil => rfl
  | cons c cs ih =>
    rw [List.mem_cons, not_or] at h
    rw [List.cons_append, linesOf, ih h.2]
    · rfl
    · exact fun hc => h.1 hc.symm

theorem linesOf_last {line : List Char} (h : '\n' ∉ line) (hne : line ≠ []) :
    linesOf line = [line] := by
  induction line with
  | nil => exact absurd rfl hne
  | cons c cs ih =>
    rw [List.mem_cons, not_or] at h
    have hc : c ≠ '\n' := fun hc => h.1 hc.symm
    cases cs with
    | nil => rw [linesOf, linesOf]; exact hc
    | cons d ds => rw [linesOf, ih h.2 (List.cons_ne_nil d ds)]; exact hc

namespace Source

/-- The lines that a source has: those of its text, or, in front of a fault, those that have ended
before it. -/
def lines (s : Source) : List (List Char) :=
  match s.fault with
  | none => linesOf s.unread
  | some _ => endedLines s.unread

/-- **What reading a line comes to**, by the lines that there are. -/
inductive ReadsLine (s : Source) : List (List Char) → Prop
  | ended {t : Source} (hfault : s.fault = none) (h : s.readLine = .ok ([], t)) : ReadsLine s []
  | spoiled {f : Utf8Fault} (hfault : s.fault = some f) (h : s.readLine = .error (.encoding f)) :
    ReadsLine s []
  | line {line : List Char} {t : Source} (hne : line ≠ []) (h : s.readLine = .ok (line, t))
    (hfault : t.fault = s.fault) : ReadsLine s (line :: t.lines)

theorem readsLine (s : Source) : s.ReadsLine s.lines := by
  obtain ⟨unread, fault⟩ := s
  rcases exists_line unread with ⟨front, rest, rfl, hfront⟩ | hlast
  · have hread := readLine_feed (s := ⟨front ++ '\n' :: rest, fault⟩) hfront rfl
    have hlines : (⟨front ++ '\n' :: rest, fault⟩ : Source).lines =
        (front ++ ['\n']) :: (⟨rest, fault⟩ : Source).lines := by
      cases fault with
      | none => exact linesOf_feed hfront rest
      | some f => simp [lines, endedLines, linesOf_feed hfront rest]
    rw [hlines]
    exact .line (by simp) hread rfl
  · have hread := readLine_last (s := ⟨unread, fault⟩) hlast
    cases fault with
    | some f =>
      have hlines : (⟨unread, some f⟩ : Source).lines = [] := by
        by_cases hne : unread = []
        · rw [hne]
          rfl
        · have hend : unread.getLast? ≠ some '\n' := fun hend =>
            hlast (List.mem_of_getLast? hend)
          simp [lines, endedLines, linesOf_last hlast hne, hend]
      rw [hlines]
      exact .spoiled rfl hread
    | none =>
      by_cases hne : unread = []
      · subst hne
        exact .ended rfl hread
      · have hlines : (⟨unread, none⟩ : Source).lines =
            unread :: (⟨[], none⟩ : Source).lines := linesOf_last hlast hne
        rw [hlines]
        exact .line hne hread rfl

end Source

/-! ### The records of a file -/

/-- **The records of a file** in the mode that settings ask for, and the error behind them: those of
a document, those of lines, or those of a stream, which are those of the run of its text if that is
without faults. -/
inductive FileRecords (s : Settings) (chunk : Nat) (files : FileTree) :
    List Value → Option Error → Prop
  | listed {path text root} (hlines : s.lines = false) (hpath : s.path = some path)
    (htext : files.readText s.file = .ok text) (hroot : Json.parse text = .ok root) :
    FileRecords s chunk files (((navigate root path).map recordsOf).getD []) none
  | lined {text records fault} (hlines : s.lines = true)
    (htext : files.readText s.file = .ok text)
    (h : LineSequence s.path none 0 (linesOf text) records fault) :
    FileRecords s chunk files records fault
  /-- In front of a block that is no text, the lines that have ended are read. -/
  | spoiled {bytes text f records fault} (hlines : s.lines = true)
    (hread : files.read s.file = .ok (.bytes bytes))
    (hblocks : Blocks.read 0 bytes = ⟨text, some f⟩)
    (h : LineSequence s.path (some (.encoding f)) 0 (endedLines text) records fault) :
    FileRecords s chunk files records fault
  | streamed {content records fault} (hlines : s.lines = false) (hpath : s.path = none)
    (hread : files.read s.file = .ok content)
    (h : Yields (.stream .start (.ofSource s.file.text chunk (.ofContent chunk content)))
      records fault)
    (hruns : ∀ text, files.readText s.file = .ok text → 1 ≤ chunk →
      Runs (decodeChunked chunk text.length) .start text records fault.isSome) :
    FileRecords s chunk files records fault

section Files

variable {c : Cursor} {records : List Value} {fault : Option Error} {path : Option String}
  {number fuel : Nat} {source : Source}

/-- What a step leads to: the records from it on, and the error behind them. -/
inductive LeadsTo : Cursor.Next → List Value → Option Error → Prop
  | done : LeadsTo (.ok none) [] none
  | failed {e} : LeadsTo (.error e) [] (some e)
  | more {v d records fault} (hd : Yields d records fault) :
    LeadsTo (.ok (some (v, d))) (v :: records) fault

theorem LeadsTo.yields (h : LeadsTo c.next records fault) : Yields c records fault := by
  generalize hnext : c.next = next at h
  cases h with
  | done => exact .done hnext
  | failed => exact .failed hnext
  | more hd => exact .more hnext hd

/-- The records at hand come in front of those of the next lines. -/
theorem yields_pending (h : Yields (.lines [] number path source) records fault)
    (pending : List Value) :
    Yields (.lines pending number path source) (pending ++ records) fault := by
  induction pending with
  | nil => exact h
  | cons v pending ih => exact .more rfl ih

/-- Reading lines with enough fuel leads to their records: lines without any are passed over. -/
theorem LineSequence.leadsTo {last : Option Error} {lines : List (List Char)}
    (h : LineSequence path last number lines records fault) (hlines : source.lines = lines)
    (hlast : source.fault.map .encoding = last) (hfuel : source.unread.length < fuel) :
    LeadsTo (Cursor.nextLine fuel number path source) records fault := by
  induction h generalizing source fuel with
  | @ended number =>
    obtain ⟨fuel, rfl⟩ : ∃ k, fuel = k + 1 := ⟨fuel - 1, by omega⟩
    have hreads := source.readsLine
    rw [hlines] at hreads
    rw [← hlast, Cursor.nextLine]
    cases hreads with
    | ended hfault h =>
      rw [h, hfault]
      exact .done
    | spoiled hfault h =>
      rw [h, hfault]
      exact .failed
  | @invalid number line lines e he =>
    obtain ⟨fuel, rfl⟩ : ∃ k, fuel = k + 1 := ⟨fuel - 1, by omega⟩
    have hreads := source.readsLine
    rw [hlines] at hreads
    cases hreads with
    | line hne h _ =>
      obtain ⟨c, cs, rfl⟩ := List.exists_cons_of_ne_nil hne
      rw [Cursor.nextLine, h]
      simp only [he.eq]
      exact .failed
  | @line number line lines items records fault hitems _ ih =>
    obtain ⟨fuel, rfl⟩ : ∃ k, fuel = k + 1 := ⟨fuel - 1, by omega⟩
    have hreads := source.readsLine
    rw [hlines] at hreads
    cases hreads with
    | @line _ rest hne h hfault =>
      obtain ⟨c, cs, rfl⟩ := List.exists_cons_of_ne_nil hne
      have hunread := congrArg List.length (Source.readLine_ok h)
      rw [List.length_append, List.length_cons] at hunread
      rw [← hfault] at hlast
      rw [Cursor.nextLine, h]
      simp only [hitems.eq]
      cases items with
      | nil => exact ih rfl hlast (by omega)
      | cons v pending =>
        have hyields := LeadsTo.yields (c := .lines [] (number + 1) path rest)
          (ih rfl hlast (Nat.lt_succ_self _))
        exact .more (yields_pending hyields pending)

theorem LineSequence.yields
    (h : LineSequence path (source.fault.map .encoding) number source.lines records fault) :
    Yields (.lines [] number path source) records fault :=
  LeadsTo.yields (c := .lines [] number path source) (h.leadsTo rfl rfl (Nat.lt_succ_self _))

theorem exists_lineSequence (path : Option String) (last : Option Error) (number : Nat)
    (lines : List (List Char)) :
    ∃ records fault, LineSequence path last number lines records fault := by
  induction lines generalizing number with
  | nil => exact ⟨[], last, .ended⟩
  | cons line lines ih =>
    have hline := lineRecords_spec path (number + 1) line
    generalize Cursor.lineRecords (number + 1) path line = r at hline
    cases r with
    | error e => exact ⟨[], some e, .invalid hline⟩
    | ok items =>
      obtain ⟨records, fault, hrest⟩ := ih (number + 1)
      exact ⟨items ++ records, fault, .line hline hrest⟩

theorem yields_list (records : List Value) : Yields (.list records) records none := by
  induction records with
  | nil => exact .done rfl
  | cons v records ih => exact .more rfl ih

/-- The records of the lines of a file, whether its bytes are text or not. -/
theorem exists_lined {s : Settings} {files : FileTree} {content : FileContent} (chunk : Nat)
    (hlines : s.lines = true) (hread : files.read s.file = .ok content) :
    ∃ records fault, FileRecords s chunk files records fault ∧
      Yields (.lines [] 0 s.path (.ofContent 0 content)) records fault := by
  obtain ⟨records, fault, hsequence⟩ := exists_lineSequence s.path
    ((Source.ofContent 0 content).fault.map .encoding) 0 (Source.ofContent 0 content).lines
  refine ⟨records, fault, ?_, hsequence.yields⟩
  rcases hfault : (Source.ofContent 0 content).fault with _ | f
  · -- bytes that are read without a fault are text
    obtain ⟨chars, hdecode⟩ : ∃ chars, content.decode = ⟨chars, none⟩ :=
      ⟨content.decode.chars, by rw [← Source.fault_of_ofContent hfault]⟩
    have htext : files.readText s.file = .ok (unifyLines chars) := by
      simp only [FileTree.readText, hread, hdecode]
    rw [Source.ofContent_eq hdecode] at hsequence
    exact .lined hlines htext hsequence
  · cases content with
    | text cs => cases hfault
    | bytes bytes =>
      have hblocks : Blocks.read 0 bytes = ⟨(Blocks.read 0 bytes).chars, some f⟩ :=
        congrArg (Utf8.Decoded.mk (Blocks.read 0 bytes).chars) hfault
      rw [Source.lines, hfault] at hsequence
      exact .spoiled hlines hread hblocks hsequence

/-- **A reader at the start of its file** has the records of the file in front of it. -/
theorem exists_fileRecords {r : Reader} {files : FileTree} (h : r.start files = .ok c) :
    c.IsSound ∧ ∃ records fault, FileRecords r.settings r.chunk files records fault ∧
      Yields c records fault := by
  unfold Reader.start at h
  simp only at h
  split at h
  · rename_i hlines
    cases hread : files.read r.settings.file with
    | error e =>
      rw [hread] at h
      cases h
    | ok content =>
      rw [hread] at h
      cases h
      obtain ⟨records, fault, hfile, hyields⟩ := exists_lined r.chunk hlines hread
      refine ⟨?_, records, fault, hfile, hyields⟩
      intro _ hv
      cases hv
  · rename_i hlines
    have hlines := Bool.eq_false_of_not_eq_true hlines
    split at h
    · rename_i path hpath
      split at h
      · cases h
      · rename_i text htext
        split at h
        · cases h
        · rename_i root hroot
          cases h
          refine ⟨?_, _, none, .listed hlines hpath htext hroot, yields_list _⟩
          cases hfound : navigate root path with
          | none =>
            intro _ hv
            cases hv
          | some w =>
            exact Cursor.recordsOf_readable
              (IsReadable.follow (Json.isReadable_of_parse hroot) hfound)
    · rename_i hpath
      cases hread : files.read r.settings.file with
      | error e =>
        rw [hread] at h
        cases h
      | ok content =>
        rw [hread] at h
        cases h
        obtain ⟨records, fault, hyields, -⟩ := exists_records (c := .stream .start
          (.ofSource r.settings.file.text r.chunk (.ofContent r.chunk content))) trivial
        refine ⟨trivial, records, fault, .streamed hlines hpath hread hyields ?_, hyields⟩
        intro text htext hchunk
        obtain ⟨found, other, hfound, hruns, -⟩ :=
          exists_yields .start (Stream.ofSource_at r.settings.file.text r.chunk text) hchunk
        obtain ⟨whole, hwhole, hsource⟩ := Reader.exists_content htext
        obtain rfl := Except.ok.inj (hread.symm.trans hwhole)
        rw [hsource] at hyields
        obtain ⟨rfl, rfl⟩ := hfound.unique hyields
        exact hruns

end Files

end Records

end Runbook
