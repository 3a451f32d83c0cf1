import Runbook.Proofs.JsonGrammar
import Runbook.Proofs.JsonLayout
import Runbook.Proofs.ReadableRows

/-!
# Arrays that are cut short

A file may hold the front of a JSON array, cut off anywhere between its opening and its closing
bracket. A stream has no closing bracket to end at then, and at the cut it finds no value, or no
comma behind one. What a cut number still shows of a value does not help, as nothing that goes on
from it stands behind.

* `runs_whole`: a run that does not fail is the run of the values of the text.
* `not_runs_cut`: no run ends well in front of what is left of a value.
* `Derives.not_runs_front`: no run ends well in front of what is left of items, by induction on
  their derivation.
* `Truncates`: a text that is an array but for its end.
* `readAll_truncated`: **a truncated array is never read as complete.**
-/

namespace Runbook.Records

open Runbook.Text
open Runbook.Json (Derives IsGap IsJson Ends ReachesEnd readValue)
open Runbook.Records.Stream (blank_of_isGap dropWhile_blanks)

/-! ### Runs that end well -/

section Runs

variable {decoder : List Char → Option (Value × List Char)} {phase next : Phase}
  {cs rest gap u x : List Char} {records : List Value} {failed : Bool} {record : Option Value}
  {chunk : Nat}

/-- **A run that does not fail** is the run of the values of the text, wherever the edges fall. -/
theorem runs_whole (h : Runs (decodeChunked chunk cs.length) .start cs records false) :
    Runs valueOf .start cs records false := by
  refine runs_uncut h fun others hcut => ?_
  cases (h.unique (runs_cutsRun hcut)).2

theorem Runs.not_fails (h : Runs decoder phase cs records false) :
    turnOf decoder phase cs ≠ .fails := by
  cases h with
  | ends h => rw [h]; simp
  | goes h _ => rw [h]; simp

theorem Runs.behind (h : Runs decoder phase cs records failed)
    (hturn : turnOf decoder phase cs = .goes record next rest) :
    ∃ others, Runs decoder next rest others failed := by
  obtain ⟨others, hrest, -⟩ := (Runs.goes_iff hturn).1 h
  exact ⟨others, hrest⟩

/-- Nothing but blanks is left neither in front of an item nor behind one. -/
theorem not_runs_blank (h : ∀ c ∈ gap, isBlank c = true)
    (hphase : phase = .item ∨ phase = .separator) : ¬ Runs valueOf phase gap records false := by
  intro hruns
  refine hruns.not_fails ?_
  rw [turnOf, List.dropWhile_eq_nil_iff.2 h]
  rcases hphase with rfl | rfl <;> rfl

/-- A value that is whole is read, up to what stands behind it. -/
theorem Runs.reads_item (hx : IsJson x) (hgap : ∀ c ∈ gap, isBlank c = true) (hu : Ends u)
    (h : Runs valueOf .item (gap ++ (x ++ u)) records false) :
    ∃ v others, readValue (x ++ u) = .ok (v, u) ∧ Runs valueOf .separator u others false := by
  have hreaches := hx.readValue_reaches hu
  obtain ⟨c, t, rfl, hc⟩ := hx.begins
  have hdrop : (gap ++ (c :: t ++ u)).dropWhile isBlank = c :: t ++ u :=
    dropWhile_blanks hgap hc.1 _
  have hturn : turnOf valueOf .item (gap ++ (c :: t ++ u)) =
      taken itemRecord .separator (valueOf (c :: t ++ u)) := by rw [turnOf, hdrop]; rfl
  rw [valueOf] at hturn
  generalize readValue (c :: t ++ u) = r at hreaches hturn ⊢
  cases hreaches with
  | ended v =>
    obtain ⟨others, hrest⟩ := h.behind hturn
    exact ⟨v, others, rfl, hrest⟩
  | overlong count => exact absurd hturn h.not_fails

/-- Behind a comma comes the next item. -/
theorem Runs.behind_comma (hgap : ∀ c ∈ gap, isBlank c = true)
    (h : Runs decoder .separator (gap ++ ',' :: u) records failed) :
    ∃ others, Runs decoder .item u others failed := by
  have hturn : turnOf decoder .separator (gap ++ ',' :: u) = .goes none .item u := by
    rw [turnOf, dropWhile_blanks hgap (by decide)]
    rfl
  exact h.behind hturn

theorem separator_ne_fails (h : turnOf decoder .separator cs ≠ .fails) :
    cs ≠ [] ∧ ¬ Json.IsMark cs := by
  refine ⟨?_, fun hmark => h ?_⟩
  · rintro rfl
    exact h rfl
  · have hturn :
      turnOf (decodeChunked 1 0) .separator (cs ++ []) = .fails := (turnOf_mark hmark []).1
    rwa [List.append_nil] at hturn

/-- **No run ends well in front of what is left of a value.** -/
theorem not_runs_cut {cut more : List Char} (hx : IsJson (cut ++ more)) (hmore : more ≠ [])
    (hgap : ∀ c ∈ gap, isBlank c = true) : ¬ Runs valueOf .item (gap ++ cut) records false := by
  intro h
  cases cut with
  | nil =>
    rw [List.append_nil] at h
    exact not_runs_blank hgap (.inl rfl) h
  | cons c cut =>
    obtain ⟨d, t, hd, hbegins⟩ := hx.begins
    obtain ⟨rfl, -⟩ := List.cons.inj hd
    have hturn : turnOf valueOf .item (gap ++ c :: cut) =
        taken itemRecord .separator (valueOf (c :: cut)) := by
      rw [turnOf, dropWhile_blanks hgap hbegins.1]
      rfl
    cases hfound : valueOf (c :: cut) with
    | none =>
      rw [hfound] at hturn
      exact h.not_fails hturn
    | some found =>
      obtain ⟨v, rest⟩ := found
      rw [hfound] at hturn
      obtain ⟨others, hrest⟩ := h.behind hturn
      -- something else than the mark of a number stands behind what is read, so it is read of the
      -- whole value too; but that is read to its end
      obtain ⟨hne, hmark⟩ := separator_ne_fails hrest.not_fails
      have hreaches := hx.readValue_reaches (u := []) (by rintro c t ⟨⟩)
      rw [List.append_nil] at hreaches
      rcases Json.readValue_append hne (valueOf_eq_some.1 hfound) more with hread | ⟨hmark', -⟩
      · rw [hread] at hreaches
        generalize hbehind : rest ++ more = behind at hreaches
        cases hreaches
        exact hmore (List.append_eq_nil_iff.1 hbehind).2
      · exact hmark hmark'

end Runs

/-! ### Fronts of arrays -/

section Fronts

variable {cs part gap behind x before whole : List Char} {records : List Value}

/-- A part of a text in two parts that is not the whole: a part of the first that is not all of it,
or the first and a part of the second that is not all of that. -/
theorem proper_append_cases (h : part <+: x ++ behind) (hlt : part.length < (x ++ behind).length) :
    (∃ more, x = part ++ more ∧ more ≠ []) ∨
      ∃ rest, part = x ++ rest ∧ rest <+: behind ∧ rest.length < behind.length := by
  rcases Json.prefix_append_cases h with ⟨more, rfl⟩ | ⟨rest, rfl, hrest⟩
  · by_cases hmore : more = []
    · subst hmore
      refine .inr ⟨[], by simp, List.nil_prefix, ?_⟩
      simpa using hlt
    · exact .inl ⟨more, rfl, hmore⟩
  · refine .inr ⟨rest, rfl, hrest, ?_⟩
    rw [List.length_append, List.length_append] at hlt
    omega

/-- What is left of white space in front of a closing bracket. -/
theorem isGap_of_proper (hgap : IsGap gap) (h : part <+: gap ++ [']'])
    (hlt : part.length < (gap ++ [']']).length) : IsGap part := by
  rcases proper_append_cases h hlt with ⟨more, rfl, -⟩ | ⟨rest, rfl, -, hrest⟩
  · exact fun c hc => hgap c (List.mem_append_left more hc)
  · obtain rfl : rest = [] := List.length_eq_zero_iff.1 (by simpa using hrest)
    rwa [List.append_nil]

theorem isGap_left {more : List Char} (hgap : IsGap (part ++ more)) : IsGap part :=
  fun c hc => hgap c (List.mem_append_left more hc)

theorem ends_of_isGap (h : IsGap gap) : Ends gap := by
  intro c t ht
  exact Json.goesOn_of_isSpace (h c (by simp [ht]))

/-- A part of what stands behind an item, in front of the cut. -/
theorem not_runs_behind (hx : IsJson x) (hgap : ∀ c ∈ gap, isBlank c = true) (hblank : IsGap part) :
    ¬ Runs valueOf .item (gap ++ (x ++ part)) records false := by
  intro h
  obtain ⟨-, others, -, hrest⟩ := h.reads_item hx hgap (ends_of_isGap hblank)
  exact not_runs_blank (blank_of_isGap hblank) (.inr rfl) hrest

/-- **No run ends well in front of what is left of items**, on their derivation. -/
theorem not_runs_front (h : Derives .items cs) (hpart : part <+: cs) (hlt : part.length < cs.length)
    (hgap : ∀ c ∈ gap, isBlank c = true) : ¬ Runs valueOf .item (gap ++ part) records false := by
  generalize hp : Json.Part.items = p at h
  induction h generalizing part gap records with
  | @lastItem x last hx hlast _ =>
    rcases proper_append_cases hpart hlt with ⟨more, rfl, hmore⟩ | ⟨rest, rfl, hrest, hshort⟩
    · exact not_runs_cut hx hmore hgap
    · exact not_runs_behind hx hgap (isGap_of_proper hlast hrest hshort)
  | @moreItems x last space cs hx hlast hspace _ _ ih =>
    rcases proper_append_cases hpart hlt with ⟨more, rfl, hmore⟩ | ⟨rest, rfl, hrest, hshort⟩
    · exact not_runs_cut hx hmore hgap
    rcases proper_append_cases hrest hshort with ⟨more, rfl, -⟩ | ⟨comma, rfl, hcomma, hshort⟩
    · exact not_runs_behind hx hgap (isGap_left hlast)
    cases comma with
    | nil =>
      rw [List.append_nil]
      exact not_runs_behind hx hgap hlast
    | cons c next =>
      -- the cut is behind the comma: in the white space there, or in the items that follow
      obtain ⟨rfl, hnext⟩ := List.cons_prefix_cons.1 hcomma
      intro hruns
      obtain ⟨-, others, -, hbehind⟩ :=
        hruns.reads_item hx hgap (Json.ends_gap_cons hlast (by decide) next)
      obtain ⟨others, hitem⟩ := hbehind.behind_comma (blank_of_isGap hlast)
      rcases Json.prefix_append_cases hnext with ⟨more, rfl⟩ | ⟨items, rfl, hitems⟩
      · exact not_runs_blank (blank_of_isGap (isGap_left hspace)) (.inl rfl) hitem
      · rw [List.length_cons, List.length_cons, List.length_append, List.length_append] at hshort
        exact ih hitems (by omega) (blank_of_isGap hspace) rfl hitem
  | _ => cases hp

/-- An array has no items, or some. -/
theorem isJson_array_cases (h : IsJson ('[' :: cs)) : (∃ gap, IsGap gap ∧ cs = gap ++ [']']) ∨
    ∃ gap items, IsGap gap ∧ Derives .items items ∧ cs = gap ++ items := by
  generalize htext : '[' :: cs = text at h
  cases h with
  | word h =>
    obtain ⟨c, t, rfl, hc⟩ := Json.word_head h
    exact absurd (List.cons.inj htext).1.symm hc.2.1
  | positive h =>
    obtain ⟨c, t, rfl, hc⟩ := h.exists_digit
    rw [← (List.cons.inj htext).1] at hc
    cases hc
  | emptyArray hgap => exact .inl ⟨_, hgap, (List.cons.inj htext).2⟩
  | array hgap h => exact .inr ⟨_, _, hgap, h, (List.cons.inj htext).2⟩
  | _ => cases (List.cons.inj htext).1

/-- **A truncated array**: an array with blanks around it that is cut off somewhere behind its
opening bracket and in front of its closing one. -/
structure Truncates (cut before body after : List Char) : Prop where
  isJson : IsJson ('[' :: body)
  blank_before : ∀ c ∈ before, isBlank c = true
  blank_after : ∀ c ∈ after, isBlank c = true
  front : cut <+: before ++ '[' :: body ++ after
  behind_opening : before.length < cut.length
  before_closing : cut.length < (before ++ '[' :: body).length

variable {cut body after : List Char}

/-- What is cut is the opening bracket and a part of what stands behind it. -/
theorem Truncates.exists_part (h : Truncates cut before body after) :
    ∃ part, cut = before ++ '[' :: part ∧ part <+: body ∧ part.length < body.length := by
  have hlong := h.behind_opening
  have hshort := h.before_closing
  have hfront : cut <+: before ++ '[' :: body :=
    List.prefix_of_prefix_length_le h.front (List.prefix_append _ after) hshort.le
  rcases Json.prefix_append_cases hfront with hbefore | ⟨bracket, rfl, hbracket⟩
  · have := hbefore.length_le
    omega
  · cases bracket with
    | nil => simp at hlong
    | cons c part =>
      obtain ⟨rfl, hpart⟩ := List.cons_prefix_cons.1 hbracket
      refine ⟨part, rfl, hpart, ?_⟩
      simp only [List.length_append, List.length_cons] at hshort
      omega

theorem startTurn_bracket (h : ∀ t, part.dropWhile isBlank ≠ ']' :: t) :
    startTurn ('[' :: part) = .goes none .item (part.dropWhile isBlank) := by
  rw [startTurn]
  split
  · rename_i t ht
    exact absurd ht (h t)
  · rfl

/-- **No run ends well in front of a truncated array.** -/
theorem Truncates.not_runs (h : Truncates cut before body after) :
    ¬ Runs valueOf .start cut records false := by
  obtain ⟨part, rfl, hpart, hlt⟩ := h.exists_part
  have hnone := blank_of_isGap Json.isGap_nil
  intro hruns
  have hitem : ∀ tail, part.dropWhile isBlank = tail → (∀ t, tail ≠ ']' :: t) →
      ∃ others, Runs valueOf .item tail others false := by
    rintro tail rfl hopen
    refine hruns.behind (Eq.trans ?_ (startTurn_bracket hopen))
    rw [turnOf, dropWhile_blanks h.blank_before (by decide)]
    rfl
  have hblank : ¬ ∀ c ∈ part, isBlank c = true := fun hblank => by
    obtain ⟨others, hrest⟩ := hitem [] (List.dropWhile_eq_nil_iff.2 hblank) (by simp)
    exact not_runs_blank hnone (.inl rfl) hrest
  rcases isJson_array_cases h.isJson with ⟨gap, hgap, rfl⟩ | ⟨gap, items, hgap, hitems, rfl⟩
  · exact hblank (blank_of_isGap (isGap_of_proper hgap hpart hlt))
  · rcases Json.prefix_append_cases hpart with ⟨more, rfl⟩ | ⟨rest, rfl, hrest⟩
    · exact hblank (blank_of_isGap (isGap_left hgap))
    · rw [List.length_append, List.length_append] at hlt
      have hdrop : (gap ++ rest).dropWhile isBlank = rest ∧ ∀ t, rest ≠ ']' :: t := by
        obtain ⟨c, t, rfl, hc⟩ := hitems.begins
        rw [List.dropWhile_append_of_pos (blank_of_isGap hgap)]
        cases rest with
        | nil => exact ⟨rfl, by simp⟩
        | cons d rest =>
          obtain ⟨rfl, -⟩ := List.cons_prefix_cons.1 hrest
          exact ⟨List.dropWhile_cons_of_neg (by simp [hc.1]),
            fun t ht => hc.2.1 (List.cons.inj ht).1⟩
      obtain ⟨others, hbehind⟩ := hitem rest hdrop.1 hdrop.2
      exact not_runs_front hitems hrest (by omega) hnone hbehind

end Fronts

/-! ### Reading truncated arrays -/

/-- **A truncated array is never read as complete.** Wherever it is cut off, whatever its elements,
the chunk size, the columns and the batch size are: reading all rows of it ends in a value error. -/
theorem readAll_truncated {files : FileTree} {file : Location} {cut before body after : List Char}
    {chunk : Nat} (h : Truncates cut before body after) (hchunk : 1 ≤ chunk)
    (hfile : files.readText file = .ok cut) (names : List String) (size : Int) :
    ∃ r, (Reader.columned file names chunk).openFile files = .ok r ∧
      ∃ e, (r.readAll size).1 = .error e ∧ e.isValueError = true := by
  obtain ⟨r, hopen, records, fault, hstreamed⟩ := readAll_streamed names size hchunk hfile
  obtain ⟨rows, -, hread⟩ := hstreamed.readAll
  refine ⟨r, hopen, ?_⟩
  cases fault with
  | none => exact absurd (runs_whole hstreamed.runs) h.not_runs
  | some e => exact ⟨e, hread, hstreamed.isValueError e rfl⟩

/-- An object and a number behind the opening bracket of an array, up to its closing bracket. -/
def arrayBody : List Char :=
  '\x7b' :: '"' :: 'a' :: '"' :: ':' :: 't' :: 'r' :: 'u' :: 'e' :: '\x7d' ::
    ',' :: ' ' :: '1' :: '2' :: [']']

theorem isJson_arrayBody : IsJson ('[' :: arrayBody) := by
  have hname : Json.IsStringBody ['a', '"'] := .plain (by decide) (by decide) (by decide) .close
  have htrue : IsJson ['t', 'r', 'u', 'e'] := .word (v := .bool true) (by simp [Json.words])
  have hobject : IsJson ['\x7b', '"', 'a', '"', ':', 't', 'r', 'u', 'e', '\x7d'] :=
    .object Json.isGap_nil
      (.lastMember hname Json.isGap_nil Json.isGap_nil htrue Json.isGap_nil)
  have hwhole : Json.IsWholePart ['1', '2'] :=
    .inr ⟨⟨by simp, List.all_eq_true.1 rfl⟩, by simp⟩
  have hnumber : IsJson ['1', '2'] := .positive (.mk hwhole (.inl rfl) (.inl rfl))
  have hspace : IsGap [' '] := List.all_eq_true.1 rfl
  exact .array Json.isGap_nil
    (.moreItems hobject Json.isGap_nil hspace (.lastItem hnumber Json.isGap_nil))

/-- The array with a blank in front of it, cut off between the digits of the number. -/
def cutArray : List Char := ' ' :: '[' :: arrayBody.take 13

theorem truncates_cutArray : Truncates cutArray [' '] arrayBody ['\n'] where
  isJson := isJson_arrayBody
  blank_before := List.all_eq_true.1 rfl
  blank_after := List.all_eq_true.1 rfl
  front := by decide
  behind_opening := by decide
  before_closing := by decide

open Document (soleTree soleFile)

/-- Cut off in a number that looks complete, the array is not read in chunks of three characters. -/
theorem readAll_cutArray :
    Truncates cutArray [' '] arrayBody ['\n'] ∧ 1 ≤ 3 ∧
      (soleTree cutArray).readText soleFile = .ok cutArray ∧
      ∃ r, (Reader.columned soleFile ["a"] 3).openFile (soleTree cutArray) = .ok r ∧
        ∃ e, (r.readAll 10).1 = .error e ∧ e.isValueError = true := by
  have hfile : (soleTree cutArray).readText soleFile = .ok cutArray :=
    Document.readText_soleTree (by decide)
  exact ⟨truncates_cutArray, by decide, hfile,
    readAll_truncated truncates_cutArray (by decide) hfile ["a"] 10⟩

end Runbook.Records
