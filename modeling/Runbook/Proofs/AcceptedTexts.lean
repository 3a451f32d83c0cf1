import Runbook.Proofs.TruncatedArrays

/-!
# Accepted texts

What a text is made of when all its rows are read without an error. A stream tells two kinds of text
apart by their first character. Behind an opening bracket it reads values with commas between them
up to the closing bracket, and there it stops: whatever follows is not looked at. Otherwise it reads
values up to the end of the text. The blanks it passes over are more than the white space of JSON.

* `IsArrayBody`, `IsSequence`: what is read in either way.
* `Accepts`: what is accepted in each phase of a stream.
* `accepts_ends`, `accepts_goes`, `Runs.accepts`: what one turn accepts, and what a run does.
* `items_behind`, `BeginsWithArray.unique`: the array in front of an accepted text is told by the
  text alone.
* `isReadToEnd_iff`: an accepted text is **read to its end** exactly if nothing but blanks stands
  behind the array in front, and the array is one with the white space of JSON.
-/

namespace Runbook.Records

open Runbook.Text
open Runbook.Json (Derives IsGap IsJson Ends goesOn readValue)
open Runbook.Records.Stream (blank_of_isGap dropWhile_blanks)

/-! ### Texts that are read -/

/-- Values with commas between them, up to a closing bracket, with blanks where they may stand. -/
inductive BlankedItems : List Char → Prop
  | last {x gap} (hx : IsJson x) (hgap : ∀ c ∈ gap, isBlank c = true) :
    BlankedItems (x ++ (gap ++ [']']))
  | more {x gap space cs} (hx : IsJson x) (hgap : ∀ c ∈ gap, isBlank c = true)
    (hspace : ∀ c ∈ space, isBlank c = true) (h : BlankedItems cs) :
    BlankedItems (x ++ (gap ++ ',' :: (space ++ cs)))

/-- An array behind its opening bracket, with blanks where they may stand. -/
inductive IsArrayBody : List Char → Prop
  | empty {gap} (hgap : ∀ c ∈ gap, isBlank c = true) : IsArrayBody (gap ++ [']'])
  | items {gap cs} (hgap : ∀ c ∈ gap, isBlank c = true) (h : BlankedItems cs) :
      IsArrayBody (gap ++ cs)

/-- Values, or none, with nothing but blanks between and around them. -/
inductive IsSequence : List Char → Prop
  | ended {gap} (hgap : ∀ c ∈ gap, isBlank c = true) : IsSequence gap
  | value {gap x rest} (hgap : ∀ c ∈ gap, isBlank c = true) (hx : IsJson x) (h : IsSequence rest) :
    IsSequence (gap ++ (x ++ rest))

/-- The first character that is no blank opens an array. -/
def OpensArray (text : List Char) : Prop := ∃ t, text.dropWhile isBlank = '[' :: t

/-- A text that begins with an array, behind blanks and in front of anything. -/
structure BeginsWithArray (text before body after : List Char) : Prop where
  text_eq : text = before ++ '[' :: (body ++ after)
  blank_before : ∀ c ∈ before, isBlank c = true
  isArrayBody : IsArrayBody body

/-- **A text without a character that is ignored**: one JSON array with only blanks around it, or
values with only blanks between and around them, the first of which is no array. -/
def IsReadToEnd (text : List Char) : Prop :=
  (∃ before body after, text = before ++ '[' :: (body ++ after) ∧ IsJson ('[' :: body) ∧
    (∀ c ∈ before, isBlank c = true) ∧ ∀ c ∈ after, isBlank c = true) ∨
  IsSequence text ∧ ¬ OpensArray text

/-- What is accepted: a text that begins with an array, or values up to its end. -/
def IsAccepted (text : List Char) : Prop :=
  (∃ before body after, BeginsWithArray text before body after) ∨
    IsSequence text ∧ ¬ OpensArray text

/-- What is left in front of an item: items, and anything behind them. -/
def AcceptsItems (cs : List Char) : Prop :=
  ∃ gap items after, cs = gap ++ (items ++ after) ∧ (∀ c ∈ gap, isBlank c = true) ∧
    BlankedItems items

/-- What is accepted in a phase of a stream. -/
def Accepts : Phase → List Char → Prop
  | .start, cs => IsAccepted cs
  | .item, cs => AcceptsItems cs
  | .separator, cs => ∃ gap rest, (∀ c ∈ gap, isBlank c = true) ∧
    (cs = gap ++ ']' :: rest ∨ cs = gap ++ ',' :: rest ∧ AcceptsItems rest)
  | .sequence, cs => IsSequence cs

/-! ### What a run accepts -/

section Turns

variable {phase next : Phase} {cs rest gap : List Char} {records : List Value}
  {record : Option Value}

/-- Blanks in front of a text. -/
theorem exists_blanks (cs : List Char) :
    ∃ gap, (∀ c ∈ gap, isBlank c = true) ∧ cs = gap ++ cs.dropWhile isBlank :=
  ⟨cs.takeWhile isBlank, fun _ hc => List.mem_takeWhile_imp hc,
    List.takeWhile_append_dropWhile.symm⟩

theorem IsSequence.behind_blanks (h : IsSequence cs) (hgap : ∀ c ∈ gap, isBlank c = true) :
    IsSequence (gap ++ cs) := by
  cases h with
  | ended hspace => exact .ended (List.forall_mem_append.2 ⟨hgap, hspace⟩)
  | value hspace hx h =>
    rw [← List.append_assoc]
    exact .value (List.forall_mem_append.2 ⟨hgap, hspace⟩) hx h

theorem taken_goes {give : Value → Option Value} {behind : Phase} {text : List Char}
    (h : taken give behind (valueOf text) = .goes record next rest) :
    next = behind ∧ ∃ x, text = x ++ rest ∧ IsJson x := by
  cases hfound : valueOf text with
  | none => rw [hfound] at h; cases h
  | some found =>
    rw [hfound] at h
    cases h
    exact ⟨rfl, Json.exists_isJson (valueOf_eq_some.1 hfound)⟩

/-- A turn that ends is in front of a text that is accepted. -/
theorem accepts_ends (h : turnOf valueOf phase cs = .ends) : Accepts phase cs := by
  obtain ⟨gap, hgap, hcs⟩ := exists_blanks cs
  rw [turnOf] at h
  cases phase with
  | start =>
    rw [turnAt, startTurn.eq_def] at h
    split at h
    · rename_i t ht
      split at h
      · rename_i after hafter
        obtain ⟨space, hspace, hbody⟩ := exists_blanks t
        refine .inl ⟨gap, space ++ [']'], after, ?_, hgap, .empty hspace⟩
        rw [hcs, ht, hbody, hafter]
        simp
      · cases h
    · cases h
  | item =>
    rw [turnAt] at h
    cases hfound : valueOf (cs.dropWhile isBlank) with
    | none => rw [hfound] at h; cases h
    | some found => rw [hfound] at h; cases h
  | separator =>
    rw [turnAt, separatorTurn.eq_def] at h
    split at h
    · rename_i rest hrest
      exact ⟨gap, rest, hgap, .inl (by rw [← hrest, ← hcs])⟩
    · cases h
    · cases h
  | sequence =>
    rw [turnAt] at h
    split at h
    · rename_i hnil
      rw [hcs, hnil, List.append_nil]
      exact .ended hgap
    · cases hfound : valueOf (cs.dropWhile isBlank) with
      | none => rw [hfound] at h; cases h
      | some found => rw [hfound] at h; cases h

/-- **One turn accepts** what it passes over in front of what is accepted next. -/
theorem accepts_goes (h : turnOf valueOf phase cs = .goes record next rest)
    (hrest : Accepts next rest) : Accepts phase cs := by
  obtain ⟨gap, hgap, hcs⟩ := exists_blanks cs
  rw [turnOf] at h
  cases phase with
  | start =>
    rw [turnAt, startTurn.eq_def] at h
    split at h
    · rename_i t ht
      split at h
      · cases h
      · cases h
        obtain ⟨before, items, after, hitems, hbefore, hderives⟩ := hrest
        obtain ⟨space, hspace, hbody⟩ := exists_blanks t
        refine .inl ⟨gap, (space ++ before) ++ items, after, ?_, hgap,
          .items (List.forall_mem_append.2 ⟨hspace, hbefore⟩) hderives⟩
        rw [hcs, ht, hbody, hitems]
        simp
    · rename_i hopen
      cases h
      have hsequence := IsSequence.behind_blanks hrest hgap
      rw [← hcs] at hsequence
      refine .inr ⟨hsequence, ?_⟩
      rintro ⟨t, ht⟩
      exact hopen t ht
  | item =>
    -- behind the value stands the closing bracket, with anything behind it, or a comma and items
    obtain ⟨rfl, x, hx, hjson⟩ := taken_goes h
    obtain ⟨space, behind, hspace, rfl | ⟨rfl, before, items, after, rfl, hbefore, hitems⟩⟩ := hrest
    · exact ⟨gap, x ++ (space ++ [']']), behind, by rw [hcs, hx]; simp, hgap, .last hjson hspace⟩
    · exact ⟨gap, x ++ (space ++ ',' :: (before ++ items)), after, by rw [hcs, hx]; simp, hgap,
        .more hjson hspace hbefore hitems⟩
  | separator =>
    rw [turnAt, separatorTurn.eq_def] at h
    split at h
    · cases h
    · rename_i hbehind
      cases h
      exact ⟨gap, rest, hgap, .inr ⟨by rw [← hbehind, ← hcs], hrest⟩⟩
    · cases h
  | sequence =>
    rw [turnAt] at h
    split at h
    · cases h
    · obtain ⟨rfl, x, hx, hjson⟩ := taken_goes h
      rw [hcs, hx]
      exact .value hgap hjson hrest

/-- **A run that does not fail** is that of a text that is accepted. -/
theorem Runs.accepts (h : Runs valueOf phase cs records false) : Accepts phase cs := by
  generalize hfailed : false = failed at h
  induction h with
  | ends h => exact accepts_ends h
  | fails _ => cases hfailed
  | goes h _ ih => exact accepts_goes h (ih hfailed)

end Turns

/-! ### The array in front of an accepted text -/

section Unique

variable {text x y gap space s t cs others before body after front inner behind : List Char}
  {c d : Char} {records : List Value}

theorem goesOn_blank (h : isBlank c = true) : goesOn c = false := by
  refine Bool.eq_false_iff.2 fun hgoes => ?_
  simp only [goesOn, Bool.or_eq_true, beq_iff_eq] at hgoes
  rcases hgoes with ((hdigit | rfl) | rfl) | rfl
  · rw [isBlank_digit hdigit] at h
    cases h
  all_goals cases h

/-- A character that stands behind an item: the closing bracket or a comma. -/
def IsItemEnd (c : Char) : Prop := c = ']' ∨ c = ','

theorem dropWhile_itemEnd (hgap : ∀ c ∈ gap, isBlank c = true) (hc : IsItemEnd c) (s : List Char) :
    (gap ++ c :: s).dropWhile isBlank = c :: s := by
  refine dropWhile_blanks hgap ?_ s
  rcases hc with rfl | rfl <;> rfl

theorem ends_itemEnd (hgap : ∀ c ∈ gap, isBlank c = true) (hc : IsItemEnd c) (s : List Char) :
    Ends (gap ++ c :: s) := by
  intro d t ht
  cases gap with
  | nil =>
    rw [← (List.cons.inj ht).1]
    rcases hc with rfl | rfl <;> rfl
  | cons b gap =>
    rw [← (List.cons.inj ht).1]
    exact goesOn_blank (hgap b List.mem_cons_self)

/-- What stands behind an item that is read is told by the text alone. -/
theorem item_behind (hx : IsJson x) (hy : IsJson y) (hgap : ∀ c ∈ gap, isBlank c = true)
    (hspace : ∀ c ∈ space, isBlank c = true) (hc : IsItemEnd c) (hd : IsItemEnd d)
    (heq : x ++ (gap ++ c :: s) = y ++ (space ++ d :: t)) (hfront : ∀ c ∈ front, isBlank c = true)
    (h : Runs valueOf .item (front ++ (x ++ (gap ++ c :: s))) records false) : c :: s = d :: t := by
  -- both items are read from the same text, so the reading leaves the same behind them
  obtain ⟨v, -, hread, -⟩ := h.reads_item hx hfront (ends_itemEnd hgap hc s)
  rw [heq] at h hread
  obtain ⟨w, -, hread', -⟩ := h.reads_item hy hfront (ends_itemEnd hspace hd t)
  have hbehind : gap ++ c :: s = space ++ d :: t :=
    (Prod.mk.inj (Except.ok.inj (hread.symm.trans hread'))).2
  rw [← dropWhile_itemEnd hgap hc, hbehind, dropWhile_itemEnd hspace hd]

/-- Items begin with neither a blank nor a closing bracket. -/
theorem BlankedItems.begins (h : BlankedItems cs) :
    ∃ c t, cs = c :: t ∧ isBlank c = false ∧ c ≠ ']' := by
  cases h with
  | last hx _ =>
    obtain ⟨c, t, rfl, hc⟩ := hx.begins
    exact ⟨c, _, rfl, hc.1, hc.2.1⟩
  | more hx _ _ _ =>
    obtain ⟨c, t, rfl, hc⟩ := hx.begins
    exact ⟨c, _, rfl, hc.1, hc.2.1⟩

theorem BlankedItems.dropWhile_eq (h : BlankedItems cs) (hgap : ∀ c ∈ gap, isBlank c = true)
    (after : List Char) : (gap ++ (cs ++ after)).dropWhile isBlank = cs ++ after := by
  obtain ⟨c, t, rfl, hc, -⟩ := h.begins
  exact dropWhile_blanks hgap hc _

/-- **What stands behind items** that are read is told by the text alone: by induction on the items,
as each of them is read up to the same character. -/
theorem items_behind (h : BlankedItems cs) (hothers : BlankedItems others)
    (heq : cs ++ after = others ++ behind) (hfront : ∀ c ∈ front, isBlank c = true)
    (hruns : Runs valueOf .item (front ++ (cs ++ after)) records false) : after = behind := by
  induction h generalizing others front records with
  | @last x gap hx hgap =>
    simp only [List.append_assoc, List.singleton_append] at heq hruns
    cases hothers with
    | @last y space hy hspace =>
      simp only [List.append_assoc, List.singleton_append] at heq
      exact (List.cons.inj (item_behind hx hy hgap hspace (.inl rfl) (.inl rfl) heq hfront hruns)).2
    | @more y space _ _ hy hspace _ _ =>
      -- the one closes where the other has a comma
      simp only [List.append_assoc, List.cons_append] at heq
      cases (List.cons.inj (item_behind hx hy hgap hspace (.inl rfl) (.inr rfl) heq hfront hruns)).1
  | @more x gap next cs hx hgap hnext h ih =>
    simp only [List.append_assoc, List.cons_append] at heq hruns
    cases hothers with
    | @last y space hy hspace =>
      simp only [List.append_assoc, List.singleton_append] at heq
      cases (List.cons.inj (item_behind hx hy hgap hspace (.inr rfl) (.inl rfl) heq hfront hruns)).1
    | @more y space far others hy hspace hfar hothers =>
      simp only [List.append_assoc, List.cons_append] at heq
      have hbehind := (List.cons.inj
        (item_behind hx hy hgap hspace (.inr rfl) (.inr rfl) heq hfront hruns)).2
      have hitems : cs ++ after = others ++ behind := by
        rw [← h.dropWhile_eq hnext, hbehind, hothers.dropWhile_eq hfar]
      obtain ⟨-, rest, -, hrest⟩ := hruns.reads_item hx hfront (ends_itemEnd hgap (.inr rfl) _)
      obtain ⟨rest, hrest⟩ := hrest.behind_comma hgap
      exact ih hothers hitems hnext hrest

theorem BeginsWithArray.dropWhile_eq (h : BeginsWithArray text before body after) :
    text.dropWhile isBlank = '[' :: (body ++ after) := by
  rw [h.text_eq, dropWhile_blanks h.blank_before (by decide)]

/-- Behind the opening bracket and blanks stands the closing bracket, or items. -/
theorem IsArrayBody.dropWhile_cases (h : IsArrayBody body) (after : List Char) :
    (body ++ after).dropWhile isBlank = ']' :: after ∨
      ∃ items, BlankedItems items ∧ (body ++ after).dropWhile isBlank = items ++ after := by
  cases h with
  | empty hgap =>
    rw [List.append_assoc, List.singleton_append]
    exact .inl (dropWhile_itemEnd hgap (.inl rfl) after)
  | @items gap items hgap h =>
    rw [List.append_assoc]
    exact .inr ⟨items, h, h.dropWhile_eq hgap after⟩

theorem BlankedItems.ne_closing (h : BlankedItems cs) : ']' :: s ≠ cs ++ after := by
  obtain ⟨c, t, rfl, -, hc⟩ := h.begins
  exact fun he => hc (List.cons.inj he).1.symm

/-- Behind the opening bracket, in front of items, a run goes on with them. -/
theorem BeginsWithArray.runs_items (h : BeginsWithArray text before body after)
    (hitems : BlankedItems cs) (hcs : (body ++ after).dropWhile isBlank = cs ++ after)
    (hruns : Runs valueOf .start text records false) :
    ∃ rest, Runs valueOf .item (cs ++ after) rest false := by
  have hopen : ∀ t, (body ++ after).dropWhile isBlank ≠ ']' :: t :=
    fun t ht => hitems.ne_closing (ht.symm.trans hcs)
  have hturn : turnOf valueOf .start text = .goes none .item (cs ++ after) := by
    rw [turnOf, h.dropWhile_eq, turnAt, startTurn_bracket hopen, hcs]
  exact hruns.behind hturn

/-- **The array in front** of an accepted text is told by the text alone. -/
theorem BeginsWithArray.unique (h : BeginsWithArray text before body after)
    (h' : BeginsWithArray text front inner behind)
    (hruns : Runs valueOf .start text records false) :
    body = inner ∧ after = behind := by
  have hbodies : body ++ after = inner ++ behind :=
    (List.cons.inj (h.dropWhile_eq.symm.trans h'.dropWhile_eq)).2
  suffices hafter : after = behind by
    rw [hafter] at hbodies
    exact ⟨List.append_cancel_right hbodies, hafter⟩
  have hinner := h'.isArrayBody.dropWhile_cases behind
  rw [← hbodies] at hinner
  rcases h.isArrayBody.dropWhile_cases after with hclosed | ⟨items, hitems, hdrop⟩
  · rcases hinner with hclosed' | ⟨others, hothers, hdrop'⟩
    · exact (List.cons.inj (hclosed.symm.trans hclosed')).2
    · exact absurd (hclosed.symm.trans hdrop') hothers.ne_closing
  · rcases hinner with hclosed' | ⟨others, hothers, hdrop'⟩
    · exact absurd (hclosed'.symm.trans hdrop) hitems.ne_closing
    · obtain ⟨rest, hrest⟩ := h.runs_items hitems hdrop hruns
      exact items_behind hitems hothers (hdrop.symm.trans hdrop')
        (blank_of_isGap Json.isGap_nil) hrest

/-! ### Texts that are read to their end -/

/-- The items of a JSON array have blanks where they may stand. -/
theorem blankedItems_of_derives (h : Derives .items cs) : BlankedItems cs := by
  generalize hp : Json.Part.items = p at h
  induction h with
  | lastItem hx hgap _ => exact .last hx (blank_of_isGap hgap)
  | moreItems hx hgap hspace _ _ ih =>
    exact .more hx (blank_of_isGap hgap) (blank_of_isGap hspace) (ih hp)
  | _ => cases hp

theorem isArrayBody_of_isJson (h : IsJson ('[' :: body)) : IsArrayBody body := by
  rcases isJson_array_cases h with ⟨gap, hgap, rfl⟩ | ⟨gap, items, hgap, hitems, rfl⟩
  · exact .empty (blank_of_isGap hgap)
  · exact .items (blank_of_isGap hgap) (blankedItems_of_derives hitems)

/-- **An accepted text is read to its end** exactly if nothing but blanks stands behind the array it
begins with, if it begins with one, and that is an array with the white space of JSON. -/
theorem isReadToEnd_iff (hruns : Runs valueOf .start text records false) :
    IsReadToEnd text ↔ ∀ before body after, BeginsWithArray text before body after →
      IsJson ('[' :: body) ∧ ∀ c ∈ after, isBlank c = true := by
  constructor
  · rintro (⟨front, inner, behind, htext, hjson, hfront, hbehind⟩ | ⟨-, hopen⟩) before body after h
    · -- a JSON array is one with blanks, so it is the array the text begins with
      obtain ⟨rfl, rfl⟩ := h.unique ⟨htext, hfront, isArrayBody_of_isJson hjson⟩ hruns
      exact ⟨hjson, hbehind⟩
    · exact absurd ⟨_, h.dropWhile_eq⟩ hopen
  · intro hall
    rcases hruns.accepts with ⟨before, body, after, h⟩ | hsequence
    · obtain ⟨hjson, hafter⟩ := hall before body after h
      exact .inl ⟨before, body, after, h.text_eq, hjson, h.blank_before, hafter⟩
    · exact .inr hsequence

end Unique

/-! ### Reading all rows -/

/-- **Accepted texts.** If all rows of a text are read without an error, it is a sequence of values
that does not begin with an array, or it begins with one; and it is read to its end exactly if
nothing but blanks stands behind that array, and its items have only the white space of JSON between
them. -/
theorem readAll_accepted {files : FileTree} {file : Location} {text : List Char} {chunk : Nat}
    (hchunk : 1 ≤ chunk) (hfile : files.readText file = .ok text) (names : List String)
    (size : Int) :
    ∃ r, (Reader.columned file names chunk).openFile files = .ok r ∧
      ∀ rows, (r.readAll size).1 = .ok rows → IsAccepted text ∧
        (IsReadToEnd text ↔ ∀ before body after, BeginsWithArray text before body after →
          IsJson ('[' :: body) ∧ ∀ c ∈ after, isBlank c = true) := by
  obtain ⟨r, hopen, records, fault, hstreamed⟩ := readAll_streamed names size hchunk hfile
  refine ⟨r, hopen, fun rows hrows => ?_⟩
  obtain ⟨_, -, hread⟩ := hstreamed.readAll
  cases fault with
  | none =>
    have hruns := runs_whole hstreamed.runs
    exact ⟨hruns.accepts, isReadToEnd_iff hruns⟩
  | some e =>
    rw [hread] at hrows
    cases hrows

open Document (soleTree soleFile)

/-- Two objects with a line break between them. -/
def twoObjects : List Char := ['\x7b', '\x7d', '\n', '\x7b', '\x7d']

/-- Two objects in sequence are both read, and so is the text to its end. -/
theorem readAll_twoObjects : 1 ≤ 2 ∧ (soleTree twoObjects).readText soleFile = .ok twoObjects ∧
    ∃ r, (Reader.columned soleFile [] 2).openFile (soleTree twoObjects) = .ok r ∧
      (r.readAll 10).1 = .ok [.dict [], .dict []] ∧ IsReadToEnd twoObjects := by
  have hfile : (soleTree twoObjects).readText soleFile = .ok twoObjects :=
    Document.readText_soleTree (by decide)
  obtain ⟨r, hopen, haccepted⟩ := readAll_accepted (show 1 ≤ 2 by decide) hfile [] 10
  have hrows : (r.readAll 10).1 = .ok [.dict [], .dict []] := by
    rw [← Except.ok.inj hopen]
    rfl
  refine ⟨by decide, hfile, r, hopen, hrows, (haccepted _ hrows).2.2 fun before body after h => ?_⟩
  cases h.dropWhile_eq

/-- An array of one object, and an object behind it. -/
def trailedArray : List Char := ['[', '\x7b', '\x7d', ']', ' ', '\x7b', '\x7d']

theorem beginsWithArray_trailedArray :
    BeginsWithArray trailedArray [] ['\x7b', '\x7d', ']'] [' ', '\x7b', '\x7d'] := by
  have hnone := blank_of_isGap Json.isGap_nil
  have hobject : IsJson ['\x7b', '\x7d'] := .emptyObject Json.isGap_nil
  exact ⟨rfl, hnone, .items hnone (.last hobject hnone)⟩

theorem runs_trailedArray : Runs valueOf .start trailedArray [.dict []] false := by
  have hstart : turnOf valueOf .start trailedArray = .goes none .item trailedArray.tail := rfl
  have hitem : turnOf valueOf .item trailedArray.tail =
      .goes (some (.dict [])) .separator (trailedArray.drop 3) := rfl
  exact .goes hstart (.goes hitem (.ends rfl))

/-- **What stands behind an array is ignored**: all rows are read without an error, and the object
behind the closing bracket is none of them. -/
theorem readAll_trailedArray :
    (∃ r, (Reader.columned soleFile [] 8).openFile (soleTree trailedArray) = .ok r ∧
      (r.readAll 10).1 = .ok [.dict []]) ∧ ¬ IsReadToEnd trailedArray := by
  refine ⟨⟨_, rfl, rfl⟩, fun hread => ?_⟩
  have hafter := ((isReadToEnd_iff runs_trailedArray).1 hread _ _ _ beginsWithArray_trailedArray).2
  exact absurd (List.all_eq_true.2 hafter) (by decide)

end Runbook.Records
