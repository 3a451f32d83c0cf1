import Runbook.Proofs.History
import Runbook.Proofs.Tokens

/-!
# Writing a map

A map is written entry by entry. A name that is no expression is skipped and given back, and the
entries behind it are still written. One kind of name is neither written nor skipped: where a
bracket holds an index of more digits than integers are read with, the writing ends in the middle of
the map, with an error that does not belong to names.

* `ofValue_outcome`: what comes of a name, by its text alone.
* `accepted`, `rejected`, `writes`: the entries with names that are expressions, the other names,
  and the writes that entries stand for, one by one.
* `setAll_behind`: writing a map in two parts.
* `lookup?_run_writes`: what is found behind the writes.
* `update_skips_iff`: **which maps are written with nothing but names skipped**, and what becomes of
  the others.
-/

namespace Runbook

open Runbook.Text

namespace Store

/-! ### What comes of a name -/

/-- What may name a variable: a text, or nothing at all. -/
def IsGivenName (name : Value) : Prop :=
  name = .null ∨ ∃ text, name.asText? = some text

/-- A name that has an overlong index in it, behind its blanks and braces. -/
def IsOverlongName (name : Value) : Prop :=
  ∃ text, name.asText? = some text ∧ Path.HasOverlongIndex (Path.unwrapChars text.toList)

/-- **What comes of a name**: an expression or what is none, or the error of an overlong index. -/
inductive NameOutcome (name : Value) : Except Error Path → Prop
  | reads (p : Path) (hshort : ¬ IsOverlongName name) : NameOutcome name (.ok p)
  | malformed (expression : String) (fault : PathFault) (hshort : ¬ IsOverlongName name) :
    NameOutcome name (.error (.malformed expression fault))
  | overlong (count : Nat) (hlong : IsOverlongName name) :
    NameOutcome name (.error (.value (.integerTooLong (some count))))

variable {name : Value} {text : String}

theorem ofValue_text (h : name.asText? = some text) : Path.ofValue name = Path.parse text := by
  unfold Path.ofValue
  split
  · cases h
  · rename_i s hs
    rw [h] at hs
    rw [Option.some.inj hs]
  all_goals
    rename_i hnone
    rw [h] at hnone
    cases hnone

theorem isOverlongName_iff (h : name.asText? = some text) :
    IsOverlongName name ↔ Path.HasOverlongIndex (Path.unwrapChars text.toList) := by
  constructor
  · rintro ⟨other, hother, hlong⟩
    rw [h] at hother
    rwa [Option.some.inj hother]
  · exact fun hlong => ⟨text, h, hlong⟩

/-- A name without brackets has no overlong index. -/
theorem not_isOverlongName_of_bare (h : name.asText? = some text)
    (hbare : '[' ∉ Path.unwrapChars text.toList) : ¬ IsOverlongName name := by
  rw [isOverlongName_iff h]
  exact fun ⟨_, hencloses, _⟩ => Path.not_encloses_word hbare hencloses

theorem not_isOverlongName_null : ¬ IsOverlongName .null :=
  fun ⟨_, htext, _⟩ => nomatch htext

theorem unwrapChars_of_blank (h : isBlankText text = true) :
    Path.unwrapChars text.toList = [] := by
  rw [Path.unwrapChars, (isBlankText_iff text).1 h]

theorem ofValue_outcome (h : IsGivenName name) : NameOutcome name (Path.ofValue name) := by
  rcases h with rfl | ⟨text, htext⟩
  · exact .malformed "" .empty not_isOverlongName_null
  have hunwrap : (Path.unwrap text).toList = Path.unwrapChars text.toList := String.toList_ofList
  rw [ofValue_text htext, Path.parse]
  split
  · rename_i hblank
    refine .malformed text .empty (not_isOverlongName_of_bare htext ?_)
    rw [unwrapChars_of_blank hblank]
    exact List.not_mem_nil
  · rw [Path.tokenize, hunwrap]
    have houtcome := Path.tokens_outcome (Path.unwrapChars text.toList)
    generalize Path.tokens (Path.unwrapChars text.toList) = r at houtcome
    cases houtcome with
    | reads segments _ hshort =>
      have hname : ¬ IsOverlongName name := by rwa [isOverlongName_iff htext]
      cases hpath : Path.ofSegments? segments with
      | some p => simpa only [hpath] using .reads p hname
      | none => simpa only [hpath] using .malformed text .noScopeAndKey hname
    | overlong hencloses hlong =>
      exact .overlong _ ((isOverlongName_iff htext).2 ⟨_, hencloses, hlong⟩)
    | unclosed _ hshort =>
      exact .malformed _ .openBracket (by rwa [isOverlongName_iff htext])

/-! ### Entries one by one -/

/-- The entries whose names stand for variables. -/
def accepted (es : Entries) : Entries :=
  es.filter fun e => (namedBase? e.1).isSome

/-- The names that stand for no variable, in order. -/
def rejected (es : Entries) : List Value :=
  (es.filter fun e => (namedBase? e.1).isNone).map (·.1)

/-- The writes that entries stand for, one by one. -/
def writes (es : Entries) : List Operation :=
  es.map fun e => .set e.1 e.2

/-- **A map that is written with nothing but names skipped**: the names that stand for no variable
are given back in order, the other entries are written one by one, and of the names of one variable
the last has its value there. -/
structure SkipsAndContinues (s : Store) (es : Entries) (r : Except Error (List Value) × Store) :
    Prop where
  skipped : r.1 = .ok (rejected es)
  written : r.2 = s.run (writes (accepted es))
  lastWins : ∀ front e behind b, es = front ++ e :: behind → namedBase? e.1 = some b →
    (∀ d ∈ behind, namedBase? d.1 ≠ some b) → r.2.lookup? b = some e.2
  others : ∀ b, (∀ e ∈ es, namedBase? e.1 ≠ some b) → r.2.lookup? b = s.lookup? b

variable {s t : Store} {es front behind : Entries} {e : Value × Value} {b : Base}
  {skipped : List Value}

theorem accepted_named (h : namedBase? e.1 = some b) (es : Entries) :
    accepted (e :: es) = e :: accepted es := by
  rw [accepted, List.filter_cons_of_pos (by rw [h]; rfl)]
  rfl

theorem accepted_nameless (h : namedBase? e.1 = none) (es : Entries) :
    accepted (e :: es) = accepted es := by
  rw [accepted, List.filter_cons_of_neg (by rw [h]; exact Bool.false_ne_true)]
  rfl

theorem rejected_named (h : namedBase? e.1 = some b) (es : Entries) :
    rejected (e :: es) = rejected es := by
  rw [rejected, List.filter_cons_of_neg (by rw [h]; exact Bool.false_ne_true)]
  rfl

theorem rejected_nameless (h : namedBase? e.1 = none) (es : Entries) :
    rejected (e :: es) = e.1 :: rejected es := by
  rw [rejected, List.filter_cons_of_pos (by rw [h]; rfl)]
  rfl

theorem run_write (h : namedBase? e.1 = some b) (s : Store) (es : Entries) :
    s.run (writes (e :: es)) = (s.put b e.2).run (writes es) := by
  have hperform : (s.perform (.set e.1 e.2)).2 = s.put b e.2 := by
    rw [perform, assign_of_base s h]
    rfl
  rw [← hperform]
  rfl

/-- What is given back of a map behind other skipped names. -/
def behindSkipped (skipped : List Value) :
    Except Error (List Value) × Store → Except Error (List Value) × Store
  | (.ok more, s) => (.ok (skipped ++ more), s)
  | (.error e, s) => (.error e, s)

/-- **A map in two parts**: entries with names of which none is overlong are written one by one, and
then the others, whatever comes of them. -/
theorem setAll_behind (hnames : ∀ d ∈ front, IsGivenName d.1)
    (hshort : ∀ d ∈ front, ¬ IsOverlongName d.1) (s : Store) (behind : Entries) :
    s.setAll (front ++ behind) =
      behindSkipped (rejected front) ((s.run (writes (accepted front))).setAll behind) := by
  induction front generalizing s with
  | nil =>
    obtain ⟨r, hr⟩ : ∃ r, s.setAll behind = r := ⟨_, rfl⟩
    have hrun : s.run (writes (accepted [])) = s := rfl
    rw [List.nil_append, hrun, hr]
    rcases r with ⟨_ | more, t⟩ <;> rfl
  | cons e front ih =>
    obtain ⟨hname, hnames⟩ := List.forall_mem_cons.1 hnames
    obtain ⟨hhere, hshort⟩ := List.forall_mem_cons.1 hshort
    rw [List.cons_append, setAll]
    have houtcome := ofValue_outcome hname
    cases hpath : Path.ofValue e.1 with
    | ok p =>
      have hbase := namedBase?_ok hpath
      rw [assign_of_base s hbase, accepted_named hbase, rejected_named hbase, run_write hbase,
        ← ih hnames hshort]
    | error fault =>
      have hbase := namedBase?_error hpath
      have hassign : s.assign e.1 e.2 = .error fault := by rw [assign, hpath]
      rw [hpath] at houtcome
      rw [hassign, accepted_nameless hbase, rejected_nameless hbase]
      cases houtcome with
      | malformed expression fault =>
        simp only [ih hnames hshort]
        -- the skipped name comes in front of those behind it, or the error stands as it is
        rcases (s.run (writes (accepted front))).setAll behind with ⟨_ | more, t⟩ <;> rfl
      | overlong count hlong => exact absurd hlong hhere

/-- An overlong name ends the writing, with what was written before it. -/
theorem setAll_overlong (hname : IsGivenName e.1) (hlong : IsOverlongName e.1) (s : Store)
    (behind : Entries) :
    ∃ count, s.setAll (e :: behind) = (.error (.value (.integerTooLong (some count))), s) := by
  have houtcome := ofValue_outcome hname
  cases hpath : Path.ofValue e.1 with
  | ok p =>
    rw [hpath] at houtcome
    cases houtcome with
    | reads p hshort => exact absurd hlong hshort
  | error fault =>
    have hassign : s.assign e.1 e.2 = .error fault := by rw [assign, hpath]
    rw [hpath] at houtcome
    rw [setAll, hassign]
    cases houtcome with
    | malformed expression fault hshort => exact absurd hlong hshort
    | overlong count => exact ⟨count, rfl⟩

/-- A map that is written to its end is written by its entries one by one. -/
theorem setAll_written (h : s.setAll es = (.ok skipped, t)) :
    skipped = rejected es ∧ t = s.run (writes (accepted es)) := by
  induction es generalizing s skipped with
  | nil =>
    cases h
    exact ⟨rfl, rfl⟩
  | cons e es ih =>
    rw [setAll] at h
    rcases assign_cases s e.1 e.2 with ⟨b, hbase, hassign⟩ | ⟨fault, hbase, hassign⟩
    · rw [hassign] at h
      rw [rejected_named hbase, accepted_named hbase, run_write hbase]
      exact ih h
    · rw [rejected_nameless hbase, accepted_nameless hbase]
      rw [hassign] at h
      -- a name that is no expression is skipped, and any other error ends the writing
      cases fault with
      | malformed expression fault =>
        dsimp only at h
        split at h
        · rename_i hrest
          cases h
          obtain ⟨rfl, hstore⟩ := ih hrest
          exact ⟨rfl, hstore⟩
        · rename_i hfailed
          exact absurd h (hfailed _ _)
      | _ => cases h

/-! ### What is found behind the writes -/

/-- The last entry that names a variable has its value; a variable that none names has its old. -/
theorem lookup?_run_writes (es : Entries) (s : Store) (b : Base) :
    (s.run (writes (accepted es))).lookup? b =
      (((es.filter fun e => namedBase? e.1 == some b).getLast?).map (·.2)).or (s.lookup? b) := by
  induction es generalizing s with
  | nil => rfl
  | cons e es ih =>
    cases hbase : namedBase? e.1 with
    | none =>
      rw [accepted_nameless hbase, ih, List.filter_cons_of_neg (by rw [hbase]; exact nofun)]
    | some c =>
      rw [accepted_named hbase, run_write hbase, ih, Store.lookup?, put, Variables.lookup?_put]
      by_cases hc : c = b
      · subst hc
        rw [if_pos rfl, List.filter_cons_of_pos (by rw [hbase, beq_self_eq_true]),
          List.getLast?_cons]
        cases (es.filter fun e => namedBase? e.1 == some c).getLast? <;> rfl
      · rw [if_neg (Ne.symm hc), List.filter_cons_of_neg (by rw [hbase]; simpa using hc)]
        rfl

theorem filter_named_nil (h : ∀ d ∈ es, namedBase? d.1 ≠ some b) :
    (es.filter fun e => namedBase? e.1 == some b) = [] :=
  List.filter_eq_nil_iff.2 fun d hd => by simpa using h d hd

/-- The writes of a map skip and continue, if the names that are no variables are given back. -/
theorem skipsAndContinues_iff {r : Except Error (List Value) × Store} :
    SkipsAndContinues s es r ↔ r = (.ok (rejected es), s.run (writes (accepted es))) := by
  constructor
  · exact fun h => Prod.ext h.skipped h.written
  · rintro rfl
    refine ⟨rfl, rfl, ?_, ?_⟩
    · rintro front e behind b rfl hbase hbehind
      rw [lookup?_run_writes, List.filter_append,
        List.filter_cons_of_pos (by rw [hbase, beq_self_eq_true]), filter_named_nil hbehind,
        List.getLast?_append]
      rfl
    · intro b hes
      rw [lookup?_run_writes, filter_named_nil hes]
      rfl

/-! ### The whole map -/

theorem update_map {given : Value} (hmap : given.asMap "items" = .ok es) (s : Store) :
    s.update given = s.setAll es := by
  unfold update
  split
  · rename_i hfalsy
    -- what is a map and does not count as given has no entries
    have hes : es = [] := by
      cases given <;> cases hmap <;> simpa [Value.isTruthy] using hfalsy
    rw [hes]
    rfl
  · rw [hmap]

/-- The first name that is overlong, if there is one. -/
theorem exists_overlong (h : ∃ e ∈ es, IsOverlongName e.1) :
    ∃ front e behind, es = front ++ e :: behind ∧ IsOverlongName e.1 ∧
      ∀ d ∈ front, ¬ IsOverlongName d.1 := by
  induction es with
  | nil =>
    obtain ⟨e, he, -⟩ := h
    cases he
  | cons e es ih =>
    by_cases hhere : IsOverlongName e.1
    · exact ⟨[], e, es, rfl, hhere, fun d hd => nomatch hd⟩
    · obtain ⟨d, hd, hlong⟩ := h
      rcases List.mem_cons.1 hd with rfl | hd
      · exact absurd hlong hhere
      · obtain ⟨front, c, behind, rfl, hc, hfront⟩ := ih ⟨d, hd, hlong⟩
        exact ⟨e :: front, c, behind, rfl, hc, List.forall_mem_cons.2 ⟨hhere, hfront⟩⟩

/-- **Which maps are written with nothing but names skipped.** With names that are texts or null, a
map is so exactly if no name has an overlong index in it. Otherwise the writing ends with the error
of that index at the first such name, and only the entries before it are written. -/
theorem update_skips_iff {given : Value} (hmap : given.asMap "items" = .ok es)
    (hnames : ∀ e ∈ es, IsGivenName e.1) (s : Store) :
    (SkipsAndContinues s es (s.update given) ↔ ∀ e ∈ es, ¬ IsOverlongName e.1) ∧
    ∀ front e behind, es = front ++ e :: behind → (∀ d ∈ front, ¬ IsOverlongName d.1) →
      IsOverlongName e.1 → ∃ count, s.update given =
        (.error (.value (.integerTooLong (some count))), s.run (writes (accepted front))) := by
  have hbroken : ∀ front e behind, es = front ++ e :: behind →
      (∀ d ∈ front, ¬ IsOverlongName d.1) → IsOverlongName e.1 → ∃ count, s.update given =
        (.error (.value (.integerTooLong (some count))), s.run (writes (accepted front))) := by
    rintro front e behind rfl hfront hlong
    obtain ⟨hfrontNames, hrestNames⟩ := List.forall_mem_append.1 hnames
    obtain ⟨count, hcount⟩ := setAll_overlong (List.forall_mem_cons.1 hrestNames).1 hlong
      (s.run (writes (accepted front))) behind
    exact ⟨count, by rw [update_map hmap, setAll_behind hfrontNames hfront, hcount]; rfl⟩
  refine ⟨⟨fun hskips e he hlong => ?_, fun hshort => ?_⟩, hbroken⟩
  · obtain ⟨front, d, behind, hes, hd, hfront⟩ := exists_overlong ⟨e, he, hlong⟩
    obtain ⟨count, hcount⟩ := hbroken front d behind hes hfront hd
    have hskipped := hskips.skipped
    rw [hcount] at hskipped
    cases hskipped
  · have hall := setAll_behind hnames hshort s []
    rw [List.append_nil] at hall
    rw [skipsAndContinues_iff, update_map hmap, hall]
    simp only [setAll, behindSkipped, List.append_nil]

/-- A map in which one name is no expression, one is null, and two are names of one variable. -/
def mixedBatch : Entries :=
  [(.str "A.x", .int 1), (.str "bad", .int 2), (.null, .int 3), (.str "$\x7bA.x\x7d", .int 4)]

/-- Two names of the mixed map come back, and the later of the others has the last word. -/
theorem update_mixedBatch :
    (Value.dict mixedBatch).asMap "items" = .ok mixedBatch ∧
      (∀ e ∈ mixedBatch, IsGivenName e.1) ∧ (∀ e ∈ mixedBatch, ¬ IsOverlongName e.1) ∧
      ((empty .keepAsIs).update (.dict mixedBatch)).1 = .ok [.str "bad", .null] ∧
      ((empty .keepAsIs).update (.dict mixedBatch)).2.lookup? ("A", "x") = some (.int 4) := by
  have hnames : ∀ e ∈ mixedBatch, IsGivenName e.1 := by
    simp [mixedBatch, IsGivenName, Value.asText?]
  have hshort : ∀ e ∈ mixedBatch, ¬ IsOverlongName e.1 := by
    have hbare : ∀ text : String, '[' ∉ Path.unwrapChars text.toList →
        ¬ IsOverlongName (.str text) := fun _ => not_isOverlongName_of_bare rfl
    simpa [mixedBatch] using ⟨hbare "A.x" (by decide), hbare "bad" (by decide),
      not_isOverlongName_null, hbare "$\x7bA.x\x7d" (by decide)⟩
  have hmap : (Value.dict mixedBatch).asMap "items" = .ok mixedBatch := rfl
  have hskips := (update_skips_iff hmap hnames (empty .keepAsIs)).1.2 hshort
  have hbad : namedBase? (.str "bad") = none := by decide
  have hfirst : namedBase? (.str "A.x") = some ("A", "x") := by decide
  have hlast : namedBase? (.str "$\x7bA.x\x7d") = some ("A", "x") := by decide
  refine ⟨hmap, hnames, hshort, ?_, ?_⟩
  · rw [hskips.skipped, mixedBatch, rejected_named hfirst, rejected_nameless hbad,
      rejected_nameless rfl, rejected_named hlast]
    rfl
  · exact hskips.lastWins (mixedBatch.take 3) (.str "$\x7bA.x\x7d", .int 4) [] _ rfl hlast
      fun _ h => nomatch h

/-- A map whose second name has an index of one digit more than integers are read with. -/
def overlongBatch : Entries :=
  [(.str "A.x", .int 1), (.str ("A.b" ++ Path.overlongText), .int 2), (.str "A.y", .int 3)]

theorem isOverlongName_indexed : IsOverlongName (.str ("A.b" ++ Path.overlongText)) := by
  have htext : ("A.b" ++ Path.overlongText).toList =
      ['A', '.', 'b'] ++ '[' :: (List.replicate (maxIntegerDigits + 1) '1' ++ [']']) := by
    rw [String.toList_append, Path.overlongText, String.toList_ofList, String.toList_ofList]
  have htrim : trimChars ("A.b" ++ Path.overlongText).toList =
      ("A.b" ++ Path.overlongText).toList := by
    refine trimChars_eq_self.2 ⟨fun c hc => ?_, fun c hc => ?_⟩
    · rw [htext] at hc
      obtain rfl := Option.some.inj hc
      decide
    · rw [htext, ← List.cons_append, ← List.append_assoc, List.getLast?_concat] at hc
      obtain rfl := Option.some.inj hc
      decide
  refine ⟨_, rfl, List.replicate (maxIntegerDigits + 1) '1', ?_,
    Path.isOverlong_ones (Nat.lt_succ_self _)⟩
  rw [Path.unwrapChars, htrim, htext]
  exact (Path.encloses_closed (by decide) (Path.not_close_ones _)).2 (.inl rfl)

/-- The map is given up in the middle: what stands behind the overlong index is not written. -/
theorem overlongBatch_breaksOff :
    (∃ count, ((empty .keepAsIs).update (.dict overlongBatch)).1 =
        .error (.value (.integerTooLong (some count)))) ∧
      ((empty .keepAsIs).update (.dict overlongBatch)).2.lookup? ("A", "x") = some (.int 1) ∧
      namedBase? (.str "A.y") = some ("A", "y") ∧
      ((empty .keepAsIs).update (.dict overlongBatch)).2.lookup? ("A", "y") = none ∧
      ¬ SkipsAndContinues (empty .keepAsIs) overlongBatch
        ((empty .keepAsIs).update (.dict overlongBatch)) := by
  have hfirst : namedBase? (.str "A.x") = some ("A", "x") := by decide
  have hupdate : (empty .keepAsIs).update (.dict overlongBatch) =
      ((empty .keepAsIs).put ("A", "x") (.int 1)).setAll (overlongBatch.drop 1) := by
    rw [update_map rfl, overlongBatch, setAll, assign_of_base _ hfirst]
    rfl
  obtain ⟨count, hcount⟩ := setAll_overlong (e := (.str ("A.b" ++ Path.overlongText), .int 2))
    (.inr ⟨_, rfl⟩) isOverlongName_indexed ((empty .keepAsIs).put ("A", "x") (.int 1))
    [(.str "A.y", .int 3)]
  have hbroken : (empty .keepAsIs).update (.dict overlongBatch) =
      (.error (.value (.integerTooLong (some count))),
        (empty .keepAsIs).put ("A", "x") (.int 1)) := hupdate.trans hcount
  rw [hbroken]
  refine ⟨⟨count, rfl⟩, rfl, by decide, rfl, fun hskips => ?_⟩
  have hskipped := hskips.skipped
  cases hskipped

end Store

end Runbook
