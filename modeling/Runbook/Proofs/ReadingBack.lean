import Runbook.Proofs.History
import Runbook.Proofs.PathRendering

/-!
# Reading back what was written

A variable is written under a scope and a key as they are, but an expression is cut into names at
its points and brackets. So a variable is read by its scope and its key with a point between them
exactly if neither of them has a point or an opening bracket in it.

* `reference`: the expression of a scope and a key.
* `parse_reference`: names without separators are read as they are.
* `markCount_tokens`: what the reading of a text takes away from it, in points and brackets.
* `isPlain_of_parse`: an expression that is read as its scope and its key has no other separators.
* `readsBack_iff`: which variables are read back under their own names.
-/

namespace Runbook

namespace Path

open Runbook.Text

/-- A scope or a key without characters that separate names. -/
def IsPlain (k : String) : Prop :=
  '.' ∉ k.toList ∧ '[' ∉ k.toList

instance (k : String) : Decidable (IsPlain k) := by
  unfold IsPlain; infer_instance

/-- A scope and a key with a point between them. -/
def joined (scope key : String) : List Char :=
  scope.toList ++ '.' :: key.toList

/-- The expression of a scope and a key. -/
def reference (scope key : String) : String :=
  wrapped (joined scope key)

example : reference "Task1" "Rows" = "$\x7bTask1.Rows\x7d" := by decide

variable {e scope key : String} {p : Path}

/-- **How an expression is parsed**: it is unwrapped, cut into segments, and begins with two names.
-/
theorem parse_ok_iff : parse e = .ok p ↔ isBlankText e = false ∧
    ∃ segments, tokens (unwrapChars e.toList) = .ok segments ∧ ofSegments? segments = some p := by
  have hunwrap : (unwrap e).toList = unwrapChars e.toList := String.toList_ofList
  rw [parse, tokenize, hunwrap]
  cases isBlankText e with
  | true => simp
  | false =>
    cases htokens : tokens (unwrapChars e.toList) with
    | error fault => simp
    | ok segments => cases hpath : ofSegments? segments <;> simp [hpath]

/-! ### Names without separators -/

theorem tokens_point {a b : List Char} (ha : '.' ∉ a ∧ '[' ∉ a) (hb : '.' ∉ b ∧ '[' ∉ b) :
    tokens (a ++ '.' :: b) = .ok (wordSegment a ++ wordSegment b) := by
  have hlast := tokensOutside_word hb.1 hb.2 [] []
  rw [List.append_nil, List.nil_append, tokensOutside] at hlast
  rw [tokens, tokensOutside_word ha.1 ha.2, List.nil_append, tokensOutside_point, hlast]
  rfl

/-- Trimming takes blanks off the scope in front and off the key behind. -/
theorem exists_trimmed (hscope : isBlankText scope = false) (hkey : isBlankText key = false) :
    ∃ a b, trimChars (joined scope key) = a ++ '.' :: b ∧ trimChars a = trimChars scope.toList ∧
      trimChars b = trimChars key.toList ∧ (∀ c ∈ a, c ∈ scope.toList) ∧
      ∀ c ∈ b, c ∈ key.toList := by
  obtain ⟨before, behind, hs, hbefore, hbehind⟩ := trimChars_spec scope.toList
  obtain ⟨front, after, hk, hfront, hafter⟩ := trimChars_spec key.toList
  have hsne : trimChars scope.toList ≠ [] := by rwa [ne_eq, ← isBlankText_iff, Bool.not_eq_true]
  have hkne : trimChars key.toList ≠ [] := by rwa [ne_eq, ← isBlankText_iff, Bool.not_eq_true]
  refine ⟨trimChars scope.toList ++ behind, front ++ trimChars key.toList, ?_, ?_, ?_, ?_, ?_⟩
  · have hends :
        trimChars (trimChars scope.toList ++ behind ++ '.' :: (front ++ trimChars key.toList)) =
        trimChars scope.toList ++ behind ++ '.' :: (front ++ trimChars key.toList) := by
      refine trimChars_eq_self.2 ⟨fun c hc => ?_, fun c hc => ?_⟩
      · rw [List.append_assoc, List.head?_append_of_ne_nil _ hsne] at hc
        exact head_trimChars hc
      · rw [← List.cons_append, ← List.append_assoc, List.getLast?_append_of_ne_nil _ hkne] at hc
        exact getLast_trimChars hc
    have hpadded := trimChars_padded hbefore hafter hends
    rw [joined, ← hpadded]
    congr 1
    conv_lhs => rw [hs, hk]
    simp
  · have haround : trimChars ([] ++ trimChars scope.toList ++ behind) =
        trimChars (trimChars scope.toList) := trimChars_around (by simp) hbehind
    rwa [List.nil_append, trimChars_trimChars] at haround
  · have haround : trimChars (front ++ trimChars key.toList ++ []) =
        trimChars (trimChars key.toList) := trimChars_around hfront (by simp)
    rwa [List.append_nil, trimChars_trimChars] at haround
  · intro c hc
    rw [hs]
    rcases List.mem_append.1 hc with hc | hc <;> simp [hc]
  · intro c hc
    rw [hk]
    rcases List.mem_append.1 hc with hc | hc <;> simp [hc]

/-- **Names without separators are read as they are**, but for blanks at their ends. -/
theorem parse_reference (hscope : isBlankText scope = false) (hkey : isBlankText key = false)
    (hs : IsPlain scope) (hk : IsPlain key) :
    parse (reference scope key) = .ok ⟨trim scope, trim key, []⟩ := by
  obtain ⟨a, b, htrim, ha, hb, hmema, hmemb⟩ := exists_trimmed hscope hkey
  have hname : ∀ {cs : List Char} {k : String}, trimChars cs = trimChars k.toList →
      isBlankText k = false → wordSegment cs = [.key (String.ofList cs)] ∧
        isBlankText (String.ofList cs) = false ∧ trim (String.ofList cs) = trim k := by
    intro cs k hcs hk
    have hblank : isBlankText (String.ofList cs) = false := by
      rw [Bool.eq_false_iff, ne_eq, isBlankText_iff, String.toList_ofList, hcs, ← isBlankText_iff,
        hk]
      exact Bool.false_ne_true
    refine ⟨?_, hblank, ?_⟩
    · rw [wordSegment, if_neg]
      intro hempty
      rw [List.isEmpty_iff.1 hempty] at hblank
      cases hblank
    · rw [trim, trim, String.toList_ofList, hcs]
  obtain ⟨hworda, hblanka, htrima⟩ := hname ha hscope
  obtain ⟨hwordb, hblankb, htrimb⟩ := hname hb hkey
  have htokens : tokens (unwrapChars (reference scope key).toList) =
      .ok [.key (String.ofList a), .key (String.ofList b)] := by
    rw [reference, wrapped, String.toList_ofList, unwrapChars_written, htrim,
      tokens_point ⟨fun h => hs.1 (hmema _ h), fun h => hs.2 (hmema _ h)⟩
        ⟨fun h => hk.1 (hmemb _ h), fun h => hk.2 (hmemb _ h)⟩, hworda, hwordb]
    rfl
  refine parse_ok_iff.2 ⟨isBlankText_wrapped _, _, htokens, ?_⟩
  rw [ofSegments?, hblanka, hblankb, htrima, htrimb]
  rfl

/-! ### What reading takes away -/

/-- A point or a bracket. -/
def isMark (c : Char) : Bool :=
  c == '.' || c == '[' || c == ']'

/-- The points and brackets in a text. -/
def markCount (cs : List Char) : Nat :=
  cs.countP isMark

/-- The points and brackets in the names of segments. -/
def segmentMarks : List Segment → Nat
  | [] => 0
  | .key k :: segments => markCount k.toList + segmentMarks segments
  | .index _ :: segments => segmentMarks segments

theorem markCount_append (a b : List Char) : markCount (a ++ b) = markCount a + markCount b :=
  List.countP_append

theorem markCount_cons (c : Char) (cs : List Char) :
    markCount (c :: cs) = markCount [c] + markCount cs :=
  markCount_append [c] cs

theorem isBlank_of_isMark {c : Char} (h : isMark c = true) : isBlank c = false := by
  simp only [isMark, Bool.or_eq_true, beq_iff_eq] at h
  rcases h with (rfl | rfl) | rfl <;> decide

theorem markCount_trimChars (cs : List Char) : markCount (trimChars cs) = markCount cs := by
  refine countP_trimChars (fun c hc => ?_) cs
  rw [Bool.eq_false_iff]
  intro hmark
  rw [isBlank_of_isMark hmark] at hc
  cases hc

theorem segmentMarks_append (a b : List Segment) :
    segmentMarks (a ++ b) = segmentMarks a + segmentMarks b := by
  induction a with
  | nil => simp [segmentMarks]
  | cons s a ih =>
    cases s with
    | key k => simp only [List.cons_append, segmentMarks, ih]; omega
    | index n => simp only [List.cons_append, segmentMarks, ih]

theorem segmentMarks_wordSegment (word : List Char) :
    segmentMarks (wordSegment word) = markCount word := by
  unfold wordSegment
  split
  · rename_i h
    rw [List.isEmpty_iff.1 h]
    rfl
  · simp [segmentMarks]

theorem segmentMarks_bracketSegment {content : List Char} {s : Segment}
    (h : bracketSegment content = .ok s) : segmentMarks [s] ≤ markCount content := by
  simp only [bracketSegment] at h
  split at h
  · rw [← Except.ok.inj h, ← markCount_trimChars content]
    simp [segmentMarks]
  · split at h
    · cases h
    · rw [← Except.ok.inj h]
      exact Nat.zero_le _

/-- **What the reading of a text takes away**: each point outside brackets, and the two brackets of
each pair. Without brackets nothing but points is lost, and with brackets two marks at least. -/
theorem markCount_tokens (cs : List Char) :
    (∀ word segments, tokensOutside word cs = .ok segments →
      '[' ∉ cs ∧ segmentMarks segments + cs.count '.' = markCount word + markCount cs ∨
        segmentMarks segments + 2 ≤ markCount word + markCount cs) ∧
    ∀ content segments, tokensInside content cs = .ok segments →
      segmentMarks segments + 1 ≤ markCount content + markCount cs := by
  induction cs with
  | nil =>
    refine ⟨fun word segments h => .inl ⟨by simp, ?_⟩, fun content segments h => ?_⟩
    · rw [tokensOutside] at h
      rw [← Except.ok.inj h, segmentMarks_wordSegment]
      rfl
    · rw [tokensInside] at h; cases h
  | cons c cs ih =>
    obtain ⟨houtside, hinside⟩ := ih
    have hnone : markCount [] = 0 := rfl
    have hsum := markCount_cons c cs
    refine ⟨fun word segments h => ?_, fun content segments h => ?_⟩
    · by_cases hpoint : c = '.'
      · subst hpoint
        have hone : markCount ['.'] = 1 := rfl
        rw [tokensOutside_point] at h
        obtain ⟨more, hmore, rfl⟩ := andThen_ok h
        rw [segmentMarks_append, segmentMarks_wordSegment, List.count_cons_self]
        rcases houtside [] more hmore with ⟨hno, heq⟩ | hle
        · exact .inl ⟨by simp [hno], by omega⟩
        · exact .inr (by omega)
      by_cases hopen : c = '['
      -- with its closing bracket, an opening one takes two marks away
      · subst hopen
        have hone : markCount ['['] = 1 := rfl
        rw [tokensOutside_bracket] at h
        obtain ⟨more, hmore, rfl⟩ := andThen_ok h
        rw [segmentMarks_append, segmentMarks_wordSegment]
        have hle := hinside [] more hmore
        exact .inr (by omega)
      · rw [tokensOutside, if_neg (by simpa using hpoint), if_neg (by simpa using hopen)] at h
        have hword := markCount_append word [c]
        rw [List.count_cons_of_ne hpoint]
        rcases houtside _ _ h with ⟨hno, heq⟩ | hle
        · exact .inl ⟨by simp [hno, Ne.symm hopen], by omega⟩
        · exact .inr (by omega)
    · by_cases hclose : c = ']'
      · subst hclose
        have hone : markCount [']'] = 1 := rfl
        rw [tokensInside, if_pos (by simp)] at h
        split at h
        · rename_i s hs
          obtain ⟨more, hmore, rfl⟩ := andThen_ok h
          -- a name in brackets keeps its marks, an index has none
          have hbracket := segmentMarks_bracketSegment hs
          rw [segmentMarks_append]
          rcases houtside [] more hmore with ⟨-, heq⟩ | hle <;> omega
        · cases h
      · rw [tokensInside, if_neg (by simpa using hclose)] at h
        have hcontent := markCount_append content [c]
        have hle := hinside _ _ h
        omega

/-- **An expression that is read as its scope and its key** has no separators but the point between
them: any other would be missing from the two names. -/
theorem isPlain_of_parse (h : parse (reference scope key) = .ok p) (hs : p.scope = trim scope)
    (hk : p.key = trim key) : IsPlain scope ∧ IsPlain key := by
  obtain ⟨-, segments, htokens, hpath⟩ := parse_ok_iff.1 h
  rw [reference, wrapped, String.toList_ofList, unwrapChars_written] at htokens
  obtain ⟨s, k, rfl, -, -, hps, hpk⟩ := ofSegments?_some hpath
  have hnames : ∀ {a b : String}, trim a = trim b → markCount a.toList = markCount b.toList := by
    intro a b hab
    rw [← markCount_trimChars, ← toList_trim, hab, toList_trim, markCount_trimChars]
  have hmarks : markCount s.toList + markCount k.toList =
      markCount scope.toList + markCount key.toList := by
    rw [hnames (hps.symm.trans hs), hnames (hpk.symm.trans hk)]
  have htext : markCount (trimChars (joined scope key)) =
      markCount scope.toList + (1 + markCount key.toList) := by
    rw [markCount_trimChars, joined, markCount_append, markCount_cons]
    rfl
  have hempty : markCount [] = 0 := rfl
  rcases (markCount_tokens _).1 [] _ htokens with ⟨hno, hcount⟩ | hle
  -- one mark is missing from the names, so the text has one point only, which is the one between
  · simp only [segmentMarks] at hcount
    have hpoints : (trimChars (joined scope key)).count '.' =
        scope.toList.count '.' + (key.toList.count '.' + 1) := by
      rw [count_trimChars (by decide), joined, List.count_append, List.count_cons_self]
    have hbrackets : (trimChars (joined scope key)).count '[' =
        scope.toList.count '[' + key.toList.count '[' := by
      rw [count_trimChars (by decide), joined, List.count_append, List.count_cons_of_ne (by decide)]
    rw [← List.count_eq_zero] at hno
    refine ⟨⟨?_, ?_⟩, ?_, ?_⟩ <;> rw [← List.count_eq_zero] <;> omega
  · simp only [segmentMarks] at hle
    omega

end Path

namespace Store

open Runbook.Text Runbook.Path

/-- **A variable is read back by an expression**: whatever the store and the value, behind its write
it has the value until it is written again or taken away. -/
def ReadsBack (scope key : Value) (e : String) : Prop :=
  ∀ (s s' : Store) (v : Value), s.setScoped scope key v = .ok s' →
    ∀ b, scopedBase? scope key = some b →
      ∀ ops, (∀ event ∈ history ops, ¬ event.Touches b) → (s'.run ops).get (.str e) = .ok v

variable {scope key : Value} {scopeText keyText : String}

theorem text_of_givenName? {v : Value} {name : String} (h : givenName? v = some name) :
    ∃ text, v.text = .ok text ∧ isBlankText text = false ∧ name = trim text := by
  unfold givenName? at h
  split at h
  · rename_i text htext
    split at h
    · cases h
    · rename_i hblank
      simp only [Bool.or_eq_true, not_or, Bool.not_eq_true] at hblank
      exact ⟨text, htext, hblank.2, (Option.some.inj h).symm⟩
  · cases h

/-- The variable of a scope and a key has their trimmed texts. -/
theorem text_of_scopedBase? {b : Base} (h : scopedBase? scope key = some b) :
    ∃ scopeText keyText, scope.text = .ok scopeText ∧ key.text = .ok keyText ∧
      isBlankText scopeText = false ∧ isBlankText keyText = false ∧
      b = (trim scopeText, trim keyText) := by
  unfold scopedBase? at h
  split at h
  · rename_i s k hs hk
    obtain ⟨scopeText, hscope, hblank, rfl⟩ := text_of_givenName? hs
    obtain ⟨keyText, hkey, hblank', rfl⟩ := text_of_givenName? hk
    exact ⟨scopeText, keyText, hscope, hkey, hblank, hblank', (Option.some.inj h).symm⟩
  · cases h

/-- What is read behind a write is read until the variable is touched. -/
theorem lookup?_run_put (s : Store) (b : Base) (v : Value) {ops : List Operation}
    (hops : ∀ event ∈ history ops, ¬ event.Touches b) :
    ((s.put b v).run ops).lookup? b = some v := by
  rw [lookup?, run_entries, lookup?_foldl_apply hops, put, Variables.lookup?_put, if_pos rfl]

/-- In a store with a single variable, a value is found only under the scope and the key of that
variable. -/
theorem base_of_get {policy : MissingPolicy} {b : Base} {v : Value} {e : String} (hv : v ≠ .null)
    (h : ((empty policy).put b v).get (.str e) = .ok v) : ∃ p, parse e = .ok p ∧ p.base = b := by
  have hname : ofValue (.str e) = parse e := rfl
  rw [get, hname] at h
  split at h
  · rename_i p hp
    refine ⟨p, hp, ?_⟩
    by_contra hne
    have hnone : ((empty policy).put b v).lookup? p.base = none := by
      rw [lookup?, put, Variables.lookup?_put, if_neg hne]
      rfl
    rw [read, hnone] at h
    exact hv (Except.ok.inj h).symm
  · cases h

/-- **A variable is read back under its own name** exactly if neither its scope nor its key has a
point or an opening bracket in it. The scopes and names that tasks write their outputs under are
such a scope and key. -/
theorem readsBack_iff (hscope : scope.text = .ok scopeText) (hkey : key.text = .ok keyText)
    (hgiven : (scopedBase? scope key).isSome) :
    ReadsBack scope key (reference scopeText keyText) ↔ IsPlain scopeText ∧ IsPlain keyText := by
  obtain ⟨b, hb⟩ := Option.isSome_iff_exists.1 hgiven
  obtain ⟨S, K, hS, hK, hs, hk, rfl⟩ := text_of_scopedBase? hb
  obtain rfl := Except.ok.inj (hscope.symm.trans hS)
  obtain rfl := Except.ok.inj (hkey.symm.trans hK)
  constructor
  -- an empty store is enough to see which variable the expression is read as
  · intro h
    have hget :=
      h (empty .keepAsIs) _ (.int 1) (setScoped_of_base _ hb _) _ hb [] (by simp [history])
    obtain ⟨p, hp, hbase⟩ := base_of_get (by simp) hget
    exact isPlain_of_parse hp (congrArg Prod.fst hbase) (congrArg Prod.snd hbase)
  · rintro ⟨hplain, hplain'⟩ s s' v hwritten b hb' ops hops
    obtain rfl := Option.some.inj (hb.symm.trans hb')
    rw [setScoped_of_base s hb v] at hwritten
    obtain rfl := Except.ok.inj hwritten
    have hparse := parse_reference hs hk hplain hplain'
    have hread : ((s.put (trim scopeText, trim keyText) v).run ops).read
        ⟨trim scopeText, trim keyText, []⟩ = .ok v := by
      rw [read, Path.base, lookup?_run_put s _ v hops]
      rfl
    have hname : ofValue (.str (reference scopeText keyText)) = _ := hparse
    rw [get, hname]
    exact hread

theorem readsBack_padded :
    ReadsBack (.str " Task 1") (.str "item] ") (reference " Task 1" "item] ") := by
  have hgiven : (scopedBase? (.str " Task 1") (.str "item] ")).isSome := by decide
  exact (readsBack_iff rfl rfl hgiven).2 ⟨by decide, by decide⟩

/-- A scope with a point in it is read as two names. -/
theorem pointed_not_readBack : ¬ ReadsBack (.str "a.b") (.str "c") "$\x7ba.b.c\x7d" := by
  intro h
  have hget := h (empty .keepAsIs) _ (.int 1) rfl ("a.b", "c") rfl [] (by simp [history])
  cases hget

end Store

end Runbook
