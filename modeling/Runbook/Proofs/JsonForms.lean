import Runbook.Proofs.FloatTexts
import Runbook.Proofs.IndentedJson

/-!
# Values that JSON has a form for

JSON has a form for every value but an integer or an integral decimal with too many digits, an
object whose text does not come about, and a map with a key that no name is made of. Such a value
may stand anywhere in another. What has a form is written as a whole and can be read again, though
not always as the value that it was; the writing of what has none breaks off at an error.

* `Value.hasForm`: whether JSON has a form for a value.
* `isOk_compact`: the compact text comes about exactly of what has a form.
* `isWhole_indented`: **the indented text is whole exactly of what has a form**.
* `WrittenAt`, `exists_writtenAt`: **what has a form is written as a text that can be read**.
* `exists_written_named`: the names of what is read of a dictionary.
-/

namespace Runbook

open Runbook.Text Runbook.Number Runbook.Json

/-- Whether an integer has no more digits than are written. -/
def isShortInteger (n : Int) : Bool :=
  decide (n.natAbs < tooLongInteger)

/-- Whether a key has a text, so that a name can be made of it. -/
def Value.hasKeyText : Value → Bool
  | .null => true
  | .bool _ => true
  | .int n => isShortInteger n
  | .float _ => true
  | .str _ => true
  | .policy _ => true
  | _ => false

mutual

/-- Whether JSON has a form for a value. -/
def Value.hasForm : Value → Bool
  | .int n => isShortInteger n
  | .decimal d => d.integer?.all isShortInteger
  | .object o => o.text.get.isOk
  | .list items => itemsHaveForm items
  | .tuple items => itemsHaveForm items
  | .dict entries => entriesHaveForm entries
  | .mapping entries => entriesHaveForm entries
  | _ => true

/-- Whether JSON has a form for each of some items. -/
def itemsHaveForm : List Value → Bool
  | [] => true
  | v :: vs => v.hasForm && itemsHaveForm vs

/-- Whether the keys of entries have texts, and JSON has a form for their values. -/
def entriesHaveForm : List (Value × Value) → Bool
  | [] => true
  | (k, v) :: es => k.hasKeyText && (v.hasForm && entriesHaveForm es)

end

/-- A dictionary has a form exactly if each of its values has one. -/
theorem entriesHaveForm_named (members : List (String × Value)) :
    entriesHaveForm (Entries.named members) = true ↔
      ∀ e ∈ Entries.named members, e.2.hasForm = true := by
  induction members with
  | nil => simp [Entries.named, entriesHaveForm]
  | cons m members ih =>
    rw [Entries.named_cons, List.forall_mem_cons, entriesHaveForm, Value.hasKeyText, Bool.true_and,
      Bool.and_eq_true, ih]

/-! ### Texts that come about -/

@[simp]
theorem isOk_map {α β : Type} (r : Except Error α) (f : α → β) : (r.map f).isOk = r.isOk := by
  cases r <;> rfl

@[simp]
theorem isOk_integerText (n : Int) : (integerText n).isOk = isShortInteger n := by
  unfold integerText isShortInteger
  split
  · rename_i h
    rw [decide_eq_true h]
    rfl
  · rename_i h
    rw [decide_eq_false h]
    rfl

theorem integer?_of_not_isFinite {d : Decimal} (h : ¬ d.isFinite = true) : d.integer? = none := by
  cases d with
  | finite => exact absurd rfl h
  | _ => rfl

namespace Json

theorem isOk_keyText (k : Value) : (keyText k).isOk = k.hasKeyText := by
  cases k with
  | int n => rw [keyText, isOk_integerText, Value.hasKeyText]
  | _ => rfl

/-- The text of a decimal comes about, unless it is an integer with too many digits. -/
theorem isOk_compact_decimal (d : Decimal) :
    (compact (.decimal d)).isOk = d.integer?.all isShortInteger := by
  rw [compact]
  split
  · rw [isOk_map, decimalText]
    cases d.integer? with
    | none => rfl
    | some n => rw [Option.all_some, ← isOk_integerText]
  · rename_i h
    rw [integer?_of_not_isFinite h]
    rfl

mutual

/-- **The compact text** comes about exactly of what has a form. -/
theorem isOk_compact : (v : Value) → (compact v).isOk = v.hasForm
  | .int n => by rw [compact, isOk_map, isOk_integerText, Value.hasForm]
  | .decimal d => by rw [isOk_compact_decimal, Value.hasForm]
  | .object o => by
    rw [compact, isOk_map, Value.text, Value.hasForm]
    all_goals nofun
  | .list items => by rw [compact, isOk_map, isOk_compactItems, Value.hasForm]
  | .tuple items => by rw [compact, isOk_map, isOk_compactItems, Value.hasForm]
  | .dict entries => by rw [compact, isOk_map, isOk_compactMembers, Value.hasForm]
  | .mapping entries => by rw [compact, isOk_map, isOk_compactMembers, Value.hasForm]
  | .null | .bool _ | .float _ | .str _ | .bytes _ | .byteArray _ | .date _ | .dateTime _ | .time _
  | .document _ | .rootElement _ | .type _ | .policy _ => rfl

theorem isOk_compactItems : (items : List Value) →
    (compactItems items).isOk = itemsHaveForm items
  | [] => rfl
  | v :: vs => by
    rw [compactItems, itemsHaveForm, ← isOk_compact v, ← isOk_compactItems vs]
    cases compact v with
    | error e => rfl
    | ok cs => cases compactItems vs <;> rfl

theorem isOk_compactMembers : (entries : List (Value × Value)) →
    (compactMembers entries).isOk = entriesHaveForm entries
  | [] => rfl
  | (k, v) :: es => by
    rw [compactMembers, entriesHaveForm, ← isOk_keyText k, ← isOk_compact v,
      ← isOk_compactMembers es]
    cases keyText k with
    | error e => rfl
    | ok name =>
      cases compact v with
      | error e => rfl
      | ok cs => cases compactMembers es <;> rfl

end

/-! ### Outputs that are whole -/

/-- Whether nothing stopped the writing. -/
def Output.isWhole (o : Output) : Bool :=
  o.failure.isNone

section Wholes

variable {o : Output}

@[simp]
theorem isWhole_text (cs : List Char) : (Output.text cs).isWhole = true := rfl

@[simp]
theorem isWhole_append (a b : Output) : (a ++ b).isWhole = (a.isWhole && b.isWhole) := by
  obtain ⟨cs, failure⟩ := a
  cases failure <;> rfl

@[simp]
theorem isWhole_behind (front : List Char) (o : Output) : (o.behind front).isWhole = o.isWhole := by
  obtain ⟨cs, failure⟩ := o
  cases failure <;> rfl

theorem isWhole_ofExcept (r : Except Error String) : (Output.ofExcept r).isWhole = r.isOk := by
  cases r <;> rfl

theorem eq_text (h : o.isWhole = true) : o = .text o.chars := by
  obtain ⟨cs, failure⟩ := o
  cases failure with
  | none => rfl
  | some e => cases h

end Wholes

/-- A value whose items or entries are written on lines of their own. -/
def isLined : Value → Bool
  | .list _ => true
  | .tuple _ => true
  | .dict _ => true
  | _ => false

section Scalars

variable {v w : Value} {level : Nat} {o : Output}

/-- A value that is written as what stands for it. -/
theorem indented_default (hv : isLined v = false) (hpiece : piece? v = none) :
    indented level v = match v.jsonDefault with
      | .ok w => (piece? w).getD (.text [])
      | .error e => .stop e := by
  rw [indented]
  · cases v.jsonDefault <;> simp only [hpiece]
  · rintro items rfl
    cases hv
  · rintro items rfl
    cases hv
  · rintro entries rfl
    cases hv

/-- What stands for a value: one that is written in one piece, whole exactly if the value has a
form, or an error if it has none. -/
inductive StandsFor (v : Value) : Except Error Value → Prop
  | fails (e : Error) (h : v.hasForm = false) : StandsFor v (.error e)
  | gives {w : Value} {o : Output} (hpiece : piece? w = some o) (h : o.isWhole = v.hasForm) :
    StandsFor v (.ok w)

theorem standsFor_string {r : Except Error String} (h : r.isOk = v.hasForm) :
    StandsFor v (r.map .str) := by
  cases r with
  | error e => exact .fails e h.symm
  | ok s => exact .gives rfl h

theorem isOk_stringify_mapping (entries : Entries) :
    (Value.stringify (.mapping entries)).isOk = entriesHaveForm entries := by
  rw [Value.stringify, Value.toJson, isOk_map, isOk_compact, Value.hasForm]

/-- **What stands for a value** has a form exactly if the value does. -/
theorem standsFor_jsonDefault (hv : isLined v = false) (hpiece : piece? v = none) :
    StandsFor v v.jsonDefault := by
  have hstring : v.stringify.isOk = v.hasForm → StandsFor v (v.stringify.map .str) :=
    standsFor_string
  cases v with
  | decimal d =>
    rw [Value.jsonDefault]
    split
    · cases hn : d.integer? with
      | none => exact .gives rfl (by rw [Value.hasForm, hn]; rfl)
      | some n =>
        have ho : piece? (.int n) = some (.ofExcept (integerText n)) := rfl
        refine .gives ho ?_
        rw [isWhole_ofExcept, isOk_integerText, Value.hasForm, hn, Option.all_some]
    · rename_i hfinite
      exact .gives rfl (by rw [Value.hasForm, integer?_of_not_isFinite hfinite]; rfl)
  | mapping entries => exact hstring (isOk_stringify_mapping entries)
  | bytes | byteArray | date | dateTime | time | document | rootElement | object | type =>
    exact hstring rfl
  | list | tuple | dict => cases hv
  | null | bool | int | float | str | policy => cases hpiece

/-- A value in one piece is whole exactly if it has a form. -/
theorem isWhole_piece (hpiece : piece? v = some o) : o.isWhole = v.hasForm := by
  cases v with
  | int n =>
    have ho : .ofExcept (integerText n) = o := Option.some.inj hpiece
    rw [← ho, isWhole_ofExcept, isOk_integerText, Value.hasForm]
  | null | bool | float | str | policy =>
    cases hpiece
    rfl
  | _ => cases hpiece

theorem isWhole_scalar (hv : isLined v = false) (level : Nat) :
    (indented level v).isWhole = v.hasForm := by
  cases hpiece : piece? v with
  | some o => rw [indented_piece hpiece, isWhole_piece hpiece]
  | none =>
    rw [indented_default hv hpiece]
    have hstands := standsFor_jsonDefault hv hpiece
    generalize v.jsonDefault = r at hstands
    cases hstands with
    | fails e hform => exact hform.symm
    | gives ho hform => simp only [ho, Option.getD_some, hform]

end Scalars

mutual

/-- **The indented text is whole** exactly of what has a form. -/
theorem isWhole_indented : (v : Value) → (level : Nat) → (indented level v).isWhole = v.hasForm
  | .list items, level => by
    rw [indented, Value.hasForm, ← isWhole_indentedItems items (level + 1) '[']
    cases items <;> simp [indentedItems]
  | .tuple items, level => by
    rw [indented, Value.hasForm, ← isWhole_indentedItems items (level + 1) '[']
    cases items <;> simp [indentedItems]
  | .dict entries, level => by
    rw [indented, Value.hasForm, ← isWhole_indentedMembers entries (level + 1) []]
    cases entries <;> simp [indentedMembers]
  | .null, level | .bool _, level | .int _, level | .float _, level | .decimal _, level
  | .str _, level | .bytes _, level | .byteArray _, level | .date _, level | .dateTime _, level
  | .time _, level | .mapping _, level | .document _, level | .rootElement _, level
  | .object _, level | .type _, level | .policy _, level => isWhole_scalar rfl level

theorem isWhole_indentedItems : (items : List Value) → (level : Nat) → (mark : Char) →
    (indentedItems level mark items).isWhole = itemsHaveForm items
  | [], _, _ => rfl
  | v :: vs, level, mark => by
    -- the item may be written in one piece with its mark, but that does not change what stops it
    rw [indentedItems, isWhole_append, isWhole_indentedItems vs level ',', itemsHaveForm]
    cases hpiece : piece? v with
    | some o => simp only [isWhole_behind, isWhole_piece hpiece]
    | none => simp only [isWhole_append, isWhole_text, Bool.true_and, isWhole_indented v level]

theorem isWhole_indentedMembers : (entries : List (Value × Value)) → (level : Nat) →
    (front : List Char) → (indentedMembers level front entries).isWhole = entriesHaveForm entries
  | [], _, _ => rfl
  | (k, v) :: es, level, front => by
    rw [indentedMembers, entriesHaveForm, ← isOk_keyText k]
    cases keyText k with
    | error e => rfl
    | ok name =>
      simp only [isWhole_append, isWhole_text, Bool.true_and, isWhole_indented v level,
        isWhole_indentedMembers es level (',' :: lineStart level)]
      rfl

end

/-! ### Texts that can be read -/

/-- A text that a value is written by at a level, and that is read as some value. -/
def WrittenAt (level : Nat) (cs : List Char) (v : Value) : Prop :=
  indented level v = .text cs ∧ ∃ w, Written cs w

section Reading

variable {v : Value} {level : Nat} {o : Output} {cs : List Char} {css : List (List Char)}
  {items : List Value} {entries : Entries} {members : List (String × Value)}

/-- What is written in one piece can be read. -/
theorem written_piece (hpiece : piece? v = some o) (hwhole : o.isWhole = true) :
    ∃ w, Written o.chars w := by
  cases v with
  | int n =>
    have ho : .ofExcept (integerText n) = o := Option.some.inj hpiece
    rw [← ho, isWhole_ofExcept, isOk_integerText] at hwhole
    obtain ⟨s, hs, hwritten⟩ := written_integer (of_decide_eq_true hwhole)
    rw [← ho, hs]
    exact ⟨_, hwritten⟩
  | null =>
    cases hpiece
    exact ⟨.null, written_word (by simp [words, Output.text])⟩
  | bool b =>
    cases hpiece
    refine ⟨.bool b, ?_⟩
    cases b <;> exact written_word (by simp [words, Output.text])
  | float x =>
    cases hpiece
    obtain ⟨y, hwritten⟩ := written_float x
    exact ⟨_, hwritten⟩
  | str s =>
    cases hpiece
    exact ⟨_, writes_asciiChar.written_string s⟩
  | policy p =>
    cases hpiece
    exact ⟨_, writes_asciiChar.written_string p.text⟩
  | _ => cases hpiece

theorem exists_writtenAt_scalar (hv : isLined v = false) (h : v.hasForm = true) (level : Nat) :
    ∃ cs, WrittenAt level cs v := by
  cases hpiece : piece? v with
  | some o =>
    have hwhole := (isWhole_piece hpiece).trans h
    exact ⟨o.chars, (indented_piece hpiece).trans (eq_text hwhole), written_piece hpiece hwhole⟩
  | none =>
    simp only [WrittenAt, indented_default hv hpiece]
    have hstands := standsFor_jsonDefault hv hpiece
    generalize v.jsonDefault = r at hstands
    cases hstands with
    | fails e hform =>
      rw [h] at hform
      cases hform
    | @gives w o ho hform =>
      have hwhole := hform.trans h
      exact ⟨o.chars, by simp only [ho, Option.getD_some, ← eq_text hwhole],
        written_piece ho hwhole⟩

/-- The values that texts are read as. -/
theorem exists_values (h : List.Forall₂ (WrittenAt level) css items) :
    ∃ ws, List.Forall₂ Written css ws := by
  have hread : ∀ cs ∈ css, ∃ w, Written cs w := forall_left h fun _ _ h => h.2
  obtain ⟨ws, hws⟩ := exists_forall₂ (r := fun w cs => Written cs w) hread
  exact ⟨ws, hws.flip⟩

/-- The members that lines are read as: their names are the texts of the keys. -/
theorem exists_members (h : List.Forall₂ (EntryLine (WrittenAt level)) css entries) :
    ∃ members, List.Forall₂ (MemberLine Written) css members ∧
      List.Forall₂ (fun (e : Value × Value) m => keyText e.1 = .ok m.1) entries members := by
  induction h with
  | nil => exact ⟨[], .nil, .nil⟩
  | cons hline _ ih =>
    obtain ⟨name, value, hname, hcs, -, w, hw⟩ := hline
    obtain ⟨members, hmembers, hnames⟩ := ih
    exact ⟨(name, w) :: members, .cons ⟨value, hcs, hw⟩ hmembers, .cons hname hnames⟩

/-- **A list whose items have forms** is written. -/
theorem writtenAt_list (h : List.Forall₂ (WrittenAt (level + 1)) css items) :
    WrittenAt level (spread (lineStart (level + 1)) (lineStart level) '[' ']' css)
      (.list items) := by
  obtain ⟨ws, hws⟩ := exists_values h
  exact ⟨indented_list (h.imp fun _ _ h => h.1), _,
    written_list (isGap_lineStart _) (isGap_lineStart _) hws⟩

/-- **A map whose entries have forms** is written, and read as the map of the texts of its keys. -/
theorem writtenAt_dict (h : List.Forall₂ (EntryLine (WrittenAt (level + 1))) css entries) :
    ∃ cs members, indented level (.dict entries) = .text cs ∧
      Written cs (.dict (Entries.ofList (Entries.named members))) ∧
      List.Forall₂ (fun (e : Value × Value) m => keyText e.1 = .ok m.1) entries members := by
  obtain ⟨members, hmembers, hnames⟩ := exists_members h
  have hspace : IsGap [' '] := by simp [IsGap, isSpace]
  have htexts :
      List.Forall₂ (EntryLine fun cs v => indented (level + 1) v = .text cs) css entries := by
    refine h.imp fun _ _ hline => ?_
    obtain ⟨name, value, hname, hcs, hvalue⟩ := hline
    exact ⟨name, value, hname, hcs, hvalue.1⟩
  exact ⟨_, members, indented_entries htexts, written_map (isGap_lineStart _) (isGap_lineStart _)
    hspace (hmembers.imp MemberLine.isMember), hnames⟩

end Reading

mutual

/-- **What has a form is written** at every level as a text that can be read. -/
theorem exists_writtenAt : (v : Value) → v.hasForm = true → (level : Nat) →
    ∃ cs, WrittenAt level cs v
  | .list items => fun h level => by
    rw [Value.hasForm] at h
    obtain ⟨css, hcss⟩ := exists_writtenAt_items items h (level + 1)
    exact ⟨_, writtenAt_list hcss⟩
  | .tuple items => fun h level => by
    -- a tuple is written as the list of its items, and so it is read as a list
    rw [Value.hasForm] at h
    obtain ⟨css, hcss⟩ := exists_writtenAt_items items h (level + 1)
    have hlist := writtenAt_list hcss
    rw [WrittenAt, indented] at hlist
    exact ⟨_, by rw [indented]; exact hlist.1, hlist.2⟩
  | .dict entries => fun h level => by
    rw [Value.hasForm] at h
    obtain ⟨css, hcss⟩ := exists_entryLines entries h (level + 1)
    obtain ⟨cs, members, hcs, hwritten, -⟩ := writtenAt_dict hcss
    exact ⟨cs, hcs, _, hwritten⟩
  | .null | .bool _ | .int _ | .float _ | .decimal _ | .str _ | .bytes _ | .byteArray _ | .date _
  | .dateTime _ | .time _ | .mapping _ | .document _ | .rootElement _ | .object _ | .type _
  | .policy _ => exists_writtenAt_scalar rfl

theorem exists_writtenAt_items : (items : List Value) → itemsHaveForm items = true →
    (level : Nat) → ∃ css, List.Forall₂ (WrittenAt level) css items
  | [], _, _ => ⟨[], .nil⟩
  | v :: vs, h, level => by
    obtain ⟨hv, hvs⟩ := Bool.and_eq_true_iff.1 h
    obtain ⟨cs, hcs⟩ := exists_writtenAt v hv level
    obtain ⟨css, hcss⟩ := exists_writtenAt_items vs hvs level
    exact ⟨cs :: css, .cons hcs hcss⟩

theorem exists_entryLines : (entries : List (Value × Value)) → entriesHaveForm entries = true →
    (level : Nat) → ∃ css, List.Forall₂ (EntryLine (WrittenAt level)) css entries
  | [], _, _ => ⟨[], .nil⟩
  | (k, v) :: es, h, level => by
    obtain ⟨hk, h⟩ := Bool.and_eq_true_iff.1 h
    obtain ⟨hv, hes⟩ := Bool.and_eq_true_iff.1 h
    obtain ⟨value, hvalue⟩ := exists_writtenAt v hv level
    obtain ⟨css, hcss⟩ := exists_entryLines es hes level
    rw [← isOk_keyText] at hk
    cases hname : keyText k with
    | error e =>
      rw [hname] at hk
      cases hk
    | ok name => exact ⟨_, .cons ⟨name, value, hname, rfl, hvalue⟩ hcss⟩

end

/-- Keys that are names are their own texts. -/
theorem names_of_keyTexts {members others : List (String × Value)}
    (h : List.Forall₂ (fun (e : Value × Value) m => keyText e.1 = .ok m.1)
      (Entries.named members) others) : others.map (·.1) = members.map (·.1) := by
  rw [Entries.named, List.forall₂_map_left_iff] at h
  induction h with
  | nil => rfl
  | cons hname _ ih => rw [List.map_cons, List.map_cons, ih, Except.ok.inj hname]

/-- **The names of what is read** of a dictionary with different names: the names of its members. -/
theorem exists_written_named {members : List (String × Value)}
    (hnames : (members.map (·.1)).Nodup)
    (h : (Value.dict (Entries.named members)).hasForm = true) (level : Nat) :
    ∃ cs others, indented level (.dict (Entries.named members)) = .text cs ∧
      Written cs (.dict (Entries.named others)) ∧ others.map (·.1) = members.map (·.1) := by
  rw [Value.hasForm] at h
  obtain ⟨css, hcss⟩ := exists_entryLines _ h (level + 1)
  obtain ⟨cs, others, hcs, hwritten, hkeys⟩ := writtenAt_dict hcss
  have hothers := names_of_keyTexts hkeys
  rw [Entries.ofList_named (hothers ▸ hnames)] at hwritten
  exact ⟨cs, others, hcs, hwritten, hothers⟩

end Json

end Runbook
