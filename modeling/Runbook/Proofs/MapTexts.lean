import Mathlib.Tactic.Common
import Runbook.Condition
import Runbook.Display.Text
import Runbook.Proofs.JsonWriting
import Runbook.Proofs.Variables
import Runbook.Records.Reader

/-!
# The text of maps that are no dictionaries

A map that is no dictionary has a text of its own in one place only: at the top of a value it is
the text of the dictionary with the same entries. Inside of another value the compact JSON text
holds the string of its text, quoted once more, which is longer. So a value has the text of its
copy in dictionaries exactly if there is no such map inside of it, or if it has no text at all.

* `Value.asDicts`: a value with every map in it as a dictionary.
* `Value.hasMapping`, `Value.hasInnerMapping`: whether a map that is no dictionary is in a value,
  and whether one is inside of it.
* `Shrinks`: the results for a value and for its copy: the same, or a shorter text for the copy.
* `compact_asDicts`, `stringify_asDicts`: the law for texts, by recursion on the value.
* `Store.resolve_dict`, `Store.operand_dict`: templates and operands do not tell a map from the
  dictionary with its entries.
* `mapTexts_iff`: **where the class of a map shows.**
-/

namespace Runbook

open Runbook.Json

mutual

/-- A value with every map in it as the dictionary with the same entries. -/
def Value.asDicts : Value → Value
  | .list items => .list (itemsAsDicts items)
  | .tuple items => .tuple (itemsAsDicts items)
  | .dict entries => .dict (entriesAsDicts entries)
  | .mapping entries => .dict (entriesAsDicts entries)
  | v => v

/-- Items with every map in them as a dictionary. -/
def itemsAsDicts : List Value → List Value
  | [] => []
  | v :: vs => v.asDicts :: itemsAsDicts vs

/-- Entries with every map in their values as a dictionary. -/
def entriesAsDicts : List (Value × Value) → List (Value × Value)
  | [] => []
  | (k, v) :: es => (k, v.asDicts) :: entriesAsDicts es

end

mutual

/-- Whether a value is a map that is no dictionary, or has one inside of it. -/
def Value.hasMapping : Value → Bool
  | .list items => anyMapping items
  | .tuple items => anyMapping items
  | .dict entries => anyMappingIn entries
  | .mapping _ => true
  | _ => false

/-- Whether one of some items has such a map. -/
def anyMapping : List Value → Bool
  | [] => false
  | v :: vs => v.hasMapping || anyMapping vs

/-- Whether one of the values of entries has such a map. -/
def anyMappingIn : List (Value × Value) → Bool
  | [] => false
  | (_, v) :: es => v.hasMapping || anyMappingIn es

end

/-- Whether a value has a map that is no dictionary inside of it, below its own level. -/
def Value.hasInnerMapping : Value → Bool
  | .mapping entries => anyMappingIn entries
  | v => v.hasMapping

/-! ### Values without inner maps -/

mutual

theorem asDicts_eq_self : (v : Value) → v.hasMapping = false → v.asDicts = v
  | .list items, h => congrArg Value.list (itemsAsDicts_eq_self items h)
  | .tuple items, h => congrArg Value.tuple (itemsAsDicts_eq_self items h)
  | .dict entries, h => congrArg Value.dict (entriesAsDicts_eq_self entries h)
  | .mapping _, h => nomatch h
  | .null, _ | .bool _, _ | .int _, _ | .float _, _ | .decimal _, _ | .str _, _ | .bytes _, _
  | .byteArray _, _ | .date _, _ | .dateTime _, _ | .time _, _ | .document _, _
  | .rootElement _, _ | .object _, _ | .type _, _ | .policy _, _ => rfl

theorem itemsAsDicts_eq_self : (items : List Value) → anyMapping items = false →
    itemsAsDicts items = items
  | [], _ => rfl
  | v :: vs, h => by
    obtain ⟨hv, hvs⟩ := Bool.or_eq_false_iff.1 h
    rw [itemsAsDicts, asDicts_eq_self v hv, itemsAsDicts_eq_self vs hvs]

theorem entriesAsDicts_eq_self : (entries : List (Value × Value)) → anyMappingIn entries = false →
    entriesAsDicts entries = entries
  | [], _ => rfl
  | (k, v) :: es, h => by
    obtain ⟨hv, hes⟩ := Bool.or_eq_false_iff.1 h
    rw [entriesAsDicts, asDicts_eq_self v hv, entriesAsDicts_eq_self es hes]

end

/-- Without inner maps a value is its copy, or a map whose copy has the same entries. -/
theorem asDicts_cases {v : Value} (h : v.hasInnerMapping = false) :
    v.asDicts = v ∨ ∃ entries, v = .mapping entries ∧ v.asDicts = .dict entries := by
  cases v with
  | mapping entries =>
    exact .inr ⟨entries, rfl, congrArg Value.dict (entriesAsDicts_eq_self entries h)⟩
  | list items => exact .inl (asDicts_eq_self _ h)
  | tuple items => exact .inl (asDicts_eq_self _ h)
  | dict entries => exact .inl (asDicts_eq_self _ h)
  | _ => exact .inl rfl

/-! ### Texts that shrink -/

section Shrinking

variable {α β : Type} {size : α → Nat} {size' : β → Nat} {changed more : Bool}

/-- The results for a value and for its copy: the same failure; the same text if nothing was
changed, and a shorter one if something was. -/
inductive Shrinks (size : α → Nat) : Bool → Except Error α → Except Error α → Prop
  | fails {changed : Bool} (e : Error) : Shrinks size changed (.error e) (.error e)
  | same (a : α) : Shrinks size false (.ok a) (.ok a)
  | shorter {a a' : α} (h : size a' < size a) : Shrinks size true (.ok a) (.ok a')

theorem Shrinks.refl (size : α → Nat) (r : Except Error α) : Shrinks size false r r := by
  cases r with
  | error e => exact .fails e
  | ok a => exact .same a

/-- A step that keeps the order of sizes, where the sizes of results matter only. -/
theorem Shrinks.map {r r' : Except Error α} (h : Shrinks size changed r r') (f : α → β)
    (hf : ∀ a a', r = .ok a → r' = .ok a' → size a' < size a → size' (f a') < size' (f a)) :
    Shrinks size' changed (r.map f) (r'.map f) := by
  cases h with
  | fails e => exact .fails e
  | same a => exact .same (f a)
  | shorter hlt => exact .shorter (hf _ _ rfl rfl hlt)

/-- Two results differ exactly if something was changed and there is a text. -/
theorem Shrinks.eq_iff {r r' : Except Error α} (h : Shrinks size changed r r') :
    r = r' ↔ ¬ (changed = true ∧ ∃ a, r = .ok a) := by
  cases h with
  | fails e => simp
  | same a => simp
  | @shorter a a' hlt =>
    have hne : a ≠ a' := by
      rintro rfl
      exact Nat.lt_irrefl _ hlt
    simp [hne]

end Shrinking

/-- The number of characters in texts. -/
def totalLength (css : List (List Char)) : Nat := css.flatten.length

section Lengths

variable {b c : Bool}

/-- Quotes make a text longer. -/
theorem length_lt_quoted (s : List Char) : s.length < (quoted plainChar s).length := by
  have hchar : ∀ c : Char, 1 ≤ (plainChar c).length := fun c => by
    unfold plainChar escape?
    split_ifs <;> simp [unitEscape]
  have hbody : s.length ≤ (s.flatMap plainChar).length := by
    induction s with
    | nil => exact Nat.zero_le _
    | cons c s ih =>
      rw [List.flatMap_cons, List.length_append, List.length_cons]
      have := hchar c
      omega
  simp only [quoted, List.length_append, List.length_cons, List.length_nil]
  omega

theorem length_intercalate (css : List (List Char)) :
    ([','].intercalate css).length = totalLength css + (css.length - 1) := by
  induction css with
  | nil => rfl
  | cons cs css ih =>
    cases css with
    | nil => simp [List.intercalate, totalLength]
    | cons ds css =>
      rw [List.intercalate_cons_cons, List.length_append, List.length_append, ih]
      simp only [totalLength, List.flatten_cons, List.length_append, List.length_cons,
        List.length_nil]
      omega

/-- Of as many items, the shorter make the shorter text. -/
theorem joinItems_lt {css css' : List (List Char)} (mark close : Char)
    (hcount : css'.length = css.length) (h : totalLength css' < totalLength css) :
    (joinItems mark css' close).length < (joinItems mark css close).length := by
  simp only [joinItems, List.length_append, List.length_cons, length_intercalate, hcount]
  omega

theorem member_lt {cs cs' : List Char} (name : List Char) (h : cs'.length < cs.length) :
    (member name cs').length < (member name cs).length := by
  simp only [member, List.length_append, List.length_cons]
  omega

theorem totalLength_cons (cs : List Char) (css : List (List Char)) :
    totalLength (cs :: css) = cs.length + totalLength css := by
  simp [totalLength]

/-- One text in front of others. -/
theorem Shrinks.cons {r r' : Except Error (List Char)} {rs rs' : Except Error (List (List Char))}
    (h : Shrinks List.length b r r') (hs : Shrinks totalLength c rs rs') :
    Shrinks totalLength (b || c) (r.bind fun cs => rs.map (cs :: ·))
      (r'.bind fun cs => rs'.map (cs :: ·)) := by
  cases h with
  | fails e => exact .fails e
  | same cs =>
    cases hs with
    | fails e => exact .fails e
    | same css => exact .same _
    | shorter hlt => exact .shorter (by rw [totalLength_cons, totalLength_cons]; omega)
  | shorter hlt =>
    cases hs with
    | fails e => exact .fails e
    | same css => exact .shorter (by rw [totalLength_cons, totalLength_cons]; omega)
    | shorter hlts => exact .shorter (by rw [totalLength_cons, totalLength_cons]; omega)

end Lengths

/-! ### Texts of copies -/

theorem compactItems_cons (v : Value) (vs : List Value) :
    compactItems (v :: vs) = (compact v).bind fun cs => (compactItems vs).map (cs :: ·) := by
  rw [compactItems]
  cases compact v with
  | error e => rfl
  | ok cs => cases compactItems vs <;> rfl

theorem compactMembers_cons (k v : Value) (es : List (Value × Value)) :
    compactMembers ((k, v) :: es) = (keyText k).bind fun name =>
      ((compact v).map (member name.toList)).bind fun cs => (compactMembers es).map (cs :: ·) := by
  rw [compactMembers]
  cases keyText k with
  | error e => rfl
  | ok name =>
    cases compact v with
    | error e => rfl
    | ok cs => cases compactMembers es <;> rfl

theorem length_compactItems {items : List Value} {css : List (List Char)}
    (h : compactItems items = .ok css) : css.length = items.length := by
  induction items generalizing css with
  | nil => cases h; rfl
  | cons v vs ih =>
    rw [compactItems_cons] at h
    cases hv : compact v with
    | error e => rw [hv] at h; cases h
    | ok cs =>
      cases hvs : compactItems vs with
      | error e => rw [hv, hvs] at h; cases h
      | ok css =>
        rw [hv, hvs] at h
        cases h
        rw [List.length_cons, List.length_cons, ih hvs]

theorem length_compactMembers {entries : List (Value × Value)} {css : List (List Char)}
    (h : compactMembers entries = .ok css) : css.length = entries.length := by
  induction entries generalizing css with
  | nil => cases h; rfl
  | cons e es ih =>
    obtain ⟨k, v⟩ := e
    rw [compactMembers_cons] at h
    cases hk : keyText k with
    | error e => rw [hk] at h; cases h
    | ok name =>
      cases hv : compact v with
      | error e => rw [hk, hv] at h; cases h
      | ok cs =>
        cases hes : compactMembers es with
        | error e => rw [hk, hv, hes] at h; cases h
        | ok css =>
          rw [hk, hv, hes] at h
          cases h
          rw [List.length_cons, List.length_cons, ih hes]

theorem length_itemsAsDicts (items : List Value) : (itemsAsDicts items).length = items.length := by
  induction items with
  | nil => rfl
  | cons v vs ih => rw [itemsAsDicts, List.length_cons, List.length_cons, ih]

theorem length_entriesAsDicts (entries : List (Value × Value)) :
    (entriesAsDicts entries).length = entries.length := by
  induction entries with
  | nil => rfl
  | cons e es ih => rw [entriesAsDicts, List.length_cons, List.length_cons, ih]

/-- Items between brackets. -/
theorem Shrinks.items {items : List Value} {changed : Bool}
    (h : Shrinks totalLength changed (compactItems items) (compactItems (itemsAsDicts items))) :
    Shrinks List.length changed ((compactItems items).map fun cs => joinItems '[' cs ']')
      ((compactItems (itemsAsDicts items)).map fun cs => joinItems '[' cs ']') :=
  h.map _ fun css css' hcss hcss' hlt => joinItems_lt _ _
    (by rw [length_compactItems hcss, length_compactItems hcss', length_itemsAsDicts]) hlt

/-- Members between braces. -/
theorem Shrinks.members {entries : List (Value × Value)} {changed : Bool}
    (h : Shrinks totalLength changed (compactMembers entries)
      (compactMembers (entriesAsDicts entries))) :
    Shrinks List.length changed ((compactMembers entries).map fun cs => joinItems '\x7b' cs '\x7d')
      ((compactMembers (entriesAsDicts entries)).map fun cs => joinItems '\x7b' cs '\x7d') :=
  h.map _ fun css css' hcss hcss' hlt => joinItems_lt _ _
    (by rw [length_compactMembers hcss, length_compactMembers hcss', length_entriesAsDicts]) hlt

/-- A map in quotes is longer than its copy, whatever is in it. -/
theorem Shrinks.quoted {r r' : Except Error (List Char)} {changed : Bool}
    (h : Shrinks List.length changed r r') :
    Shrinks List.length true (r.map (Json.quoted plainChar)) r' := by
  cases h with
  | fails e => exact .fails e
  | same cs => exact .shorter (length_lt_quoted cs)
  | shorter hlt => exact .shorter (Nat.lt_trans hlt (length_lt_quoted _))

mutual

/-- **The compact text of a value and of its copy**: the same without maps that are no
dictionaries, and shorter for the copy with one. -/
theorem compact_asDicts : (v : Value) →
    Shrinks List.length v.hasMapping (compact v) (compact v.asDicts)
  | .list items => by
    rw [Value.asDicts, compact, compact]
    exact (compactItems_asDicts items).items
  | .tuple items => by
    rw [Value.asDicts, compact, compact]
    exact (compactItems_asDicts items).items
  | .dict entries => by
    rw [Value.asDicts, compact, compact]
    exact (compactMembers_asDicts entries).members
  | .mapping entries => by
    have hquoted :
      compact (.mapping entries) = (compact (.dict entries)).map (quoted plainChar) := by
      rw [compact, compact]
      cases compactMembers entries <;> rfl
    rw [Value.asDicts, hquoted, compact, compact]
    exact (compactMembers_asDicts entries).members.quoted
  | .null | .bool _ | .int _ | .float _ | .decimal _ | .str _ | .bytes _ | .byteArray _
  | .date _ | .dateTime _ | .time _ | .document _ | .rootElement _ | .object _ | .type _
  | .policy _ => .refl _ _

theorem compactItems_asDicts : (items : List Value) →
    Shrinks totalLength (anyMapping items) (compactItems items)
      (compactItems (itemsAsDicts items))
  | [] => .refl _ _
  | v :: vs => by
    rw [itemsAsDicts, compactItems_cons, compactItems_cons]
    exact (compact_asDicts v).cons (compactItems_asDicts vs)

theorem compactMembers_asDicts : (entries : List (Value × Value)) →
    Shrinks totalLength (anyMappingIn entries) (compactMembers entries)
      (compactMembers (entriesAsDicts entries))
  | [] => .refl _ _
  | (k, v) :: es => by
    rw [entriesAsDicts, compactMembers_cons, compactMembers_cons]
    cases keyText k with
    | error e => exact .fails e
    | ok name =>
      have hmember : Shrinks List.length v.hasMapping ((compact v).map (member name.toList))
          ((compact v.asDicts).map (member name.toList)) :=
        (compact_asDicts v).map _ fun _ _ _ _ hlt => member_lt _ hlt
      exact hmember.cons (compactMembers_asDicts es)

end

/-- The JSON text of a value and of its copy. -/
theorem toJson_asDicts (v : Value) :
    Shrinks String.length v.hasMapping v.toJson v.asDicts.toJson :=
  (compact_asDicts v).map _ fun _ _ _ _ hlt => by simpa using hlt

/-- **The text of a value and of its copy.** -/
theorem stringify_asDicts (v : Value) :
    Shrinks String.length v.hasInnerMapping v.stringify v.asDicts.stringify := by
  cases v with
  | list items => exact toJson_asDicts (.list items)
  | tuple items => exact toJson_asDicts (.tuple items)
  | dict entries => exact toJson_asDicts (.dict entries)
  | mapping entries => exact toJson_asDicts (.dict entries)
  | _ => exact .refl _ _

/-! ### Where texts are used -/

namespace Store

variable (s : Store) (b : Base) (entries : Entries)

/-- A path that takes a step does not tell a map from the dictionary with its entries. -/
theorem drill_mapping {segments : List Segment} (h : segments ≠ []) :
    drill (.mapping entries) segments = drill (.dict entries) segments := by
  cases segments with
  | nil => exact absurd rfl h
  | cons segment rest => cases segment <;> rfl

theorem lookup?_written (v : Value) (c : Base) :
    (s.put b v).lookup? c = if c = b then some v else s.lookup? c :=
  Variables.lookup?_put s.entries b v c

theorem fill_dict (inner : List Char) :
    (s.put b (.mapping entries)).fill inner = (s.put b (.dict entries)).fill inner := by
  unfold fill
  cases Path.parse (String.ofList inner) with
  | error e => rfl
  | ok p =>
    simp only [lookup?_written]
    by_cases hbase : p.base = b
    · simp only [hbase, if_true]
      by_cases hsegments : p.segments = []
      · simp only [hsegments]
        rfl
      · rw [drill_mapping entries hsegments]
    · simp only [hbase, if_false]
      rfl

theorem fillAll_congr {s t : Store} (h : ∀ inner, s.fill inner = t.fill inner)
    (pieces : List Template.Piece) : s.fillAll pieces = t.fillAll pieces := by
  induction pieces with
  | nil => rfl
  | cons piece rest ih => cases piece <;> simp only [fillAll, ih, h]

/-- **A template** does not tell a map from the dictionary with its entries. -/
theorem resolve_dict (template : String) :
    (s.put b (.mapping entries)).resolve template = (s.put b (.dict entries)).resolve template := by
  rw [resolve, resolve, fillAll_congr (fill_dict s b entries)]

theorem read_dict (p : Path) :
    (s.put b (.mapping entries)).read p = (s.put b (.dict entries)).read p ∨
      (s.put b (.mapping entries)).read p = .ok (.mapping entries) ∧
        (s.put b (.dict entries)).read p = .ok (.dict entries) := by
  simp only [read, lookup?_written]
  by_cases hbase : p.base = b
  · simp only [hbase, if_true]
    by_cases hsegments : p.segments = []
    · simp only [hsegments]
      exact .inr ⟨rfl, rfl⟩
    · exact .inl (drill_mapping entries hsegments)
  · simp [hbase]

/-- **An operand** does not tell a map from the dictionary with its entries. -/
theorem operand_dict (operand : Option String) :
    (s.put b (.mapping entries)).operand operand = (s.put b (.dict entries)).operand operand := by
  cases operand with
  | none => rfl
  | some template =>
    simp only [Store.operand, resolve_dict]
    cases Template.single? (Text.trim template) with
    | none => rfl
    | some inner =>
      simp only [get]
      cases Path.ofValue (.str (Text.trim template)) with
      | error e => rfl
      | ok p =>
        rcases read_dict s b entries p with hread | ⟨hmap, hdict⟩
        · simp only [hread]
        · simp only [hmap, hdict]
          rfl

end Store

section Columns

open Records

variable {v : Value}

/-- The number of characters in a cell. -/
def cellLength (cell : Value) : Nat := (cell.asText?.getD "").length

theorem jsonCell_asDicts (v : Value) :
    Shrinks cellLength v.hasMapping (v.toJson.map .str) (v.asDicts.toJson.map .str) :=
  (toJson_asDicts v).map _ fun _ _ _ _ hlt => hlt

/-- A list or a dictionary in a column of its own. -/
theorem columnText_asDicts (h : IsContainer v) :
    Shrinks cellLength v.hasMapping (columnText (some v)) (columnText (some v.asDicts)) := by
  cases v with
  | list items => exact jsonCell_asDicts (.list items)
  | dict entries => exact jsonCell_asDicts (.dict entries)
  | _ => cases h

end Columns

/-- **Where the class of a map shows.** A value has the text of its copy in dictionaries exactly if
no other map is inside of it, or it has no text; then previews, templates and conditions cannot
tell the two apart either. A column that holds JSON has the same cell for both exactly if no such
map is in the value at all, or there is no cell. -/
theorem mapTexts_iff (v : Value) :
    (v.stringify = v.asDicts.stringify ↔
      ¬ (v.hasInnerMapping = true ∧ ∃ text, v.stringify = .ok text)) ∧
    (v.hasInnerMapping = false →
      (∀ limit, Display.preview limit v = Display.preview limit v.asDicts) ∧
      ∀ (s : Store) (b : Base),
        (∀ template, (s.put b v).resolve template = (s.put b v.asDicts).resolve template) ∧
        ∀ operand, (s.put b v).operand operand = (s.put b v.asDicts).operand operand) ∧
    (∀ name, (Records.Column.mk name none).valueOf v =
        (Records.Column.mk name none).valueOf v.asDicts ↔
      ¬ (v.hasMapping = true ∧ ∃ cell, (Records.Column.mk name none).valueOf v = .ok cell)) ∧
    (IsContainer v → (Records.columnText (some v) = Records.columnText (some v.asDicts) ↔
      ¬ (v.hasMapping = true ∧ ∃ cell, Records.columnText (some v) = .ok cell))) := by
  refine ⟨(stringify_asDicts v).eq_iff, fun h => ⟨fun limit => ?_, fun s b => ?_⟩,
    fun _ => (jsonCell_asDicts v).eq_iff, fun h => (columnText_asDicts h).eq_iff⟩
  · have htext : v.stringify = v.asDicts.stringify :=
      (stringify_asDicts v).eq_iff.2 fun hinner => by rw [h] at hinner; cases hinner.1
    rw [Display.preview, Display.preview, htext]
  · rcases asDicts_cases h with hself | ⟨entries, rfl, hdict⟩
    · rw [hself]
      exact ⟨fun _ => rfl, fun _ => rfl⟩
    · rw [hdict]
      exact ⟨s.resolve_dict b entries, s.operand_dict b entries⟩

/-- A list with a map that is no dictionary. -/
def wrappedMap : Value := .list [.mapping [(.str "a", .bool true)]]

/-- The map in the list comes out as a string with the text of the map, and that of the copy as an
object. -/
theorem mapTexts_wrapped :
    wrappedMap.asDicts = .list [.dict [(.str "a", .bool true)]] ∧
      wrappedMap.stringify = .ok "[\"\x7b\\\"a\\\":true\x7d\"]" ∧
      wrappedMap.asDicts.stringify = .ok "[\x7b\"a\":true\x7d]" ∧
      wrappedMap.stringify ≠ wrappedMap.asDicts.stringify := by
  have hwrapped : wrappedMap.stringify = .ok "[\"\x7b\\\"a\\\":true\x7d\"]" := rfl
  have hcopy : wrappedMap.asDicts.stringify = .ok "[\x7b\"a\":true\x7d]" := rfl
  refine ⟨rfl, hwrapped, hcopy, ?_⟩
  rw [hwrapped, hcopy]
  simp

end Runbook
