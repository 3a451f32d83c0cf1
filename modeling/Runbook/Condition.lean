import Runbook.Template
import Runbook.Value.Members

/-!
# Conditions

Comparisons of resolved operands, joined in groups, and groups joined in a formula.

* `Operator.holds`: what an operator says of two operands, each a text or absent.
* `Condition.holds`: one comparison; both operands are resolved before the operator is looked at.
* `Formula.evaluate`: every condition of every group is evaluated, in order, before the results
  are joined. A joining operator is "and" in any case, or else "or".
* `Formula.ofMap`: the formula that a map of settings describes.
-/

namespace Runbook

open Runbook.Text

/-- A comparison of two operands, or a test of the first. -/
inductive Operator
  | equals
  | notEqual
  | isNull
  | isNotNull
  | isEmptyString
  | isNotEmptyString
  deriving DecidableEq, Repr

namespace Operator

/-- The operators in the order messages list them. -/
def all : List Operator :=
  [.equals, .notEqual, .isNull, .isNotNull, .isEmptyString, .isNotEmptyString]

/-- The name of an operator. -/
def name : Operator → String
  | .equals => "equals"
  | .notEqual => "notequal"
  | .isNull => "isnull"
  | .isNotNull => "isnotnull"
  | .isEmptyString => "isemptystring"
  | .isNotEmptyString => "isnotemptystring"

/-- The operator of a name. -/
def ofName? (s : String) : Option Operator :=
  all.find? (·.name == s)

/-- Whether two operands are equal: both absent, or both numbers of one value, or, where one of
them is no number, the same text. -/
def equal : Option String → Option String → Bool
  | none, none => true
  | some a, some b =>
    match Binary64.read? a, Binary64.read? b with
    | some x, some y => x.same y
    | _, _ => a == b
  | _, _ => false

/-- Whether an operand is absent or empty. -/
def isEmpty (operand : Option String) : Bool :=
  operand == none || operand == some ""

/-- What an operator says of two operands. -/
def holds (op : Operator) (first second : Option String) : Bool :=
  match op with
  | .equals => equal first second
  | .notEqual => !equal first second
  | .isNull => first == none
  | .isNotNull => first != none
  | .isEmptyString => isEmpty first
  | .isNotEmptyString => !isEmpty first

end Operator

/-- An operand: a single placeholder is the value it leads to, which may be absent; any other text
is a template. -/
def Store.operand (s : Store) : Option String → Except Error (Option String)
  | none => .ok none
  | some template =>
    match Template.single? (trim template) with
    | some _ =>
      match s.get (.str (trim template)) with
      | .error e => .error e
      | .ok .null => .ok none
      | .ok v => v.stringify.map some
    | none => (s.resolve template).map some

/-- A comparison of two templates, with its operator as it was written. -/
structure Condition where
  first : Option String
  operator : String
  second : Option String
  deriving DecidableEq, Repr

/-- Whether a condition holds. -/
def Condition.holds (c : Condition) (s : Store) : Except Error Bool := do
  let first ← s.operand c.first
  let second ← s.operand c.second
  match Operator.ofName? (lower (trim c.operator)) with
  | some op => .ok (op.holds first second)
  | none => .error (.condition (.unknownOperator c.operator))

/-- Conditions with the operator that joins them. -/
structure Group where
  conditions : List Condition
  operator : String
  id : Option String
  deriving DecidableEq, Repr

/-- Groups with the operator that joins them. -/
structure Formula where
  groups : List Group
  between : String
  deriving DecidableEq, Repr

/-- What evaluating a formula comes to. -/
structure Verdict where
  satisfied : Bool
  reason : String
  deriving DecidableEq, Repr

/-- Whether a joining operator asks for all results. -/
def asksForAll (operator : String) : Bool :=
  upper (trim operator) == "AND"

/-- Results joined by an operator. -/
def joinResults (operator : String) (results : List Bool) : Bool :=
  if asksForAll operator then results.all id else results.any id

/-- Whether the conditions of a group hold; none do without conditions to fail. -/
def Group.holds (g : Group) (s : Store) : Except Error Bool := do
  let results ← g.conditions.mapM (·.holds s)
  return results.isEmpty || joinResults g.operator results

/-- Evaluates a formula. -/
def Formula.evaluate (f : Formula) (s : Store) : Except Error Verdict := do
  let results ← f.groups.mapM (·.holds s)
  if results.isEmpty then return ⟨true, "No condition specified"⟩
  let counts := natText (results.count true) ++ "/" ++ natText results.length
  return ⟨joinResults f.between results,
    counts ++ " group(s) satisfied (" ++ upper f.between ++ ")"⟩

/-! ## Reading formulas -/

/-- The text of a value that may be absent. -/
def optionalText (v : Value) : Except Error (Option String) :=
  match v with
  | .null => .ok none
  | v => v.stringify.map some

/-- The condition that a map describes. -/
def Condition.ofValue (v : Value) : Except Error Condition := do
  let entries ← v.asMap "get"
  let given := entries.field "operator"
  if !given.isTruthy then throw (.condition .noOperator)
  let operator ← given.text
  -- blanks around the operator are only taken off where the condition is evaluated
  if (Operator.ofName? (lower operator)).isNone then throw (.condition (.notAnOperator operator))
  let first ← optionalText (entries.field "first_value")
  let second ← optionalText (entries.field "second_value")
  return ⟨first, operator, second⟩

/-- The group that a map describes. -/
def Group.ofValue (v : Value) : Except Error Group := do
  let entries ← v.asMap "get"
  let members ← ((entries.field "conditions").orElse (.list [])).items
  let conditions ← members.mapM Condition.ofValue
  let operator ← (entries.fieldOr "group_operator" (.str "AND")).text
  let id ← optionalText (entries.field "id")
  return ⟨conditions, operator, id⟩

/-- The formula that a map of settings describes. -/
def Formula.ofMap (entries : Entries) : Except Error Formula := do
  match (entries.field "groups").orElse (.list []) with
  | .list members =>
    let groups ← members.mapM Group.ofValue
    let between ← (entries.fieldOr "between_groups_operator" (.str "AND")).text
    return ⟨groups, between⟩
  | _ => throw (.condition .groupsNotList)

end Runbook
