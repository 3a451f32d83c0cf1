import Runbook.Number.Reading
import Runbook.Xml.Characters
import Runbook.Xml.XPath.Syntax

/-!
# Reading XPath

Expressions from text, by recursive descent: `or`, `and`, equality, order, sums, products, signs,
unions, paths.

* `Expr.read?`: the expression of a text, if all of the text is one.

The fuel counts nested calls. Each call of the descent either reads a character or goes down one of
the ten levels, so ten for each character is enough.
-/

namespace Runbook.Xml.XPath

open Runbook.Number

/-- What is read, with the text behind it. -/
abbrev Reading (α : Type) := Option (α × List Char)

/-- The step from a node to itself and all below it. -/
def anywhere : PathStep Expr := ⟨.descendantOrSelf, .node, []⟩

/-- The step from a node to its parent. -/
def upward : PathStep Expr := ⟨.parent, .node, []⟩

/-- Which words in front of a bracket are node tests. -/
def isNodeType (name : String) : Bool :=
  ["comment", "node", "processing-instruction", "text"].contains name

/-- A quoted literal. -/
def readLiteral? : List Char → Reading String
  | '"' :: cs => (splitAtWord? ['"'] cs).map fun (s, rest) => (String.ofList s, rest)
  | '\'' :: cs => (splitAtWord? ['\''] cs).map fun (s, rest) => (String.ofList s, rest)
  | _ => none

/-- The exponent of a number: its value, or zero without one. -/
def readPower (cs : List Char) : Int × List Char :=
  match cs with
  | c :: rest =>
    if c == 'e' || c == 'E' then
      let (negative, rest) := readSign rest
      let (ds, rest) := spanDigits rest
      let n : Int := Text.natOfDigits ds
      (if negative then -n else n, rest)
    else (0, cs)
  | [] => (0, cs)

/-- An unsigned number. -/
def readNumber? (cs : List Char) : Reading Binary64 :=
  let (whole, rest) := spanDigits cs
  let (decimals, rest) := match rest with
    | '.' :: rest => spanDigits rest
    | rest => ([], rest)
  if whole.isEmpty && decimals.isEmpty then none
  else
    let (power, rest) := readPower rest
    some (.ofDecimal false (Text.natOfDigits (whole ++ decimals)) (power - decimals.length), rest)

/-- What is tested of a node, behind a name already read. -/
def readNamedTest? (name : String) (cs : List Char) : Reading NodeTest :=
  match skipSpace cs with
  | '(' :: rest =>
    let rest := skipSpace rest
    let close (test : NodeTest) : List Char → Reading NodeTest := fun rest =>
      match skipSpace rest with
      | ')' :: rest => some (test, rest)
      | _ => none
    match name with
    | "comment" => close .comment rest
    | "node" => close .node rest
    | "text" => close .text rest
    | "processing-instruction" =>
      match readLiteral? rest with
      | some (target, rest) => close (.instruction (some target)) rest
      | none => close (.instruction none) rest
    | _ => none
  | rest =>
    match cs with
    | ':' :: '*' :: rest => some (.anyIn name, rest)
    | ':' :: more => (readName? more).map fun (label, rest) => (.name ⟨some name, label⟩, rest)
    | _ => some (.name ⟨none, name⟩, rest)

/-- What is tested of a node. -/
def readTest? (cs : List Char) : Reading NodeTest :=
  match skipSpace cs with
  | '*' :: rest => some (.any, rest)
  | cs => (readName? cs).bind fun (name, rest) => readNamedTest? name rest

/-- The axis and the test of a step. -/
def readAxisAndTest? (cs : List Char) : Reading (Axis × NodeTest) :=
  match cs with
  | '*' :: rest => some ((.child, .any), rest)
  | '@' :: rest => (readTest? rest).map fun (test, rest) => ((.attribute, test), rest)
  | cs =>
    match readName? cs with
    | none => none
    | some (name, rest) =>
      match Axis.ofName? name, skipSpace rest with
      | some axis, ':' :: ':' :: rest =>
        (readTest? rest).map fun (test, rest) => ((axis, test), rest)
      | _, _ => (readNamedTest? name rest).map fun (test, rest) => ((.child, test), rest)

/-- Whether a text begins with a path, and not with another kind of expression. -/
def beginsPath (cs : List Char) : Bool :=
  match cs with
  | [] => false
  | c :: rest =>
    if c == '$' || c == '(' || c == '"' || c == '\'' || Text.isAsciiDigit c then false
    else if c == '.' then
      match rest with
      | d :: _ => !Text.isAsciiDigit d
      | [] => true
    else
      match readName? cs with
      | some (name, rest) =>
        match skipSpace rest with
        | '(' :: _ => isNodeType name
        | ':' :: more =>
          match readName? more with
          | some (_, rest) =>
            match skipSpace rest with
            | '(' :: _ => false
            | _ => true
          | none => true
        | _ => true
      | none => true

/-- Whether a step may begin behind a leading slash. -/
def beginsStep (cs : List Char) : Bool :=
  match cs with
  | c :: _ => ('a' ≤ c && c ≤ 'z') || ('A' ≤ c && c ≤ 'Z') || ['_', '.', '@', '*'].contains c
  | [] => false

/-- The operator of a level that a text begins with. -/
def operator? (table : List (String × BinaryOp)) (cs : List Char) :
    Option (BinaryOp × List Char) :=
  match table with
  | [] => none
  | (word, op) :: more =>
    match afterWord? word.toList cs with
    | some rest => some (op, rest)
    | none => operator? more cs

/-- The levels of binary operators, loosest first. -/
def levels : List (List (String × BinaryOp)) :=
  [[("or", .or)], [("and", .and)], [("=", .equal), ("!=", .notEqual)],
    [("<=", .lessEqual), (">=", .greaterEqual), ("<", .less), (">", .greater)],
    [("+", .add), ("-", .sub)], [("*", .mul), ("div", .div), ("mod", .mod)]]

mutual

/-- An expression of the given levels. -/
def readLevel? : (fuel : Nat) → List (List (String × BinaryOp)) → List Char → Reading Expr
  | 0, _, _ => none
  | fuel + 1, [], cs => readUnary? fuel (skipSpace cs)
  | fuel + 1, table :: more, cs =>
    match readLevel? fuel more cs with
    | some (left, rest) => readMore? fuel table more left (skipSpace rest)
    | none => none

/-- The further operands of one level. -/
def readMore? : (fuel : Nat) → List (String × BinaryOp) → List (List (String × BinaryOp)) →
    Expr → List Char → Reading Expr
  | 0, _, _, _, _ => none
  | fuel + 1, table, more, left, cs =>
    match operator? table cs with
    | none => some (left, cs)
    | some (op, rest) =>
      match readLevel? fuel more (skipSpace rest) with
      | some (right, rest) => readMore? fuel table more (.binary op left right) (skipSpace rest)
      | none => none

/-- A union with minus signs in front. -/
def readUnary? : (fuel : Nat) → List Char → Reading Expr
  | 0, _ => none
  | fuel + 1, '-' :: cs => (readUnary? fuel (skipSpace cs)).map fun (e, rest) => (.negate e, rest)
  | fuel + 1, cs =>
    match readPath? fuel cs with
    | some (left, rest) => readUnion? fuel left (skipSpace rest)
    | none => none

/-- The further paths of a union. -/
def readUnion? : (fuel : Nat) → Expr → List Char → Reading Expr
  | 0, _, _ => none
  | fuel + 1, left, '|' :: cs =>
    match readPath? fuel (skipSpace cs) with
    | some (right, rest) => readUnion? fuel (.union left right) (skipSpace rest)
    | none => none
  | _ + 1, left, cs => some (left, cs)

/-- A path, or another expression with steps behind it. -/
def readPath? : (fuel : Nat) → List Char → Reading Expr
  | 0, _ => none
  | fuel + 1, cs =>
    if beginsPath cs then
      match cs with
      | '/' :: _ => (readRooted? fuel cs).map fun (steps, rest) => (.path true steps, rest)
      | _ => (readSteps? fuel cs).map fun (steps, rest) => (.path false steps, rest)
    else
      match readPrimary? fuel cs with
      | none => none
      | some (base, rest) =>
        match readPredicates? fuel (skipSpace rest) with
        | none => none
        | some (predicates, rest) =>
          match rest with
          | '/' :: _ =>
            (readSteps? fuel rest).map fun (steps, rest) => (.filter base predicates steps, rest)
          | _ => some (if predicates.isEmpty then base else .filter base predicates [], rest)

/-- The steps of a path that begins with a slash. -/
def readRooted? : (fuel : Nat) → List Char → Reading (List (PathStep Expr))
  | 0, _ => none
  | fuel + 1, '/' :: '/' :: cs =>
    match readSteps? fuel (skipSpace cs) with
    | some (steps, rest) =>
      (readRooted? fuel rest).map fun (more, rest) => (anywhere :: steps ++ more, rest)
    | none => none
  | fuel + 1, '/' :: cs =>
    let cs := skipSpace cs
    if beginsStep cs then
      match readSteps? fuel cs with
      | some (steps, rest) =>
        (readRooted? fuel rest).map fun (more, rest) => (steps ++ more, rest)
      | none => none
    else readRooted? fuel cs
  | _ + 1, cs => some ([], cs)

/-- Steps joined by slashes, one at least. -/
def readSteps? : (fuel : Nat) → List Char → Reading (List (PathStep Expr))
  | 0, _ => none
  | fuel + 1, '/' :: '/' :: cs =>
    (readStepAndMore? fuel (skipSpace cs)).map fun (steps, rest) => (anywhere :: steps, rest)
  | fuel + 1, '/' :: cs => readStepAndMore? fuel (skipSpace cs)
  | fuel + 1, cs => readStepAndMore? fuel cs

/-- A step, and those behind further slashes. -/
def readStepAndMore? : (fuel : Nat) → List Char → Reading (List (PathStep Expr))
  | 0, _ => none
  | fuel + 1, cs =>
    match readStep? fuel cs with
    | none => none
    | some (step, rest) =>
      match skipSpace rest with
      | '/' :: rest =>
        (readSteps? fuel ('/' :: rest)).map fun (steps, rest) => (step ++ steps, rest)
      | rest => some (step, rest)

/-- One step; a single point is none. -/
def readStep? : (fuel : Nat) → List Char → Reading (List (PathStep Expr))
  | 0, _ => none
  | _ + 1, '.' :: '.' :: cs => some ([upward], skipSpace cs)
  | _ + 1, '.' :: cs => some ([], skipSpace cs)
  | fuel + 1, cs =>
    match readAxisAndTest? cs with
    | none => none
    | some ((axis, test), rest) =>
      (readPredicates? fuel (skipSpace rest)).map fun (ps, rest) => ([⟨axis, test, ps⟩], rest)

/-- Predicates in brackets. -/
def readPredicates? : (fuel : Nat) → List Char → Reading (List Expr)
  | 0, _ => none
  | fuel + 1, '[' :: cs =>
    match readLevel? fuel levels (skipSpace cs) with
    | some (e, ']' :: rest) =>
      (readPredicates? fuel (skipSpace rest)).map fun (es, rest) => (e :: es, rest)
    | _ => none
  | _ + 1, cs => some ([], cs)

/-- An expression that is no path. -/
def readPrimary? : (fuel : Nat) → List Char → Reading Expr
  | 0, _ => none
  | fuel + 1, cs =>
    match cs with
    | '$' :: rest => (readName? rest).map fun (name, rest) => (.variable name, rest)
    | '(' :: rest =>
      match readLevel? fuel levels (skipSpace rest) with
      | some (e, ')' :: rest) => some (e, rest)
      | _ => none
    | '"' :: _ => (readLiteral? cs).map fun (s, rest) => (.literal s, rest)
    | '\'' :: _ => (readLiteral? cs).map fun (s, rest) => (.literal s, rest)
    | cs =>
      match readNumber? cs with
      | some (x, rest) => some (.number x, rest)
      | none => readCall? fuel cs

/-- A function call. -/
def readCall? : (fuel : Nat) → List Char → Reading Expr
  | 0, _ => none
  | fuel + 1, cs =>
    match readName? cs with
    | none => none
    | some (first, rest) =>
      let (name, rest) : RawName × List Char := match rest with
        | ':' :: more =>
          match readName? more with
          | some (second, rest) => (⟨some first, second⟩, rest)
          | none => (⟨none, first⟩, rest)
        | rest => (⟨none, first⟩, rest)
      match skipSpace rest with
      | '(' :: rest =>
        match skipSpace rest with
        | ')' :: rest => some (.call name [], rest)
        | rest => (readArguments? fuel rest).map fun (es, rest) => (.call name es, rest)
      | _ => none

/-- The arguments of a call, up to its closing bracket. -/
def readArguments? : (fuel : Nat) → List Char → Reading (List Expr)
  | 0, _ => none
  | fuel + 1, cs =>
    match readLevel? fuel levels cs with
    | some (e, ',' :: rest) =>
      (readArguments? fuel (skipSpace rest)).map fun (es, rest) => (e :: es, rest)
    | some (e, ')' :: rest) => some ([e], rest)
    | _ => none

end

/-- The expression of a text, if all of the text is one. -/
def Expr.read? (s : String) : Option Expr :=
  let cs := s.toList
  match readLevel? (20 * (cs.length + 2)) levels (skipSpace cs) with
  | some (e, []) => some e
  | _ => none

end Runbook.Xml.XPath
