import Runbook.Text.Digit

/-!
# Command line arguments

The arguments of a run: one workflow file, and options in any order around it.

* `Token.ofArgument`: an argument as an option or a word. Long options may be cut short as long as
  only one is meant, and may carry their value behind an equals sign.
* `Reading.ofArguments`: what the arguments ask for. Asking for help counts as soon as it is
  reached, and so does the misuse of an option; words too many and options that there are not only
  count at the end.
-/

namespace Runbook.CommandLine

open Runbook.Text

/-- The options there are. -/
inductive Flag
  | help
  | policy
  | var
  | logLevel
  | showVars
  deriving DecidableEq, Repr

/-- The options by what is written for them. -/
def flags : List (String × Flag) := [
  ("-h", .help), ("--help", .help), ("--policy", .policy), ("--var", .var),
  ("--log-level", .logLevel), ("--show-vars", .showVars)]

/-- The option that is written so. -/
def flag? (s : String) : Option Flag :=
  (flags.find? (·.1 == s)).map (·.2)

/-- An argument by itself. The text behind a short option has no equals sign in front of it. -/
inductive Token
  | word (s : String)
  | flag (f : Flag) (attached : Option String)
  | shortHelp (behind : List Char)
  | unknown
  | ambiguous
  deriving DecidableEq, Repr

/-- A text up to its first equals sign, and the text behind that if there is one. -/
def splitValue (s : String) : String × Option String :=
  let cs := s.toList
  let front := cs.takeWhile (· != '=')
  match cs.drop front.length with
  | _ :: rest => (String.ofList front, some (String.ofList rest))
  | [] => (s, none)

/-- Whether a text is a negative number; such a text is a word. -/
def isNegativeNumber (cs : List Char) : Bool :=
  let isDigit := fun c => (digitValue? c).isSome
  match cs with
  | '-' :: rest =>
    let whole := rest.takeWhile isDigit
    match rest.drop whole.length with
    | [] => !whole.isEmpty
    | '.' :: decimals => !decimals.isEmpty && decimals.all isDigit
    | _ => false
  | _ => false

namespace Token

/-- An argument that begins with two hyphens and is no option as it stands. -/
def ofLong (s : String) : Option Token :=
  let (front, attached) := splitValue s
  match flags.filter fun f => front.toList.isPrefixOf f.1.toList with
  | [] => none
  | [(_, f)] => some (.flag f attached)
  | _ => some .ambiguous

/-- An argument by itself. -/
def ofArgument (s : String) : Token :=
  let (front, attached) := splitValue s
  match s.toList with
  | '-' :: c :: cs =>
    match flag? s, flag? front with
    | some f, _ => .flag f none
    | none, some f => .flag f attached
    | none, none =>
      let found :=
        if c == '-' then ofLong s
        else if c == 'h' then some (.shortHelp cs)
        else none
      match found with
      | some t => t
      | none =>
        if isNegativeNumber s.toList || s.toList.contains ' ' then .word s else .unknown
  | _ => .word s

end Token

/-- What a run is asked to do. -/
structure Options where
  file : String
  policy : Option String
  vars : List String
  showVars : Bool
  deriving Repr

/-- What arguments ask for. -/
inductive Reading
  | run (o : Options)
  | help
  | misuse
  deriving Repr

/-- The texts of the policies that may be asked for. -/
def policyChoices : List String := ["keep_as_is", "replace_with_empty", "throw_error"]

/-- The levels of logging that may be asked for. -/
def levelChoices : List String := ["DEBUG", "INFO", "WARNING", "ERROR"]

/-- What has been read of the arguments. `adjacent` tells that the word just read is the file, and
`surplus` that there was an argument without a meaning. -/
structure Progress where
  file : Option String
  adjacent : Bool
  surplus : Bool
  policy : Option String
  vars : List String
  showVars : Bool

namespace Progress

/-- What has been read before the first argument. -/
def start : Progress := ⟨none, false, false, none, [], false⟩

/-- Reads a word. -/
def addWord (p : Progress) (s : String) : Progress :=
  match p.file with
  | none => { p with file := some s, adjacent := true }
  | some _ => { p with adjacent := false, surplus := true }

/-- Reads the value of an option, if it is one that the option takes. -/
def addValue (p : Progress) (f : Flag) (s : String) : Option Progress :=
  let p := { p with adjacent := false }
  match f with
  | .policy => if policyChoices.contains s then some { p with policy := some s } else none
  | .logLevel => if levelChoices.contains s then some p else none
  | .var => some { p with vars := p.vars ++ [s] }
  | _ => none

/-- What the arguments asked for, at their end. -/
def finish (p : Progress) : Reading :=
  match p.file, p.surplus with
  | some file, false => .run ⟨file, p.policy, p.vars, p.showVars⟩
  | _, _ => .misuse

/-- Reads the words behind two hyphens. The hyphens themselves are a word too many where no file
is awaited and none was just read. -/
def finishWords (p : Progress) (rest : List String) : Reading :=
  match p.file with
  | none => (rest.foldl addWord p).finish
  | some _ => (rest.foldl addWord { p with surplus := p.surplus || !p.adjacent }).finish

end Progress

/-- Whether letters behind the short option of help ask for help: options behind it that there are
not do not matter, but a value does. -/
def asksForHelp (behind : List Char) : Bool :=
  match behind, behind.dropWhile (· == 'h') with
  | '-' :: _, _ => false
  | _, '-' :: _ => false
  | _, '=' :: _ => false
  | _, _ => true

namespace Reading

/-- Reads arguments from left to right. -/
def ofProgress (p : Progress) : List String → Reading
  | [] => p.finish
  | "--" :: rest => p.finishWords rest
  | s :: rest =>
    match Token.ofArgument s with
    | .word s => ofProgress (p.addWord s) rest
    | .ambiguous => .misuse
    | .unknown => ofProgress { p with adjacent := false, surplus := true } rest
    | .shortHelp behind => if asksForHelp behind then .help else .misuse
    | .flag .help none => .help
    | .flag .help (some _) => .misuse
    | .flag .showVars none => ofProgress { p with adjacent := false, showVars := true } rest
    | .flag .showVars (some _) => .misuse
    | .flag f (some v) =>
      match p.addValue f v with
      | some p => ofProgress p rest
      | none => .misuse
    | .flag f none =>
      match rest with
      | [] => .misuse
      | v :: rest =>
        if v == "--" then .misuse
        else
          match Token.ofArgument v with
          | .word v =>
            match p.addValue f v with
            | some p => ofProgress p rest
            | none => .misuse
          | _ => .misuse

/-- The arguments in front of two hyphens. -/
def optionPart (args : List String) : List String :=
  args.takeWhile (· != "--")

/-- What arguments ask for. An option that could mean several ends the reading before it begins. -/
def ofArguments (args : List String) : Reading :=
  if (optionPart args).any fun s => Token.ofArgument s == .ambiguous then .misuse
  else ofProgress .start args

end Reading

end Runbook.CommandLine
