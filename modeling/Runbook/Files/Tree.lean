import Runbook.Error
import Runbook.Files.Utf8

/-!
# Files

The files a run can see, as a tree of directories and contents, and locations in it.

* `Location.ofText`: the location that a text names; empty and `.` parts do not count.
* `FileTree.read`, `FileTree.write`: the content at a location, and the tree with one written.
  Both follow `..` and ask for every directory on the way.
* `FileTree.readText`: the text at a location, every line ending in a line feed.
-/

namespace Runbook

/-- A place in the file system: from a root, or from a directory if the root is empty. -/
structure Location where
  root : String
  parts : List String
  deriving DecidableEq, Repr

namespace Location

/-- The root of a text by its leading slashes: two of them are a root of their own. -/
def rootOf (cs : List Char) : String :=
  match (cs.takeWhile (· == '/')).length with
  | 0 => ""
  | 2 => "//"
  | _ => "/"

/-- The location that a text names. -/
def ofText (s : String) : Location :=
  let parts := ((s.toList.splitOn '/').map String.ofList).filter fun p => p != "" && p != "."
  ⟨rootOf s.toList, parts⟩

/-- The text of a location. -/
def text (l : Location) : String :=
  let joined := l.root ++ "/".intercalate l.parts
  if joined == "" then "." else joined

/-- A location, seen from a directory unless it has a root. -/
def within (l base : Location) : Location :=
  if l.root == "" then ⟨base.root, base.parts ++ l.parts⟩ else l

/-- A location without steps back. -/
def resolved (l : Location) : Location :=
  let step := fun (parts : List String) (p : String) =>
    if p == ".." then parts.dropLast else parts ++ [p]
  { l with parts := l.parts.foldl step [] }

/-- The way to a location from where all locations begin. -/
def way (l : Location) : List String := l.root :: l.parts

/-- The directory that holds a location. -/
def parent (l : Location) : Location := { l with parts := l.parts.dropLast }

end Location

/-- What a file holds: text, or bytes of any kind. -/
inductive FileContent
  | text (cs : List Char)
  | bytes (bs : List UInt8)

/-- The text that a file's content is, with the fault it ends in if there is one. -/
def FileContent.decode : FileContent → Utf8.Decoded
  | .text cs => ⟨cs, none⟩
  | .bytes bs => Utf8.decode bs

/-- Carriage returns, with or without a line feed behind them, as line feeds. -/
def unifyLines : List Char → List Char
  | '\r' :: '\n' :: cs => '\n' :: unifyLines cs
  | '\r' :: cs => '\n' :: unifyLines cs
  | c :: cs => c :: unifyLines cs
  | [] => []

/-- Directories and files by their ways; the directories that locations begin in always exist. -/
structure FileTree where
  directories : List (List String)
  files : List (List String × FileContent)

namespace FileTree

/-- Whether a way leads to a directory. -/
def isDirectory (t : FileTree) (way : List String) : Bool :=
  way.length ≤ 1 || t.directories.contains way

/-- The content of the file at a way. -/
def content? (t : FileTree) (way : List String) : Option FileContent :=
  (t.files.find? (·.1 == way)).map (·.2)

/-- The longest name of a file in bytes. -/
def maxNameBytes : Nat := 255

/-- The way that parts lead to from a directory. -/
def follow (t : FileTree) (way : List String) : List String → Except FileFault (List String)
  | [] => .ok way
  | part :: rest =>
    if !t.isDirectory way then
      .error (if (t.content? way).isSome then .notDirectory else .notFound)
    else if maxNameBytes < part.utf8ByteSize then .error .nameTooLong
    else
      let next := if part != ".." then way ++ [part]
        else if way.length ≤ 1 then way else way.dropLast
      t.follow next rest

/-- The way to a location, or the error of opening a file there. -/
def wayTo (t : FileTree) (l : Location) : Except Error (List String) :=
  if l.parts.any fun p => p.toList.contains '\x00' then .error (.value .nulInPath)
  else
    match t.follow [l.root] l.parts with
    | .error e => .error (.file e l.text)
    | .ok way =>
      if t.isDirectory way then .error (.file .isDirectory l.text) else .ok way

/-- The content of the file at a location. -/
def read (t : FileTree) (l : Location) : Except Error FileContent :=
  match t.wayTo l with
  | .error e => .error e
  | .ok way =>
    match t.content? way with
    | some c => .ok c
    | none => .error (.file .notFound l.text)

/-- The text of the file at a location. -/
def readText (t : FileTree) (l : Location) : Except Error (List Char) :=
  match t.read l with
  | .error e => .error e
  | .ok c =>
    match c.decode with
    | ⟨cs, none⟩ => .ok (unifyLines cs)
    | ⟨_, some fault⟩ => .error (.encoding fault)

/-- Files with one written at a way. -/
def writeAt (files : List (List String × FileContent)) (way : List String) (c : FileContent) :
    List (List String × FileContent) :=
  match files with
  | [] => [(way, c)]
  | (w, old) :: rest => if w == way then (w, c) :: rest else (w, old) :: writeAt rest way c

/-- The tree with a file written at a location. -/
def write (t : FileTree) (l : Location) (c : FileContent) : Except Error FileTree :=
  match t.wayTo l with
  | .error e => .error e
  | .ok way => .ok { t with files := writeAt t.files way c }

end FileTree

end Runbook
