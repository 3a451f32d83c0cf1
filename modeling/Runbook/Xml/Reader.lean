import Runbook.Xml.Characters
import Runbook.Xml.Namespace

/-!
# Reading XML

Well-formed documents with namespaces, from text. Entities that the document type declares stay
references in content and are expanded in attributes; nothing outside the text is read.

* `Document.read?`: the document of a text, or nothing if the text is not well formed.

Every reader takes the text that is left and gives what it read with the rest. The element tree
is built on a stack of open elements, one step for each tag or run of text, so that the length of
the text bounds the steps. A reference to an entity nobody declares ends the building of the tree,
while the rest of the text must still be well formed.
-/

namespace Runbook.Xml

open Runbook.Text

/-- What a document type declares about entities. -/
structure Entities where
  declared : List (String × List Char) := []
  external : Bool := false

/-- The text that an entity stands for, also one of the five that need no declaration. -/
def predefined? (name : String) : Option Char :=
  match name with
  | "lt" => some '<'
  | "gt" => some '>'
  | "amp" => some '&'
  | "quot" => some '"'
  | "apos" => some '\''
  | _ => none

/-- The value of a hexadecimal digit. -/
def hexValue (c : Char) : Nat :=
  if isAsciiDigit c then c.toNat - '0'.toNat
  else if 'a' ≤ c then c.toNat - 'a'.toNat + 10 else c.toNat - 'A'.toNat + 10

/-- The character of a code point that may occur in a document. -/
def codeChar? (n : Nat) : Option Char :=
  let c := Char.ofNat n
  if c.toNat == n && isXmlChar c then some c else none

/-- What stands behind an ampersand. -/
inductive Reference
  | code (c : Char)
  | entity (name : String)

/-- Reads a reference behind its ampersand. -/
def readReference? : List Char → Option (Reference × List Char)
  | '#' :: 'x' :: cs =>
    let ds := cs.takeWhile Scope.isHexDigit
    match ds, cs.drop ds.length with
    | _ :: _, ';' :: rest =>
      (codeChar? (ds.foldl (fun n c => 16 * n + hexValue c) 0)).map fun c => (.code c, rest)
    | _, _ => none
  | '#' :: cs =>
    let ds := cs.takeWhile isAsciiDigit
    match ds, cs.drop ds.length with
    | _ :: _, ';' :: rest => (codeChar? (natOfDigits ds)).map fun c => (.code c, rest)
    | _, _ => none
  | cs =>
    match readName? cs with
    | some (name, ';' :: rest) => some (.entity name, rest)
    | _ => none

/-- A name with an optional qualifier. -/
def readRawName? (cs : List Char) : Option (RawName × List Char) := do
  let (first, rest) ← readName? cs
  match rest with
  | ':' :: more =>
    let (second, rest) ← readName? more
    if rest.head? == some ':' then none else some (⟨some first, second⟩, rest)
  | rest => some (⟨none, first⟩, rest)

/-- A quoted text and the text behind it. -/
def readQuoted? : List Char → Option (List Char × List Char)
  | '"' :: cs => splitAtWord? ['"'] cs
  | '\'' :: cs => splitAtWord? ['\''] cs
  | _ => none

/-- An attribute value read so far: its characters, and whether all its entities are known. -/
structure AttributeText where
  chars : List Char
  known : Bool

/-- Expands the references of an attribute value; white space becomes spaces. The fuel bounds the
characters read, those of expanded entities included. -/
def expandValue? (entities : Entities) : (fuel : Nat) → List Char → Option AttributeText
  | _, [] => some ⟨[], true⟩
  | 0, _ :: _ => none
  | fuel + 1, '&' :: cs => do
    let (reference, rest) ← readReference? cs
    let tail ← expandValue? entities fuel rest
    match reference with
    | .code c => some ⟨c :: tail.chars, tail.known⟩
    | .entity name =>
      match predefined? name with
      | some c => some ⟨c :: tail.chars, tail.known⟩
      | none =>
        match entities.declared.find? (·.1 == name) with
        | some (_, body) =>
          let value ← expandValue? entities fuel body
          some ⟨value.chars ++ tail.chars, value.known && tail.known⟩
        | none => some ⟨tail.chars, false⟩
  | fuel + 1, c :: cs => do
    if c == '<' then none
    else
      let tail ← expandValue? entities fuel cs
      some ⟨(if isSpace c then ' ' else c) :: tail.chars, tail.known⟩

/-- The attributes of a tag as written. -/
structure RawAttribute where
  name : RawName
  value : AttributeText

/-- Reads attributes up to the end of a tag, each behind white space. -/
def readAttributes? (entities : Entities) :
    (fuel : Nat) → List Char → Option (List RawAttribute × List Char)
  | 0, _ => none
  | fuel + 1, cs =>
    let rest := skipSpace cs
    match rest with
    | '>' :: _ => some ([], rest)
    | '/' :: _ => some ([], rest)
    | _ =>
      if rest.length == cs.length then none
      else do
        let (name, rest) ← readRawName? rest
        match skipSpace rest with
        | '=' :: rest =>
          let (raw, rest) ← readQuoted? (skipSpace rest)
          let value ← expandValue? entities (raw.length + 1000) raw
          let (more, rest) ← readAttributes? entities fuel rest
          some (⟨name, value⟩ :: more, rest)
        | _ => none

/-- Whether no member occurs twice. -/
def allDistinct {α : Type} [BEq α] : List α → Bool
  | [] => true
  | x :: xs => !xs.contains x && allDistinct xs

/-- The scope inside a tag with such attributes. -/
def declareAll? (scope : Scope) : List RawAttribute → Option Scope
  | [] => some scope
  | a :: rest =>
    if Scope.isDeclaration a.name then do
      declareAll? (← scope.declare? a.name (String.ofList a.value.chars)) rest
    else declareAll? scope rest

/-- The attributes of a tag with expanded names, declarations left out. -/
def resolveAll? (scope : Scope) : List RawAttribute → Option (List Attribute)
  | [] => some []
  | a :: rest => do
    let more ← resolveAll? scope rest
    if Scope.isDeclaration a.name then some more
    else some (⟨← scope.resolveAttribute? a.name, String.ofList a.value.chars⟩ :: more)

/-- An element whose end tag has not come yet. Its children are kept last first; `kept` tells
whether the tree was still being built when it opened. -/
structure Frame where
  written : RawName
  name : Name
  attributes : List Attribute
  scope : Scope
  children : List Node
  kept : Bool

/-- The element of a frame. -/
def Frame.node (f : Frame) : Node :=
  .element f.name f.attributes f.children.reverse

/-- A frame with one more child; text joins the text before it. -/
def Frame.add (f : Frame) (n : Node) : Frame :=
  match n, f.children with
  | .text t, .text s :: rest => { f with children := .text (s ++ t) :: rest }
  | _, children => { f with children := n :: children }

/-- The open elements, innermost first, and whether the tree is still being built. -/
structure Build where
  frames : List Frame
  building : Bool

/-- Adds a node to the innermost element. -/
def Build.add (b : Build) (n : Node) : Build :=
  match b.frames with
  | f :: fs => if b.building then { b with frames := f.add n :: fs } else b
  | [] => b

/-- The most elements that may be open around another. -/
def maxDepth : Nat := 256

/-- What a step on the text of an element leads to: further steps, or the end of the root. -/
inductive Step
  | more (b : Build) (rest : List Char)
  | done (root : Frame) (building : Bool) (rest : List Char)

/-- Closes the innermost element. -/
def Build.close (b : Build) (rest : List Char) : Option Step :=
  match b.frames with
  | [] => none
  | [f] => some (.done f b.building rest)
  | f :: g :: fs =>
    some (.more { b with frames := (if f.kept then g.add f.node else g) :: fs } rest)

/-- Opens an element behind its `<`. -/
def Build.open? (entities : Entities) (b : Build) (cs : List Char) : Option Step := do
  let (name, rest) ← readRawName? cs
  let (raw, rest) ← readAttributes? entities (rest.length + 1) rest
  if !allDistinct (raw.map (·.name)) || maxDepth < b.frames.length then none
  else
    let outer := match b.frames with
      | f :: _ => f.scope
      | [] => Scope.initial
    let scope ← declareAll? outer raw
    let expanded ← scope.resolve? name
    let attributes ← resolveAll? scope raw
    let building := b.building && raw.all (·.value.known)
    if !allDistinct (attributes.map (·.name)) then none
    else
      let b : Build :=
        { frames := ⟨name, expanded, attributes, scope, [], building⟩ :: b.frames, building }
      match rest with
      | '/' :: '>' :: rest => b.close rest
      | '>' :: rest => some (.more b rest)
      | _ => none

/-- Closes the innermost element behind its `</`. -/
def Build.endTag? (b : Build) (cs : List Char) : Option Step := do
  let (name, rest) ← readRawName? cs
  match b.frames, skipSpace rest with
  | f :: _, '>' :: rest => if f.written = name then b.close rest else none
  | _, _ => none

/-- A comment behind its `<!--`. -/
def readComment? (cs : List Char) : Option (Node × List Char) :=
  match splitAtWord? ['-', '-'] cs with
  | some (body, '>' :: rest) => some (.comment (String.ofList body), rest)
  | _ => none

/-- Whether a word is `xml` in any case. -/
def isXmlWord (s : String) : Bool :=
  match s.toList with
  | [x, m, l] => (x == 'x' || x == 'X') && (m == 'm' || m == 'M') && (l == 'l' || l == 'L')
  | _ => false

/-- A processing instruction behind its `<?`. -/
def readInstruction? (cs : List Char) : Option (Node × List Char) := do
  let (target, rest) ← readName? cs
  let body := skipSpace rest
  if isXmlWord target then none
  else if body.length == rest.length && (afterWord? ['?', '>'] body).isNone then none
  else
    let (content, rest) ← splitAtWord? ['?', '>'] body
    some (.instruction target (String.ofList content), rest)

/-- Adds what a reference in content stands for. -/
def Build.addReference (entities : Entities) (b : Build) : Reference → Build
  | .code c => b.add (.text (String.singleton c))
  | .entity name =>
    match predefined? name with
    | some c => b.add (.text (String.singleton c))
    | none =>
      -- something outside may declare any name
      if entities.external || (entities.declared.any (·.1 == name)) then b.add (.reference name)
      else { b with building := false }

/-- Whether a run of characters holds the end of a CDATA section. -/
def holdsSectionEnd (cs : List Char) : Bool :=
  (splitAtWord? [']', ']', '>'] cs).isSome

/-- One step on the content of the innermost element. -/
def Build.step? (entities : Entities) (b : Build) : List Char → Option Step
  | '<' :: '/' :: cs => b.endTag? cs
  | '<' :: '?' :: cs => (readInstruction? cs).map fun (n, rest) => .more (b.add n) rest
  | '<' :: '!' :: '-' :: '-' :: cs => (readComment? cs).map fun (n, rest) => .more (b.add n) rest
  | '<' :: '!' :: cs => do
    let body ← afterWord? "[CDATA[".toList cs
    let (content, rest) ← splitAtWord? [']', ']', '>'] body
    some (.more (if content.isEmpty then b else b.add (.text (String.ofList content))) rest)
  | '<' :: cs => b.open? entities cs
  | '&' :: cs => (readReference? cs).map fun (r, rest) => .more (b.addReference entities r) rest
  | [] => none
  | cs =>
    let run := cs.takeWhile fun c => c != '<' && c != '&'
    -- the end of a section is not allowed where no section is open
    if holdsSectionEnd run then none
    else some (.more (b.add (.text (String.ofList run))) (cs.drop run.length))

/-- Steps until the root is closed. -/
def readContent? (entities : Entities) :
    (fuel : Nat) → Build → List Char → Option (Frame × Bool × List Char)
  | 0, _, _ => none
  | fuel + 1, b, cs =>
    match b.step? entities cs with
    | some (.more b rest) => readContent? entities fuel b rest
    | some (.done root building rest) => some (root, building, rest)
    | none => none

/-- The root element behind its `<`. -/
def readRoot? (entities : Entities) (cs : List Char) : Option (Frame × Bool × List Char) :=
  match Build.open? entities ⟨[], true⟩ cs with
  | some (.more b rest) => readContent? entities (rest.length + 1) b rest
  | some (.done root building rest) => some (root, building, rest)
  | none => none

/-- Comments and instructions between white space, and the text where something else begins. -/
def readMisc? : (fuel : Nat) → List Char → Option (List Node × List Char)
  | 0, _ => none
  | fuel + 1, cs =>
    match skipSpace cs with
    | '<' :: '!' :: '-' :: '-' :: body => do
      let (n, rest) ← readComment? body
      let (ns, rest) ← readMisc? fuel rest
      some (n :: ns, rest)
    | '<' :: '?' :: body => do
      let (n, rest) ← readInstruction? body
      let (ns, rest) ← readMisc? fuel rest
      some (n :: ns, rest)
    | rest => some ([], rest)

/-- A name that may hold colons, and the text behind it. -/
def readColonName? (cs : List Char) : Option (String × List Char) :=
  let isNameChar := fun c => nameChar c || c == ':'
  match cs with
  | c :: _ =>
    if nameStart c || c == ':' then
      some (String.ofList (cs.takeWhile isNameChar), cs.dropWhile isNameChar)
    else none
  | [] => none

/-- The text behind an identifier of something outside, and whether there was one. -/
def skipExternalId? (cs : List Char) : Option (Bool × List Char) :=
  match afterWord? "SYSTEM".toList cs with
  | some rest => (readQuoted? (skipSpace rest)).map fun (_, rest) => (true, rest)
  | none =>
    match afterWord? "PUBLIC".toList cs with
    | some rest => do
      let (_, rest) ← readQuoted? (skipSpace rest)
      let (_, rest) ← readQuoted? (skipSpace rest)
      some (true, rest)
    | none => some (false, cs)

/-- The text behind the `>` that ends a declaration; quoted text may hold others. -/
def skipDeclaration? : (fuel : Nat) → List Char → Option (List Char)
  | 0, _ => none
  | _, [] => none
  | _, '>' :: cs => some cs
  | fuel + 1, c :: cs =>
    if c == '"' || c == '\'' then
      match splitAtWord? [c] cs with
      | some (_, rest) => skipDeclaration? fuel rest
      | none => none
    else skipDeclaration? fuel cs

/-- The value of an entity, with its character references expanded. -/
def entityValue? : (fuel : Nat) → List Char → Option (List Char)
  | _, [] => some []
  | 0, _ :: _ => none
  | fuel + 1, '&' :: '#' :: cs =>
    match readReference? ('#' :: cs) with
    | some (.code c, rest) => (entityValue? fuel rest).map (c :: ·)
    | _ => none
  | fuel + 1, c :: cs => (entityValue? fuel cs).map (c :: ·)

/-- An entity declaration behind `<!ENTITY`; only entities with a value of their own count. -/
def readEntity? (entities : Entities) (cs : List Char) : Option (Entities × List Char) := do
  let body := skipSpace cs
  if body.length == cs.length then none
  else if body.head? == some '%' then
    let rest ← skipDeclaration? (body.length + 1) body
    some (entities, rest)
  else
    let (name, rest) ← readName? body
    let rest := skipSpace rest
    match readQuoted? rest with
    | some (raw, rest) =>
      let value ← entityValue? (raw.length + 1) raw
      -- of several declarations of a name the first counts
      let known := entities.declared.any (·.1 == name)
      let entities := if known then entities
        else { entities with declared := entities.declared ++ [(name, value)] }
      match skipSpace rest with
      | '>' :: rest => some (entities, rest)
      | _ => none
    | none =>
      let rest ← skipDeclaration? (rest.length + 1) rest
      some ({ entities with declared := entities.declared ++ [(name, [])] }, rest)

/-- The declarations inside a document type, up to its closing bracket. -/
def readSubset? : (fuel : Nat) → Entities → List Char → Option (Entities × List Char)
  | 0, _, _ => none
  | fuel + 1, entities, cs =>
    match skipSpace cs with
    | ']' :: rest => some (entities, rest)
    | '%' :: rest => do
      let (_, rest) ← readName? rest
      match rest with
      | ';' :: rest => readSubset? fuel { entities with external := true } rest
      | _ => none
    | '<' :: '?' :: rest => do
      let (_, rest) ← readInstruction? rest
      readSubset? fuel entities rest
    | '<' :: '!' :: '-' :: '-' :: rest => do
      let (_, rest) ← readComment? rest
      readSubset? fuel entities rest
    | '<' :: '!' :: rest =>
      match afterWord? "ENTITY".toList rest with
      | some body => do
        let (entities, rest) ← readEntity? entities body
        readSubset? fuel entities rest
      | none => do
        let known := ["ELEMENT", "ATTLIST", "NOTATION"].any fun w =>
          (afterWord? w.toList rest).isSome
        if known then readSubset? fuel entities (← skipDeclaration? (rest.length + 1) rest)
        else none
    | _ => none

/-- A document type behind `<!DOCTYPE`. -/
def readDocumentType? (cs : List Char) : Option (Entities × List Char) := do
  let body := skipSpace cs
  if body.length == cs.length then none
  else
    let (_, rest) ← readColonName? body
    let (external, rest) ← skipExternalId? (skipSpace rest)
    let (entities, rest) ← match skipSpace rest with
      | '[' :: rest => readSubset? (rest.length + 1) { external } rest
      | rest => some ({ external }, rest)
    match skipSpace rest with
    | '>' :: rest => some (entities, rest)
    | _ => none

/-- One of the settings of an XML declaration, behind white space. -/
def readSetting? (name : String) (cs : List Char) : Option (List Char × List Char) := do
  let body := skipSpace cs
  if body.length == cs.length then none
  else
    let rest ← afterWord? name.toList body
    match skipSpace rest with
    | '=' :: rest => readQuoted? (skipSpace rest)
    | _ => none

/-- A version that documents may have. -/
def isVersion : List Char → Bool
  | '1' :: '.' :: ds => ds.all isAsciiDigit
  | _ => false

/-- How the bytes of a document are read: as they are, or each as one character. -/
inductive Encoding
  | utf8
  | ascii
  | latin
  deriving DecidableEq

/-- The encoding of a name. -/
def encoding? (name : List Char) : Option Encoding :=
  let word := String.ofList (name.map fun c => if 'A' ≤ c && c ≤ 'Z' then
    Char.ofNat (c.toNat + 32) else c)
  if ["utf-8", "utf8"].contains word then some .utf8
  else if ["ascii", "us-ascii"].contains word then some .ascii
  else if ["iso-8859-1", "iso_8859-1", "latin1", "iso-latin-1", "windows-1252", "cp1252"].contains
    word then some .latin
  else none

/-- The settings of an XML declaration behind `<?xml`, and the text behind it. -/
def readDeclaration? (cs : List Char) : Option (Encoding × List Char) := do
  let (version, rest) ← readSetting? "version" cs
  let (encoding, rest) ← match readSetting? "encoding" rest with
    | some (name, rest) => (encoding? name).map (·, rest)
    | none => some (.utf8, rest)
  let rest ← match readSetting? "standalone" rest with
    | some (word, rest) =>
      if word == "yes".toList || word == "no".toList then some rest else none
    | none => some rest
  let rest ← afterWord? ['?', '>'] (skipSpace rest)
  if isVersion version then some (encoding, rest) else none

/-- The text as its encoding has it, which shows only in characters outside ASCII. -/
def decodeAs? (encoding : Encoding) (cs : List Char) : Option (List Char) :=
  if cs.all (·.toNat < 0x80) then some cs
  else match encoding with
    | .utf8 => some cs
    | .ascii => none
    | .latin => some ((String.ofList cs).toUTF8.toList.map fun b => Char.ofNat b.toNat)

/-- The text behind the XML declaration, if there is one. -/
def readProlog? (cs : List Char) : Option (List Char) :=
  match afterWord? "<?xml".toList cs with
  | some (c :: rest) =>
    if isSpace c then do
      let (encoding, rest) ← readDeclaration? (c :: rest)
      decodeAs? encoding rest
    else some cs
  | _ => some cs

/-- The document type, if there is one, with the comments and instructions behind it. -/
def readTypeAndMisc? (cs : List Char) : Option (Entities × List Node × List Char) :=
  match afterWord? "<!DOCTYPE".toList cs with
  | some body => do
    let (entities, rest) ← readDocumentType? body
    let (nodes, rest) ← readMisc? (rest.length + 1) rest
    some (entities, nodes, rest)
  | none => some ({}, [], cs)

/-- The document of a text without a byte order mark. -/
def readChars? (text : List Char) : Option Document := do
  let cs ← readProlog? (unifyLineEnds text)
  if !cs.all isXmlChar then none
  else
    let (first, rest) ← readMisc? (cs.length + 1) cs
    let (entities, second, rest) ← readTypeAndMisc? rest
    match rest with
    | '<' :: body =>
      let (root, building, rest) ← readRoot? entities body
      let (after, rest) ← readMisc? (rest.length + 1) rest
      -- what stands behind the root is part of the tree only if the tree was built to its end
      let last := if building then after else []
      if !rest.isEmpty || !root.kept then none
      else some ⟨first ++ second, root.name, root.attributes, root.children.reverse, last⟩
    | _ => none

/-- The document of a text, if it is well formed. -/
def Document.read? (s : String) : Option Document :=
  match s.toList with
  | c :: cs => if c.toNat == 0xFEFF then readChars? cs else readChars? (c :: cs)
  | [] => none

end Runbook.Xml
