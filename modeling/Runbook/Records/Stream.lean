import Runbook.Files.Blocks
import Runbook.Json.Reader

/-!
# A stream of JSON values

Consecutive JSON values from a text that is read in chunks. What has been read and not yet given
up is the buffer, and `ahead` is the end of it that is still to come. Places in errors count from
the start of the buffer.

* `Stream.fill`: reads a chunk and gives up what has been passed over.
* `Stream.peek`: passes over blanks to the next character.
* `Stream.decode`: the next value. A value that ends with the buffer may go on in the next chunk,
  and a fault may be mended by it, so both are tried again with more text.
-/

namespace Runbook.Records

open Runbook.Text

/-- A text still to be read, and the fault of the bytes behind it if there is one. -/
structure Source where
  unread : List Char
  fault : Option Utf8Fault

namespace Source

/-- The text of a file's content, of which so many characters are asked for at a time, or a line. -/
def ofContent (request : Nat) : FileContent → Source
  | .text cs => ⟨unifyLines cs, none⟩
  | .bytes bs =>
    let d := Blocks.read request bs
    ⟨d.chars, d.fault⟩

/-- Reads so many characters, or as many as are left. A fault comes up when there are too few in
front of it. -/
def read (s : Source) (count : Nat) : Except Error (List Char × Source) :=
  match s.fault with
  | none => .ok (s.unread.take count, { s with unread := s.unread.drop count })
  | some f =>
    if s.unread.length < count then .error (.encoding f)
    else .ok (s.unread.take count, { s with unread := s.unread.drop count })

/-- Reads a line with its line feed; nothing at the end. A fault comes up when no line feed is in
front of it. -/
def readLine (s : Source) : Except Error (List Char × Source) :=
  let line := s.unread.takeWhile (· != '\n')
  match s.unread.drop line.length, s.fault with
  | '\n' :: rest, _ => .ok (line ++ ['\n'], { s with unread := rest })
  | rest, none => .ok (line, { s with unread := rest })
  | _, some f => .error (.encoding f)

end Source

/-- A stream of JSON values. -/
structure Stream where
  name : String
  chunk : Nat
  buffer : List Char
  ahead : List Char
  source : Source

namespace Stream

/-- A stream at the start of a text. -/
def ofSource (name : String) (chunk : Nat) (source : Source) : Stream :=
  ⟨name, chunk, [], [], source⟩

/-- The number of characters still to come. -/
def left (s : Stream) : Nat := s.ahead.length + s.source.unread.length

/-- Reads a chunk behind what lies ahead; nothing is left to read at the end. -/
def fill (s : Stream) : Except Error (Option Stream) :=
  match s.source.read s.chunk with
  | .error e => .error e
  | .ok ([], _) => .ok none
  | .ok (cs, source) =>
    .ok (some { s with buffer := s.ahead ++ cs, ahead := s.ahead ++ cs, source := source })

/-- Passes over the blanks of the buffer. -/
def skipBlanks (s : Stream) : Stream :=
  { s with ahead := s.ahead.dropWhile isBlank }

/-- Passes over blanks, reading chunks where the buffer ends. -/
def peekWith : (fuel : Nat) → Stream → Except Error Stream
  | 0, s => .ok s.skipBlanks
  | fuel + 1, s =>
    let s := s.skipBlanks
    match s.ahead with
    | _ :: _ => .ok s
    | [] =>
      match s.fill with
      | .error e => .error e
      | .ok none => .ok s
      | .ok (some t) => peekWith fuel t

/-- The next character that is no blank, and the stream before it. -/
def peek (s : Stream) : Except Error (Option Char × Stream) :=
  match peekWith (s.source.unread.length + 1) s with
  | .error e => .error e
  | .ok s => .ok (s.ahead.head?, s)

/-- Passes over one character of the buffer. -/
def advance (s : Stream) : Stream :=
  { s with ahead := s.ahead.drop 1 }

/-- The error of a fault in the buffer. -/
def faultError (s : Stream) : Json.ReadFault → Error
  | .problem p rest => .value (.jsonStream s.name (Json.locate p s.buffer rest))
  | .tooManyDigits count => .value (.integerTooLong (some count))

/-- The stream behind a value, where `rest` is left of the buffer. -/
def passTo (s : Stream) (rest : List Char) : Stream :=
  { s with ahead := rest }

/-- Decodes a value from the buffer, reading chunks until it is complete. -/
def decodeWith : (fuel : Nat) → Stream → Except Error (Value × Stream)
  | 0, s =>
    match Json.readValue s.ahead with
    | .ok (v, rest) => .ok (v, s.passTo rest)
    | .error e => .error (s.faultError e)
  | fuel + 1, s =>
    match Json.readValue s.ahead with
    | .ok (v, rest) =>
      match rest with
      | _ :: _ => .ok (v, s.passTo rest)
      | [] =>
        match s.fill with
        | .error e => .error e
        | .ok none => .ok (v, s.passTo rest)
        | .ok (some t) => decodeWith fuel t
    -- this fault is not taken for a value that goes on
    | .error (.tooManyDigits count) => .error (s.faultError (.tooManyDigits count))
    | .error e =>
      match s.fill with
      | .error e => .error e
      | .ok none => .error (s.faultError e)
      | .ok (some t) => decodeWith fuel t

/-- The next value and the stream behind it. -/
def decode (s : Stream) : Except Error (Value × Stream) :=
  match s.peek with
  | .error e => .error e
  | .ok (_, s) => decodeWith (s.source.unread.length + 1) s

end Stream

end Runbook.Records
