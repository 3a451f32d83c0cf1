import Runbook.Files.Tree
import Runbook.Number.Binary64

/-!
# Text in blocks

The bytes of an open file become text block by block, as far as text is asked for. A block with a
fault in it gives no text at all; that of the blocks in front of it has been read by then.

* `Blocks.size`: the number of bytes of the next block.
* `Blocks.take`: the text of one block.
* `Blocks.read`: the text of a file, and the fault that it ends in if there is one.
-/

namespace Runbook

/-- Where a reader of blocks stands: the first bytes of a character that goes on in the next block,
a carriage return that a line feed may follow, the numbers of bytes and of characters of the last
block, and how many characters are still waited for. -/
structure Blocks where
  pending : List UInt8
  held : List Char
  bytes : Nat
  chars : Nat
  wanted : Nat

namespace Blocks

/-- The reader at the start of a file, of which so many characters are asked for at a time, or none
in particular. -/
def start (request : Nat) : Blocks := ⟨[], [], 0, 0, request⟩

/-- The least number of bytes of a block. -/
def leastSize : Nat := 8192

/-- The number of bytes of the next block: enough for the characters that are waited for, if each
takes up as many bytes as in the last block, and one at least. -/
def size (b : Blocks) : Nat :=
  let scaled := ((Binary64.ofInt b.bytes).div (.ofInt b.chars)).mul (.ofInt b.wanted)
  let enough :=
    if b.chars = 0 || b.bytes ≤ b.chars then b.wanted else (scaled.truncate?.getD 0).toNat
  max leastSize enough

/-- Characters without the carriage return at their end, and that. -/
def splitReturn (cs : List Char) : List Char × List Char :=
  if cs.getLast? = some '\r' then (cs.dropLast, ['\r']) else (cs, [])

/-- How many characters are waited for behind a text, when so many are asked for at a time. -/
def wantedBehind (b : Blocks) (request : Nat) (text : List Char) : Nat :=
  if text.length < b.wanted then b.wanted - text.length
  else request - (text.length - b.wanted) % request

/-- The text of a block, and where the reader stands behind it. -/
def take (b : Blocks) (request : Nat) (block : List UInt8) :
    Except Utf8Fault (List Char × Blocks) :=
  let data := b.pending ++ block
  let d := Utf8.decode data
  let (front, held) := splitReturn (b.held ++ d.chars)
  let text := unifyLines front
  let behind := fun (pending : List UInt8) =>
    (text, ⟨pending, held, block.length, text.length, b.wantedBehind request text⟩)
  match d.fault with
  | none => .ok (behind [])
  | some f =>
    -- what may go on in the next block is no fault yet
    if f.problem = .ended then .ok (behind (data.drop f.first)) else .error f

/-- The text of bytes from where a reader stands. Each block takes a byte at least. -/
def readFrom (request : Nat) : (fuel : Nat) → Blocks → List UInt8 → Utf8.Decoded
  | 0, _, _ => ⟨[], none⟩
  | _ + 1, b, [] =>
    let d := Utf8.decode b.pending
    match d.fault with
    | none => ⟨unifyLines (b.held ++ d.chars), none⟩
    | some f => ⟨[], some f⟩
  | fuel + 1, b, byte :: bytes =>
    let bs := byte :: bytes
    match b.take request (bs.take b.size) with
    | .error f => ⟨[], some f⟩
    | .ok (text, behind) =>
      let d := readFrom request fuel behind (bs.drop b.size)
      ⟨text ++ d.chars, d.fault⟩

/-- **The text of a file** of which so many characters are asked for at a time, or a line. -/
def read (request : Nat) (bs : List UInt8) : Utf8.Decoded :=
  readFrom request (bs.length + 1) (start request) bs

end Blocks

end Runbook
