import Runbook.Files.Fault

/-!
# UTF-8

Bytes as text. Decoding stops at the first fault and keeps the text before it.

* `Utf8.decode`: the characters of bytes, with the fault they end in if there is one.
-/

namespace Runbook.Utf8

/-- Decoded text, and the fault behind it. -/
structure Decoded where
  chars : List Char
  fault : Option Utf8Fault

/-- A character in front of decoded text. -/
def Decoded.cons (c : Char) (d : Decoded) : Decoded := { d with chars := c :: d.chars }

/-- A byte that continues a character. -/
def isTail (b : UInt8) : Bool := 0x80 ≤ b.toNat && b.toNat < 0xC0

/-- The second bytes that may follow a first one: shortest forms only, and no surrogates. -/
def secondRange (first : Nat) : Nat × Nat :=
  if first = 0xE0 then (0xA0, 0xBF)
  else if first = 0xED then (0x80, 0x9F)
  else if first = 0xF0 then (0x90, 0xBF)
  else if first = 0xF4 then (0x80, 0x8F)
  else (0x80, 0xBF)

/-- The number of bytes behind a first byte, if it can begin a character. -/
def tailCount? (first : Nat) : Option Nat :=
  if first < 0x80 then some 0
  else if 0xC2 ≤ first && first < 0xE0 then some 1
  else if 0xE0 ≤ first && first < 0xF0 then some 2
  else if 0xF0 ≤ first && first < 0xF5 then some 3
  else none

/-- How many bytes behind a first one belong to its character. -/
def validTail (first count : Nat) (rest : List UInt8) : Nat :=
  let range := secondRange first
  match rest with
  | b :: more =>
    if range.1 ≤ b.toNat && b.toNat ≤ range.2 then
      1 + ((more.take (count - 1)).takeWhile isTail).length
    else 0
  | [] => 0

/-- The code point of a first byte and the bytes behind it. -/
def codePoint (first : Nat) (tail : List UInt8) : Nat :=
  let lead := if first < 0xE0 then first % 32 else if first < 0xF0 then first % 16 else first % 8
  tail.foldl (fun n b => 64 * n + b.toNat % 64) lead

/-- Decodes bytes from a position on. Each step takes a byte at least. -/
def decodeFrom : (fuel : Nat) → (position : Nat) → List UInt8 → Decoded
  | 0, _, _ => ⟨[], none⟩
  | _ + 1, _, [] => ⟨[], none⟩
  | fuel + 1, position, b :: rest =>
    let first := b.toNat
    match tailCount? first with
    | none => ⟨[], some ⟨.start, b, position, 1⟩⟩
    | some 0 => (decodeFrom fuel (position + 1) rest).cons (Char.ofNat first)
    | some count =>
      let valid := validTail first count rest
      if valid = count then
        (decodeFrom fuel (position + count + 1) (rest.drop count)).cons
          (Char.ofNat (codePoint first (rest.take count)))
      else if valid = rest.length then ⟨[], some ⟨.ended, b, position, valid + 1⟩⟩
      else ⟨[], some ⟨.continuation, b, position, valid + 1⟩⟩

/-- The text of bytes. -/
def decode (bs : List UInt8) : Decoded :=
  decodeFrom bs.length 0 bs

end Runbook.Utf8
