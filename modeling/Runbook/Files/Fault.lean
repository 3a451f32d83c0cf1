import Runbook.Text.Quoted

/-!
# Faults of files

What can go wrong when a file is opened, and when its bytes are read as text.
-/

namespace Runbook

open Runbook.Text

/-- Why a file cannot be opened. -/
inductive FileFault
  | notFound
  | notDirectory
  | isDirectory
  | nameTooLong
  deriving DecidableEq, Repr

/-- The number and the words of the operating system for a fault. -/
def FileFault.reason : FileFault → Nat × String
  | .notFound => (2, "No such file or directory")
  | .notDirectory => (20, "Not a directory")
  | .isDirectory => (21, "Is a directory")
  | .nameTooLong => (36, "File name too long")

/-- What to say about a fault of the file at a path. -/
def FileFault.message (f : FileFault) (path : String) : String :=
  "[Errno " ++ natText f.reason.1 ++ "] " ++ f.reason.2 ++ ": " ++ quote path

/-- Why bytes are no UTF-8. -/
inductive Utf8Problem
  | start
  | continuation
  | ended
  deriving DecidableEq, Repr

/-- A fault of UTF-8: the bytes from `first`, so many of them, the first of which is `byte`. -/
structure Utf8Fault where
  problem : Utf8Problem
  byte : UInt8
  first : Nat
  count : Nat
  deriving DecidableEq, Repr

/-- What to say about a fault of UTF-8. -/
def Utf8Fault.message (f : Utf8Fault) : String :=
  let which :=
    if f.count ≤ 1 then
      "byte 0x" ++ String.ofList (hexDigits 2 f.byte.toNat) ++ " in position " ++ natText f.first
    else "bytes in position " ++ natText f.first ++ "-" ++ natText (f.first + f.count - 1)
  let reason := match f.problem with
    | .start => "invalid start byte"
    | .continuation => "invalid continuation byte"
    | .ended => "unexpected end of data"
  "'utf-8' codec can't decode " ++ which ++ ": " ++ reason

end Runbook
