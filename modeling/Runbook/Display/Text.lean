import Runbook.Json.Printer

/-!
# Short texts for display

* `preview`: the text of a value on one line, cut to a length.
* `durationText`: a length of time in seconds, in minutes and seconds from one minute on, and in
  hours and minutes from one hour on.
-/

namespace Runbook.Display

open Runbook.Text

/-- The characters up to an end that is counted from the back if it is negative. -/
def takeTo (cs : List Char) (stop : Int) : List Char :=
  cs.take (if stop < 0 then stop + cs.length else stop).toNat

/-- A text on one line, cut to a length by three points. -/
def shorten (limit : Int) (s : String) : String :=
  let cs := s.toList.map fun c => if c == '\n' then ' ' else c
  if limit < cs.length then String.ofList (takeTo cs (limit - 3) ++ ['.', '.', '.'])
  else String.ofList cs

/-- The text of a value on one line, cut to a length. -/
def preview (limit : Int) (v : Value) : Except Error String :=
  v.stringify.map (shorten limit)

/-- An integer in at least two digits. -/
def twoDigits (n : Int) : String :=
  if n < 0 then intText n else paddedNat 2 n.toNat

/-- The text of whole hours and minutes, or of whole minutes and seconds. -/
def clockText (large small : Int) (largeUnit smallUnit : String) : String :=
  intText large ++ largeUnit ++ " " ++ twoDigits small ++ smallUnit

/-- The text of a whole number of seconds. -/
def integerDuration (n : Int) : String :=
  if n < 60 then (Binary64.ofInt n).fixedText 1 ++ "s"
  else if n < 3600 then clockText (n.fdiv 60) (n.fmod 60) "m" "s"
  else clockText (n.fdiv 3600) ((n.fmod 3600).fdiv 60) "h" "m"

/-- A number of hours or minutes, cut to an integer. -/
def wholeUnits (x : Binary64) : Except Error Int :=
  match x, x.truncate? with
  | _, some n => .ok n
  | .nan, _ => .error (.value (.nanToInteger "float NaN"))
  | _, _ => .error (.overflow "cannot convert float infinity to integer")

/-- The text of a number of seconds. -/
def floatDuration (x : Binary64) : Except Error String :=
  let sixty := Binary64.ofInt 60
  let hour := Binary64.ofInt 3600
  if x.less sixty then .ok (x.fixedText 1 ++ "s")
  else if x.less hour then do
    return clockText (← wholeUnits (x.floorDiv sixty)) (← wholeUnits (x.floorMod sixty)) "m" "s"
  else do
    let hours ← wholeUnits (x.floorDiv hour)
    return clockText hours (← wholeUnits ((x.floorMod hour).floorDiv sixty)) "h" "m"

/-- The text of a length of time in seconds. -/
def durationText (v : Value) : Except Error String :=
  match v with
  | .bool b => .ok (integerDuration (if b then 1 else 0))
  | .int n => .ok (integerDuration n)
  | .float x => floatDuration x
  | v => .error (.kind (.notOrdered "<" v.typeName "int"))

end Runbook.Display
