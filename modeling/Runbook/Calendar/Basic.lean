import Runbook.Text.Digit

/-!
# Dates and times

Calendar dates, times of day and their combination, in the proleptic Gregorian calendar, with
their ISO text.

* `Date.make`, `TimeOfDay.make`: the checked constructors; their faults say which part is out of
  range.
* `DateTime.text`: date and time joined by a given character.
-/

namespace Runbook

open Runbook.Text

/-- Why numbers make no date or time. -/
inductive CalendarFault
  | year (given : Nat)
  | month
  | day
  | hour
  | minute
  | second
  deriving DecidableEq, Repr

/-- What to say about a calendar fault. -/
def CalendarFault.message : CalendarFault → String
  | .year n => "year " ++ natText n ++ " is out of range"
  | .month => "month must be in 1..12"
  | .day => "day is out of range for month"
  | .hour => "hour must be in 0..23"
  | .minute => "minute must be in 0..59"
  | .second => "second must be in 0..59"

/-- A calendar date. -/
structure Date where
  year : Nat
  month : Nat
  day : Nat
  deriving DecidableEq, Repr

namespace Date

/-- Whether a year has a 29th of February. -/
def isLeap (year : Nat) : Bool :=
  year % 4 == 0 && (year % 100 != 0 || year % 400 == 0)

/-- The number of days of a month. -/
def daysInMonth (year month : Nat) : Nat :=
  if month == 2 then (if isLeap year then 29 else 28)
  else if month == 4 || month == 6 || month == 9 || month == 11 then 30 else 31

/-- A date from its parts, checked in the order year, month, day. -/
def make (year month day : Nat) : Except CalendarFault Date :=
  if year < 1 || 9999 < year then .error (.year year)
  else if month < 1 || 12 < month then .error .month
  else if day < 1 || daysInMonth year month < day then .error .day
  else .ok ⟨year, month, day⟩

/-- The ISO text of a date. -/
def text (d : Date) : String :=
  paddedNat 4 d.year ++ "-" ++ paddedNat 2 d.month ++ "-" ++ paddedNat 2 d.day

/-- The number of days before a year begins, counted from the first of January of year one. -/
def daysBeforeYear (year : Nat) : Nat :=
  let y := year - 1
  y * 365 + y / 4 - y / 100 + y / 400

/-- The number of days of a year before a month begins. -/
def daysBeforeMonth (year month : Nat) : Nat :=
  (List.range (month - 1)).foldl (fun days m => days + daysInMonth year (m + 1)) 0

/-- The number of a day, one for the first of January of year one. -/
def toOrdinal (year month day : Nat) : Nat :=
  daysBeforeYear year + daysBeforeMonth year month + day

/-- The month and day of the `n`-th day of a year, from a month on. -/
def monthAndDay (year : Nat) : (fuel month n : Nat) → Nat × Nat
  | 0, month, n => (month, n)
  | fuel + 1, month, n =>
    let days := daysInMonth year month
    if n ≤ days then (month, n) else monthAndDay year fuel (month + 1) (n - days)

/-- Year, month and day of a day number near the given year. -/
def ofOrdinal (near ordinal : Nat) : Nat × Nat × Nat :=
  let year :=
    if ordinal ≤ daysBeforeYear near then near - 1
    else if daysBeforeYear (near + 1) < ordinal then near + 1 else near
  let (month, day) := monthAndDay year 12 1 (ordinal - daysBeforeYear year)
  (year, month, day)

end Date

/-- A distance from universal time. -/
structure Offset where
  seconds : Int
  microseconds : Int
  deriving DecidableEq, Repr

namespace Offset

/-- The whole distance in microseconds. -/
def total (o : Offset) : Int := o.seconds * 1000000 + o.microseconds

/-- The ISO text of an offset: hours and minutes, and seconds if there are any. -/
def text (o : Offset) : String :=
  let n := o.total.natAbs
  let (s, us) := (n / 1000000, n % 1000000)
  let sign := if o.total < 0 then "-" else "+"
  sign ++ paddedNat 2 (s / 3600) ++ ":" ++ paddedNat 2 (s / 60 % 60) ++
    (if s % 60 != 0 || us != 0 then ":" ++ paddedNat 2 (s % 60) else "") ++
    (if us != 0 then "." ++ paddedNat 6 us else "")

/-- Offsets are shorter than a day. -/
def inRange (o : Offset) : Bool :=
  o.total.natAbs < 86400000000

end Offset

/-- A time of day, with an offset from universal time if it has one. -/
structure TimeOfDay where
  hour : Nat
  minute : Nat
  second : Nat
  microsecond : Nat
  offset : Option Offset
  deriving DecidableEq, Repr

namespace TimeOfDay

/-- A time from its parts, checked in the order hour, minute, second. -/
def make (hour minute second microsecond : Nat) (offset : Option Offset) :
    Except CalendarFault TimeOfDay :=
  if 23 < hour then .error .hour
  else if 59 < minute then .error .minute
  else if 59 < second then .error .second
  else .ok ⟨hour, minute, second, microsecond, offset⟩

/-- The ISO text of a time. -/
def text (t : TimeOfDay) : String :=
  paddedNat 2 t.hour ++ ":" ++ paddedNat 2 t.minute ++ ":" ++ paddedNat 2 t.second ++
    (if t.microsecond != 0 then "." ++ paddedNat 6 t.microsecond else "") ++
    (match t.offset with
      | some o => o.text
      | none => "")

end TimeOfDay

/-- A date with a time of day. -/
structure DateTime where
  date : Date
  time : TimeOfDay
  deriving DecidableEq, Repr

/-- The text of a date and its time with a separator between them. -/
def DateTime.text (separator : String) (d : DateTime) : String :=
  d.date.text ++ separator ++ d.time.text

end Runbook
