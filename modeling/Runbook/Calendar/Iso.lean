import Runbook.Calendar.Basic

/-!
# Reading ISO 8601

Dates and times in the basic and the extended form, dates also by week and weekday, times with
fractions of any length (cut to six digits), `Z` or an offset.

* `Date.readIso`: `2024-05-01`, `20240501`, `2024-W18`, `2024W183` and so on.
* `DateTime.readIso`: a date, and a time behind one separating character of any kind.

A fault is either of form (`none`) or of range (`some fault`).
-/

namespace Runbook

open Runbook.Text

/-- Why a text is no ISO date or time. -/
inductive IsoFault
  | form
  | range (fault : CalendarFault)
  | offset (total : Int)
  deriving DecidableEq, Repr

namespace Iso

/-- Exactly so many digits, and the text behind them. -/
def digits? (count : Nat) (cs : List Char) : Option (Nat × List Char) :=
  let ds := cs.take count
  if ds.length == count && ds.all isAsciiDigit then some (natOfDigits ds, cs.drop count) else none

/-- Passes over a hyphen, if the form has hyphens. -/
def hyphen? (expected : Bool) (cs : List Char) : Option (List Char) :=
  if expected then
    match cs with
    | '-' :: rest => some rest
    | _ => none
  else some cs

/-- Year, month and day of a weekday of a numbered week; the year zero has no months. -/
def ofWeek? (year week day : Nat) : Option (Nat × Nat × Nat) :=
  let first := Date.toOrdinal year 1 1
  let weekday := (first + 6) % 7
  -- a year that begins on a Thursday, or a leap year on a Wednesday, has one week more
  let lastWeek := if weekday == 3 || (weekday == 2 && Date.isLeap year) then 53 else 52
  if week < 1 || lastWeek < week || day < 1 || 7 < day then none
  else if year = 0 then some (1, 0, 0)
  else
    let monday : Int := (first : Int) - weekday + (if 3 < weekday then 7 else 0)
    let ordinal := monday + ((week : Int) - 1) * 7 + day - 1
    some (Date.ofOrdinal year ordinal.toNat)

/-- Year, month and day at the start of a text, of which the date takes `length` characters. -/
def dateParts? (length : Nat) (text : List Char) : Option (Nat × Nat × Nat) := do
  let (year, rest) ← digits? 4 text
  let (hyphens, rest) := match rest with
    | '-' :: rest => (true, rest)
    | rest => (false, rest)
  match rest with
  | 'W' :: rest =>
    let (week, rest) ← digits? 2 rest
    if text.length - rest.length < length then
      let rest ← hyphen? hyphens rest
      let (day, _) ← digits? 1 rest
      ofWeek? year week day
    else ofWeek? year week 1
  | rest =>
    let (month, rest) ← digits? 2 rest
    let rest ← hyphen? hyphens rest
    let (day, _) ← digits? 2 rest
    some (year, month, day)

/-- The digits behind a point, cut to six, and the text behind all digits. -/
def fraction? (cs : List Char) : Option (Nat × List Char) :=
  let count := min 6 cs.length
  match digits? count cs with
  | some (n, rest) => some (n * Nat.pow 10 (6 - count), rest.dropWhile isAsciiDigit)
  | none => none

/-- Whether a text is over: it is empty, or a NUL stands next. -/
def isOver : List Char → Bool
  | [] => true
  | c :: _ => c == '\x00'

/-- Hours, minutes, seconds and microseconds of a clock reading, and whether no text is left. -/
structure Clock where
  hour : Nat := 0
  minute : Nat := 0
  second : Nat := 0
  microsecond : Nat := 0
  ended : Bool := true

/-- Sets the `i`-th part of a clock reading. -/
def Clock.set (c : Clock) (i n : Nat) : Clock :=
  match i with
  | 0 => { c with hour := n }
  | 1 => { c with minute := n }
  | _ => { c with second := n }

/-- Reads the fraction of a clock reading. `behind` is the text behind the clock reading: digits
there are passed over too. -/
def clockFraction? (c : Clock) (cs behind : List Char) : Option Clock :=
  match fraction? cs with
  | some (us, rest) =>
    let left := if rest.isEmpty then behind.dropWhile isAsciiDigit else rest
    some { c with microsecond := us, ended := isOver left }
  | none => none

/-- Reads hours, then minutes, then seconds, with colons between all or none of them. One character
of ASCII may be left behind them, which an offset hides. -/
def clockFrom? (behind : List Char) :
    (parts : Nat) → (i : Nat) → (colons : Bool) → Clock → List Char → Option Clock
  | 0, _, _, c, cs => clockFraction? c cs behind
  | parts + 1, i, colons, c, cs => do
    let (n, rest) ← digits? 2 cs
    let c := c.set i n
    let colons := if i == 0 then rest.head? == some ':' else colons
    match rest with
    | [] => some { c with ended := isOver behind }
    | [mark] => if mark.toNat < 0x80 then some { c with ended := isOver rest } else none
    | mark :: more =>
      if colons && mark == ':' then
        if parts = 0 then clockFraction? c more behind
        else clockFrom? behind parts (i + 1) colons c more
      else if mark == '.' || mark == ',' then clockFraction? c more behind
      else if colons then none
      else if parts = 0 then clockFraction? c (mark :: more) behind
      else clockFrom? behind parts (i + 1) colons c (mark :: more)

/-- Reads a clock reading. -/
def clock? (cs behind : List Char) : Option Clock :=
  clockFrom? behind 3 0 true {} cs

/-- Reads a time with its offset. Fractions of an offset count only behind whole seconds. -/
def time? (cs : List Char) : Option (Clock × Option Offset) := do
  let isMark := fun c => c == '+' || c == '-' || c == 'Z'
  let front := cs.takeWhile (!isMark ·)
  let behind := cs.dropWhile (!isMark ·)
  let clock ← clock? front behind
  match behind with
  | [] => if clock.ended then some (clock, none) else none
  | 'Z' :: rest => if isOver rest then some (clock, some ⟨0, 0⟩) else none
  | mark :: rest =>
    let o ← clock? rest []
    if o.ended then
      let sign : Int := if mark == '-' then -1 else 1
      let seconds : Int := o.hour * 3600 + o.minute * 60 + o.second
      let microseconds : Int := if seconds = 0 then 0 else o.microsecond
      some (clock, some ⟨sign * seconds, sign * microseconds⟩)
    else none

/-- Where the date ends in a text that goes on with a time. -/
def dateLength (cs : List Char) : Nat :=
  let digitAt := fun i => match cs[i]? with
    | some c => isAsciiDigit c
    | none => false
  if cs.length == 7 then 7
  else if cs[4]? == some '-' then
    if cs[5]? == some 'W' then
      if 8 < cs.length && cs[8]? == some '-' then
        -- behind the hyphen stands a weekday, or an hour of two digits that it separates
        if cs.length == 9 then 0 else if 10 < cs.length && digitAt 10 then 8 else 10
      else 8
    else 10
  else if cs[4]? == some 'W' then
    let pos := 7 + ((cs.drop 7).takeWhile isAsciiDigit).length
    -- the separator may be a digit too; the digits of the clock come in pairs
    if pos < 9 then pos else if pos % 2 == 0 then 7 else 8
  else 8

/-- A checked date. -/
def makeDate (parts : Nat × Nat × Nat) : Except IsoFault Date :=
  match Date.make parts.1 parts.2.1 parts.2.2 with
  | .ok d => .ok d
  | .error e => .error (.range e)

/-- A checked time. -/
def makeTime (clock : Clock) (offset : Option Offset) : Except IsoFault TimeOfDay :=
  match TimeOfDay.make clock.hour clock.minute clock.second clock.microsecond offset with
  | .ok t => .ok t
  | .error e => .error (.range e)

/-- An offset shorter than a day. -/
def makeOffset : Option Offset → Except IsoFault (Option Offset)
  | some o => if o.inRange then .ok (some o) else .error (.offset o.total)
  | none => .ok none

end Iso

open Iso

/-- Reads an ISO date. -/
def Date.readIso (s : String) : Except IsoFault Date :=
  let n := s.utf8ByteSize
  if n == 7 || n == 8 || n == 10 then
    match dateParts? n s.toList with
    | some parts => makeDate parts
    | none => .error .form
  else .error .form

/-- Reads an ISO time. -/
def TimeOfDay.readIso (s : String) : Except IsoFault TimeOfDay :=
  let cs := match s.toList with
    | 'T' :: rest => rest
    | cs => cs
  match time? cs with
  | some (clock, offset) => do makeTime clock (← makeOffset offset)
  | none => .error .form

/-- Reads an ISO date with or without a time. -/
def DateTime.readIso (s : String) : Except IsoFault DateTime :=
  let cs := s.toList
  let n := dateLength cs
  if s.utf8ByteSize < 7 then .error .form
  else match dateParts? n cs with
    | none => .error .form
    | some parts =>
      match (if n < cs.length then time? (cs.drop (n + 1)) else some ({}, none)) with
      | none => .error .form
      | some (clock, offset) => do
        let offset ← makeOffset offset
        return ⟨← makeDate parts, ← makeTime clock offset⟩

end Runbook
