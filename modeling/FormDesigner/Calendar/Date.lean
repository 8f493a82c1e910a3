/-!
# Dates and moments

Dates of the proleptic Gregorian calendar from year 1 to year 9999, and moments: a date with a time
of day and, optionally, an offset from universal time.
-/

namespace FormDesigner

structure Date where
  year : Nat
  month : Nat
  day : Nat
deriving DecidableEq, Repr, Inhabited

/-- A date with a time of day. The offset from universal time is counted in microseconds. -/
structure Moment where
  date : Date
  hour : Nat
  minute : Nat
  second : Nat
  microsecond : Nat
  offset : Option Int
deriving DecidableEq, Repr, Inhabited

namespace Date

def isLeapYear (year : Nat) : Bool :=
  year % 4 == 0 && (year % 100 != 0 || year % 400 == 0)

def daysInMonth (year month : Nat) : Nat :=
  if month = 2 then (if isLeapYear year then 29 else 28)
  else if month = 4 || month = 6 || month = 9 || month = 11 then 30
  else 31

/-- Whether the three numbers name a day of the calendar. -/
def isValid (d : Date) : Bool :=
  1 ≤ d.year && d.year ≤ 9999 && 1 ≤ d.month && d.month ≤ 12
    && 1 ≤ d.day && d.day ≤ daysInMonth d.year d.month

def ofParts? (year month day : Nat) : Option Date :=
  let d : Date := ⟨year, month, day⟩
  if d.isValid then some d else none

def daysBeforeYear (year : Nat) : Nat :=
  let y := year - 1
  y * 365 + y / 4 - y / 100 + y / 400

def daysBeforeMonth (year month : Nat) : Nat :=
  (List.range (month - 1)).foldl (fun days m => days + daysInMonth year (m + 1)) 0

/-- The number of the day, counting the first day of year 1 as day 1. -/
def ordinal (d : Date) : Nat :=
  daysBeforeYear d.year + daysBeforeMonth d.year d.month + d.day

/-- The month and day that lie `rest` days after the start of a month. -/
def dayInYear (year : Nat) (rest : Nat) : List Nat → Date
  | [] => ⟨year, 12, 31⟩
  | month :: months =>
    let size := daysInMonth year month
    if rest < size then ⟨year, month, rest + 1⟩ else dayInYear year (rest - size) months

/-- The date of a day number; `none` outside the calendar. -/
def ofOrdinal? (n : Nat) : Option Date :=
  if n = 0 then none
  else
    let guess := n / 366
    let year := (List.range (guess / 1400 + 3)).foldl
      (fun y _ => if daysBeforeYear (y + 1) < n then y + 1 else y) (guess + 1)
    let year := (List.range 30).foldl
      (fun y _ => if daysBeforeYear (y + 1) < n then y + 1 else y) year
    let d := dayInYear year (n - daysBeforeYear year - 1) ((List.range 12).map (· + 1))
    if d.isValid then some d else none

/-- The day of the week, with Monday as 0. -/
def weekday (d : Date) : Nat := (d.ordinal + 6) % 7

/-- Digits padded with zeros on the left. -/
def padded (width n : Nat) : String :=
  let digits := toString n
  String.ofList (List.replicate (width - digits.length) '0') ++ digits

def isoText (d : Date) : String :=
  padded 4 d.year ++ "-" ++ padded 2 d.month ++ "-" ++ padded 2 d.day

end Date

namespace Moment

def ofDate (d : Date) : Moment := ⟨d, 0, 0, 0, 0, none⟩

/-- An offset as hours and minutes, with seconds and microseconds only where they are not zero. -/
def offsetText (offset : Int) : String :=
  let n := offset.natAbs
  let micros := n % 1000000
  let seconds := n / 1000000
  (if offset < 0 then "-" else "+") ++ Date.padded 2 (seconds / 3600) ++ ":"
    ++ Date.padded 2 (seconds / 60 % 60)
    ++ (if seconds % 60 = 0 && micros = 0 then "" else ":" ++ Date.padded 2 (seconds % 60))
    ++ (if micros = 0 then "" else "." ++ Date.padded 6 micros)

/-- The text of a moment, with a given separator between date and time. -/
def isoTextWith (separator : String) (t : Moment) : String :=
  t.date.isoText ++ separator ++ Date.padded 2 t.hour ++ ":" ++ Date.padded 2 t.minute ++ ":"
    ++ Date.padded 2 t.second
    ++ (if t.microsecond = 0 then "" else "." ++ Date.padded 6 t.microsecond)
    ++ (t.offset.map offsetText).getD ""

def isoText (t : Moment) : String := t.isoTextWith "T"

/-- Microseconds since the start of day 0, in the moment's own reckoning. -/
def localMicroseconds (t : Moment) : Int :=
  (((t.date.ordinal * 24 + t.hour) * 60 + t.minute) * 60 + t.second) * 1000000 + t.microsecond

/-- Two moments agree when they name the same instant; one with an offset never agrees with one
without. -/
def agrees (s t : Moment) : Bool :=
  match s.offset, t.offset with
  | none, none => s.localMicroseconds == t.localMicroseconds
  | some a, some b => s.localMicroseconds - a == t.localMicroseconds - b
  | _, _ => false

end Moment

end FormDesigner
