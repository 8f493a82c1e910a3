import FormDesigner.Calendar.Date

/-!
# Reading dates in ISO 8601 form

A date is written with or without separators and may name a week of the year instead of a month.
A moment is a date, one character of any kind, and a time with optional fraction and offset.
Positions are counted in octets of the text's UTF-8 form.
-/

namespace FormDesigner

/-- Text as the numbers of its octets. -/
def octetsOf (s : String) : List Nat := s.toUTF8.toList.map (·.toNat)

namespace IsoText

def digitOf? (b : Nat) : Option Nat :=
  if 0x30 ≤ b ∧ b ≤ 0x39 then some (b - 0x30) else none

/-- A number of exactly `width` digits and the octets after it. -/
def number? (width : Nat) (bs : List Nat) (value : Nat) : Option (Nat × List Nat) :=
  match width, bs with
  | 0, _ => some (value, bs)
  | width + 1, b :: rest => do number? width rest (value * 10 + (← digitOf? b))
  | _ + 1, [] => none

def dash : Nat := 0x2d
def colon : Nat := 0x3a
def letterW : Nat := 0x57

/-- The last day of the year falls in week 53. -/
def hasLongYear (year : Nat) : Bool :=
  let first := (Date.daysBeforeYear year + 1 + 6) % 7
  first == 3 || (first == 2 && Date.isLeapYear year)

/-- The date of a day in a numbered week; week 1 holds the year's first Thursday. -/
def weekDate? (year week day : Nat) : Option Date :=
  if year < 1 || 9999 < year || week < 1 || 53 < week || (week = 53 && !hasLongYear year)
      || day < 1 || 7 < day then none
  else
    let newYear := Date.daysBeforeYear year + 1
    let weekday := (newYear + 6) % 7
    let firstMonday : Int := newYear - weekday + (if 3 < weekday then 7 else 0)
    let n := firstMonday + (week - 1) * 7 + day - 1
    if n < 1 then none else Date.ofOrdinal? n.toNat

/-- The date at the start of the octets, in a text whose date part has `size` octets. -/
def date? (bs : List Nat) (size : Nat) : Option Date := do
  let (year, rest) ← number? 4 bs 0
  let separated := rest.head? = some dash
  let rest := if separated then rest.drop 1 else rest
  let separatorOk (rest : List Nat) : Option (List Nat) :=
    if !separated then some rest
    else match rest with
      | b :: rest => if b = dash then some rest else none
      | [] => none
  if rest.head? = some letterW then
    let (week, rest) ← number? 2 (rest.drop 1) 0
    if bs.length - rest.length < size then
      let (day, _) ← number? 1 (← separatorOk rest) 0
      weekDate? year week day
    else weekDate? year week 1
  else
    let (month, rest) ← number? 2 rest 0
    let (day, _) ← number? 2 (← separatorOk rest) 0
    Date.ofParts? year month day

/-- How many octets the date part of a moment takes. -/
def dateSize (bs : List Nat) : Nat :=
  let at? (i : Nat) : Option Nat := bs[i]?
  let isDigitAt (i : Nat) : Bool := ((at? i).bind digitOf?).isSome
  if bs.length = 7 then 7
  else if at? 4 = some dash then
    if at? 5 = some letterW then
      if 8 < bs.length && at? 8 = some dash then
        if bs.length = 9 then 0
        else if 10 < bs.length && isDigitAt 10 then 8
        else 10
      else 8
    else 10
  else if at? 4 = some letterW then
    let pos := 7 + ((bs.drop 7).takeWhile fun b => (digitOf? b).isSome).length
    if pos < 9 then pos else if pos % 2 = 0 then 7 else 8
  else 8

structure Clock where
  hour : Nat
  minute : Nat
  second : Nat
  microsecond : Nat

/-- The digits of a fraction of a second, six of which count. -/
def fraction? (bs : List Nat) : Option (Nat × List Nat) := do
  let width := min 6 bs.length
  let (n, rest) ← number? width bs 0
  return (n * Nat.pow 10 (6 - width), rest.dropWhile fun b => (digitOf? b).isSome)

/-- Hours, minutes and seconds in `bs`, of which `parts` have been read. `next` is the octet that
follows, 0 at the end of the text. Also says whether anything is left over. -/
def clockParts? (next : Nat) (parts : List Nat) (separated : Bool) (bs : List Nat) :
    Nat → Option (List Nat × Nat × Bool)
  | 0 => do
    let (micros, rest) ← fraction? bs
    return (parts, micros, !rest.isEmpty || next != 0)
  | left + 1 => do
    let (n, rest) ← number? 2 bs 0
    let parts := parts ++ [n]
    let after := rest.head?.getD next
    let separated := if parts.length = 1 then after = colon else separated
    if rest.length = 0 then return (parts, 0, next != 0)
    else if rest.length = 1 then return (parts, 0, true)
    else if separated && after = colon then clockParts? next parts separated (rest.drop 1) left
    else if after = 0x2e || after = 0x2c then
      let (micros, rest) ← fraction? (rest.drop 1)
      return (parts, micros, !rest.isEmpty || next != 0)
    else if !separated then clockParts? next parts separated rest left
    else none

def clock? (bs : List Nat) (next : Nat) : Option (Clock × Bool) := do
  let (parts, micros, rest) ← clockParts? next [] true bs 3
  return (⟨parts.getD 0 0, parts.getD 1 0, parts.getD 2 0, micros⟩, rest)

/-- The offset written after a time; one without hours, minutes and seconds is universal time. -/
def offset? (sign : Nat) (bs : List Nat) : Option Int := do
  if sign = 0x5a then
    if bs.isEmpty then some 0 else none
  else
    let (c, rest) ← clock? bs 0
    if rest then none
    else
      let seconds : Int := c.hour * 3600 + c.minute * 60 + c.second
      let magnitude := if seconds = 0 then 0 else seconds * 1000000 + c.microsecond
      if magnitude < 86400000000 then some (if sign = dash then -magnitude else magnitude)
      else none

def isOffsetSign (b : Nat) : Bool := b = 0x2b || b = dash || b = 0x5a

def moment? (bs : List Nat) : Option Moment := do
  if bs.length < 7 then none
  else
    let size := dateSize bs
    let d ← date? bs size
    let rest := bs.drop size
    if rest.isEmpty then return .ofDate d
    else
      let lead := rest.headD 0
      let width := if lead < 0x80 then 1 else if lead / 16 = 0xe then 3
        else if lead / 16 = 0xf then 4 else 2
      let time := rest.drop width
      let body := time.takeWhile (!isOffsetSign ·)
      let tail := time.drop body.length
      let (c, leftover) ← clock? body (tail.headD 0)
      let offset ← match tail with
        | [] => if leftover then none else some none
        | sign :: tail => (offset? sign tail).map some
      if c.hour < 24 && c.minute < 60 && c.second < 60 then
        return ⟨d, c.hour, c.minute, c.second, c.microsecond, offset⟩
      else none

end IsoText

/-- The date written in a text; `none` when the text is not a date. -/
def Date.ofIso? (s : String) : Option Date :=
  let bs := octetsOf s
  if bs.length = 7 || bs.length = 8 || bs.length = 10 then IsoText.date? bs bs.length else none

/-- The moment written in a text; `none` when the text is not a moment. -/
def Moment.ofIso? (s : String) : Option Moment := IsoText.moment? (octetsOf s)

end FormDesigner
