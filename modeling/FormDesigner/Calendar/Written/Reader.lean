import FormDesigner.Calendar.Written.Parts
import FormDesigner.Calendar.Written.Token
import FormDesigner.Text.Letter

/-!
# Reading written dates

A date may be written in many ways: in digits, with names of months and weekdays, with a time of day and a
zone beside it. What is not written is taken from a given date. The time and the zone do not matter for
the date, but a text in which they make no sense is not read.
-/

namespace FormDesigner.WrittenDate

/-- Why a text is not read. -/
inductive Fault where
  | unreadable
  /-- A part of the time is written with more digits than can be reckoned with. -/
  | tooPrecise
deriving DecidableEq, Repr

abbrev Reading := Except Fault

def must {α : Type} : Option α → Reading α
  | some a => .ok a
  | none => .error .unreadable

/-- A number that is not negative: a whole and so many parts of a power of ten. -/
structure Quantity where
  whole : Nat
  part : Nat
  places : Nat
deriving DecidableEq, Repr

def digits? (cs : List Char) : Option Nat :=
  cs.foldlM (fun n c => do return n * 10 + (← Text.digitValue? c)) 0

namespace Quantity

/-- The number that a token writes. -/
def ofToken? (s : String) : Option Quantity := do
  let cs := s.toList
  let whole := cs.takeWhile (· ≠ '.')
  let part := (cs.dropWhile (· ≠ '.')).drop 1
  if whole.isEmpty then none
  else return ⟨← digits? whole, ← digits? part, part.length⟩

/-- Whole numbers up to this one can be split from their fractions. -/
def greatestWhole : Nat := Nat.pow 10 28

/-- The sixtieths of a number's fraction. -/
def sixtieths (q : Quantity) : Nat := 60 * q.part / Nat.pow 10 q.places

def checked (q : Quantity) : Reading Quantity :=
  if q.whole < greatestWhole then .ok q else .error .tooPrecise

end Quantity

/-- Words that look like numbers but name none. -/
def isNoNumber (s : String) : Bool := ["nan", "inf", "infinity"].contains (Text.lower s)

/-- The whole number that a text of digits writes. -/
def whole (cs : List Char) : Reading Nat :=
  if cs.isEmpty then .error .unreadable else must (digits? cs)

def marks : List String :=
  [" ", ".", ",", ";", "-", "/", "'", "at", "on", "and", "ad", "m", "t", "of", "st", "nd", "rd", "th"]

/-- Tokens that say nothing. -/
def isFiller (s : String) : Bool := marks.contains (Text.lower s)

def weekdays : List (List String) :=
  [["mon", "monday"], ["tue", "tuesday"], ["wed", "wednesday"], ["thu", "thursday"],
    ["fri", "friday"], ["sat", "saturday"], ["sun", "sunday"]]

def months : List (List String) :=
  [["jan", "january"], ["feb", "february"], ["mar", "march"], ["apr", "april"], ["may"],
    ["jun", "june"], ["jul", "july"], ["aug", "august"], ["sep", "sept", "september"],
    ["oct", "october"], ["nov", "november"], ["dec", "december"]]

/-- Units of time: hours, minutes, seconds. -/
def units : List (List String) :=
  [["h", "hour", "hours"], ["m", "minute", "minutes"], ["s", "second", "seconds"]]

/-- Halves of the day. -/
def halves : List (List String) := [["am", "a"], ["pm", "p"]]

def indexIn (names : List (List String)) (s : String) : Option Nat :=
  names.findIdx? fun ns => ns.contains (Text.lower s)

/-- The number of the month with a name. -/
def month? (s : String) : Option Nat := (indexIn months s).map (· + 1)

def zoneNames : List String := ["UTC", "GMT", "Z", "z"]

def isUpper (c : Char) : Bool := 'A' ≤ c && c ≤ 'Z'

/-- What has been read so far. -/
structure Draft where
  numbers : Numbers := {}
  weekday : Option Nat := none
  hour : Option Nat := none
  minute : Option Nat := none
  second : Option Nat := none
  microsecond : Option Nat := none
  hasZoneName : Bool := false
  hasZone : Bool := false

namespace Draft

/-- Adds a number as it is written. More than two digits are a year. -/
def addText (d : Draft) (s : String) (name : Option PartName) : Reading Draft := do
  let cs := s.toList
  let n ← whole cs
  let ns ← must (if 2 < cs.length then d.numbers.addCentury? n name else d.numbers.add? n name)
  return { d with numbers := ns }

/-- Adds a number. One above a hundred is a year. -/
def addQuantity (d : Draft) (q : Quantity) : Reading Draft := do
  let isYear := 100 < q.whole || (q.whole = 100 && 0 < q.part)
  let ns ← must (if isYear then d.numbers.addCentury? q.whole none else d.numbers.add? q.whole none)
  return { d with numbers := ns }

def addMonth (d : Draft) (n : Nat) : Reading Draft := do
  return { d with numbers := ← must (d.numbers.add? n (some .month)) }

/-- Seconds with a fraction, as they are written. -/
def withSeconds (d : Draft) (cs : List Char) : Reading Draft := do
  if cs.contains '.' then
    let part := (cs.dropWhile (· ≠ '.')).drop 1
    let micros ← whole ((part ++ List.replicate (6 - part.length) '0').take 6)
    return { d with second := some (← whole (cs.takeWhile (· ≠ '.'))), microsecond := some micros }
  else return { d with second := some (← whole cs), microsecond := some 0 }

/-- Minutes; their fraction, if any, is seconds. -/
def withMinutes (d : Draft) (q : Quantity) : Reading Draft := do
  let q ← q.checked
  return { d with minute := some q.whole, second := if q.part = 0 then none else some q.sixtieths }

/-- A number with its unit of time. -/
def withUnit (d : Draft) (s : String) (q : Quantity) (unit : Nat) : Reading Draft := do
  if unit = 0 then
    let q ← q.checked
    let d := { d with hour := some q.whole }
    return if q.part = 0 then d else { d with minute := some q.sixtieths }
  else if unit = 1 then d.withMinutes q
  else if unit = 2 then d.withSeconds s.toList
  else return d

/-- The hour of the day for an hour in one of its halves. -/
def hourIn (half hour : Nat) : Nat :=
  if hour < 12 && half = 1 then hour + 12 else if hour = 12 && half = 0 then 0 else hour

/-- Whether a number can be the day of the date so far. -/
def couldBeDay (d : Draft) (q : Quantity) : Reading Bool := do
  let upTo (n : Nat) : Bool := 1 ≤ q.whole && (q.whole < n || (q.whole = n && q.part = 0))
  match d.numbers.monthAt with
  | none => return upTo lastDayOfMonth
  | some i =>
    let month := d.numbers.valueAt i
    if month = 0 || 12 < month then .error .unreadable
    else
      let year := (d.numbers.yearAt.map d.numbers.valueAt).getD 2000
      return upTo (Date.daysInMonth year month)
where
  lastDayOfMonth : Nat := 31

/-- Whether a token can be the name of a zone. -/
def couldBeZone (d : Draft) (isOffsetFree : Bool) (s : String) : Bool :=
  d.hour.isSome && !d.hasZoneName && isOffsetFree && s.length ≤ 5
    && (s.toList.all isUpper || zoneNames.contains s)

end Draft

/-- The tokens of a text, by position. -/
abbrev Tokens := List String

namespace Tokens

def isAt (ts : Tokens) (i : Nat) (holds : String → Bool) : Bool := ((ts[i]?).map holds).getD false

def has (ts : Tokens) (i : Nat) (s : String) : Bool := ts.isAt i (· = s)

/-- Where the unit of the number at a position stands: behind it, or before it if it has none
behind. -/
def unitPlace? (ts : Tokens) (i : Nat) : Option Nat :=
  let isUnit (s : String) : Bool := (indexIn units s).isSome
  if ts.isAt (i + 1) isUnit then some (i + 1)
  else if ts.has (i + 1) " " && ts.isAt (i + 2) isUnit then some (i + 2)
  else if 0 < i && ts.isAt (i - 1) isUnit then some (i - 1)
  else if 1 < i && i + 1 = ts.length && ts.has (i - 1) " " && ts.isAt (i - 2) isUnit then
    some (i - 2)
  else none

def unitAt (ts : Tokens) (i : Nat) : Nat := ((ts[i]?).bind (indexIn units)).getD 0

def half? (ts : Tokens) (i : Nat) : Option Nat := (ts[i]?).bind (indexIn halves)

def get (ts : Tokens) (i : Nat) : Reading String := must ts[i]?

end Tokens

/-- A position and what has been read up to it. -/
abbrev Progress := Nat × Draft

/-- A date and perhaps a time in one number of digits only: year, month, day, hour, minute, second. -/
def compact (d : Draft) (cs : List Char) : Reading Draft := do
  let piece (start size : Nat) : List Char := (cs.drop start).take size
  let d ← d.addText (String.ofList (piece 0 4)) (some .year)
  let d ← d.addText (String.ofList (piece 4 2)) none
  let d ← d.addText (String.ofList (piece 6 2)) none
  if cs.length ≤ 8 then return d
  let d := { d with hour := some (← whole (piece 8 2)), minute := some (← whole (piece 10 2)) }
  if cs.length ≤ 12 then return d
  return { d with second := some (← whole (cs.drop 12)) }

/-- Six digits: a date with a short year, or a time if there is a date already. -/
def sixDigits (d : Draft) (cs : List Char) : Reading Draft := do
  let piece (start : Nat) : List Char := (cs.drop start).take 2
  if d.numbers.values.isEmpty && !cs.contains '.' then
    let d ← d.addText (String.ofList (piece 0)) none
    let d ← d.addText (String.ofList (piece 2)) none
    d.addText (String.ofList (cs.drop 4)) none
  else
    let d := { d with hour := some (← whole (piece 0)), minute := some (← whole (piece 2)) }
    d.withSeconds (cs.drop 4)

/-- A time with colons, from its hour on. -/
def clockTime (ts : Tokens) (i : Nat) (q : Quantity) (d : Draft) : Reading Progress := do
  let minutes ← must (Quantity.ofToken? (← ts.get (i + 2)))
  let d ← { d with hour := some q.whole }.withMinutes minutes
  if ts.has (i + 3) ":" && (ts[i + 4]?).isSome then
    return (i + 4, ← d.withSeconds (← ts.get (i + 4)).toList)
  else return (i + 2, d)

def isDigitText (s : String) : Bool := !s.isEmpty && s.toList.all Text.isDigit

/-- A date with separators, from its first number on. -/
def separated (ts : Tokens) (i : Nat) (s : String) (d : Draft) : Reading Progress := do
  let d ← d.addText s none
  match ts[i + 2]? with
  | none => return (i + 1, d)
  | some second =>
    if isFiller second then return (i + 1, d)
    let d ←
      if isDigitText second then d.addText second none
      else d.addMonth (← must (month? second))
    if (ts[i + 3]?).isSome && ts[i + 3]? = ts[i + 1]? then
      let third ← ts.get (i + 4)
      let d ← match month? third with
        | some n => d.addMonth n
        | none => d.addText third none
      return (i + 4, d)
    else return (i + 2, d)

/-- Reads what begins with a number. The position given back is the last one that was read. -/
def number (ts : Tokens) (i : Nat) (s : String) (q : Quantity) (d : Draft) : Reading Progress := do
  let cs := s.toList
  let size := cs.length
  let isUnit (s : String) : Bool := (indexIn units s).isSome
  if d.numbers.values.length = 3 && (size = 2 || size = 4) && d.hour.isNone
      && !(ts.isAt (i + 1) fun t => t = ":" || isUnit t) then
    let d := { d with hour := some (← whole (cs.take 2)) }
    if size = 2 then return (i, d)
    return (i, { d with minute := some (← whole (cs.drop 2)) })
  else if size = 6 || (6 < size && cs.idxOf? '.' = some 6) then return (i, ← sixDigits d cs)
  else if size = 8 || size = 12 || size = 14 then return (i, ← compact d cs)
  else
    match ts.unitPlace? i with
    | some j =>
      if i < j then return (j, ← d.withUnit s q (ts.unitAt j))
      else return (i, ← d.withUnit s q (ts.unitAt j + 1))
    | none =>
      if ts.has (i + 1) ":" && (ts[i + 2]?).isSome then clockTime ts i q d
      else if ts.isAt (i + 1) fun t => t = "-" || t = "/" || t = "." then separated ts i s d
      else if (ts[i + 1]?).isNone || ts.isAt (i + 1) isFiller then
        match ts.half? (i + 2) with
        | some half => return (i + 2, { d with hour := some (Draft.hourIn half q.whole) })
        | none => return (i + 1, ← d.addQuantity q)
      else
        match ts.half? (i + 1) with
        | some half =>
          if q.whole < 24 then
            return (i + 1, { d with hour := some (Draft.hourIn half q.whole) })
          else if ← d.couldBeDay q then return (i, ← d.addQuantity q)
          else .error .unreadable
        | none =>
          if ← d.couldBeDay q then return (i, ← d.addQuantity q) else .error .unreadable

/-- The year that two digits stand for, within half a century of a given one. -/
def fullYear (present year : Nat) : Nat :=
  if year < 100 then
    let year := year + present / 100 * 100
    if present + 50 ≤ year then year - 100
    else if year + 50 < present then year + 100
    else year
  else year

/-- Reads what begins with the name of a month. -/
def monthName (present : Nat) (ts : Tokens) (i n : Nat) (d : Draft) : Reading Progress := do
  let d ← d.addMonth n
  if ts.isAt (i + 1) fun t => t = "-" || t = "/" then
    let d ← d.addText (← ts.get (i + 2)) none
    if (ts[i + 3]?).isSome && ts[i + 3]? = ts[i + 1]? then
      return (i + 4, ← d.addText (← ts.get (i + 4)) none)
    else return (i + 2, d)
  else if (ts[i + 4]?).isSome && ts.has (i + 1) " " && ts.has (i + 3) " "
      && ts.isAt (i + 2) fun t => Text.lower t = "of" then
    let last ← ts.get (i + 4)
    if isDigitText last then
      let year := fullYear present (← whole last.toList)
      return (i + 4, ← d.addText (toString year) (some .year))
    else return (i + 4, d)
  else return (i, d)

/-- Reads the name of a zone. A zone that has an offset from it is not that zone. -/
def zoneName (ts : Tokens) (i : Nat) (s : String) (d : Draft) : Progress :=
  if ts.isAt (i + 1) fun t => t = "+" || t = "-" then
    (i, { d with hasZoneName := !zoneNames.any fun z => Text.lower z = Text.lower s, hasZone := false })
  else (i, { d with hasZoneName := true, hasZone := s = "z" })

/-- Reads an offset from its sign on. -/
def zoneOffset (ts : Tokens) (i : Nat) (d : Draft) : Reading Progress := do
  let cs := (← ts.get (i + 1)).toList
  let j ←
    if cs.length = 4 then do
      let _ ← whole (cs.take 2)
      let _ ← whole (cs.drop 2)
      pure i
    else if ts.has (i + 2) ":" then do
      let _ ← whole cs
      let _ ← whole (← ts.get (i + 3)).toList
      pure (i + 2)
    else if cs.length ≤ 2 then do
      let _ ← whole cs
      pure i
    else .error .unreadable
  let d := { d with hasZone := true }
  if ts.isAt (j + 2) isFiller && ts.has (j + 3) "(" && ts.has (j + 5) ")"
      && ts.isAt (j + 4) fun t => 3 ≤ t.length && d.couldBeZone true t then
    return (j + 5, { d with hasZoneName := true })
  else return (j + 1, d)

/-- Reads what begins at a position. The position given back is the last one that was read. -/
def step (present : Nat) (ts : Tokens) (i : Nat) (s : String) (d : Draft) : Reading Progress := do
  if isNoNumber s then .error .unreadable
  else
    match Quantity.ofToken? s with
    | some q => number ts i s q d
    | none =>
      match indexIn weekdays s, month? s, indexIn halves s with
      | some w, _, _ => return (i, { d with weekday := some w })
      | none, some n, _ => monthName present ts i n d
      | none, none, some half =>
        match d.hour with
        | some hour =>
          if hour ≤ 12 then return (i, { d with hour := some (Draft.hourIn half hour) })
          else .error .unreadable
        | none => .error .unreadable
      | none, none, none =>
        if d.couldBeZone (!d.hasZone) s then return zoneName ts i s d
        else if d.hour.isSome && (s = "+" || s = "-") then zoneOffset ts i d
        else if isFiller s then return (i, d)
        else .error .unreadable

/-- Reads all tokens from a position on. -/
def readFrom (present : Nat) (ts : Tokens) : Nat → Nat → Draft → Reading Draft
  | 0, _, d => .ok d
  | fuel + 1, i, d =>
    match ts[i]? with
    | none => .ok d
    | some s => do
      let (j, d) ← step present ts i s d
      readFrom present ts fuel (j + 1) d

/-- Whether what was read of a time is a time. -/
def hasValidTime (d : Draft) : Bool :=
  let below (n : Nat) (v : Option Nat) : Bool := v.all (· < n)
  below 24 d.hour && below 60 d.minute && below 60 d.second && below 1000000 d.microsecond

/-- The date that parts name, where another date has what they lack. A day of its own that the month does
not have becomes the month's last. -/
def complete (base : Date) (p : Parts) : Option Date :=
  let year := p.year.getD base.year
  let month := p.month.getD base.month
  if month = 0 || 12 < month then none
  else Date.ofParts? year month (p.day.getD (min base.day (Date.daysInMonth year month)))

/-- The first such day of the week from a date on. -/
def onWeekday (d : Date) (weekday : Nat) : Option Date :=
  Date.ofOrdinal? (d.ordinal + (7 + weekday - d.weekday) % 7)

/-- The date that a text writes. -/
def read (base : Date) (s : String) : Reading Date := do
  let ts := tokens s
  let d ← readFrom base.year ts (ts.length + 1) 0 {}
  let parts ← must d.numbers.parts?
  let isShort := !d.numbers.hasCentury
  let parts := { parts with year := parts.year.map fun y => if isShort then fullYear base.year y else y }
  let isEmpty := parts = {} && d.weekday.isNone && d.hour.isNone && d.minute.isNone && d.second.isNone
  if isEmpty || !hasValidTime d then .error .unreadable
  else
    let date ← must (complete base parts)
    match parts.day, d.weekday with
    | none, some w => must (onWeekday date w)
    | _, _ => return date

end FormDesigner.WrittenDate
