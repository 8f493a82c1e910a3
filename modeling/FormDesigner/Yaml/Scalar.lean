import FormDesigner.Failure
import FormDesigner.Json.Reader

/-!
# What a plain scalar means

A scalar without quotes and without a tag is null, a truth value, a number or a time if its text has
the form of one, and text otherwise. Numbers may have underscores, other bases and sexagesimal
digits; a floating-point number needs a point.
-/

namespace FormDesigner

namespace Yaml

/-- The kinds of values that a tag can ask for. -/
inductive Tag where
  | null | bool | int | float | binary | timestamp | orderedMap | pairs | set | text | list | map
  | merge | value | other
deriving DecidableEq, Repr

namespace Tag

/-- What all standard tags begin with. -/
def standard : String := "tag:yaml.org,2002:"

def names : List (String × Tag) :=
  [("null", .null), ("bool", .bool), ("int", .int), ("float", .float), ("binary", .binary),
    ("timestamp", .timestamp), ("omap", .orderedMap), ("pairs", .pairs), ("set", .set),
    ("str", .text), ("seq", .list), ("map", .map), ("merge", .merge), ("value", .value)]

def ofText (s : String) : Tag :=
  ((names.find? fun e => standard ++ e.1 = s).map (·.2)).getD .other

end Tag

def isDigitOrLine (c : Char) : Bool := c.isDigit || c == '_'

def dropSign (cs : List Char) : List Char :=
  match cs with
  | '+' :: rest => rest
  | '-' :: rest => rest
  | cs => cs

/-- The pieces between the occurrences of a character. -/
def pieces (separator : Char) : List Char → List (List Char)
  | [] => [[]]
  | c :: rest =>
    if c == separator then [] :: pieces separator rest
    else
      match pieces separator rest with
      | p :: ps => (c :: p) :: ps
      | [] => [[c]]

/-- A digit followed by digits and underscores. -/
def isDigits : List Char → Bool
  | [] => false
  | c :: rest => c.isDigit && rest.all isDigitOrLine

/-- A digit below 60. -/
def isSixtieth : List Char → Bool
  | [c] => c.isDigit
  | [c, d] => '0' ≤ c && c ≤ '5' && d.isDigit
  | _ => false

def startsNonzero (cs : List Char) : Bool := cs.head?.any (· != '0')

/-- The form of an integer. -/
def isInteger (cs : List Char) : Bool :=
  match dropSign cs with
  | ['0'] => true
  | '0' :: 'b' :: ds => !ds.isEmpty && ds.all fun c => c == '0' || c == '1' || c == '_'
  | '0' :: 'x' :: ds => !ds.isEmpty && ds.all fun c => (Json.hexValue? c).isSome || c == '_'
  | '0' :: ds => ds.all fun c => ('0' ≤ c && c ≤ '7') || c == '_'
  | ds =>
    match pieces ':' ds with
    | [] => false
    | p :: ps => isDigits p && startsNonzero p && ps.all isSixtieth

/-- An exponent, whose sign is required; or nothing. -/
def isExponent : List Char → Bool
  | [] => true
  | e :: s :: ds =>
    (e == 'e' || e == 'E') && (s == '+' || s == '-') && !ds.isEmpty && ds.all Char.isDigit
  | _ => false

/-- Digits with a point. -/
def isPointed (cs : List Char) : Bool :=
  let whole := cs.takeWhile isDigitOrLine
  match cs.drop whole.length with
  | '.' :: rest => isDigits whole && isExponent (rest.dropWhile isDigitOrLine)
  | _ => false

/-- Sexagesimal digits with a point. -/
def isSexagesimal (cs : List Char) : Bool :=
  match pieces '.' cs with
  | [whole, fraction] =>
    match pieces ':' whole with
    | p :: q :: ps => isDigits p && (q :: ps).all isSixtieth && fraction.all isDigitOrLine
    | _ => false
  | _ => false

def infinities : List String := [".inf", ".Inf", ".INF"]

def undefinedNumbers : List String := [".nan", ".NaN", ".NAN"]

/-- The form of a floating-point number. -/
def isFloat (cs : List Char) : Bool :=
  let unsigned := dropSign cs
  isPointed unsigned || isSexagesimal unsigned || infinities.contains (String.ofList unsigned)
    || undefinedNumbers.contains (String.ofList cs)
    || match cs with
      | '.' :: rest => isDigits (rest.takeWhile isDigitOrLine) && isExponent (rest.dropWhile isDigitOrLine)
      | _ => false

def truthTexts : List (String × Bool) :=
  [("yes", true), ("no", false), ("true", true), ("false", false), ("on", true), ("off", false)]

/-- The forms of a truth value: small, capitalised or in capitals. -/
def isTruthText (s : String) : Bool :=
  truthTexts.any fun (t, _) => s = t || s = t.capitalize || s = t.toUpper

def isNullText (s : String) : Bool := ["", "~", "null", "Null", "NULL"].contains s

/-- The numbers in the text of a time. The offset is in minutes. -/
structure Stamp where
  year : Nat
  month : Nat
  day : Nat
  clock : Option (Nat × Nat × Nat)
  microsecond : Nat
  offset : Option Int
  /-- Month and day have two digits each. -/
  full : Bool

/-- A number of at least `least` and at most `most` digits. -/
def digits? (least most : Nat) (cs : List Char) : Option (Nat × List Char) :=
  let ds := (cs.take most).takeWhile Char.isDigit
  if ds.length < least then none else some (Text.digitsValue ds, cs.drop ds.length)

def char? (c : Char) : List Char → Option (List Char)
  | d :: rest => if c == d then some rest else none
  | [] => none

def isInnerBlank (c : Char) : Bool := c == ' ' || c == '\t'

/-- An offset from universal time, in minutes, and nothing else. -/
def zone? (cs : List Char) : Option (Option Int) :=
  match cs with
  | [] => some none
  | _ =>
    match cs.dropWhile isInnerBlank with
    | ['Z'] => some (some 0)
    | s :: rest => do
      guard (s == '+' || s == '-')
      let (hours, rest) ← digits? 1 2 rest
      let (minutes, rest) ←
        match rest with
        | ':' :: more => digits? 2 2 more
        | rest => some (0, rest)
      guard rest.isEmpty
      let n : Int := hours * 60 + minutes
      return some (if s == '-' then -n else n)
    | [] => none

/-- Digits after the point as microseconds. -/
def microseconds (ds : List Char) : Nat :=
  let ds := ds.take 6
  Text.digitsValue ds * Nat.pow 10 (6 - ds.length)

/-- The numbers of a time, if a text has the form of one. -/
def stamp? (cs : List Char) : Option Stamp := do
  let (year, rest) ← digits? 4 4 cs
  let rest ← char? '-' rest
  let (month, afterMonth) ← digits? 1 2 rest
  let monthSize := rest.length - afterMonth.length
  let rest ← char? '-' afterMonth
  let (day, afterDay) ← digits? 1 2 rest
  let daySize := rest.length - afterDay.length
  let full := monthSize == 2 && daySize == 2
  match afterDay with
  | [] => return ⟨year, month, day, none, 0, none, full⟩
  | c :: more =>
    guard (c == 'T' || c == 't' || isInnerBlank c)
    let rest := if isInnerBlank c then more.dropWhile isInnerBlank else more
    let (hour, rest) ← digits? 1 2 rest
    let (minute, rest) ← digits? 2 2 (← char? ':' rest)
    let (second, rest) ← digits? 2 2 (← char? ':' rest)
    let (fraction, rest) :=
      match rest with
      | '.' :: more => (more.takeWhile Char.isDigit, more.dropWhile Char.isDigit)
      | rest => ([], rest)
    return ⟨year, month, day, some (hour, minute, second), microseconds fraction, ← zone? rest,
      full⟩

/-- The form of a time: a date with two digits for month and day, or any date with a time of day. -/
def isTimestamp (cs : List Char) : Bool :=
  match stamp? cs with
  | some s => s.full || s.clock.isSome
  | none => false

/-- Without the line feed that ends a text. -/
def dropLastBreak (cs : List Char) : List Char :=
  if cs.getLast? == some '\n' then cs.dropLast else cs

/-- The tag of a plain scalar. Times count as text unless they are asked for. -/
def plainTag (times : Bool) (text : String) : Tag :=
  let cs := dropLastBreak text.toList
  let s := String.ofList cs
  if isNullText s && !(text = "\n") then .null
  else if isTruthText s then .bool
  else if isFloat cs then .float
  else if isInteger cs then .int
  else if s = "<<" then .merge
  else if times && isTimestamp cs then .timestamp
  else if s = "=" then .value
  else if s = "!" || s = "&" || s = "*" then .other
  else .text

end Yaml

end FormDesigner
