import FormDesigner.Number.Decimal
import FormDesigner.Text.Character

/-!
# Reading numbers

Decimal text of any script's digits, as people type it: blanks around the number are allowed, and
single underscores between digits. An integer's text is limited in its number of digits.
-/

namespace FormDesigner.Text

/-- Why a text is not an integer. -/
inductive IntegerFault where
  | malformed
  | tooLong (digits : Nat)
deriving DecidableEq, Repr

/-- The digits of every script as ASCII digits; other characters beyond ASCII cannot occur in a
number. -/
def asciiDigit (c : Char) : Char :=
  match digitValue? c with
  | some d => Char.ofNat (0x30 + d)
  | none => c

def isSeparator (c : Char) : Bool := 0x1c ≤ c.toNat && c.toNat ≤ 0x1f

/-- Blank characters that may stand around a number. The information separators may not. -/
def isMargin (c : Char) : Bool := isBlank c && !isSeparator c

/-- The text of a number without the blanks around it. -/
def numberText (s : String) : List Char :=
  ((s.toList.dropWhile isMargin).reverse.dropWhile isMargin).reverse.map asciiDigit

/-- Drops underscores, each of which must stand between two digits. -/
def dropUnderscores? (previous : Char) : List Char → Option (List Char)
  | [] => if previous = '_' then none else some []
  | c :: rest =>
    if c = '_' then
      if previous.isDigit then dropUnderscores? c rest else none
    else if previous = '_' && !c.isDigit then none
    else (dropUnderscores? c rest).map (c :: ·)

/-- The number that a run of ASCII digits writes. -/
def digitsValue (ds : List Char) : Nat :=
  ds.foldl (fun n d => n * 10 + (d.toNat - 0x30)) 0

/-- A sign, if there is one, and the text after it. -/
def splitSign : List Char → Bool × List Char
  | '-' :: rest => (true, rest)
  | '+' :: rest => (false, rest)
  | cs => (false, cs)

/-- The number written by ASCII digits, unless there are too many of them. -/
def boundedDigits (ds : List Char) : Except IntegerFault Nat :=
  if maxIntegerDigits < ds.length then .error (.tooLong ds.length) else .ok (digitsValue ds)

/-- The integer that a text writes. -/
def readInteger (s : String) : Except IntegerFault Int :=
  let (negative, body) := splitSign (numberText s)
  match dropUnderscores? '\x00' body with
  | none => .error .malformed
  | some ds =>
    if ds.isEmpty || !ds.all Char.isDigit then .error .malformed
    else do
      let n ← boundedDigits ds
      return if negative then -n else n

/-- The letter that announces a base. -/
def baseLetter? (base : Nat) : Option Char := [(2, 'b'), (8, 'o'), (16, 'x')].lookup base

/-- The value of a digit in a base. -/
def digitIn? (base : Nat) (c : Char) : Option Nat :=
  let n :=
    if c.isDigit then c.toNat - 0x30
    else if 'a' ≤ c && c ≤ 'z' then c.toNat - 0x61 + 10
    else if 'A' ≤ c && c ≤ 'Z' then c.toNat - 0x41 + 10
    else base
  if n < base then some n else none

/-- The integer that a text without underscores writes in a base, which may be announced by a zero
and a letter. -/
def readIntegerIn? (base : Nat) (s : String) : Option Int := do
  let (negative, body) := splitSign (numberText s)
  let ds :=
    match body with
    | '0' :: l :: rest => if baseLetter? base = some l.toLower then rest else body
    | body => body
  guard (!ds.isEmpty)
  let n : Nat := (← ds.mapM (digitIn? base)).foldl (fun n d => n * base + d) 0
  return if negative then -(n : Int) else n

/-- The digits of an exponent with its sign; nothing else may follow. -/
def exponent? (cs : List Char) : Option Int :=
  let (negative, ds) := splitSign cs
  if ds.isEmpty || !ds.all Char.isDigit then none
  else
    let n : Int := digitsValue ds
    some (if negative then -n else n)

/-- Digits with an optional fraction and exponent. -/
def decimal? (cs : List Char) : Option Decimal :=
  let whole := cs.takeWhile Char.isDigit
  let rest := cs.drop whole.length
  let (fraction, rest) := match rest with
    | '.' :: tail => (tail.takeWhile Char.isDigit, tail.dropWhile Char.isDigit)
    | _ => ([], rest)
  if whole.isEmpty && fraction.isEmpty then none
  else
    let digits := digitsValue (whole ++ fraction)
    match rest with
    | [] => some ⟨digits, -fraction.length⟩
    | c :: tail =>
      if c = 'e' || c = 'E' then (exponent? tail).map fun e => ⟨digits, e - fraction.length⟩
      else none

/-- The floating-point number that a text writes, infinities and undefined numbers included. -/
def readFloat? (s : String) : Option Binary64 := do
  let body ← dropUnderscores? '\x00' (numberText s)
  let (negative, body) := splitSign body
  let word := String.ofList (body.map Char.toLower)
  if word = "inf" || word = "infinity" then return .infinite negative
  else if word = "nan" then return .nan 0
  else return (← decimal? body).toBinary negative

end FormDesigner.Text
