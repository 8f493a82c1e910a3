import FormDesigner.Failure
import FormDesigner.Text.Numeral
import FormDesigner.Value.Equality

/-!
# Reading JSON

Besides standard JSON the reader accepts the words `NaN`, `Infinity` and `-Infinity` as numbers. A
number with a fraction or an exponent is a floating-point number, any other an integer. When an
object repeats a key, the last value counts and stands where the key first stood.
-/

namespace FormDesigner.Json

/-- Why a text is not JSON. -/
inductive ReadFault where
  | malformed
  | integerTooLong (digits : Nat)
deriving DecidableEq, Repr

def isJsonBlank (c : Char) : Bool := c = ' ' || c = '\t' || c = '\n' || c = '\r'

def skipBlanks (cs : List Char) : List Char := cs.dropWhile isJsonBlank

def hexValue? (c : Char) : Option Nat :=
  if '0' ≤ c ∧ c ≤ '9' then some (c.toNat - 0x30)
  else if 'a' ≤ c ∧ c ≤ 'f' then some (c.toNat - 0x57)
  else if 'A' ≤ c ∧ c ≤ 'F' then some (c.toNat - 0x37)
  else none

/-- A number of four hexadecimal digits. -/
def hexUnit? : List Char → Option (Nat × List Char)
  | a :: b :: c :: d :: rest => do
    return ((((← hexValue? a) * 16 + (← hexValue? b)) * 16 + (← hexValue? c)) * 16
      + (← hexValue? d), rest)
  | _ => none

/-- The character of an escaped 16-bit unit. A leading unit of a pair takes the trailing one along;
a unit that stands alone becomes the replacement character. -/
def unitChar (unit : Nat) (rest : List Char) : Char × List Char :=
  if 0xd800 ≤ unit ∧ unit < 0xdc00 then
    match rest with
    | '\\' :: 'u' :: tail =>
      match hexUnit? tail with
      | some (low, after) =>
        if 0xdc00 ≤ low ∧ low < 0xe000 then
          (Char.ofNat (0x10000 + (unit - 0xd800) * 0x400 + (low - 0xdc00)), after)
        else (Char.ofNat 0xfffd, rest)
      | none => (Char.ofNat 0xfffd, rest)
    | _ => (Char.ofNat 0xfffd, rest)
  else if 0xdc00 ≤ unit ∧ unit < 0xe000 then (Char.ofNat 0xfffd, rest)
  else (Char.ofNat unit, rest)

/-- One character of a text in quotes and what follows it; `none` where the text cannot go on. -/
def textChar? : List Char → Option (Char × List Char)
  | '\\' :: 'u' :: rest => do
    let (unit, after) ← hexUnit? rest
    return unitChar unit after
  | '\\' :: c :: rest =>
    if c = '\x22' || c = '\\' || c = '/' then some (c, rest)
    else if c = 'b' then some ('\x08', rest)
    else if c = 'f' then some ('\x0c', rest)
    else if c = 'n' then some ('\n', rest)
    else if c = 'r' then some ('\r', rest)
    else if c = 't' then some ('\t', rest)
    else none
  | c :: rest => if c.toNat < 0x20 || c = '\\' then none else some (c, rest)
  | [] => none

/-- The characters of a text up to its closing quote, in reverse on top of `done`. -/
def textBody : Nat → List Char → List Char → Except ReadFault (String × List Char)
  | 0, _, _ => .error .malformed
  | fuel + 1, done, cs =>
    match cs with
    | '\x22' :: rest => .ok (String.ofList done.reverse, rest)
    | cs =>
      match textChar? cs with
      | some (c, rest) => textBody fuel (c :: done) rest
      | none => .error .malformed

/-- How many characters of a fraction start a text. -/
def fractionSize : List Char → Nat
  | '.' :: rest =>
    let digits := (rest.takeWhile Char.isDigit).length
    if digits = 0 then 0 else digits + 1
  | _ => 0

def exponentSize : List Char → Nat
  | c :: rest =>
    if c = 'e' || c = 'E' then
      let sign := match rest with
        | '+' :: _ => 1
        | '-' :: _ => 1
        | _ => 0
      let digits := ((rest.drop sign).takeWhile Char.isDigit).length
      if digits = 0 then 0 else 1 + sign + digits
    else 0
  | [] => 0

/-- The number at the start of a text. -/
def readNumber (cs : List Char) : Except ReadFault (Value × List Char) :=
  let negative := cs.head? = some '-'
  let body := if negative then cs.drop 1 else cs
  let whole := if body.head? = some '0' then 1 else (body.takeWhile Char.isDigit).length
  if whole = 0 then .error .malformed
  else
    let fraction := fractionSize (body.drop whole)
    let exponent := exponentSize (body.drop (whole + fraction))
    let size := whole + fraction + exponent
    let rest := body.drop size
    if fraction + exponent = 0 then
      match Text.boundedDigits (body.take whole) with
      | .ok n => .ok (.int (if negative then -n else n), rest)
      | .error _ => .error (.integerTooLong whole)
    else
      match Text.decimal? (body.take size) with
      | some d => .ok (.float (d.toBinary negative), rest)
      | none => .error .malformed

/-- Words that stand for values. -/
def words : List (String × Value) :=
  [("null", .null), ("true", .bool true), ("false", .bool false), ("NaN", .float (.nan 0)),
    ("Infinity", .float (.infinite false)), ("-Infinity", .float (.infinite true))]

def word? (cs : List Char) : Option (Value × List Char) :=
  words.findSome? fun (w, v) =>
    if w.toList.isPrefixOf cs then some (v, cs.drop w.length) else none

mutual

/-- The value at the start of a text. -/
def readValue : Nat → List Char → Except ReadFault (Value × List Char)
  | 0, _ => .error .malformed
  | fuel + 1, cs =>
    match cs with
    | '\x22' :: rest => do
      let (s, rest) ← textBody (rest.length + 1) [] rest
      return (.text s, rest)
    | '[' :: rest =>
      match skipBlanks rest with
      | ']' :: rest => .ok (.list [], rest)
      | rest => do
        let (items, rest) ← readItems fuel rest
        return (.list items, rest)
    | '\x7b' :: rest =>
      match skipBlanks rest with
      | '\x7d' :: rest => .ok (.map [], rest)
      | rest => do
        let (entries, rest) ← readMembers fuel [] rest
        return (.map entries, rest)
    | cs =>
      match word? cs with
      | some r => .ok r
      | none => readNumber cs

/-- The items of an array up to its closing bracket. -/
def readItems : Nat → List Char → Except ReadFault (List Value × List Char)
  | 0, _ => .error .malformed
  | fuel + 1, cs => do
    let (v, rest) ← readValue fuel cs
    match skipBlanks rest with
    | ']' :: rest => return ([v], rest)
    | ',' :: rest => do
      let (items, rest) ← readItems fuel (skipBlanks rest)
      return (v :: items, rest)
    | _ => .error .malformed

/-- The members of an object up to its closing brace, added to those before them. -/
def readMembers : Nat → Entries → List Char → Except ReadFault (Entries × List Char)
  | 0, _, _ => .error .malformed
  | fuel + 1, entries, cs =>
    match cs with
    | '\x22' :: rest => do
      let (key, rest) ← textBody (rest.length + 1) [] rest
      match skipBlanks rest with
      | ':' :: rest => do
        let (v, rest) ← readValue fuel (skipBlanks rest)
        let entries := Entries.insert entries (.text key) v
        match skipBlanks rest with
        | '\x7d' :: rest => return (entries, rest)
        | ',' :: rest => readMembers fuel entries (skipBlanks rest)
        | _ => .error .malformed
      | _ => .error .malformed
    | _ => .error .malformed

end

/-- The value that a text writes, with nothing but blanks around it. -/
def read (s : String) : Except ReadFault Value := do
  let cs := skipBlanks s.toList
  let (v, rest) ← readValue (cs.length + 1) cs
  if (skipBlanks rest).isEmpty then return v else .error .malformed

def ReadFault.toFailure : ReadFault → Failure
  | .malformed => .fault .json ""
  | .integerTooLong digits => .integerDigitLimit digits

/-- The value that a text must write. -/
def parse (s : String) : Except Failure Value := (read s).mapError ReadFault.toFailure

end FormDesigner.Json
