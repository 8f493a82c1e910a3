import FormDesigner.Field.Tree
import FormDesigner.Text.Octets
import FormDesigner.Text.Letter
import FormDesigner.Yaml.Node

/-!
# Values of YAML

The value of a node is decided by its tag. A mapping takes over the entries of the mappings that it
merges, before its own. Most texts that do not fit their tag are malformed; a few fail in ways of
their own.
-/

namespace FormDesigner

namespace Yaml

def withoutLines (cs : List Char) : List Char := cs.filter (· != '_')

/-- The sign of a number and the text after it. The text must not be empty. -/
def signed (cs : List Char) : Except Failure (Bool × List Char) :=
  if cs.isEmpty then .error (.fault .index "string index out of range") else .ok (Text.splitSign cs)

/-- An integer's text that cannot be read. -/
def integerFailure (base : Nat) (s : String) : Failure :=
  .fault .value
    ("invalid literal for int() with base " ++ toString base ++ ": " ++ Text.quoted s)

def integerIn (base : Nat) (cs : List Char) : Except Failure Int :=
  let s := String.ofList cs
  match Text.readIntegerIn? base s with
  | some n => .ok n
  | none => .error (integerFailure base s)

def decimalInteger (cs : List Char) : Except Failure Int :=
  let s := String.ofList cs
  match Text.readInteger s with
  | .ok n => .ok n
  | .error (.tooLong n) => .error (.integerDigitLimit n)
  | .error .malformed => .error (integerFailure 10 s)

/-- The number that sexagesimal digits write. -/
def sexagesimal (ds : List Int) : Int := ds.foldl (fun n d => n * 60 + d) 0

def integer (s : String) : Except Failure Int := do
  let (negative, cs) ← signed (withoutLines s.toList)
  let n ←
    match cs with
    | ['0'] => pure 0
    | '0' :: 'b' :: ds => integerIn 2 ds
    | '0' :: 'x' :: ds => integerIn 16 ds
    | '0' :: _ => integerIn 8 cs
    | [] => .error (.fault .index "string index out of range")
    | cs =>
      if cs.contains ':' then do
        let ds ← (pieces ':' cs).mapM decimalInteger
        pure (sexagesimal ds)
      else decimalInteger cs
  return if negative then -n else n

def floatText (cs : List Char) : Except Failure Binary64 :=
  let s := String.ofList cs
  match Text.readFloat? s with
  | some x => .ok x
  | none => .error (.fault .value ("could not convert string to float: " ++ Text.quoted s))

/-- The sum of floating-point numbers, each weighted by its power of 60. -/
def weighted (base : Nat) (sum : Number) : List Binary64 → Option Number
  | [] => some sum
  | d :: ds => do
    let term ← Number.mul? (.float d) (.int base)
    weighted (base * 60) (← sum.add? term) ds

def float (s : String) : Except Failure Value := do
  let (negative, cs) ← signed ((withoutLines s.toList).map Text.lowerChar)
  let word := String.ofList cs
  let n : Number ←
    if word = ".inf" then pure (.float (.infinite false))
    else if word = ".nan" then return .float (.nan 0)
    else if cs.contains ':' then do
      let ds ← (pieces ':' cs).mapM floatText
      match weighted 1 (.float (.zero false)) ds.reverse with
      | some n => pure n
      | none => .error (.fault .overflow "")
    else do pure (.float (← floatText cs))
  return .ofNumber (if negative then n.neg else n)

/-- What keeps a year, month and day from being a date. -/
def checkedDate (year month day : Nat) : Except Failure Date :=
  match Date.ofParts? year month day with
  | some d => .ok d
  | none =>
    .error (.fault .value
      (if year = 0 then "year 0 is out of range"
      else if month = 0 || 12 < month then "month must be in 1..12"
      else "day is out of range for month"))

def checkedPart (name : String) (limit n : Nat) : Except Failure Unit :=
  if n < limit then .ok ()
  else .error (.fault .value (name ++ " must be in 0.." ++ toString (limit - 1)))

def microsecondsPerMinute : Int := 60000000

/-- An offset must be shorter than a day. -/
def checkedOffset (minutes : Int) : Except Failure Int :=
  let micros := minutes * microsecondsPerMinute
  if minutes.natAbs < 1440 then .ok micros
  else
    .error (.fault .value
      ("offset must be a timedelta strictly between -timedelta(hours=24) and timedelta(hours=24), not "
        ++ Moment.spanText micros ++ "."))

def timestamp (s : String) : Except Failure Value :=
  match stamp? (dropLastBreak s.toList) with
  | none => .error .noMember
  | some t =>
    match t.clock with
    | none => do return .date (← checkedDate t.year t.month t.day)
    | some (hour, minute, second) => do
      let offset ← t.offset.mapM checkedOffset
      let d ← checkedDate t.year t.month t.day
      checkedPart "hour" 24 hour
      checkedPart "minute" 60 minute
      checkedPart "second" 60 second
      return .moment ⟨d, hour, minute, second, t.microsecond, offset⟩

def truth (s : String) : Except Failure Value :=
  match truthTexts.lookup (Text.lower s) with
  | some b => .ok (.bool b)
  | none => .error .missingEntry

def octets (s : String) : Except Failure Value :=
  if s.toList.all fun c => c.toNat < 0x80 then
    match Text.decodeBase64? s with
    | some bs => .ok (.bytes bs)
    | none => .error malformed
  else .error malformed

def tagOf : Node → Tag
  | .scalar t _ => t
  | .list t _ => t
  | .map t _ => t

/-- Adds a value to a set. -/
def addMember (members : List Value) (v : Value) : List Value :=
  if v.among members then members else members ++ [v]

mutual

/-- The text of a scalar. A mapping with a default value stands for that value. -/
def scalarText : Node → Except Failure String
  | .scalar _ s => .ok s
  | .list .. => .error malformed
  | .map _ es => defaultText es

def defaultText : List (Node × Node) → Except Failure String
  | [] => .error malformed
  | (k, v) :: es => if tagOf k = .value then scalarText v else defaultText es

end

mutual

/-- The value of a node. -/
def construct : Node → Except Failure Value
  | .scalar tag s =>
    match tag with
    | .null => .ok .null
    | .bool => truth s
    | .int => (integer s).map .int
    | .float => float s
    | .binary => octets s
    | .timestamp => timestamp s
    | .text => .ok (.text s)
    | _ => .error malformed
  | .list tag ns =>
    match tag with
    | .list => do return .list (← constructAll ns)
    | .orderedMap => do return .list (← constructPairs ns)
    | .pairs => do return .list (← constructPairs ns)
    | _ => .error malformed
  | .map tag es =>
    match tag with
    | .map => do return .map (Entries.insertAll [] (← entries es))
    | .set => do return .set ((← entries es).foldl (fun ms (k, _) => addMember ms k) [])
    | .null => do
      let _ ← defaultText es
      return .null
    | .bool => do truth (← defaultText es)
    | .int => do return .int (← integer (← defaultText es))
    | .float => do float (← defaultText es)
    | .binary => do octets (← defaultText es)
    | .text => do return .text (← defaultText es)
    | _ => .error malformed

def constructAll : List Node → Except Failure (List Value)
  | [] => .ok []
  | n :: ns => do
    let v ← construct n
    return v :: (← constructAll ns)

/-- The entries of a mapping: first those of the mappings that it merges, then its own. -/
def entries (es : List (Node × Node)) : Except Failure Entries := do
  let (merged, own) ← splitEntries es
  return merged ++ own

/-- Merged and own entries apart. -/
def splitEntries : List (Node × Node) → Except Failure (Entries × Entries)
  | [] => .ok ([], [])
  | (k, v) :: es =>
    match tagOf k with
    | .merge => do
      let first ← mergedFrom v
      let (merged, own) ← splitEntries es
      return (first ++ merged, own)
    | _ => do
      let key ← constructKey k
      let w ← construct v
      let (merged, own) ← splitEntries es
      return (merged, (key, w) :: own)

/-- The value of a key; the mark of a default value is an ordinary key where no scalar is asked
for. -/
def constructKey : Node → Except Failure Value
  | .scalar .value s => .ok (.text s)
  | k => do
    let key ← construct k
    if key.isHashable then return key else .error malformed

/-- The entries of a mapping that is merged, or of several, of which the first one counts most. -/
def mergedFrom : Node → Except Failure Entries
  | .map _ es => entries es
  | .list _ ns => do return (← mergedEach ns).reverse.flatten
  | .scalar .. => .error malformed

def mergedEach : List Node → Except Failure (List Entries)
  | [] => .ok []
  | .map _ es :: ns => do
    let first ← entries es
    return first :: (← mergedEach ns)
  | _ :: _ => .error malformed

/-- Mappings of one entry each, as pairs. -/
def constructPairs : List Node → Except Failure (List Value)
  | [] => .ok []
  | .map _ [(k, v)] :: ns => do
    let key ← construct k
    let w ← construct v
    return .tuple [key, w] :: (← constructPairs ns)
  | _ :: _ => .error malformed

end

/-- The value that a text writes. Times are told from other texts only if they are asked for. -/
def read (times : Bool) (s : String) : Except Failure Value := do
  match ← Node.read times s with
  | none => return .null
  | some n => construct n

end Yaml

end FormDesigner
