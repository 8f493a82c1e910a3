import FormDesigner.Number.Mixed
import FormDesigner.Calendar.Date

/-!
# Document values

A `Value` is what documents and forms are made of: the scalars of JSON and YAML, dates, binary data
and the containers over them. The entries of a mapping keep the order in which they were added, and
its keys are values too, although documents that describe forms only use text.
-/

namespace FormDesigner

inductive Value where
  | null
  | bool (b : Bool)
  | int (n : Int)
  | float (x : Binary64)
  | text (s : String)
  | list (items : List Value)
  | tuple (items : List Value)
  | set (members : List Value)
  | map (entries : List (Value × Value))
  | date (d : Date)
  | moment (t : Moment)
  | bytes (octets : List UInt8)
deriving Inhabited

/-- The entries of a mapping. -/
abbrev Entries := List (Value × Value)

namespace Value

def isNull : Value → Bool
  | .null => true
  | _ => false

def isBool : Value → Bool
  | .bool _ => true
  | _ => false

def isMap : Value → Bool
  | .map _ => true
  | _ => false

def isList : Value → Bool
  | .list _ => true
  | _ => false

def asText? : Value → Option String
  | .text s => some s
  | _ => none

def asList? : Value → Option (List Value)
  | .list xs => some xs
  | _ => none

def asMap? : Value → Option Entries
  | .map es => some es
  | _ => none

/-- The entries of a mapping; anything else has none. -/
def entriesOf (v : Value) : Entries := v.asMap?.getD []

/-- The items of a list or tuple. -/
def asSequence? : Value → Option (List Value)
  | .list xs => some xs
  | .tuple xs => some xs
  | _ => none

/-- A value as a number. Truth values are not numbers. -/
def asNumber? : Value → Option Number
  | .int n => some (.int n)
  | .float x => some (.float x)
  | _ => none

/-- A value as a number where truth values stand for 0 and 1. -/
def asQuantity? : Value → Option Number
  | .bool b => some (.int (if b then 1 else 0))
  | .int n => some (.int n)
  | .float x => some (.float x)
  | _ => none

def ofNumber : Number → Value
  | .int n => .int n
  | .float x => .float x

def ofOption (v : Option Value) : Value := v.getD .null

/-- What a condition makes of a value: null, false, zero and everything empty fail it. -/
def isTrue : Value → Bool
  | .null => false
  | .bool b => b
  | .int n => n != 0
  | .float x => !x.isZero
  | .text s => !s.isEmpty
  | .list xs => !xs.isEmpty
  | .tuple xs => !xs.isEmpty
  | .set xs => !xs.isEmpty
  | .map es => !es.isEmpty
  | .date _ => true
  | .moment _ => true
  | .bytes bs => !bs.isEmpty

def ofTexts (ss : List String) : Value := .list (ss.map .text)

/-- A text, or null where there is none. -/
def ofText? (s : Option String) : Value := .ofOption (s.map .text)

/-- A mapping with text keys. -/
def ofFields (fields : List (String × Value)) : Value :=
  .map (fields.map fun (name, v) => (.text name, v))

end Value

end FormDesigner
