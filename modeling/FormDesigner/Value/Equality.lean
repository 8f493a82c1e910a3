import FormDesigner.Value.Basic

/-!
# Equality of values and the order of keys

Equality compares numbers by their mathematical value, whichever way they are written, and counts
the truth values as 0 and 1. Lists and tuples are equal item by item, mappings entry by entry in
any order. A result that is not a number equals nothing; inside a container, though, it is found
again where the same datum stands, which is what `same` adds to `equals`.

Keys of a mapping are ordered when all of them are texts or all of them are numbers: texts by their
characters, numbers by value. Keys of different kinds have no order.
-/

namespace FormDesigner

/-! ### Equality -/

namespace Value

/-- Both are the same undefined number. -/
def sameNan : Value → Value → Bool
  | .float (.nan a), .float (.nan b) => a == b
  | _, _ => false

mutual

def equals : Value → Value → Bool
  | .null, .null => true
  | .text s, .text t => s == t
  | .date d, .date e => d == e
  | .moment s, .moment t => s.agrees t
  | .bytes a, .bytes b => a == b
  | .list xs, .list ys => equalItems xs ys
  | .tuple xs, .tuple ys => equalItems xs ys
  | .set xs, .set ys => xs.length == ys.length && allAmong xs ys
  | .map es, .map fs => es.length == fs.length && allEntriesAmong es fs
  | .bool a, w => match w.asQuantity? with
    | some n => Number.eq (.int (if a then 1 else 0)) n
    | none => false
  | .int a, w => match w.asQuantity? with
    | some n => Number.eq (.int a) n
    | none => false
  | .float a, w => match w.asQuantity? with
    | some n => Number.eq (.float a) n
    | none => false
  | _, _ => false

def equalItems : List Value → List Value → Bool
  | [], [] => true
  | x :: xs, y :: ys => (sameNan x y || equals x y) && equalItems xs ys
  | _, _ => false

def allAmong : List Value → List Value → Bool
  | [], _ => true
  | x :: xs, ys => (ys.any fun y => sameNan x y || equals x y) && allAmong xs ys

def allEntriesAmong : List (Value × Value) → List (Value × Value) → Bool
  | [], _ => true
  | (k, v) :: es, fs =>
    (match fs.find? fun f => sameNan k f.1 || equals k f.1 with
      | some (_, w) => sameNan v w || equals v w
      | none => false) && allEntriesAmong es fs

end

/-- Equality as it decides membership: an undefined number is found where it stands. -/
def same (v w : Value) : Bool := sameNan v w || equals v w

def among (v : Value) (vs : List Value) : Bool := vs.any v.same

end Value

namespace Entries

/-- The value stored under a key. -/
def get? (es : Entries) (key : Value) : Option Value :=
  (es.find? fun e => key.same e.1).map (·.2)

def contains (es : Entries) (key : Value) : Bool := es.any fun e => key.same e.1

/-- Stores a value under a key: in place if the key is there, at the end otherwise. -/
def insert (es : Entries) (key value : Value) : Entries :=
  if contains es key then es.map fun e => if key.same e.1 then (e.1, value) else e
  else es ++ [(key, value)]

def erase (es : Entries) (key : Value) : Entries := es.filter fun e => !key.same e.1

def keys (es : Entries) : List Value := es.map (·.1)

def values (es : Entries) : List Value := es.map (·.2)

/-- Stores every entry of `fs` in turn. -/
def insertAll (es fs : Entries) : Entries := fs.foldl (fun acc f => insert acc f.1 f.2) es

end Entries

namespace Value

/-- The entry of a mapping under a text key; anything else has no entries. -/
def get? (v : Value) (name : String) : Option Value :=
  match v with
  | .map es => Entries.get? es (.text name)
  | _ => none

/-- The entry under a text key, null where there is none. -/
def getOrNull (v : Value) (name : String) : Value := (v.get? name).getD .null

def has (v : Value) (name : String) : Bool := (v.get? name).isSome

/-- Stores an entry of a mapping; anything else stays as it is. -/
def put (v : Value) (name : String) (w : Value) : Value :=
  match v with
  | .map es => .map (Entries.insert es (.text name) w)
  | v => v

/-- Drops an entry of a mapping. -/
def drop (v : Value) (name : String) : Value :=
  match v with
  | .map es => .map (Entries.erase es (.text name))
  | v => v

end Value

/-! ### The order of keys -/

namespace Value

def keyLe (a b : Value) : Bool :=
  match a, b with
  | .text s, .text t => !(decide (t < s))
  | a, b =>
    match a.asQuantity?, b.asQuantity? with
    | some m, some n => m.le n
    | _, _ => true

def areOrdered (keys : List Value) : Bool :=
  keys.length ≤ 1 || keys.all (fun k => k.asText?.isSome)
    || keys.all fun k => k.asQuantity?.isSome

/-- The entries in the order of their keys; entries whose keys have no order stay as they are. -/
def orderEntries (es : Entries) : Entries :=
  if areOrdered (Entries.keys es) then es.mergeSort fun a b => keyLe a.1 b.1 else es

mutual

/-- A value with the entries of every mapping in the order of their keys. -/
def sortKeys : Value → Value
  | .list xs => .list (sortAll xs)
  | .tuple xs => .tuple (sortAll xs)
  | .map es => .map (orderEntries (sortEntries es))
  | v => v

def sortAll : List Value → List Value
  | [] => []
  | v :: vs => sortKeys v :: sortAll vs

def sortEntries : List (Value × Value) → List (Value × Value)
  | [] => []
  | (k, v) :: es => (k, sortKeys v) :: sortEntries es

end

end Value

end FormDesigner
