import FormDesigner.Field.Tree
import FormDesigner.Schema.Shape
import FormDesigner.Text.Letter
import FormDesigner.Work

/-!
# Making fields

New fields get ids and key suffixes from a supply. A supply is two unending sequences, one of ids and
one of letters, together with how much of each has been used; nothing is handed out twice.

New fields start with an id and key of their own and with what their type requires: sample options,
no children, or a text field as the template of items. A copy of a field gets fresh ids and keys on
every node. Changing the type of a field adds and drops what belongs to either type.
-/

namespace FormDesigner

/-! ### Fresh names -/

structure Supply where
  idAt : Nat → String
  letterAt : Nat → Char
  ids : Nat
  letters : Nat

namespace Supply

/-- The next id, and the supply without it. -/
def newId (s : Supply) : String × Supply := (s.idAt s.ids, { s with ids := s.ids + 1 })

/-- The next letters, and the supply without them. -/
def newLetters (s : Supply) (n : Nat) : String × Supply :=
  (String.ofList ((List.range n).map fun i => s.letterAt (s.letters + i)),
    { s with letters := s.letters + n })

end Supply

/-- Work that uses up names. What has been used stays used when the work fails. -/
abbrev Minting := Work Supply

namespace Minting

def newId : Minting String := modifyGet Supply.newId

def newLetters (n : Nat) : Minting String := modifyGet fun s => s.newLetters n

end Minting

/-! ### Fields -/

namespace FieldType

/-- What a type is called in the palette. -/
def label : FieldType → String
  | .text => "Text"
  | .number => "Number"
  | .date => "Date"
  | .checkbox => "Checkbox"
  | .select => "Select"
  | .multiselect => "Multi-select"
  | .radio => "Radio group"
  | .section => "Section"
  | .array => "Array"

/-- The names of all types as they are listed in messages. -/
def listing : String := "(" ++ ", ".intercalate (names.map Text.quoted) ++ ")"

/-- The type that a value names. -/
def ofValue? (v : Value) : Option FieldType := v.asText?.bind ofName?

/-- What a type is called, whether or not it is a type of fields. -/
def labelOf (type : Value) : Except Failure String :=
  match type with
  | .text s =>
    match ofName? s with
    | some t => .ok t.label
    | none => .ok (Text.title s)
  | _ => .error .noMember

end FieldType

namespace Value

/-- The keys that are in use, given as any collection. -/
def takenKeys (v : Value) : Except Failure (List Value) := do hashable (← v.elements)

end Value

namespace Factory

/-- How many letters a key has at the end, at first. -/
def suffixLength : Nat := 4

def maxAttempts : Nat := 1000

/-- After this many failed attempts, keys get longer. -/
def attemptsPerLength : Nat := 100

/-- Attempts to make a key that is not taken, the first of which has number `attempt`. -/
def keyAttempts (start : String) (taken : List Value) (attempt : Nat) : Nat → Minting String
  | 0 => throw (.fault .runtime ("Could not generate a unique key for prefix '" ++ start ++ "'"))
  | more + 1 => do
    let suffix ← Minting.newLetters (suffixLength + attempt / attemptsPerLength)
    let key := start ++ "_" ++ suffix
    if (Value.text key).among taken then keyAttempts start taken (attempt + 1) more else return key

/-- A key that begins in a given way and is not taken. -/
def newKey (start : Value) (taken : List Value) : Minting String := do
  keyAttempts (← Work.ofExcept start.plain) taken 0 maxAttempts

def sampleOptions : Value :=
  let option (value label : String) : Value :=
    .ofFields [("value", .text value), ("label", .text label)]
  .list [option "one" "One", option "two" "Two", option "three" "Three"]

/-- What all new fields have. -/
def basicField (id key type : String) (label : Value) : List (String × Value) :=
  [("id", .text id), ("key", .text key), ("type", .text type), ("label", label),
    ("placeholder", .text ""), ("validation", .map [])]

/-- The template of a new array. -/
def newTemplate (taken : List Value) : Minting Value := do
  let id ← Minting.newId
  let key ← newKey (.text "item") taken
  return .ofFields (basicField id key FieldType.text.name (.text "Item"))

/-- A new field of a type. -/
def createAs (type : FieldType) (label : Value) (taken : List Value) : Minting Value := do
  let key ← newKey (.text type.name) taken
  let id ← Minting.newId
  let basic := basicField id key type.name label
  match type with
  | .select | .multiselect | .radio => return .ofFields (basic ++ [("options", sampleOptions)])
  | .section => return .ofFields (basic ++ [("children", .list [])])
  | .array => return .ofFields (basic ++ [("of", ← newTemplate (.text key :: taken))])
  | _ => return .ofFields basic

/-- A new field of the type that a value names. -/
def create (type label existingKeys : Value) : Minting Value := do
  match FieldType.ofValue? type with
  | some t => createAs t label (← Work.ofExcept existingKeys.takenKeys)
  | none =>
    let shown ← Work.ofExcept type.plain
    throw (.fault .value
      ("Unsupported field type '" ++ shown ++ "'. Supported types: " ++ FieldType.listing))

mutual

/-- A copy of a field in which every node has a fresh id and key, and the keys that are taken
then. -/
def refresh (taken : List Value) : Value → Minting (Value × List Value)
  | .map es => do
    let id ← Minting.newId
    let key ← newKey ((Value.get? (.map es) "type").getD (.text "field")) taken
    let v := ((Value.map es).put "id" (.text id)).put "key" (.text key)
    let (children, taken) ← refreshChildren (.text key :: taken) es
    let v := match children with
      | some cs => v.put "children" (.list cs)
      | none => v
    let (template, taken) ← refreshTemplate taken es
    let v := match template with
      | some t => v.put "of" t
      | none => v
    return (v, taken)
  | _ => do
    let _ ← Minting.newId
    throw .wrongKind

/-- The children among the entries of a field, if there is a list of them. -/
def refreshChildren (taken : List Value) :
    List (Value × Value) → Minting (Option (List Value) × List Value)
  | [] => return (none, taken)
  | (k, v) :: es => do
    if Field.isKey k "children" then refreshList taken v else refreshChildren taken es

def refreshList (taken : List Value) : Value → Minting (Option (List Value) × List Value)
  | .list cs => do
    let (cs, taken) ← refreshAll taken cs
    return (some cs, taken)
  | _ => return (none, taken)

def refreshAll (taken : List Value) : List Value → Minting (List Value × List Value)
  | [] => return ([], taken)
  | c :: cs => do
    let (c, taken) ← refresh taken c
    let (cs, taken) ← refreshAll taken cs
    return (c :: cs, taken)

/-- The template among the entries of a field, if it is a mapping. -/
def refreshTemplate (taken : List Value) :
    List (Value × Value) → Minting (Option Value × List Value)
  | [] => return (none, taken)
  | (k, v) :: es => do
    if Field.isKey k "of" then
      if v.isMap then
        let (t, taken) ← refresh taken v
        return (some t, taken)
      else return (none, taken)
    else refreshTemplate taken es

end

/-- A copy of a field with fresh ids and keys, none of which is taken. -/
def regenerate (field existingKeys : Value) : Minting Value := do
  let taken ← Work.ofExcept existingKeys.takenKeys
  return (← refresh taken field).1

/-- A field with what its type requires and without what only other types have. -/
def reshape (type : FieldType) (field existingKeys : Value) : Minting Value := do
  let v := field.put "type" (.text type.name)
  let v :=
    if type.isChoice then
      if (v.getOrNull "options").isList then v else v.put "options" sampleOptions
    else v.drop "options"
  let v :=
    if type = .section then
      if (v.getOrNull "children").isList then v else v.put "children" (.list [])
    else v.drop "children"
  if type = .array then
    if (v.getOrNull "of").isMap then return v
    else
      let template ← createAs .text (.text "Item") []
      let key ← newKey (.text "item") (← Work.ofExcept existingKeys.takenKeys)
      return v.put "of" (template.put "key" (.text key))
  else return v.drop "of"

/-- A copy of a field with another type. -/
def retype (field type existingKeys : Value) : Minting Value := do
  match FieldType.ofValue? type with
  | none =>
    let shown ← Work.ofExcept type.plain
    throw (.fault .value ("Unsupported field type '" ++ shown ++ "'"))
  | some t => if field.isMap then reshape t field existingKeys else throw .wrongKind

end Factory

end FormDesigner
