import FormDesigner.Field.Basic

/-!
# The shape of fields and schemas

A schema is a mapping with version 1 and a list of fields. Every field has the attributes of its
type and no others, and attributes are checked without conversion: what passes is what is stored.
Problems are listed in the order of the declared attributes, unknown attributes last, each with the
place where it was found.
-/

namespace FormDesigner

/-- The types of fields, in the order in which they are offered. -/
inductive FieldType where
  | text | number | date | checkbox | select | multiselect | radio | section | array
deriving DecidableEq, Repr

namespace FieldType

def name : FieldType → String
  | .text => "text"
  | .number => "number"
  | .date => "date"
  | .checkbox => "checkbox"
  | .select => "select"
  | .multiselect => "multiselect"
  | .radio => "radio"
  | .section => "section"
  | .array => "array"

def all : List FieldType :=
  [.text, .number, .date, .checkbox, .select, .multiselect, .radio, .section, .array]

def names : List String := all.map name

def ofName? (s : String) : Option FieldType := all.find? fun t => t.name = s

/-- Types whose fields offer options to choose from. -/
def isChoice : FieldType → Bool
  | .select | .multiselect | .radio => true
  | _ => false

end FieldType

/-- Something wrong with a document, and where. -/
structure Problem where
  location : List String
  message : String
deriving DecidableEq, Repr

namespace Problem

def text (p : Problem) : String :=
  let place := " -> ".intercalate p.location
  if place.isEmpty then p.message else place ++ ": " ++ p.message

/-- The problem seen from a container that holds the place under a name. -/
def under (name : String) (p : Problem) : Problem := { p with location := name :: p.location }

end Problem

namespace Shape

/-- A check of one value; the problems it finds are located relative to that value. -/
abbrev Check := Value → List Problem

def here (message : String) : List Problem := [⟨[], message⟩]

def under (name : String) (ps : List Problem) : List Problem := ps.map (Problem.under name)

/-- A value that a check accepts only if a condition holds. -/
def requires (condition : Value → Bool) (message : String) : Check := fun v =>
  if condition v then [] else here message

def text : Check := requires (fun v => v.asText?.isSome) "Input should be a valid string"

def filledText : Check
  | .text s => if s.isEmpty then here "String should have at least 1 character" else []
  | v => text v

def boolean : Check := requires Value.isBool "Input should be a valid boolean"

def isInteger : Value → Bool
  | .int _ => true
  | _ => false

def integer : Check := requires isInteger "Input should be a valid integer"

/-- Floating-point numbers, and integers that have one near them. -/
def isMeasure : Value → Bool
  | .float _ => true
  | .int n => (Binary64.ofInt? n).isSome
  | _ => false

def measure : Check := requires isMeasure "Input should be a valid number"

/-- Null, or what another check accepts. -/
def optional (check : Check) : Check := fun v => if v.isNull then [] else check v

/-- The alternatives for a single default value, by name. -/
def scalarChecks : List (String × Check) :=
  [("bool", boolean), ("int", integer), ("float", measure), ("str", text)]

/-- Accepts what one of the alternatives accepts; otherwise lists the problems of all. -/
def oneOf (checks : List (String × Check)) : Check := fun v =>
  if checks.any fun (_, check) => (check v).isEmpty then []
  else checks.flatMap fun (name, check) => under name (check v)

def scalar : Check := oneOf scalarChecks

/-- Checks the items of a list one by one. -/
def eachItem (check : Check) (xs : List Value) : List Problem :=
  xs.zipIdx.flatMap fun (x, i) => under (toString i) (check x)

def scalarList : Check
  | .list xs => eachItem scalar xs
  | _ => here "Input should be a valid list"

def defaultValue : Check :=
  oneOf (scalarChecks ++ [("list[union[bool,int,float,str]]", scalarList)])

/-- An attribute that a mapping may or must have. -/
structure Attribute where
  name : String
  required : Bool
  check : Check

/-- How a key is shown in a location. -/
def keyName (key : Value) : String :=
  match key with
  | .text s => s
  | .bool b => if b then "1" else "0"
  | v => v.quoted?.getD ""

/-- Checks the declared attributes of a mapping, then reports all others. -/
def attributes (declared : List Attribute) (es : Entries) : List Problem :=
  (declared.flatMap fun a =>
    match Entries.get? es (.text a.name) with
    | some v => under a.name (a.check v)
    | none => if a.required then [⟨[a.name], "Field required"⟩] else [])
  ++ es.flatMap fun (key, _) =>
    match key with
    | .text s =>
      if declared.any fun a => a.name = s then [] else [⟨[s], "Extra inputs are not permitted"⟩]
    | key => [⟨[keyName key], "Keys should be strings"⟩]

/-- A mapping with the given attributes, which messages call by a name. -/
def record (name : String) (declared : List Attribute) : Check
  | .map es => attributes declared es
  | _ => here ("Input should be a valid dictionary or instance of " ++ name)

def option : Check := record "OptionModel" [⟨"value", true, text⟩, ⟨"label", true, text⟩]

def rules : Check :=
  record "ValidationRules"
    [⟨"min", false, optional measure⟩, ⟨"max", false, optional measure⟩,
      ⟨"regex", false, optional text⟩]

/-- The items of anything that counts as a list. -/
def itemsOf? : Value → Option (List Value)
  | .list xs => some xs
  | .tuple xs => some xs
  | .set xs => some xs
  | _ => none

def options (v : Value) : List Problem :=
  match itemsOf? v with
  | some xs => eachItem option xs
  | none => here "Input should be a valid list"

/-- The attributes that fields of all types share. -/
def shared : List Attribute :=
  [⟨"id", true, filledText⟩, ⟨"key", true, filledText⟩, ⟨"label", true, text⟩,
    ⟨"placeholder", false, optional text⟩, ⟨"helpText", false, optional text⟩,
    ⟨"required", false, optional boolean⟩, ⟨"defaultValue", false, optional defaultValue⟩,
    ⟨"validation", false, optional rules⟩, ⟨"visibleWhen", false, optional text⟩,
    ⟨"computed", false, optional text⟩, ⟨"type", true, fun _ => []⟩]

/-- The attribute that only fields of one kind of type have. The problems of what a field owns are
found beforehand. -/
def special (type : FieldType) (owned : List Problem) : List Attribute :=
  match type with
  | .select | .multiselect | .radio => [⟨"options", true, options⟩]
  | .section =>
    [⟨"children", true, fun v =>
      if (itemsOf? v).isSome then owned else here "Input should be a valid list"⟩]
  | .array => [⟨"of", true, fun _ => owned⟩]
  | _ => []

def unknownType (v : Value) : String :=
  "Input tag '" ++ (v.plain?).getD "" ++ "' found using 'type' does not match any of the expected tags: "
    ++ ", ".intercalate (FieldType.names.map fun n => "'" ++ n ++ "'")

/-- The type of a field, by its name. -/
def typeOf? (v : Value) : Option FieldType := v.asText?.bind FieldType.ofName?

mutual

/-- The problems of a field. Those inside a field are located under its type. -/
def field : Field → List Problem
  | .node v children template =>
    match v with
    | .map es =>
      match Entries.get? es (.text "type") with
      | none => here "Unable to extract tag using discriminator 'type'"
      | some t =>
        match typeOf? t with
        | none => here (unknownType t)
        | some type =>
          let owned := if type = .array then ofTemplate template else ofChildren 0 children
          under type.name (attributes (shared ++ special type owned) es)
    | _ => here "Input should be a valid dictionary or object to extract fields from"

/-- The problems of the fields in a list, located by their positions from `index` on. -/
def ofChildren (index : Nat) : List Field → List Problem
  | [] => []
  | f :: fs => under (toString index) (field f) ++ ofChildren (index + 1) fs

def ofTemplate : Option Field → List Problem
  | none => []
  | some f => field f

end

end Shape

/-- The problems of a single field. -/
def fieldProblems (v : Value) : List Problem :=
  if v.isMap then Shape.field (.ofValue v) else Shape.here "Field must be a mapping"

def schemaVersion : Int := 1

/-- The problems of a whole schema. A schema of another version is not looked at any further. -/
def schemaProblems (v : Value) : Except Failure (List Problem) :=
  match v with
  | .map es =>
    match (Entries.get? es (.text "version")).getD .null with
    | .int 1 =>
      .ok (Shape.attributes
        [⟨"version", true, fun _ => []⟩,
          ⟨"fields", true, fun v =>
            if (Shape.itemsOf? v).isSome then Shape.ofChildren 0 (Field.itemsOf v)
            else Shape.here "Input should be a valid list"⟩] es)
    | version => do
      let shown ← version.quoted
      return Shape.here
        ("Unsupported schema version " ++ shown ++ "; expected " ++ toString schemaVersion)
  | _ => .ok (Shape.here "Schema must be a mapping with 'version' and 'fields'")

end FormDesigner
