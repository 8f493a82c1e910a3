import FormDesigner.Field.Tree
import FormDesigner.Json.Writer
import FormDesigner.Schema.Shape
import FormDesigner.Text.Character

/-!
# Schema documents

A schema is valid if it has the right shape, no id and no key occurs twice among all its fields, and
no field's least value exceeds its greatest.
-/

namespace FormDesigner

namespace Schema

def empty : Value := .ofFields [("version", .int schemaVersion), ("fields", .list [])]

/-- The fields of a schema. -/
def forest (schema : Value) : Forest := Field.itemsOf (schema.getOrNull "fields")

/-- The canonical text of a schema. Equal schemas have the same text. -/
def exportText (schema : Value) : Except Failure String := Json.write .canonical schema

/-- What is wrong with the bounds of a field's values. -/
def rangeProblem (f : Field) : Except Failure (Option String) := do
  let rules := f.get "validation"
  match (rules.getOrNull "min").asQuantity?, (rules.getOrNull "max").asQuantity? with
  | some low, some high =>
    if high.lt low then
      let key ← f.key.plain
      let low ← (rules.getOrNull "min").plain
      let high ← (rules.getOrNull "max").plain
      return some ("Field '" ++ key ++ "' has min " ++ low ++ " greater than max " ++ high)
    else return none
  | _, _ => return none

/-- The problems of a document as lines of text; a valid schema has none. -/
def problems (document : Value) : Except Failure (List String) := do
  let shape ← schemaProblems document
  if !shape.isEmpty then return shape.map Problem.text
  else
    let fs := forest document
    let ids ← (duplicates (Forest.ids fs)).mapM fun v => do
      return "Duplicate field id '" ++ (← v.plain) ++ "'"
    let keys ← (duplicates (Forest.keys fs)).mapM fun v => do
      return "Duplicate field key '" ++ (← v.plain) ++ "'"
    let ranges ← (Forest.preorder true fs).mapM rangeProblem
    return ids ++ keys ++ ranges.filterMap id

/-- A valid schema as it is, or why it is rejected. -/
def accept (document : Value) : Except Failure Value := do
  let found ← problems document
  if found.isEmpty then return document else .error (.rejected found none)

/-- A summary of a schema. -/
structure Info where
  version : Value
  rootCount : Nat
  fieldCount : Nat
  requiredFields : List Value
  computedFields : List Value
  /-- How many fields there are of each type, in the order in which the types first occur. -/
  typeCounts : List (Value × Nat)

/-- The summary as a value: a mapping with all of its parts. -/
def Info.toValue (i : Info) : Value :=
  .ofFields [
    ("version", i.version), ("root_count", .int i.rootCount), ("field_count", .int i.fieldCount),
    ("required_fields", .list i.requiredFields), ("computed_fields", .list i.computedFields),
    ("field_types", .map (i.typeCounts.map fun (t, n) => (t, .int n)))]

/-- Whether a field has a computed expression, which must be text. -/
def hasComputedText (f : Field) : Except Failure Bool :=
  match f.get "computed" with
  | .text s => .ok (!Text.isAllBlank s)
  | v => if v.isTrue then .error .noMember else .ok false

def countType (counts : List (Value × Nat)) (type : Value) : List (Value × Nat) :=
  if counts.any fun c => type.same c.1 then
    counts.map fun c => if type.same c.1 then (c.1, c.2 + 1) else c
  else counts ++ [(type, 1)]

def info (schema : Value) : Except Failure Info := do
  if !schema.isMap then .error .noMember
  else
    let roots ← Forest.read ((schema.get? "fields").getD (.list []))
    let fs := Forest.preorder true roots
    let types ← Value.hashable (fs.map fun f => (f.get? "type").getD (.text "unknown"))
    let computed ← fs.filterM hasComputedText
    return {
      version := schema.getOrNull "version"
      rootCount := roots.length
      fieldCount := fs.length
      requiredFields := (fs.filter fun f => (f.get "required").isTrue).map Field.key
      computedFields := computed.map Field.key
      typeCounts := types.foldl countType [] }

end Schema

end FormDesigner
