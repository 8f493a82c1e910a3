import FormDesigner.Expression.Evaluate
import FormDesigner.Field.Tree

/-!
# The values of a form

The values of a form are a mapping from field keys to values. It starts with the default values of
the fields; computed fields are then worked out in the order of the fields, each seeing the values
before it. Fields inside sections take part like any others, the template of an array does not,
since it stands for each item and not for the array.
-/

namespace FormDesigner

namespace Field

/-- A node can only be looked into if it is a mapping. -/
def demandMap (v : Value) : Except Failure Unit :=
  if v.isMap then .ok () else .error .noMember

/-- Items can only be walked through if there is a list of them. Null and empty values have none. -/
def demandItems (v : Value) : Except Failure Unit :=
  if v.isTrue then
    match v.walkFault? with
    | some e => .error e
    | none => .ok ()
  else .ok ()

/-- The fields of a document, which are looked into one by one later. -/
def rootsOf (schema : Value) : Except Failure Forest := do
  demandMap schema
  demandItems (schema.getOrNull "fields")
  return itemsOf (schema.getOrNull "fields")

/-- Whether a field's value is computed. -/
def hasComputed (v : Value) : Bool :=
  match v.getOrNull "computed" with
  | .text s => !Text.isAllBlank s
  | _ => false

end Field

namespace Form

open FormDesigner.Field

/-- Stores the value of a key that may be any value at all. -/
def store (values : Entries) (key v : Value) : Except Failure Entries :=
  if key.isHashable then .ok (Entries.insert values key v) else .error .wrongKind

/-- The value of a key that may be any value at all. -/
def lookUp (values : Entries) (key : Value) : Except Failure Value :=
  if key.isHashable then .ok ((Entries.get? values key).getD .null) else .error .wrongKind

mutual

def seedField (values : Entries) : Field → Except Failure Entries
  | .node v children _ => do
    demandMap v
    let d := v.getOrNull "defaultValue"
    let values ← if d.isNull then pure values else store values (← v.entry "key") d
    if v.isSection then
      demandItems (v.getOrNull "children")
      seedAll values children
    else return values

def seedAll (values : Entries) : List Field → Except Failure Entries
  | [] => .ok values
  | f :: fs => do seedAll (← seedField values f) fs

end

/-- The default values of a form. -/
def defaults (schema : Value) : Except Failure Entries := do seedAll [] (← rootsOf schema)

mutual

def computeField (limits : Expression.LimitSource) (values : Entries) :
    Field → Except Failure Entries
  | .node v children _ => do
    demandMap v
    let values ←
      if hasComputed v then
        match ← Expression.computed? limits (v.getOrNull "computed") values with
        | some w => store values (← v.entry "key") w
        | none => pure values
      else pure values
    if v.isSection then
      demandItems (v.getOrNull "children")
      computeAll limits values children
    else return values

def computeAll (limits : Expression.LimitSource) (values : Entries) :
    List Field → Except Failure Entries
  | [] => .ok values
  | f :: fs => do computeAll limits (← computeField limits values f) fs

end

/-- The values with every computed field worked out. A field whose expression fails keeps its
value. -/
def withComputed (limits : Expression.LimitSource) (schema : Value) (values : Entries) :
    Except Failure Entries := do
  computeAll limits values (← rootsOf schema)

/-- Whether a field is shown with the given values, its containers aside. -/
def isShown (limits : Expression.LimitSource) (v : Value) (values : Entries) :
    Except Failure Bool :=
  Expression.isVisible limits (v.getOrNull "visibleWhen") values

mutual

def visibleIn (limits : Expression.LimitSource) (values : Entries) (keys : List Value) :
    Field → Except Failure (List Value)
  | .node v children _ => do
    demandMap v
    if ← isShown limits v values then
      let key ← v.entry "key"
      if !key.isHashable then .error .wrongKind
      let keys := if key.among keys then keys else keys ++ [key]
      if v.isSection then
        demandItems (v.getOrNull "children")
        visibleAll limits values keys children
      else return keys
    else return keys

def visibleAll (limits : Expression.LimitSource) (values : Entries) (keys : List Value) :
    List Field → Except Failure (List Value)
  | [] => .ok keys
  | f :: fs => do visibleAll limits values (← visibleIn limits values keys f) fs

end

/-- The keys of the visible fields. A hidden section hides everything inside it. -/
def visibleKeys (limits : Expression.LimitSource) (schema : Value) (values : Entries) :
    Except Failure (List Value) := do
  visibleAll limits values [] (← rootsOf schema)

/-- The default values, replaced by the given ones, with computed fields worked out. -/
def resolve (limits : Expression.LimitSource) (schema : Value) (values : Entries) :
    Except Failure Entries := do
  withComputed limits schema (Entries.insertAll (← defaults schema) values)

/-- The values that one item of an array sees. The item of a section is a mapping that is laid over
the form's values; any other item is the value of the template itself. -/
def itemValues (template item : Value) (values : Entries) : Except Failure Entries :=
  if template.isSection then
    match item with
    | .map es => .ok (Entries.insertAll values es)
    | _ => .ok values
  else do
    demandMap template
    store values (template.getOrNull "key") item

end Form

end FormDesigner
