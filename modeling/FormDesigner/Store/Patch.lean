import FormDesigner.Failure

/-!
# Patches

A patch is a mapping of attributes to new values. Null removes an attribute. Validation rules are
merged one by one, and null removes a rule. A field's id is not touched.
-/

namespace FormDesigner

namespace Patch

def mergeRule (rules : Entries) (rule value : Value) : Entries :=
  if value.isNull then Entries.erase rules rule else Entries.insert rules rule value

/-- The validation rules of a field, or none. -/
def rulesOf (field : Value) : Entries := (field.getOrNull "validation").entriesOf

def mergeRules (field : Value) (patch : Entries) : Value :=
  let rules := patch.foldl (fun rules e => mergeRule rules e.1 e.2) (rulesOf field)
  if !rules.isEmpty || field.has "validation" then field.put "validation" (.map rules) else field

/-- A field with an attribute changed. -/
def mergeAttribute (field name value : Value) : Value :=
  if (Value.text "id").same name then field
  else
    match value, (Value.text "validation").same name, field with
    | .map rules, true, _ => mergeRules field rules
    | .null, _, .map es => .map (Entries.erase es name)
    | v, _, .map es => .map (Entries.insert es name v)
    | _, _, v => v

/-- A field with all attributes of a patch changed, in the order of the patch. -/
def merge (field : Value) (patch : Entries) : Value :=
  patch.foldl (fun field e => mergeAttribute field e.1 e.2) field

end Patch

end FormDesigner
