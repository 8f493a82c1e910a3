import FormDesigner.Store.Basic
import FormDesigner.Store.Patch

/-!
# Edits

Every edit first works out the fields that the schema would have, and checks them: a new or changed
field must have the right shape, and no id and no key may occur twice. Only then is the schema as it was
noted in the history and replaced. An edit that is refused says why and changes nothing.
-/

namespace FormDesigner

namespace Editing

open Value (text)

/-- Why a value is refused as a field, if it is. -/
def malformed? (field : Value) : Option Outcome :=
  let problems := (fieldProblems field).map Problem.text
  if problems.isEmpty then none
  else some (.failure .invalidField "Field definition is malformed" (field.getOrNull "id") problems)

/-- Why fields cannot stand together in a schema, if they cannot. -/
def clash? (fields : List Value) : Except Failure (Option Outcome) := do
  let fs := Forest.ofValues fields
  match duplicates (Forest.ids fs) with
  | id :: _ =>
    return some (.failure .duplicateId ("Field id '" ++ (← id.plain) ++ "' is already in use") id [])
  | [] =>
    match duplicates (Forest.keys fs) with
    | key :: _ =>
      return some
        (.failure .duplicateKey ("Field key '" ++ (← key.plain) ++ "' is already in use") .null [])
    | [] => return none

def notFound (id : Value) : Except Failure Outcome := do
  return .failure .notFound ("No field with id '" ++ (← id.plain) ++ "'") id []

/-- The section with an id, or why there is none. -/
def section? (s : Store) (id : Value) : Except Failure (Except Outcome Field) := do
  match s.find? id with
  | none => return .error (← notFound id)
  | some f =>
    if f.isSection then return .ok f
    else
      return .error
        (.failure .notASection ("Field '" ++ (← f.key.plain) ++ "' is not a section") id [])

/-- Makes fields the present ones. -/
def commit (fields : List Value) (label : String) (id : Value) : Editing Outcome := do
  let s ← get
  onHistory (History.record s.host.timestamp s.schema (.text label))
  modify fun s => { s with schema := s.schema.put "fields" (.list fields) }
  announce
  return .success label id

/-- Makes fields the present ones unless an id or a key occurs twice among them. -/
def commitChecked (fields : List Value) (label : String) (id : Value) : Editing Outcome := do
  match ← Work.ofExcept (clash? fields) with
  | some r => return r
  | none => commit fields label id

/-- The fields at the root and one more. -/
def withRoot (s : Store) (field : Value) : Except Failure (List Value) :=
  match s.fields with
  | .list fs => .ok (fs ++ [field])
  | _ => .error .wrongKind

/-- Adds a field at the end of the root. -/
def addField (field : Value) : Editing Outcome := do
  match malformed? field with
  | some r => return r
  | none =>
    let fields ← Work.ofExcept (withRoot (← get) field)
    commitChecked fields "add_field" (field.getOrNull "id")

/-- Adds a field at the end of a section. -/
def addChild (target field : Value) : Editing Outcome := do
  let s ← get
  match ← Work.ofExcept (section? s target) with
  | .error r => return r
  | .ok _ =>
    match malformed? field with
    | some r => return r
    | none =>
      commitChecked (Forest.insertChild target field s.forest) "add_child" (field.getOrNull "id")

/-- Why a field cannot get a type or an id that a patch asks for, if it cannot. -/
def refusedPatch? (id : Value) (field patch : Value) : Except Failure (Option Outcome) := do
  let refuse (message : String) : Outcome := .failure .invalidPatch message id []
  match patch.get? "id" with
  | some other => if !other.equals id then return some (refuse "A field's id cannot be changed")
  | none => pure ()
  let type := (patch.get? "type").getD (field.getOrNull "type")
  if (FieldType.ofValue? type).isNone then
    return some (refuse ("Unsupported field type '" ++ (← type.plain) ++ "'"))
  return none

/-- A field with a patch merged into it, and reshaped if it got another type. -/
def patched (field : Value) (patch : Entries) : Editing Value := do
  let merged := Patch.merge field patch
  let type := (Entries.get? patch (.text "type")).getD (field.getOrNull "type")
  if type.equals (field.getOrNull "type") then return merged
  else
    let keys := (← get).keys
    onSupply (Factory.retype merged type (.list keys))

/-- Changes attributes of a field. -/
def updateField (id patch : Value) : Editing Outcome := do
  match patch with
  | .map entries =>
    let s ← get
    match s.find? id with
    | none => Work.ofExcept (notFound id)
    | some f =>
      match ← Work.ofExcept (refusedPatch? id f.value patch) with
      | some r => return r
      | none =>
        let updated ← patched f.value entries
        match malformed? updated with
        | some r => return r
        | none =>
          if Difference.differ f.value updated then
            commitChecked (Forest.replace id updated s.forest) "update_field" id
          else return .unchanged "Patch does not change the field" .ok id
  | _ => return .failure .invalidPatch "Patch must be a mapping" id []

/-- Drops the selection if it is among the given ids. -/
def deselect (ids : List Value) : Editing Unit := do
  let s ← get
  if !s.selected.isHashable then throw .wrongKind
  if s.selected.among ids then set { s with selected := .null }

/-- Removes a field and everything that it owns. -/
def removeField (id : Value) : Editing Outcome := do
  let s ← get
  match s.find? id with
  | none => Work.ofExcept (notFound id)
  | some f =>
    deselect (Forest.ids [f])
    commit (Forest.remove id s.forest) "remove_field" id

/-- A position in a list of a given length, if a value is one. -/
def position? (size : Nat) : Value → Option Nat
  | .int n => if 0 ≤ n ∧ n < size then some n.toNat else none
  | _ => none

def outOfRange (size : Nat) (index owner : Value) : Except Failure Outcome := do
  if size = 0 then return .failure .outOfRange "There is nothing to move" owner []
  else
    return .failure .outOfRange
      ("Position " ++ (← index.quoted) ++ " is outside 0.." ++ toString (size - 1)) owner []

/-- Moves one of several siblings, whose owner is null at the root. What the siblings become is put
into the schema by `rebuild`. -/
def moveAmong (siblings : Forest) (source target owner : Value) (label : String)
    (rebuild : List Value → List Value) : Editing Outcome := do
  let size := siblings.length
  match position? size source with
  | none => Work.ofExcept (outOfRange size source owner)
  | some i =>
    match position? size target with
    | none => Work.ofExcept (outOfRange size target owner)
    | some j =>
      let id := ((siblings[i]?).map Field.id).getD .null
      if i = j then return .unchanged "Field is already at that position" .ok id
      else commit (rebuild (moved siblings.toValues i j)) label id

/-- Moves a field at the root to another position there. -/
def moveField (source target : Value) : Editing Outcome := do
  moveAmong (← get).forest source target .null "move_field" id

/-- Moves a child of a section to another position there. -/
def moveChild (owner source target : Value) : Editing Outcome := do
  let s ← get
  match ← Work.ofExcept (section? s owner) with
  | .error r => return r
  | .ok f =>
    moveAmong f.children source target owner "move_child" fun children =>
      Forest.replaceChildren owner children s.forest

/-- Puts a field on the clipboard. -/
def copy (id : Value) : Editing Outcome := do
  match (← get).find? id with
  | none => Work.ofExcept (notFound id)
  | some f =>
    modify fun s => { s with clipboard := Clipboard.holding f.value }
    return .unchanged "Copied to clipboard" .ok id

def clearClipboard : Editing Unit := modify fun s => { s with clipboard := none }

/-- A copy of a field that can stand beside all present ones. -/
def freshCopy (field : Value) : Editing Value := do
  let keys := (← get).keys
  onSupply (Factory.regenerate field (.list keys))

/-- Adds a copy of what is on the clipboard at the end of a section, or of the root. -/
def paste (target : Value) : Editing Outcome := do
  let s ← get
  match s.clipboard with
  | none => return .unchanged "Clipboard is empty" .clipboardEmpty .null
  | some content =>
    if target.isNull then
      let field ← freshCopy content
      let fields ← Work.ofExcept (withRoot s field)
      commitChecked fields "paste" (field.getOrNull "id")
    else
      match ← Work.ofExcept (section? s target) with
      | .error r => return r
      | .ok _ =>
        let field ← freshCopy content
        commitChecked (Forest.insertChild target field s.forest) "paste" (field.getOrNull "id")

/-- Makes another schema the present one. -/
def present (schema : Value) (label : String) : Editing Outcome := do
  modify fun s => { s with schema }
  announce
  return .success label .null

def undo : Editing Outcome := do
  let s ← get
  match ← onHistory (History.undo s.host.timestamp s.schema) with
  | none => return .unchanged "Nothing to undo" .nothingToUndo .null
  | some schema => present schema "undo"

def redo : Editing Outcome := do
  let s ← get
  match ← onHistory (History.redo s.host.timestamp s.schema) with
  | none => return .unchanged "Nothing to redo" .nothingToRedo .null
  | some schema => present schema "redo"

/-- Replaces the whole schema by a document, given as a value or as text. This is one step of the
history even if the document is the present schema. -/
def importSchema (document : Value) : Editing Outcome := do
  match Schema.load document with
  | .error (.rejected problems message) =>
    return .failure .importFailed (Failure.rejected problems message).message .null problems
  | .error e => throw e
  | .ok schema =>
    modify fun s => { s with selected := .null }
    let s ← get
    onHistory (History.record s.host.timestamp s.schema (.text "import_schema"))
    present schema "import_schema"

/-- A new field with a key that is not in use. -/
def newField (type label : Value) : Editing Value := do
  let keys := (← get).keys
  onSupply (Factory.create type label (.list keys))

/-- Adds a new field at the end of a section, or of the root. -/
def create (type label : Value) (target : Option Value) : Editing Outcome := do
  let field ← newField type label
  match target with
  | none => addField field
  | some target => addChild target field

end Editing

end FormDesigner
