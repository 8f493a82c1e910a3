import FormDesigner.Field.Tree
import FormDesigner.Value.Difference

/-!
# What changed between two schemas

Fields are matched by their ids, so a renamed field counts as changed and not as removed and added.
A field counts as moved if its owner changed, or its rank among those siblings that both schemas
have; a shift that only follows from added or removed siblings is no move.
-/

namespace FormDesigner

namespace Schema

/-- A field with the id of its owner, null at the root, and its position there. -/
structure Located where
  field : Value
  owner : Value
  position : Nat

/-- Located fields by id, in the order in which the ids were first met. -/
abbrev FieldIndex := List (Value × Located)

namespace FieldIndex

/-- Enters a field; the last one with an id counts. -/
def enter (index : FieldIndex) (id : Value) (l : Located) : Except Failure FieldIndex :=
  if !id.isHashable then .error .wrongKind
  else if index.any fun e => id.same e.1 then
    .ok (index.map fun e => if id.same e.1 then (e.1, l) else e)
  else .ok (index ++ [(id, l)])

def get? (index : FieldIndex) (id : Value) : Option Located :=
  (index.find? fun e => id.same e.1).map (·.2)

mutual

def ofField (index : FieldIndex) (owner : Value) (position : Nat) :
    Field → Except Failure FieldIndex
  | .node v children template => do
    if !v.isMap then .error .noMember
    else
      let id := v.getOrNull "id"
      let index ← enter index id ⟨v, owner, position⟩
      let below := v.getOrNull "children"
      if v.isSection && below.isTrue then
        if let some e := below.walkFault? then .error e
      let index ← ofFields index id 0 children
      ofTemplate index id template

def ofFields (index : FieldIndex) (owner : Value) (position : Nat) :
    List Field → Except Failure FieldIndex
  | [] => .ok index
  | f :: fs => do ofFields (← ofField index owner position f) owner (position + 1) fs

def ofTemplate (index : FieldIndex) (owner : Value) : Option Field → Except Failure FieldIndex
  | none => .ok index
  | some (.node v children template) =>
    if v.isMap then ofField index owner 0 (.node v children template) else .ok index

end

/-- All fields of a schema. -/
def ofSchema (schema : Value) : Except Failure FieldIndex := do
  if !schema.isMap then .error .noMember
  else
    let fields := (schema.get? "fields").getD (.list [])
    if let some e := fields.walkFault? then .error e
    ofFields [] .null 0 (Field.itemsOf fields)

/-- The fields whose ids another index has too. -/
def sharedWith (index other : FieldIndex) : FieldIndex :=
  index.filter fun e => (other.get? e.1).isSome

/-- How many fields of an index stand before a located one under the same owner. -/
def rank (index : FieldIndex) (l : Located) : Nat :=
  (index.filter fun e => e.2.owner.same l.owner && e.2.position < l.position).length

end FieldIndex

/-- A field named by its type and key. -/
def typeAndKey (field : Value) : Except Failure String := do
  return (← (field.getOrNull "type").plain) ++ " field '" ++ (← (field.getOrNull "key").plain) ++ "'"

/-- The lines about a field that both schemas have. -/
def fieldLines (oldShared newShared : FieldIndex) (old new : Located) :
    Except Failure (List String) := do
  let names := Difference.attributes old.field.entriesOf new.field.entriesOf
  let key := (new.field.getOrNull "key").plain
  let changed ←
    if names.isEmpty then pure []
    else do pure ["Changed '" ++ (← key) ++ "': " ++ ", ".intercalate names]
  let isMoved := !old.owner.equals new.owner || oldShared.rank old != newShared.rank new
  let moved ←
    if isMoved then do
      pure ["Moved '" ++ (← key) ++ "' from position " ++ toString old.position ++ " to "
        ++ toString new.position]
    else pure []
  return changed ++ moved

/-- What changed from one schema to another, a line for each change. -/
def describeChanges (old new : Value) : Except Failure (List String) := do
  let oldIndex ← FieldIndex.ofSchema old
  let newIndex ← FieldIndex.ofSchema new
  let added ← (newIndex.filter fun e => (oldIndex.get? e.1).isNone).mapM fun e => do
    return "Added " ++ (← typeAndKey e.2.field)
  let removed ← (oldIndex.filter fun e => (newIndex.get? e.1).isNone).mapM fun e => do
    return "Removed " ++ (← typeAndKey e.2.field)
  let oldShared := oldIndex.sharedWith newIndex
  let newShared := newIndex.sharedWith oldIndex
  let both ← newShared.mapM fun e =>
    match oldIndex.get? e.1 with
    | some l => fieldLines oldShared newShared l e.2
    | none => return []
  let oldVersion := old.getOrNull "version"
  let newVersion := new.getOrNull "version"
  let version ←
    if oldVersion.equals newVersion then pure []
    else do
      pure ["Version changed from " ++ (← oldVersion.plain) ++ " to " ++ (← newVersion.plain)]
  return added ++ removed ++ both.flatten ++ version

end Schema

end FormDesigner
