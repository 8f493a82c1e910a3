import FormDesigner.Field.Basic

/-!
# Walking and changing forests

Searches go depth first and in order, into the children of sections but not into the templates of
arrays; only `preorder` also visits templates. Every change leaves its argument untouched and
returns the values of the new fields.
-/

namespace FormDesigner

namespace Forest

mutual

/-- The first field with an id. -/
def findField? (id : Value) : Field → Option Field
  | .node v children template =>
    if (v.getOrNull "id").equals id then some (.node v children template)
    else find? id children

def find? (id : Value) : List Field → Option Field
  | [] => none
  | f :: fs => findField? id f <|> find? id fs

end

/-- The position of the first field in a list with an id, its descendants aside. -/
def position? (id : Value) (fs : Forest) : Option Nat := fs.findIdx? fun f => f.id.equals id

mutual

/-- The section that owns a field with an id, and the field's position there. All children of a
section are looked at before any of their own children. -/
def ownerIn? (id : Value) : Field → Option (Field × Nat)
  | .node v children template =>
    match position? id children with
    | some i => some (.node v children template, i)
    | none => owner? id children

def owner? (id : Value) : List Field → Option (Field × Nat)
  | [] => none
  | f :: fs => ownerIn? id f <|> owner? id fs

end

/-- Where a field stands. -/
inductive Place where
  | nowhere
  | root (index : Nat)
  | inside (owner : Field) (index : Nat)

def place (id : Value) (fs : Forest) : Place :=
  match position? id fs with
  | some i => .root i
  | none =>
    match owner? id fs with
    | some (f, i) => .inside f i
    | none => .nowhere

mutual

def mapField (fn : Value → Value) : Field → Value
  | .node v children _ =>
    fn (if v.isSection then v.put "children" (.list (mapAll fn children)) else v)

/-- Changes every field by a function, children before their section. -/
def mapAll (fn : Value → Value) : List Field → List Value
  | [] => []
  | f :: fs => mapField fn f :: mapAll fn fs

end

mutual

def removeField (id : Value) : Field → List Value
  | .node v children _ =>
    if (v.getOrNull "id").equals id then []
    else if v.isSection then [v.put "children" (.list (remove id children))]
    else [v]

/-- Removes the fields with an id from wherever they stand. -/
def remove (id : Value) : List Field → List Value
  | [] => []
  | f :: fs => removeField id f ++ remove id fs

end

mutual

def appendIn (id new : Value) : Field → Value
  | .node v children _ =>
    if v.isSection then
      if (v.getOrNull "id").equals id then
        v.put "children" (.list (children.map Field.value ++ [new]))
      else v.put "children" (.list (append id new children))
    else v

/-- Appends a field to the children of the sections with an id. -/
def append (id new : Value) : List Field → List Value
  | [] => []
  | f :: fs => appendIn id new f :: append id new fs

end

/-- Appends a field to the section with an id; without such a section the fields stay as they
are. -/
def insertChild (id new : Value) (fs : Forest) : List Value :=
  match find? id fs with
  | some f => if f.isSection then append id new fs else fs.toValues
  | none => fs.toValues

/-- Puts another field in the place of the one with an id. -/
def replace (id new : Value) (fs : Forest) : List Value :=
  mapAll (fun v => if (v.getOrNull "id").equals id then new else v) fs

/-- Gives the section with an id other children. -/
def replaceChildren (id : Value) (children : List Value) (fs : Forest) : List Value :=
  mapAll (fun v =>
    if (v.getOrNull "id").equals id && v.isSection then v.put "children" (.list children) else v) fs

mutual

/-- A field and everything it owns, each node before what it owns. -/
def preorderOf (templates : Bool) : Field → List Field
  | .node v children template =>
    .node v children template :: preorder templates children
      ++ (if templates then preorderTemplate template else [])

def preorder (templates : Bool) : List Field → List Field
  | [] => []
  | f :: fs => preorderOf templates f ++ preorder templates fs

def preorderTemplate : Option Field → List Field
  | none => []
  | some (.node v children template) =>
    if v.isMap then preorderOf true (.node v children template) else []

end

/-- The ids of all fields, templates included. -/
def ids (fs : Forest) : List Value := (preorder true fs).map Field.id

/-- The keys of all fields, templates included. -/
def keys (fs : Forest) : List Value := (preorder true fs).map Field.key

end Forest

/-- Moves the element at one position to another position. -/
def moved {α : Type} (xs : List α) (source target : Nat) : List α :=
  match xs[source]? with
  | none => xs
  | some x => (xs.eraseIdx source).insertIdx target x

/-- Moves the element at one position to another, both of which must lie in the list. -/
def reorder (xs : List Value) (source target : Int) : Except Failure (List Value) :=
  let inside (i : Int) : Bool := 0 ≤ i && i < xs.length
  if inside source && inside target then .ok (moved xs source.toNat target.toNat)
  else
    .error (.fault .index
      ("Cannot move from " ++ toString source ++ " to " ++ toString target ++ " in a list of "
        ++ toString xs.length))

/-- One pass over the values: which have been seen, and which of them more than once. -/
def duplicatesFrom (seen found : List Value) : List Value → List Value
  | [] => found
  | v :: vs =>
    let found := if v.among seen && !v.among found then found ++ [v] else found
    duplicatesFrom (v :: seen) found vs

/-- The values that occur more than once, each once. -/
def duplicates (vs : List Value) : List Value := duplicatesFrom [] [] vs

namespace Value

mutual

/-- Whether a value can be looked up in a set. -/
def isHashable : Value → Bool
  | .list _ => false
  | .map _ => false
  | .set _ => false
  | .tuple xs => allHashable xs
  | _ => true

def allHashable : List Value → Bool
  | [] => true
  | v :: vs => isHashable v && allHashable vs

end

/-- The values, provided that each can be looked up in a set. -/
def hashable (vs : List Value) : Except Failure (List Value) :=
  if allHashable vs then .ok vs else .error .wrongKind

end Value

end FormDesigner
