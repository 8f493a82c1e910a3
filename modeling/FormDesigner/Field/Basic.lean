import FormDesigner.Failure

/-!
# Fields

A field is a mapping with named attributes. A section owns the fields under its `children`, an array
owns the template under its `of`; nothing else owns anything. `Field` is the view of a value that
shows this ownership as a tree, so that walks over fields are recursions on the tree. Every node
keeps the value it was read from.
-/

namespace FormDesigner

inductive Field where
  | node (value : Value) (children : List Field) (template : Option Field)
deriving Inhabited

namespace Value

/-- A mapping whose type is the given one. -/
def hasType (v : Value) (name : String) : Bool :=
  v.isMap && (v.getOrNull "type").equals (.text name)

def isSection (v : Value) : Bool := v.hasType "section"

def isArray (v : Value) : Bool := v.hasType "array"

end Value

namespace Field

/-- Whether a key of a mapping is the given text. -/
def isKey (key : Value) (name : String) : Bool := (Value.text name).same key

mutual

def ofValue : Value → Field
  | .map es =>
    .node (.map es)
      (if Value.isSection (.map es) then childrenIn es else [])
      (if Value.isArray (.map es) then templateIn es else none)
  | v => .node v [] none

def childrenIn : List (Value × Value) → List Field
  | [] => []
  | (k, v) :: rest => if isKey k "children" then itemsOf v else childrenIn rest

def templateIn : List (Value × Value) → Option Field
  | [] => none
  | (k, v) :: rest => if isKey k "of" then some (ofValue v) else templateIn rest

def itemsOf : Value → List Field
  | .list xs => ofValues xs
  | .tuple xs => ofValues xs
  | .set xs => ofValues xs
  | _ => []

def ofValues : List Value → List Field
  | [] => []
  | v :: vs => ofValue v :: ofValues vs

end

def value : Field → Value
  | .node v _ _ => v

def children : Field → List Field
  | .node _ cs _ => cs

def template : Field → Option Field
  | .node _ _ t => t

def get? (f : Field) (name : String) : Option Value := f.value.get? name

def get (f : Field) (name : String) : Value := f.value.getOrNull name

def id (f : Field) : Value := f.get "id"

def key (f : Field) : Value := f.get "key"

def isSection (f : Field) : Bool := f.value.isSection

def isArray (f : Field) : Bool := f.value.isArray

/-- The template of an array, where it is a field at all. -/
def itemTemplate (f : Field) : Option Field := f.template.filter fun t => t.value.isMap

/-- The field with its children replaced. -/
def withChildren (f : Field) (children : List Value) : Value :=
  f.value.put "children" (.list children)

end Field

/-- An ordered list of fields. -/
abbrev Forest := List Field

namespace Forest

def ofValues (vs : List Value) : Forest := Field.ofValues vs

def toValues (fs : Forest) : List Value := fs.map Field.value

end Forest

namespace Value

/-- Whether a value can be walked through item by item, and what is wrong with it if not. -/
def walkFault? : Value → Option Failure
  | .list _ => none
  | .tuple _ => none
  | .set _ => none
  | .text s => if s.isEmpty then none else some .noMember
  | .map es => if es.isEmpty then none else some .noMember
  | .bytes bs => if bs.isEmpty then none else some .noMember
  | _ => some .wrongKind

end Value

namespace Field

mutual

/-- What keeps a value from being walked through as a field: a node that is no mapping, or a section
whose children are no list. -/
def fault? : Field → Option Failure
  | .node v children template =>
    if !v.isMap then some .noMember
    else
      let own :=
        if v.isSection && (v.getOrNull "children").isTrue then (v.getOrNull "children").walkFault?
        else none
      own <|> faultIn? children <|> faultOf? template

def faultIn? : List Field → Option Failure
  | [] => none
  | f :: fs => fault? f <|> faultIn? fs

def faultOf? : Option Field → Option Failure
  | some (.node v cs t) => if v.isMap then fault? (.node v cs t) else none
  | none => none

end

end Field

namespace Forest

/-- The fields of a value that lists them. -/
def read (v : Value) : Except Failure Forest :=
  match v.walkFault? with
  | some e => .error e
  | none =>
    let fs := Field.itemsOf v
    match Field.faultIn? fs with
    | some e => .error e
    | none => .ok fs

/-- The fields of a value that lists them, or none if it is null or empty. -/
def readOptional (v : Value) : Except Failure Forest :=
  if v.isTrue then read v else .ok []

end Forest

end FormDesigner
