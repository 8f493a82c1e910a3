import FormDesigner.Calendar.Written.Reader
import FormDesigner.Form.Values
import FormDesigner.Schema.Shape
import FormDesigner.Text.Octets

/-!
# Form values in widgets

A widget shows a form value in a form of its own: a date as a date, a number as a floating-point number,
a choice only if it is one of the options. What the user enters is turned back. Cells of a table that are
empty in any of the ways in which a table can leave them empty become null.
-/

namespace FormDesigner

namespace Preview

/-- The key of a field's widget. -/
def widgetKey (field : Value) : Except Failure String := do
  return "preview_" ++ (← (← field.entry "id").plain)

/-- The date that a text writes, where `today` has what the text lacks. -/
def writtenDate (today : Date) (s : String) : Except Failure Value :=
  match WrittenDate.read today s with
  | .ok d => .ok (.date d)
  | .error .unreadable => .ok .null
  | .error .tooPrecise => .error (.fault (.other "InvalidOperation") "")

def dateShown (today : Date) : Value → Except Failure Value
  | .moment t => .ok (.date t.date)
  | .date d => .ok (.date d)
  | .text s => if Text.isAllBlank s then .ok .null else writtenDate today s
  | _ => .ok .null

/-- The floating-point number that a text writes, or null. -/
def numberOfText (s : String) : Value := ((Text.readFloat? s).map Value.float).getD .null

def numberShown : Value → Except Failure Value
  | .int n =>
    match Binary64.ofInt? n with
    | some x => .ok (.float x)
    | none => .error (.fault .overflow "")
  | .float x => .ok (.float x)
  | .text s => .ok (numberOfText s)
  | .bytes bs =>
    .ok (if bs.all (· < 0x80) then numberOfText ((Text.ofOctets? bs).getD "") else .null)
  | _ => .ok .null

/-- The values of the options of a field. -/
def optionValues (field : Value) : Except Failure (List Value) := do
  let options := field.getOrNull "options"
  if options.isTrue then (← options.elements).mapM fun o => o.entry "value" else return []

/-- What a field's widget shows for a form value. -/
def shown (today : Date) (field v : Value) : Except Failure Value := do
  if !field.isMap then .error .noMember
  else
    match (field.getOrNull "type").asText?.bind FieldType.ofName? with
    | some .date => dateShown today v
    | some .number => numberShown v
    | some .checkbox => return .bool v.isTrue
    | some .multiselect => return .list (v.asSequence?.getD [])
    | some .select | some .radio =>
      if v.among (← optionValues field) then return v else return .null
    | _ => if v.isNull then return .text "" else return .text (← v.plain)

/-- A number without a fraction as an integer. -/
def integral (x : Binary64) : Value :=
  if x.isInteger then (x.truncate?.map Value.int).getD (.float x) else .float x

/-- The form value for what a field's widget holds. -/
def entered (field v : Value) : Except Failure Value :=
  if !field.isMap then .error .noMember
  else
    match (field.getOrNull "type").asText?.bind FieldType.ofName?, v with
    | some .date, .date d => .ok (.text d.isoText)
    | some .date, .moment t => .ok (.text t.isoText)
    | some .date, _ => .ok .null
    | some .number, .float x => .ok (integral x)
    | _, v => .ok v

/-- Types of fields with a widget for a single value. -/
def hasWidget (type : Value) : Bool :=
  match type.asText?.bind FieldType.ofName? with
  | some .section | some .array | none => false
  | some _ => true

/-- Whether the form value of a field is the one that its widget holds. -/
def followsWidget (field : Value) : Except Failure Bool :=
  if !field.isMap then .error .noMember
  else if !(field.getOrNull "type").isHashable then .error .wrongKind
  else .ok (hasWidget (field.getOrNull "type") && !Field.hasComputed field)

mutual

/-- Takes over what the widgets of a field, or of the fields in a section, hold. -/
def syncField (state : Entries) (values : Entries) : Field → Except Failure Entries
  | .node v children _ => do
    if v.isSection then
      Field.demandItems (v.getOrNull "children")
      syncAll state values children
    else
      let key := Value.text (← widgetKey v)
      if ← followsWidget v then
        match Entries.get? state key with
        | none => return values
        | some held => do
          let w ← entered v held
          Form.store values (← v.entry "key") w
      else return values

def syncAll (state : Entries) (values : Entries) : List Field → Except Failure Entries
  | [] => .ok values
  | f :: fs => do syncAll state (← syncField state values f) fs

end

/-- The form values after what the widgets hold has been taken over. -/
def sync (state : Entries) (fields : Value) (values : Entries) : Except Failure Entries := do
  if let some e := fields.walkFault? then .error e
  syncAll state values (Field.itemsOf fields)

/-- Whether a cell holds nothing, or a list that comes down to a single cell of this sort. -/
def isBlankCell : Value → Bool
  | .null => true
  | .float x => x.isNan
  | .list [v] => isBlankCell v
  | .tuple [v] => isBlankCell v
  | _ => false

/-- The content of a table cell. -/
def cleaned (v : Value) : Value :=
  match v with
  | .tuple _ => v
  | v => if isBlankCell v then .null else v

end Preview

end FormDesigner
