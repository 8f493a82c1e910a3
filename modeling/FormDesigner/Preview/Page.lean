import FormDesigner.Form.Validation
import FormDesigner.Page.Drawing
import FormDesigner.Preview.Widget

/-!
# The preview

The preview draws the schema of the session's store as a form that can be filled in. A field is drawn if
its condition holds, with its message below it; computed values cannot be changed. An array is an
editable table with a row for each item.
-/

namespace FormDesigner

namespace Preview

/-- What is drawn: values that are complete, and the messages about them. -/
structure Filled where
  values : Entries
  messages : Form.Report

def textOf (v : Value) (name : String) : Drawing String := do
  Drawing.ofExcept (do (← v.entry name).plain)

/-- A value, or null if it counts as nothing. -/
def orNull (v : Value) : Value := if v.isTrue then v else .null

/-- The label of a field, with a mark if the field is required. -/
def markedLabel (v : Value) : Drawing String := do
  let label ← textOf v "label"
  return if (v.getOrNull "required").isTrue then label ++ " *" else label

/-- The options of a field as properties of a control: their values and their labels. -/
def optionProperties (v : Value) : Except Failure (List (String × Value)) := do
  let values ← optionValues v
  let options := (v.getOrNull "options").asList?.getD []
  let labels : Entries ← options.foldlM (fun found o => do
    return Entries.insert found (← o.entry "value") (← o.entry "label")) []
  return [("options", .list values),
    ("labels", .list (values.map fun o => (Entries.get? labels o).getD o))]

/-- The control for a field with a single value. -/
def control (v : Value) (key : String) : Drawing Element := do
  let label ← markedLabel v
  let common : List (String × Value) :=
    [("label", .text label), ("key", .text key), ("help", orNull (v.getOrNull "helpText")),
      ("disabled", .bool (Field.hasComputed v))]
  let placeholder := orNull (v.getOrNull "placeholder")
  let element (kind : String) (own : List (String × Value)) : Element := ⟨kind, [], own ++ common⟩
  let options ← Drawing.ofExcept (optionProperties v)
  return match FieldType.ofValue? (v.getOrNull "type") with
    | some .number => element "number_input" [("placeholder", placeholder)]
    | some .date => element "date_input" []
    | some .checkbox => element "checkbox" []
    | some .select =>
      element "selectbox" (options ++ [("placeholder",
        if placeholder.isNull then .text "Choose an option" else placeholder)])
    | some .radio => element "radio" options
    | some .multiselect => element "multiselect" options
    | _ => element "text_input" [("placeholder", placeholder)]

/-- Draws a field with a single value. A control that is not there yet starts with the value of the
form, and one for a computed value follows it. -/
def drawControl (v : Value) (filled : Filled) : Drawing Unit := do
  let key ← Drawing.ofExcept (widgetKey v)
  let session := (← get).session
  if Field.hasComputed v || (session.get? key).isNone then
    let held ← Drawing.ofExcept (do
      Form.lookUp filled.values (← v.entry "key"))
    let shown ← Drawing.ofExcept (shown session.host.clock.date v held)
    Drawing.sit (modify fun s => s.put key shown)
  Drawing.add (← control v key)

/-- The columns of an array's table: the children of the template, or one for the items themselves. -/
def columnsOf (template : Value) : Except Failure (List Value) :=
  if template.isSection then do
    let children := template.getOrNull "children"
    if children.isTrue then (← children.elements).mapM fun c => c.entry "key" else return []
  else return [.text "value"]

/-- What an item that should be a mapping has in its columns. -/
def itemRecord (columns : List Value) (item : Value) : Except Failure Entries :=
  if columns.isEmpty || !item.isTrue then .ok []
  else
    match item with
    | .map es => .ok es
    | _ => .error .noMember

def tableOf (template : Value) (columns items : List Value) : Except Failure Table :=
  if template.isSection then do return .ofRecords columns (← items.mapM (itemRecord columns))
  else return .ofCells (.text "value") items

/-- The items that a table stands for. Rows without any content stand for none. -/
def itemsOf (template : Value) (columns : List Value) (t : Table) : List Value :=
  let rows := t.records.map fun r =>
    columns.map fun c => (c, cleaned ((Entries.get? r c).getD .null))
  (rows.filter fun r => !r.all fun e => e.2.isNull).map fun r =>
    if template.isSection then .map r else (r.head?.map (·.2)).getD .null

/-- The messages about one item of an array. -/
def itemMessages (messages : Form.Report) (itemName : String) : List String :=
  messages.failing.filterMap fun (name, m) =>
    match name with
    | .text s => if s = itemName || s.startsWith (itemName ++ ".") then some m else none
    | _ => none

def hint (v : Value) : Drawing Unit := do
  if (v.getOrNull "helpText").isTrue then Drawing.add (.caption (← textOf v "helpText"))

def drawArray (v : Value) (filled : Filled) : Drawing Unit := do
  let template := if (v.getOrNull "of").isTrue then v.getOrNull "of" else .map []
  let key ← Drawing.ofExcept (v.entry "key")
  let held ← Drawing.ofExcept (Form.lookUp filled.values key)
  let items := held.asSequence?.getD []
  Drawing.add (.markdown ("**" ++ (← markedLabel v) ++ "**"))
  hint v
  let columns ← Drawing.ofExcept (columnsOf template)
  let table ← Drawing.ofExcept (tableOf template columns items)
  let edited ← Drawing.tableEditor table
    [("num_rows", .text "dynamic"), ("use_container_width", .bool true), ("hide_index", .bool true),
      ("disabled", .bool (Field.hasComputed v)),
      ("key", .text ("preview_" ++ (← textOf v "id") ++ "_items"))]
  let updated := itemsOf template columns edited
  for i in List.range items.length do
    let itemName := (← textOf v "key") ++ "[" ++ toString i ++ "]"
    for m in itemMessages filled.messages itemName do
      Drawing.add (.error ("Item " ++ toString (i + 1) ++ ": " ++ m))
  if !(Value.list updated).equals (.list items) && !Field.hasComputed v then
    Drawing.sit (Sitting.keepValue key (.list updated))
    Drawing.redraw

/-- The message about a field, below it. -/
def drawMessage (v : Value) (filled : Filled) : Drawing Unit := do
  let key ← Drawing.ofExcept (v.entry "key")
  match filled.messages.find? fun e => key.same e.1 with
  | some (_, some m) => Drawing.add (.error m)
  | _ => return ()

mutual

def drawField (filled : Filled) : Field → Drawing Unit
  | .node v children _ => do
    if ← Drawing.ofExcept (Form.isShown (← Drawing.limits) v filled.values) then
      if v.isSection then
        Drawing.add (.markdown ("#### " ++ (← textOf v "label")))
        hint v
        Drawing.add ⟨"container", [], [("border", .bool true)]⟩
        drawFields filled children
      else
        if v.isArray then drawArray v filled else drawControl v filled
        drawMessage v filled

def drawFields (filled : Filled) : List Field → Drawing Unit
  | [] => return ()
  | f :: fs => do
    drawField filled f
    drawFields filled fs

end

/-- What is below the fields. -/
def drawControls (filled : Filled) : Drawing Unit := do
  Drawing.add .divider
  Drawing.add (.columns [1, 1])
  if ← Drawing.button (.control "button" "✅ Validate" [("key", .text "preview_validate")]) then
    let failing := filled.messages.failing
    if failing.isEmpty then Drawing.add (.success "✅ All visible fields are valid")
    else Drawing.add (.error ("❌ " ++ toString failing.length ++ " field(s) need attention"))
  if ← Drawing.button (.control "button" "🔄 Reset form" [("key", .text "preview_reset")]) then
    Drawing.sit (modify Session.withoutPreview)
    Drawing.redraw
  Drawing.add (.expander "Values")
  Drawing.add (.json (.map filled.values))

/-- Draws the preview. What the widgets hold counts before anything is drawn. -/
def draw : Drawing Unit := do
  let schema := (← Drawing.store).schema
  Drawing.add (.subheader "👀 Preview")
  let fields := schema.getOrNull "fields"
  if !fields.isTrue then
    Drawing.add (.info "The schema has no fields yet. Add some in the designer.")
  else
    let raw ← Drawing.sit Sitting.previewValues
    let raw ← Drawing.ofExcept (sync (← get).session.entries fields raw)
    Drawing.sit (modify fun s => s.put "preview_values" (.map raw))
    let limits ← Drawing.limits
    let values ← Drawing.ofExcept (Form.resolve limits schema raw)
    let messages ← Drawing.ofExcept (Form.report limits schema values)
    let filled : Filled := ⟨values, messages⟩
    drawFields filled (Schema.forest schema)
    drawControls filled

end Preview

end FormDesigner
