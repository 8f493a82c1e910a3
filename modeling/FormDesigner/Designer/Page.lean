import FormDesigner.Designer.Inspector
import FormDesigner.Page.Drawing

/-!
# The designer

The designer draws the schema of the session's store as a tree, with a palette of new fields above it and
an inspector of the selected field beside it, and import, export and history below. Every change goes
through the store, and its outcome is shown next to the control that asked for it.
-/

namespace FormDesigner

namespace Designer

open Drawing Element

def key (name : String) : String × Value := ("key", .text name)

def value (v : Value) : String × Value := ("value", v)

def disabled (b : Bool) : String × Value := ("disabled", .bool b)

def textOf (v : Value) (name : String) : Drawing String := do ofExcept (do (← v.entry name).plain)

def labelOf (type : Value) : Drawing String := ofExcept (FieldType.labelOf type)

/-- Draws the page again if an edit was a success. -/
def redrawAfter (edited : Editing Outcome) : Drawing Unit := do
  if ← reportOutcome (← edit edited) "" then redraw

/-! ### Above the tree -/

/-- The section that is selected, if it is one: fields are added and pasted there. -/
def targetIn? (selected : Option Value) : Option Value :=
  (selected.filter Value.isSection).map fun s => s.getOrNull "id"

def drawToolbar : Drawing Unit := do
  add (.columns [1, 1, 1, 3])
  let before ← store
  if ← button (control "button" "↩️ Undo"
      [disabled !before.history.canUndo, key "designer_undo"]) then
    let _ ← reportOutcome (← edit Editing.undo) ""
    redraw
  if ← button (control "button" "↪️ Redo"
      [disabled !before.history.canRedo, key "designer_redo"]) then
    let _ ← reportOutcome (← edit Editing.redo) ""
    redraw
  if ← button (control "button" "📋 Paste"
      [disabled before.clipboard.isNone, key "designer_paste"]) then
    let r ← edit (Editing.paste (.ofOption (targetIn? before.selectedField?)))
    if ← reportOutcome r "" then
      edit (Editing.select r.field)
      redraw
  let info ← ofExcept (Schema.info (← store).schema)
  add (.caption (toString info.fieldCount ++ " fields, " ++ toString info.requiredFields.length
    ++ " required, " ++ toString info.computedFields.length ++ " computed"))

/-- The types of fields as properties of a control. -/
def typeProperties : List (String × Value) :=
  [("options", .list (FieldType.all.map fun t => .text t.name)),
    ("labels", .list (FieldType.all.map fun t => .text t.label))]

def addNew (type label : Value) (selected : Option Value) : Drawing Unit := do
  let field ← edit (Editing.newField type label)
  let r ← edit (match targetIn? selected with
    | some target => Editing.addChild target field
    | none => Editing.addField field)
  if ← reportOutcome r "" then
    edit (Editing.select (field.getOrNull "id"))
    redraw

def drawPalette : Drawing Unit := do
  let selected := (← store).selectedField?
  add (.subheader "🧩 Palette")
  add (.columns [2, 2, 1])
  let type ← choice (control "selectbox" "Field type" (key "palette_type" :: typeProperties))
  let typeLabel := Value.text (← labelOf type)
  let label ← textBox (control "text_input" "Label" [value typeLabel, key "palette_label"])
  add (.write "")
  if ← button (control "button" "➕ Add" [key "palette_add"]) then
    addNew type (if label.isTrue then label else typeLabel) selected
  if let some s := selected then
    if s.isSection then
      add (.caption ("New fields go into section '" ++ (← textOf s "label")
        ++ "'. Deselect it to add at the root."))

/-! ### The tree -/

/-- Moves a field among those that stand beside it. -/
def move (owner : Option Value) (source target : Nat) : Drawing Unit :=
  redrawAfter (match owner with
    | none => Editing.moveField (.int source) (.int target)
    | some id => Editing.moveChild id (.int source) (.int target))

/-- Wide spaces, one for each level. -/
def indent (depth : Nat) : String := String.ofList (List.replicate depth '\u2003')

/-- The line of a field: a button that selects it, and two that move it. -/
def drawLine (v : Value) (owner : Option Value) (index count depth : Nat) : Drawing Unit := do
  add (.columns [6, 1, 1])
  let id ← ofExcept (v.entry "id")
  let idText ← ofExcept id.plain
  let isSelected := id.equals (← store).selected
  let line := indent depth ++ (if isSelected then "👉 " else "") ++ (← textOf v "label") ++ " · `"
    ++ (← textOf v "key") ++ "` (" ++ (← labelOf (← ofExcept (v.entry "type"))) ++ ")"
  if ← button (control "button" line
      [key ("select_" ++ idText), ("use_container_width", .bool true)]) then
    edit (Editing.select (if isSelected then .null else id))
    redraw
  if ← button (control "button" "⬆️" [key ("up_" ++ idText), disabled (index == 0)]) then
    move owner index (index - 1)
  if ← button (control "button" "⬇️" [key ("down_" ++ idText), disabled (index + 1 == count)]) then
    move owner index (index + 1)

/-- What an array has for items. -/
def drawTemplate (v : Value) (depth : Nat) : Drawing Unit := do
  let template := v.getOrNull "of"
  if v.isArray && template.isMap then
    add (.caption (indent (depth + 1) ++ "↳ each item: " ++ (← textOf template "label") ++ " ("
      ++ (← labelOf (← ofExcept (template.entry "type"))) ++ ")"))

mutual

def drawNode (owner : Option Value) (index count depth : Nat) : Field → Drawing Unit
  | .node v children _ => do
    drawLine v owner index count depth
    if v.isSection then
      drawNodes (some (v.getOrNull "id")) 0 children.length (depth + 1) children
    else drawTemplate v depth

/-- Draws fields that stand beside each other, from one with a given index on. -/
def drawNodes (owner : Option Value) (index count depth : Nat) : List Field → Drawing Unit
  | [] => return ()
  | f :: fs => do
    drawNode owner index count depth f
    drawNodes owner (index + 1) count depth fs

end

def drawTree : Drawing Unit := do
  let before ← store
  add (.subheader "🌳 Fields")
  if !before.fields.isTrue then add (.info "The schema is empty. Add a field from the palette.")
  drawNodes none 0 before.rootCount 0 before.forest

/-! ### The inspector -/

/-- An attribute of a field as the content of a box. -/
def content (v : Value) (name : String) : Value :=
  let w := v.getOrNull name
  if w.isTrue then w else .text ""

def entryOr (v : Value) (name : String) (fallback : Value) : Value := (v.get? name).getD fallback

/-- The form of the inspector: what its boxes hold, and whether it was handed in. -/
def drawForm (field : Value) (start : String) : Drawing (Value × Bool) := do
  let named (name : String) : String × Value := key (start ++ name)
  let line (label : String) (held : Value) (name : String) (more : List (String × Value)) :
      Drawing Value :=
    textBox (control "text_input" label (value held :: named name :: more))
  add ⟨"form", [], [named "_form"]⟩
  let label ← line "Label" (entryOr field "label" (.text "")) "_label" []
  let fieldKey ← line "Key" (entryOr field "key" (.text "")) "_key" []
  let oldType ← ofExcept (field.entry "type")
  let index := (FieldType.ofValue? oldType).bind fun t => FieldType.all.idxOf? t
  let type ← choice (control "selectbox" "Type"
    ([named "_type", ("index", .int (index.getD 0))] ++ typeProperties))
  let placeholder ← line "Placeholder" (content field "placeholder") "_placeholder" []
  let help ← line "Help text" (content field "helpText") "_help" []
  let required ← checkbox (control "checkbox" "Required"
    [value (.bool (field.getOrNull "required").isTrue), named "_required"])
  let default ← line "Default value"
    (.text (← ofExcept (Inspector.defaultText (field.getOrNull "defaultValue")))) "_default" []
  let rules := field.getOrNull "validation"
  let bound (name : String) : Drawing Value := do
    return .text (← ofExcept (Inspector.numberText (rules.getOrNull name)))
  add (.evenColumns 2)
  let low ← line "Min" (← bound "min") "_min" []
  let high ← line "Max" (← bound "max") "_max" []
  let regex ← line "Pattern (regex)" (content rules "regex") "_regex" []
  let options ←
    if (FieldType.ofValue? oldType).any FieldType.isChoice then do
      let held ← ofExcept (Inspector.optionsText (field.getOrNull "options"))
      pure [("options", ← textBox (control "text_area" "Options (value | label, one per line)"
        [value (.text held), named "_options"]))]
    else pure []
  let visible ← line "Visible when" (content field "visibleWhen") "_visible"
    [("help", .text "Example: age >= 18 and country == \"NZ\"")]
  let computed ← line "Computed value" (content field "computed") "_computed"
    [("help", .text "Example: price * quantity")]
  let isSubmitted ← button (control "form_submit_button" "💾 Apply" [])
  return (.ofFields ([("label", label), ("key", fieldKey), ("type", type),
    ("placeholder", placeholder), ("helpText", help), ("required", required),
    ("defaultValue", default), ("min", low), ("max", high), ("regex", regex)] ++ options
    ++ [("visibleWhen", visible), ("computed", computed)]), isSubmitted)

/-- Says what is odd about an expression of the selected field. -/
def drawFeedback (title : String) (source : Value) : Drawing Unit := do
  let text ← ofExcept (Inspector.textOf source)
  if Text.isAllBlank text then return ()
  let limits ← limits
  match ← ofExcept (Expression.check limits source) with
  | some m => add (.warning ("⚠️ " ++ title ++ ": " ++ m))
  | none =>
    let known := (← store).keys
    let unknown := (← ofExcept (Expression.referencedKeys limits source)).filter fun k =>
      !(Value.text k).among known
    if !unknown.isEmpty then
      add (.caption (title ++ " reads unknown keys: " ++ ", ".intercalate unknown))

/-- Warns of an expression that was handed in and cannot be read. -/
def warnAbout (patch : Value) (name : String) : Drawing Unit := do
  match ← ofExcept (Expression.check (← limits) (patch.getOrNull name)) with
  | some m => if m ≠ "" then add (.warning ("⚠️ " ++ name ++ ": " ++ m))
  | none => return ()

/-- Whether a failure is the user's, who typed something that is no number. -/
def isMistyped (f : Failure) : Bool := f.isFault FaultKind.isValue

def mistyped : Report.Setting where
  context := "inspector input"
  area := .userInput
  userMessage := "⚠️ Min and max must be numbers."

def drawCopyAndRemove (id : Value) (start : String) : Drawing Unit := do
  add (.evenColumns 2)
  if ← button (control "button" "📄 Copy" [key (start ++ "_copy")]) then
    let _ ← reportOutcome (← edit (Editing.copy id)) ""
  if ← button (control "button" "🗑️ Remove" [key (start ++ "_remove")]) then
    redrawAfter (Editing.removeField id)

def inspect (field : Value) : Drawing Unit := do
  let id ← ofExcept (field.entry "id")
  let start := "inspect_" ++ (← ofExcept id.plain)
  let (form, isSubmitted) ← drawForm field start
  drawFeedback "Visible when" (field.getOrNull "visibleWhen")
  drawFeedback "Computed value" (field.getOrNull "computed")
  if isSubmitted then
    match Inspector.patch field form with
    | .error e => if isMistyped e then report e mistyped else ofExcept (.error e)
    | .ok patch =>
      warnAbout patch "visibleWhen"
      warnAbout patch "computed"
      redrawAfter (Editing.updateField id patch)
      drawCopyAndRemove id start
  else drawCopyAndRemove id start

def drawInspector : Drawing Unit := do
  let selected := (← store).selectedField?
  add (.subheader "🔧 Inspector")
  match selected with
  | none => add (.info "Select a field to edit its properties.")
  | some field => inspect field

/-! ### Below the tree -/

def importSetting : Report.Setting where
  context := "schema import"
  area := .importing

/-- Replaces the schema by the one in a file. -/
def importFile (octets : List UInt8) : Drawing Unit := do
  let read : Except Failure Value :=
    match Text.ofOctets? octets with
    | some s => Schema.parseText s
    | none => .error .undecodable
  match read with
  | .error (.rejected problems m) => report (.rejected problems m) importSetting
  | .error (.fault .decoding m) => report (.fault .decoding m) importSetting
  | .error e => ofExcept (.error e)
  | .ok document =>
    if ← reportOutcome (← edit (Editing.importSchema document)) "✅ Schema imported" then
      sit (modify Session.withoutPreview)

def drawImportExport : Drawing Unit := do
  add (.subheader "📦 Import / Export")
  let file ← upload (control "file_uploader" "Import schema"
    [("type", .list [.text "json", .text "yaml", .text "yml"]), key "designer_import"])
  if let some octets := file then
    if ← button (control "button" "📥 Import" [key "designer_import_apply"]) then
      importFile octets
  let exported := Value.text (← ofExcept (← store).exportText)
  add (control "download_button" "📤 Export JSON"
    [("data", exported), ("file_name", .text "schema.json"), ("mime", .text "application/json"),
      key "designer_export"])
  add (.expander "Schema JSON")
  add ⟨"code", [exported], [("language", .text "json")]⟩

/-- Shows what a command answered, if there was one. -/
def drawReply : Reply → Drawing Unit
  | .outcome r => addAll (Report.ofOutcome r "")
  | .value _ => throw (.failure .noMember)

def drawShortcut : Drawing Unit := do
  add ⟨"form", [], [key "shortcut_form", ("clear_on_submit", .bool true)]⟩
  let combo ← textBox (control "text_input" "Keyboard shortcut"
    [("placeholder", .text "ctrl+z"), key "shortcut_combo"])
  if ← button (control "form_submit_button" "Run" []) then
    let replies := (← sit (Sitting.hear combo)).filterMap id
    if replies.isEmpty then
      add (.info ("ℹ️ No action is bound to '" ++ (← ofExcept combo.plain) ++ "'"))
    replies.forM drawReply

def drawHistory : Drawing Unit := do
  let before ← store
  add (.subheader "🕘 History")
  add (.caption (toString before.history.past.length ++ " undo step(s), "
    ++ toString before.history.future.length ++ " redo step(s)"))
  (← ofExcept before.lastChange).forM fun line => add (.write ("- " ++ line))
  drawShortcut

/-- Draws the designer. -/
def draw : Drawing Unit := do
  let _ ← store
  drawToolbar
  add (.columns [1, 1])
  drawPalette
  drawTree
  drawInspector
  add .divider
  add (.columns [1, 1])
  drawImportExport
  drawHistory

end Designer

end FormDesigner
