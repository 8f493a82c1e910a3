import FormDesigner.Schema.Shape
import FormDesigner.Yaml.Reader
import FormDesigner.Yaml.Writer

/-!
# The inspector

The inspector shows the attributes of a field as texts and turns what was typed into a patch for the
field. Numbers without a fraction become integers, default values are written in YAML, options one
per line, and a blank text takes its attribute away.
-/

namespace FormDesigner

namespace Inspector

/-- A text that may be missing. Null and everything empty count as no text. -/
def textOf (v : Value) : Except Failure String :=
  match v with
  | .text s => .ok s
  | v => if v.isTrue then .error .noMember else .ok ""

/-- The number typed into a box; none if the box is blank. -/
def parseNumber (typed : Value) : Except Failure (Option Number) := do
  let s := Text.trim (← textOf typed)
  if s.isEmpty then return none
  else
    let x ← Yaml.floatText s.toList
    match x.isInteger, x.truncate? with
    | true, some n => return some (.int n)
    | _, _ => return some (.float x)

/-- A number as it is shown in a box. -/
def numberText (v : Value) : Except Failure String :=
  match v with
  | .null => .ok ""
  | .float x =>
    match x.isInteger, x.truncate? with
    | true, some n => Value.plain (.int n)
    | _, _ => v.plain
  | v => v.plain

/-- The default value typed into a box; null if the box is blank. What is no YAML is text. -/
def parseDefault (typed : Value) : Except Failure Value := do
  let s := Text.trim (← textOf typed)
  if s.isEmpty then return .null
  else
    match Yaml.read false s with
    | .ok v => return v
    | .error (.fault .markup _) => return .text s
    | .error e => .error e

/-- A text without the mark that ends a document. -/
def withoutEndMark (s : String) : String :=
  if s.endsWith "..." then String.ofList (s.toList.take (s.length - 3)) else s

/-- A default value as it is shown in a box. -/
def defaultText (v : Value) : Except Failure String :=
  match v with
  | .null => .ok ""
  | .text s => .ok s
  | v => do
    let written ← Yaml.write .inline v
    return Text.trim (withoutEndMark (Text.trim written))

/-- Characters that end a line. -/
def endsLine (c : Char) : Bool :=
  let n := c.toNat
  (0xa ≤ n && n ≤ 0xd) || (0x1c ≤ n && n ≤ 0x1e) || n == 0x85 || n == 0x2028 || n == 0x2029

/-- The lines of a text. A carriage return and a line feed end a line together. -/
def lines : List Char → List (List Char)
  | [] => []
  | '\r' :: '\n' :: rest => [] :: lines rest
  | c :: rest =>
    if endsLine c then [] :: lines rest
    else
      match lines rest with
      | l :: ls => (c :: l) :: ls
      | [] => [[c]]

/-- The option that a line writes: its value and its label, which is the value if it is left out. -/
def optionOf (line : List Char) : Value :=
  let value := Text.trimChars (line.takeWhile (· != '|'))
  let label := Text.trimChars ((line.dropWhile (· != '|')).drop 1)
  .ofFields [("value", .text (String.ofList value)),
    ("label", .text (String.ofList (if label.isEmpty then value else label)))]

/-- The options typed into a box, one on each line that is not blank. -/
def parseOptions (typed : Value) : Except Failure (List Value) := do
  let s ← textOf typed
  return ((lines s.toList).filter fun l => !l.all Text.isBlank).map optionOf

/-- The line of an option. -/
def optionLine (v : Value) : Except Failure String := do
  let label ← v.entry "label"
  let value ← v.entry "value"
  if label.equals value then
    match value with
    | .text s => return s
    | _ => .error .wrongKind
  else return (← value.plain) ++ " | " ++ (← label.plain)

/-- The options of a field as they are shown in a box. -/
def optionsText (v : Value) : Except Failure String :=
  if v.isTrue then do
    let items ← match v with
      | .list xs => pure xs
      | .tuple xs => pure xs
      | _ => .error .wrongKind
    return "\n".intercalate (← items.mapM optionLine)
  else .ok ""

/-- The text under a name without the blanks around it. -/
def trimmed (form : Value) (name : String) : Except Failure String := do
  match ← form.entry name with
  | .text s => return Text.trim s
  | _ => .error .noMember

def orNull (s : String) : Value := if s.isEmpty then .null else .text s

/-- A value, or null if it counts as nothing. -/
def valueOrNull (v : Value) : Value := if v.isTrue then v else .null

def ofNumber? (n : Option Number) : Value := (n.map Value.ofNumber).getD .null

/-- The patch that makes a field what its form says. -/
def patch (field form : Value) : Except Failure Value := do
  let key ← trimmed form "key"
  let label ← form.entry "label"
  let placeholder ← form.entry "placeholder"
  if !placeholder.isTrue && !field.isMap then .error .wrongKind
  let help ← form.entry "helpText"
  let required ← form.entry "required"
  let visible ← trimmed form "visibleWhen"
  let computed ← trimmed form "computed"
  let default ← parseDefault (← form.entry "defaultValue")
  let low ← parseNumber (← form.entry "min")
  let high ← parseNumber (← form.entry "max")
  let regex ← form.entry "regex"
  let type ← form.entry "type"
  let oldType ← field.entry "type"
  let options ←
    if form.has "options" && (type.asText?.bind FieldType.ofName?).any FieldType.isChoice then do
      pure [("options", Value.list (← parseOptions (← form.entry "options")))]
    else pure []
  return .ofFields
    ([("key", .text key), ("label", label),
      ("placeholder", if placeholder.isTrue || field.has "placeholder" then placeholder else .null),
      ("helpText", valueOrNull help), ("required", if required.isTrue then .bool true else .null),
      ("visibleWhen", orNull visible), ("computed", orNull computed), ("defaultValue", default),
      ("validation",
        .ofFields [("min", ofNumber? low), ("max", ofNumber? high), ("regex", valueOrNull regex)])]
    ++ (if type.equals oldType then [] else [("type", type)])
    ++ options)

end Inspector

end FormDesigner
