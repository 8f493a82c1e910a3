import FormDesigner.Calendar.Iso
import FormDesigner.Form.Values
import FormDesigner.Pattern.Matcher
import FormDesigner.Schema.Shape

/-!
# Checking the values of a form

Every visible field whose value is not computed is checked against its type and rules. The answer
lists the fields that were visited, each with a message or none. The items of an array are checked
against its template and are named by their position, such as `key[0]` or `key[0].child`.
-/

namespace FormDesigner

namespace Form

/-- Whether a value counts as not given: null, blank text, no items, or a number that is not
finite. -/
def isMissing (v : Value) : Bool :=
  match v with
  | .null => true
  | .text s => Text.isAllBlank s
  | .list xs => xs.isEmpty
  | .tuple xs => xs.isEmpty
  | .float x => !x.isFinite
  | _ => false

def requiredMessage : String := "This field is required."

def numberMessage : String := "Enter a valid number."

def dateMessage : String := "Enter a valid date."

def patternMessage : String := "Value does not match pattern."

/-- The rules of a field; null, false and empty ones are none at all. -/
def rulesOf (field : Value) : Except Failure Value :=
  let rules := field.getOrNull "validation"
  if rules.isMap then .ok rules
  else if rules.isTrue then .error .noMember
  else .ok (.map [])

/-- A bound among the rules of a field. -/
def bound? (field : Value) (name : String) : Except Failure (Option Number) := do
  return ((← rulesOf field).getOrNull name).asNumber?

/-- The text of a bound in a message. -/
def boundText (n : Number) : Except Failure String :=
  match (Value.ofNumber n).joinText? with
  | some s => .ok s
  | none => .error .integerTextLimit

/-- Checks a quantity against the bounds of a field. The messages have the bound between a beginning
and an end. -/
def checkBounds (field : Value) (n : Number) (low high : String × String) :
    Except Failure (Option String) := do
  let lo ← bound? field "min"
  let hi ← bound? field "max"
  let message (b : Number) (around : String × String) : Except Failure (Option String) := do
    return some (around.1 ++ (← boundText b) ++ around.2)
  match lo.filter n.lt with
  | some b => message b low
  | none =>
    match hi.filter fun b => b.lt n with
    | some b => message b high
    | none => return none

def checkNumber (field v : Value) : Except Failure (Option String) :=
  match v.toNumber? with
  | none => .ok (some numberMessage)
  | some n =>
    if n.isFinite then checkBounds field n ("Must be ≥ ", ".") ("Must be ≤ ", ".")
    else .ok (some numberMessage)

/-- Checks how many items there are. -/
def checkCount (field v : Value) (verb noun : String) : Except Failure (Option String) :=
  match v.asSequence? with
  | none => .ok none
  | some xs =>
    checkBounds field (.int xs.length) (verb ++ " at least ", noun) (verb ++ " at most ", noun)

def isDateText (s : String) : Bool :=
  let s := Text.trim s
  (Date.ofIso? s).isSome || (Moment.ofIso? s).isSome

def checkDate (v : Value) : Option String :=
  match v with
  | .date _ => none
  | .moment _ => none
  | .text s => if isDateText s then none else some dateMessage
  | _ => some dateMessage

namespace PatternFault

/-- A text that is no pattern is no rule. The few texts that cannot be read for other reasons stop
the check. -/
def toFailure? : Pattern.ReadFault → Option Failure
  | .malformed => none
  | .countTooLarge => some (.fault .overflow "")
  | .countTooLong n => some (.integerDigitLimit n)
  | .mixedAlphabets => some (.fault .value "ASCII and UNICODE flags are incompatible")

end PatternFault

/-- Whether a text has what a pattern describes. -/
def matchesPattern (pattern text : String) : Except Failure Bool :=
  match Pattern.read pattern with
  | .ok p => .ok (p.occursIn text)
  | .error f =>
    match PatternFault.toFailure? f with
    | some e => .error e
    | none => .ok true

/-- The text of a value that is checked as text. -/
def checkedText (v : Value) : Except Failure String :=
  match v with
  | .date d => .ok d.isoText
  | .moment t => .ok t.isoText
  | v =>
    match v.joinText? with
    | some s => .ok s
    | none => .error .integerTextLimit

def checkText (field v : Value) : Except Failure (Option String) := do
  let text ← checkedText v
  let fits ←
    match (← rulesOf field).getOrNull "regex" with
    | .text pattern => if pattern.isEmpty then pure true else matchesPattern pattern text
    | _ => pure true
  if !fits then return some patternMessage
  else
    checkBounds field (.int text.length)
      ("Must be at least ", " characters.") ("Must be at most ", " characters.")

/-- Checks a value by the type of its field. -/
def checkByType (field v : Value) : Except Failure (Option String) := do
  match (field.getOrNull "type").asText?.bind FieldType.ofName? with
  | some .number => checkNumber field v
  | some .multiselect => checkCount field v "Select" "."
  | some .array => checkCount field v "Add" " items."
  | some .date =>
    match checkDate v with
    | some m => return some m
    | none => checkText field v
  | some .text => checkText field v
  | some .select => checkText field v
  | some .radio => checkText field v
  | _ => return none

/-- What is wrong with the value of one field. Hidden and computed fields are never wrong. -/
def fieldMessage? (limits : Expression.LimitSource) (field : Value) (values : Entries) :
    Except Failure (Option String) := do
  Field.demandMap field
  if !(← isShown limits field values) then return none
  else if Field.hasComputed field || field.isSection then return none
  else
    let v ← lookUp values (field.getOrNull "key")
    if isMissing v then
      return if (field.getOrNull "required").isTrue then some requiredMessage else none
    else checkByType field v

/-- The fields that were visited, by name, each with its message. -/
abbrev Report := List (Value × Option String)

namespace Report

/-- Notes the message of a field; a field of the same name keeps its place. -/
def note (r : Report) (name : Value) (message : Option String) : Except Failure Report :=
  if !name.isHashable then .error .wrongKind
  else if r.any fun e => name.same e.1 then
    .ok (r.map fun e => if name.same e.1 then (e.1, message) else e)
  else .ok (r ++ [(name, message)])

/-- The fields with a message. -/
def failing (r : Report) : List (Value × String) := r.filterMap fun (n, m) => m.map (n, ·)

def hasErrors (r : Report) : Bool := !r.failing.isEmpty

/-- One line for each field with a message. -/
def lines (r : Report) : Except Failure (List String) :=
  r.failing.mapM fun (n, m) => return (← n.plain) ++ ": " ++ m

end Report

/-- The name of a field inside a container. -/
def innerName (start : String) (v : Value) : Except Failure Value := do
  return .text (start ++ (← (v.getOrNull "key").plain))

mutual

/-- Checks a field and what it owns. The names of its children begin with `start`. -/
def visit (limits : Expression.LimitSource) (values : Entries) (r : Report) (name : Value)
    (start : String) : Field → Except Failure Report
  | .node v children template => do
    Field.demandMap v
    if !(← isShown limits v values) then r.note name none
    else
      let r ← r.note name (← fieldMessage? limits v values)
      if v.isSection then
        Field.demandItems (v.getOrNull "children")
        visitAll limits values r start children
      else
        match template.filter fun t => t.value.isMap && !Field.hasComputed v with
        | none => return r
        | some _ =>
          match (← lookUp values (v.getOrNull "key")).asSequence? with
          | none => return r
          | some items => visitItems limits values r name template items

def visitAll (limits : Expression.LimitSource) (values : Entries) (r : Report) (start : String) :
    List Field → Except Failure Report
  | [] => .ok r
  | f :: fs => do
    Field.demandMap f.value
    let r ← visit limits values r (← innerName start f.value) start f
    visitAll limits values r start fs

/-- Checks the items of an array against its template. -/
def visitItems (limits : Expression.LimitSource) (values : Entries) (r : Report) (name : Value) :
    Option Field → List Value → Except Failure Report
  | none, _ => .ok r
  | some f, items =>
    items.zipIdx.foldlM (fun r (item, i) => do
      let itemName := (← name.plain) ++ "[" ++ toString i ++ "]"
      let values ← itemValues f.value item values
      visit limits values r (.text itemName) (itemName ++ ".") f) r

end

/-- Checks all fields of a form. -/
def report (limits : Expression.LimitSource) (schema : Value) (values : Entries) :
    Except Failure Report := do
  (← Field.rootsOf schema).foldlM (fun r f => do
    Field.demandMap f.value
    visit limits values r f.key "" f) []

end Form

end FormDesigner
