import FormDesigner.Page.Element
import FormDesigner.Report.Display
import FormDesigner.Session.Basic

/-!
# Drawing pages

A page is drawn from top to bottom, for a session and for what was done on the page since it was drawn
last. Controls answer with what was done to them. Drawing stops early when the page has to be drawn
again, when there is nothing more to draw, or when something fails; what has been drawn until then stays.
-/

namespace FormDesigner

/-- What was done on a page: which buttons were pressed, and what was entered into which control. -/
structure Visit where
  pressed : List Value
  entered : Entries

/-- Why drawing stops early. -/
inductive Interruption where
  | failure (e : Failure)
  /-- The page has to be drawn again. -/
  | redraw
  | halt

structure Page where
  session : Session
  visit : Visit
  shown : List Element

abbrev Drawing := ExceptT Interruption (StateM Page)

namespace Drawing

variable {α : Type}

/-- How drawing a page for a session ends, and the page. -/
def outcome (d : Drawing α) (s : Session) (v : Visit) : Except Interruption α × Page :=
  d.run ⟨s, v, []⟩

/-- Work in the session. -/
def sit (w : Sitting α) : Drawing α := fun p =>
  let (r, session) := w.outcome p.session
  (r.mapError .failure, { p with session })

def ofExcept (r : Except Failure α) : Drawing α := sit (Work.ofExcept r)

/-- Work on the session's store. -/
def edit (w : Editing α) : Drawing α := sit (Sitting.edit w)

def store : Drawing Store := sit Sitting.store

def limits : Drawing Expression.LimitSource := return (← get).session.limits

def setting (part name : String) (fallback : Value) : Drawing Value := do
  ofExcept ((← get).session.setting part name fallback)

def add (e : Element) : Drawing Unit := modify fun p => { p with shown := p.shown ++ [e] }

def addAll (es : List Element) : Drawing Unit := es.forM add

/-- Has the page drawn again. -/
def redraw : Drawing α := do
  add ⟨"rerun", [], []⟩
  throw .redraw

def halt : Drawing α := do
  add ⟨"stop", [], []⟩
  throw .halt

/-- Shows a failure. -/
def report (f : Failure) (s : Report.Setting) : Drawing Unit := do
  addAll (← ofExcept (Report.failure f s))

/-- Shows an outcome, and says whether it was a success. -/
def reportOutcome (r : Outcome) (successMessage : String) : Drawing Bool := do
  addAll (Report.ofOutcome r successMessage)
  return r.ok

/-- Whether a button was pressed; one that is disabled never was. -/
def button (e : Element) : Drawing Bool := do
  add e
  return !e.isDisabled && e.name.among (← get).visit.pressed

/-- What was entered into a control, if anything. -/
def entered? (e : Element) : Drawing (Option Value) := do
  add e
  return Entries.get? (← get).visit.entered e.name

/-- The content of a box: what was entered, else its own value, else a given one. -/
def box (e : Element) (fallback : Value) : Drawing Value := do
  return (← entered? e).getD ((e.property? "value").getD fallback)

def textBox (e : Element) : Drawing Value := box e (.text "")

def checkbox (e : Element) : Drawing Value := box e (.bool false)

/-- The option that a control starts with. -/
def initialOption (e : Element) : Value :=
  let options := ((e.property? "options").bind Value.asList?).getD []
  let index := match e.property? "index" with
    | some (.int n) => n.toNat
    | _ => 0
  (options[index]?).getD .null

/-- The option that was chosen, or the one that the control starts with. -/
def choice (e : Element) : Drawing Value := do return (← entered? e).getD (initialOption e)

/-- The octets of the file that was handed over, if any. -/
def upload (e : Element) : Drawing (Option (List UInt8)) := do
  match ← entered? e with
  | some (.bytes octets) => return some octets
  | some (.text s) => return some (Text.toOctets s)
  | _ => return none

/-- The table that a table became under the user's hands. -/
def tableEditor (t : Table) (properties : List (String × Value)) : Drawing Table := do
  match ← entered? ⟨"data_editor", [t.toValue], properties⟩ with
  | some v =>
    let records := (v.asList?.getD []).map Value.entriesOf
    return .ofRecords (Table.namesIn records) records
  | none => return t

end Drawing

end FormDesigner
