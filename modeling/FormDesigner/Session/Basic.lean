import FormDesigner.Config.Basic
import FormDesigner.Form.Values
import FormDesigner.Shortcut.Binding
import FormDesigner.Store.Restore
import FormDesigner.Value.Equality

/-!
# Sessions

A session is what one person works in. It opens its store once, from the configuration, and keeps named
entries beside it: the page that is shown, what was entered into the preview, the state of widgets. The
standard shortcuts are attached to the session's source of key events for as long as the session lasts.
Beginning a session that has begun changes nothing; resetting it drops everything and begins again.
-/

namespace FormDesigner

structure Session where
  /-- The store, or what it will run on. -/
  ground : Host ⊕ Store
  entries : Entries
  /-- Who listens to the key events; absent until the session has begun. -/
  wiring : Option Wiring

/-- Work in a session. -/
abbrev Sitting := Work Session

namespace Session

/-- A session before it has begun. -/
def fresh (host : Host) : Session := ⟨.inl host, [], none⟩

def host (s : Session) : Host :=
  match s.ground with
  | .inl host => host
  | .inr store => store.host

def store? (s : Session) : Option Store :=
  match s.ground with
  | .inl _ => none
  | .inr store => some store

def config (s : Session) : Except Failure Value := Config.load s.host.disk Config.standardPath

def setting (s : Session) (part name : String) (fallback : Value) : Except Failure Value := do
  Config.settingIn (← s.config) (.text part) (.text name) fallback

def limits (s : Session) : Expression.LimitSource := do Config.limitsOf (← s.config)

def get? (s : Session) (name : String) : Option Value := Entries.get? s.entries (.text name)

def put (s : Session) (name : String) (v : Value) : Session :=
  { s with entries := Entries.insert s.entries (.text name) v }

/-- Makes an entry unless there is one of that name. -/
def offer (s : Session) (name : String) (v : Value) : Session :=
  if (s.get? name).isSome then s else s.put name v

/-- The pages, the one that comes first being shown first. -/
def pages : List String := ["designer", "preview"]

def firstPage : Value := .text "designer"

def currentPage (s : Session) : Value := (s.get? "current_page").getD firstPage

/-- What was entered into the preview, as it is kept. -/
def previewValues (s : Session) : Value := (s.get? "preview_values").getD (.map [])

/-- A name for a session that begins at a given time. -/
def nameAt (t : Moment) : String :=
  "session_" ++ Date.padded 4 t.date.year ++ Date.padded 2 t.date.month ++ Date.padded 2 t.date.day
    ++ "_" ++ Date.padded 2 t.hour ++ Date.padded 2 t.minute ++ Date.padded 2 t.second

/-- Notes that something was done. -/
def touch (s : Session) : Session := s.put "last_activity" (.moment s.host.clock)

/-- The entries that a session has from its beginning. -/
def withEntries (s : Session) : Session :=
  let now := s.host.clock
  (((s.offer "current_page" firstPage).offer "preview_values" (.map [])).offer "session_id"
    (.text (nameAt now))).offer "last_activity" (.moment now)

/-- The one binding of a session, and its one source of key events. -/
def binding : Nat := 0
def keyEvents : Nat := 0

/-- Attaches the shortcuts to the key events. -/
def listening (s : Session) : Session :=
  { s with wiring := some ((s.wiring.getD .empty).attach binding keyEvents) }

/-- Whether an entry belongs to the preview, by the beginning of its name. -/
def isPreviewEntry (e : Value × Value) : Bool := (e.1.plain?.getD "").startsWith "preview_"

/-- Forgets all that was entered into the preview. -/
def withoutPreview (s : Session) : Session :=
  { s with entries := s.entries.filter fun e => !isPreviewEntry e }.put "preview_values" (.map [])

end Session

namespace Sitting

variable {α : Type}

def store : Sitting Store := do
  match (← get).store? with
  | some store => return store
  | none => throw .missingEntry

/-- Work on the session's store. -/
def edit (w : Editing α) : Sitting α := do
  let (r, store) := w.outcome (← store)
  modify fun s => { s with ground := .inr store }
  Work.ofExcept r

/-- Begins the session with the store that a configuration asks for. What is there already stays. -/
def start (config : Value) : Sitting Unit := do
  let s ← get
  if s.store?.isNone then
    let config ← if config.isTrue then pure config else Work.ofExcept s.config
    set { s with ground := .inr (← Work.ofExcept (Store.ofConfig s.host config)) }
  modify fun s => s.withEntries.listening

/-- Drops everything and begins again from the configuration. -/
def reset : Sitting Unit := do
  modify fun s => .fresh s.host
  start .null

/-- Shows another page. There are no pages but the known ones. -/
def turnTo (page : Value) : Sitting Unit := do
  let s ← get
  if (Session.pages.any fun p => page.equals (.text p)) && !page.equals s.currentPage then
    set (s.put "current_page" page).touch

/-- Values as entries, which other values than mappings only have if they are empty. -/
def enteredValues (v : Value) : Except Failure Entries :=
  match v with
  | .map es => .ok es
  | .list [] | .tuple [] | .set [] | .text "" | .bytes [] => .ok []
  | _ => .error .wrongKind

def previewValues : Sitting Entries := do Work.ofExcept (enteredValues (← get).previewValues)

/-- Keeps a value that was entered into the preview. -/
def keepValue (key v : Value) : Sitting Unit := do
  let values ← Work.ofExcept (Form.store (← previewValues) key v)
  modify fun s => (s.put "preview_values" (.map values)).touch

/-- The values of the form: what was entered, with defaults and computed values. -/
def resolvedValues : Sitting Entries := do
  let schema := (← store).schema
  let values ← previewValues
  Work.ofExcept (Form.resolve (← get).limits schema values)

/-- Hands a key event to whoever listens. -/
def hear (event : Value) : Sitting (List (Option Reply)) := do
  match (← get).wiring with
  | none => throw .missingEntry
  | some wiring =>
    let shortcuts ← Work.ofExcept (Shortcuts.ofValue .null)
    edit (dispatch (fun _ => shortcuts) (wiring.listeners Session.keyEvents) event)

def required (name : String) : Sitting Value := do
  match (← get).get? name with
  | some v => return v
  | none => throw .missingEntry

/-- The keys of a mapping in their order, if they have one. -/
def orderedKeys (v : Value) : Except Failure (List Value) :=
  match v with
  | .map es =>
    let keys := Entries.keys es
    if Value.areOrdered keys then .ok (keys.mergeSort Value.keyLe) else .error .wrongKind
  | _ => .error .noMember

def isoText : Value → Except Failure Value
  | .moment t => .ok (.text t.isoText)
  | .date d => .ok (.text d.isoText)
  | _ => .error .noMember

/-- A summary of the session. -/
def info : Sitting Value := do
  let store ← store
  let id ← required "session_id"
  let s ← get
  let keys ← Work.ofExcept (orderedKeys s.previewValues)
  let activity ← Work.ofExcept (isoText (← required "last_activity"))
  return .ofFields
    [("session_id", id), ("current_page", s.currentPage),
      ("field_count", .int store.keys.length), ("selected_id", store.selected),
      ("can_undo", .bool store.history.canUndo), ("can_redo", .bool store.history.canRedo),
      ("clipboard_empty", .bool store.clipboard.isNone),
      ("preview_value_keys", .list keys), ("last_activity", activity)]

end Sitting

end FormDesigner
