import FormDesigner.Field.Factory
import FormDesigner.Schema.Changes
import FormDesigner.Schema.Source
import FormDesigner.Storage.Basic
import FormDesigner.Store.Clipboard
import FormDesigner.Store.History
import FormDesigner.Store.Outcome

/-!
# The document store

A store holds the schema that is being edited, with its history, the selection and the clipboard. It
may have a storage, to which its state goes after every change, and listeners, who are then told.
Work on a store is `Editing`: an edit that fails half-way leaves behind what it has done so far.
-/

namespace FormDesigner

/-- What a store needs of the machine that it runs on. -/
structure Host where
  disk : Disk
  supply : Supply
  /-- The time that it is. -/
  clock : Moment

/-- The time, as it is written into what is stored. -/
def Host.timestamp (h : Host) : String := h.clock.isoText

/-- Someone who is told of changes. -/
structure Listener where
  number : Nat
  tag : Value

/-- What a listener is told: how many fields the schema has at its root. -/
structure Notice where
  tag : Value
  rootCount : Nat

structure Store where
  schema : Value
  history : History
  selected : Value
  clipboard : Clipboard
  storage : Option Storage
  listeners : List Listener
  /-- How many listeners there have ever been. -/
  subscriptions : Nat
  notices : List Notice
  host : Host

/-- Work on a store. -/
abbrev Editing := Work Store

namespace Store

/-- A store without a past. -/
def start (host : Host) (schema : Value) (capacity : Capacity) (storage : Option Storage) : Store where
  schema
  history := .empty capacity
  selected := .null
  clipboard := none
  storage
  listeners := []
  subscriptions := 0
  notices := []
  host

/-- A store for a schema, given as a value or as text, or for an empty one. -/
def create (host : Host) (schema capacity : Value) (storage : Option Storage) :
    Except Failure Store := do
  let schema ← if schema.isNull then pure Schema.empty else Schema.load schema
  return start host schema (← Capacity.ofValue capacity) storage

/-- The fields at the root, as they stand in the schema. -/
def fields (s : Store) : Value := s.schema.getOrNull "fields"

def forest (s : Store) : Forest := Schema.forest s.schema

def rootCount (s : Store) : Nat := s.forest.length

/-- The keys that are in use. -/
def keys (s : Store) : List Value := Forest.keys s.forest

def find? (s : Store) (id : Value) : Option Field := Forest.find? id s.forest

def selectedField? (s : Store) : Option Value :=
  if s.selected.isNull then none else (s.find? s.selected).map Field.value

/-- The canonical text of the schema. -/
def exportText (s : Store) : Except Failure String := Schema.exportText s.schema

/-- What the last edit changed that can be undone. -/
def lastChange (s : Store) : Except Failure (List String) := do
  match s.history.past.getLast? with
  | none => return []
  | some snapshot => Schema.describeChanges (← snapshot.restore) s.schema

/-- What there is to know of a store at a glance, apart from its schema. -/
def overview (s : Store) : List (String × Value) :=
  [("labels", s.history.labels), ("selected", s.selected), ("can", s.history.reach),
    ("clipboard_empty", .bool s.clipboard.isNone)]

/-- All that is kept of a store between sessions. -/
def state (s : Store) : Except Failure Value := do
  return .ofFields
    [("schema", s.schema), ("history", ← s.history.toValue), ("selectedId", s.selected)]

def subscribe (s : Store) (tag : Value) : Store :=
  { s with
    listeners := s.listeners ++ [⟨s.subscriptions, tag⟩]
    subscriptions := s.subscriptions + 1 }

/-- Stops telling a listener; nothing happens if that was done before. -/
def unsubscribe (s : Store) (number : Nat) : Store :=
  { s with listeners := s.listeners.filter fun l => l.number ≠ number }

/-- Tells every listener. -/
def notify (s : Store) : Store :=
  { s with notices := s.notices ++ s.listeners.map fun l => ⟨l.tag, s.rootCount⟩ }

end Store

namespace Editing

def onHistory {α : Type} (w : Work History α) : Editing α :=
  Work.onPart Store.history (fun s h => { s with history := h }) w

def onSupply {α : Type} (w : Minting α) : Editing α :=
  Work.onPart (fun s : Store => s.host.supply)
    (fun s supply => { s with host := { s.host with supply } }) w

def onDisk {α : Type} (w : Work Disk α) : Editing α :=
  Work.onPart (fun s : Store => s.host.disk)
    (fun s disk => { s with host := { s.host with disk } }) w

def timestamp : Editing String := return (← get).host.timestamp

/-- Saves the state if there is a storage. That it cannot be saved does not matter. -/
def persist : Editing Unit := do
  match (← get).storage with
  | none => return ()
  | some storage =>
    let state ← Work.ofExcept (← get).state
    match ← Work.attempt (onDisk (storage.save (← timestamp) state)) with
    | .ok storage => modify fun s => { s with storage := some storage }
    | .error (.storage ..) => return ()
    | .error e => throw e

/-- What follows every change. -/
def announce : Editing Unit := do
  persist
  modify Store.notify

/-- Selects a field, or nothing. The field need not exist. -/
def select (id : Value) : Editing Unit := do
  if id.equals (← get).selected then return ()
  modify fun s => { s with selected := id }
  announce

end Editing

end FormDesigner
