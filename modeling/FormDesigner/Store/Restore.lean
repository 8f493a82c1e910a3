import FormDesigner.Store.Basic

/-!
# Restoring a store

A store takes over the state that its storage holds, provided that the schema and every snapshot of the
history are valid schemas. If there is no state to be had the store stays as it is; if the state is no
good the store becomes empty.
-/

namespace FormDesigner

/-- A state that has been read and checked. -/
structure StoredState where
  schema : Value
  history : History
  selected : Value

namespace StoredState

def invalidHistory (problems : List String) : Failure :=
  .rejected problems (some "Stored history contains an invalid schema")

def checkSnapshot (s : Snapshot) : Except Failure Unit := do
  let found ← Schema.problems (← s.restore)
  if found.isEmpty then return () else .error (invalidHistory found)

/-- A selection is the id of a field, or nothing. -/
def selection : Value → Value
  | .text id => .text id
  | _ => .null

def read (now : String) (capacity : Capacity) (state : Value) : Except Failure StoredState := do
  let schema ← Schema.load (← state.entry "schema")
  let history := state.getOrNull "history"
  let history ← History.ofValue now capacity (if history.isTrue then history else .map [])
  (history.past ++ history.future).forM checkSnapshot
  return ⟨schema, history, selection (state.getOrNull "selectedId")⟩

/-- Whether a failure says that a stored state is no good. -/
def isUnusable : Failure → Bool
  | .rejected .. => true
  | .fault kind _ => kind = .key || kind = .type || kind = .member || kind.isValue
  | _ => false

end StoredState

namespace Store

def emptied (s : Store) : Store :=
  { s with schema := Schema.empty, history := s.history.clear, selected := .null }

def withState (s : Store) (st : StoredState) : Store :=
  { s with schema := st.schema, history := st.history, selected := st.selected }

end Store

namespace Editing

/-- Takes over the stored state, and says whether there was one to take over. -/
def restore : Editing Bool := do
  let s ← get
  match s.storage with
  | none => return false
  | some storage =>
    match storage.load s.host.disk with
    | .error (.storage ..) => return false
    | .error e => throw e
    | .ok none => return false
    | .ok (some state) =>
      match StoredState.read s.host.timestamp s.history.capacity state with
      | .ok st =>
        set (s.withState st)
        return true
      | .error e =>
        if StoredState.isUnusable e then
          set s.emptied
          return false
        else throw e

end Editing

namespace Store

/-- A store that goes on from the state in a storage. -/
def ofStorage (host : Host) (capacity : Value) (storage : Option Storage) : Except Failure Store := do
  let s ← create host .null capacity storage
  let (r, s) := Editing.restore.outcome s
  let _ ← r
  return s

/-- The capacity of the history that a configuration asks for. -/
def configuredCapacity (config : Value) : Except Failure Value :=
  if !config.isMap then .error .noMember
  else
    let settings := (config.get? "history").getD (.map [])
    if settings.isMap then .ok ((settings.get? "capacity").getD Capacity.standard.configured)
    else .error .noMember

/-- The store that a configuration asks for. -/
def ofConfig (host : Host) (config : Value) : Except Failure Store := do
  let capacity ← configuredCapacity config
  ofStorage host capacity (← Storage.ofConfig config)

/-- A store that goes on from the storage of another, without its listeners and its clipboard. -/
def reopen (s : Store) (capacity : Value) : Except Failure Store := do
  let t ← ofStorage s.host capacity s.storage
  return { t with subscriptions := s.subscriptions, notices := s.notices }

end Store

end FormDesigner
