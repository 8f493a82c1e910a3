import FormDesigner.Json.Reader
import FormDesigner.Json.Writer
import FormDesigner.Storage.Disk
import FormDesigner.Work

/-!
# Stored state

A storage keeps one state in an envelope that says whose state it is, of which version, and when it
was saved. A state of another version counts as absent; an envelope that belongs to something else is
a failure. The envelope is text, kept in memory or in a file.
-/

namespace FormDesigner

/-- Where a storage keeps its text. -/
inductive Medium where
  | memory (text : Option String)
  | folder (directory : Path)
deriving DecidableEq, Repr

structure Storage where
  name : Value
  version : Value
  medium : Medium
  /-- Whether the medium has stopped taking states. -/
  isBlocked : Bool := false

namespace Storage

def standardName : String := "schemastudio_designer_v1"

def standardVersion : Value := .int 1

def standardDirectory : String := ".schemastudio"

/-- An empty storage in memory. -/
def inMemory (name : Value) : Storage := { name, version := standardVersion, medium := .memory none }

def inFolder (directory : Path) (name : Value) : Storage :=
  { name, version := standardVersion, medium := .folder directory }

/-- What is kept for a state. -/
def envelope (s : Storage) (now : String) (state : Value) : Value :=
  .ofFields
    [("name", s.name), ("version", s.version), ("savedAt", .text now), ("state", state)]

/-- The state in an envelope, unless it is of another version. -/
def unwrap (s : Storage) (kept : Value) : Except Failure (Option Value) := do
  if !kept.isMap || !(kept.getOrNull "name").equals s.name then
    .error (.storage ("Stored state for '" ++ (← s.name.plain) ++ "' has an unexpected layout") none)
  else if !(kept.getOrNull "version").equals s.version then return none
  else
    let state := kept.getOrNull "state"
    if state.isMap then return some state
    else .error (.storage ("Stored state for '" ++ (← s.name.plain) ++ "' is not a mapping") none)

/-- The file in a folder that belongs to a storage. -/
def file (s : Storage) (directory : Path) : Except Failure Path := do
  return directory.child ((← s.name.plain) ++ ".json")

/-- A message about a file, as a failure with its cause. -/
def failureAt (message : String) (p : Path) (cause : Failure) : Failure :=
  .storage (message ++ p.text) (some cause)

/-- The envelope in a file, or nothing if there is no file. -/
def readFile (d : Disk) (p : Path) : Except Failure (Option Value) := do
  match d.contains p with
  | .error f => .error (f.toFailure p)
  | .ok false => return none
  | .ok true =>
    match d.read p with
    | .error f => .error (failureAt "Cannot read stored designer state: " p (f.toFailure p))
    | .ok octets =>
      match Text.ofFile? octets with
      | none => .error .undecodable
      | some text =>
        match Json.read text with
        | .ok v => return some v
        | .error .malformed =>
          .error (failureAt "Stored designer state is corrupted: " p (.fault .json ""))
        | .error f => .error f.toFailure

/-- The state that was saved last, or nothing if there is none of this version. -/
def load (s : Storage) (d : Disk) : Except Failure (Option Value) := do
  match s.medium with
  | .memory none => return none
  | .memory (some text) => s.unwrap (← Json.parse text)
  | .folder directory =>
    match ← readFile d (← s.file directory) with
    | none => return none
    | some kept => s.unwrap kept

/-- The file that a text is written to before it takes the place of the one before it. -/
def draft (s : Storage) (directory : Path) : Except Failure Path := do
  return directory.child ("." ++ (← s.name.plain) ++ ".xxxxxxxx.tmp")

def checked {α : Type} (p : Path) : Except DiskFault α → Except Failure α := Except.mapError (·.toFailure p)

/-- The disk after an envelope has been written to the file of a storage. -/
def written (s : Storage) (directory : Path) (kept : Value) (d : Disk) : Except Failure Disk := do
  let draft ← s.draft directory
  let _ ← checked draft (d.write draft [])
  let text ← Json.write .indented kept
  let p ← s.file directory
  checked p (d.write p (Text.toOctets text))

/-- Saves a state in a folder. -/
def saveFile (s : Storage) (directory : Path) (kept : Value) : Work Disk Unit := do
  let made ← modifyGet fun d => d.makeFolders directory
  let result := do
    checked directory made
    s.written directory kept (← get)
  match ← Work.attempt (result >>= set) with
  | .ok () => return ()
  | .error cause =>
    let p ← Work.ofExcept (s.file directory)
    throw (failureAt "Cannot save designer state to " p cause)

/-- Saves a state, and gives the storage that holds it. -/
def save (s : Storage) (now : String) (state : Value) : Work Disk Storage := do
  if s.isBlocked then throw (.storage "Saving is disabled" none)
  let kept := s.envelope now state
  match s.medium with
  | .memory _ =>
    let text ← Work.ofExcept (Json.write .compact kept)
    return { s with medium := .memory (some text) }
  | .folder directory =>
    s.saveFile directory kept
    return s

/-- Forgets the saved state. -/
def clear (s : Storage) : Work Disk Storage := do
  match s.medium with
  | .memory _ => return { s with medium := .memory none }
  | .folder directory =>
    let p ← Work.ofExcept (s.file directory)
    match (← get).remove p with
    | .ok d => set d
    | .error .missing => pure ()
    | .error .nullCharacter => throw (DiskFault.nullCharacter.toFailure p)
    | .error f => throw (failureAt "Cannot remove stored designer state: " p (f.toFailure p))
    return s

/-- The text that is kept, if any. -/
def raw (s : Storage) (d : Disk) : Option String :=
  match s.medium with
  | .memory text => text
  | .folder directory =>
    match s.file directory with
    | .ok p => (d.read p).toOption.bind Text.ofFile?
    | .error _ => none

/-- Keeps a text instead of what is kept, whatever it is. -/
def setRaw (s : Storage) (text : Option String) (octets : List UInt8) (d : Disk) : Storage × Disk :=
  match s.medium with
  | .memory _ => ({ s with medium := .memory text }, d)
  | .folder directory =>
    match s.file directory with
    | .ok p => (s, d.place p octets)
    | .error _ => (s, d)

/-- The path that a value names. -/
def pathOf : Value → Except Failure Path
  | .text s => .ok (.ofText s)
  | _ => .error .wrongKind

/-- The storage that settings ask for, if they ask for one. -/
def ofSettings (settings : Value) : Except Failure (Option Storage) := do
  if !settings.isMap then .error .noMember
  else
    let setting (name : String) (standard : Value) : Value := (settings.get? name).getD standard
    if !(setting "enabled" (.bool true)).isTrue then return none
    let name := setting "name" (.text standardName)
    if (setting "backend" (.text "file")).equals (.text "memory") then return some (inMemory name)
    else return some (inFolder (← pathOf (setting "directory" (.text standardDirectory))) name)

/-- The storage that a configuration asks for in its own part. -/
def ofConfig (config : Value) : Except Failure (Option Storage) :=
  if config.isMap then ofSettings ((config.get? "storage").getD (.map [])) else .error .noMember

end Storage

end FormDesigner
