import FormDesigner.Expression.Compile
import FormDesigner.Storage.Basic
import FormDesigner.Yaml.Reader

/-!
# Configuration

A configuration is a mapping of parts, each a mapping of settings. What a file says is laid over the
standard configuration. A file that is missing, unreadable or no mapping, or that makes the result
invalid, counts for nothing.
-/

namespace FormDesigner

namespace Config

def standardEntries : List (String × Value) :=
  [("app", .ofFields
      [("name", .text "Schema Studio"), ("version", .text "1.0.0"), ("debug", .bool false)]),
    ("history", .ofFields [("capacity", .int 50)]),
    ("storage", .ofFields
      [("enabled", .bool true), ("backend", .text "file"),
        ("directory", .text Storage.standardDirectory), ("name", .text Storage.standardName)]),
    ("expressions", .ofFields [("max_length", .int 1000), ("max_depth", .int 64)]),
    ("logging", .ofFields [("level", .text "INFO")]),
    ("ui", .ofFields
      [("page_title", .text "Schema Studio"), ("sidebar_title", .text "Navigation")])]

def standard : Value := .ofFields standardEntries

mutual

/-- A value laid over another: entry by entry if both are mappings. -/
def overlayValue (base : Option Value) : Value → Value
  | .map upper =>
    match base with
    | some (.map es) => .map (overlay es upper)
    | _ => .map upper
  | v => v

/-- Entries laid over others. -/
def overlay (base : Entries) : List (Value × Value) → Entries
  | [] => base
  | (k, v) :: upper => overlay (Entries.insert base k (overlayValue (Entries.get? base k) v)) upper

end

/-- One configuration laid over another. -/
def merge (base upper : Value) : Except Failure Value :=
  match base, upper with
  | .map es, .map fs => .ok (.map (overlay es fs))
  | base, .map [] => .ok base
  | _, .map _ => .error .wrongKind
  | _, _ => .error .noMember

def parts : List String := ["app", "history", "storage", "expressions", "logging", "ui"]

def isPositiveInteger : Value → Bool
  | .int n => 0 < n
  | _ => false

def isText (v : Value) : Bool := v.asText?.isSome

def isBackend (v : Value) : Bool := v.equals (.text "file") || v.equals (.text "memory")

/-- Whether a mapping has all that a configuration needs. -/
def isSound (config : Value) : Bool :=
  parts.all (fun name => (config.getOrNull name).isMap)
    && isPositiveInteger ((config.getOrNull "history").getOrNull "capacity")
    && ["max_length", "max_depth"].all (fun name =>
      isPositiveInteger ((config.getOrNull "expressions").getOrNull name))
    && isBackend (((config.getOrNull "storage").get? "backend").getD (.text "file"))
    && ["directory", "name"].all (fun name => isText ((config.getOrNull "storage").getOrNull name))

def validate (config : Value) : Except Failure Bool :=
  if config.isMap then .ok (isSound config) else .error .noMember

/-- The configuration that the text of a file asks for. -/
def ofText (text : String) : Except Failure Value :=
  match Yaml.read true text with
  | .error (.fault .markup _) => .ok standard
  | .error e => .error e
  | .ok (.map upper) =>
    let config := .map (overlay (standard.entriesOf) upper)
    .ok (if isSound config then config else standard)
  | .ok _ => .ok standard

/-- The configuration that a file asks for. -/
def load (d : Disk) (p : Path) : Except Failure Value :=
  match d.contains p with
  | .error f => .error (f.toFailure p)
  | .ok false => .ok standard
  | .ok true =>
    match d.read p with
    | .error _ => .ok standard
    | .ok octets =>
      match Text.ofFile? octets with
      | some text => ofText text
      | none => .error .undecodable

def standardPath : Path := .ofText "config.yaml"

/-- A disk and the configuration that was read from it, once it has been asked for. -/
structure Source where
  disk : Disk
  cached : Option Value

/-- The configuration, read at the first time of asking. -/
def current : Work Source Value := do
  let s ← get
  match s.cached with
  | some config => return config
  | none =>
    let config ← Work.ofExcept (load s.disk standardPath)
    set { s with cached := some config }
    return config

/-- The configuration, read again. -/
def reload : Work Source Value := do
  modify fun s => { s with cached := none }
  current

/-- An entry of a mapping, or something else where there is none. -/
def entryOr (v key fallback : Value) : Except Failure Value :=
  match v with
  | .map es =>
    if key.isHashable then .ok ((Entries.get? es key).getD fallback) else .error .wrongKind
  | _ => .error .noMember

/-- A single setting of a configuration. -/
def settingIn (config part name fallback : Value) : Except Failure Value := do
  entryOr (← entryOr config part (.map [])) name fallback

def setting (part name fallback : Value) : Work Source Value := do
  Work.ofExcept (settingIn (← current) part name fallback)

def limitOf (standard : Int) : Value → Int
  | .int n => n
  | _ => standard

/-- The limits of expressions that a configuration sets. -/
def limitsOf (config : Value) : Expression.LimitSource := do
  let setting (name : String) (standard : Int) : Except Failure Int := do
    return limitOf standard
      (← settingIn config (.text "expressions") (.text name) (.int standard))
  let length ← setting "max_length" Expression.Limits.standard.maxLength
  let depth ← setting "max_depth" Expression.Limits.standard.maxDepth
  return ⟨length, depth⟩

/-- The limits of expressions that the configuration on a disk sets. -/
def limits (s : Source) : Expression.LimitSource := do
  let config ← (current.outcome s).1
  limitsOf config

end Config

end FormDesigner
