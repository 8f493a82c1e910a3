import FormDesigner.Failure

/-!
# What is said about a failure

The designer's own failures are logged with their circumstances, line by line, and with what to do
about them. What a user is told about a failure depends on the failure and on the area of the designer
in which it happened.
-/

namespace FormDesigner

/-! ### The log -/

inductive LogLevel where
  | info | error
deriving DecidableEq, Repr

structure LogLine where
  level : LogLevel
  text : String

namespace Failure

def contextLine (e : Value × Value) : Except Failure LogLine := do
  return ⟨.error, "  " ++ (← e.1.plain) ++ ": " ++ (← e.2.plain)⟩

def suggestionLines (suggestions : List String) : List LogLine :=
  suggestions.zipIdx.map fun (s, i) => ⟨.info, "  " ++ toString (i + 1) ++ ". " ++ s⟩

/-- The lines about a failure during an operation. -/
def logLines (f : Failure) (operation : String) : Except Failure (List LogLine) := do
  let opening : List LogLine :=
    [⟨.error, "Schema engine error during " ++ operation⟩,
      ⟨.error, "Error type: " ++ f.name⟩, ⟨.error, "Error message: " ++ f.message⟩]
  let context ← f.context.mapM contextLine
  return opening
    ++ (if context.isEmpty then [] else ⟨.error, "Error context:"⟩ :: context)
    ++ (if f.suggestions.isEmpty then []
      else ⟨.info, "Recovery suggestions:"⟩ :: suggestionLines f.suggestions)

/-- All that is known about a failure. -/
def details (f : Failure) : Value :=
  .ofFields
    [("error_type", .text f.name), ("message", .text f.message), ("context", .map f.context),
      ("recovery_suggestions", .list (f.suggestions.map .text))]

end Failure

/-! ### Messages for users -/

/-- Areas of the designer. -/
inductive Area where
  | schema | importing | tree | expression | storage | fileSystem | userInput | system
deriving DecidableEq, Repr

namespace ResultCode

/-- The message about an edit that was refused. -/
def userMessage? : ResultCode → Option String
  | .notFound => some "🔍 That field no longer exists."
  | .notASection => some "📂 Fields can only be placed inside a section."
  | .outOfRange => some "↕️ The field cannot be moved there."
  | .duplicateId => some "🪪 Another field already uses this id."
  | .duplicateKey => some "🔑 Another field already uses this key. Keys must be unique."
  | .invalidField => some "📋 The field definition is incomplete or malformed."
  | .invalidPatch => some "✏️ That change cannot be applied to the field."
  | .importFailed => some importRefused
  | _ => none
where
  importRefused : String := "📥 The schema could not be imported. Nothing was changed."

end ResultCode

namespace Failure

def isRejection : Failure → Bool
  | .rejected .. => true
  | _ => false

def isStructural : Failure → Bool
  | .structural .. => true
  | _ => false

def isStorage : Failure → Bool
  | .storage .. => true
  | _ => false

/-- Whether a failure is a fault of a kind. -/
def isFault (holds : FaultKind → Bool) : Failure → Bool
  | .fault k _ => holds k
  | _ => false

end Failure

namespace Area

/-- An area by its name; names of no area stand for the whole system. -/
def ofName : String → Area
  | "schema" => .schema
  | "import" => .importing
  | "structure" => .tree
  | "expression" => .expression
  | "storage" => .storage
  | "file_system" => .fileSystem
  | "user_input" => .userInput
  | _ => .system

/-- The failures that an area has a message for, the first match counting, and its message for all
others. -/
def messages : Area → List ((Failure → Bool) × String) × String
  | .schema =>
    ([(Failure.isRejection, "📋 The schema document is not valid."),
      (Failure.isFault (· = .json), "📋 The schema is not valid JSON."),
      (Failure.isFault (· = .markup), "📋 The schema is not valid YAML.")],
      "📋 Schema error occurred. Please check the schema document.")
  | .importing =>
    ([(Failure.isRejection, ResultCode.userMessage?.importRefused),
      (Failure.isFault (· = .decoding), "📥 The uploaded file is not UTF-8 text.")],
      "📥 Import failed. Please check the uploaded document.")
  | .tree =>
    ([(Failure.isStructural, "🧱 The change would break the field tree.")],
      "🧱 The field tree could not be changed.")
  | .expression =>
    ([(Failure.isExpression, "🧮 The expression could not be understood.")],
      "🧮 Expression error. The field stays visible and keeps its value.")
  | .storage =>
    ([(Failure.isStorage,
        "💾 Designer state could not be saved or restored. Your edits stay in this session.")],
      "💾 Storage error occurred.")
  | .fileSystem =>
    ([(Failure.isFault (· = .missingFile), "📁 The requested file could not be found."),
      (Failure.isFault (· = .permission), "🔒 Permission denied. Please check file permissions."),
      (Failure.isFault FaultKind.isSystem, "💾 File system error occurred. Please try again.")],
      "📁 A file system error occurred. Please try again.")
  | .userInput =>
    ([(Failure.isFault FaultKind.isValue,
        "⚠️ Invalid input provided. Please check your data and try again.")],
      "⚠️ Input error. Please review your data and try again.")
  | .system =>
    ([(Failure.isFault FaultKind.isComponent, "💻 Required system component is missing.")],
      "💻 System error occurred. Please try again.")

/-- What a user is told about a failure. -/
def message (area : Area) (f : Failure) : String :=
  let (special, other) := area.messages
  ((special.find? fun e => e.1 f).map (·.2)).getD other

end Area

end FormDesigner
