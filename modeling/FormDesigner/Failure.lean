import FormDesigner.Value.Display

/-!
# Failures

Whatever stops an operation is a `Failure`: a fault of the values it was given or of its
surroundings, or a failure of the designer itself, which knows its context and suggests what to do.
-/

namespace FormDesigner

/-- What is wrong when an operation meets a value, file or text that it cannot work with. -/
inductive FaultKind where
  | value | index | runtime | key | type | member | overflow | zeroDivision | arithmetic | lookup
  | decoding | json | markup | component | missingModule
  | system | missingFile | permission | directory | notDirectory | fileExists | timeout
  | other (name : String)
deriving DecidableEq, Repr

/-- Outcome codes of the operations on a document. -/
inductive ResultCode where
  | ok | notFound | notASection | outOfRange | duplicateId | duplicateKey | invalidField
  | invalidPatch | clipboardEmpty | nothingToUndo | nothingToRedo | importFailed
  | custom (name : String)
deriving DecidableEq, Repr

namespace ResultCode

def text : ResultCode → String
  | .ok => "ok"
  | .notFound => "not_found"
  | .notASection => "not_a_section"
  | .outOfRange => "out_of_range"
  | .duplicateId => "duplicate_id"
  | .duplicateKey => "duplicate_key"
  | .invalidField => "invalid_field"
  | .invalidPatch => "invalid_patch"
  | .clipboardEmpty => "clipboard_empty"
  | .nothingToUndo => "nothing_to_undo"
  | .nothingToRedo => "nothing_to_redo"
  | .importFailed => "import_failed"
  | .custom name => name

def standard : List ResultCode :=
  [.ok, .notFound, .notASection, .outOfRange, .duplicateId, .duplicateKey, .invalidField,
    .invalidPatch, .clipboardEmpty, .nothingToUndo, .nothingToRedo, .importFailed]

def ofText (s : String) : ResultCode := (standard.find? fun c => c.text = s).getD (.custom s)

/-- What a user can do about a failed edit. -/
def suggestions : ResultCode → List String
  | .notFound => ["Refresh the field list; the field may have been removed"]
  | .notASection => ["Choose a section field as the target container"]
  | .outOfRange => ["Check the source and destination positions"]
  | .duplicateKey => ["Pick a key that is not used by another field"]
  | .duplicateId => ["Create the field with the field factory to get a fresh id"]
  | _ => []

end ResultCode

/-- Which part of working with an expression failed. -/
inductive ExpressionPhase where
  | unspecified | reading | evaluation
deriving DecidableEq, Repr

inductive Failure where
  | fault (kind : FaultKind) (message : String)
  | general (message : String) (context : Entries) (suggestions : List String)
  | structural (code : ResultCode) (message : String) (field : Value)
  | rejected (problems : List String) (message : Option String)
  | expression (phase : ExpressionPhase) (message source : String) (position : Option Int)
  | storage (message : String) (cause : Option Failure)
deriving Inhabited

namespace FaultKind

/-- The name under which a fault is reported. -/
def name : FaultKind → String
  | .value => "ValueError"
  | .index => "IndexError"
  | .runtime => "RuntimeError"
  | .key => "KeyError"
  | .type => "TypeError"
  | .member => "AttributeError"
  | .overflow => "OverflowError"
  | .zeroDivision => "ZeroDivisionError"
  | .arithmetic => "ArithmeticError"
  | .lookup => "LookupError"
  | .decoding => "UnicodeDecodeError"
  | .json => "JSONDecodeError"
  | .markup => "YAMLError"
  | .component => "ImportError"
  | .missingModule => "ModuleNotFoundError"
  | .system => "OSError"
  | .missingFile => "FileNotFoundError"
  | .permission => "PermissionError"
  | .directory => "IsADirectoryError"
  | .notDirectory => "NotADirectoryError"
  | .fileExists => "FileExistsError"
  | .timeout => "TimeoutError"
  | .other name => name

def standard : List FaultKind :=
  [.value, .index, .runtime, .key, .type, .member, .overflow, .zeroDivision, .arithmetic, .lookup,
    .decoding, .json, .markup, .component, .missingModule, .system, .missingFile, .permission,
    .directory, .notDirectory, .fileExists, .timeout]

def ofName (s : String) : FaultKind := (standard.find? fun k => k.name = s).getD (.other s)

/-- Faults of the file system and the machine around it. -/
def isSystem : FaultKind → Bool
  | .system | .missingFile | .permission | .directory | .notDirectory | .fileExists | .timeout =>
    true
  | .other name =>
    ["BlockingIOError", "BrokenPipeError", "ChildProcessError", "ConnectionError",
      "ConnectionAbortedError", "ConnectionRefusedError", "ConnectionResetError",
      "InterruptedError", "ProcessLookupError"].contains name
  | _ => false

/-- Faults of a value that has the right kind but cannot be used. -/
def isValue : FaultKind → Bool
  | .value | .decoding | .json => true
  | .other name =>
    ["UnicodeError", "UnicodeEncodeError", "UnicodeTranslateError"].contains name
  | _ => false

def isComponent : FaultKind → Bool
  | .component | .missingModule => true
  | _ => false

end FaultKind

namespace Failure

def importSuggestions : List String :=
  ["Check that the document is a schema exported by this tool",
    "Verify the document declares version 1",
    "Make sure every field has a unique id and key"]

def storageSuggestions : List String :=
  ["Check that the storage directory exists and is writable",
    "Delete the stored state file to start from an empty schema"]

/-- The first problems of a rejected document, and how many more there are. -/
def rejectionText (problems : List String) : String :=
  "Schema import rejected: " ++ "; ".intercalate (problems.take 3)
    ++ (if 3 < problems.length then " (and " ++ toString (problems.length - 3) ++ " more)" else "")

def message : Failure → String
  | .fault _ m => m
  | .general m _ _ => m
  | .structural _ m _ => m
  | .rejected problems m => m.getD (rejectionText problems)
  | .expression _ m _ _ => m
  | .storage m _ => m

/-- The name under which a failure is reported. -/
def name : Failure → String
  | .fault k _ => k.name
  | .general .. => "SchemaStudioError"
  | .structural .. => "StructuralError"
  | .rejected .. => "SchemaImportError"
  | .expression .unspecified .. => "ExpressionError"
  | .expression .reading .. => "ExpressionSyntaxError"
  | .expression .evaluation .. => "ExpressionEvaluationError"
  | .storage .. => "StorageError"

/-- Whether the failure is one of the designer's own. -/
def isOwn : Failure → Bool
  | .fault .. => false
  | _ => true

def isExpression : Failure → Bool
  | .expression .. => true
  | _ => false

/-- What is known about the circumstances of a failure. -/
def context : Failure → Entries
  | .fault .. => []
  | .general _ c _ => c
  | .structural code _ field =>
    (.text "code", .text code.text)
      :: (if field.isNull then [] else [(.text "field_id", field)])
  | .rejected problems _ =>
    [(.text "error_count", .int problems.length),
      (.text "errors", .list (problems.map .text))]
  | .expression _ _ source position =>
    (.text "source", .text source)
      :: (position.map fun p => (.text "position", Value.int p)).toList
  | .storage _ none => []
  | .storage _ (some cause) =>
    [(.text "original_error_type", .text cause.name),
      (.text "original_error_message", .text cause.message)]

def suggestions : Failure → List String
  | .fault .. => []
  | .general _ _ s => s
  | .structural code _ _ => code.suggestions
  | .rejected .. => importSuggestions
  | .expression .. => []
  | .storage .. => storageSuggestions

/-- An integer that is too long to be written out. -/
def integerTextLimit : Failure :=
  .fault .value
    ("Exceeds the limit (" ++ toString maxIntegerDigits ++ " digits) for integer string conversion; "
      ++ "use sys.set_int_max_str_digits() to increase the limit")

/-- An integer's text that is too long to be read. -/
def integerDigitLimit (digits : Nat) : Failure :=
  .fault .value
    ("Exceeds the limit (" ++ toString maxIntegerDigits
      ++ " digits) for integer string conversion: value has " ++ toString digits
      ++ " digits; use sys.set_int_max_str_digits() to increase the limit")

/-- A mapping lacks an entry that an operation reads. -/
def missingEntry : Failure := .fault .key ""

/-- A value is of a kind that the operation does not apply to. -/
def wrongKind : Failure := .fault .type ""

/-- A value has no entries or parts to ask for. -/
def noMember : Failure := .fault .member ""

end Failure

namespace Value

/-- The form of a value inside a message. -/
def quoted (v : Value) : Except Failure String :=
  match v.quoted? with
  | some s => .ok s
  | none => .error .integerTextLimit

def plain (v : Value) : Except Failure String :=
  match v.plain? with
  | some s => .ok s
  | none => .error .integerTextLimit

/-- The entry of a mapping that an operation cannot do without. -/
def entry (v : Value) (name : String) : Except Failure Value :=
  match v with
  | .map es => match Entries.get? es (.text name) with
    | some w => .ok w
    | none => .error .missingEntry
  | _ => .error .wrongKind

/-- The name of a value's kind. -/
def kindName : Value → String
  | .null => "NoneType"
  | .bool _ => "bool"
  | .int _ => "int"
  | .float _ => "float"
  | .text _ => "str"
  | .list _ => "list"
  | .tuple _ => "tuple"
  | .set _ => "set"
  | .map _ => "dict"
  | .date _ => "date"
  | .moment _ => "datetime"
  | .bytes _ => "bytes"

/-- What a value yields when it is gone through one by one. -/
def elements : Value → Except Failure (List Value)
  | .list xs => .ok xs
  | .tuple xs => .ok xs
  | .set xs => .ok xs
  | .text s => .ok (s.toList.map fun c => .text (String.singleton c))
  | .map es => .ok (Entries.keys es)
  | .bytes bs => .ok (bs.map fun b => .int b.toNat)
  | _ => .error .wrongKind

end Value

end FormDesigner
