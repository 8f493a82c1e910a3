import FormDesigner.Json.Reader
import FormDesigner.Schema.Document
import FormDesigner.Yaml.Reader

/-!
# Reading schemas

The text of a schema is JSON or, failing that, YAML, where times count as text. Whatever is read is
accepted only if it is a valid schema.
-/

namespace FormDesigner

namespace Schema

def unreadable : Failure := .rejected ["Document is neither valid JSON nor valid YAML"] none

/-- The document that a text writes, whether or not it is a schema. -/
def parseText (s : String) : Except Failure Value :=
  match Json.read s with
  | .ok v => .ok v
  | .error _ =>
    match Yaml.read false s with
    | .ok v => .ok v
    | .error (.fault k m) =>
      if k = .markup || k.isValue then .error unreadable else .error (.fault k m)
    | .error e => .error e

/-- The document that a value is or, as text, writes. -/
def parse : Value → Except Failure Value
  | .text s => parseText s
  | v => .ok v

/-- A valid schema, given as a value or as text. -/
def load (source : Value) : Except Failure Value := do accept (← parse source)

end Schema

end FormDesigner
