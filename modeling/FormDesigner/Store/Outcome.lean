import FormDesigner.Failure

/-!
# Outcomes of edits

An edit of a document answers with an outcome. Outcomes that are not `ok` can be turned into the
failures that they stand for.
-/

namespace FormDesigner

structure Outcome where
  /-- Nothing went wrong; an edit that had nothing to do is fine too. -/
  ok : Bool
  changed : Bool
  code : ResultCode
  message : String
  /-- The field that was edited or made, if any. -/
  field : Value
  problems : List String

namespace Outcome

def success (message : String) (field : Value) : Outcome := ⟨true, true, .ok, message, field, []⟩

/-- Nothing was changed, and nothing was wrong. -/
def unchanged (message : String) (code : ResultCode) (field : Value) : Outcome :=
  ⟨true, false, code, message, field, []⟩

def failure (code : ResultCode) (message : String) (field : Value) (problems : List String) :
    Outcome :=
  ⟨false, false, code, message, field, problems⟩

/-- The failure that an outcome stands for. -/
def failure? (r : Outcome) : Option Failure :=
  if r.ok then none
  else if r.code = .importFailed then
    some (.rejected (if r.problems.isEmpty then [r.message] else r.problems) none)
  else some (.structural r.code r.message r.field)

/-- The outcome as a value: a mapping with all of its parts. -/
def toValue (r : Outcome) : Value :=
  .ofFields [("ok", .bool r.ok), ("changed", .bool r.changed), ("code", .text r.code.text),
    ("message", .text r.message), ("field_id", r.field), ("errors", .ofTexts r.problems)]

end Outcome

end FormDesigner
