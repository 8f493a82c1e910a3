import FormDesigner.Field.Factory

/-!
# The clipboard

A clipboard holds at most one field with everything that it owns, as it was when it was copied. What is
pasted is a copy with fresh ids and keys, so that it can be pasted any number of times.
-/

namespace FormDesigner

/-- What was copied last, if anything. -/
abbrev Clipboard := Option Value

namespace Clipboard

/-- A clipboard that holds a value; null is nothing to hold. -/
def holding (v : Value) : Clipboard := if v.isNull then none else some v

/-- Copies a field. Anything else is held too, but it is no field to speak of. -/
def copy (v : Value) : Work Clipboard Unit := do
  set (holding v)
  if v.isMap then
    let _ ← Work.ofExcept (v.getOrNull "id").plain
    return ()
  else throw .noMember

/-- A copy of what is held that shares no id and no key with what is there. -/
def freshCopy (c : Clipboard) (takenKeys : Value) : Minting (Option Value) :=
  match c with
  | none => return none
  | some v => some <$> Factory.regenerate v takenKeys

end Clipboard

end FormDesigner
