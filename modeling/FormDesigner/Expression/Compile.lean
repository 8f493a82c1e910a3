import FormDesigner.Expression.Parser
import FormDesigner.Failure

/-!
# From text to expression

Blank text stands for no expression. Any other text is limited in length and in nesting; the limits
come from the configuration, which is consulted only when there is a text to read.
-/

namespace FormDesigner

namespace Expression

structure Limits where
  maxLength : Int
  maxDepth : Int
deriving DecidableEq, Repr

namespace Limits

def standard : Limits := ⟨1000, 64⟩

end Limits

/-- The configured limits, or why there are none. -/
abbrev LimitSource := Except Failure Limits

namespace TokenFault

def toFailure (source : String) : TokenFault → Failure
  | .unexpected c p =>
    .expression .reading
      ("Unexpected character " ++ Text.quoted (String.singleton c) ++ " at position " ++ toString p)
      source (some p)
  | .integerTooLong digits => .integerDigitLimit digits

end TokenFault

namespace ParseFault

def toFailure (source : String) (f : ParseFault) : Failure :=
  match f.message? with
  | some m => .expression .reading m source (some f.position)
  | none => .integerTextLimit

end ParseFault

/-- The expression that a text without blanks around it writes. -/
def ofTrimmed (limits : Limits) (source : String) : Except Failure Expression :=
  if limits.maxLength < source.length then
    .error (.expression .reading
      ("Expression is longer than " ++ toString limits.maxLength ++ " characters") source none)
  else
    match tokenize source with
    | .error f => .error (f.toFailure source)
    | .ok tokens =>
      match parse ⟨limits.maxDepth, source.length⟩ tokens with
      | .error f => .error (f.toFailure source)
      | .ok e => .ok e

/-- The expression that a value writes; null and blank text write none. -/
def compile (limits : LimitSource) : Value → Except Failure (Option Expression)
  | .null => .ok none
  | .text s =>
    if Text.isAllBlank s then .ok none
    else
      match limits with
      | .error e => .error e
      | .ok l => (ofTrimmed l (Text.trim s)).map some
  | v => .error (.expression .reading ("Expression must be text, got " ++ v.kindName) "" none)

/-- What is wrong with an expression's text, if anything is. -/
def check (limits : LimitSource) (source : Value) : Except Failure (Option String) :=
  match compile limits source with
  | .ok _ => .ok none
  | .error (.expression .reading m _ _) => .ok (some m)
  | .error e => .error e

/-- The keys of the fields that an expression's text reads. -/
def referencedKeys (limits : LimitSource) (source : Value) : Except Failure (List String) := do
  return ((← compile limits source).map keys).getD []

end Expression

end FormDesigner
