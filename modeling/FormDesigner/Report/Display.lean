import FormDesigner.Page.Element
import FormDesigner.Report.Message
import FormDesigner.Store.Outcome

/-!
# Showing failures and outcomes

Failures and refused edits are shown next to the control that led to them, with at most ten problems
and with what can be done.
-/

namespace FormDesigner

namespace Report

/-- How many problems are listed. -/
def shownProblems : Nat := 10

def problemLines (problems : List String) : List Element :=
  (problems.take shownProblems).map fun p => .caption ("• " ++ p)

/-- Where and how a failure is shown. -/
structure Setting where
  context : String
  area : Area := .system
  /-- The message instead of the one that fits failure and area, unless it is empty. -/
  userMessage : String := ""
  showDetails : Bool := false
  /-- How the failure came about, for the details. -/
  trace : String := "NoneType: None\n"

def suggestionElements (suggestions : List String) : List Element :=
  if suggestions.isEmpty then []
  else
    .markdown "**🔧 Suggested Actions:**" :: suggestions.map fun s => .write ("- " ++ s)

def detailElements (f : Failure) (s : Setting) : List Element :=
  if s.showDetails then
    [.expander "🔍 Technical Details", .write ("**Error Type:** " ++ f.name),
      .write ("**Context:** " ++ s.context), .write ("**Error Message:** " ++ f.message),
      .code s.trace]
  else []

def problemsOf : Failure → List String
  | .rejected problems _ => problems
  | _ => []

/-- What is shown of a failure. -/
def ofFailure (f : Failure) (s : Setting) : List Element :=
  .error (if s.userMessage = "" then s.area.message f else s.userMessage)
    :: problemLines (problemsOf f) ++ suggestionElements f.suggestions ++ detailElements f s

/-- Logs a failure and shows it. The designer's own failures are logged with their circumstances, which
may be beyond writing out. -/
def failure (f : Failure) (s : Setting) : Except Failure (List Element) := do
  if f.isOwn then
    let _ ← f.logLines s.context
  return ofFailure f s

/-- What is shown of an outcome. Success is only worth a word if there is a message for it. -/
def ofOutcome (r : Outcome) (successMessage : String) : List Element :=
  if !r.ok then
    .error ((r.code.userMessage?).getD ("❌ " ++ r.message))
      :: (if r.message = "" then [] else [.caption r.message]) ++ problemLines r.problems
  else if !r.changed then
    if r.code = .ok then [] else [.info ("ℹ️ " ++ r.message)]
  else if successMessage = "" then [] else [.success successMessage]

/-- Whether a failure is shown instead of being passed on. -/
def isShown (f : Failure) : Bool := f.isOwn || f.isFault fun k => k.isSystem || k.isValue

/-- The result of an operation, or another one and a message if it failed in a way that is shown. -/
def guarded {α : Type} (r : Except Failure α) (fallback : α) (s : Setting) :
    List Element × Except Failure α :=
  match r with
  | .ok a => ([], .ok a)
  | .error f =>
    if isShown f then
      match failure f s with
      | .ok shown => (shown, .ok fallback)
      | .error e => ([], .error e)
    else ([], .error f)

end Report

end FormDesigner
