import FormDesigner.Failure
import FormDesigner.Text.Escaped
import FormDesigner.Value.Equality

/-!
# Writing JSON

A style says how values are laid out: on one line or one item per line, members in the order they
stand in or sorted by key, and whether everything beyond ASCII is escaped. The canonical style sorts
members and breaks lines, so that equal values have the same text.
-/

namespace FormDesigner.Json

structure Style where
  /-- Spaces by which each level is indented; on one line if absent. -/
  indent : Option Nat
  sorted : Bool
  ascii : Bool

namespace Style

/-- One item per line, members sorted by key. -/
def canonical : Style := ⟨some 2, true, false⟩

/-- Everything on one line, in ASCII. -/
def compact : Style := ⟨none, false, true⟩

/-- One item per line, members in their own order. -/
def indented : Style := ⟨some 2, false, false⟩

/-- What precedes an item at a level of nesting. -/
def lineBreak (s : Style) (level : Nat) : String :=
  match s.indent with
  | some n => "\n" ++ String.ofList (List.replicate (n * level) ' ')
  | none => ""

/-- What separates two items at a level of nesting. -/
def separator (s : Style) (level : Nat) : String :=
  match s.indent with
  | some _ => "," ++ s.lineBreak level
  | none => ", "

/-- The items of a container between its brackets. -/
def bracket (s : Style) (level : Nat) (opening closing : String) (items : List String) : String :=
  if items.isEmpty then opening ++ closing
  else
    opening ++ s.lineBreak (level + 1) ++ (s.separator (level + 1)).intercalate items
      ++ s.lineBreak level ++ closing

end Style

def numberText (x : Binary64) : String :=
  match x with
  | .nan _ => "NaN"
  | .infinite s => if s then "-Infinity" else "Infinity"
  | x => x.text

def integerText (n : Int) : Except Failure String :=
  match integerText? n with
  | some s => .ok s
  | none => .error .integerTextLimit

/-- The text of a member's key, which is always written as text. -/
def keyText (ascii : Bool) : Value → Except Failure String
  | .text s => .ok (Text.escaped ascii s)
  | .null => .ok "\"null\""
  | .bool b => .ok (if b then "\"true\"" else "\"false\"")
  | .int n => (integerText n).map fun s => "\"" ++ s ++ "\""
  | .float x => .ok ("\"" ++ numberText x ++ "\"")
  | _ => .error .wrongKind

/-- A member's key as it stood, and the member's text. -/
abbrev Member := Value × String

def arrange (s : Style) (members : List Member) : Except Failure (List String) :=
  if s.sorted then
    if Value.areOrdered (members.map (·.1)) then
      .ok ((members.mergeSort fun a b => Value.keyLe a.1 b.1).map (·.2))
    else .error .wrongKind
  else .ok (members.map (·.2))

mutual

/-- The text of a value that stands at a level of nesting. -/
def writeAt (s : Style) (level : Nat) : Value → Except Failure String
  | .null => .ok "null"
  | .bool b => .ok (if b then "true" else "false")
  | .int n => integerText n
  | .float x => .ok (numberText x)
  | .text t => .ok (Text.escaped s.ascii t)
  | .list xs => do return s.bracket level "[" "]" (← writeItems s (level + 1) xs)
  | .tuple xs => do return s.bracket level "[" "]" (← writeItems s (level + 1) xs)
  | .map es => do
    let members ← writeMembers s (level + 1) es
    return s.bracket level "\x7b" "\x7d" (← arrange s members)
  | _ => .error .wrongKind

def writeItems (s : Style) (level : Nat) : List Value → Except Failure (List String)
  | [] => .ok []
  | x :: xs => do
    let text ← writeAt s level x
    return text :: (← writeItems s level xs)

def writeMembers (s : Style) (level : Nat) : List (Value × Value) → Except Failure (List Member)
  | [] => .ok []
  | (k, v) :: es => do
    let key ← keyText s.ascii k
    let text ← writeAt s level v
    return (k, key ++ ": " ++ text) :: (← writeMembers s level es)

end

/-- The text of a value in a style. -/
def write (s : Style) (v : Value) : Except Failure String := writeAt s 0 v

end FormDesigner.Json
