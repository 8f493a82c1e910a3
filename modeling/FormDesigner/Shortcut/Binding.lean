import FormDesigner.Failure
import FormDesigner.Store.Command
import FormDesigner.Text.Character
import FormDesigner.Text.Letter

/-!
# Shortcuts

A key combination names one key and any modifiers, joined by `+`. Its canonical text is in lower case
and has the modifiers first, each once and in a fixed order, so that two combinations are the same
exactly if their texts are.

A binding says which command a key combination stands for. Bindings hear of key events by being attached
to a source of them; `Wiring` keeps track of who is attached where. Attaching a binding where it is
attached already changes nothing, so it never hears of one event twice on its own account.
-/

namespace FormDesigner

/-! ### Key combinations -/

/-- Keys that are held while another one is pressed, in the order in which they are written. -/
inductive Modifier where
  | control | alt | shift | command
deriving DecidableEq, Repr

namespace Modifier

def name : Modifier → String
  | .control => "ctrl"
  | .alt => "alt"
  | .shift => "shift"
  | .command => "meta"

def all : List Modifier := [.control, .alt, .shift, .command]

def aliases : List (String × Modifier) :=
  [("control", .control), ("cmd", .command), ("command", .command), ("super", .command),
    ("option", .alt)]

/-- The modifier with a name, which may be an alias. -/
def ofName? (s : String) : Option Modifier := aliases.lookup s <|> all.find? fun m => m.name = s

end Modifier

structure Combo where
  modifiers : List Modifier
  key : String
deriving DecidableEq, Repr

namespace Combo

/-- The parts of a combination's text in lower case, without blanks around them. -/
def parts (s : String) : List String :=
  ((s.splitOn "+").map Text.trim).filter (· ≠ "") |>.map Text.lower

def ofParts? (ps : List String) : Option Combo :=
  match ps.filter fun p => (Modifier.ofName? p).isNone with
  | [key] =>
    let held := ps.filterMap Modifier.ofName?
    some ⟨Modifier.all.filter held.contains, key⟩
  | _ => none

/-- The combination that a text names, if it names exactly one key. -/
def ofText? (s : String) : Option Combo := ofParts? (parts s)

/-- The canonical text of a combination. -/
def text (c : Combo) : String := "+".intercalate (c.modifiers.map Modifier.name ++ [c.key])

/-- The canonical text of a combination's text. -/
def canonical (s : String) : Except Failure String :=
  match ofText? s with
  | some c => .ok c.text
  | none => .error (.fault .value ("Key combo must name exactly one key: " ++ Text.quoted s))

/-- The modifiers that a key event says are held. -/
def heldIn (event : Value) : List Modifier :=
  Modifier.all.filter fun m => (event.getOrNull (m.name ++ "Key")).isTrue

/-- The combination of a key event, which is a text or a mapping that names a key and says which
modifiers are held. -/
def ofEvent? : Value → Except Failure (Option String)
  | .text s => .ok ((ofText? s).map text)
  | .map es => do
    let key := (Entries.get? es (.text "key")).getD .null
    if key.isTrue then
      let names := (heldIn (.map es)).map Modifier.name ++ [← key.plain]
      return (ofText? ("+".intercalate names)).map text
    else return none
  | _ => .ok none

end Combo

/-! ### Bindings -/

/-- Commands by the canonical text of a combination. -/
abbrev Shortcuts := Entries

namespace Shortcuts

def standard : List (String × String) :=
  [("ctrl+z", "undo"), ("meta+z", "undo"), ("ctrl+shift+z", "redo"), ("meta+shift+z", "redo"),
    ("ctrl+y", "redo")]

/-- Binds a combination; a later binding of the same combination counts. -/
def bind (s : Shortcuts) (e : Value × Value) : Except Failure Shortcuts :=
  match e with
  | (.text combo, action) => do return Entries.insert s (.text (← Combo.canonical combo)) action
  | (.bytes _, _) => .error .wrongKind
  | _ => .error .noMember

/-- The shortcuts that a value lists, or the standard ones. -/
def ofValue : Value → Except Failure Shortcuts
  | .null => (standard.map fun (c, a) => (.text c, .text a)).foldlM bind []
  | .map es => es.foldlM bind []
  | _ => .error .noMember

/-- What a key event stands for: null if nothing. -/
def action (s : Shortcuts) (event : Value) : Except Failure Value := do
  match ← Combo.ofEvent? event with
  | none => return .null
  | some combo => return (Entries.get? s (.text combo)).getD .null

/-- Carries out what a key event stands for, if anything. -/
def handle (s : Shortcuts) (event : Value) : Editing (Option Reply) := do
  match ← Work.ofExcept (s.action event) with
  | .null => return none
  | .text name =>
    let command ← Work.ofExcept (Command.parse name [])
    return some (← command.run)
  | _ => throw .wrongKind

end Shortcuts

/-- Which bindings listen to which sources of key events, and to which source each one is attached.
Bindings and sources are known by their numbers. -/
structure Wiring where
  listeners : Nat → List Nat
  attached : Nat → Option Nat

namespace Wiring

def empty : Wiring := ⟨fun _ => [], fun _ => none⟩

def isAttached (w : Wiring) (binding : Nat) : Bool := (w.attached binding).isSome

/-- Lets a binding listen to a source, once more if it does already. -/
def addListener (w : Wiring) (binding source : Nat) : Wiring :=
  { w with listeners := fun s => if s = source then w.listeners s ++ [binding] else w.listeners s }

/-- Takes a binding off a source once, if it listens there. -/
def removeListener (w : Wiring) (binding source : Nat) : Wiring :=
  { w with
    listeners := fun s => if s = source then (w.listeners s).erase binding else w.listeners s }

def setAttached (w : Wiring) (binding : Nat) (source : Option Nat) : Wiring :=
  { w with attached := fun b => if b = binding then source else w.attached b }

/-- Takes a binding off the source that it is attached to, if any. -/
def detach (w : Wiring) (binding : Nat) : Wiring :=
  match w.attached binding with
  | none => w
  | some source => (w.removeListener binding source).setAttached binding none

/-- Attaches a binding to a source, and to no other. -/
def attach (w : Wiring) (binding source : Nat) : Wiring :=
  if w.attached binding = some source then w
  else ((w.detach binding).addListener binding source).setAttached binding (some source)

end Wiring

/-- Hands an event to listeners one after the other, and gives what each of them did. -/
def dispatch (shortcuts : Nat → Shortcuts) (listeners : List Nat) (event : Value) :
    Editing (List (Option Reply)) :=
  listeners.mapM fun b => (shortcuts b).handle event

end FormDesigner
