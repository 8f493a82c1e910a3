import FormDesigner.Yaml.Scalar
import FormDesigner.Yaml.Token

/-!
# Nodes of YAML

A text holds one document at most, which is one node: a scalar, a list or a mapping, each with a
tag. A node may be given a name, by which it can be used again further on, though not inside
itself.
-/

namespace FormDesigner

namespace Yaml

inductive Node where
  | scalar (tag : Tag) (text : String)
  | list (tag : Tag) (items : List Node)
  | map (tag : Tag) (entries : List (Node × Node))

instance : Inhabited Node := ⟨.scalar .null ""⟩

/-- How far the tokens of a text have been read, and what names stand for. -/
structure Assembly where
  rest : List Token
  handles : List (String × String)
  /-- The nodes that have a name; a node that is not finished yet has none. -/
  names : List (String × Option Node)
  /-- Times are told from other texts. -/
  times : Bool

abbrev Assembler := StateT Assembly (Except Failure)

namespace Assembler

def fail {α : Type} : Assembler α := throw malformed

def peek : Assembler (Option Token) := return (← get).rest.head?

def drop : Assembler Unit := modify fun s => { s with rest := s.rest.drop 1 }

/-- Takes a token if it comes next. -/
def takes (t : Token) : Assembler Bool := do
  if (← peek) = some t then
    drop
    return true
  else return false

def expects (t : Token) : Assembler Unit := do
  if !(← takes t) then fail

/-- Whether one of some tokens comes next. -/
def sees (ts : List Token) : Assembler Bool := return (← peek).any ts.contains

def emptyNode : Node := .scalar .null ""

/-- Gives a name to a node that is about to be read. -/
def announce : Option String → Assembler Unit
  | none => return ()
  | some name => do
    if ((← get).names.lookup name).isSome then fail
    modify fun s => { s with names := (name, none) :: s.names }

/-- Gives a name to a node that has been read. -/
def finish (name : Option String) (n : Node) : Assembler Node := do
  match name with
  | none => return n
  | some name =>
    modify fun s => { s with names := (name, some n) :: s.names }
    return n

/-- The tag that a token gives in full. -/
def fullTag (handle : Option String) (rest : String) : Assembler String := do
  match handle with
  | none => return rest
  | some h =>
    match (← get).handles.lookup h with
    | some start => return start ++ rest
    | none => fail

/-- The name and the tag in front of a node, in either order. -/
def properties : Assembler (Option String × Option String) := do
  let name? : Assembler (Option String) := do
    match ← peek with
    | some (.anchor a) => drop; return some a
    | _ => return none
  let tag? : Assembler (Option String) := do
    match ← peek with
    | some (.tag handle rest) => drop; return some (← fullTag handle rest)
    | _ => return none
  match ← name? with
  | some a => return (some a, ← tag?)
  | none =>
    match ← tag? with
    | some t => return (← name?, some t)
    | none => return (none, none)

/-- The tag of a scalar: a lone exclamation mark makes any scalar a plain one. -/
def scalarTag (tag : Option String) (plain : Bool) (text : String) : Assembler Tag := do
  let times := (← get).times
  match tag with
  | none => return if plain then plainTag times text else .text
  | some t => return if t = "!" then plainTag times text else .ofText t

/-- The tag of a collection. -/
def collectionTag (tag : Option String) (standard : Tag) : Tag :=
  match tag with
  | none => standard
  | some t => if t = "!" then standard else .ofText t

mutual

/-- A node. Collections in block style are read only where `block` holds, and lists that are not
indented only where `indentless` holds. -/
def node (fuel : Nat) (block indentless : Bool) : Assembler Node :=
  match fuel with
  | 0 => fail
  | fuel + 1 => do
    match ← peek with
    | some (.alias a) =>
      drop
      match (← get).names.lookup a with
      | some (some n) => return n
      | _ => fail
    | _ =>
      let (name, tag) ← properties
      announce name
      match ← peek with
      | some (.scalar text plain) =>
        drop
        finish name (.scalar (← scalarTag tag plain text) text)
      | some .flowSequence =>
        drop
        finish name (.list (collectionTag tag .list) (← flowItems fuel true))
      | some .flowMapping =>
        drop
        finish name (.map (collectionTag tag .map) (← flowEntries fuel true))
      | next =>
        if indentless && next = some .blockEntry then
          finish name (.list (collectionTag tag .list) (← indentlessItems fuel))
        else if block && next = some .blockSequence then
          drop
          finish name (.list (collectionTag tag .list) (← blockItems fuel))
        else if block && next = some .blockMapping then
          drop
          finish name (.map (collectionTag tag .map) (← blockEntries fuel))
        else if name.isSome || tag.isSome then
          finish name (.scalar (← scalarTag tag true "") "")
        else fail

/-- A node, unless what comes next shows that it is left out. -/
def nodeUnless (fuel : Nat) (ends : List Token) (block indentless : Bool) : Assembler Node :=
  match fuel with
  | 0 => fail
  | fuel + 1 => do if ← sees ends then return emptyNode else node fuel block indentless

def blockItems (fuel : Nat) : Assembler (List Node) :=
  match fuel with
  | 0 => fail
  | fuel + 1 => do
    if ← takes .blockEntry then
      let n ← nodeUnless fuel [.blockEntry, .blockEnd] true false
      return n :: (← blockItems fuel)
    else
      expects .blockEnd
      return []

def indentlessItems (fuel : Nat) : Assembler (List Node) :=
  match fuel with
  | 0 => fail
  | fuel + 1 => do
    if ← takes .blockEntry then
      let n ← nodeUnless fuel [.blockEntry, .key, .value, .blockEnd] true false
      return n :: (← indentlessItems fuel)
    else return []

def blockEntries (fuel : Nat) : Assembler (List (Node × Node)) :=
  match fuel with
  | 0 => fail
  | fuel + 1 => do
    if ← takes .key then
      let k ← nodeUnless fuel [.key, .value, .blockEnd] true true
      let v ←
        if ← takes .value then nodeUnless fuel [.key, .value, .blockEnd] true true
        else pure emptyNode
      return (k, v) :: (← blockEntries fuel)
    else
      expects .blockEnd
      return []

/-- The items of a list in flow style, among which single entries stand for mappings. -/
def flowItems (fuel : Nat) (first : Bool) : Assembler (List Node) :=
  match fuel with
  | 0 => fail
  | fuel + 1 => do
    if ← takes .flowSequenceEnd then return []
    else
      if !first then expects .flowEntry
      if ← takes .key then
        let k ← nodeUnless fuel [.value, .flowEntry, .flowSequenceEnd] false false
        let v ←
          if ← takes .value then nodeUnless fuel [.flowEntry, .flowSequenceEnd] false false
          else pure emptyNode
        return .map .map [(k, v)] :: (← flowItems fuel false)
      else if ← takes .flowSequenceEnd then return []
      else
        let n ← node fuel false false
        return n :: (← flowItems fuel false)

def flowEntries (fuel : Nat) (first : Bool) : Assembler (List (Node × Node)) :=
  match fuel with
  | 0 => fail
  | fuel + 1 => do
    if ← takes .flowMappingEnd then return []
    else
      if !first then expects .flowEntry
      if ← takes .key then
        let k ← nodeUnless fuel [.value, .flowEntry, .flowMappingEnd] false false
        let v ←
          if ← takes .value then nodeUnless fuel [.flowEntry, .flowMappingEnd] false false
          else pure emptyNode
        return (k, v) :: (← flowEntries fuel false)
      else if ← takes .flowMappingEnd then return []
      else
        let k ← node fuel false false
        return (k, emptyNode) :: (← flowEntries fuel false)

end

/-- The directives in front of a document: one version at most, and handles for tags. -/
def directives : Nat → Bool → Assembler Unit
  | 0, _ => return ()
  | fuel + 1, versioned => do
    match ← peek with
    | some (.directive d) =>
      drop
      match d with
      | .version major =>
        if versioned || major ≠ 1 then fail
        directives fuel true
      | .handle name start =>
        if ((← get).handles.lookup name).isSome then fail
        modify fun s => { s with handles := (name, start) :: s.handles }
        directives fuel versioned
      | .unknown => directives fuel versioned
    | _ => return ()

def standardHandles : List (String × String) := [("!", "!"), ("!!", Tag.standard)]

/-- Passes the lines that end a document. -/
def documentEnds : Nat → Assembler Unit
  | 0 => return ()
  | fuel + 1 => do
    if ← takes .documentEnd then documentEnds fuel

/-- The document of a text; none if the text is empty. Nothing may follow it. -/
def document (fuel : Nat) : Assembler (Option Node) := do
  match ← peek with
  | none => return none
  | some t =>
    let explicit := match t with
      | .directive _ => true
      | .documentStart => true
      | _ => false
    let n ←
      if explicit then do
        directives fuel false
        modify fun s => { s with handles := s.handles ++ standardHandles }
        expects .documentStart
        match ← peek with
        | none => pure emptyNode
        | some (.directive _) => pure emptyNode
        | some .documentStart => pure emptyNode
        | some .documentEnd => pure emptyNode
        | _ => node fuel true false
      else do
        modify fun s => { s with handles := standardHandles }
        node fuel true false
    documentEnds fuel
    if (← peek).isSome then fail
    return some n

end Assembler

/-- The document that a text holds; none if it holds nothing. -/
def Node.read (times : Bool) (s : String) : Except Failure (Option Node) := do
  let ts ← tokens s
  (Assembler.document (4 * ts.length + 8)).run' ⟨ts, [], [], times⟩

end Yaml

end FormDesigner
