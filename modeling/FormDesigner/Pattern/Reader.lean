import FormDesigner.Pattern.Tree
import FormDesigner.Text.Numeral

/-!
# Reading regular expressions

The notation has groups, named and numbered, references to them, conditions on them, look-ahead and
look-behind of fixed width, atomic groups, greedy, lazy and possessive repetitions, character sets
and options, for the whole pattern at its very start or for a group. A text that breaks these rules
is no pattern.
-/

namespace FormDesigner

namespace Pattern

/-- Why a text is no pattern that can be used. -/
inductive ReadFault where
  | malformed
  | countTooLarge
  | countTooLong (digits : Nat)
  | mixedAlphabets
deriving DecidableEq, Repr

/-- A character of a pattern, alone or after a backslash. -/
inductive Mark where
  | plain (c : Char)
  | escaped (c : Char)
deriving DecidableEq, Repr

/-- The marks of a text. A backslash at the end escapes nothing. -/
def marks? : List Char → Option (List Mark)
  | [] => some []
  | '\\' :: c :: rest => (marks? rest).map (.escaped c :: ·)
  | c :: rest => if c = '\\' then none else (marks? rest).map (.plain c :: ·)

/-- What has been read of a pattern so far. -/
structure Scan where
  rest : List Mark
  /-- The number that the next group gets. -/
  nextGroup : Nat
  names : List (String × Nat)
  /-- The least and the greatest width of each group that is closed; no greatest one if unbounded. -/
  widths : List (Nat × Nat × Option Nat)
  /-- Groups that a condition asks about. -/
  conditions : List Nat
  /-- The number of the first group that a look-behind around this place may not refer to. -/
  behindGroup : Option Nat
  /-- A look-behind of no fixed width has been read, which is held against the whole pattern. -/
  looseBehind : Bool

abbrev Reader := StateT Scan (Except ReadFault)

/-- Options that only matter while a pattern is read. -/
structure Layout where
  mode : Mode
  verbose : Bool
  /-- Repetitions are refused. -/
  template : Bool

def fail {α : Type} : Reader α := throw .malformed

/-- Continues from another state of the reading. -/
def put (s : Scan) : Reader Unit := StateT.set s

def peek : Reader (Option Mark) := return (← get).rest.head?

def next : Reader (Option Mark) := do
  let s ← get
  match s.rest with
  | [] => return none
  | m :: rest => put { s with rest := rest }; return some m

/-- Takes a character if it comes next. -/
def takes (c : Char) : Reader Bool := do
  if (← peek) = some (.plain c) then
    let _ ← next
    return true
  else return false

def expects (c : Char) : Reader Unit := do
  if ← takes c then return () else fail

def skipWhile (p : Mark → Bool) : Reader (List Char) := do
  let s ← get
  let taken := s.rest.takeWhile p
  put { s with rest := s.rest.drop taken.length }
  return taken.map fun
    | .plain c => c
    | .escaped c => c

/-- Up to `n` characters of a class. -/
def takeUpTo (n : Nat) (p : Char → Bool) : Reader (List Char) := do
  let s ← get
  let taken := (s.rest.take n).takeWhile fun
    | .plain c => p c
    | .escaped _ => false
  put { s with rest := s.rest.drop taken.length }
  return taken.map fun
    | .plain c => c
    | .escaped c => c

def isHex (c : Char) : Bool := c.isDigit || ('a' ≤ c && c ≤ 'f') || ('A' ≤ c && c ≤ 'F')

def isOctal (c : Char) : Bool := '0' ≤ c && c ≤ '7'

def digitIn (c : Char) : Nat :=
  if c.isDigit then c.toNat - 0x30 else if 'a' ≤ c then c.toNat - 0x57 else c.toNat - 0x37

def numberIn (base : Nat) (cs : List Char) : Nat := cs.foldl (fun n c => n * base + digitIn c) 0

/-- The text up to a closing character, which must not be empty. -/
def nameUpTo (close : Char) : Reader String := do
  let s ← get
  let taken := s.rest.takeWhile (· ≠ .plain close)
  if taken.isEmpty || taken.length = s.rest.length then fail
  else
    put { s with rest := s.rest.drop (taken.length + 1) }
    return String.ofList (taken.flatMap fun
      | .plain c => [c]
      | .escaped c => ['\\', c])

def isIdentifier (s : String) : Bool :=
  match s.toList with
  | [] => false
  | c :: cs => (Text.isWord c && !Text.isDigit c) && cs.all Text.isWord

/-- A character given by a fixed number of hexadecimal digits. -/
def hexChar (width : Nat) : Reader Char := do
  let ds ← takeUpTo width isHex
  if ds.length ≠ width then fail
  else
    let n := numberIn 16 ds
    if n < 0x110000 then return Char.ofNat n else fail

/-- Characters that a letter after a backslash stands for. -/
def controlChar? (c : Char) : Option Char :=
  if c = 'a' then some '\x07'
  else if c = 'b' then some '\x08'
  else if c = 'f' then some '\x0c'
  else if c = 'n' then some '\n'
  else if c = 'r' then some '\r'
  else if c = 't' then some '\t'
  else if c = 'v' then some '\x0b'
  else if c = '\\' then some '\\'
  else none

def charClass? (c : Char) : Option SetItem :=
  if c = 'd' then some (.kind .digit false)
  else if c = 'D' then some (.kind .digit true)
  else if c = 's' then some (.kind .blank false)
  else if c = 'S' then some (.kind .blank true)
  else if c = 'w' then some (.kind .word false)
  else if c = 'W' then some (.kind .word true)
  else none

def anchor? (ascii : Bool) (c : Char) : Option Anchor :=
  if c = 'A' then some .textStart
  else if c = 'Z' then some .textEnd
  else if c = 'b' then some (.boundary ascii)
  else if c = 'B' then some (.noBoundary ascii)
  else none

/-- A character escaped by its code, or one that stands for itself. -/
def codedChar (c : Char) : Reader Char := do
  if c = 'x' then hexChar 2
  else if c = 'u' then hexChar 4
  else if c = 'U' then hexChar 8
  else if c.isAlpha then fail
  else return c

/-- An octal number that starts with a digit already read. -/
def octalChar (ds : List Char) : Reader Char :=
  let n := numberIn 8 ds
  if n ≤ 0o377 then return Char.ofNat n else fail

/-- What an escaped character means inside a set. -/
def setEscape (c : Char) : Reader SetItem := do
  match controlChar? c, charClass? c with
  | some d, _ => return .char d
  | none, some k => return k
  | none, none =>
    if isOctal c then
      let more ← takeUpTo 2 isOctal
      return .char (← octalChar (c :: more))
    else if c.isDigit then fail
    else return .char (← codedChar c)

/-- Whether a group is closed, so that it can be referred to. -/
def isClosed (s : Scan) (group : Nat) : Bool := s.widths.any fun w => w.1 = group

/-- A look-behind may only refer to groups that were closed before it began. -/
def checkBehind (group : Nat) : Reader Unit := do
  let s ← get
  match s.behindGroup with
  | none => return ()
  | some first => if isClosed s group && group < first then return () else fail

def reference (mode : Mode) (group : Nat) : Reader Pattern := do
  let s ← get
  if group < s.nextGroup && isClosed s group then
    checkBehind group
    return .sameAs mode group
  else fail

/-- What an escaped character means outside a set. -/
def escape (mode : Mode) (c : Char) : Reader Pattern := do
  match charClass? c, anchor? mode.ascii c, controlChar? c with
  | some k, _, _ => return .set mode false [k]
  | none, some a, _ => return .anchor a
  | none, none, some d => return .char mode d
  | none, none, none =>
    if c = '0' then
      let more ← takeUpTo 2 isOctal
      return .char mode (← octalChar (c :: more))
    else if c.isDigit then
      let second ← takeUpTo 1 Char.isDigit
      match second with
      | [d] =>
        if isOctal c && isOctal d then
          match ← takeUpTo 1 isOctal with
          | [e] => return .char mode (← octalChar [c, d, e])
          | _ => reference mode (numberIn 10 [c, d])
        else reference mode (numberIn 10 [c, d])
      | _ => reference mode (numberIn 10 [c])
    else return .char mode (← codedChar c)

/-- One end of a range in a set, or an item by itself. -/
def setPart : Mark → Reader SetItem
  | .plain c => return .char c
  | .escaped c => setEscape c

/-- The items of a set up to its closing bracket. -/
def setItems : Nat → List SetItem → Reader (List SetItem)
  | 0, _ => fail
  | fuel + 1, items => do
    match ← next with
    | none => fail
    | some m =>
      if m = .plain ']' && !items.isEmpty then return items
      else
        let first ← setPart m
        if ← takes '-' then
          match ← next with
          | none => fail
          | some (.plain ']') => return items ++ [first, .char '-']
          | some m =>
            let last ← setPart m
            match first, last with
            | .char lo, .char hi =>
              if hi < lo then fail
              else setItems fuel (items ++ [.range lo.toNat hi.toNat])
            | _, _ => fail
        else setItems fuel (items ++ [first])

/-- The greatest count of a repetition that can be used. -/
def maxCount : Nat := 4294967295

/-- A count of a repetition, if digits are given. -/
def count? (ds : List Char) : Reader (Option Nat) :=
  if ds.isEmpty then return none
  else
    match Text.boundedDigits ds with
    | .error _ => throw (.countTooLong ds.length)
    | .ok n => if maxCount ≤ n then throw .countTooLarge else return some n

/-- The bounds of a repetition after its opening brace; `none` if the brace stands for itself. -/
def bounds : Reader (Option (Nat × Option Nat)) := do
  let start := (← get).rest
  if (← peek) = some (.plain '\x7d') then return none
  else
    let lo ← takeUpTo start.length Char.isDigit
    let hi ← if ← takes ',' then takeUpTo start.length Char.isDigit else pure lo
    if ← takes '\x7d' then
      let lo ← count? lo
      let hi ← count? hi
      match lo, hi with
      | some l, some h => if h < l then fail else return some (l, some h)
      | lo, hi => return some (lo.getD 0, hi)
    else
      modify fun s => { s with rest := start }
      return none

/-- Options that are switched on or off together. -/
structure OptionSet where
  ignoreCase : Bool
  multiLine : Bool
  dotAll : Bool
  verbose : Bool
  ascii : Bool
  unicode : Bool
  template : Bool
deriving DecidableEq

def OptionSet.none : OptionSet := ⟨false, false, false, false, false, false, false⟩

def isOption (c : Char) : Bool := ['i', 'L', 'm', 's', 'x', 'a', 't', 'u'].contains c

namespace OptionSet

/-- Switches an option on. The two alphabets exclude each other. -/
def add? (o : OptionSet) (c : Char) : Option OptionSet :=
  if c = 'i' then some { o with ignoreCase := true }
  else if c = 'm' then some { o with multiLine := true }
  else if c = 's' then some { o with dotAll := true }
  else if c = 'x' then some { o with verbose := true }
  else if c = 't' then some { o with template := true }
  else if c = 'a' && !o.unicode then some { o with ascii := true }
  else if c = 'u' && !o.ascii then some { o with unicode := true }
  else Option.none

def overlaps (a b : OptionSet) : Bool :=
  (a.ignoreCase && b.ignoreCase) || (a.multiLine && b.multiLine) || (a.dotAll && b.dotAll)
    || (a.verbose && b.verbose)

def union (a b : OptionSet) : OptionSet :=
  ⟨a.ignoreCase || b.ignoreCase, a.multiLine || b.multiLine, a.dotAll || b.dotAll,
    a.verbose || b.verbose, a.ascii || b.ascii, a.unicode || b.unicode, a.template || b.template⟩

end OptionSet

def Layout.adjust (l : Layout) (on off : OptionSet) : Layout :=
  { l with
    mode :=
      { ignoreCase := (l.mode.ignoreCase || on.ignoreCase) && !off.ignoreCase
        multiLine := (l.mode.multiLine || on.multiLine) && !off.multiLine
        dotAll := (l.mode.dotAll || on.dotAll) && !off.dotAll
        ascii := if on.ascii then true else if on.unicode then false else l.mode.ascii }
    verbose := (l.verbose || on.verbose) && !off.verbose }

/-- Options that are switched off, up to the colon. -/
def optionsOff : Nat → OptionSet → Reader OptionSet
  | 0, _ => fail
  | fuel + 1, o => do
    match ← next with
    | some (.plain c) =>
      if c = 'a' || c = 'u' || c = 'L' then fail
      else
        match o.add? c with
        | none => fail
        | some o => if ← takes ':' then return o else optionsOff fuel o
    | _ => fail

/-- Options switched on, then options switched off for one group; `none` for the second when the
options are for the whole pattern. -/
def optionsOn : Nat → OptionSet → Reader (OptionSet × Option OptionSet)
  | 0, _ => fail
  | fuel + 1, o => do
    match ← next with
    | some (.plain ')') => return (o, none)
    | some (.plain ':') => if o.template then fail else return (o, some .none)
    | some (.plain '-') =>
      if o.template then fail
      else
        let off ← optionsOff fuel .none
        if off.template || o.overlaps off then fail else return (o, some off)
    | some (.plain c) =>
      match o.add? c with
      | none => fail
      | some o => optionsOn fuel o
    | _ => fail

def isLayoutBlank (c : Char) : Bool :=
  c = ' ' || c = '\t' || c = '\n' || c = '\r' || c.toNat = 0xb || c.toNat = 0xc

/-- Skips a comment that ends with the line. -/
def skipLine : Reader Unit := do
  let _ ← skipWhile (· ≠ .plain '\n')
  let _ ← next

/-- Skips a comment in parentheses, whose opening has been read. -/
def skipComment : Reader Unit := do
  let _ ← skipWhile (· ≠ .plain ')')
  expects ')'

/-- Reads the options for the whole pattern, which stand at its start. -/
def leadingOptions : Nat → OptionSet → Reader OptionSet
  | 0, _ => fail
  | fuel + 1, o => do
    let s ← get
    match s.rest with
    | .plain '(' :: .plain '?' :: .plain '#' :: rest =>
      put { s with rest := rest }
      skipComment
      leadingOptions fuel o
    | .plain '(' :: .plain '?' :: .plain c :: rest =>
      if isOption c then
        put { s with rest := .plain c :: rest }
        let (on, off) ← optionsOn (rest.length + 1) .none
        match off with
        | none => leadingOptions fuel (o.union on)
        | some _ => put s; return o
      else return o
    | .plain c :: rest =>
      if o.verbose && isLayoutBlank c then
        put { s with rest := rest }
        leadingOptions fuel o
      else if o.verbose && c = '#' then
        skipLine
        leadingOptions fuel o
      else return o
    | _ => return o

/-- Least and greatest width; no greatest one if it is unbounded. -/
abbrev Width := Nat × Option Nat

def Width.add (a b : Width) : Width := (a.1 + b.1, do return (← a.2) + (← b.2))

def Width.either (a b : Width) : Width := (min a.1 b.1, do return max (← a.2) (← b.2))

def Width.times (w : Width) (lo : Nat) (hi : Option Nat) : Width :=
  (w.1 * lo, if w.2 = some 0 then some 0 else do return (← w.2) * (← hi))

mutual

/-- How many characters a pattern can take. -/
def width (groups : List (Nat × Width)) : Pattern → Width
  | .char .. => (1, some 1)
  | .any _ => (1, some 1)
  | .set .. => (1, some 1)
  | .anchor _ => (0, some 0)
  | .seq ps => widthSeq groups ps
  | .alt [] => (0, some 0)
  | .alt (p :: ps) => widthAlt groups (width groups p) ps
  | .group _ p => width groups p
  | .sameAs _ g => ((groups.find? fun w => w.1 = g).map (·.2)).getD (0, some 0)
  | .given _ yes no => (width groups yes).either (width groups no)
  | .loop lo hi _ p => (width groups p).times lo hi
  | .ahead .. => (0, some 0)
  | .behind .. => (0, some 0)
  | .atomic p => width groups p

def widthSeq (groups : List (Nat × Width)) : List Pattern → Width
  | [] => (0, some 0)
  | p :: ps => (width groups p).add (widthSeq groups ps)

def widthAlt (groups : List (Nat × Width)) (w : Width) : List Pattern → Width
  | [] => w
  | p :: ps => widthAlt groups (w.either (width groups p)) ps

end

/-- Whether a repetition may follow the last item of a sequence. -/
def repeatable (layout : Layout) : Pattern → Bool
  | .anchor _ => false
  | .loop .. => false
  | _ => !layout.template

/-- Opens a group and gives it the next number. -/
def openGroup (name : Option String) : Reader Nat := do
  let s ← get
  match name with
  | none => put { s with nextGroup := s.nextGroup + 1 }
  | some n =>
    if s.names.any fun e => e.1 = n then fail
    else put { s with nextGroup := s.nextGroup + 1, names := (n, s.nextGroup) :: s.names }
  return s.nextGroup

def closeGroup (index : Nat) (p : Pattern) : Reader Unit :=
  modify fun s => { s with widths := (index, width s.widths p) :: s.widths }

/-- The group that a condition asks about. -/
def conditionGroup : Reader Nat := do
  let name ← nameUpTo ')'
  let s ← get
  if isIdentifier name then
    match s.names.find? fun e => e.1 = name with
    | some (_, g) => return g
    | none => fail
  else
    match Text.readInteger name with
    | .ok n =>
      if n ≤ 0 || 1073741823 ≤ n then fail
      else
        put { s with conditions := n.toNat :: s.conditions }
        return n.toNat
    | .error _ => fail

/-- A repetition of the last item of a sequence, which is kept in reverse. -/
def repeatLast (layout : Layout) (done : List Pattern) (lo : Nat) (hi : Option Nat) :
    Reader (List Pattern) := do
  match done with
  | [] => fail
  | p :: before =>
    if !repeatable layout p then fail
    else if ← takes '?' then return .loop lo hi .lazy p :: before
    else if ← takes '+' then return .loop lo hi .possessive p :: before
    else return .loop lo hi .greedy p :: before

mutual

/-- The alternatives of a pattern or group. -/
def readAlternatives (fuel : Nat) (layout : Layout) (done : List Pattern) : Reader Pattern :=
  match fuel with
  | 0 => fail
  | fuel + 1 => do
    let p ← readSequence fuel layout []
    if ← takes '|' then readAlternatives fuel layout (p :: done)
    else
      match done with
      | [] => return p
      | done => return .alt (p :: done).reverse

/-- The items of one alternative, in reverse in `done`. -/
def readSequence (fuel : Nat) (layout : Layout) (done : List Pattern) : Reader Pattern :=
  match fuel with
  | 0 => fail
  | fuel + 1 => do
    match ← peek with
    | none => return .seq done.reverse
    | some (.plain '|') => return .seq done.reverse
    | some (.plain ')') => return .seq done.reverse
    | some m =>
      let _ ← next
      match m with
      | .escaped c => readSequence fuel layout ((← escape layout.mode c) :: done)
      | .plain c =>
        if layout.verbose && isLayoutBlank c then readSequence fuel layout done
        else if layout.verbose && c = '#' then
          skipLine
          readSequence fuel layout done
        else if c = '[' then
          let negated ← takes '^'
          let items ← setItems ((← get).rest.length + 1) []
          readSequence fuel layout (.set layout.mode negated items :: done)
        else if c = '*' then readSequence fuel layout (← repeatLast layout done 0 none)
        else if c = '+' then readSequence fuel layout (← repeatLast layout done 1 none)
        else if c = '?' then readSequence fuel layout (← repeatLast layout done 0 (some 1))
        else if c = '\x7b' then
          match ← bounds with
          | none => readSequence fuel layout (.char layout.mode c :: done)
          | some (lo, hi) => readSequence fuel layout (← repeatLast layout done lo hi)
        else if c = '.' then readSequence fuel layout (.any layout.mode.dotAll :: done)
        else if c = '^' then
          readSequence fuel layout (.anchor (.lineStart layout.mode.multiLine) :: done)
        else if c = '$' then
          readSequence fuel layout (.anchor (.lineEnd layout.mode.multiLine) :: done)
        else if c = '(' then
          match ← readGroup fuel layout with
          | some p => readSequence fuel layout (p :: done)
          | none => readSequence fuel layout done
        else readSequence fuel layout (.char layout.mode c :: done)

/-- What an opening parenthesis begins; `none` for a comment. -/
def readGroup (fuel : Nat) (layout : Layout) : Reader (Option Pattern) :=
  match fuel with
  | 0 => fail
  | fuel + 1 => do
    if ← takes '?' then
      match ← next with
      | some (.plain c) =>
        if c = 'P' then
          if ← takes '<' then
            let name ← nameUpTo '>'
            if isIdentifier name then return some (← readCapture fuel layout (some name)) else fail
          else if ← takes '=' then
            let name ← nameUpTo ')'
            match (← get).names.find? fun e => e.1 = name with
            | some (_, g) => return some (← reference layout.mode g)
            | none => fail
          else fail
        else if c = ':' then
          let p ← readAlternatives fuel layout []
          expects ')'
          return some (.seq [p])
        else if c = '>' then
          let p ← readAlternatives fuel layout []
          expects ')'
          return some (.atomic p)
        else if c = '#' then
          skipComment
          return none
        else if c = '=' || c = '!' then
          let p ← readAlternatives fuel layout []
          expects ')'
          return some (.ahead (c = '!') p)
        else if c = '<' then
          match ← next with
          | some (.plain d) =>
            if d = '=' || d = '!' then
              let outer := (← get).behindGroup
              modify fun s => { s with behindGroup := outer <|> some s.nextGroup }
              let p ← readAlternatives fuel layout []
              modify fun s => { s with behindGroup := outer }
              expects ')'
              match width (← get).widths p with
              | (lo, hi) =>
                if hi != some lo then modify fun s => { s with looseBehind := true }
                return some (.behind (d = '!') lo p)
            else fail
          | _ => fail
        else if c = '(' then
          let g ← conditionGroup
          checkBehind g
          let yes ← readSequence fuel layout []
          let no ← if ← takes '|' then readSequence fuel layout [] else pure (.seq [])
          expects ')'
          return some (.given g yes no)
        else if isOption c || c = '-' then
          modify fun s => { s with rest := .plain c :: s.rest }
          let (on, off) ← optionsOn ((← get).rest.length + 1) .none
          match off with
          | none => fail
          | some off =>
            let p ← readAlternatives fuel (layout.adjust on off) []
            expects ')'
            return some (.seq [p])
        else fail
      | _ => fail
    else return some (← readCapture fuel layout none)

/-- A group that can be referred to, whose opening has been read. -/
def readCapture (fuel : Nat) (layout : Layout) (name : Option String) : Reader Pattern :=
  match fuel with
  | 0 => fail
  | fuel + 1 => do
    let g ← openGroup name
    let p ← readAlternatives fuel layout []
    expects ')'
    closeGroup g p
    return .group g p

end

/-- A whole pattern. -/
def readWhole (fuel : Nat) : Reader Pattern := do
  let o ← leadingOptions fuel .none
  let mode : Mode := ⟨o.ignoreCase, o.multiLine, o.dotAll, o.ascii⟩
  let p ← readAlternatives fuel ⟨mode, o.verbose, o.template⟩ []
  if o.ascii && o.unicode then throw .mixedAlphabets
  if !(← get).rest.isEmpty then fail
  let s ← get
  if s.looseBehind || s.conditions.any fun g => s.nextGroup ≤ g then fail
  return p

/-- The pattern that a text writes. -/
def read (s : String) : Except ReadFault Pattern :=
  match marks? s.toList with
  | none => .error .malformed
  | some ms =>
    (readWhole (4 * ms.length + 8)).run' ⟨ms, 1, [], [], [], none, false⟩

end Pattern

end FormDesigner
