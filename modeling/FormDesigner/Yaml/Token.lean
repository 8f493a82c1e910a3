import FormDesigner.Failure
import FormDesigner.Json.Reader

/-!
# Tokens of YAML

A text is split into tokens from its start to its end. Indentation is turned into tokens on the way:
a collection in block style begins and ends with tokens of its own. What stands before a colon turns
out to be a key only when the colon is reached, so the place of every text that may be a key is
remembered, and the token that announces a key is put in front of it later.
-/

namespace FormDesigner

namespace Yaml

inductive Directive where
  | version (major : Int)
  | handle (name start : String)
  | unknown
deriving DecidableEq, Repr

inductive Token where
  | directive (d : Directive)
  | documentStart | documentEnd
  | blockSequence | blockMapping | blockEnd
  | flowSequence | flowSequenceEnd | flowMapping | flowMappingEnd
  | blockEntry | flowEntry | key | value
  | alias (name : String) | anchor (name : String)
  /-- A tag: what stands before its last exclamation mark, if it is not given in full, and the
  rest. -/
  | tag (handle : Option String) (rest : String)
  | scalar (text : String) (plain : Bool)
deriving DecidableEq, Repr

/-- A text that breaks the rules of the notation. -/
def malformed : Failure := .fault .markup ""

/-- A place where a key may have begun. -/
structure KeyPlace where
  token : Nat
  required : Bool
  index : Nat
  line : Nat
  column : Nat

/-- How far a text has been split into tokens. -/
structure Scan where
  rest : List Char
  index : Nat
  line : Nat
  column : Nat
  /-- How many collections in flow style are open. -/
  flow : Nat
  /-- The column of the innermost collection in block style, and of those around it. -/
  indent : Int
  outer : List Int
  /-- A key may begin here. -/
  keyAllowed : Bool
  /-- Where a key may have begun, by the number of open collections in flow style. -/
  places : List (Nat × KeyPlace)
  tokens : Array Token

namespace Scan

def ofText (s : String) : Scan := ⟨s.toList, 0, 0, 0, 0, -1, [], true, [], #[]⟩

end Scan

abbrev Scanner := StateT Scan (Except Failure)

def fail {α : Type} : Scanner α := throw malformed

/-- Characters that a text may hold. -/
def isPrintable (c : Char) : Bool :=
  let n := c.toNat
  n == 0x9 || n == 0xa || n == 0xd || (0x20 ≤ n && n ≤ 0x7e) || n == 0x85
    || (0xa0 ≤ n && n ≤ 0xd7ff) || (0xe000 ≤ n && n ≤ 0xfffd) || 0x10000 ≤ n

/-- Characters that separate lines and are kept as they are. -/
def isSeparator (c : Char) : Bool := c.toNat == 0x2028 || c.toNat == 0x2029

def isBreak (c : Char) : Bool := c == '\n' || c == '\r' || c.toNat == 0x85 || isSeparator c

/-- The end of a line or of the text. -/
def endsLine (c : Option Char) : Bool := c.all isBreak

def endsWord (c : Option Char) : Bool := endsLine c || c == some ' '

def endsToken (c : Option Char) : Bool := endsWord c || c == some '\t'

def byteOrderMark : Char := Char.ofNat 0xfeff

/-- Passes one character. A carriage return before a line feed does not end the line. -/
def Scan.step (s : Scan) : Scan :=
  match s.rest with
  | [] => s
  | c :: rest =>
    if isBreak c && !(c == '\r' && rest.head? == some '\n') then
      { s with rest, index := s.index + 1, line := s.line + 1, column := 0 }
    else
      { s with rest, index := s.index + 1,
               column := if c == byteOrderMark then s.column else s.column + 1 }

def peek (n : Nat) : Scanner (Option Char) := return (← get).rest[n]?

def forward : Nat → Scanner Unit
  | 0 => return ()
  | n + 1 => do
    modify Scan.step
    forward n

/-- Passes the characters of a class and returns them. -/
def takeWhile (p : Char → Bool) : Scanner (List Char) := do
  let taken := (← get).rest.takeWhile p
  forward taken.length
  return taken

def skip (c : Char) : Scanner Unit := do let _ ← takeWhile (· == c)

/-- Passes a line break, if there is one, and returns it. All but the separators count as line
feeds. -/
def lineBreak : Scanner (List Char) := do
  match (← get).rest with
  | '\r' :: '\n' :: _ => forward 2; return ['\n']
  | c :: _ =>
    if isSeparator c then forward 1; return [c]
    else if isBreak c then forward 1; return ['\n']
    else return []
  | [] => return []

/-- Passes the rest of the line if it is a comment. -/
def skipComment : Scanner Unit := do
  if (← peek 0) == some '#' then
    let _ ← takeWhile fun c => !isBreak c

/-- Whether a line of hyphens or dots that separates documents begins here, in whatever column. -/
def atSeparator (c : Char) : Scanner Bool := do
  match (← get).rest with
  | a :: b :: d :: rest => return a == c && b == c && d == c && endsToken rest.head?
  | _ => return false

def atAnySeparator : Scanner Bool := return (← atSeparator '-') || (← atSeparator '.')

def push (t : Token) : Scanner Unit := modify fun s => { s with tokens := s.tokens.push t }

/-! ### Keys and indentation -/

/-- Forgets the places where a key can no longer have begun: a key stands on one line and is not
long. -/
def dropStale : Scanner Unit := do
  let s ← get
  let stale (k : KeyPlace) : Bool := k.line != s.line || k.index + 1024 < s.index
  if s.places.any fun (_, k) => stale k && k.required then fail
  else modify fun s => { s with places := s.places.filter fun (_, k) => !stale k }

/-- Forgets the place of a possible key in the innermost collection. -/
def dropPlace : Scanner Unit := do
  let s ← get
  match s.places.lookup s.flow with
  | none => return ()
  | some k =>
    if k.required then fail
    else modify fun s => { s with places := s.places.filter fun p => p.1 != s.flow }

/-- Remembers this place as one where a key may begin. -/
def savePlace : Scanner Unit := do
  if (← get).keyAllowed then
    dropPlace
    modify fun s =>
      let required := s.flow == 0 && s.indent == (s.column : Int)
      { s with places := (s.flow, ⟨s.tokens.size, required, s.index, s.line, s.column⟩) :: s.places }

def allowKey (b : Bool) : Scanner Unit := modify fun s => { s with keyAllowed := b }

/-- Closes the collections in block style that are indented deeper than a column. -/
def closeDeeper (column : Int) : List Int → Scanner Unit
  | [] => return ()
  | o :: outer => do
    if column < (← get).indent then
      push .blockEnd
      modify fun s => { s with indent := o, outer := outer }
      closeDeeper column outer

def unwind (column : Int) : Scanner Unit := do
  let s ← get
  if s.flow == 0 then closeDeeper column s.outer

/-- Opens a collection in block style if the column lies deeper than the one around it. -/
def deepen (column : Nat) : Scanner Bool := do
  let s ← get
  if s.indent < (column : Int) then
    modify fun s => { s with indent := column, outer := s.indent :: s.outer }
    return true
  else return false

/-- Passes blanks, comments and line breaks. A key may begin on a new line in block style. -/
def skipToToken : Nat → Scanner Unit
  | 0 => return ()
  | fuel + 1 => do
    skip ' '
    skipComment
    if (← lineBreak).isEmpty then return ()
    else
      if (← get).flow == 0 then allowKey true
      skipToToken fuel

/-! ### Directives, anchors and tags -/

def isNameChar (c : Char) : Bool := c.isAlphanum || c == '-' || c == '_'

def name : Scanner String := do
  let cs ← takeWhile isNameChar
  if cs.isEmpty then fail else return String.ofList cs

def versionNumber : Scanner Int := do
  let ds ← takeWhile Char.isDigit
  if ds.isEmpty then fail
  else
    match Text.boundedDigits ds with
    | .ok n => return n
    | .error _ => throw (.integerDigitLimit ds.length)

def hexOctet : Scanner UInt8 := do
  match (← get).rest with
  | a :: b :: _ =>
    match Json.hexValue? a, Json.hexValue? b with
    | some x, some y => forward 2; return UInt8.ofNat (x * 16 + y)
    | _, _ => fail
  | _ => fail

/-- Octets written with percent signs. -/
def escapedOctets : Nat → Scanner (List UInt8)
  | 0 => return []
  | fuel + 1 => do
    if (← peek 0) == some '%' then
      forward 1
      let o ← hexOctet
      return o :: (← escapedOctets fuel)
    else return []

def isTagChar (c : Char) : Bool := c.isAlphanum || "-;/?:@&=+$,_.!~*'()[]".toList.contains c

/-- The text of a tag, which must not be empty. -/
def tagText : Nat → Scanner (List Char)
  | 0 => return []
  | fuel + 1 => do
    let cs ← takeWhile isTagChar
    if (← peek 0) == some '%' then
      let octets ← escapedOctets ((← get).rest.length)
      match String.fromUTF8? ⟨octets.toArray⟩ with
      | none => fail
      | some s => return cs ++ s.toList ++ (← tagText fuel)
    else return cs

def filledTagText : Scanner String := do
  let cs ← tagText ((← get).rest.length + 1)
  if cs.isEmpty then fail else return String.ofList cs

/-- The part of a tag up to its last exclamation mark. -/
def tagHandle : Scanner String := do
  if (← peek 0) != some '!' then fail
  else
    forward 1
    if (← peek 0) == some ' ' then return "!"
    else
      let cs ← takeWhile isNameChar
      if (← peek 0) != some '!' then fail
      else
        forward 1
        return "!" ++ String.ofList cs ++ "!"

def directive : Scanner Directive := do
  forward 1
  let word ← name
  if !endsWord (← peek 0) then fail
  let d ←
    if word = "YAML" then do
      skip ' '
      let major ← versionNumber
      if (← peek 0) != some '.' then fail
      forward 1
      let _ ← versionNumber
      if !endsWord (← peek 0) then fail
      pure (.version major)
    else if word = "TAG" then do
      skip ' '
      let handle ← tagHandle
      if (← peek 0) != some ' ' then fail
      skip ' '
      let start ← filledTagText
      if !endsWord (← peek 0) then fail
      pure (.handle handle start)
    else do
      let _ ← takeWhile fun c => !isBreak c
      pure .unknown
  skip ' '
  skipComment
  if !endsLine (← peek 0) then fail
  let _ ← lineBreak
  return d

/-- The name after an ampersand or asterisk. -/
def anchorName : Scanner String := do
  forward 1
  let s ← name
  let c ← peek 0
  if endsToken c || (c.any fun c => "?:,]\x7d%@`".toList.contains c) then return s else fail

/-- Whether an exclamation mark ends the first part of a tag. -/
def hasHandle (cs : List Char) : Bool := (cs.takeWhile fun c => !endsWord (some c)).contains '!'

def tag : Scanner Token := do
  let next ← peek 1
  let t ←
    if next == some '<' then do
      forward 2
      let text ← filledTagText
      if (← peek 0) != some '>' then fail
      forward 1
      pure (.tag none text)
    else if endsToken next then do
      forward 1
      pure (.tag none "!")
    else if hasHandle ((← get).rest.drop 1) then do
      let handle ← tagHandle
      pure (.tag (some handle) (← filledTagText))
    else do
      forward 1
      pure (.tag (some "!") (← filledTagText))
  if endsWord (← peek 0) then return t else fail

/-! ### Scalars -/

/-- Line breaks and blanks up to the next text of a quoted scalar. -/
def quotedBreaks : Nat → Scanner (List Char)
  | 0 => return []
  | fuel + 1 => do
    if ← atAnySeparator then fail
    let _ ← takeWhile fun c => c == ' ' || c == '\t'
    let b ← lineBreak
    if b.isEmpty then return [] else return b ++ (← quotedBreaks fuel)

/-- A line break inside a scalar becomes a blank, unless others follow it or it is a separator. -/
def folded (first others : List Char) : List Char :=
  if first != ['\n'] then first ++ others
  else if others.isEmpty then [' ']
  else others

/-- Blanks inside a quoted scalar. -/
def quotedBlanks : Scanner (List Char) := do
  let blanks ← takeWhile fun c => c == ' ' || c == '\t'
  if (← peek 0).isNone then fail
  else
    let b ← lineBreak
    if b.isEmpty then return blanks
    else return folded b (← quotedBreaks ((← get).rest.length + 1))

/-- Characters that are written by a single character after a backslash. -/
def shortEscape? (c : Char) : Option Char :=
  [('0', 0x0), ('a', 0x7), ('b', 0x8), ('t', 0x9), ('\t', 0x9), ('n', 0xa), ('v', 0xb), ('f', 0xc),
    ('r', 0xd), ('e', 0x1b), (' ', 0x20), ('"', 0x22), ('\\', 0x5c), ('/', 0x2f), ('N', 0x85),
    ('_', 0xa0), ('L', 0x2028), ('P', 0x2029)].lookup c |>.map Char.ofNat

/-- How many hexadecimal digits follow a letter after a backslash. -/
def codeWidth? (c : Char) : Option Nat := [('x', 2), ('u', 4), ('U', 8)].lookup c

/-- The character with a given code. Codes of surrogates stand for no character. -/
def charOfCode (n : Nat) : Scanner Char :=
  if n < 0x110000 then
    return if 0xd800 ≤ n && n < 0xe000 then Char.ofNat 0xfffd else Char.ofNat n
  else if n < 0x80000000 then throw (.fault .value "chr() arg not in range(0x110000)")
  else throw (.fault .overflow "")

def codedChar (width : Nat) : Scanner Char := do
  let ds := (← get).rest.take width
  if ds.length != width then fail
  else
    match ds.mapM Json.hexValue? with
    | none => fail
    | some vs =>
      forward width
      charOfCode (vs.foldl (fun n v => n * 16 + v) 0)

/-- What follows a backslash in double quotes. -/
def backslashed : Scanner (List Char) := do
  match ← peek 0 with
  | none => fail
  | some c =>
    match shortEscape? c, codeWidth? c with
    | some d, _ => forward 1; return [d]
    | none, some width => forward 1; return [← codedChar width]
    | none, none =>
      if isBreak c then
        let _ ← lineBreak
        quotedBreaks ((← get).rest.length + 1)
      else fail

/-- The text of a quoted scalar up to its closing quote. -/
def quotedText (quote : Char) : Nat → Scanner (List Char)
  | 0 => fail
  | fuel + 1 => do
    let cs ← takeWhile fun c =>
      !(c == '\'' || c == '"' || c == '\\' || c == ' ' || c == '\t' || isBreak c)
    match (← get).rest with
    | [] => fail
    | c :: rest =>
      if c == quote then
        if quote == '\'' && rest.head? == some '\'' then
          forward 2
          return cs ++ '\'' :: (← quotedText quote fuel)
        else
          forward 1
          return cs
      else if c == '\\' && quote == '"' then
        forward 1
        let ds ← backslashed
        return cs ++ ds ++ (← quotedText quote fuel)
      else if c == '\'' || c == '"' || c == '\\' then
        forward 1
        return cs ++ c :: (← quotedText quote fuel)
      else
        let ds ← quotedBlanks
        return cs ++ ds ++ (← quotedText quote fuel)

/-- The line breaks inside a plain scalar after the first one; none where a document ends. -/
def plainBreaks : Nat → Scanner (Option (List Char))
  | 0 => return none
  | fuel + 1 => do
    if ← atAnySeparator then return none
    else
      skip ' '
      let b ← lineBreak
      if b.isEmpty then return some [] else return (← plainBreaks fuel).map (b ++ ·)

/-- Blanks inside a plain scalar; none where it must end. -/
def plainBlanks : Scanner (List Char) := do
  let blanks ← takeWhile (· == ' ')
  let b ← lineBreak
  if b.isEmpty then return blanks
  else
    allowKey true
    return ((← plainBreaks ((← get).rest.length + 1)).map (folded b)).getD []

def isFlowMark (c : Char) : Bool := c == ',' || c == '[' || c == ']' || c == '\x7b' || c == '\x7d'

/-- The length of a word of a plain scalar. -/
def plainLength (inFlow : Bool) : List Char → Nat
  | [] => 0
  | c :: rest =>
    if endsToken (some c) || (inFlow && (isFlowMark c || c == '?')) then 0
    else if c == ':' && (endsToken rest.head? || (inFlow && rest.head?.any isFlowMark)) then 0
    else 1 + plainLength inFlow rest

/-- The words of a plain scalar. Its lines must be indented by at least `indent`. -/
def plainText (indent : Int) (blanks : List Char) : Nat → Scanner (List Char)
  | 0 => return []
  | fuel + 1 => do
    let s ← get
    let inFlow := s.flow != 0
    let n := if s.rest.head? == some '#' then 0 else plainLength inFlow s.rest
    if n == 0 then return []
    else
      allowKey false
      let word := s.rest.take n
      forward n
      let next ← plainBlanks
      let t ← get
      if next.isEmpty || t.rest.head? == some '#' || (!inFlow && (t.column : Int) < indent) then
        return blanks ++ word
      else return blanks ++ word ++ (← plainText indent next fuel)

/-- What becomes of the line breaks at the end of a block scalar. -/
inductive Chomping where
  | clip | strip | keep
deriving DecidableEq, Repr

def chomping? : Scanner (Option Chomping) := do
  match ← peek 0 with
  | some '+' => forward 1; return some .keep
  | some '-' => forward 1; return some .strip
  | _ => return none

/-- The indentation that a block scalar states. -/
def increment? : Scanner (Option Nat) := do
  match ← peek 0 with
  | some c =>
    if c.isDigit then
      if c == '0' then fail
      forward 1
      return some (c.toNat - '0'.toNat)
    else return none
  | none => return none

/-- The indicators of a block scalar, in either order. -/
def blockIndicators : Scanner (Chomping × Option Nat) := do
  let r ←
    match ← chomping? with
    | some c => pure (c, ← increment?)
    | none =>
      match ← increment? with
      | some n => pure ((← chomping?).getD .clip, some n)
      | none => pure (.clip, none)
  if endsWord (← peek 0) then return r else fail

/-- Blank lines at the start of a block scalar, and the deepest column that their blanks reach. -/
def leadingBreaks (deepest : Nat) : Nat → Scanner (List Char × Nat)
  | 0 => return ([], deepest)
  | fuel + 1 => do
    skip ' '
    let deepest := max deepest (← get).column
    let b ← lineBreak
    if b.isEmpty then return ([], deepest)
    else
      let (bs, n) ← leadingBreaks deepest fuel
      return (b ++ bs, n)

/-- Passes blanks up to a column. -/
def skipIndent (indent : Nat) : Scanner Unit := do
  let s ← get
  forward ((s.rest.take (indent - s.column)).takeWhile (· == ' ')).length

/-- The blank lines before the next line of a block scalar. -/
def blockBreaks (indent : Nat) : Nat → Scanner (List Char)
  | 0 => return []
  | fuel + 1 => do
    skipIndent indent
    let b ← lineBreak
    if b.isEmpty then return [] else return b ++ (← blockBreaks indent fuel)

/-- The lines of a block scalar, with the line break and the blank lines at its end apart. -/
def blockLines (fold : Bool) (indent : Nat) (text breaks ending : List Char) :
    Nat → Scanner (List Char × List Char × List Char)
  | 0 => return (text, ending, breaks)
  | fuel + 1 => do
    let s ← get
    if s.column != indent || s.rest.isEmpty then return (text, ending, breaks)
    else
      let isText (c : Option Char) : Bool := c != some ' ' && c != some '\t'
      let leading := isText s.rest.head?
      let line ← takeWhile fun c => !isBreak c
      let ending ← lineBreak
      let next ← blockBreaks indent ((← get).rest.length + 1)
      let t ← get
      let text := text ++ breaks ++ line
      if t.column != indent || t.rest.isEmpty then return (text, ending, next)
      else
        let joint :=
          if fold && ending == ['\n'] && leading && isText t.rest.head? then
            if next.isEmpty then [' '] else []
          else ending
        blockLines fold indent (text ++ joint) next [] fuel

/-- A block scalar, literal or folded. -/
def blockText (fold : Bool) : Scanner String := do
  forward 1
  let (chomping, increment) ← blockIndicators
  skip ' '
  skipComment
  if !endsLine (← peek 0) then fail
  let _ ← lineBreak
  let s ← get
  let size := s.rest.length + 1
  let least := (max 1 (s.indent + 1)).toNat
  let (breaks, indent) ←
    match increment with
    | none => do
      let (breaks, deepest) ← leadingBreaks 0 size
      pure (breaks, max least deepest)
    | some n => do
      let indent := least + n - 1
      pure (← blockBreaks indent size, indent)
  let (text, ending, breaks) ← blockLines fold indent [] breaks [] size
  return String.ofList
    (text ++ (if chomping = .strip then [] else ending) ++ (if chomping = .keep then breaks else []))

/-! ### One token after the other -/

/-- Ends whatever is open before a line that separates documents or gives a directive. -/
def closeAll : Scanner Unit := do
  unwind (-1)
  dropPlace
  allowKey false

def flowStart (t : Token) : Scanner Unit := do
  savePlace
  modify fun s => { s with flow := s.flow + 1, keyAllowed := true }
  forward 1
  push t

def flowEnd (t : Token) : Scanner Unit := do
  dropPlace
  if (← get).flow == 0 then fail
  modify fun s => { s with flow := s.flow - 1, keyAllowed := false }
  forward 1
  push t

def flowEntry : Scanner Unit := do
  allowKey true
  dropPlace
  forward 1
  push .flowEntry

/-- Opens a collection in block style at this column, where a new one may begin. -/
def openBlock (t : Token) : Scanner Unit := do
  let s ← get
  if s.flow == 0 then
    if !s.keyAllowed then fail
    if ← deepen s.column then push t

def blockEntry : Scanner Unit := do
  openBlock .blockSequence
  allowKey true
  dropPlace
  forward 1
  push .blockEntry

def explicitKey : Scanner Unit := do
  openBlock .blockMapping
  allowKey ((← get).flow == 0)
  dropPlace
  forward 1
  push .key

/-- A colon: it makes a key of what stands before it, if that can be one. -/
def valueMark : Scanner Unit := do
  let s ← get
  match s.places.lookup s.flow with
  | some k =>
    modify fun s => { s with places := s.places.filter fun p => p.1 != s.flow }
    let opened ← if s.flow == 0 then deepen k.column else pure false
    modify fun s =>
      let before := s.tokens.extract 0 k.token
      let after := s.tokens.extract k.token s.tokens.size
      let added := if opened then #[Token.blockMapping, .key] else #[.key]
      { s with tokens := before ++ added ++ after, keyAllowed := false }
  | none =>
    openBlock .blockMapping
    allowKey (s.flow == 0)
    dropPlace
  forward 1
  push .value

/-- A token before which a key may begin, but not after it. -/
def keyLike (t : Scanner Token) : Scanner Unit := do
  savePlace
  allowKey false
  push (← t)

/-- Whether a plain scalar may begin with this character. -/
def startsPlain (inFlow : Bool) (c : Char) (next : Option Char) : Bool :=
  let special := "-?:,[]\x7b\x7d#&*!|>'\"%@`".toList
  !(endsToken (some c) || special.contains c)
    || (!endsToken next && (c == '-' || (!inFlow && (c == '?' || c == ':'))))

/-- The token that begins with a character which is not a blank. -/
def tokenAt (c : Char) : Scanner Unit := do
  let s ← get
  let inFlow := s.flow != 0
  let next := s.rest[1]?
  let size := s.rest.length + 1
  if c == '%' && s.column == 0 then
    closeAll
    push (.directive (← directive))
  else if s.column == 0 && (← atSeparator '-') then
    closeAll
    forward 3
    push .documentStart
  else if s.column == 0 && (← atSeparator '.') then
    closeAll
    forward 3
    push .documentEnd
  else if c == '[' then flowStart .flowSequence
  else if c == '\x7b' then flowStart .flowMapping
  else if c == ']' then flowEnd .flowSequenceEnd
  else if c == '\x7d' then flowEnd .flowMappingEnd
  else if c == ',' then flowEntry
  else if c == '-' && endsToken next then blockEntry
  else if c == '?' && (inFlow || endsToken next) then explicitKey
  else if c == ':' && (inFlow || endsToken next) then valueMark
  else if c == '*' then keyLike (return .alias (← anchorName))
  else if c == '&' then keyLike (return .anchor (← anchorName))
  else if c == '!' then keyLike tag
  else if (c == '|' || c == '>') && !inFlow then
    allowKey true
    dropPlace
    push (.scalar (← blockText (c == '>')) false)
  else if c == '\'' || c == '"' then
    keyLike do
      forward 1
      return .scalar (String.ofList (← quotedText c size)) false
  else if startsPlain inFlow c next then
    keyLike (return .scalar (String.ofList (← plainText (s.indent + 1) [] size)) true)
  else fail

def tokensFrom : Nat → Scanner Unit
  | 0 => fail
  | fuel + 1 => do
    let size := (← get).rest.length + 1
    skipToToken size
    dropStale
    unwind (← get).column
    match ← peek 0 with
    | none =>
      unwind (-1)
      dropPlace
    | some c =>
      tokenAt c
      tokensFrom fuel

/-- The tokens of a text. A byte order mark at its start is passed over. -/
def tokens (s : String) : Except Failure (List Token) :=
  if !s.toList.all isPrintable then .error malformed
  else do
    let scan := Scan.ofText s
    let scan := if scan.rest.head? == some byteOrderMark then scan.step else scan
    let (_, done) ← (tokensFrom (scan.rest.length + 2)).run scan
    return done.tokens.toList

end Yaml

end FormDesigner
