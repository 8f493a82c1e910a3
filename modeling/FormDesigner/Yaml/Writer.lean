import FormDesigner.Text.Octets
import FormDesigner.Value.Equality
import FormDesigner.Yaml.Scalar

/-!
# Writing YAML

Values are written in block style, one entry or item per line, or in flow style on lines that are
broken when they get too long. A text is written plainly where it can be read back as the same text,
else between single quotes, and between double quotes where it needs escapes. Binary data stands on
lines of its own.
-/

namespace FormDesigner

namespace Yaml

structure Style where
  /-- Everything between brackets. -/
  flow : Bool
  /-- Printable characters beyond ASCII are written as they are. -/
  unicode : Bool

namespace Style

/-- One entry per line, for files. -/
def block : Style := ⟨false, true⟩

/-- Everything between brackets and in ASCII. -/
def inline : Style := ⟨true, false⟩

end Style

/-- The column after which lines are broken. -/
def bestWidth : Nat := 80

/-- By how much each level is indented. -/
def levelIndent : Nat := 2

/-- What has been written, and how the next token has to be joined to it. -/
structure Sheet where
  text : String
  column : Nat
  /-- The last thing written was a blank. -/
  blank : Bool
  /-- Nothing but indentation and indicators stands on the line. -/
  fresh : Bool
  indent : Option Nat

namespace Sheet

def empty : Sheet := ⟨"", 0, true, true, none⟩

/-- Adds text to the line. -/
def add (s : Sheet) (text : String) : Sheet :=
  { s with text := s.text ++ text, column := s.column + text.length }

/-- Ends the line by a given break. -/
def breakBy (s : Sheet) (separator : String) : Sheet :=
  { s with text := s.text ++ separator, column := 0, blank := true, fresh := true }

/-- Goes to the current indentation, on a new line if need be. -/
def newLine (s : Sheet) : Sheet :=
  let indent := s.indent.getD 0
  let s := if !s.fresh || indent < s.column || (s.column == indent && !s.blank) then s.breakBy "\n" else s
  if s.column < indent then
    { s with text := s.text ++ String.ofList (List.replicate (indent - s.column) ' '),
             column := indent, blank := true }
  else s

/-- Writes an indicator. -/
def mark (s : Sheet) (text : String) (apart blank fresh : Bool) : Sheet :=
  let s' := s.add (if s.blank || !apart then text else " " ++ text)
  { s' with blank := blank, fresh := s.fresh && fresh }

/-- The indentation one level deeper; in flow style, the outermost level is indented too. -/
def deeper (s : Sheet) (flow level : Bool) : Sheet :=
  { s with indent :=
      match s.indent with
      | none => some (if flow then levelIndent else 0)
      | some n => some (if level then n + levelIndent else n) }

/-- Breaks the line if it has become too long. -/
def wrap (s : Sheet) : Sheet := if bestWidth < s.column then s.newLine else s

def settle (s : Sheet) : Sheet := { s with blank := false, fresh := false }

end Sheet

/-! ### Scalars -/

/-- What can be said of a text that is to be written as a scalar. -/
structure Traits where
  multiline : Bool
  /-- It can be written plainly inside brackets. -/
  plainInFlow : Bool
  /-- It can be written plainly outside brackets. -/
  plainInBlock : Bool
  /-- It can be written between single quotes. -/
  quotable : Bool

/-- Line breaks that a text can be broken at when it is written. -/
def isTextBreak (c : Char) : Bool := c == '\n' || c.toNat == 0x85 || c.toNat == 0x2028 || c.toNat == 0x2029

def isSpacing (c : Char) : Bool := c == ' ' || c == '\t' || c == '\r' || isTextBreak c

def endsSpacing (c : Option Char) : Bool := c.all isSpacing

/-- Characters that need an escape. -/
def isSpecial (unicode : Bool) (c : Char) : Bool :=
  let n := c.toNat
  if c == '\n' || (0x20 ≤ n && n ≤ 0x7e) then false
  else
    let known := n == 0x85 || (0xa0 ≤ n && n ≤ 0xd7ff) || (0xe000 ≤ n && n ≤ 0xfffd)
      || (0x10000 ≤ n && n < 0x10ffff)
    !(known && n != 0xfeff && unicode)

/-- Neighbouring characters that stand in a relation to each other. -/
def hasPair (p : Char → Char → Bool) : List Char → Bool
  | a :: b :: rest => p a b || hasPair p (b :: rest)
  | _ => false

/-- Whether a text begins with a character that means something inside brackets, or outside. -/
def startsMarked (inFlow : Bool) : List Char → Bool
  | [] => false
  | c :: rest =>
    "#,[]\x7b\x7d&*!|>'\"%@`".toList.contains c
      || ((c == '?' || c == ':') && (inFlow || endsSpacing rest.head?))
      || (c == '-' && endsSpacing rest.head?)

/-- Whether a text holds, after its first character, one that means something. -/
def holdsMark (inFlow : Bool) (previous : Char) : List Char → Bool
  | [] => false
  | c :: rest =>
    (inFlow && ",?[]\x7b\x7d:".toList.contains c)
      || (c == ':' && endsSpacing rest.head?)
      || (c == '#' && isSpacing previous)
      || holdsMark inFlow c rest

def startsWith (start cs : List Char) : Bool := cs.take start.length == start

/-- Whether any character of a text means something where the text would stand. -/
def isMarked (inFlow : Bool) (cs : List Char) : Bool :=
  startsWith "---".toList cs || startsWith "...".toList cs || startsMarked inFlow cs
    || match cs with
      | [] => false
      | c :: rest => holdsMark inFlow c rest

def traits (unicode : Bool) (cs : List Char) : Traits :=
  if cs.isEmpty then ⟨false, false, true, true⟩
  else
    let isOuter (c : Option Char) : Bool := c.any fun c => c == ' ' || isTextBreak c
    let special := cs.any (isSpecial unicode)
    let multiline := cs.any isTextBreak
    let breakSpace := hasPair (fun a b => isTextBreak a && b == ' ') cs
    let spaceBreak := hasPair (fun a b => a == ' ' && isTextBreak b) cs
    let quotable := !breakSpace && !spaceBreak && !special
    let plain := quotable && !multiline && !isOuter cs.head? && !isOuter cs.getLast?
    ⟨multiline, plain && !isMarked true cs, plain && !isMarked false cs, quotable⟩

/-- How a scalar is written. -/
inductive Quoting where
  | plain | literal | single | double
deriving DecidableEq, Repr

/-- Pieces of a text: blanks, line breaks, single quotes, and everything else. -/
inductive Piece where
  | blanks (n : Nat)
  | breaks (cs : List Char)
  | quote
  | word (cs : List Char)

def addToPieces (c : Char) (ps : List Piece) : List Piece :=
  if c == ' ' then
    match ps with
    | .blanks n :: rest => .blanks (n + 1) :: rest
    | ps => .blanks 1 :: ps
  else if isTextBreak c then
    match ps with
    | .breaks cs :: rest => .breaks (c :: cs) :: rest
    | ps => .breaks [c] :: ps
  else if c == '\'' then .quote :: ps
  else
    match ps with
    | .word cs :: rest => .word (c :: cs) :: rest
    | ps => .word [c] :: ps

def piecesOf (cs : List Char) : List Piece := cs.foldr addToPieces []

def blanksText (n : Nat) : String := String.ofList (List.replicate n ' ')

/-- The pieces of a plain text. A single blank may become a line break. -/
def putPlain (split : Bool) (s : Sheet) : List Piece → Sheet
  | [] => s
  | .blanks n :: rest =>
    putPlain split
      (if n == 1 && bestWidth < s.column && split then s.newLine.settle else s.add (blanksText n)) rest
  | .breaks cs :: rest => putPlain split (s.add (String.ofList cs)) rest
  | .quote :: rest => putPlain split (s.add "'") rest
  | .word cs :: rest => putPlain split (s.add (String.ofList cs)) rest

/-- The pieces of a text between single quotes. A line break is written twice, since a single one
would be read as a blank. -/
def putSingle (split first : Bool) (s : Sheet) : List Piece → Sheet
  | [] => s
  | .blanks n :: rest =>
    let wraps := n == 1 && bestWidth < s.column && split && !first && !rest.isEmpty
    putSingle split false (if wraps then s.newLine else s.add (blanksText n)) rest
  | .breaks cs :: rest =>
    let s := if cs.head? == some '\n' then s.breakBy "\n" else s
    let s := cs.foldl (fun s c => s.breakBy (String.singleton c)) s
    putSingle split false s.newLine rest
  | .quote :: rest => putSingle split false (s.add "''") rest
  | .word cs :: rest => putSingle split false (s.add (String.ofList cs)) rest

/-- Letters that stand for a character after a backslash. -/
def escapeLetter? (c : Char) : Option Char :=
  [(0x0, '0'), (0x7, 'a'), (0x8, 'b'), (0x9, 't'), (0xa, 'n'), (0xb, 'v'), (0xc, 'f'), (0xd, 'r'),
    (0x1b, 'e'), (0x22, '"'), (0x5c, '\\'), (0x85, 'N'), (0xa0, '_'), (0x2028, 'L'),
    (0x2029, 'P')].lookup c.toNat

def capitalHex (width n : Nat) : List Char := (Text.hexDigits width n).map Char.toUpper

/-- How a character is written between double quotes, if not as itself. -/
def doubleEscape? (unicode : Bool) (c : Char) : Option String :=
  let n := c.toNat
  let direct := (0x20 ≤ n && n ≤ 0x7e && c != '"' && c != '\\')
    || (unicode && ((0xa0 ≤ n && n ≤ 0xd7ff) || (0xe000 ≤ n && n ≤ 0xfffd))
      && n != 0x2028 && n != 0x2029 && n != 0xfeff)
  if direct then none
  else
    some (String.ofList ('\\' ::
      match escapeLetter? c with
      | some l => [l]
      | none =>
        if n ≤ 0xff then 'x' :: capitalHex 2 n
        else if n ≤ 0xffff then 'u' :: capitalHex 4 n
        else 'U' :: capitalHex 8 n))

/-- Ends a line inside double quotes. A blank at the start of the next line has to be escaped. -/
def breakDouble (s : Sheet) (next : Option Char) : Sheet :=
  let s := (s.add "\\").newLine.settle
  if next == some ' ' then s.add "\\" else s

/-- The characters of a text between double quotes. Those in `held`, in reverse, are not written
yet. -/
def putDouble (unicode split : Bool) (s : Sheet) (first : Bool) (held : List Char) :
    List Char → Sheet
  | [] => s.add (String.ofList held.reverse)
  | c :: rest =>
    let inner := !first && !rest.isEmpty && split
    match doubleEscape? unicode c with
    | some e =>
      let s := (s.add (String.ofList held.reverse)).add e
      let s := if inner && bestWidth + 1 < s.column then breakDouble s rest.head? else s
      putDouble unicode split s false [] rest
    | none =>
      if inner && (c == ' ' || held.isEmpty) && bestWidth < s.column + held.length then
        putDouble unicode split (breakDouble (s.add (String.ofList held.reverse)) (some c)) false [c]
          rest
      else putDouble unicode split s false (c :: held) rest

/-- A text on lines of its own, each of which ends with a line feed. -/
def putLiteral (s : Sheet) (text : String) : Sheet :=
  (text.splitOn "\n").dropLast.foldl (fun s line => (s.newLine.add line).breakBy "\n")
    ((s.mark "|" true false false).breakBy "\n")

/-- Where a node stands. -/
structure Spot where
  flow : Bool
  /-- It is the value or the key of an entry. -/
  entry : Bool
  /-- It is a key on the line of its value. -/
  key : Bool

/-- A scalar: its tag and its text. -/
structure Leaf where
  tag : Tag
  text : String
  /-- It is written on lines of its own wherever that is possible. -/
  block : Bool

/-- The short form of a tag. -/
def tagMark (t : Tag) : String :=
  "!!" ++ ((Tag.names.find? fun e => e.2 == t).map (·.1)).getD ""

namespace Leaf

/-- Written plainly, the text would be read with the same tag. -/
def readsBack (l : Leaf) : Bool := plainTag true l.text == l.tag

def quoting (unicode : Bool) (spot : Spot) (l : Leaf) : Quoting :=
  let t := traits unicode l.text.toList
  let plain := !l.block && l.readsBack && !(spot.key && (l.text.isEmpty || t.multiline))
    && (if spot.flow then t.plainInFlow else t.plainInBlock)
  if plain then .plain
  else if l.block && !spot.flow && !spot.key && t.quotable && !l.text.isEmpty then .literal
  else if !l.block && t.quotable && !(spot.key && t.multiline) then .single
  else .double

def put (unicode : Bool) (spot : Spot) (s : Sheet) (l : Leaf) : Sheet :=
  let q := l.quoting unicode spot
  let tagged := if q = .plain then !l.readsBack else l.tag != .text
  let s := if tagged then s.mark (tagMark l.tag) true false false else s
  let outer := s.indent
  let s := s.deeper true true
  let cs := l.text.toList
  let split := !spot.key
  let s :=
    match q with
    | .plain =>
      if cs.isEmpty then s
      else putPlain split (if s.blank then s else s.add " ").settle (piecesOf cs)
    | .literal => putLiteral s l.text
    | .single => (putSingle split true (s.mark "'" true false false) (piecesOf cs)).mark "'" false false false
    | .double =>
      (putDouble unicode split (s.mark "\"" true false false) true [] cs).mark "\"" false false false
  { s with indent := outer }

end Leaf

/-- The text of a floating-point number, which always has a point. -/
def floatLeafText (x : Binary64) : String :=
  match x with
  | .nan _ => ".nan"
  | .infinite s => if s then "-.inf" else ".inf"
  | x =>
    let cs := x.text.toList
    if cs.contains '.' || !cs.contains 'e' then x.text
    else String.ofList (cs.takeWhile (· != 'e') ++ '.' :: '0' :: cs.dropWhile (· != 'e'))

/-- The scalar that a value is written as; none for a collection. -/
def leaf? : Value → Except Failure (Option Leaf)
  | .null => .ok (some ⟨.null, "null", false⟩)
  | .bool b => .ok (some ⟨.bool, if b then "true" else "false", false⟩)
  | .int n =>
    match integerText? n with
    | some s => .ok (some ⟨.int, s, false⟩)
    | none => .error .integerTextLimit
  | .float x => .ok (some ⟨.float, floatLeafText x, false⟩)
  | .text s => .ok (some ⟨.text, s, false⟩)
  | .date d => .ok (some ⟨.timestamp, d.isoText, false⟩)
  | .moment t => .ok (some ⟨.timestamp, t.isoTextWith " ", false⟩)
  | .bytes bs => .ok (some ⟨.binary, Text.encodeBase64Lines bs, true⟩)
  | _ => .ok none

/-! ### Collections -/

/-- A value that has no written form. -/
def unwritable : Failure := .fault .markup ""

/-- The length from which on a key is written on a line of its own. -/
def longKey : Nat := 128

def isEmptyCollection : Value → Bool
  | .list xs => xs.isEmpty
  | .tuple xs => xs.isEmpty
  | .set xs => xs.isEmpty
  | .map es => es.isEmpty
  | _ => false

/-- Whether a key can stand on the line of its value. -/
def isShortKey (unicode : Bool) (key : Value) : Except Failure Bool := do
  match ← leaf? key with
  | some l =>
    return (tagMark l.tag).length + l.text.length < longKey && !l.text.isEmpty
      && !(traits unicode l.text.toList).multiline
  | none => return isEmptyCollection key

/-- Writes what stands between brackets, one level deeper. -/
def inBrackets (s : Sheet) (opening closing : String) (body : Sheet → Except Failure Sheet) :
    Except Failure Sheet := do
  let t ← body ((s.mark opening true true false).deeper true true)
  return ({ t with indent := s.indent } : Sheet).mark closing false false false

/-- Writes what stands on lines of its own. A list is not indented deeper than the entry whose value
it is. -/
def onLines (s : Sheet) (level : Bool) (body : Sheet → Except Failure Sheet) :
    Except Failure Sheet := do
  let t ← body (s.deeper false level)
  return { t with indent := s.indent }

mutual

/-- Writes a value. -/
def putValue (style : Style) (spot : Spot) (s : Sheet) : Value → Except Failure Sheet
  | .list xs =>
    if spot.flow || style.flow || xs.isEmpty then
      inBrackets s "[" "]" fun s => putFlowItems style true s xs
    else onLines s (!spot.entry || s.fresh) fun s => putBlockItems style s xs
  | .tuple xs =>
    if spot.flow || style.flow || xs.isEmpty then
      inBrackets s "[" "]" fun s => putFlowItems style true s xs
    else onLines s (!spot.entry || s.fresh) fun s => putBlockItems style s xs
  | .map es =>
    if spot.flow || style.flow || es.isEmpty then
      inBrackets s "\x7b" "\x7d" fun s => putFlowEntries style true s es
    else onLines s true fun s => putBlockEntries style s es
  | v => do
    match ← leaf? v with
    | some l => return l.put style.unicode spot s
    | none => .error unwritable

def putFlowItems (style : Style) (first : Bool) (s : Sheet) : List Value → Except Failure Sheet
  | [] => .ok s
  | x :: xs => do
    let s := if first then s else s.mark "," false false false
    putFlowItems style false (← putValue style ⟨true, false, false⟩ s.wrap x) xs

def putBlockItems (style : Style) (s : Sheet) : List Value → Except Failure Sheet
  | [] => .ok s
  | x :: xs => do
    let s := s.newLine.mark "-" true false true
    putBlockItems style (← putValue style ⟨false, false, false⟩ s x) xs

def putFlowEntries (style : Style) (first : Bool) (s : Sheet) :
    List (Value × Value) → Except Failure Sheet
  | [] => .ok s
  | (k, v) :: es => do
    let s := (if first then s else s.mark "," false false false).wrap
    let s ←
      if ← isShortKey style.unicode k then do
        let s ← putValue style ⟨true, true, true⟩ s k
        pure (s.mark ":" false false false)
      else do
        let s ← putValue style ⟨true, true, false⟩ (s.mark "?" true false false) k
        pure (s.wrap.mark ":" true false false)
    putFlowEntries style false (← putValue style ⟨true, true, false⟩ s v) es

def putBlockEntries (style : Style) (s : Sheet) : List (Value × Value) → Except Failure Sheet
  | [] => .ok s
  | (k, v) :: es => do
    let s := s.newLine
    let s ←
      if ← isShortKey style.unicode k then do
        let s ← putValue style ⟨false, true, true⟩ s k
        pure (s.mark ":" false false false)
      else do
        let s ← putValue style ⟨false, true, false⟩ (s.mark "?" true false true) k
        pure (s.newLine.mark ":" true false true)
    putBlockEntries style (← putValue style ⟨false, true, false⟩ s v) es

end

/-- Whether a document is a scalar without quotes, which needs a mark for its end. -/
def endsOpen (style : Style) (v : Value) : Except Failure Bool := do
  return (← leaf? v).any fun l => l.quoting style.unicode ⟨false, false, false⟩ = .plain

/-- The text of a value in a style. -/
def write (style : Style) (v : Value) : Except Failure String := do
  let s ← putValue style ⟨false, false, false⟩ .empty v.sortKeys
  let s := s.newLine
  return s.text ++ (if ← endsOpen style v then "...\n" else "")

end Yaml

end FormDesigner
