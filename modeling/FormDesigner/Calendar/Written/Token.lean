import FormDesigner.Text.Character
import FormDesigner.Text.Word

/-!
# Words and numbers of a written date

A text that someone wrote for a date falls into words, numbers, blanks and single marks. A dot goes on
with a word or a number at first, so that `1.5` is one number; but when dots join words, or more than two
numbers, every dot is a mark of its own, as in `1.5.2024`.
-/

namespace FormDesigner.WrittenDate

def isLetter (c : Char) : Bool := Text.isWord c && c ≠ '_' && !Text.isDigit c

/-- What is being read. -/
inductive Mode where
  | word | number | dottedWord | dottedNumber
deriving DecidableEq, Repr

/-- A lexeme that is being read, its last character first. -/
structure Lexeme where
  mode : Mode
  reversed : List Char
  /-- Whether reading has gone on from a letter. -/
  hasLetters : Bool

namespace Lexeme

def put (x : Lexeme) (c : Char) (mode : Mode) : Lexeme := ⟨mode, c :: x.reversed, x.hasLetters⟩

def endsInDot (x : Lexeme) : Bool := x.reversed.head? = some '.'

def text (x : Lexeme) : List Char := x.reversed.reverse

/-- Goes on with a character, unless the character belongs to what follows. -/
def next? (x : Lexeme) (c : Char) : Option Lexeme :=
  match x.mode with
  | .word =>
    if isLetter c then some (x.put c .word)
    else if c = '.' then some (x.put c .dottedWord)
    else none
  | .number =>
    if Text.isDigit c then some (x.put c .number)
    else if c = '.' || (c = ',' && 2 ≤ x.reversed.length) then some (x.put c .dottedNumber)
    else none
  | .dottedWord =>
    if c = '.' || isLetter c then some (x.put c .dottedWord)
    else if Text.isDigit c && x.endsInDot then some (x.put c .dottedNumber)
    else none
  | .dottedNumber =>
    if c = '.' || Text.isDigit c then some (x.put c .dottedNumber)
    else if isLetter c && x.endsInDot then some (x.put c .dottedWord)
    else none

/-- A lexeme after it has met a character. -/
def meet (x : Lexeme) : Lexeme :=
  { x with hasLetters := x.hasLetters || x.mode = .word || x.mode = .dottedWord }

end Lexeme

/-- Reads a lexeme to its end, and gives what follows it. -/
def finish (x : Lexeme) : List Char → Lexeme × List Char
  | [] => (x, [])
  | c :: cs =>
    match x.meet.next? c with
    | some x => finish x cs
    | none => (x.meet, c :: cs)

def isMark (c : Char) : Bool := c = '.' || c = ','

/-- The pieces of a lexeme between its dots and commas, and the marks themselves. -/
def splitMarks : List Char → List (List Char)
  | [] => [[]]
  | c :: cs =>
    if isMark c then [] :: [c] :: splitMarks cs
    else
      match splitMarks cs with
      | p :: ps => (c :: p) :: ps
      | [] => [[c]]

/-- The tokens of a lexeme that has been read to its end. -/
def Lexeme.tokens (x : Lexeme) : List String :=
  let cs := x.text
  let isDotted := x.mode = .dottedWord || x.mode = .dottedNumber
  let isBroken :=
    x.hasLetters || 1 < cs.count '.' || ((x.reversed.head?).map isMark).getD false
  if isDotted && isBroken then
    ((splitMarks cs).filter (!·.isEmpty)).map String.ofList
  else if x.mode = .dottedNumber && cs.count '.' = 0 then
    [String.ofList (cs.map fun c => if c = ',' then '.' else c)]
  else [String.ofList cs]

/-- The tokens of a text. Null characters do not count. -/
def tokensFrom : Nat → List Char → List String
  | 0, _ => []
  | _, [] => []
  | fuel + 1, c :: cs =>
    if isLetter c || Text.isDigit c then
      let mode := if isLetter c then Mode.word else .number
      let (x, rest) := finish ⟨mode, [c], false⟩ cs
      x.tokens ++ tokensFrom fuel rest
    else if Text.isBlank c then " " :: tokensFrom fuel cs
    else String.singleton c :: tokensFrom fuel cs

def tokens (s : String) : List String :=
  let cs := s.toList.filter (· ≠ '\x00')
  tokensFrom (cs.length + 1) cs

end FormDesigner.WrittenDate
