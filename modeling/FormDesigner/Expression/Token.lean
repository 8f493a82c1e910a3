import FormDesigner.Number.Mixed
import FormDesigner.Text.Character
import FormDesigner.Text.Numeral
import FormDesigner.Text.Escaped

/-!
# Tokens of expressions

An expression's text is cut into tokens from left to right; blanks between them are skipped. What
comes next at a position is decided by its first character, and every token is as long as its kind
allows. Each token records where it starts and how many characters it takes, so that the tokens and
the blanks between them tile the text.
-/

namespace FormDesigner.Expression

inductive Keyword where
  | and | or | not | true | false | null
deriving DecidableEq, Repr

inductive Symbol where
  | strictEq | strictNe | eq | ne | le | ge | andAnd | orOr
  | lt | gt | bang | plus | minus | star | slash | percent
  | openParen | closeParen | dot | openBracket | closeBracket
deriving DecidableEq, Repr

inductive Lexeme where
  | number (n : Number)
  | text (s : String)
  | name (s : String)
  | keyword (k : Keyword)
  | symbol (s : Symbol)
deriving DecidableEq

/-- What sort of lexeme this is. -/
def Lexeme.kind : Lexeme → String
  | .number _ => "number"
  | .text _ => "string"
  | .name _ => "ident"
  | .keyword _ => "keyword"
  | .symbol _ => "op"

structure Token where
  lexeme : Lexeme
  start : Nat
  size : Nat
deriving DecidableEq

/-- Why a text has no tokens. -/
inductive TokenFault where
  | unexpected (c : Char) (position : Nat)
  | integerTooLong (digits : Nat)
deriving DecidableEq

namespace Keyword

def text : Keyword → String
  | .and => "and"
  | .or => "or"
  | .not => "not"
  | .true => "true"
  | .false => "false"
  | .null => "null"

def all : List Keyword := [.and, .or, .not, .true, .false, .null]

def ofText? (s : String) : Option Keyword := all.find? fun k => k.text = s

end Keyword

namespace Symbol

def text : Symbol → String
  | .strictEq => "==="
  | .strictNe => "!=="
  | .eq => "=="
  | .ne => "!="
  | .le => "<="
  | .ge => ">="
  | .andAnd => "&&"
  | .orOr => "||"
  | .lt => "<"
  | .gt => ">"
  | .bang => "!"
  | .plus => "+"
  | .minus => "-"
  | .star => "*"
  | .slash => "/"
  | .percent => "%"
  | .openParen => "("
  | .closeParen => ")"
  | .dot => "."
  | .openBracket => "["
  | .closeBracket => "]"

/-- All symbols, a longer one before any that it starts with. -/
def all : List Symbol :=
  [.strictEq, .strictNe, .eq, .ne, .le, .ge, .andAnd, .orOr, .lt, .gt, .bang, .plus, .minus,
    .star, .slash, .percent, .openParen, .closeParen, .dot, .openBracket, .closeBracket]

/-- The symbol at the start of a text. -/
def atStart? (cs : List Char) : Option Symbol := all.find? fun s => s.text.toList.isPrefixOf cs

end Symbol

/-- How many characters of an exponent start the text. -/
def exponentSize : List Char → Nat
  | c :: rest =>
    if c = 'e' || c = 'E' then
      let (sign, rest) := match rest with
        | '+' :: tail => (1, tail)
        | '-' :: tail => (1, tail)
        | _ => (0, rest)
      let digits := (rest.takeWhile Text.isDigit).length
      if digits = 0 then 0 else 1 + sign + digits
    else 0
  | [] => 0

/-- How many characters of a number start the text, 0 if it starts with none. -/
def numberSize (cs : List Char) : Nat :=
  let whole := (cs.takeWhile Text.isDigit).length
  let mantissa :=
    match cs.drop whole with
    | '.' :: rest =>
      let fraction := (rest.takeWhile Text.isDigit).length
      if whole = 0 && fraction = 0 then 0 else whole + 1 + fraction
    | _ => whole
  if mantissa = 0 then 0 else mantissa + exponentSize (cs.drop mantissa)

/-- How many characters lead up to and include the closing quote. A backslash takes the character
after it along, which may be anything but a line feed. -/
def quotedSize? (quote : Char) : List Char → Option Nat
  | [] => none
  | [c] => if c = quote then some 1 else none
  | c :: d :: rest =>
    if c = quote then some 1
    else if c = '\\' then
      if d = '\n' then none else (quotedSize? quote rest).map (· + 2)
    else (quotedSize? quote (d :: rest)).map (· + 1)

/-- The text that the inside of a quoted text stands for. -/
def unescape : List Char → List Char
  | [] => []
  | [c] => [c]
  | c :: d :: rest =>
    if c = '\\' then
      (if d = 'n' then '\n' else if d = 't' then '\t' else if d = 'r' then '\r' else d)
        :: unescape rest
    else c :: unescape (d :: rest)

def isNameStart (c : Char) : Bool := c.isAlpha || c = '_' || c = '$'

def isNamePart (c : Char) : Bool := isNameStart c || c.isDigit

/-- The number that the characters of a numeric token write: an integer unless it has a point or an
exponent. -/
def numberOf (cs : List Char) : Except TokenFault Number :=
  let digits := cs.map Text.asciiDigit
  if cs.any fun c => c = '.' || c = 'e' || c = 'E' then
    .ok (.float (((Text.decimal? digits).map (Decimal.toBinary · false)).getD default))
  else
    match Text.boundedDigits digits with
    | .ok n => .ok (.int n)
    | .error _ => .error (.integerTooLong digits.length)

def nameOf (s : String) : Lexeme :=
  match Keyword.ofText? s with
  | some k => .keyword k
  | none => .name s

/-- What starts a text: blanks, or a lexeme, with the number of characters it takes. -/
inductive Piece where
  | blank (size : Nat)
  | lexeme (l : Lexeme) (size : Nat)

namespace Piece

def size : Piece → Nat
  | .blank n => n
  | .lexeme _ n => n

/-- The piece at the start of a text that begins with `c`; `position` is where it stands. -/
def read (c : Char) (rest : List Char) (position : Nat) : Except TokenFault Piece :=
  let cs := c :: rest
  if Text.isBlank c then .ok (.blank (cs.takeWhile Text.isBlank).length)
  else if 0 < numberSize cs then do
    let size := numberSize cs
    return .lexeme (.number (← numberOf (cs.take size))) size
  else if c = '\x22' || c = '\x27' then
    match quotedSize? c rest with
    | some n =>
      .ok (.lexeme (.text (String.ofList (unescape (rest.take (n - 1))))) (n + 1))
    | none => .error (.unexpected c position)
  else if isNameStart c then
    let name := cs.takeWhile isNamePart
    .ok (.lexeme (nameOf (String.ofList name)) name.length)
  else
    match Symbol.atStart? cs with
    | some s => .ok (.lexeme (.symbol s) s.text.length)
    | none => .error (.unexpected c position)

end Piece

/-- The tokens of a text that stands at `position`. -/
def tokensFrom (position : Nat) : List Char → Except TokenFault (List Token)
  | [] => .ok []
  | c :: rest =>
    match Piece.read c rest position with
    | .error e => .error e
    | .ok piece =>
      -- every piece takes at least its first character
      let size := max piece.size 1
      match tokensFrom (position + size) (rest.drop (size - 1)) with
      | .error e => .error e
      | .ok tokens =>
        match piece with
        | .blank _ => .ok tokens
        | .lexeme l n => .ok (⟨l, position, n⟩ :: tokens)
termination_by cs => cs.length
decreasing_by
  simp only [List.length_drop, List.length_cons]
  omega

/-- The tokens of an expression's text. -/
def tokenize (source : String) : Except TokenFault (List Token) := tokensFrom 0 source.toList

end FormDesigner.Expression
