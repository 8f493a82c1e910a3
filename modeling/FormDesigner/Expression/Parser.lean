import FormDesigner.Expression.Token
import FormDesigner.Expression.Tree

/-!
# Parsing expressions

The grammar, loosest binding first:

    expr       := and (("||" | "or") and)*
    and        := not (("&&" | "and") not)*
    not        := ("!" | "not") not | comparison
    comparison := additive (comparator additive)*
    additive   := term (("+" | "-") term)*
    term       := unary (("*" | "/" | "%") unary)*
    unary      := ("-" | "+") unary | primary
    primary    := NUMBER | TEXT | "true" | "false" | "null" | field | "(" expr ")"
    field      := NAME | "values" "." NAME | "values" "[" TEXT "]"

Chains associate to the left. Every parenthesised group and every operand of a prefix operator
counts as one level of nesting, and the number of levels is bounded. That bound is also what makes
parsing terminate: a level is built from the parsers of the level below it, and within a level
every step of a chain consumes a token.
-/

namespace FormDesigner.Expression

/-- What a parser missed, or met, at some token. -/
inductive Complaint where
  | unexpectedToken
  | unexpectedKeyword
  | expectedValue
  | expectedSymbol (s : Symbol)
  | expectedFieldKey
  | expectedQuotedKey
  | tooDeep (limit : Int)
deriving DecidableEq

/-- A complaint at a token, or at the end of the text where there is none. -/
structure ParseFault where
  complaint : Complaint
  found : Option Lexeme
  position : Nat
deriving DecidableEq

/-- What a parser leaves of `tokens` once it has consumed at least one of them. -/
abbrev Shorter (tokens : List Token) := { rest : List Token // rest.length < tokens.length }

/-- A parser of something that takes at least one token. -/
abbrev Parser (α : Type) := (tokens : List Token) → Except ParseFault (α × Shorter tokens)

/-- What a parsing run keeps fixed: the limit on nesting and where the text ends. -/
structure Setting where
  depthLimit : Int
  stop : Nat

namespace Setting

def complain (s : Setting) (complaint : Complaint) : List Token → ParseFault
  | [] => ⟨complaint, none, s.stop⟩
  | t :: _ => ⟨complaint, some t.lexeme, t.start⟩

end Setting

/-- The tokens after the first one. -/
def afterFirst {t : Token} {rest : List Token} : Shorter (t :: rest) := ⟨rest, by simp⟩

/-- The rest of a chain `operand (op operand)*` whose first operand has been read. -/
def chainFrom {Op : Type} (op? : Lexeme → Option Op) (combine : Op → Expression → Expression → Expression)
    (operand : Parser Expression) (left : Expression) (tokens : List Token) :
    Except ParseFault (Expression × { rest : List Token // rest.length ≤ tokens.length }) :=
  match tokens with
  | [] => .ok (left, ⟨[], by simp⟩)
  | t :: rest =>
    match op? t.lexeme with
    | none => .ok (left, ⟨t :: rest, by simp⟩)
    | some op =>
      match operand rest with
      | .error e => .error e
      | .ok (right, after) =>
        match chainFrom op? combine operand (combine op left right) after.1 with
        | .error e => .error e
        | .ok (e, last) =>
          .ok (e, ⟨last.1, by have := last.2; have := after.2; simp only [List.length_cons]; omega⟩)
termination_by tokens.length
decreasing_by have := after.2; simp only [List.length_cons]; omega

/-- A chain of operands, associated to the left. -/
def chain {Op : Type} (op? : Lexeme → Option Op) (combine : Op → Expression → Expression → Expression)
    (operand : Parser Expression) : Parser Expression := fun tokens =>
  match operand tokens with
  | .error e => .error e
  | .ok (left, rest) =>
    match chainFrom op? combine operand left rest.1 with
    | .error e => .error e
    | .ok (e, last) => .ok (e, ⟨last.1, by have := last.2; have := rest.2; omega⟩)

def orOp? : Lexeme → Option Connective
  | .symbol .orOr => some .or
  | .keyword .or => some .or
  | _ => none

def andOp? : Lexeme → Option Connective
  | .symbol .andAnd => some .and
  | .keyword .and => some .and
  | _ => none

def isNot : Lexeme → Bool
  | .symbol .bang => true
  | .keyword .not => true
  | _ => false

def comparator? : Lexeme → Option BinaryOp
  | .symbol .strictEq => some .strictEq
  | .symbol .strictNe => some .strictNe
  | .symbol .eq => some .eq
  | .symbol .ne => some .ne
  | .symbol .le => some .le
  | .symbol .ge => some .ge
  | .symbol .lt => some .lt
  | .symbol .gt => some .gt
  | _ => none

def additiveOp? : Lexeme → Option BinaryOp
  | .symbol .plus => some .add
  | .symbol .minus => some .sub
  | _ => none

def termOp? : Lexeme → Option BinaryOp
  | .symbol .star => some .mul
  | .symbol .slash => some .div
  | .symbol .percent => some .rem
  | _ => none

def signOp? : Lexeme → Option UnaryOp
  | .symbol .minus => some .minus
  | .symbol .plus => some .plus
  | _ => none

/-- One step of an additive chain. An addition joins texts as soon as one side is known to be
text. -/
def combineAdditive (op : BinaryOp) (left right : Expression) : Expression :=
  match op, left with
  | .add, .concat parts => .concat (parts ++ [right])
  | .add, left => if left.isText || right.isText then .concat [left, right] else .binary .add left right
  | op, left => .binary op left right

/-- The parsers that one level of nesting lends to the level around it. -/
structure Level where
  expr : Parser Expression
  negation : Parser Expression
  signed : Parser Expression

/-- The field named by the tokens after the word `values`, where they name one. -/
def qualifiedField? (s : Setting) (tokens : List Token) :
    Except ParseFault (Option (String × { rest : List Token // rest.length ≤ tokens.length })) :=
  match tokens with
  | ⟨.symbol .dot, _, _⟩ :: rest =>
    match rest with
    | ⟨.name key, _, _⟩ :: rest => .ok (some (key, ⟨rest, by simp; omega⟩))
    | ⟨.keyword k, _, _⟩ :: rest => .ok (some (k.text, ⟨rest, by simp; omega⟩))
    | rest => .error (s.complain .expectedFieldKey rest)
  | ⟨.symbol .openBracket, _, _⟩ :: rest =>
    match rest with
    | ⟨.text key, _, _⟩ :: ⟨.symbol .closeBracket, _, _⟩ :: rest =>
      .ok (some (key, ⟨rest, by simp; omega⟩))
    | ⟨.text _, _, _⟩ :: rest => .error (s.complain (.expectedSymbol .closeBracket) rest)
    | rest => .error (s.complain .expectedQuotedKey rest)
  | _ => .ok none

/-- The parser of what nests one level deeper, which fails where no deeper level is allowed. -/
def enter (s : Setting) (deeper : Option Level) (part : Level → Parser Expression) :
    Parser Expression := fun tokens =>
  match deeper with
  | some level => part level tokens
  | none => .error (s.complain (.tooDeep s.depthLimit) tokens)

/-- The tokens after the parenthesis that closes a group. -/
def closeGroup (s : Setting) : (tokens : List Token) → Except ParseFault (Shorter tokens)
  | ⟨.symbol .closeParen, _, _⟩ :: _ => .ok afterFirst
  | tokens => .error (s.complain (.expectedSymbol .closeParen) tokens)

def primary (s : Setting) (deeper : Option Level) : Parser Expression
  | [] => .error (s.complain .expectedValue [])
  | t :: rest =>
    match t.lexeme with
    | .number n => .ok (.literal (.number n), afterFirst)
    | .text v => .ok (.literal (.text v), afterFirst)
    | .keyword .true => .ok (.literal (.bool true), afterFirst)
    | .keyword .false => .ok (.literal (.bool false), afterFirst)
    | .keyword .null => .ok (.literal .null, afterFirst)
    | .keyword _ => .error (s.complain .unexpectedKeyword (t :: rest))
    | .name "values" =>
      match qualifiedField? s rest with
      | .error e => .error e
      | .ok (some (key, after)) =>
        .ok (.field key, ⟨after.1, by have := after.2; simp only [List.length_cons]; omega⟩)
      | .ok none => .ok (.field "values", afterFirst)
    | .name key => .ok (.field key, afterFirst)
    | .symbol .openParen =>
      match enter s deeper Level.expr rest with
      | .error e => .error e
      | .ok (e, inner) =>
        match closeGroup s inner.1 with
        | .error e => .error e
        | .ok after =>
          .ok (e, ⟨after.1, by
            have := inner.2
            have := after.2
            simp only [List.length_cons]
            omega⟩)
    | .symbol _ => .error (s.complain .expectedValue (t :: rest))

/-- A prefix operator with an operand one level deeper, or what follows where there is none. -/
def prefixed (s : Setting) (deeper : Option Level) (op? : Lexeme → Option UnaryOp)
    (operand : Level → Parser Expression) (otherwise : Parser Expression) : Parser Expression
  | [] => otherwise []
  | t :: rest =>
    match op? t.lexeme with
    | none => otherwise (t :: rest)
    | some op =>
      match enter s deeper operand rest with
      | .error e => .error e
      | .ok (e, after) =>
        .ok (.unary op e, ⟨after.1, by have := after.2; simp only [List.length_cons]; omega⟩)

def notOp? (l : Lexeme) : Option UnaryOp := if isNot l then some .not else none

/-- The parsers of one level, given those of the next. -/
def Level.over (s : Setting) (deeper : Option Level) : Level :=
  let signed := prefixed s deeper signOp? Level.signed (primary s deeper)
  let term := chain termOp? Expression.binary signed
  let additive := chain additiveOp? combineAdditive term
  let comparison := chain comparator? Expression.binary additive
  let negation := prefixed s deeper notOp? Level.negation comparison
  let conjunction := chain andOp? Expression.logical negation
  ⟨chain orOp? Expression.logical conjunction, negation, signed⟩

/-- The parsers of a level that may nest `n` levels deeper. Those of the deeper levels are made only
where the text enters them. -/
def Level.allowing (s : Setting) : Nat → Level
  | 0 => .over s none
  | n + 1 =>
    .over s (some
      { expr := fun tokens => (Level.allowing s n).expr tokens
        negation := fun tokens => (Level.allowing s n).negation tokens
        signed := fun tokens => (Level.allowing s n).signed tokens })

/-- The expression that a list of tokens writes. -/
def parse (s : Setting) (tokens : List Token) : Except ParseFault Expression :=
  match (Level.allowing s s.depthLimit.toNat).expr tokens with
  | .error e => .error e
  | .ok (e, ⟨[], _⟩) => .ok e
  | .ok (_, ⟨rest, _⟩) => .error (s.complain .unexpectedToken rest)

namespace Lexeme

/-- How a message shows a token; `none` when it is an integer of too many digits. -/
def shown? : Lexeme → Option String
  | .number (.int n) => integerText? n
  | .number (.float x) => some x.text
  | .text s => some (Text.quoted s)
  | .name s => some (Text.quoted s)
  | .keyword k => some (Text.quoted k.text)
  | .symbol s => some (Text.quoted s.text)

end Lexeme

namespace Complaint

def text : Complaint → String
  | .unexpectedToken => "Unexpected token"
  | .unexpectedKeyword => "Unexpected keyword"
  | .expectedValue => "Expected a value"
  | .expectedSymbol s => "Expected '" ++ s.text ++ "'"
  | .expectedFieldKey => "Expected a field key after 'values.'"
  | .expectedQuotedKey => "Expected a quoted field key inside 'values[...]'"
  | .tooDeep limit => "Expression nested deeper than " ++ toString limit ++ " levels"

end Complaint

namespace ParseFault

/-- What is wrong, in words; `none` when the token that was found cannot be shown. -/
def message? (f : ParseFault) : Option String := do
  let found ← match f.found with
    | none => some "end of expression"
    | some l => l.shown?
  return f.complaint.text ++ " at position " ++ toString f.position ++ ", found " ++ found

end ParseFault

end FormDesigner.Expression
