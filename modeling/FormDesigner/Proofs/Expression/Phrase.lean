import FormDesigner.Expression.Parser

/-!
# Phrases of the grammar

A phrase is a derivation from one of the grammar's categories. It writes tokens, it nests groups and
operands of prefix operators inside each other, and it denotes an expression. The categories of one
kind share a rule: a chain `operand (op operand)*` associates to the left, and a prefix operator
stands before a phrase of its own category. Only what each operator denotes differs between them.
-/

namespace FormDesigner.Expression

/-- The categories whose phrases are chains, from the loosest binding operators to the tightest. -/
inductive Chain where
  | disjunction | conjunction | comparison | sum | product

/-- The categories whose phrases may start with a prefix operator. -/
inductive Prefixing where
  | negation | sign

inductive Category where
  | chain (c : Chain)
  | prefixed (c : Prefixing)
  | primary

namespace Chain

/-- The category of the operands of a chain. -/
def operand : Chain → Category
  | .disjunction => .chain .conjunction
  | .conjunction => .prefixed .negation
  | .comparison => .chain .sum
  | .sum => .chain .product
  | .product => .prefixed .sign

end Chain

namespace Prefixing

/-- What stands where there is no prefix operator. -/
def base : Prefixing → Category
  | .negation => .chain .comparison
  | .sign => .primary

/-- The operators that may stand in front. -/
def operator? : Prefixing → Lexeme → Option UnaryOp
  | .negation, .symbol .bang => some .not
  | .negation, .keyword .not => some .not
  | .sign, .symbol .minus => some .minus
  | .sign, .symbol .plus => some .plus
  | _, _ => none

end Prefixing

/-- A whole expression is a disjunction. -/
abbrev Category.expr : Category := .chain .disjunction

/-! ### What operators denote -/

/-- The parts that an expression contributes as the left side of an addition, if it is known to be
text: a concatenation all of its parts, a text itself. -/
def textParts? : Expression → Option (List Expression)
  | .concat parts => some parts
  | .literal (.text s) => some [.literal (.text s)]
  | _ => none

/-- What `left + right` denotes. An addition after something that is known to be text only adds a
part to it, and a text on the right makes the first concatenation of a chain. -/
def plus (left right : Expression) : Expression :=
  match left.textParts? with
  | some parts => .concat (parts ++ [right])
  | none => if right.isText then .concat [left, right] else .binary .add left right

variable {left right : Expression} {parts before es : List Expression}

theorem plus_of_textParts (h : left.textParts? = some parts) :
    plus left right = .concat (parts ++ [right]) := by
  rw [plus, h]

/-- All additions after a text make one concatenation with it. -/
theorem foldl_plus_of_textParts (h : left.textParts? = some parts) :
    (right :: es).foldl plus left = .concat (parts ++ right :: es) := by
  induction es generalizing left right parts with
  | nil => rw [List.foldl_cons, List.foldl_nil, plus_of_textParts h]
  | cons next es ih =>
      have hplus : (plus left right).textParts? = some (parts ++ [right]) := by
        rw [plus_of_textParts h, textParts?]
      rw [List.foldl_cons, ih hplus, List.append_assoc, List.singleton_append]

/-- A chain of additions is a sum up to its first text, and from there on a concatenation, of which
the sum is the first part. -/
theorem foldl_plus_of_isText (hleft : left.textParts? = none) (hbefore : ∀ e ∈ before, ¬ e.isText)
    (hright : right.isText) :
    (before ++ right :: es).foldl plus left =
      .concat (before.foldl (.binary .add) left :: right :: es) := by
  induction before generalizing left with
  | nil =>
      have hplus : plus left right = .concat [left, right] := by
        rw [plus, hleft]
        exact if_pos hright
      cases es with
      | nil => exact hplus
      | cons next es =>
          rw [List.nil_append, List.foldl_cons, hplus, foldl_plus_of_textParts rfl]
          rfl
  | cons e before ih =>
      obtain ⟨he, hbefore⟩ := List.forall_mem_cons.1 hbefore
      have hplus : plus left e = .binary .add left e := by
        rw [plus, hleft]
        exact if_neg he
      rw [List.cons_append, List.foldl_cons, hplus, ih rfl hbefore, List.foldl_cons]

/-- What an operator of a chain makes of the operands on its two sides. -/
def Chain.join? : Chain → Lexeme → Option (Expression → Expression → Expression)
  | .disjunction, .symbol .orOr => some (.logical .or)
  | .disjunction, .keyword .or => some (.logical .or)
  | .conjunction, .symbol .andAnd => some (.logical .and)
  | .conjunction, .keyword .and => some (.logical .and)
  | .comparison, .symbol .eq => some (.binary .eq)
  | .comparison, .symbol .ne => some (.binary .ne)
  | .comparison, .symbol .strictEq => some (.binary .strictEq)
  | .comparison, .symbol .strictNe => some (.binary .strictNe)
  | .comparison, .symbol .lt => some (.binary .lt)
  | .comparison, .symbol .le => some (.binary .le)
  | .comparison, .symbol .gt => some (.binary .gt)
  | .comparison, .symbol .ge => some (.binary .ge)
  | .sum, .symbol .plus => some plus
  | .sum, .symbol .minus => some (.binary .sub)
  | .product, .symbol .star => some (.binary .mul)
  | .product, .symbol .slash => some (.binary .div)
  | .product, .symbol .percent => some (.binary .rem)
  | _, _ => none

/-- The value that a token writes by itself. -/
def Lexeme.literal? : Lexeme → Option Literal
  | .number n => some (.number n)
  | .text s => some (.text s)
  | .keyword .true => some (.bool true)
  | .keyword .false => some (.bool false)
  | .keyword .null => some .null
  | _ => none

/-- The key that a word after `values.` names. Keywords are words there like any others. -/
def Lexeme.word? : Lexeme → Option String
  | .name key => some key
  | .keyword k => some k.text
  | _ => none

/-! ### Derivations -/

mutual

/-- A derivation from a category. -/
inductive Phrase : Category → Type
  | chain {c : Chain} (first : Phrase c.operand) (links : Links c) : Phrase (.chain c)
  | prefixed {c : Prefixing} (l : Lexeme) (op : UnaryOp) (operator : c.operator? l = some op)
      (operand : Phrase (.prefixed c)) : Phrase (.prefixed c)
  | plain {c : Prefixing} (phrase : Phrase c.base) : Phrase (.prefixed c)
  | literal (l : Lexeme) (v : Literal) (value : l.literal? = some v) : Phrase .primary
  | field (key : String) : Phrase .primary
  | member (l : Lexeme) (key : String) (word : l.word? = some key) : Phrase .primary
  | entry (key : String) : Phrase .primary
  | group (inner : Phrase .expr) : Phrase .primary

/-- The operators of a chain after its first operand, each with the operand on its right. -/
inductive Links : Chain → Type
  | nil {c : Chain} : Links c
  | cons {c : Chain} (l : Lexeme) (join : Expression → Expression → Expression)
      (operator : c.join? l = some join) (right : Phrase c.operand) (rest : Links c) : Links c

end

mutual

/-- What a phrase writes. -/
def Phrase.lexemes {c : Category} : Phrase c → List Lexeme
  | .chain first links => first.lexemes ++ links.lexemes
  | .prefixed l _ _ operand => l :: operand.lexemes
  | .plain phrase => phrase.lexemes
  | .literal l _ _ => [l]
  | .field key => [.name key]
  | .member l _ _ => [.name "values", .symbol .dot, l]
  | .entry key => [.name "values", .symbol .openBracket, .text key, .symbol .closeBracket]
  | .group inner => .symbol .openParen :: (inner.lexemes ++ [.symbol .closeParen])

def Links.lexemes {c : Chain} : Links c → List Lexeme
  | .nil => []
  | .cons l _ _ right rest => l :: (right.lexemes ++ rest.lexemes)

end

mutual

/-- The greatest number of nested constructs that a token of a phrase lies under. Each group is one
such construct, and so is each operand of a prefix operator. -/
def Phrase.depth {c : Category} : Phrase c → Nat
  | .chain first links => max first.depth links.depth
  | .prefixed _ _ _ operand => operand.depth + 1
  | .plain phrase => phrase.depth
  | .group inner => inner.depth + 1
  | _ => 0

def Links.depth {c : Chain} : Links c → Nat
  | .nil => 0
  | .cons _ _ _ right rest => max right.depth rest.depth

end

mutual

/-- The expression that a phrase denotes. -/
def Phrase.denotes {c : Category} : Phrase c → Expression
  | .chain first links =>
    links.joins.foldl (fun left link => link.1 left link.2) first.denotes
  | .prefixed _ op _ operand => .unary op operand.denotes
  | .plain phrase => phrase.denotes
  | .literal _ v _ => .literal v
  | .field key => .field key
  | .member _ key _ => .field key
  | .entry key => .field key
  | .group inner => inner.denotes

/-- What the operators of a chain make of their two sides, with what stands on the right of each. -/
def Links.joins {c : Chain} :
    Links c → List ((Expression → Expression → Expression) × Expression)
  | .nil => []
  | .cons _ join _ right rest => (join, right.denotes) :: rest.joins

end

end FormDesigner.Expression
