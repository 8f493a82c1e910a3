import FormDesigner.Number.Mixed
import FormDesigner.Text.Escaped
import FormDesigner.Value.Basic

/-!
# Expression trees

An expression reads fields and combines their values. A chain of additions that is known to contain
text is one `concat` node over all its parts, since it joins their texts whatever else they are.
-/

namespace FormDesigner

namespace Expression

inductive Literal where
  | null
  | bool (b : Bool)
  | number (n : Number)
  | text (s : String)
deriving DecidableEq

inductive UnaryOp where
  | minus | plus | not
deriving DecidableEq, Repr

inductive BinaryOp where
  | eq | strictEq | ne | strictNe | lt | le | gt | ge | add | sub | mul | div | rem
deriving DecidableEq, Repr

inductive Connective where
  | and | or
deriving DecidableEq, Repr

namespace Literal

def toValue : Literal → Value
  | .null => .null
  | .bool b => .bool b
  | .number n => .ofNumber n
  | .text s => .text s

end Literal

namespace BinaryOp

def text : BinaryOp → String
  | .eq => "=="
  | .strictEq => "==="
  | .ne => "!="
  | .strictNe => "!=="
  | .lt => "<"
  | .le => "<="
  | .gt => ">"
  | .ge => ">="
  | .add => "+"
  | .sub => "-"
  | .mul => "*"
  | .div => "/"
  | .rem => "%"

end BinaryOp

namespace UnaryOp

def text : UnaryOp → String
  | .minus => "-"
  | .plus => "+"
  | .not => "not"

end UnaryOp

namespace Connective

def text : Connective → String
  | .and => "and"
  | .or => "or"

end Connective

end Expression

inductive Expression where
  | literal (l : Expression.Literal)
  | field (key : String)
  | unary (op : Expression.UnaryOp) (operand : Expression)
  | binary (op : Expression.BinaryOp) (left right : Expression)
  | concat (parts : List Expression)
  | logical (op : Expression.Connective) (left right : Expression)
deriving Inhabited

namespace Expression

def isText : Expression → Bool
  | .literal (.text _) => true
  | _ => false

mutual

/-- The keys of the fields that an expression reads, one for each place that reads one. -/
def reads : Expression → List String
  | .literal _ => []
  | .field key => [key]
  | .unary _ e => reads e
  | .binary _ l r => reads l ++ reads r
  | .concat parts => readsAll parts
  | .logical _ l r => reads l ++ reads r

def readsAll : List Expression → List String
  | [] => []
  | e :: es => reads e ++ readsAll es

end

/-- The keys that an expression reads, in the order of their first use. -/
def keys (e : Expression) : List String :=
  e.reads.foldl (fun seen key => if seen.contains key then seen else seen ++ [key]) []

namespace Literal

def outline : Literal → String
  | .null => "null"
  | .bool b => if b then "true" else "false"
  | .number (.int n) => toString n
  | .number (.float x) => x.text
  | .text s => Text.escaped true s

end Literal

mutual

/-- The structure of an expression in fully parenthesised form. -/
def outline : Expression → String
  | .literal l => l.outline
  | .field key => "(ref " ++ Text.escaped true key ++ ")"
  | .unary op e => "(u" ++ op.text ++ " " ++ outline e ++ ")"
  | .binary op l r => "(" ++ op.text ++ " " ++ outline l ++ " " ++ outline r ++ ")"
  | .concat parts => "(concat" ++ outlineAll parts ++ ")"
  | .logical op l r => "(" ++ op.text ++ " " ++ outline l ++ " " ++ outline r ++ ")"

def outlineAll : List Expression → String
  | [] => ""
  | e :: es => " " ++ outline e ++ outlineAll es

end

end Expression

end FormDesigner
