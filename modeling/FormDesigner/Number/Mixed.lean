import FormDesigner.Number.Decimal

/-!
# Integers and floating-point numbers together

A `Number` is an unbounded integer or a floating-point number. Arithmetic on two integers is exact,
except that dividing them rounds the quotient; as soon as one side is a floating-point number the
other is rounded to one. Comparison never rounds. What has no representable result is reported as
`none`.
-/

namespace FormDesigner

inductive Number where
  | int (n : Int)
  | float (x : Binary64)
deriving DecidableEq

namespace Number

def isNan : Number → Bool
  | .int _ => false
  | .float x => x.isNan

/-- Integers count as finite whatever their size. -/
def isFinite : Number → Bool
  | .int _ => true
  | .float x => x.isFinite

def isZero : Number → Bool
  | .int n => n == 0
  | .float x => x.isZero

def isFloat : Number → Bool
  | .int _ => false
  | .float _ => true

/-- The number rounded to floating point; `none` when it is an integer out of range. -/
def toBinary? : Number → Option Binary64
  | .int n => Binary64.ofInt? n
  | .float x => some x

/-- Applies one operation to two integers and another to anything else. -/
def lift? (exact : Int → Int → Int) (rounded : Binary64 → Binary64 → Binary64) :
    Number → Number → Option Number
  | .int m, .int n => some (.int (exact m n))
  | a, b => do return .float (rounded (← a.toBinary?) (← b.toBinary?))

def add? : Number → Number → Option Number := lift? (· + ·) (· + ·)
def sub? : Number → Number → Option Number := lift? (· - ·) (· - ·)
def mul? : Number → Number → Option Number := lift? (· * ·) (· * ·)

/-- The quotient, for a divisor other than zero. -/
def div? : Number → Number → Option Number
  | .int m, .int n =>
    match Binary64.ofRatio (decide (m < 0) ^^ decide (n < 0)) ⟨m.natAbs, n.natAbs⟩ with
    | .finite s q e h => some (.float (.finite s q e h))
    | _ => none
  | a, b => do return .float ((← a.toBinary?) / (← b.toBinary?))

/-- The remainder with the sign of the dividend, for a divisor other than zero. -/
def rem? : Number → Number → Option Number := lift? Int.tmod (· % ·)

def neg : Number → Number
  | .int n => .int (-n)
  | .float x => .float (-x)

/-- Order of two numbers; `none` when either is not a number. -/
def compare? : Number → Number → Option Ordering
  | .int m, .int n => some (compare m n)
  | .float x, .float y => x.compare? y
  | .float x, .int n => x.compareInt? n
  | .int m, .float y => (y.compareInt? m).map Ordering.swap

def eq (a b : Number) : Bool := a.compare? b == some .eq
def lt (a b : Number) : Bool := a.compare? b == some .lt
def le (a b : Number) : Bool := a.lt b || a.eq b

end Number

end FormDesigner
