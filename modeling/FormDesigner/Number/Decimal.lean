import FormDesigner.Number.Binary64

/-!
# Decimal text of numbers

The text of a finite number has the fewest significant digits that read back as the number, and
among those the digits nearest to it. Positional notation is used while the decimal exponent lies
between -4 and 15; otherwise one digit stands before the point and the exponent is written out.

Integers convert to and from decimal text up to a fixed number of digits only.
-/

namespace FormDesigner

/-- The greatest number of digits of an integer that converts to or from decimal text. -/
def maxIntegerDigits : Nat := 4300

/-- The text of an integer; `none` when it has too many digits. -/
def integerText? (n : Int) : Option String :=
  if n.natAbs < Nat.pow 10 maxIntegerDigits then some (toString n) else none

/-- A number `digits * 10 ^ exponent`. -/
structure Decimal where
  digits : Nat
  exponent : Int
deriving DecidableEq, Repr

namespace Decimal

def toBinary (d : Decimal) (negative : Bool) : Binary64 :=
  Binary64.ofDecimal negative d.digits d.exponent

end Decimal

namespace Ratio

/-- `10 ^ k ≤ r`. -/
def reachesPowerOfTen (r : Ratio) (k : Int) : Bool :=
  if 0 ≤ k then r.den * Nat.pow 10 k.toNat ≤ r.num else r.den ≤ r.num * Nat.pow 10 (-k).toNat

/-- The exponent `k` with `10 ^ k ≤ r < 10 ^ (k + 1)`, for a positive ratio. -/
def decimalOrder (r : Ratio) : Int :=
  let guess : Int := r.binaryOrder * 30103 / 100000
  if r.reachesPowerOfTen (guess + 1) then guess + 1
  else if r.reachesPowerOfTen guess then guess
  else guess - 1

/-- The ratio divided by `10 ^ k`. -/
def scaleDownDecimal (r : Ratio) (k : Int) : Ratio :=
  if 0 ≤ k then ⟨r.num, r.den * Nat.pow 10 k.toNat⟩ else ⟨r.num * Nat.pow 10 (-k).toNat, r.den⟩

end Ratio

namespace Binary64

/-- The multiples of `10 ^ k` on either side of a finite number, the nearer one first. -/
def decimalNeighbours (x : Binary64) (k : Int) : List Decimal :=
  let r := x.toRatio.scaleDownDecimal k
  let below := r.num / r.den
  let near := r.nearestEven
  let far := if near = below then below + 1 else below
  [⟨near, k⟩, ⟨far, k⟩]

/-- A decimal with `n` significant digits that reads back as `x`, the nearest one there is. -/
def withDigits? (x : Binary64) (n : Nat) : Option Decimal :=
  let k := x.toRatio.decimalOrder - (n - 1 : Nat)
  (x.decimalNeighbours k).find? fun d => d.toBinary x.isNegative = x

/-- The decimal that equals a finite number exactly. -/
def exactDecimal (x : Binary64) : Decimal :=
  match x with
  | .finite _ m e _ =>
    if 0 ≤ e then ⟨m * Nat.pow 2 e.toNat, 0⟩ else ⟨m * Nat.pow 5 (-e).toNat, e⟩
  | _ => ⟨0, 0⟩

/-- The shortest decimal that reads back as `x`, for a finite number other than zero. Seventeen
digits always suffice; the exact decimal only completes the definition. -/
def shortest (x : Binary64) : Decimal :=
  ((List.range 17).findSome? fun n => x.withDigits? (n + 1)).getD x.exactDecimal

/-- Exponent text with at least two digits and a sign. -/
def exponentText (e : Int) : String :=
  let digits := toString e.natAbs
  let padded := if digits.length < 2 then "0" ++ digits else digits
  (if e < 0 then "e-" else "e+") ++ padded

/-- Drops the zeros at the end of a number's digits and counts them. -/
def stripZeros (digits : List Char) : List Char :=
  (digits.reverse.dropWhile (· = '0')).reverse

/-- The digits of a decimal, laid out positionally or with an exponent by its size. -/
def layout (d : Decimal) : String :=
  let digits := (toString d.digits).toList
  let order : Int := d.exponent + digits.length - 1
  let digits := stripZeros digits
  if order < -4 ∨ 16 ≤ order then
    let head := String.ofList (digits.take 1)
    let tail := digits.drop 1
    (if tail.isEmpty then head else head ++ "." ++ String.ofList tail) ++ exponentText order
  else if order < 0 then
    "0." ++ String.ofList (List.replicate (-order - 1).toNat '0' ++ digits)
  else
    let whole := order.toNat + 1
    let head := digits.take whole
    let tail := digits.drop whole
    String.ofList (head ++ List.replicate (whole - head.length) '0') ++ "."
      ++ (if tail.isEmpty then "0" else String.ofList tail)

/-- The text of a number that reads back as that number. -/
def text : Binary64 → String
  | .nan _ => "nan"
  | .infinite s => if s then "-inf" else "inf"
  | x =>
    let body := if x.isZero then "0.0" else layout x.shortest
    if x.isNegative then "-" ++ body else body

end Binary64

end FormDesigner
