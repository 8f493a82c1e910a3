/-!
# Binary floating point in exact arithmetic

A `Binary64` is a double-precision number kept as the integers that define it: a finite one is
`± mantissa * 2 ^ exponent` in the unique canonical form of its format. Every operation is carried
out exactly on integers and rounded once, to the nearest representable number and to the even
mantissa on a tie, so that equality, order and rounding can be reasoned about without appeal to
the machine's floating-point unit.

A result that is not a number carries a label. Two such results are the same datum exactly when
their labels agree, although neither compares equal to anything.
-/

namespace FormDesigner

/-- The least mantissa with 53 bits, `2 ^ 52`. -/
abbrev leastFull : Nat := 0x10000000000000

/-- The mantissas with at most 53 bits end before this one, `2 ^ 53`. -/
abbrev mantissaEnd : Nat := 0x20000000000000

/-- The canonical pairs of mantissa and exponent: the mantissa has 53 bits unless the exponent is
already the least one. -/
def CanonicalPair (mantissa : Nat) (exponent : Int) : Prop :=
  mantissa < mantissaEnd ∧ -1074 ≤ exponent ∧ exponent ≤ 971 ∧
    (leastFull ≤ mantissa ∨ exponent = -1074)

instance (m : Nat) (e : Int) : Decidable (CanonicalPair m e) :=
  inferInstanceAs (Decidable (_ ∧ _ ∧ _ ∧ _))

inductive Binary64 where
  | nan (label : Nat)
  | infinite (negative : Bool)
  | finite (negative : Bool) (mantissa : Nat) (exponent : Int)
      (canonical : CanonicalPair mantissa exponent)
deriving DecidableEq

/-- A nonnegative rational number, the exact value that a rounding starts from. -/
structure Ratio where
  num : Nat
  den : Nat

namespace Ratio

/-- `m * 2 ^ e` as a ratio. -/
def ofDyadic (m : Nat) (e : Int) : Ratio :=
  if 0 ≤ e then ⟨m * Nat.pow 2 e.toNat, 1⟩ else ⟨m, Nat.pow 2 (-e).toNat⟩

/-- `m * 10 ^ e` as a ratio. -/
def ofDecimal (m : Nat) (e : Int) : Ratio :=
  if 0 ≤ e then ⟨m * Nat.pow 10 e.toNat, 1⟩ else ⟨m, Nat.pow 10 (-e).toNat⟩

/-- The ratio divided by `2 ^ e`. -/
def scaleDown (r : Ratio) (e : Int) : Ratio :=
  if 0 ≤ e then ⟨r.num, r.den * Nat.pow 2 e.toNat⟩ else ⟨r.num * Nat.pow 2 (-e).toNat, r.den⟩

/-- The nearest natural number, the even one of two that are equally near. -/
def nearestEven (r : Ratio) : Nat :=
  let q := r.num / r.den
  let rest := 2 * (r.num % r.den)
  if r.den < rest ∨ (r.den = rest ∧ q % 2 = 1) then q + 1 else q

/-- The exponent `k` with `2 ^ k ≤ r < 2 ^ (k + 1)`, for a positive ratio. -/
def binaryOrder (r : Ratio) : Int :=
  let guess : Int := (r.num.log2 : Int) - r.den.log2
  let scaled := r.scaleDown guess
  if scaled.den ≤ scaled.num then guess else guess - 1

end Ratio

namespace Binary64

/-- The finite number of a canonical pair; every other pair is taken to be out of range. -/
def ofPair (negative : Bool) (mantissa : Nat) (exponent : Int) : Binary64 :=
  if h : CanonicalPair mantissa exponent then .finite negative mantissa exponent h
  else .infinite negative

def zero (negative : Bool) : Binary64 := .finite negative 0 (-1074) (by decide)

/-- Rounds a ratio to the nearest number; one beyond the greatest finite number is infinite. -/
def ofRatio (negative : Bool) (r : Ratio) : Binary64 :=
  if r.num = 0 then zero negative
  else
    let exponent := max (r.binaryOrder - 52) (-1074)
    let mantissa := (r.scaleDown exponent).nearestEven
    if mantissa = mantissaEnd then ofPair negative leastFull (exponent + 1)
    else ofPair negative mantissa exponent

/-- Rounds `± m * 2 ^ e`. -/
def ofDyadic (negative : Bool) (m : Nat) (e : Int) : Binary64 :=
  ofRatio negative (.ofDyadic m e)

/-- Rounds `± m * 10 ^ e`. Numbers far outside the format's range are decided by size alone: the decimal
order of `m` lies between 3/10 and 31/100 of its binary order. -/
def ofDecimal (negative : Bool) (m : Nat) (e : Int) : Binary64 :=
  if m = 0 ∨ ((m.log2 : Int) + 1) * 31 / 100 + e < -400 then zero negative
  else if 400 < (m.log2 : Int) * 3 / 10 + e then .infinite negative
  else ofRatio negative (.ofDecimal m e)

/-- Rounds an integer; `none` when it lies beyond the greatest finite number. -/
def ofInt? (n : Int) : Option Binary64 :=
  match ofDyadic (n < 0) n.natAbs 0 with
  | .finite s m e h => some (.finite s m e h)
  | _ => none

def isNan : Binary64 → Bool
  | .nan _ => true
  | _ => false

def isFinite : Binary64 → Bool
  | .finite .. => true
  | _ => false

def isZero : Binary64 → Bool
  | .finite _ 0 _ _ => true
  | _ => false

def isNegative : Binary64 → Bool
  | .nan _ => false
  | .infinite s => s
  | .finite s _ _ _ => s

/-- The result of an operation that has no value. -/
def invalid : Binary64 := .nan 0

def neg : Binary64 → Binary64
  | .nan l => .nan l
  | .infinite s => .infinite !s
  | .finite s m e h => .finite (!s) m e h

/-- The signed integer `± m * 2 ^ (e - base)`, for `base ≤ e`. -/
def scaledInt (negative : Bool) (m : Nat) (e base : Int) : Int :=
  let n : Int := (m * Nat.pow 2 (e - base).toNat : Nat)
  if negative then -n else n

def add : Binary64 → Binary64 → Binary64
  | .nan l, _ => .nan l
  | _, .nan l => .nan l
  | .infinite s, .infinite t => if s = t then .infinite s else invalid
  | .infinite s, _ => .infinite s
  | _, .infinite t => .infinite t
  | .finite s m e _, .finite t n f _ =>
    let base := min e f
    let sum := scaledInt s m e base + scaledInt t n f base
    if sum = 0 then zero (s && t) else ofDyadic (sum < 0) sum.natAbs base

def sub (x y : Binary64) : Binary64 := x.add y.neg

def mul : Binary64 → Binary64 → Binary64
  | .nan l, _ => .nan l
  | _, .nan l => .nan l
  | .infinite s, y => if y.isZero then invalid else .infinite (s ^^ y.isNegative)
  | x, .infinite t => if x.isZero then invalid else .infinite (x.isNegative ^^ t)
  | .finite s m e _, .finite t n f _ => ofDyadic (s ^^ t) (m * n) (e + f)

def div : Binary64 → Binary64 → Binary64
  | .nan l, _ => .nan l
  | _, .nan l => .nan l
  | .infinite _, .infinite _ => invalid
  | .infinite s, y => .infinite (s ^^ y.isNegative)
  | x, .infinite t => zero (x.isNegative ^^ t)
  | .finite s m e _, .finite t n f _ =>
    if n = 0 then (if m = 0 then invalid else .infinite (s ^^ t))
    else
      let base := min e f
      ofRatio (s ^^ t) ⟨m * Nat.pow 2 (e - base).toNat, n * Nat.pow 2 (f - base).toNat⟩

/-- The remainder of truncated division, which has the sign of the dividend. It is exact. -/
def remainder : Binary64 → Binary64 → Binary64
  | .nan l, _ => .nan l
  | _, .nan l => .nan l
  | .infinite _, _ => invalid
  | x, .infinite _ => x
  | .finite s m e _, .finite _ n f _ =>
    if n = 0 then invalid
    else
      let base := min e f
      ofDyadic s (m * Nat.pow 2 (e - base).toNat % (n * Nat.pow 2 (f - base).toNat)) base

/-- Order of two numbers; `none` when either is not a number. -/
def compare? : Binary64 → Binary64 → Option Ordering
  | .nan _, _ => none
  | _, .nan _ => none
  | .infinite s, .infinite t => some (if s = t then .eq else if s then .lt else .gt)
  | .infinite s, _ => some (if s then .lt else .gt)
  | _, .infinite t => some (if t then .gt else .lt)
  | .finite s m e _, .finite t n f _ =>
    let base := min e f
    some (compare (scaledInt s m e base) (scaledInt t n f base))

/-- Order of a number and an integer, without rounding either. -/
def compareInt? : Binary64 → Int → Option Ordering
  | .nan _, _ => none
  | .infinite s, _ => some (if s then .lt else .gt)
  | .finite s m e _, n =>
    let base := min e 0
    some (compare (scaledInt s m e base) (n * (Nat.pow 2 (-base).toNat : Nat)))

/-- The integer part, cut toward zero; `none` for a number that is not finite. -/
def truncate? : Binary64 → Option Int
  | .finite s m e _ =>
    let n : Nat := if 0 ≤ e then m * Nat.pow 2 e.toNat else m / Nat.pow 2 (-e).toNat
    some (if s then -n else n)
  | _ => none

def isInteger : Binary64 → Bool
  | .finite _ m e _ => decide (0 ≤ e) || m % Nat.pow 2 (-e).toNat == 0
  | _ => false

/-- The magnitude of a finite number as a ratio. -/
def toRatio : Binary64 → Ratio
  | .finite _ m e _ => .ofDyadic m e
  | _ => ⟨0, 1⟩

instance : Neg Binary64 := ⟨neg⟩
instance : Add Binary64 := ⟨add⟩
instance : Sub Binary64 := ⟨sub⟩
instance : Mul Binary64 := ⟨mul⟩
instance : Div Binary64 := ⟨div⟩
instance : Mod Binary64 := ⟨remainder⟩
instance : Inhabited Binary64 := ⟨zero false⟩

end Binary64

end FormDesigner
