import FormDesigner.Expression.Compile

/-!
# Evaluating expressions

An expression is evaluated in a context of field values; a key that the context lacks has the value
null. Arithmetic takes numbers and texts that write numbers, and an addition with a text on either
side joins texts. What cannot be computed is a fault of evaluation.

Asking whether a field is shown, or what its computed value is, never fails because of the
expression: a broken expression leaves the field shown and its value untouched.
-/

namespace FormDesigner

namespace Value

/-- What a condition in an expression makes of a value. An empty mapping holds; an undefined number
does not. -/
def isTruthy : Value → Bool
  | .null => false
  | .bool b => b
  | .int n => n != 0
  | .float x => !x.isZero && !x.isNan
  | .text s => !s.isEmpty
  | .list xs => !xs.isEmpty
  | .tuple xs => !xs.isEmpty
  | _ => true

mutual

/-- The text of a value when texts are joined: null is empty, whole numbers have no point, and the
items of a list are separated by commas. -/
def joinText? : Value → Option String
  | .null => some ""
  | .bool b => some (if b then "true" else "false")
  | .float x =>
    match x with
    | .nan _ => some "NaN"
    | .infinite s => some (if s then "-Infinity" else "Infinity")
    | x => if x.isInteger then x.truncate?.bind integerText? else some x.text
  | .list xs => (joinTexts? xs).map (",".intercalate ·)
  | .tuple xs => (joinTexts? xs).map (",".intercalate ·)
  | v => v.plain?

def joinTexts? : List Value → Option (List String)
  | [] => some []
  | x :: xs => do return (← joinText? x) :: (← joinTexts? xs)

end

/-- The number that a text writes, with blanks allowed around it. An integer too long to be read is
taken as a floating-point number. -/
def textNumber? (s : String) : Option Number :=
  let (negative, body) := Text.splitSign (Text.trimChars s.toList)
  if body.isEmpty || Expression.numberSize body != body.length then none
  else
    let digits := body.map Text.asciiDigit
    if body.any fun c => c = '.' || c = 'e' || c = 'E' then
      (Text.decimal? digits).map fun d => .float (d.toBinary negative)
    else
      match Text.boundedDigits digits with
      | .ok n => some (.int (if negative then -n else n))
      | .error _ => some (.float (.ofDecimal negative (Text.digitsValue digits) 0))

/-- The number that a value is, or that its text writes. -/
def toNumber? : Value → Option Number
  | .int n => some (.int n)
  | .float x => some (.float x)
  | .text s => textNumber? s
  | _ => none

/-- Equality in expressions: values of different kinds differ, except that numbers are compared by
value. -/
def strictEquals (v w : Value) : Bool :=
  match v, w with
  | .bool a, .bool b => a == b
  | .bool _, _ => false
  | _, .bool _ => false
  | v, w =>
    match v.asNumber?, w.asNumber? with
    | some a, some b => a.eq b
    | _, _ => v.kindName = w.kindName && v.equals w

end Value

namespace Expression

/-- A failure of evaluation. Where it arises, the text of the expression is not known. -/
def evaluationFailure (message : String) : Failure := .expression .evaluation message "" none

/-- The operand of an arithmetic operator. -/
def requireNumber (op : String) (v : Value) : Except Failure Number :=
  match v.toNumber? with
  | some n => .ok n
  | none => do
    .error (evaluationFailure ("Operator '" ++ op ++ "' needs a number, got " ++ (← v.quoted)))

def joinText (v : Value) : Except Failure String :=
  match v.joinText? with
  | some s => .ok s
  | none => .error .integerTextLimit

/-- The result of an operation on numbers, unless it is out of the range of floating point. -/
def inRange : Option Number → Except Failure Number
  | some n => .ok n
  | none => .error (.fault .overflow "")

/-- The quotient of two numbers. -/
def quotient (a b : Number) : Except Failure Number :=
  if b.isZero then .error (.fault .zeroDivision "") else inRange (a.div? b)

/-- The remainder of two numbers. Integers have none for the divisor zero, and where floating-point
numbers have none the operands are outside of its domain. -/
def remainder (a b : Number) : Except Failure Number :=
  if !a.isFloat && !b.isFloat && b.isZero then .error (.fault .zeroDivision "")
  else do
    let r ← inRange (a.rem? b)
    if r.isNan && !a.isNan && !b.isNan then .error (.fault .value "math domain error") else return r

/-- Arithmetic on two numbers. -/
def calculate (op : BinaryOp) (a b : Number) : Except Failure Number :=
  match op with
  | .add => inRange (a.add? b)
  | .sub => inRange (a.sub? b)
  | .mul => inRange (a.mul? b)
  | op =>
    if b.isZero then .error (evaluationFailure ("Division by zero in '" ++ op.text ++ "'"))
    else if op = .div then quotient a b
    else if (a.isFloat || b.isFloat) && !(a.isFinite && b.isFinite) then
      .error (evaluationFailure ("Remainder of a non-finite number in '" ++ op.text ++ "'"))
    else remainder a b

def isTextValue : Value → Bool
  | .text _ => true
  | _ => false

def arithmetic (op : BinaryOp) (v w : Value) : Except Failure Value :=
  if op = .add && (isTextValue v || isTextValue w) then do
    let left ← joinText v
    let right ← joinText w
    return .text (left ++ right)
  else do
    let a ← requireNumber op.text v
    let b ← requireNumber op.text w
    return .ofNumber (← calculate op a b)

/-- Order of two values: texts among themselves, otherwise numbers and texts that write numbers. -/
def order? : Value → Value → Option Ordering
  | .text s, .text t => some (compare s t)
  | v, w => do (← v.toNumber?).compare? (← w.toNumber?)

/-- A comparison of two values. What has no order is neither less nor greater. -/
def compareBy (op : BinaryOp) (v w : Value) : Bool :=
  match order? v w with
  | none => false
  | some o =>
    match op with
    | .lt => o.isLT
    | .le => o.isLE
    | .gt => o.isGT
    | _ => o.isGE

def applyBinary (op : BinaryOp) (v w : Value) : Except Failure Value :=
  match op with
  | .eq | .strictEq => .ok (.bool (v.strictEquals w))
  | .ne | .strictNe => .ok (.bool (!v.strictEquals w))
  | .lt | .le | .gt | .ge => .ok (.bool (compareBy op v w))
  | op => arithmetic op v w

def applyUnary (op : UnaryOp) (v : Value) : Except Failure Value :=
  match op with
  | .not => .ok (.bool (!v.isTruthy))
  | .minus => do return .ofNumber (← requireNumber op.text v).neg
  | .plus => do return .ofNumber (← requireNumber op.text v)

mutual

/-- The value of an expression in a context. -/
def evaluate (context : Entries) : Expression → Except Failure Value
  | .literal l => .ok l.toValue
  | .field key => .ok ((Entries.get? context (.text key)).getD .null)
  | .unary op e => do applyUnary op (← evaluate context e)
  | .binary op l r => do
    let v ← evaluate context l
    let w ← evaluate context r
    applyBinary op v w
  | .concat parts => do return .text (← joinAll context parts)
  | .logical op l r => do
    let v ← evaluate context l
    if v.isTruthy = (op = .and) then evaluate context r else return v

def joinAll (context : Entries) : List Expression → Except Failure String
  | [] => .ok ""
  | e :: es => do
    let s ← joinText (← evaluate context e)
    return s ++ (← joinAll context es)

end

/-- A failure as it leaves the evaluation of an expression's text. A number that is out of range or
cannot be used is a failure of the expression. -/
def reported (source : String) : Failure → Failure
  | .fault .overflow _ => .expression .evaluation "Numeric result is out of range" source none
  | .fault kind message =>
    if kind.isValue then
      .expression .evaluation ("Numeric value cannot be used: " ++ message) source none
    else .fault kind message
  | failure => failure

/-- The value of an expression's text; null when there is no expression. -/
def evaluateText (limits : LimitSource) (source : Value) (context : Entries) :
    Except Failure Value := do
  match ← compile limits source with
  | none => return .null
  | some e => (evaluate context e).mapError (reported ((source.asText?).getD ""))

/-- Whether nothing is written where an expression could stand. -/
def isAbsent : Value → Bool
  | .null => true
  | .text s => Text.isAllBlank s
  | _ => false

/-- Whether a field with this visibility expression is shown. -/
def isVisible (limits : LimitSource) (source : Value) (context : Entries) :
    Except Failure Bool :=
  if isAbsent source then .ok true
  else
    match evaluateText limits source context with
    | .ok v => .ok v.isTruthy
    | .error e => if e.isExpression then .ok true else .error e

/-- The value of a computed expression; `none` leaves the field's own value in place. -/
def computed? (limits : LimitSource) (source : Value) (context : Entries) :
    Except Failure (Option Value) :=
  if isAbsent source then .ok none
  else
    match evaluateText limits source context with
    | .ok v => .ok (if v.isNull then none else some v)
    | .error e => if e.isExpression then .ok none else .error e

end Expression

end FormDesigner
