import ScriptVM.Decimal.Text

/-!
Values of the machine and the arithmetic on them.

Whole numbers have 64 bits, and an operation on two of them gives the exact result or refuses.
With a real on either side both are taken as reals. Quotients are rounded down and remainders
agree with that.
-/
namespace ScriptVM

/-- A value. Addresses of heap cells and of instructions are whole numbers. -/
inductive Value where
  /-- No value, such as the result of a loop. -/
  | null
  | int (n : Int64)
  | real (x : Float)
deriving DecidableEq, Repr, Inhabited

/-- The arithmetic operations. -/
inductive Arith where
  | add
  | sub
  | mul
  | div
  | rem
deriving DecidableEq, Repr

/-- The comparisons. -/
inductive Compare where
  | lt
  | lte
  | gt
  | gte
  | eq
  | neq
deriving DecidableEq, Repr

/-- The name of an arithmetic operation. -/
def Arith.name : Arith → String
  | add => "add"
  | sub => "sub"
  | mul => "mul"
  | div => "div"
  | rem => "rem"

/-- The name of a comparison. -/
def Compare.name : Compare → String
  | lt => "lt"
  | lte => "lte"
  | gt => "gt"
  | gte => "gte"
  | eq => "eq"
  | neq => "neq"

namespace Value

/-- A whole number that fits in 64 bits. -/
def fit? (n : Int) : Option Int64 :=
  if Int64.minValue.toInt ≤ n ∧ n ≤ Int64.maxValue.toInt then some (Int64.ofInt n) else none

/-- Whether a quotient exists: there is a divisor, and the quotient is not the one too large to fit.
-/
def divisible (a b : Int64) : Bool :=
  b != 0 && !(a == Int64.minValue && b == -1)

/-- The quotient rounded toward negative infinity, if there is one. Division of words rounds toward
zero, so its quotient is one too large where the signs differ and something remains. -/
def floorDiv? (a b : Int64) : Option Int64 :=
  if divisible a b then
    if a % b ≠ 0 ∧ decide (a < 0) ≠ decide (b < 0) then fit? ((a / b).toInt - 1) else some (a / b)
  else none

/-- The remainder that agrees with `floorDiv?`: it has the sign of the divisor. -/
def floorMod? (a b : Int64) : Option Int64 :=
  if divisible a b then
    some (if a % b ≠ 0 ∧ decide (a % b < 0) ≠ decide (b < 0) then a % b + b else a % b)
  else none

/-- The value as a real. -/
def toReal? : Value → Option Float
  | null => none
  | int n => some n.toFloat
  | real x => some x

/-- Whether a condition with this value fails. No value counts as zero. -/
def isZero : Value → Bool
  | null => true
  | int n => n == 0
  | real x => x == 0

/-- The value as listings and results write it. -/
def render : Value → String
  | null => "NULL"
  | int n => toString n.toInt
  | real x => Decimal.render x

/-- One for a comparison that holds and zero for one that does not. -/
def ofBool (b : Bool) : Value :=
  int (if b then 1 else 0)

end Value

/-- Why an operation has no result. -/
inductive ValueError where
  | divisionByZero
  | overflow (op : Arith)
  | unsupported (op : String) (left right : Value)
deriving DecidableEq, Repr

/-- The diagnostic for an operation without a result. -/
def ValueError.message : ValueError → String
  | divisionByZero => "division by zero"
  | overflow op => "integer overflow in `" ++ op.name ++ "`"
  | unsupported op left right =>
    "`" ++ op ++ "` is not defined for " ++ left.render ++ " and " ++ right.render

namespace Arith

/-- The result on whole numbers, if it fits. -/
def onInts? (a b : Int64) : Arith → Option Int64
  | add => Value.fit? (a.toInt + b.toInt)
  | sub => Value.fit? (a.toInt - b.toInt)
  | mul => Value.fit? (a.toInt * b.toInt)
  | div => Value.floorDiv? a b
  | rem => Value.floorMod? a b

/-- The result on reals. -/
def onReals (a b : Float) : Arith → Float
  | add => a + b
  | sub => a - b
  | mul => a * b
  | div => (a / b).floor
  | rem => a - b * (a / b).floor

/-- Whether the operation needs a divisor. -/
def divides : Arith → Bool
  | div | rem => true
  | _ => false

/-- The result of an operation. -/
def apply (op : Arith) (left right : Value) : Except ValueError Value :=
  match left, right with
  | .int a, .int b =>
    if op.divides && b == 0 then .error .divisionByZero
    else
      match op.onInts? a b with
      | some n => .ok (.int n)
      | none => .error (.overflow op)
  | left, right =>
    match left.toReal?, right.toReal? with
    | some a, some b =>
      if op.divides && b == 0 then .error .divisionByZero else .ok (.real (op.onReals a b))
    | _, _ => .error (.unsupported op.name left right)

end Arith

namespace Compare

/-- Equality across kinds of number. No value equals only itself. -/
def looselyEqual (left right : Value) : Bool :=
  match left, right with
  | .int a, .int b => a == b
  | .null, .null => true
  | left, right =>
    match left.toReal?, right.toReal? with
    | some a, some b => a == b
    | _, _ => false

/-- The order on whole numbers. -/
def onInts (a b : Int64) : Compare → Bool
  | lt => a < b
  | lte => a ≤ b
  | gt => b < a
  | gte => b ≤ a
  | eq => a == b
  | neq => a != b

/-- The order on reals. -/
def onReals (a b : Float) : Compare → Bool
  | lt => a < b
  | lte => a ≤ b
  | gt => b < a
  | gte => b ≤ a
  | eq => a == b
  | neq => a != b

/-- Whether a comparison holds. Equality is defined for all values, order for numbers only. -/
def holds (op : Compare) (left right : Value) : Except ValueError Bool :=
  match op with
  | .eq => .ok (looselyEqual left right)
  | .neq => .ok (!looselyEqual left right)
  | op =>
    match left, right with
    | .int a, .int b => .ok (op.onInts a b)
    | left, right =>
      match left.toReal?, right.toReal? with
      | some a, some b => .ok (op.onReals a b)
      | _, _ => .error (.unsupported op.name left right)

/-- The result of a comparison, as a value. -/
def apply (op : Compare) (left right : Value) : Except ValueError Value :=
  (op.holds left right).map Value.ofBool

end Compare

end ScriptVM
