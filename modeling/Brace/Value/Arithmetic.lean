import Brace.Value

/-!
# Value — the binary operators

Whole numbers wrap around at 64 bits. Their division rounds down and the remainder has the sign of
the divisor, so that quotient and remainder belong together (`floorDiv`, `floorRem`). As soon as one
operand is a float, both are. Text can be joined, and compared by code points.
-/

namespace Brace.Value

/-- The quotient rounded down; the least number by minus one wraps around. -/
def floorDiv (a b : Int64) : Int64 :=
  if a % b ≠ 0 ∧ decide (a % b < 0) ≠ decide (b < 0) then a / b - 1 else a / b

/-- What rounding the quotient down leaves over. -/
def floorRem (a b : Int64) : Int64 :=
  if a % b ≠ 0 ∧ decide (a % b < 0) ≠ decide (b < 0) then a % b + b else a % b

/-- Two operands that the operator does not take. -/
def unsupported (op : BinaryOp) (left right : Value) : Cause :=
  .internalError ("unsupported operands for " ++ op.text ++ ": " ++ left.typeName ++ " and "
    ++ right.typeName)

def notArithmetic (op : BinaryOp) : Cause :=
  .internalError (op.text ++ " is not an arithmetic operator")

def intArithmetic (op : BinaryOp) (a b : Int64) : Except Cause Int64 :=
  match op with
  | .add => .ok (a + b)
  | .sub => .ok (a - b)
  | .mul => .ok (a * b)
  | .div => if b = 0 then .error .divisionByZero else .ok (floorDiv a b)
  | .rem => if b = 0 then .error .divisionByZero else .ok (floorRem a b)
  | _    => .error (notArithmetic op)

def floatArithmetic (op : BinaryOp) (a b : Float) : Except Cause Float :=
  match op with
  | .add => .ok (a + b)
  | .sub => .ok (a - b)
  | .mul => .ok (a * b)
  | .div => if b == 0.0 then .error .divisionByZero else .ok (a / b)
  | .rem => if b == 0.0 then .error .divisionByZero else .ok (a - b * (a / b).floor)
  | _    => .error (notArithmetic op)

def arithmetic (op : BinaryOp) (left right : Value) : Except Cause Value :=
  match left, right with
  | .int a, .int b => (intArithmetic op a b).map .int
  | .str a, .str b => if op = .add then .ok (.str (a ++ b)) else .error (unsupported op left right)
  | _, _ =>
      match left.asFloat?, right.asFloat? with
      | some a, some b => (floatArithmetic op a b).map .float
      | _, _           => .error (unsupported op left right)

/-- The order of two floats; a not-a-number has none. -/
def orderOfFloats (a b : Float) : Option Ordering :=
  if a < b then some .lt
  else if a == b then some .eq
  else if b < a then some .gt
  else none

/-- The order of two numbers or two texts. -/
def order? (left right : Value) : Option Ordering :=
  match left, right with
  | .int a, .int b => some (compareOfLessAndEq a b)
  | .str a, .str b => some (compareOfLessAndEq a b)
  | _, _ =>
      match left.asFloat?, right.asFloat? with
      | some a, some b => orderOfFloats a b
      | _, _           => none

/-- The value of `left op right`. -/
def binary (op : BinaryOp) (left right : Value) : Except Cause Value :=
  let compare (test : Ordering → Bool) : Except Cause Value :=
    match order? left right with
    | some o => .ok (.bool (test o))
    | none   => .error (unsupported op left right)
  match op with
  | .eq => .ok (.bool (left.equals right))
  | .ne => .ok (.bool (!left.equals right))
  | .lt => compare (· == .lt)
  | .le => compare (· != .gt)
  | .gt => compare (· == .gt)
  | .ge => compare (· != .lt)
  | _   => arithmetic op left right

end Brace.Value
