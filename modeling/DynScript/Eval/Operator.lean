import DynScript.Eval.Error
import DynScript.Value.Range

/-
  This file defines what the operators do with values. Integer
  results are computed exactly and refused when they do not fit
  in 64 bits.

  Key definitions include:
    * `checkedInt`
    * `intArith`
    * `floatArith`
    * `ordered`
    * `evalUnary`
    * `evalBinary`
-/

namespace DynScript

------------------------------------------------------------
-- Integers
------------------------------------------------------------

/- The integer value `n`, or an overflow in the operator spelled `op`. -/
def checkedInt
    (op : String)
    (n : Int) : Except RuntimeError Value :=
  if fits n then .ok (.int (Int64.ofInt n)) else .error (.overflow op)

/-
  Arithmetic on integers. Division cuts towards zero, and a
  remainder exists only where the quotient does.
-/
def intArith
    (op : BinaryOp)
    (a b : Int64) : Except RuntimeError Value :=
  let m := a.toInt
  let n := b.toInt
  match op with
  | .add => checkedInt op.text (m + n)
  | .sub => checkedInt op.text (m - n)
  | .mul => checkedInt op.text (m * n)
  | .div =>
    if n = 0 then .error .divisionByZero
    else checkedInt op.text (m.tdiv n)
  | _ =>
    if n = 0 then .error .divisionByZero
    else if fits (m.tdiv n) then checkedInt op.text (m.tmod n)
    else .error (.overflow op.text)

------------------------------------------------------------
-- Floating point numbers
------------------------------------------------------------

/- Arithmetic on floating point numbers. -/
def floatArith
    (op : BinaryOp)
    (a b : Float) : Except RuntimeError Value :=
  match op with
  | .add => .ok (.float (a + b))
  | .sub => .ok (.float (a - b))
  | .mul => .ok (.float (a * b))
  | .div =>
    if b == 0 then .error .divisionByZero else .ok (.float (a / b))
  | _ =>
    if b == 0 then .error .divisionByZero
    else .ok (.float (Decimal.remainder a b))

------------------------------------------------------------
-- Operators on values
------------------------------------------------------------

/- What an ordering operator says about two things of one type. -/
def ordered
    {α : Type}
    [LT α]
    [LE α]
    [DecidableLT α]
    [DecidableLE α]
    (op : BinaryOp)
    (a b : α) : Value :=
  match op with
  | .lt => .bool (decide (a < b))
  | .le => .bool (decide (a ≤ b))
  | .gt => .bool (decide (b < a))
  | _ => .bool (decide (b ≤ a))

/- An operator with one operand. -/
def evalUnary
    (op : UnaryOp)
    (v : Value) : Except RuntimeError Value :=
  match op, v with
  | .neg, .int i => checkedInt op.text (-i.toInt)
  | .neg, .float x => .ok (.float (-x))
  | .not, .bool b => .ok (.bool !b)
  | op, v => .error (.invalidOperand op v.kind)

/- Arithmetic on two values; an integer joins a floating point number. -/
def arith
    (op : BinaryOp)
    (a b : Value) : Except RuntimeError Value :=
  match a, b with
  | .int i, .int j => intArith op i j
  | a, b =>
    match a.toFloat?, b.toFloat? with
    | some x, some y => floatArith op x y
    | _, _ => .error (.typeMismatch op a.kind b.kind)

/- The order of two numbers or of two texts. -/
def order
    (op : BinaryOp)
    (a b : Value) : Except RuntimeError Value :=
  match a, b with
  | .int i, .int j => .ok (ordered op i j)
  | .str s, .str t => .ok (ordered op s t)
  | a, b =>
    match a.toFloat?, b.toFloat? with
    | some x, some y => .ok (ordered op x y)
    | _, _ => .error (.typeMismatch op a.kind b.kind)

/- An operator with two operands, both of them evaluated. -/
def evalBinary
    (op : BinaryOp)
    (a b : Value) : Except RuntimeError Value :=
  match op with
  | .eq => .ok (.bool (a.looseEq b))
  | .ne => .ok (.bool !(a.looseEq b))
  | .add | .sub | .mul | .div | .mod => arith op a b
  | .lt | .le | .gt | .ge => order op a b
  | .and =>
    match a, b with
    | .bool x, .bool y => .ok (.bool (x && y))
    | a, b => .error (.typeMismatch op a.kind b.kind)
  | .or =>
    match a, b with
    | .bool x, .bool y => .ok (.bool (x || y))
    | a, b => .error (.typeMismatch op a.kind b.kind)

/- The value that the left operand alone decides, if it does. -/
def shortCircuit? : BinaryOp → Value → Option Value
  | .and, .bool false => some (.bool false)
  | .or, .bool true => some (.bool true)
  | _, _ => none

end DynScript
