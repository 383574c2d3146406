import DynScript.Value.Basic

/-
  This file defines the faults that end a run.

  Key definitions include:
    * `RuntimeError`
    * `RuntimeError.isFatal`
    * `RuntimeError.message`
-/

namespace DynScript

/- Why a run ends without a value. -/
inductive RuntimeError where
  | unboundName (name : String)
  | typeMismatch (op : BinaryOp) (left right : ValueKind)
  | invalidOperand (op : UnaryOp) (operand : ValueKind)
  | nonBoolCondition (found : ValueKind)
  | arity (name : String) (expected found : Nat)
  | notCallable (name : String)
  | divisionByZero
  | overflow (op : String)
  | stackOverflow (limit : Nat)
  | outputFull
deriving DecidableEq

namespace RuntimeError

/- Whether a resource ran out, rather than the program being wrong. -/
def isFatal : RuntimeError → Bool
  | stackOverflow _ => true
  | _ => false

/- The text of the diagnostic. -/
def message : RuntimeError → String
  | unboundName name => "undefined variable: " ++ name
  | typeMismatch op left right =>
    "cannot apply `" ++ op.text ++ "` to " ++ left.text ++ " and " ++
      right.text
  | invalidOperand op operand =>
    "cannot apply `" ++ op.text ++ "` to " ++ operand.text
  | nonBoolCondition found =>
    "condition must be a bool, got " ++ found.text
  | arity name expected found =>
    "function " ++ name ++ " expects " ++ toString expected
      ++ " arguments, got " ++ toString found
  | notCallable name => "'" ++ name ++ "' is not a function"
  | divisionByZero => "division by zero"
  | overflow op => "integer overflow in `" ++ op ++ "`"
  | stackOverflow limit =>
    "stack overflow: call depth exceeded " ++ toString limit
  | outputFull => "failed to write output: sink full"

end RuntimeError

end DynScript
