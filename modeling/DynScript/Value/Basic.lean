import DynScript.Syntax.Printer

/-
  This file defines the values that programs compute with. A
  function holds no scope: a call runs on top of the scopes of
  its caller. Each execution of a definition makes a function
  with an identity of its own.

  Key definitions include:
    * `Function`
    * `Value`
    * `ValueKind`
    * `Value.kind`
    * `Value.display`
    * `Value.beq`
    * `Value.looseEq`
-/

namespace DynScript

------------------------------------------------------------
-- Values
------------------------------------------------------------

/- What a definition of a function says. -/
structure Function where
  name : String
  params : List String
  body : Block

/- The values of the language. -/
inductive Value where
  | int (i : Int64)
  | float (x : Float)
  | bool (b : Bool)
  | str (s : String)
  | function (identity : Nat) (f : Function)
  | nil

/- The kinds of values. -/
inductive ValueKind where
  | int
  | float
  | bool
  | string
  | function
  | nil
deriving DecidableEq

/- The name of a kind in diagnostics. -/
def ValueKind.text : ValueKind → String
  | .int => "int"
  | .float => "float"
  | .bool => "bool"
  | .string => "string"
  | .function => "function"
  | .nil => "nil"

namespace Value

/- The kind of a value. -/
def kind : Value → ValueKind
  | int _ => .int
  | float _ => .float
  | bool _ => .bool
  | str _ => .string
  | function .. => .function
  | nil => .nil

/- A value as a program shows it. -/
def display : Value → String
  | int i => toString i.toInt
  | float x => Decimal.Layout.plain.write x
  | bool b => if b then "true" else "false"
  | str s => s
  | function _ f =>
    "<function " ++ f.name ++ "(" ++ ", ".intercalate f.params ++ ")>"
  | nil => "nil"

/- A number as a floating point number. -/
def toFloat? : Value → Option Float
  | int i => some (Decimal.ofInt i.toInt)
  | float x => some x
  | _ => none

------------------------------------------------------------
-- Equality
------------------------------------------------------------

/-
  Equality by content. Values of different kinds are unequal,
  and functions are equal when their definitions are.
-/
def beq : Value → Value → Bool
  | int a, int b => a == b
  | float a, float b => a == b
  | bool a, bool b => a == b
  | str a, str b => a == b
  | function _ f, function _ g =>
    f.name == g.name && f.params == g.params && f.body == g.body
  | nil, nil => true
  | _, _ => false

instance : BEq Value :=
  ⟨beq⟩

/-
  Equality as programs see it: an integer equals a floating
  point number when its conversion does, and functions are
  equal when they are the same one.
-/
def looseEq : Value → Value → Bool
  | int a, float b => Decimal.ofInt a.toInt == b
  | float a, int b => Decimal.ofInt b.toInt == a
  | function i _, function j _ => i == j
  | a, b => a == b

end Value

end DynScript
