/-
  This file defines the syntax trees of the language. Blocks
  are lists of statements, and a program is a block.

  Key definitions include:
    * `UnaryOp`
    * `BinaryOp`
    * `BinaryOp.precedence`
    * `Expr`
    * `Stmt`
    * `Expr.height`
    * `Expr.beq`
    * `Stmt.beq`
-/

namespace DynScript

------------------------------------------------------------
-- Operators
------------------------------------------------------------

/- The operators with one operand. -/
inductive UnaryOp where
  | neg
  | not
deriving DecidableEq

/- How an operator with one operand is spelled. -/
def UnaryOp.text : UnaryOp → String
  | .neg => "-"
  | .not => "!"

/- The operators with two operands. -/
inductive BinaryOp where
  | add | sub | mul | div | mod
  | eq | ne | lt | le | gt | ge
  | and | or
deriving DecidableEq

namespace BinaryOp

/- How tightly an operator binds; all of them group to the left. -/
def precedence : BinaryOp → Nat
  | or => 1
  | and => 2
  | eq | ne => 3
  | lt | le | gt | ge => 4
  | add | sub => 5
  | mul | div | mod => 6

/- How an operator with two operands is spelled. -/
def text : BinaryOp → String
  | add => "+"
  | sub => "-"
  | mul => "*"
  | div => "/"
  | mod => "%"
  | eq => "=="
  | ne => "!="
  | lt => "<"
  | le => "<="
  | gt => ">"
  | ge => ">="
  | and => "&&"
  | or => "||"

end BinaryOp

------------------------------------------------------------
-- Trees
------------------------------------------------------------

/- Expressions. -/
inductive Expr where
  | int (value : Int64)
  | float (value : Float)
  | str (value : String)
  | bool (value : Bool)
  | nil
  | var (name : String)
  | unary (op : UnaryOp) (operand : Expr)
  | binary (op : BinaryOp) (left right : Expr)
  | call (name : String) (args : List Expr)

/- Statements. -/
inductive Stmt where
  | assign (name : String) (value : Expr)
  | branch (test : Expr) (yes : List Stmt) (no : Option (List Stmt))
  | function (name : String) (params : List String) (body : List Stmt)
  | ret (value : Option Expr)
  | expr (e : Expr)

/- A sequence of statements. -/
abbrev Block :=
  List Stmt

/- The name of an expression's kind. -/
def Expr.kindName : Expr → String
  | .int _ => "Int"
  | .float _ => "Float"
  | .str _ => "Str"
  | .bool _ => "Bool"
  | .nil => "Nil"
  | .var _ => "Var"
  | .unary .. => "Unary"
  | .binary .. => "Binary"
  | .call .. => "Call"

/- The name of a statement's kind. -/
def Stmt.kindName : Stmt → String
  | .assign .. => "Assignment"
  | .branch .. => "If"
  | .function .. => "Function"
  | .ret _ => "Return"
  | .expr _ => "Expr"

/- The expression that stands directly in a statement, if there is one. -/
def Stmt.subject? : Stmt → Option Expr
  | .assign _ value => some value
  | .branch test _ _ => some test
  | .function .. => none
  | .ret value => value
  | .expr e => some e

------------------------------------------------------------
-- Height
------------------------------------------------------------

mutual

/- The number of nodes on the longest path down an expression. -/
def Expr.height : Expr → Nat
  | .unary _ e => e.height + 1
  | .binary _ l r => max l.height r.height + 1
  | .call _ args => Expr.maxHeight args + 1
  | _ => 1

/- The height of the highest expression of a list. -/
def Expr.maxHeight : List Expr → Nat
  | [] => 0
  | e :: es => max e.height (Expr.maxHeight es)

end

------------------------------------------------------------
-- Equality
------------------------------------------------------------

mutual

/-
  Equality of expressions. Floating point literals are
  compared as numbers, so the two zeros are equal.
-/
def Expr.beq : Expr → Expr → Bool
  | .int a, .int b => a == b
  | .float a, .float b => a == b
  | .str a, .str b => a == b
  | .bool a, .bool b => a == b
  | .nil, .nil => true
  | .var a, .var b => a == b
  | .unary o e, .unary p f => o == p && e.beq f
  | .binary o l r, .binary p m s => o == p && l.beq m && r.beq s
  | .call f es, .call g fs => f == g && Expr.beqList es fs
  | _, _ => false

/- Equality of lists of expressions. -/
def Expr.beqList : List Expr → List Expr → Bool
  | [], [] => true
  | e :: es, f :: fs => e.beq f && Expr.beqList es fs
  | _, _ => false

end

instance : BEq Expr :=
  ⟨Expr.beq⟩

mutual

/- Equality of statements. -/
def Stmt.beq : Stmt → Stmt → Bool
  | .assign x e, .assign y f => x == y && e == f
  | .branch c t (some e), .branch d u (some f) =>
    c == d && Stmt.beqList t u && Stmt.beqList e f
  | .branch c t none, .branch d u none => c == d && Stmt.beqList t u
  | .function f ps b, .function g qs d =>
    f == g && ps == qs && Stmt.beqList b d
  | .ret a, .ret b => a == b
  | .expr e, .expr f => e == f
  | _, _ => false

/- Equality of blocks. -/
def Stmt.beqList : List Stmt → List Stmt → Bool
  | [], [] => true
  | s :: ss, t :: ts => s.beq t && Stmt.beqList ss ts
  | _, _ => false

end

instance : BEq Stmt :=
  ⟨Stmt.beq⟩

end DynScript
