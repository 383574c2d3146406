import DynScript.Decimal.Layout
import DynScript.Syntax.Basic

/-
  This file writes syntax trees as source text in one fixed
  form: operations have parentheses around them, and
  statements are separated by semicolons.

  Key definitions include:
    * `quoteLiteral`
    * `floatLiteral`
    * `Expr.render`
    * `Stmt.render`
    * `Block.render`
-/

namespace DynScript

------------------------------------------------------------
-- Literals
------------------------------------------------------------

/- A character inside a string literal with double quotes. -/
def escapeLiteral : Char → List Char
  | '"' => ['\\', '"']
  | '\\' => ['\\', '\\']
  | '\n' => ['\\', 'n']
  | '\t' => ['\\', 't']
  | '\r' => ['\\', 'r']
  | '\x00' => ['\\', '0']
  | c => [c]

/- The string literal that denotes a text. -/
def quoteLiteral
    (s : String) : String :=
  String.ofList ('"' :: s.toList.flatMap escapeLiteral ++ ['"'])

/- A floating point literal is plain digits with a point. -/
def floatLiteral
    (x : Float) : String :=
  let text := Decimal.Layout.plain.write x
  if Decimal.isFinite x && !text.contains '.' then text ++ ".0" else text

------------------------------------------------------------
-- Expressions
------------------------------------------------------------

mutual

/- An expression as source text. -/
def Expr.render : Expr → String
  | .int i => toString i.toInt
  | .float x => floatLiteral x
  | .str s => quoteLiteral s
  | .bool b => if b then "true" else "false"
  | .nil => "nil"
  | .var name => name
  | .unary op e => "(" ++ op.text ++ e.render ++ ")"
  | .binary op l r =>
    "(" ++ l.render ++ " " ++ op.text ++ " " ++ r.render ++ ")"
  | .call name args => name ++ "(" ++ Expr.renderArgs args ++ ")"

/- Arguments, separated by commas. -/
def Expr.renderArgs : List Expr → String
  | [] => ""
  | [e] => e.render
  | e :: es => e.render ++ ", " ++ Expr.renderArgs es

end

------------------------------------------------------------
-- Statements
------------------------------------------------------------

/- The text of a block between braces, which a space keeps apart. -/
def braced
    (empty : Bool)
    (text : String) : String :=
  if empty then "\x7b \x7d" else "\x7b " ++ text ++ " \x7d"

mutual

/- A statement as source text. -/
def Stmt.render : Stmt → String
  | .assign name value => name ++ " = " ++ value.render
  | .branch test yes none =>
    "if " ++ test.render ++ " " ++ braced yes.isEmpty (Stmt.renderSeq yes)
  | .branch test yes (some no) =>
    "if " ++ test.render ++ " " ++ braced yes.isEmpty (Stmt.renderSeq yes)
      ++ " else " ++ braced no.isEmpty (Stmt.renderSeq no)
  | .function name params body =>
    name ++ "(" ++ ", ".intercalate params ++ ") "
      ++ braced body.isEmpty (Stmt.renderSeq body)
  | .ret (some e) => "return " ++ e.render
  | .ret none => "return"
  | .expr e => e.render

/- The statements of a block, separated by semicolons. -/
def Stmt.renderSeq : List Stmt → String
  | [] => ""
  | [s] => s.render
  | s :: ss => s.render ++ "; " ++ Stmt.renderSeq ss

end

/- A program as source text, one statement a line. -/
def Block.render
    (b : Block) : String :=
  ";\n".intercalate (b.map Stmt.render)

end DynScript
