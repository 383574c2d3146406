import DynScript.Proofs.Parse.Reading

/-
  Reading by recursive descent from a supply, with the loops
  that take operators, arguments, semicolons, the statements of
  a block and those of a program one after the other. Heights
  are counted while reading, and the number of open blocks is
  part of the state. Nothing here is bounded by the tokens that
  are left: that a reader ends is no part of how it is defined.

  Key definitions include:
    * `Descent`
    * `Descent.binary`
    * `Descent.operatorTurn`
    * `Descent.callArgs`
    * `Descent.argumentTurn`
    * `Descent.separatorTurn`
    * `Descent.statement`
    * `Descent.block`
    * `Descent.blockTurn`
    * `Descent.consume`
    * `Descent.readStatement`
    * `Descent.programTurn`
    * `Descent.program`
-/

namespace DynScript

/-
  How to read: without a limit on the nesting, or with one that
  lets something through.
-/
structure Descent where
  limit : Option Nat
  positive : ∀ n ∈ limit, 0 < n

namespace Descent

open Reading

------------------------------------------------------------
-- Expressions
------------------------------------------------------------

mutual

/-
  An operand and the operators behind it that bind tighter
  than `least`.
-/
def binary
    (d : Descent)
    (least : Nat) : Reading (Sized Expr) := do
  let left ← d |>.unary
  d |>.operators least left
partial_fixpoint

/- The loop that takes operators with their right operands. -/
def operators
    (d : Descent)
    (least : Nat)
    (left : Sized Expr) : Reading (Sized Expr) := do
  match ← d |>.operatorTurn least left with
  | .again left => d |>.operators least left
  | .done e => return e
partial_fixpoint

/- One operator with its right operand, if one comes next. -/
def operatorTurn
    (d : Descent)
    (least : Nat)
    (left : Sized Expr) :
    Reading (Turn (Sized Expr) (Sized Expr)) := do
  let item ← peek
  match item.kind?.bind Parse.binaryOp? with
  | none => return .done left
  | some op =>
    if least < op.precedence then
      let item ← advance
      let right ← d |>.binary op.precedence
      let height ← test (Parse.bounded d.limit item.pos
        (max left.height right.height + 1))
      return .again ⟨.binary op left.tree right.tree, height⟩
    else
      return .done left
partial_fixpoint

/- An operand, or an operator before one. -/
def unary
    (d : Descent) : Reading (Sized Expr) := do
  let item ← peek
  match item.kind?.bind Parse.unaryOp? with
  | none => d |>.primary
  | some op =>
    let item ← advance
    let e ← d |>.unary
    let height ← test (Parse.bounded d.limit item.pos (e.height + 1))
    return ⟨.unary op e.tree, height⟩
partial_fixpoint

/- A literal, a name, a call or a group. -/
def primary
    (d : Descent) : Reading (Sized Expr) := do
  let item ← advance
  match item.kind?.bind Parse.literal? with
  | some e => return ⟨e, 1⟩
  | none =>
    match item.kind? with
    | some (.ident name) =>
      let next ← peek
      if next.kind? = some (.symbol .parenL) then
        let args ← d |>.callArgs
        let height ← test (Parse.bounded d.limit item.pos
          (args.height + 1))
        return ⟨.call name args.tree, height⟩
      else
        return ⟨.var name, 1⟩
    | some (.symbol .parenL) =>
      let e ← d |>.binary 0
      let _ ← expect .parenR
      return e
    | _ => fail (item.fault .expression)
partial_fixpoint

/- The arguments of a call, with their parentheses. -/
def callArgs
    (d : Descent) : Reading (Sized (List Expr)) := do
  let _ ← expect .parenL
  if ← eat .parenR then
    return ⟨[], 0⟩
  else
    let args ← d |>.arguments ⟨[], 0⟩
    let _ ← expect .parenR
    return args
partial_fixpoint

/-
  The loop that takes arguments; `args` are those taken already
  with the height of the highest.
-/
def arguments
    (d : Descent)
    (args : Sized (List Expr)) : Reading (Sized (List Expr)) := do
  match ← d |>.argumentTurn args with
  | .again args => d |>.arguments args
  | .done args => return args
partial_fixpoint

/- One more argument, and the comma behind it if there is one. -/
def argumentTurn
    (d : Descent)
    (args : Sized (List Expr)) :
    Reading (Turn (Sized (List Expr)) (Sized (List Expr))) := do
  let e ← d |>.binary 0
  let more := ⟨args.tree ++ [e.tree], max args.height e.height⟩
  if ← eat .comma then
    return .again more
  else
    return .done more
partial_fixpoint

end

/- A whole expression. -/
def expression
    (d : Descent) : Reading Expr := do
  let e ← d.binary 0
  return e.tree

------------------------------------------------------------
-- Parts of statements
------------------------------------------------------------

/- One semicolon, if one comes next. -/
def separatorTurn
    (_ : Descent) : Reading (Turn Unit Unit) := do
  if ← eat .semicolon then
    return .again ()
  else
    return .done ()

/- The loop that takes semicolons. -/
def skipSeparators
    (d : Descent) : Reading Unit := do
  match ← d.separatorTurn with
  | .again _ => d |>.skipSeparators
  | .done _ => return ()
partial_fixpoint

/- The name that is assigned to, where an assignment comes next. -/
def assigned?
    (_ : Descent) : Reading (Option String) := do
  let item ← peek
  match item.kind? with
  | some (.ident name) =>
    let next ← peekNth 1
    return if next.kind? = some (.symbol .assign) then
      some name
    else
      none
  | _ => return none

/- An assignment to a name. -/
def assignment
    (d : Descent)
    (name : String) : Reading Stmt := do
  let _ ← advance
  let _ ← expect .assign
  let e ← d.expression
  return .assign name e

/- A `return` and what it gives back. -/
def returnStmt
    (d : Descent) : Reading Stmt := do
  let _ ← expect .kwReturn
  let item ← peek
  match item.kind? with
  | none => return .ret none
  | some (.symbol .braceR) => return .ret none
  | some (.symbol .semicolon) => return .ret none
  | some _ =>
    let e ← d.expression
    return .ret (some e)

------------------------------------------------------------
-- Statements and blocks
------------------------------------------------------------

mutual

/- A statement with the semicolon that may end it. -/
def statement
    (d : Descent) : Reading Stmt := do
  let st ← d |>.bareStatement
  let _ ← eat .semicolon
  return st
partial_fixpoint

/- A statement without what may end it. -/
def bareStatement
    (d : Descent) : Reading Stmt := do
  match ← d.assigned? with
  | some name => d.assignment name
  | none =>
    let item ← peek
    match item.kind? with
    | some (.symbol .kwIf) => d |>.ifStmt
    | some (.symbol .kwReturn) => d.returnStmt
    | _ => d |>.exprOrFunction
partial_fixpoint

/- A conditional with its keyword. -/
def ifStmt
    (d : Descent) : Reading Stmt := do
  let _ ← expect .kwIf
  let cond ← d.expression
  let yes ← d |>.block
  if ← eat .kwElse then
    let item ← peek
    if item.kind? = some (.symbol .kwIf) then
      let st ← d |>.ifStmt
      return .branch cond yes (some [st])
    else
      let no ← d |>.block
      return .branch cond yes (some no)
  else
    return .branch cond yes none
partial_fixpoint

/- An expression, or a call that a block turns into a definition. -/
def exprOrFunction
    (d : Descent) : Reading Stmt := do
  let e ← d.expression
  match e with
  | .call name args =>
    let item ← peek
    if item.kind? = some (.symbol .braceL) then
      let params ← test (Parse.parameters item.pos args)
      let body ← d |>.block
      return .function name params body
    else
      return .expr (.call name args)
  | e => return .expr e
partial_fixpoint

/-
  A block with its braces. It is entered before its statements
  are read and left behind them, also where they have a fault.
-/
def block
    (d : Descent) : Reading Block := do
  let item ← expect .braceL
  let blocks ← openBlocks
  let _ ← test (Parse.mayOpen d.limit item.pos blocks)
  enterBlock
  (ExceptT.run (d |>.blockBody []) >>= leaveBlock :
    StateT Parser Option (Except ParseError Block))
partial_fixpoint

/- The loop that takes statements up to the closing brace. -/
def blockBody
    (d : Descent)
    (body : Block) : Reading Block := do
  match ← d |>.blockTurn body with
  | .again body => d |>.blockBody body
  | .done body => return body
partial_fixpoint

/- One more statement, or the closing brace. -/
def blockTurn
    (d : Descent)
    (body : Block) : Reading (Turn Block Block) := do
  d.skipSeparators
  let item ← peek
  match item.kind? with
  | none => fail (item.fault (.symbol .braceR))
  | some (.symbol .braceR) =>
    let _ ← advance
    return .done body
  | some _ =>
    let st ← d |>.statement
    return .again (body ++ [st])
partial_fixpoint

end

------------------------------------------------------------
-- Calls from outside
------------------------------------------------------------

/-
  Skip the next token, which must be spelled `text`. The empty
  text skips nothing, and only looks whether a token can be
  read.
-/
def consume
    (_ : Descent)
    (text : String) : Reading Unit :=
  guarded do
    let item ← peek
    if text = "" then
      return ()
    else if item.text = text then
      let _ ← advance
      return ()
    else
      fail (item.fault (.spelling text))

/-
  The next statement outside all blocks, or nothing at the end
  of the input.
-/
def nextStatement
    (d : Descent) : Reading (Option Stmt) := do
  d.skipSeparators
  let item ← peek
  match item.kind? with
  | none => return none
  | some _ =>
    let st ← d.statement
    return some st

def readStatement
    (d : Descent) : Reading (Option Stmt) :=
  guarded d.nextStatement

/- One more statement of a program, if there is one. -/
def programTurn
    (d : Descent)
    (read : Block) : Reading (Turn Block Block) := do
  match ← d.readStatement with
  | some st => return .again (read ++ [st])
  | none => return .done read

/- The loop that takes all statements that are left. -/
def program
    (d : Descent)
    (read : Block) : Reading Block := do
  match ← d.programTurn read with
  | .again read => d |>.program read
  | .done read => return read
partial_fixpoint

end Descent

end DynScript
