import DynScript.Eval.Machine
import DynScript.Eval.Operator

/-
  This file defines what programs do. Expressions and blocks
  are evaluated by recursion on their syntax, given what a call
  of a function does; calls in turn are evaluated by recursion
  on how many may still be inside one another. What is written
  to a log about statements and calls is not part of what is
  modelled; the native stack is, as far as that calls are
  given new ones to run on, which changes no value.

  Key definitions include:
    * `Builtin`
    * `Flow`
    * `evalExpr`
    * `execStmt`
    * `execBlock`
    * `callFunction`
    * `runBlock`
-/

namespace DynScript

------------------------------------------------------------
-- Built-in functions
------------------------------------------------------------

/- The functions that every program has. -/
inductive Builtin where
  | echo
  | echoln
deriving DecidableEq

namespace Builtin

/- The built-in function with a name. -/
def ofName? : String → Option Builtin
  | "echo" => some echo
  | "echoln" => some echoln
  | _ => none

/- The texts that a built-in function writes, one for each argument. -/
def texts
    (b : Builtin)
    (args : List Value) : List String :=
  match b with
  | echo => args.map Value.display
  | echoln => args.map Value.display ++ ["\n"]

/- Call a built-in function. -/
def call
    (b : Builtin)
    (args : List Value) : Eval Value := do
  Eval.printAll (b.texts args)
  return .nil

end Builtin

------------------------------------------------------------
-- Expressions
------------------------------------------------------------

/- What a call of a function with evaluated arguments does. -/
abbrev CallHandler :=
  Function → List Value → Eval Value

mutual

/- The value of an expression. -/
def evalExpr
    (call : CallHandler) : Expr → Eval Value
  | .int i => pure (.int i)
  | .float x => pure (.float x)
  | .str s => pure (.str s)
  | .bool b => pure (.bool b)
  | .nil => pure .nil
  | .var name => Eval.lookup name
  | .unary op e => do
    let v ← evalExpr call e
    Eval.ofExcept (evalUnary op v)
  | .binary op l r => do
    let a ← evalExpr call l
    match shortCircuit? op a with
    | some v => return v
    | none =>
      let b ← evalExpr call r
      Eval.ofExcept (evalBinary op a b)
  | .call name args =>
    match Builtin.ofName? name with
    | some b => do
      let vs ← evalArgs call args
      b.call vs
    | none => do
      match ← Eval.lookup name with
      | .function _ f =>
        let vs ← evalArgs call args
        call f vs
      | _ => throw (.notCallable name)

/- The values of arguments, from left to right. -/
def evalArgs
    (call : CallHandler) : List Expr → Eval (List Value)
  | [] => pure []
  | e :: es => do
    let v ← evalExpr call e
    let vs ← evalArgs call es
    return v :: vs

end

------------------------------------------------------------
-- Statements
------------------------------------------------------------

/- How a statement ends: the next one follows, or the call is over. -/
inductive Flow where
  | next (v : Value)
  | ret (v : Value)

/- The value that a statement ends with. -/
def Flow.value : Flow → Value
  | .next v => v
  | .ret v => v

mutual

/- Execute a statement. -/
def execStmt
    (call : CallHandler) : Stmt → Eval Flow
  | .assign name e => do
    let v ← evalExpr call e
    Eval.assign name v
    return .next .nil
  | .branch test yes no => do
    match ← evalExpr call test with
    | .bool true => Eval.inScope .empty (execFrom call .nil yes)
    | .bool false =>
      match no with
      | some b => Eval.inScope .empty (execFrom call .nil b)
      | none => return .next .nil
    | v => throw (.nonBoolCondition v.kind)
  | .function name params body => do
    let v ← Eval.newFunction ⟨name, params, body⟩
    Eval.define name v
    return .next .nil
  | .ret none => return .ret .nil
  | .ret (some e) => do
    let v ← evalExpr call e
    return .ret v
  | .expr e => do
    let v ← evalExpr call e
    return .next v

/-
  Execute statements one after the other; `last` is the value
  before them.
-/
def execFrom
    (call : CallHandler)
    (last : Value) : Block → Eval Flow
  | [] => return .next last
  | s :: ss => do
    match ← execStmt call s with
    | .next v => execFrom call v ss
    | .ret v => return .ret v

end

/- Execute a block. Its value is that of its last statement. -/
def execBlock
    (call : CallHandler)
    (b : Block) : Eval Flow :=
  execFrom call .nil b

------------------------------------------------------------
-- Calls
------------------------------------------------------------

/- How many calls inside one another share a native stack. -/
def callsPerStack : Nat :=
  128

/-
  The value of a computation, which is given a new native stack
  to run on from time to time as calls get deeper.
-/
def onStack
    {α : Type}
    (depth : Nat)
    (f : Unit → α) : α :=
  if depth % callsPerStack = 0 then
    (Task.spawn f .dedicated).get
  else
    f ()

/- A new native stack changes nothing about the value. -/
@[simp]
theorem onStack_eq
    {α : Type}
    (depth : Nat)
    (f : Unit → α) :
    onStack depth f = f () := by
  unfold onStack
  split <;> rfl

/- The body of a function with its parameters bound. -/
def runBody
    (call : CallHandler)
    (f : Function)
    (args : List Value) : Eval Value := do
  let frame := Scope.ofPairs (f.params.zip args)
  match ← Eval.deeper (Eval.inScope frame (execBlock call f.body)) with
  | .ret v => return v
  | .next _ => return .nil

/-
  Call a function. `room` bounds how many calls can still be
  inside one another; the limit of the machine is met first
  when `room` is at least what the machine has left.
-/
def callFunction : (room : Nat) → CallHandler
  | 0, f, args => fun m =>
    if f.params.length ≠ args.length then
      .error (.arity f.name f.params.length args.length) m
    else
      .error (.stackOverflow m.maxDepth) m
  | room + 1, f, args => fun m =>
    if f.params.length ≠ args.length then
      .error (.arity f.name f.params.length args.length) m
    else if m.maxDepth ≤ m.depth then
      .error (.stackOverflow m.maxDepth) m
    else
      onStack m.depth fun _ => runBody (callFunction room) f args m

/- Call a function from outside of all others. -/
def invoke
    (f : Function)
    (args : List Value) : Eval Value := fun m =>
  callFunction (m.maxDepth - m.depth) f args m

/-
  Run a program; its value is that of its first `return` or of
  its last statement.
-/
def runBlock
    (b : Block) : Eval Value := fun m =>
  (Flow.value <$> execBlock (callFunction (m.maxDepth - m.depth)) b) m

end DynScript
