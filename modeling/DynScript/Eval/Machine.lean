import DynScript.Eval.Error
import DynScript.Eval.Sink
import DynScript.Value.Scope

/-
  This file defines the state of a running program and the
  steps that read or change it. A step ends in a value or in an
  error, and in both cases in a state.

  Key definitions include:
    * `Machine`
    * `Eval`
    * `Eval.lookup`
    * `Eval.define`
    * `Eval.assign`
    * `Eval.newFunction`
    * `Eval.print`
    * `Eval.printAll`
    * `Eval.inScope`
-/

namespace DynScript

------------------------------------------------------------
-- State
------------------------------------------------------------

/-
  The state of a running program: its scopes, its output, the
  number of calls it is inside of and how many there may be,
  and the first identity that no function has.
-/
structure Machine where
  env : Environment
  sink : Sink
  depth : Nat
  maxDepth : Nat
  nextIdentity : Nat

/-
  The number of calls that may be inside one another, unless
  said otherwise.
-/
def defaultMaxDepth : Nat :=
  10000

/- A machine that has run nothing yet. -/
def Machine.fresh
    (globals : Scope)
    (maxDepth : Nat)
    (outLimit : Option Nat)
    (nextIdentity : Nat) : Machine :=
  ⟨.ofGlobals globals, .empty outLimit, 0, maxDepth, nextIdentity⟩

------------------------------------------------------------
-- Steps
------------------------------------------------------------

/- A step from one state to another with a result of type `α`. -/
abbrev Eval :=
  EStateM RuntimeError Machine

namespace Eval

/- The result of an operation that does not touch the state. -/
def ofExcept
    {α : Type} : Except RuntimeError α → Eval α
  | .ok a => pure a
  | .error e => throw e

/- The value of a name. -/
def lookup
    (name : String) : Eval Value := fun m =>
  match m.env.get? name with
  | some v => .ok v m
  | none => .error (.unboundName name) m

/- Bind a name in the innermost scope. -/
def define
    (name : String)
    (value : Value) : Eval Unit := fun m =>
  .ok () { m with env := m.env.define name value }

/- Bind a name anew where it is bound. -/
def assign
    (name : String)
    (value : Value) : Eval Unit := fun m =>
  .ok () { m with env := m.env.assign name value }

/- A function with an identity that no other function has. -/
def newFunction
    (f : Function) : Eval Value := fun m =>
  .ok (.function m.nextIdentity f)
    { m with nextIdentity := m.nextIdentity + 1 }

/- Write a text to the output. -/
def print
    (text : String) : Eval Unit := fun m =>
  match m.sink.write text with
  | (true, sink) => .ok () { m with sink }
  | (false, sink) => .error .outputFull { m with sink }

/- Write texts one after the other, up to the first without room. -/
def printAll : List String → Eval Unit
  | [] => pure ()
  | text :: texts => do
    print text
    printAll texts

/-
  Run a step with a scope stacked on the others, which is taken
  away again however the step ends.
-/
def inScope
    {α : Type}
    (s : Scope)
    (body : Eval α) : Eval α := fun m =>
  match body { m with env := m.env.push s } with
  | .ok a m' => .ok a { m' with env := m'.env.pop }
  | .error e m' => .error e { m' with env := m'.env.pop }

/- Run a step one call deeper. -/
def deeper
    {α : Type}
    (body : Eval α) : Eval α := fun m =>
  match body { m with depth := m.depth + 1 } with
  | .ok a m' => .ok a { m' with depth := m'.depth - 1 }
  | .error e m' => .error e { m' with depth := m'.depth - 1 }

end Eval

end DynScript
