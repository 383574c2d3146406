import DynScript.Eval.Program
import DynScript.Parse.Reader

/-
  This file defines what a host program can do with a machine:
  run programs on it one after the other, and look at and change
  its scopes in between.

  Key definitions include:
    * `Machine.run`
    * `Machine.call`
    * `Machine.runIn`
    * `Machine.lookup`
    * `Machine.assign`
    * `Machine.push`
    * `Machine.pop`
    * `ScriptError`
    * `runSource`
-/

namespace DynScript

namespace Machine

------------------------------------------------------------
-- Running
------------------------------------------------------------

/- Take a step on a machine. -/
def step
    {α : Type}
    (m : Machine)
    (x : Eval α) : Except RuntimeError α × Machine :=
  match x m with
  | .ok a m' => (.ok a, m')
  | .error e m' => (.error e, m')

/- Run a program against the scopes of a machine. -/
def run
    (m : Machine)
    (b : Block) : Except RuntimeError Value × Machine :=
  m.step (runBlock b)

/- Run a program with a scope stacked on the others meanwhile. -/
def runIn
    (m : Machine)
    (s : Scope)
    (b : Block) : Except RuntimeError Value × Machine :=
  m.step (Eval.inScope s (runBlock b))

/- Call a function. -/
def call
    (m : Machine)
    (f : Function)
    (args : List Value) : Except RuntimeError Value × Machine :=
  m.step (invoke f args)

------------------------------------------------------------
-- Scopes
------------------------------------------------------------

/- The value of a name. -/
def lookup
    (m : Machine)
    (name : String) : Except RuntimeError Value :=
  match m.env.get? name with
  | some v => .ok v
  | none => .error (.unboundName name)

/- The value of a name, or another one if it has none. -/
def lookupD
    (m : Machine)
    (name : String)
    (fallback : Value) : Value :=
  (m.env.get? name).getD fallback

/- Bind a name anew where it is bound. -/
def assign
    (m : Machine)
    (name : String)
    (value : Value) : Machine :=
  { m with env := m.env.assign name value }

/- Stack a scope on the others. -/
def push
    (m : Machine)
    (s : Scope) : Machine :=
  { m with env := m.env.push s }

/- Take the innermost scope away, unless it is the global one. -/
def pop
    (m : Machine) : Option Scope × Machine :=
  (m.env.innermost?, { m with env := m.env.pop })

/- A machine with the same state and nothing written so far. -/
def clearOutput
    (m : Machine) : Machine :=
  { m with sink := { m.sink with
      written := .empty
      limit := m.sink.limit.map (· - m.sink.written.size) } }

end Machine

------------------------------------------------------------
-- Source texts
------------------------------------------------------------

/- Why a source text has no value. -/
inductive ScriptError where
  | parse (e : ParseError)
  | runtime (e : RuntimeError)

/- The text of the diagnostic. -/
def ScriptError.message : ScriptError → String
  | .parse e => "parse error: " ++ e.message
  | .runtime e => "runtime error: " ++ e.message

/- The value of a source text, run on a machine of its own. -/
def runSource
    (source : String) : Except ScriptError Value := do
  let b ← (parse source).mapError .parse
  let m := Machine.fresh .empty defaultMaxDepth none 0
  (m.run b).1.mapError .runtime

end DynScript
