import DynScript.Proofs.Eval.Compositional

/-
  Scopes and calls are left as they were found. Whatever a
  program does and however it ends, it leaves as many scopes as
  there were and is inside of as many calls; so a host finds
  all of its scopes and all room for calls after each of its
  operations.

  Key definitions include:
    * `SameStacks`
    * `Balanced`
    * `HostOp`
    * `Machine.performAll`

  Main statements include:
    * `balanced_compositional`
    * `Machine.stacks_perform`
    * `stack_discipline`
-/

namespace DynScript

------------------------------------------------------------
-- Balanced steps
------------------------------------------------------------

/- As many scopes, as many calls and the same limit for them. -/
structure SameStacks
    (m m' : Machine) : Prop where
  scopes : m'.env.depth = m.env.depth
  calls : m'.depth = m.depth
  limit : m'.maxDepth = m.maxDepth

theorem SameStacks.refl
    (m : Machine) :
    SameStacks m m :=
  ⟨rfl, rfl, rfl⟩

theorem SameStacks.trans
    {m₁ m₂ m₃ : Machine}
    (h₁ : SameStacks m₁ m₂)
    (h₂ : SameStacks m₂ m₃) :
    SameStacks m₁ m₃ :=
  ⟨h₂.scopes.trans h₁.scopes, h₂.calls.trans h₁.calls,
    h₂.limit.trans h₁.limit⟩

/- A step that leaves scopes and calls as they are. -/
def Balanced : StepProperty :=
  Leads SameStacks

/- A scope is taken away again, and with it nothing else. -/
theorem depth_pop
    {env : Environment}
    {n : Nat}
    (h : env.depth = n + 2) :
    env.pop.depth = n + 1 := by
  unfold Environment.pop Environment.depth at *
  rw [List.length_tail]
  omega

theorem balanced_inScope
    {α : Type}
    {body : Eval α}
    (s : Scope)
    (h : Balanced α body) :
    Balanced α (Eval.inScope s body) := by
  intro m
  have hBody := h { m with env := m.env.push s }
  unfold Eval.after Eval.inScope at *
  cases hx : body { m with env := m.env.push s } with
  | ok a m' =>
      rw [hx] at hBody
      exact ⟨depth_pop hBody.scopes, hBody.calls, hBody.limit⟩
  | error e m' =>
      rw [hx] at hBody
      exact ⟨depth_pop hBody.scopes, hBody.calls, hBody.limit⟩

theorem balanced_deeper
    {α : Type}
    {body : Eval α}
    (h : Balanced α body) :
    Balanced α (Eval.deeper body) := by
  intro m
  have hBody := h { m with depth := m.depth + 1 }
  unfold Eval.after Eval.deeper at *
  cases hx : body { m with depth := m.depth + 1 } with
  | ok a m' =>
      rw [hx] at hBody
      refine ⟨hBody.scopes, ?_, hBody.limit⟩
      exact Nat.sub_eq_of_eq_add hBody.calls
  | error e m' =>
      rw [hx] at hBody
      refine ⟨hBody.scopes, ?_, hBody.limit⟩
      exact Nat.sub_eq_of_eq_add hBody.calls

/- Every step of a program is balanced. -/
theorem balanced_compositional :
    Pointwise Balanced Balanced where
  outerSeq := leads_sequential SameStacks.refl SameStacks.trans
  innerSeq := leads_sequential SameStacks.refl SameStacks.trans
  weaken := fun h => h
  lookup := by
    intro name m
    unfold Eval.after Eval.lookup
    cases m.env.get? name with
    | none => exact .refl m
    | some v => exact .refl m
  newFunction := fun _ m => ⟨rfl, rfl, rfl⟩
  print := by
    intro text m
    unfold Eval.after Eval.print
    rcases m.sink.write text with ⟨written, sink⟩
    cases written with
    | true => exact ⟨rfl, rfl, rfl⟩
    | false => exact ⟨rfl, rfl, rfl⟩
  assign := fun name value m =>
    ⟨m.env.depth_assign name value, rfl, rfl⟩
  define := fun name value m =>
    ⟨m.env.depth_define name value, rfl, rfl⟩
  inScope := balanced_inScope
  deeper := balanced_deeper
  outerChoose := leads_choose
  innerChoose := leads_choose

------------------------------------------------------------
-- Hosts
------------------------------------------------------------

/- What a host can do with a machine. -/
inductive HostOp where
  | run (b : Block)
  | assign (name : String) (value : Value)
  | push (s : Scope)
  | pop
  | runIn (s : Scope) (b : Block)
  | call (f : Function) (args : List Value)

/- The scopes that an operation stacks and leaves. -/
def HostOp.pushes : HostOp → Nat
  | .push _ => 1
  | _ => 0

/- The scopes that operations stack and leave. -/
def HostOp.totalPushes : List HostOp → Nat
  | [] => 0
  | op :: ops => op.pushes + totalPushes ops

/- The scopes that an operation takes from a machine. -/
def HostOp.pops
    (m : Machine) : HostOp → Nat
  | .pop => if m.pop.1.isSome then 1 else 0
  | _ => 0

namespace Machine

/- The machine after an operation, whether or not it fails. -/
def perform
    (m : Machine) : HostOp → Machine
  | .run b => (m.run b).2
  | .assign name value => m.assign name value
  | .push s => m.push s
  | .pop => m.pop.2
  | .runIn s b => (m.runIn s b).2
  | .call f args => (m.call f args).2

/- The machine after one operation after the other. -/
def performAll
    (m : Machine) : List HostOp → Machine
  | [] => m
  | op :: ops => (m.perform op).performAll ops

/- How many operations take a scope away. -/
def effectivePops
    (m : Machine) : List HostOp → Nat
  | [] => 0
  | op :: ops => op.pops m + (m.perform op).effectivePops ops

theorem step_snd
    {α : Type}
    (m : Machine)
    (x : Eval α) :
    (m.step x).2 = x.after m := by
  unfold step Eval.after
  cases x m with
  | ok a m' => rfl
  | error e m' => rfl

/- Running a program leaves scopes and calls. -/
theorem sameStacks_run
    (m : Machine)
    (b : Block) :
    SameStacks m (m.run b).2 := by
  rw [run, step_snd]
  exact balanced_compositional.runBlock b m

/- So does running it with a scope of its own. -/
theorem sameStacks_runIn
    (m : Machine)
    (s : Scope)
    (b : Block) :
    SameStacks m (m.runIn s b).2 := by
  rw [runIn, step_snd]
  exact balanced_inScope s (balanced_compositional.runBlock b) m

/- So does calling a function. -/
theorem sameStacks_call
    (m : Machine)
    (f : Function)
    (args : List Value) :
    SameStacks m (m.call f args).2 := by
  rw [call, step_snd]
  exact balanced_compositional.invoke f args m

/- One operation changes the number of scopes by what it says. -/
theorem stacks_perform
    (m : Machine)
    (op : HostOp) :
    (m.perform op).depth = m.depth ∧
      (m.perform op).maxDepth = m.maxDepth ∧
      (m.perform op).env.depth + op.pops m =
        m.env.depth + op.pushes := by
  have hSame : ∀ m', SameStacks m m' → m'.depth = m.depth ∧
      m'.maxDepth = m.maxDepth ∧ m'.env.depth + 0 = m.env.depth + 0 :=
    fun m' h => ⟨h.calls, h.limit, h.scopes⟩
  cases op with
  | run b => exact hSame _ (m.sameStacks_run b)
  | assign name value =>
      exact hSame _ ⟨m.env.depth_assign name value, rfl, rfl⟩
  | push s => exact ⟨rfl, rfl, rfl⟩
  | pop =>
      refine ⟨rfl, rfl, ?_⟩
      rcases m with ⟨⟨globals, locals⟩, sink, depth, limit, identity⟩
      cases locals with
      | nil => rfl
      | cons s scopes => rfl
  | runIn s b => exact hSame _ (m.sameStacks_runIn s b)
  | call f args => exact hSame _ (m.sameStacks_call f args)

/- Any number of operations do. -/
theorem stacks_performAll
    (m : Machine)
    (ops : List HostOp) :
    (m.performAll ops).depth = m.depth ∧
      (m.performAll ops).maxDepth = m.maxDepth ∧
      (m.performAll ops).env.depth + m.effectivePops ops =
        m.env.depth + HostOp.totalPushes ops := by
  induction ops generalizing m with
  | nil => exact ⟨rfl, rfl, rfl⟩
  | cons op ops ih =>
      rcases m.stacks_perform op with ⟨hCalls, hLimit, hScopes⟩
      rcases ih (m.perform op) with ⟨hCalls', hLimit', hScopes'⟩
      refine ⟨hCalls'.trans hCalls, hLimit'.trans hLimit, ?_⟩
      simp only [performAll, effectivePops, HostOp.totalPushes]
      omega

end Machine

/-
  Programs, calls, blocks, statements and expressions leave the
  number of scopes and calls as it was, however they end. So
  after any operations of a host on a fresh machine no call is
  open, all room for calls is there, and there are as many
  scopes as were stacked and not taken away, at least one.
-/
theorem stack_discipline :
    (∀ m : Machine,
      (∀ b, SameStacks m (m.run b).2) ∧
      (∀ f args, SameStacks m (m.call f args).2) ∧
      (∀ s b, SameStacks m (m.runIn s b).2) ∧
      ∀ room,
        (∀ b, SameStacks m
          ((execBlock (callFunction room) b).after m)) ∧
        (∀ s, SameStacks m
          ((execStmt (callFunction room) s).after m)) ∧
        ∀ e, SameStacks m
          ((evalExpr (callFunction room) e).after m)) ∧
    ∀ globals maxDepth outLimit nextIdentity ops,
      let start :=
        Machine.fresh globals maxDepth outLimit nextIdentity
      let m := start.performAll ops
      m.depth = 0 ∧
      m.env.depth + start.effectivePops ops =
        1 + HostOp.totalPushes ops ∧
      1 ≤ m.env.depth ∧
      m.maxDepth - m.depth = maxDepth := by
  constructor
  · intro m
    refine ⟨m.sameStacks_run, m.sameStacks_call,
      m.sameStacks_runIn, ?_⟩
    intro room
    have hCall := balanced_compositional.callFunction room
    refine ⟨?_, ?_, ?_⟩
    · intro b
      exact balanced_compositional.execBlock hCall b m
    · intro s
      exact balanced_compositional.execStmt hCall s m
    · intro e
      exact balanced_compositional.evalExpr hCall e m
  · intro globals maxDepth outLimit nextIdentity ops start m
    rcases start.stacks_performAll ops with ⟨hCalls, hLimit, hScopes⟩
    refine ⟨hCalls, hScopes, Nat.succ_pos _, ?_⟩
    rw [hCalls, hLimit]
    rfl

end DynScript
