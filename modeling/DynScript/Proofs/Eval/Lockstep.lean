import DynScript.Proofs.Eval.Termination

/-
  One program on two machines, of which the first may have to
  stop where the second goes on. As long as the first is not
  stopped, both take the same steps; and whatever the second
  does afterwards, it never takes back what was written.

  Key definitions include:
    * `Sink.Extends`
    * `Restriction`
    * `Restriction.InStep`
    * `Restriction.Agree`
    * `Restriction.Follows`
    * `Restriction.Fair`

  Main statements include:
    * `grows_compositional`
    * `Restriction.Fair.compositional`
    * `Restriction.Fair.callFunction`
    * `Restriction.Fair.run`
-/

namespace DynScript

------------------------------------------------------------
-- Output is never taken back
------------------------------------------------------------

/- All that was written is still there, with more behind it. -/
def Sink.Extends
    (s t : Sink) : Prop :=
  ∃ more, t.written = s.written ++ more

theorem Sink.Extends.refl
    (s : Sink) :
    s.Extends s :=
  ⟨.empty, ByteArray.append_empty.symm⟩

theorem Sink.Extends.trans
    {s t u : Sink}
    (h₁ : s.Extends t)
    (h₂ : t.Extends u) :
    s.Extends u := by
  rcases h₁ with ⟨first, hFirst⟩
  rcases h₂ with ⟨second, hSecond⟩
  refine ⟨first ++ second, ?_⟩
  rw [hSecond, hFirst, ByteArray.append_assoc]

/- A step that takes back nothing of what was written. -/
def Grows : StepProperty :=
  Leads fun m m' => m.sink.Extends m'.sink

/- No program takes back what was written. -/
theorem grows_compositional :
    Pointwise Grows Grows where
  outerSeq := leads_sequential (fun m => .refl m.sink) .trans
  innerSeq := leads_sequential (fun m => .refl m.sink) .trans
  weaken := fun h => h
  lookup := by
    intro name m
    unfold Eval.after Eval.lookup
    cases m.env.get? name with
    | none => exact .refl m.sink
    | some v => exact .refl m.sink
  newFunction := fun _ m => .refl m.sink
  print := by
    intro text m
    have hWrite : m.sink.Extends (m.sink.write text).2 := ⟨_, rfl⟩
    unfold Eval.after Eval.print
    rcases hx : m.sink.write text with ⟨done, sink⟩
    rw [hx] at hWrite
    cases done with
    | true => exact hWrite
    | false => exact hWrite
  assign := fun _ _ m => .refl m.sink
  define := fun _ _ m => .refl m.sink
  inScope := by
    intro α body s h m
    change m.sink.Extends (End.state (Eval.inScope s body m)).sink
    rw [Eval.inScope_apply, End.sink_popScope]
    exact h (m.push s)
  deeper := by
    intro α body h m
    change m.sink.Extends (End.state (Eval.deeper body m)).sink
    rw [Eval.deeper_apply, End.sink_leaveCall]
    exact h { m with depth := m.depth + 1 }
  outerChoose := leads_choose
  innerChoose := leads_choose

------------------------------------------------------------
-- Two machines
------------------------------------------------------------

/-
  How the first of two machines is restricted: what holds of
  the sinks while both take the same steps, what holds of them
  once the first was stopped, the errors that stop it, and how
  many calls may be inside one another on each of them.
-/
structure Restriction where
  level : Sink → Sink → Prop
  behind : Sink → Sink → Prop
  stops : RuntimeError → Prop
  low : Nat
  high : Nat

namespace Restriction

variable {c : Restriction}
variable {α β : Type}

/- The machines differ in what the first may use up only. -/
structure InStep
    (c : Restriction)
    (m n : Machine) : Prop where
  env : n.env = m.env
  calls : n.depth = m.depth
  identity : n.nextIdentity = m.nextIdentity
  sink : c.level m.sink n.sink
  low : m.maxDepth = c.low
  high : n.maxDepth = c.high

/- Both end in the same way, or the first was stopped. -/
inductive Agree
    (c : Restriction) : End α → End α → Prop where
  | ok
      {m n : Machine}
      (a : α)
      (hStep : c.InStep m n) :
      Agree c (.ok a m) (.ok a n)
  | error
      {m n : Machine}
      (x : RuntimeError)
      (hStep : c.InStep m n) :
      Agree c (.error x m) (.error x n)
  | stopped
      {m : Machine}
      {x : RuntimeError}
      {r : End α}
      (hStops : c.stops x)
      (hBehind : c.behind m.sink r.state.sink) :
      Agree c (.error x m) r

/- A step that is the same on both machines unless one is stopped. -/
structure Follows
    (c : Restriction)
    (α : Type)
    (x : Eval α) : Prop where
  grows : Grows α x
  agree : ∀ m n, c.InStep m n → c.Agree (x m) (x n)

/-
  A restriction that stops the first machine at once where it
  falls behind.
-/
structure Fair
    (c : Restriction) : Prop where
  write :
    ∀ {s t : Sink} (text : String), c.level s t →
      (s.write text).1 = (t.write text).1 ∧
          c.level (s.write text).2 (t.write text).2 ∨
        (s.write text).1 = false ∧ c.stops .outputFull ∧
          c.behind (s.write text).2 (t.write text).2
  grow :
    ∀ {s t u : Sink}, c.behind s t → t.Extends u → c.behind s u
  calls :
    c.low = c.high ∨
      c.low < c.high ∧ c.stops (.stackOverflow c.low) ∧
        ∀ {s t : Sink}, c.level s t → c.behind s t

------------------------------------------------------------
-- Changes of both machines
------------------------------------------------------------

/- The same change of the scopes. -/
theorem InStep.mapEnv
    {m n : Machine}
    (h : c.InStep m n)
    (f : Environment → Environment) :
    c.InStep { m with env := f m.env } { n with env := f n.env } :=
  ⟨congrArg f h.env, h.calls, h.identity, h.sink, h.low, h.high⟩

/- The same change of the number of open calls. -/
theorem InStep.mapDepth
    {m n : Machine}
    (h : c.InStep m n)
    (f : Nat → Nat) :
    c.InStep { m with depth := f m.depth }
      { n with depth := f n.depth } :=
  ⟨h.env, congrArg f h.calls, h.identity, h.sink, h.low, h.high⟩

theorem Agree.popScope
    {r s : End α}
    (h : c.Agree r s) :
    c.Agree r.popScope s.popScope := by
  cases h with
  | ok a hStep => exact .ok a (hStep.mapEnv Environment.pop)
  | error x hStep => exact .error x (hStep.mapEnv Environment.pop)
  | stopped hStops hBehind =>
      exact .stopped hStops ((End.sink_popScope s).symm ▸ hBehind)

theorem Agree.leaveCall
    {r s : End α}
    (h : c.Agree r s) :
    c.Agree r.leaveCall s.leaveCall := by
  cases h with
  | ok a hStep => exact .ok a (hStep.mapDepth (· - 1))
  | error x hStep => exact .error x (hStep.mapDepth (· - 1))
  | stopped hStops hBehind =>
      exact .stopped hStops ((End.sink_leaveCall s).symm ▸ hBehind)

/- What is done behind an answer takes back nothing. -/
theorem extends_andThen
    (r : End α)
    {next : α → Eval β}
    (h : ∀ a, Grows β (next a)) :
    r.state.sink.Extends (r.andThen next).state.sink := by
  cases r with
  | ok a m => exact h a m
  | error e m => exact .refl m.sink

/- The same steps behind the same answers. -/
theorem Fair.andThen
    (hFair : c.Fair)
    {r s : End α}
    {next : α → Eval β}
    (h : c.Agree r s)
    (hNext : ∀ a, c.Follows β (next a)) :
    c.Agree (r.andThen next) (s.andThen next) := by
  cases h with
  | ok a hStep => exact (hNext a).agree _ _ hStep
  | error x hStep => exact .error x hStep
  | stopped hStops hBehind =>
      exact .stopped hStops (hFair.grow hBehind
        (extends_andThen s fun a => (hNext a).grows))

------------------------------------------------------------
-- Steps on both machines
------------------------------------------------------------

/- Writing is the same, or the first machine has no room for it. -/
theorem Fair.print
    (hFair : c.Fair)
    (text : String) :
    c.Follows Unit (Eval.print text) := by
  refine ⟨grows_compositional.print text, ?_⟩
  intro m n hStep
  have hWrite := hFair.write text hStep.sink
  unfold Eval.print
  rcases hs : m.sink.write text with ⟨done, s⟩
  rcases ht : n.sink.write text with ⟨done', t⟩
  rw [hs, ht] at hWrite
  have hSame : c.level s t →
      c.InStep { m with sink := s } { n with sink := t } :=
    fun hLevel => ⟨hStep.env, hStep.calls, hStep.identity, hLevel,
      hStep.low, hStep.high⟩
  rcases hWrite with ⟨hDone, hLevel⟩ | ⟨hDone, hStops, hBehind⟩
  · rcases hDone with rfl
    cases done with
    | true => exact .ok () (hSame hLevel)
    | false => exact .error _ (hSame hLevel)
  · rcases hDone with rfl
    refine .stopped hStops ?_
    cases done' with
    | true => exact hBehind
    | false => exact hBehind

/- Every step of a program is the same unless one is stopped. -/
theorem Fair.compositional
    (hFair : c.Fair) :
    Compositional c.Follows c.Follows := by
  have hSeq : Sequential c.Follows :=
    { pure := fun a => ⟨grows_compositional.outerSeq.pure a,
        fun _ _ hStep => .ok a hStep⟩
      throw := fun x => ⟨grows_compositional.outerSeq.throw x,
        fun _ _ hStep => .error x hStep⟩
      bind := by
        intro α β x f hFirst hNext
        refine ⟨grows_compositional.outerSeq.bind hFirst.grows
          fun a => (hNext a).grows, ?_⟩
        intro m n hStep
        rw [Eval.bind_apply, Eval.bind_apply]
        exact hFair.andThen (hFirst.agree m n hStep) hNext }
  exact
    { outerSeq := hSeq
      innerSeq := hSeq
      weaken := fun h => h
      lookup := by
        intro name
        refine ⟨grows_compositional.lookup name, ?_⟩
        intro m n hStep
        unfold Eval.lookup
        rw [hStep.env]
        cases m.env.get? name with
        | none => exact .error _ hStep
        | some v => exact .ok v hStep
      newFunction := by
        intro f
        refine ⟨grows_compositional.newFunction f, ?_⟩
        intro m n hStep
        unfold Eval.newFunction
        rw [hStep.identity]
        exact .ok _ ⟨hStep.env, hStep.calls, rfl, hStep.sink,
          hStep.low, hStep.high⟩
      print := hFair.print
      assign := fun name value =>
        ⟨grows_compositional.assign name value,
          fun _ _ hStep => .ok () (hStep.mapEnv (·.assign name value))⟩
      define := fun name value =>
        ⟨grows_compositional.define name value,
          fun _ _ hStep => .ok () (hStep.mapEnv (·.define name value))⟩
      inScope := by
        intro α body s h
        refine ⟨grows_compositional.inScope s h.grows, ?_⟩
        intro m n hStep
        rw [Eval.inScope_apply, Eval.inScope_apply]
        exact (h.agree _ _ (hStep.mapEnv (·.push s))).popScope
      deeper := by
        intro α body h
        refine ⟨grows_compositional.deeper h.grows, ?_⟩
        intro m n hStep
        rw [Eval.deeper_apply, Eval.deeper_apply]
        exact (h.agree _ _ (hStep.mapDepth (· + 1))).leaveCall }

------------------------------------------------------------
-- Calls and runs
------------------------------------------------------------

/- Where the first machine may not open a call, it is stopped. -/
theorem Fair.overflow
    (hFair : c.Fair)
    {m n : Machine}
    {r : End Value}
    (hStep : c.InStep m n)
    (hGrows : n.sink.Extends r.state.sink)
    (hLimit : c.low = c.high →
      r = .error (.stackOverflow n.maxDepth) n) :
    c.Agree (.error (.stackOverflow m.maxDepth) m) r := by
  rcases hFair.calls with hEq | ⟨_, hStops, hBehind⟩
  · rw [hLimit hEq, hStep.low, hEq, ← hStep.high]
    exact .error _ hStep
  · rw [hStep.low]
    exact .stopped hStops (hFair.grow (hBehind hStep.sink) hGrows)

/- Calls, by how many may still be inside one another. -/
theorem Fair.callFunction
    (hFair : c.Fair)
    (room : Nat)
    (f : Function)
    (args : List Value) :
    c.Follows Value (callFunction room f args) := by
  induction room generalizing f args with
  | zero =>
      have hGrows := grows_compositional.callFunction 0 f args
      refine ⟨hGrows, ?_⟩
      intro m n hStep
      by_cases hArity : f.params.length = args.length
      · rw [callFunction_zero hArity]
        exact hFair.overflow hStep (hGrows n)
          fun _ => callFunction_zero hArity n
      · rw [callFunction_arity 0 hArity, callFunction_arity 0 hArity]
        exact .error _ hStep
  | succ room ih =>
      have hGrows := grows_compositional.callFunction (room + 1) f args
      refine ⟨hGrows, ?_⟩
      intro m n hStep
      by_cases hArity : f.params.length = args.length
      · by_cases hDeep : m.maxDepth ≤ m.depth
        · rw [callFunction_overflow _ hArity hDeep]
          apply hFair.overflow hStep (hGrows n)
          intro hEq
          apply callFunction_overflow _ hArity
          rw [hStep.high, hStep.calls, ← hEq, ← hStep.low]
          exact hDeep
        · -- The second machine may open the call all the more.
          have hOpen : n.depth < n.maxDepth := by
            have hLow := hStep.low
            have hHigh := hStep.high
            have hCalls := hStep.calls
            rcases hFair.calls with hEq | ⟨hLt, _⟩ <;> omega
          rw [callFunction_succ room hArity (Nat.lt_of_not_le hDeep),
            callFunction_succ room hArity hOpen]
          exact (hFair.compositional.runBody ih f args).agree m n hStep
      · rw [callFunction_arity _ hArity, callFunction_arity _ hArity]
        exact .error _ hStep

/- What both hosts get. -/
theorem Agree.conclude
    {r s : End α}
    (value : α → Value)
    (h : c.Agree r s) :
    (r.conclude value).1 = (s.conclude value).1 ∧
        c.InStep (r.conclude value).2 (s.conclude value).2 ∨
      ∃ x, c.stops x ∧ (r.conclude value).1 = .error x ∧
        c.behind (r.conclude value).2.sink (s.conclude value).2.sink := by
  cases h with
  | ok a hStep => exact .inl ⟨rfl, hStep⟩
  | error x hStep => exact .inl ⟨rfl, hStep⟩
  | stopped hStops hBehind =>
      refine .inr ⟨_, hStops, rfl, ?_⟩
      cases s with
      | ok a n => exact hBehind
      | error e n => exact hBehind

/-
  A program ends alike on both machines, or the first machine
  is stopped and falls behind.
-/
theorem Fair.run
    (hFair : c.Fair)
    {m n : Machine}
    (hStep : c.InStep m n)
    (b : Block) :
    (m.run b).1 = (n.run b).1 ∧ c.InStep (m.run b).2 (n.run b).2 ∨
      ∃ x, c.stops x ∧ (m.run b).1 = .error x ∧
        c.behind (m.run b).2.sink (n.run b).2.sink := by
  -- Both are given the room of both, so that they run the same steps.
  have hLow : m.room ≤ m.room + n.room := Nat.le_add_right _ _
  have hHigh : n.room ≤ m.room + n.room := Nat.le_add_left _ _
  rw [m.run_eq, n.run_eq, ← Job.runWithin_eq_run _ hLow,
    ← Job.runWithin_eq_run _ hHigh]
  have hSeq := hFair.compositional.execFrom
    (hFair.callFunction (m.room + n.room)) .nil b
  exact (hSeq.agree m n hStep).conclude Flow.value

end Restriction

/- A program takes back nothing of what was written before it. -/
theorem Machine.extends_run
    (m : Machine)
    (b : Block) :
    m.sink.Extends (m.run b).2.sink := by
  rw [Machine.run, Machine.step_snd]
  exact grows_compositional.runBlock b m

end DynScript
