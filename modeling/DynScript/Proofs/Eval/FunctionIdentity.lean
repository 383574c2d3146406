import Mathlib.Logic.Relation
import DynScript.Proofs.Eval.Identity
import DynScript.Proofs.Eval.Pieces
import DynScript.Proofs.Syntax.Equality
import DynScript.Proofs.Value.Equality
import DynScript.Proofs.Value.NestedScopes

/-
  What equality says about functions. A host makes functions
  and data, performs operations on a machine with what it
  holds, and holds what it is given. Whatever it does, two
  functions that programs cannot tell apart are the same one,
  a definition makes one that there was not, and functions are
  handed on as they are.

  Key definitions include:
    * `Value.ExistsIn`
    * `Sound`
    * `Host`
    * `Host.Step`
    * `Host.Reachable`
    * `HandsOn`

  Main statements include:
    * `Accounted.sound`
    * `Accounted.perform`
    * `Host.Step.accounted`
    * `Host.Reachable.accounted`
    * `handsOn`
    * `function_identity_sound`
-/

namespace DynScript

------------------------------------------------------------
-- Soundness
------------------------------------------------------------

/- The identity of a function is not up for use any more. -/
def Value.ExistsIn
    (m : Machine) : Value → Prop
  | .function identity _ => identity < m.nextIdentity
  | _ => True

/-
  Of the functions that a machine has bound and those that are
  held beside it, all exist, and two that programs see as equal
  have the same name, parameters and body. Contents of bodies
  are comparable where no literal is an undefined number.
-/
structure Sound
    (m : Machine)
    (held : Set Value) : Prop where
  exist : ∀ v ∈ m.env.values ∪ held, v.ExistsIn m
  same : ∀ i f j g,
    .function i f ∈ m.env.values ∪ held →
    .function j g ∈ m.env.values ∪ held →
    (Value.function i f).looseEq (.function j g) = true →
      f = g ∧
        (f.body.Defined → (Value.function i f == .function j g) = true)

/- A function has the same contents as itself. -/
theorem beq_function
    {f : Function}
    (i j : Nat)
    (h : f.body.Defined) :
    (Value.function i f == .function j f) = true := by
  change (f.name == f.name && f.params == f.params &&
    f.body == f.body) = true
  rw [f.body.beq_self_iff.mpr h, beq_self_eq_true, beq_self_eq_true]
  rfl

section Logs

variable {made made' : List Function}
variable {m m' : Machine}
variable {held held' : Set Value}

/- All that is accounted for was made. -/
theorem Accounted.isMade
    (h : Accounted made m held) :
    ∀ v ∈ m.env.values ∪ held, v.IsMade made :=
  fun v hv => hv.elim (h.bound v) (h.held v)

/- A log has one function at each place. -/
theorem Accounted.sound
    (h : Accounted made m held) :
    Sound m held where
  exist := by
    intro v hv
    cases v with
    | function i f =>
        rw [Value.ExistsIn, h.supply]
        exact (List.getElem?_eq_some_iff.mp (h.isMade _ hv)).1
    | int | float | bool | str | nil => trivial
  same := by
    intro i f j g hf hg hEqual
    have hPlace : i = j := beq_iff_eq.mp hEqual
    have hMade : made[i]? = some f := h.isMade _ hf
    have hMade' : made[j]? = some g := h.isMade _ hg
    rw [← hPlace, hMade] at hMade'
    rcases Option.some.inj hMade' with rfl
    exact ⟨rfl, beq_function i j⟩

/- A longer log has a later end. -/
theorem Accounted.supply_le
    (h : Accounted made m held)
    (h' : Accounted made' m' held')
    (hLog : made <+: made') :
    m.nextIdentity ≤ m'.nextIdentity := by
  rw [h.supply, h'.supply]
  exact hLog.length_le

end Logs

------------------------------------------------------------
-- Operations of a host
------------------------------------------------------------

namespace HostOp

/- The values that an operation is supplied with. -/
def values : HostOp → Set Value
  | .assign _ value => {value}
  | .push s => s.values
  | .runIn s _ => s.values
  | .call _ args => {v | v ∈ args}
  | _ => ∅

/- The values that an operation gives to the host. -/
def results
    (m : Machine) : HostOp → Set Value
  | .run b => {v | (m.run b).1 = .ok v}
  | .pop => {v | ∃ s, m.pop.1 = some s ∧ v ∈ s.values}
  | .runIn s b => {v | (m.runIn s b).1 = .ok v}
  | .call f args => {v | (m.call f args).1 = .ok v}
  | _ => ∅

/- The job of an operation that runs something, and where it starts. -/
def job?
    (m : Machine) : HostOp → Option (Job × Machine)
  | .run b => some (.seq .nil b, m)
  | .runIn s b => some (.seq .nil b, m.push s)
  | .call f args => some (.call f args, m)
  | _ => none

end HostOp

/- Running a program with a scope of its own is a job, too. -/
theorem Machine.runIn_eq
    (m : Machine)
    (s : Scope)
    (b : Block) :
    m.runIn s b =
      ((Job.seq .nil b).run (m.push s)).popScope.conclude Flow.value := by
  have hRun : runBlock b (m.push s) =
      ((Job.seq .nil b).run (m.push s)).andThen fun flow =>
        pure flow.value :=
    Eval.bind_apply _ _ _
  rw [runIn, step, Eval.inScope_apply, hRun]
  cases (Job.seq .nil b).run (m.push s) with
  | ok flow m' => rfl
  | error e m' => rfl

section Operations

variable {made : List Function}
variable {m : Machine}
variable {held : Set Value}

/- What a job gives to the host is in the log. -/
theorem Yields.conclude
    {α : Type}
    {value : α → Value}
    {values : α → Set Value}
    {r : End α}
    (h : Yields made values r)
    (hValue : ∀ a, value a ∈ values a)
    (hHeld : ∀ v ∈ held, v.IsMade made) :
    ∃ made', made <+: made' ∧
      Accounted made' (r.conclude value).2
        (held ∪ {v | (r.conclude value).1 = .ok v}) := by
  rcases h with ⟨made', hLog, hNow⟩
  have hKept : ∀ v ∈ held, v.IsMade made' :=
    fun v hv => (hHeld v hv).mono hLog
  refine ⟨made', hLog, ?_⟩
  cases r with
  | ok a m' =>
      refine ⟨hNow.supply, hNow.bound, ?_⟩
      rintro v (hOld | hGiven)
      · exact hKept v hOld
      · rcases Except.ok.inj hGiven with rfl
        exact hNow.held _ (hValue a)
  | error e m' =>
      refine ⟨hNow.supply, hNow.bound, ?_⟩
      rintro v (hOld | hGiven)
      · exact hKept v hOld
      · cases hGiven

/- The job of an operation starts with what the host supplies. -/
theorem Accounted.job
    {op : HostOp}
    {top : Job}
    {start : Machine}
    (h : Accounted made m held)
    (hSupplied : op.values ⊆ held)
    (hJob : op.job? m = some (top, start)) :
    Accounted made start (top.values ∪ held) := by
  cases op with
  | run b =>
      cases hJob
      exact ⟨h.supply, h.bound, fun v hv =>
        hv.elim ((h.body b).held v) (h.held v)⟩
  | runIn s b =>
      cases hJob
      have hPush : Accounted made (m.push s) held :=
        h.push fun v hv => h.held v (hSupplied hv)
      exact ⟨hPush.supply, hPush.bound, fun v hv =>
        hv.elim ((h.body b).held v) (h.held v)⟩
  | call f args =>
      cases hJob
      exact h.subset (Set.union_subset hSupplied Set.Subset.rfl)
  | assign | push | pop => cases hJob

/- An operation leaves a longer log, in which all that it gives is. -/
theorem Accounted.perform
    (op : HostOp)
    (h : Accounted made m held)
    (hSupplied : op.values ⊆ held) :
    ∃ made', made <+: made' ∧
      Accounted made' (m.perform op) (held ∪ op.results m) := by
  have hJob {top : Job} {start : Machine}
      (hStart : op.job? m = some (top, start)) :
      Yields made top.answered (top.run start) :=
    (ends_run top start).accounted
      ((h.job hSupplied hStart).subset Set.subset_union_left)
  cases op with
  | run b =>
      change ∃ made', made <+: made' ∧ Accounted made' (m.run b).2
        (held ∪ {v | (m.run b).1 = .ok v})
      rw [m.run_eq]
      exact (hJob rfl).conclude (fun _ => rfl) h.held
  | runIn s b =>
      change ∃ made', made <+: made' ∧ Accounted made' (m.runIn s b).2
        (held ∪ {v | (m.runIn s b).1 = .ok v})
      rw [m.runIn_eq]
      exact (hJob rfl).popScope.conclude (fun _ => rfl) h.held
  | call f args =>
      change ∃ made', made <+: made' ∧ Accounted made' (m.call f args).2
        (held ∪ {v | (m.call f args).1 = .ok v})
      rw [m.call_eq]
      exact (hJob rfl).conclude (fun _ => rfl) h.held
  | assign name value =>
      refine ⟨made, List.prefix_rfl, ?_⟩
      change Accounted made (m.assign name value) (held ∪ ∅)
      rw [Set.union_empty]
      refine h.withEnv rfl ?_
      intro v hv
      rcases m.env.values_assign_subset name value hv with hNew | hOld
      · exact h.held v (hSupplied hNew)
      · exact h.bound v hOld
  | push s =>
      refine ⟨made, List.prefix_rfl, ?_⟩
      change Accounted made (m.push s) (held ∪ ∅)
      rw [Set.union_empty]
      exact h.push fun v hv => h.held v (hSupplied hv)
  | pop =>
      refine ⟨made, List.prefix_rfl, ?_⟩
      refine Accounted.hold (h.withEnv rfl ?_) ?_
      · exact fun v hv => h.bound v (m.env.values_pop_subset hv)
      · rintro v ⟨s, hScope, hv⟩
        exact h.bound v (Environment.values_innermost?_subset hScope hv)

end Operations

------------------------------------------------------------
-- Hosts
------------------------------------------------------------

/- A machine and the values that its host holds. -/
structure Host where
  machine : Machine
  held : Set Value

namespace Host

/-
  What a host can do: make data, make a function, take a new
  machine, give the machine another limit and output, look at
  what is bound, or perform an operation with values that it
  holds.
-/
inductive Step : Host → Host → Prop where
  | data
      (m : Machine) (held : Set Value) {v : Value}
      (hData : v.kind ≠ .function) :
      Step ⟨m, held⟩ ⟨m, held ∪ {v}⟩
  | make
      (m : Machine) (held : Set Value) (f : Function) :
      Step ⟨m, held⟩
        ⟨{ m with nextIdentity := m.nextIdentity + 1 },
          held ∪ {.function m.nextIdentity f}⟩
  | renew
      (m : Machine) {held : Set Value} {globals : Scope}
      (maxDepth : Nat) (outLimit : Option Nat)
      (hSupplied : globals.values ⊆ held) :
      Step ⟨m, held⟩
        ⟨.fresh globals maxDepth outLimit m.nextIdentity, held⟩
  | configure
      (m : Machine) (held : Set Value) (maxDepth : Nat) (sink : Sink) :
      Step ⟨m, held⟩ ⟨{ m with maxDepth, sink }, held⟩
  | read
      {m : Machine} (held : Set Value) {v : Value}
      (hBound : v ∈ m.env.values) :
      Step ⟨m, held⟩ ⟨m, held ∪ {v}⟩
  | operate
      (m : Machine) {held : Set Value} {op : HostOp}
      (hSupplied : op.values ⊆ held) :
      Step ⟨m, held⟩ ⟨m.perform op, held ∪ op.results m⟩

/- A host that has done nothing yet. -/
def initial : Host :=
  ⟨.fresh .empty defaultMaxDepth none 0, ∅⟩

/- What a host can come to. -/
def Reachable : Host → Prop :=
  Relation.ReflTransGen Step initial

/- One step of a host leaves a longer log. -/
theorem Step.accounted
    {h h' : Host}
    {made : List Function}
    (hStep : h.Step h')
    (hNow : Accounted made h.machine h.held) :
    ∃ made', made <+: made' ∧ Accounted made' h'.machine h'.held := by
  cases hStep with
  | data m held hData =>
      refine ⟨made, List.prefix_rfl, hNow.hold ?_⟩
      rintro v rfl
      exact Value.isMade_of_kind hData
  | make m held f =>
      exact ⟨made ++ [f], List.prefix_append made [f], hNow.make f⟩
  | renew m maxDepth outLimit hSupplied =>
      refine ⟨made, List.prefix_rfl, hNow.supply, ?_, hNow.held⟩
      intro v hv
      rw [Machine.fresh, Environment.values_ofGlobals] at hv
      exact hNow.held v (hSupplied hv)
  | configure m held maxDepth sink =>
      exact ⟨made, List.prefix_rfl, hNow.withEnv rfl hNow.bound⟩
  | read held hBound =>
      refine ⟨made, List.prefix_rfl, hNow.hold ?_⟩
      rintro v rfl
      exact hNow.bound _ hBound
  | operate m hSupplied => exact hNow.perform _ hSupplied

/- So all that a host holds or has bound was made. -/
theorem Reachable.accounted
    {h : Host}
    (hReachable : h.Reachable) :
    ∃ made, Accounted made h.machine h.held := by
  induction hReachable with
  | refl =>
      refine ⟨[], rfl, ?_, fun v hv => absurd hv (Set.notMem_empty v)⟩
      intro v hv
      change v ∈ (Environment.ofGlobals .empty).values at hv
      rw [Environment.values_ofGlobals, Scope.values_empty] at hv
      exact absurd hv (Set.notMem_empty v)
  | tail _ hStep ih =>
      rcases ih with ⟨made, hNow⟩
      rcases hStep.accounted hNow with ⟨made', _, hThen⟩
      exact ⟨made', hThen⟩

end Host

------------------------------------------------------------
-- New functions
------------------------------------------------------------

/- The next function is unlike all that exist. -/
theorem Value.ExistsIn.looseEq_next
    {m : Machine}
    {w : Value}
    (h : w.ExistsIn m)
    (f : Function) :
    w.looseEq (.function m.nextIdentity f) = false := by
  cases w with
  | function i g =>
      change (i == m.nextIdentity) = false
      exact beq_eq_false_iff_ne.mpr (Nat.ne_of_lt h)
  | int | float | bool | str | nil => rfl

/- A definition binds its name to the next function. -/
theorem exists_run_function
    (m : Machine)
    (name : String)
    (params : List String)
    (body : Block) :
    ∃ i m', (Job.stmt (.function name params body)).run m =
        .ok (.next .nil) m' ∧
      m'.env.get? name = some (.function i ⟨name, params, body⟩) ∧
      (Value.function i ⟨name, params, body⟩).ExistsIn m' ∧
      ∀ w : Value, w.ExistsIn m →
        w.looseEq (.function i ⟨name, params, body⟩) = false := by
  refine ⟨m.nextIdentity, _,
    (ends_iff _ m _).mp (.function name params body m), ?_, ?_, ?_⟩
  · exact m.env.get?_define_self name _
  · exact Nat.lt_succ_self m.nextIdentity
  · exact fun w hw => hw.looseEq_next _

------------------------------------------------------------
-- Values that are handed on
------------------------------------------------------------

/-
  Values are handed on as they are: to the name of an
  assignment, from a name to an expression, through arguments
  to parameters, and from a `return` to whoever called.
-/
structure HandsOn
    (m : Machine) : Prop where
  assigned : ∀ name e v m₁, (Job.expr e).run m = .ok v m₁ →
    ∃ m₂, (Job.stmt (.assign name e)).run m = .ok (.next .nil) m₂ ∧
      m₂.env.get? name = some v
  supplied : ∀ name v, (m.assign name v).env.get? name = some v
  read : ∀ name v, m.env.get? name = some v →
    (Job.expr (.var name)).run m = .ok v m
  arguments : ∀ e es v vs m',
    (Job.args (e :: es)).run m = .ok (v :: vs) m' ↔
      ∃ m₁, (Job.expr e).run m = .ok v m₁ ∧
        (Job.args es).run m₁ = .ok vs m'
  called : ∀ name f es vs m₁, Builtin.ofName? name = none →
    m.callee name = .ok f → (Job.args es).run m = .ok vs m₁ →
      (Job.expr (.call name es)).run m = (Job.call f vs).run m₁
  parameters : ∀ f args front name v back,
    f.params.zip args = front ++ (name, v) :: back →
      (∀ p ∈ back, p.1 ≠ name) →
        (m.enter f args).env.get? name = some v
  returned : ∀ e v m₁, (Job.expr e).run m = .ok v m₁ →
    (Job.stmt (.ret (some e))).run m = .ok (.ret v) m₁
  answered : ∀ f args v m₁, f.params.length = args.length →
    m.depth < m.maxDepth →
      (Job.seq .nil f.body).run (m.enter f args) = .ok (.ret v) m₁ →
        (∃ m₂, (Job.call f args).run m = .ok v m₂) ∧
          (m.call f args).1 = .ok v
  concluded : ∀ b flow m₁, (Job.seq .nil b).run m = .ok flow m₁ →
    (m.run b).1 = .ok flow.value

/- The first of several arguments, and the others behind it. -/
theorem run_args_cons
    (e : Expr)
    (es : List Expr)
    (v : Value)
    (vs : List Value)
    (m m' : Machine) :
    (Job.args (e :: es)).run m = .ok (v :: vs) m' ↔
      ∃ m₁, (Job.expr e).run m = .ok v m₁ ∧
        (Job.args es).run m₁ = .ok vs m' := by
  constructor
  · intro hAll
    generalize hEnd : (.ok (v :: vs) m' : End (List Value)) = r at hAll
    cases (ends_iff (.args (e :: es)) m r).mpr hAll with
    | argFault _ => cases hEnd
    | argsCons hFirst hOthers =>
        rcases End.andThen_eq_ok hEnd.symm with ⟨vs₁, m₁, rfl, hNext⟩
        cases hNext
        exact ⟨_, (ends_iff _ _ _).mp hFirst, (ends_iff _ _ _).mp hOthers⟩
  · rintro ⟨m₁, hFirst, hOthers⟩
    exact (ends_iff (.args (e :: es)) m _).mp (.argsCons
      ((ends_iff _ _ _).mpr hFirst) ((ends_iff _ _ _).mpr hOthers))

/- Each of them says what a rule says. -/
theorem handsOn
    (m : Machine) :
    HandsOn m where
  assigned := by
    intro name e v m₁ hValue
    have hEnds := (ends_iff _ _ _).mpr hValue
    exact ⟨_, (ends_iff (.stmt (.assign name e)) _ _).mp (.assign hEnds),
      m₁.env.get?_assign_self name v⟩
  supplied := m.env.get?_assign_self
  read := by
    intro name v hBound
    change Eval.lookup name m = _
    rw [Eval.lookup, hBound]
  arguments := fun e es v vs m' => run_args_cons e es v vs m m'
  called := by
    intro name f es vs m₁ hName hCallee hArgs
    exact (ends_iff _ _ _).mp (.call hName hCallee
      ((ends_iff _ _ _).mpr hArgs) (ends_run (.call f vs) m₁))
  parameters := by
    intro f args front name v back hPlace hLast
    apply Environment.get?_push_of_get?
    rw [hPlace]
    exact Scope.get?_ofPairs front name v hLast
  returned := by
    intro e v m₁ hValue
    exact (ends_iff _ _ _).mp (.ret ((ends_iff _ _ _).mpr hValue))
  answered := by
    intro f args v m₁ hArity hDeep hBody
    have hCall := (ends_iff _ _ _).mp
      (ends_call_of_returns hArity hDeep ((ends_iff _ _ _).mpr hBody))
    refine ⟨⟨_, hCall⟩, ?_⟩
    rw [m.call_eq, hCall]
    rfl
  concluded := by
    intro b flow m₁ hRun
    rw [m.run_eq, hRun]
    rfl

------------------------------------------------------------
-- Moments of a run
------------------------------------------------------------

section Moments

variable {made : List Function}
variable {m : Machine}
variable {hand : Set Value}
variable {j : Job}

/- Whatever ends a job, what is in hand is in the log behind it. -/
theorem Accounted.run
    (h : Accounted made m (j.values ∪ hand)) :
    ∃ made', made <+: made' ∧
      Accounted made' (j.run m).state
        ((j.run m).given j.answered ∪ hand) := by
  rcases (ends_run j m).accounted (h.subset Set.subset_union_left) with
    ⟨made', hLog, hNow⟩
  exact ⟨made', hLog, hNow.hold fun v hv =>
    (h.held v (.inr hv)).mono hLog⟩

end Moments

/-
  Whatever a host has done with a machine, and at every moment
  of what it does next: of all functions that are bound in
  scopes, held by the host, given as arguments, kept for later
  or given as a result, two that are equal for programs have
  the same definition. No function gets an identity that was up
  for use before, so a definition binds its name to one unlike
  all that have existed, and assignments, arguments and results
  hand on the very same value, which is equal to itself.
-/
theorem function_identity_sound
    {h : Host}
    (hReachable : h.Reachable) :
    Sound h.machine h.held ∧
    (∀ h', h.Step h' →
      h.machine.nextIdentity ≤ h'.machine.nextIdentity) ∧
    (∀ (op : HostOp) top start, op.values ⊆ h.held →
      op.job? h.machine = some (top, start) →
        ∀ hand j m, Underway top start h.held hand j m →
          Sound m (j.values ∪ hand) ∧
          Sound (j.run m).state ((j.run m).given j.answered ∪ hand) ∧
          h.machine.nextIdentity ≤ m.nextIdentity ∧
          m.nextIdentity ≤ (j.run m).state.nextIdentity ∧
          ∀ kept j' m', Waits j m kept j' m' →
            m.nextIdentity ≤ m'.nextIdentity) ∧
    (∀ m name params body, ∃ i m',
      (Job.stmt (.function name params body)).run m =
          .ok (.next .nil) m' ∧
        m'.env.get? name = some (.function i ⟨name, params, body⟩) ∧
        (Value.function i ⟨name, params, body⟩).ExistsIn m' ∧
        ∀ w : Value, w.ExistsIn m →
          w.looseEq (.function i ⟨name, params, body⟩) = false) ∧
    (∀ m, HandsOn m) ∧
    ∀ v : Value, ¬ v.Undefined → v.looseEq v = true := by
  rcases hReachable.accounted with ⟨made, hNow⟩
  refine ⟨hNow.sound, ?_, ?_, exists_run_function, handsOn,
    fun v => Value.looseEq_self_iff.mpr⟩
  · intro h' hStep
    rcases hStep.accounted hNow with ⟨made', hLog, hThen⟩
    exact hNow.supply_le hThen hLog
  · intro op top start hSupplied hJob hand j m hUnderway
    rcases hUnderway.accounted (hNow.job hSupplied hJob) with
      ⟨made₁, hLog₁, hMoment⟩
    rcases hMoment.run with ⟨made₂, hLog₂, hEnd⟩
    refine ⟨hMoment.sound, hEnd.sound, hNow.supply_le hMoment hLog₁,
      hMoment.supply_le hEnd hLog₂, ?_⟩
    intro kept j' m' hWaits
    rcases hWaits.accounted (hMoment.subset Set.subset_union_left) with
      ⟨made₃, hLog₃, hNext⟩
    exact hMoment.supply_le hNext hLog₃

/-
  A function is defined, bound to another name, and defined
  again. The two functions have the same contents, programs can
  tell them apart, and both from one that is defined next.
-/
theorem identity_of_redefinition :
    let f : Function := ⟨"f", [], []⟩
    let m := Host.initial.machine.perform (.run [
      .function "f" [] [],
      .assign "g" (.var "f"),
      .function "f" [] []])
    m.env.get? "f" = some (.function 1 f) ∧
    m.env.get? "g" = some (.function 0 f) ∧
    (Value.function 1 f == .function 0 f) = true ∧
    (Value.function 1 f).looseEq (.function 0 f) = false ∧
    ∃ i m', (Job.stmt (.function "f" [] [])).run m =
        .ok (.next .nil) m' ∧
      (Value.function 1 f).looseEq (.function i f) = false ∧
      (Value.function 0 f).looseEq (.function i f) = false := by
  intro f m
  have hSecond : m.env.get? "f" = some (.function 1 f) := rfl
  have hFirst : m.env.get? "g" = some (.function 0 f) := rfl
  have hReachable : Host.Reachable ⟨m, ∅ ∪ HostOp.results _ (.run _)⟩ :=
    .single (.operate _ (Set.empty_subset ∅))
  rcases function_identity_sound hReachable with
    ⟨hSound, -, -, hDefinition, -, -⟩
  rcases hDefinition m "f" [] [] with ⟨i, m', hRun, -, -, hNew⟩
  have hUnlike : ∀ name v, m.env.get? name = some v →
      v.looseEq (.function i f) = false := by
    intro name v hBound
    apply hNew
    exact hSound.exist v (.inl (Environment.mem_values_of_get? hBound))
  exact ⟨hSecond, hFirst, rfl, rfl, i, m', hRun,
    hUnlike "f" _ hSecond, hUnlike "g" _ hFirst⟩

end DynScript
