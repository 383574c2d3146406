import DynScript.Proofs.Eval.Operator
import DynScript.Proofs.Eval.Termination
import DynScript.Proofs.Value.Contents

/-
  Where functions come from. The functions that were made are
  kept in a log, each at the place of its identity. All that a
  machine holds is in the log: a definition appends to it, and
  everything else hands on values that are there already. So it
  is at every moment of a run, for what is bound and for what is
  still in hand.

  Key definitions include:
    * `Value.IsMade`
    * `Accounted`
    * `Yields`
    * `Waits`
    * `Underway`

  Main statements include:
    * `Yields.andThen`
    * `Ends.accounted`
    * `Asks.accounted`
    * `Underway.accounted`
-/

namespace DynScript

------------------------------------------------------------
-- The log of functions
------------------------------------------------------------

/- A function value is the one that was made at its identity. -/
def Value.IsMade
    (made : List Function) : Value → Prop
  | .function identity f => made[identity]? = some f
  | _ => True

/-
  The functions that a machine has bound and those that are held
  beside it were made, and the next identity is behind the log.
-/
structure Accounted
    (made : List Function)
    (m : Machine)
    (held : Set Value) : Prop where
  supply : m.nextIdentity = made.length
  bound : ∀ v ∈ m.env.values, v.IsMade made
  held : ∀ v ∈ held, v.IsMade made

section Logs

variable {made made' : List Function}
variable {m : Machine}
variable {held held' : Set Value}
variable {v : Value}

theorem Value.isMade_of_kind
    (h : v.kind ≠ .function) :
    v.IsMade made := by
  cases v with
  | function i f => exact absurd rfl h
  | int | float | bool | str | nil => trivial

/- What was made stays so when more is made. -/
theorem Value.IsMade.mono
    (hLog : made <+: made')
    (h : v.IsMade made) :
    v.IsMade made' := by
  cases v with
  | function i f =>
      rcases hLog with ⟨more, rfl⟩
      have hPlace := (List.getElem?_eq_some_iff.mp h).1
      exact (List.getElem?_append_left hPlace).trans h
  | int | float | bool | str | nil => trivial

namespace Accounted

theorem subset
    (h : Accounted made m held)
    (hSubset : held' ⊆ held) :
    Accounted made m held' :=
  ⟨h.supply, h.bound, fun v hv => h.held v (hSubset hv)⟩

/- More that was made is held. -/
theorem hold
    (h : Accounted made m held)
    (hMore : ∀ v ∈ held', v.IsMade made) :
    Accounted made m (held ∪ held') :=
  ⟨h.supply, h.bound, fun v hv => hv.elim (h.held v) (hMore v)⟩

/- Scopes are changed, and what they hold was made. -/
theorem withEnv
    {m' : Machine}
    (h : Accounted made m held)
    (hIdentity : m'.nextIdentity = m.nextIdentity)
    (hEnv : ∀ v ∈ m'.env.values, v.IsMade made) :
    Accounted made m' held :=
  ⟨hIdentity.trans h.supply, hEnv, h.held⟩

/- A scope is stacked. -/
theorem push
    {s : Scope}
    (h : Accounted made m held)
    (hScope : ∀ v ∈ s.values, v.IsMade made) :
    Accounted made (m.push s) held := by
  refine ⟨h.supply, ?_, h.held⟩
  intro v hv
  rw [Machine.push, Environment.values_push] at hv
  exact hv.elim (hScope v) (h.bound v)

/- A function is made. It takes the next place in the log. -/
theorem make
    (f : Function)
    (h : Accounted made m held) :
    Accounted (made ++ [f])
      { m with nextIdentity := m.nextIdentity + 1 }
      (held ∪ {.function m.nextIdentity f}) := by
  have hLog : made <+: made ++ [f] := List.prefix_append made [f]
  have hNew : (Value.function m.nextIdentity f).IsMade (made ++ [f]) := by
    rw [h.supply]
    exact List.getElem?_concat_length
  refine ⟨?_, fun v hv => (h.bound v hv).mono hLog, ?_⟩
  · rw [List.length_append, ← h.supply]
    rfl
  · rintro v (hOld | rfl)
    · exact (h.held v hOld).mono hLog
    · exact hNew

end Accounted

end Logs

------------------------------------------------------------
-- Ends and the log
------------------------------------------------------------

/- The values that an end gives. -/
def End.given
    {α : Type}
    (values : α → Set Value) : End α → Set Value
  | .ok a _ => values a
  | .error _ _ => ∅

/- An end leaves a longer log, in which its state and values are. -/
def Yields
    {α : Type}
    (made : List Function)
    (values : α → Set Value)
    (r : End α) : Prop :=
  ∃ made', made <+: made' ∧
    Accounted made' r.state (r.given values)

namespace Yields

variable {α β : Type}
variable {made made' : List Function}
variable {values : α → Set Value}
variable {values' : β → Set Value}
variable {m : Machine}

theorem ok
    {a : α}
    (h : Accounted made m (values a)) :
    Yields made values (.ok a m) :=
  ⟨made, List.prefix_rfl, h⟩

/- A value that is no function is in every log. -/
theorem data
    {held : Set Value}
    {a : α}
    {v : Value}
    (h : Accounted made m held)
    (hGiven : values a = {v})
    (hData : v.kind ≠ .function) :
    Yields made values (.ok a m) := by
  refine .ok ⟨h.supply, h.bound, ?_⟩
  rw [hGiven]
  rintro w rfl
  exact Value.isMade_of_kind hData

theorem error
    {held : Set Value}
    {e : RuntimeError}
    (h : Accounted made m held) :
    Yields made values (.error e m : End α) :=
  ⟨made, List.prefix_rfl, h.subset (Set.empty_subset _)⟩

theorem weaken
    {r : End α}
    (hLog : made <+: made')
    (h : Yields made' values r) :
    Yields made values r := by
  rcases h with ⟨made₂, hLog₂, hAccounted⟩
  exact ⟨made₂, hLog.trans hLog₂, hAccounted⟩

/- A step behind an end may count on the values of the end. -/
theorem andThen
    {r : End α}
    {next : α → Eval β}
    (h : Yields made values r)
    (hNext : ∀ made' a m', made <+: made' →
      Accounted made' m' (values a) →
      Yields made' values' (next a m')) :
    Yields made values' (r.andThen next) := by
  rcases h with ⟨made', hLog, hAccounted⟩
  cases r with
  | ok a m' => exact (hNext made' a m' hLog hAccounted).weaken hLog
  | error e m' => exact ⟨made', hLog, hAccounted⟩

theorem popScope
    {r : End α}
    (h : Yields made values r) :
    Yields made values r.popScope := by
  rcases h with ⟨made', hLog, hAccounted⟩
  refine ⟨made', hLog, ?_⟩
  cases r with
  | ok a m' =>
      exact hAccounted.withEnv rfl fun v hv =>
        hAccounted.bound v (Environment.values_pop_subset _ hv)
  | error e m' =>
      exact hAccounted.withEnv rfl fun v hv =>
        hAccounted.bound v (Environment.values_pop_subset _ hv)

theorem leaveCall
    {r : End α}
    (h : Yields made values r) :
    Yields made values r.leaveCall := by
  rcases h with ⟨made', hLog, hAccounted⟩
  refine ⟨made', hLog, ?_⟩
  cases r with
  | ok a m' => exact hAccounted.withEnv rfl hAccounted.bound
  | error e m' => exact hAccounted.withEnv rfl hAccounted.bound

/- An operator gives a number or a truth value. -/
theorem ofExcept
    {x : Except RuntimeError Value}
    {held : Set Value}
    (h : Accounted made m held)
    (hKind : ∀ v, x = .ok v →
      v.kind = .int ∨ v.kind = .float ∨ v.kind = .bool) :
    Yields made (fun v => {v}) (Eval.ofExcept x m) := by
  cases x with
  | ok v =>
      refine .data h rfl ?_
      rcases hKind v rfl with hv | hv | hv <;> rw [hv] <;> nofun
  | error e => exact Yields.error h

/- Output changes no binding. -/
theorem print
    {held : Set Value}
    (text : String)
    (h : Accounted made m held) :
    Yields made (fun _ => ∅) (Eval.print text m) := by
  have hSink : ∀ sink, Accounted made { m with sink } held :=
    fun sink => h.withEnv rfl h.bound
  unfold Eval.print
  rcases m.sink.write text with ⟨written, sink⟩
  cases written with
  | true => exact Yields.ok ((hSink sink).subset (Set.empty_subset _))
  | false => exact Yields.error (hSink sink)

theorem printAll
    {held : Set Value}
    (texts : List String)
    (h : Accounted made m held) :
    Yields made (fun _ => ∅) (Eval.printAll texts m) := by
  induction texts generalizing made m held with
  | nil => exact Yields.ok (h.subset (Set.empty_subset _))
  | cons text texts ih =>
      rw [Eval.printAll, Eval.bind_apply]
      exact (Yields.print text h).andThen fun made' _ m' _ hNow => ih hNow

theorem builtin
    {held : Set Value}
    (b : Builtin)
    (args : List Value)
    (h : Accounted made m held) :
    Yields made (fun v => {v}) (b.call args m) := by
  rw [Builtin.call, Eval.bind_apply]
  apply (Yields.printAll _ h).andThen
  intro made' _ m' _ hAccounted
  exact .data hAccounted rfl nofun

end Yields

------------------------------------------------------------
-- Jobs and the log
------------------------------------------------------------

/- The values that a job is given. -/
def Job.values : Job → Set Value
  | .seq last _ => {last}
  | .call _ vs => {v | v ∈ vs}
  | _ => ∅

/- The values in the answer of a job. -/
def Job.answered : (j : Job) → j.Answer → Set Value
  | .expr _ => fun v => {v}
  | .args _ => fun vs => {v | v ∈ vs}
  | .stmt _ => fun flow => {flow.value}
  | .seq _ _ => fun flow => {flow.value}
  | .call _ _ => fun v => {v}

section Blocks

variable {made : List Function}
variable {m : Machine}
variable {held : Set Value}

/- Statements start with no value before them. -/
theorem Accounted.body
    (h : Accounted made m held)
    (b : Block) :
    Accounted made m (Job.seq .nil b).values := by
  refine ⟨h.supply, h.bound, ?_⟩
  rintro v rfl
  trivial

/- A branch starts with an empty scope. -/
theorem Accounted.branch
    (h : Accounted made m held)
    (b : Block) :
    Accounted made (m.push .empty) (Job.seq .nil b).values := by
  apply (h.push ?_).body
  intro v hv
  rw [Scope.values_empty] at hv
  exact absurd hv (Set.notMem_empty v)

/- A call starts with its arguments as the values of parameters. -/
theorem Accounted.enter
    {f : Function}
    {args : List Value}
    (h : Accounted made m (Job.call f args).values) :
    Accounted made (m.enter f args) (Job.seq .nil f.body).values := by
  have hBody := h.body f.body
  refine ⟨hBody.supply, ?_, hBody.held⟩
  intro v hv
  rw [Machine.enter, Environment.values_push] at hv
  rcases hv with hParam | hOuter
  · have hPair := Scope.values_ofPairs_subset _ hParam
    rcases List.mem_map.mp hPair with ⟨p, hMem, rfl⟩
    exact h.held _ (List.of_mem_zip hMem).2
  · exact h.bound v hOuter

end Blocks

/-
  Whatever ends a job, its state and its answer are in a log
  that continues the one from before. By induction on the rules.
-/
theorem Ends.accounted
    {j : Job}
    {m : Machine}
    {r : End j.Answer}
    {made : List Function}
    (h : Ends j m r)
    (hStart : Accounted made m j.values) :
    Yields made j.answered r := by
  induction h generalizing made with
  | int i m => exact .data hStart rfl nofun
  | float x m => exact .data hStart rfl nofun
  | str s m => exact .data hStart rfl nofun
  | bool b m => exact .data hStart rfl nofun
  | nil m => exact .data hStart rfl nofun
  | var name m =>
      unfold Eval.lookup
      cases hBound : m.env.get? name with
      | none => exact .error hStart
      | some v =>
          refine .ok ⟨hStart.supply, hStart.bound, ?_⟩
          rintro w rfl
          exact hStart.bound w (Environment.mem_values_of_get? hBound)
  | unary _ ih =>
      refine (ih hStart).andThen fun made' v m' _ hNow => ?_
      exact .ofExcept hNow fun w => kind_of_evalUnary
  | leftFault _ ih => exact ih hStart
  | leftDecides _ hShort ih =>
      rcases ih hStart with ⟨made', hLog, hNow⟩
      refine .weaken hLog (.data hNow rfl ?_)
      rw [kind_of_shortCircuit? hShort]
      nofun
  | binary _ _ _ ihLeft ihRight =>
      rcases ihLeft hStart with ⟨made₁, hLog, hNow⟩
      refine .weaken hLog ?_
      refine (ihRight (hNow.subset (Set.empty_subset _))).andThen
        fun made' b m' _ hThen => ?_
      exact .ofExcept hThen fun w => kind_of_evalBinary
  | builtin _ _ ih =>
      exact (ih hStart).andThen fun made' vs m' _ hNow =>
        .builtin _ vs hNow
  | noCallee _ _ => exact .error hStart
  | callFault _ _ _ ih => exact ih hStart
  | call _ _ _ _ ihArgs ihCall =>
      rcases ihArgs hStart with ⟨made₁, hLog, hNow⟩
      exact (ihCall hNow).weaken hLog
  | argsNil m =>
      exact .ok ⟨hStart.supply, hStart.bound, fun v hv => nomatch hv⟩
  | argFault _ ih => exact ih hStart
  | argsCons _ _ ihFirst ihOthers =>
      rcases ihFirst hStart with ⟨made₁, hLog, hNow⟩
      refine .weaken hLog ?_
      refine (ihOthers (hNow.subset (Set.empty_subset _))).andThen
        fun made' vs m' hMore hThen => ?_
      refine .ok ⟨hThen.supply, hThen.bound, ?_⟩
      intro v hv
      rcases List.mem_cons.mp hv with rfl | hOther
      · exact (hNow.held v rfl).mono hMore
      · exact hThen.held v hOther
  | assign _ ih =>
      refine (ih hStart).andThen fun made' v m' _ hNow => ?_
      refine .data (hNow.withEnv rfl ?_) rfl nofun
      intro w hw
      rcases m'.env.values_assign_subset _ v hw with rfl | hOld
      · exact hNow.held w rfl
      · exact hNow.bound w hOld
  | testFault _ ih => exact ih hStart
  | testNoBool _ _ ih =>
      rcases ih hStart with ⟨made', hLog, hNow⟩
      exact .weaken hLog (.error hNow)
  | yes _ _ ihTest ihYes =>
      rcases ihTest hStart with ⟨made₁, hLog, hNow⟩
      exact (ihYes (hNow.branch _)).popScope.weaken hLog
  | no _ _ ihTest ihNo =>
      rcases ihTest hStart with ⟨made₁, hLog, hNow⟩
      exact (ihNo (hNow.branch _)).popScope.weaken hLog
  | noElse _ ih =>
      rcases ih hStart with ⟨made', hLog, hNow⟩
      exact .weaken hLog (.data hNow rfl nofun)
  | function name params body m =>
      have hMade := hStart.make ⟨name, params, body⟩
      refine .weaken (List.prefix_append made _)
        (.data (hMade.withEnv rfl ?_) rfl nofun)
      intro v hv
      rcases m.env.values_define_subset _ _ hv with rfl | hOld
      · exact hMade.held _ (.inr rfl)
      · exact hMade.bound v hOld
  | retNone m => exact .data hStart rfl nofun
  | ret _ ih =>
      exact (ih hStart).andThen fun made' v m' _ hNow => .ok hNow
  | expr _ ih =>
      exact (ih hStart).andThen fun made' v m' _ hNow => .ok hNow
  | seqNil last m => exact .ok hStart
  | seqFault _ ih => exact ih (hStart.subset (Set.empty_subset _))
  | seqRet _ ih => exact ih (hStart.subset (Set.empty_subset _))
  | seqNext _ _ ihFirst ihOthers =>
      rcases ihFirst (hStart.subset (Set.empty_subset _)) with
        ⟨made₁, hLog, hNow⟩
      exact (ihOthers hNow).weaken hLog
  | arity m _ => exact .error hStart
  | overflow _ _ => exact .error hStart
  | body _ _ _ ih =>
      refine (ih hStart.enter).popScope.leaveCall.andThen
        fun made' flow m' _ hNow => .ok ⟨hNow.supply, hNow.bound, ?_⟩
      rintro w rfl
      cases flow with
      | ret v => exact hNow.held v rfl
      | next v => trivial

------------------------------------------------------------
-- Jobs under way
------------------------------------------------------------

/-
  What a job asks for starts in a longer log, and what it is
  given is in the log.
-/
theorem Asks.accounted
    {j j' : Job}
    {m m' : Machine}
    {made : List Function}
    (h : Asks j m j' m')
    (hStart : Accounted made m j.values) :
    ∃ made', made <+: made' ∧ Accounted made' m' j'.values := by
  have hNone {j : Job} {held : Set Value}
      (h : Accounted made m held)
      (hValues : j.values = ∅) :
      ∃ made', made <+: made' ∧ Accounted made' m j.values :=
    ⟨made, List.prefix_rfl, h.subset (hValues ▸ Set.empty_subset _)⟩
  cases h with
  | operand | left | builtinArgs | callArgs => exact hNone hStart rfl
  | firstArg | assigned | test => exact hNone hStart rfl
  | returned | expr | firstStmt => exact hNone hStart rfl
  | right right hLeft _ =>
      rcases hLeft.accounted hStart with ⟨made', hLog, hNow⟩
      exact ⟨made', hLog, hNow.subset (Set.empty_subset _)⟩
  | call _ _ hArgs => exact hArgs.accounted hStart
  | otherArgs es hFirst =>
      rcases hFirst.accounted hStart with ⟨made', hLog, hNow⟩
      exact ⟨made', hLog, hNow.subset (Set.empty_subset _)⟩
  | yes yes no hTest =>
      rcases hTest.accounted hStart with ⟨made', hLog, hNow⟩
      exact ⟨made', hLog, hNow.branch yes⟩
  | no yes no hTest =>
      rcases hTest.accounted hStart with ⟨made', hLog, hNow⟩
      exact ⟨made', hLog, hNow.branch no⟩
  | otherStmts last ss hFirst =>
      exact hFirst.accounted (hStart.subset (Set.empty_subset _))
  | body _ _ => exact ⟨made, List.prefix_rfl, hStart.enter⟩

/-
  A job waits for another one and keeps values meanwhile: the
  left operand, the function that is going to be called, the
  argument before the others, and all that it was given.
-/
inductive Waits : Job → Machine → Set Value → Job → Machine → Prop where
  | left
      {op : BinaryOp} {left : Expr} (right : Expr) {m m' : Machine}
      {a : Value}
      (hLeft : Ends (.expr left) m (.ok a m'))
      (hShort : shortCircuit? op a = none) :
      Waits (.expr (.binary op left right)) m {a} (.expr right) m'
  | callee
      {name : String} {es : List Expr} {m m' : Machine} {j : Job}
      {v : Value}
      (hName : Builtin.ofName? name = none)
      (hCallee : m.env.get? name = some v)
      (hAsks : Asks (.expr (.call name es)) m j m') :
      Waits (.expr (.call name es)) m {v} j m'
  | arg
      {e : Expr} (es : List Expr) {m m' : Machine} {v : Value}
      (hFirst : Ends (.expr e) m (.ok v m')) :
      Waits (.args (e :: es)) m {v} (.args es) m'
  | given
      {j j' : Job} {m m' : Machine}
      (hAsks : Asks j m j' m') :
      Waits j m j.values j' m'

/- What is kept is in the log, too. -/
theorem Waits.accounted
    {j j' : Job}
    {m m' : Machine}
    {kept : Set Value}
    {made : List Function}
    (h : Waits j m kept j' m')
    (hStart : Accounted made m j.values) :
    ∃ made', made <+: made' ∧ Accounted made' m' (j'.values ∪ kept) := by
  cases h with
  | left right hLeft _ =>
      rcases hLeft.accounted hStart with ⟨made', hLog, hNow⟩
      refine ⟨made', hLog, hNow.subset ?_⟩
      exact Set.union_subset (Set.empty_subset _) Set.Subset.rfl
  | callee _ hCallee hAsks =>
      rcases hAsks.accounted hStart with ⟨made', hLog, hNow⟩
      refine ⟨made', hLog, hNow.hold ?_⟩
      rintro v rfl
      have hBound := Environment.mem_values_of_get? hCallee
      exact (hStart.bound v hBound).mono hLog
  | arg es hFirst =>
      rcases hFirst.accounted hStart with ⟨made', hLog, hNow⟩
      refine ⟨made', hLog, hNow.subset ?_⟩
      exact Set.union_subset (Set.empty_subset _) Set.Subset.rfl
  | given hAsks =>
      rcases hAsks.accounted hStart with ⟨made', hLog, hNow⟩
      exact ⟨made', hLog, hNow.hold fun v hv =>
        (hStart.held v hv).mono hLog⟩

/-
  In the course of a job another one is executed. In hand is
  what was held beside the first job, and what all jobs keep
  that wait for the other one.
-/
inductive Underway
    (top : Job)
    (start : Machine)
    (held : Set Value) : Set Value → Job → Machine → Prop where
  | first :
      Underway top start held held top start
  | later
      {hand kept : Set Value} {j j' : Job} {m m' : Machine}
      (hBefore : Underway top start held hand j m)
      (hWaits : Waits j m kept j' m') :
      Underway top start held (hand ∪ kept) j' m'

/-
  At every moment of a run, all that is bound, given or in hand
  is in the log. By induction on the jobs that wait.
-/
theorem Underway.accounted
    {top j : Job}
    {start m : Machine}
    {held hand : Set Value}
    {made : List Function}
    (h : Underway top start held hand j m)
    (hStart : Accounted made start (top.values ∪ held)) :
    ∃ made', made <+: made' ∧ Accounted made' m (j.values ∪ hand) := by
  induction h with
  | first => exact ⟨made, List.prefix_rfl, hStart⟩
  | later _ hWaits ih =>
      rcases ih with ⟨made₁, hLog₁, hNow⟩
      rcases hWaits.accounted (hNow.subset Set.subset_union_left) with
        ⟨made₂, hLog₂, hThen⟩
      have hHand := hThen.hold fun v hv =>
        (hNow.held v (.inr hv)).mono hLog₂
      refine ⟨made₂, hLog₁.trans hLog₂, hHand.subset ?_⟩
      rintro v (hGiven | hOld | hKept)
      · exact .inl (.inl hGiven)
      · exact .inr hOld
      · exact .inl (.inr hKept)

end DynScript
