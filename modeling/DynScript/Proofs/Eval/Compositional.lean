import DynScript.Eval.Session

/-
  What all steps of a program have in common. A property of
  steps that the primitive steps have and that sequences and
  scopes hand on is a property of every expression, statement
  and call, however they end. There are two properties at
  once: one of what can be seen from outside of a scope, and
  one of what may happen inside of it.

  Key definitions include:
    * `Sequential`
    * `Leads`
    * `Compositional`
    * `Pointwise`

  Main statements include:
    * `Compositional.evalExpr`
    * `Compositional.execStmt`
    * `Pointwise.callFunction`
    * `Pointwise.runBlock`
-/

namespace DynScript

------------------------------------------------------------
-- One call
------------------------------------------------------------

section Call

variable {f : Function}
variable {args : List Value}

/- The wrong number of arguments comes before everything else. -/
theorem callFunction_arity
    (room : Nat)
    (hArity : f.params.length ≠ args.length)
    (m : Machine) :
    callFunction room f args m =
      (throw (.arity f.name f.params.length args.length) :
        Eval Value) m := by
  cases room with
  | zero => exact if_pos hArity
  | succ room => exact if_pos hArity

/- Without room there is no call. -/
theorem callFunction_zero
    (hArity : f.params.length = args.length)
    (m : Machine) :
    callFunction 0 f args m =
      (throw (.stackOverflow m.maxDepth) : Eval Value) m :=
  if_neg (not_not_intro hArity)

/- At the limit there is no call. -/
theorem callFunction_overflow
    {m : Machine}
    (room : Nat)
    (hArity : f.params.length = args.length)
    (hDeep : m.maxDepth ≤ m.depth) :
    callFunction room f args m =
      (throw (.stackOverflow m.maxDepth) : Eval Value) m := by
  cases room with
  | zero => exact callFunction_zero hArity m
  | succ room =>
      exact (if_neg (not_not_intro hArity)).trans (if_pos hDeep)

/- Below the limit the body is run, with less room. -/
theorem callFunction_succ
    {m : Machine}
    (room : Nat)
    (hArity : f.params.length = args.length)
    (hDeep : m.depth < m.maxDepth) :
    callFunction (room + 1) f args m =
      runBody (callFunction room) f args m := by
  have hCall : callFunction (room + 1) f args m =
      onStack m.depth fun _ => runBody (callFunction room) f args m :=
    (if_neg (not_not_intro hArity)).trans
      (if_neg (Nat.not_le_of_lt hDeep))
  rw [hCall, onStack_eq]

end Call

------------------------------------------------------------
-- Properties of steps
------------------------------------------------------------

/- A property of steps, whatever their results are. -/
abbrev StepProperty :=
  (α : Type) → Eval α → Prop

/- A property that sequences of steps inherit. -/
structure Sequential
    (P : StepProperty) : Prop where
  pure : ∀ {α : Type} (a : α), P α (pure a)
  throw : ∀ {α : Type} (e : RuntimeError), P α (throw e)
  bind :
    ∀ {α β : Type} {x : Eval α} {f : α → Eval β},
      P α x → (∀ a, P β (f a)) → P β (x >>= f)

section Leading

variable {R : Machine → Machine → Prop}

/- The state that a step ends in, with or without a value. -/
def Eval.after
    {α : Type}
    (x : Eval α)
    (m : Machine) : Machine :=
  match x m with
  | .ok _ m' => m'
  | .error _ m' => m'

/- A step leads from every state to one that `R` allows. -/
def Leads
    (R : Machine → Machine → Prop) : StepProperty :=
  fun _ x => ∀ m, R m (x.after m)

/- Sequences lead where their steps do one after the other. -/
theorem leads_sequential
    (hRefl : ∀ m, R m m)
    (hTrans : ∀ {m₁ m₂ m₃}, R m₁ m₂ → R m₂ m₃ → R m₁ m₃) :
    Sequential (Leads R) where
  pure := fun _ m => hRefl m
  throw := fun _ m => hRefl m
  bind := by
    intro α β x f hFirst hNext m
    have hStep := hFirst m
    unfold Eval.after at *
    change R m
      (match EStateM.bind x f m with
        | .ok _ m' => m'
        | .error _ m' => m')
    unfold EStateM.bind
    cases hx : x m with
    | ok a m' =>
        rw [hx] at hStep
        exact hTrans hStep (hNext a m')
    | error e m' =>
        rw [hx] at hStep
        exact hStep

/- Only the step that is taken counts. -/
theorem leads_choose
    {α : Type}
    {y : Eval α}
    (h : ∀ m, ∃ x, Leads R α x ∧ y m = x m) :
    Leads R α y := by
  intro m
  rcases h m with ⟨x, hLeads, hEq⟩
  have hStep := hLeads m
  unfold Eval.after at *
  rw [hEq]
  exact hStep

end Leading

/-
  Properties that programs inherit from the primitive steps.
  What is `inner` becomes `outer` by a scope around it.
-/
structure Compositional
    (outer inner : StepProperty) : Prop where
  outerSeq : Sequential outer
  innerSeq : Sequential inner
  weaken : ∀ {α : Type} {x : Eval α}, outer α x → inner α x
  lookup : ∀ name, outer Value (Eval.lookup name)
  newFunction : ∀ f, outer Value (Eval.newFunction f)
  print : ∀ text, outer Unit (Eval.print text)
  assign : ∀ name value, inner Unit (Eval.assign name value)
  define : ∀ name value, inner Unit (Eval.define name value)
  inScope :
    ∀ {α : Type} {body : Eval α} (s : Scope),
      inner α body → outer α (Eval.inScope s body)
  deeper :
    ∀ {α : Type} {body : Eval α},
      outer α body → outer α (Eval.deeper body)

namespace Compositional

variable {outer inner : StepProperty}
variable (h : Compositional outer inner)

------------------------------------------------------------
-- Expressions
------------------------------------------------------------

include h

theorem ofExcept
    {α : Type}
    (r : Except RuntimeError α) :
    outer α (Eval.ofExcept r) := by
  cases r with
  | ok a => exact h.outerSeq.pure a
  | error e => exact h.outerSeq.throw e

theorem printAll
    (texts : List String) :
    outer Unit (Eval.printAll texts) := by
  induction texts with
  | nil => exact h.outerSeq.pure _
  | cons text texts ih =>
      exact h.outerSeq.bind (h.print text) fun _ => ih

theorem builtin
    (b : Builtin)
    (args : List Value) :
    outer Value (b.call args) :=
  h.outerSeq.bind (h.printAll _) fun _ => h.outerSeq.pure _

section Handler

variable {call : CallHandler}

mutual

/- Expressions, when calls have the property. -/
theorem evalExpr
    (hCall : ∀ f args, outer Value (call f args))
    (e : Expr) :
    outer Value (evalExpr call e) := by
  cases e with
  | int i => exact h.outerSeq.pure _
  | float x => exact h.outerSeq.pure _
  | str s => exact h.outerSeq.pure _
  | bool b => exact h.outerSeq.pure _
  | nil => exact h.outerSeq.pure _
  | var name => exact h.lookup name
  | unary op e =>
      exact h.outerSeq.bind (evalExpr hCall e) fun _ => h.ofExcept _
  | binary op l r =>
      rw [DynScript.evalExpr]
      refine h.outerSeq.bind (evalExpr hCall l) fun a => ?_
      cases shortCircuit? op a with
      | some v => exact h.outerSeq.pure v
      | none =>
          exact h.outerSeq.bind (evalExpr hCall r) fun _ => h.ofExcept _
  | call name args =>
      rw [DynScript.evalExpr]
      cases Builtin.ofName? name with
      | some b =>
          exact h.outerSeq.bind (evalArgs hCall args) fun vs =>
            h.builtin b vs
      | none =>
          refine h.outerSeq.bind (h.lookup name) fun v => ?_
          cases v with
          | function _ f =>
              exact h.outerSeq.bind (evalArgs hCall args) fun vs =>
                hCall f vs
          | _ => exact h.outerSeq.throw _

/- Arguments. -/
theorem evalArgs
    (hCall : ∀ f args, outer Value (call f args))
    (es : List Expr) :
    outer (List Value) (evalArgs call es) := by
  cases es with
  | nil => exact h.outerSeq.pure _
  | cons e es =>
      exact h.outerSeq.bind (evalExpr hCall e) fun _ =>
        h.outerSeq.bind (evalArgs hCall es) fun _ => h.outerSeq.pure _

end

------------------------------------------------------------
-- Statements
------------------------------------------------------------

/- A conditional has a scope for each of its branches. -/
theorem branch
    (hCall : ∀ f args, outer Value (call f args))
    (test : Expr)
    {yes : List Stmt}
    {no : Option (List Stmt)}
    (hYes : inner Flow (DynScript.execFrom call .nil yes))
    (hNo : ∀ b ∈ no, inner Flow (DynScript.execFrom call .nil b)) :
    outer Flow (DynScript.execStmt call (.branch test yes no)) := by
  cases no with
  | none =>
      rw [DynScript.execStmt]
      refine h.outerSeq.bind (h.evalExpr hCall test) fun v => ?_
      cases v with
      | bool b =>
          cases b with
          | true => exact h.inScope .empty hYes
          | false => exact h.outerSeq.pure _
      | _ => exact h.outerSeq.throw _
  | some no =>
      rw [DynScript.execStmt]
      refine h.outerSeq.bind (h.evalExpr hCall test) fun v => ?_
      cases v with
      | bool b =>
          cases b with
          | true => exact h.inScope .empty hYes
          | false => exact h.inScope .empty (hNo no rfl)
      | _ => exact h.outerSeq.throw _

mutual

/- Statements may do what is only allowed inside of a scope. -/
theorem execStmt
    (hCall : ∀ f args, outer Value (call f args))
    (s : Stmt) :
    inner Flow (execStmt call s) := by
  match s with
  | .assign name e =>
      exact h.innerSeq.bind (h.weaken (h.evalExpr hCall e)) fun v =>
        h.innerSeq.bind (h.assign name v) fun _ => h.innerSeq.pure _
  | .branch test yes none =>
      apply h.weaken
      apply h.branch hCall test (execFrom hCall .nil yes)
      intro b hb
      cases hb
  | .branch test yes (some no) =>
      apply h.weaken
      apply h.branch hCall test (execFrom hCall .nil yes)
      intro b hb
      rcases Option.some.inj hb with hEq
      rw [← hEq]
      exact execFrom hCall .nil no
  | .function name params body =>
      exact h.innerSeq.bind (h.weaken (h.newFunction _)) fun v =>
        h.innerSeq.bind (h.define name v) fun _ => h.innerSeq.pure _
  | .ret none => exact h.innerSeq.pure _
  | .ret (some e) =>
      exact h.innerSeq.bind (h.weaken (h.evalExpr hCall e)) fun _ =>
        h.innerSeq.pure _
  | .expr e =>
      exact h.innerSeq.bind (h.weaken (h.evalExpr hCall e)) fun _ =>
        h.innerSeq.pure _

/- Statements one after the other. -/
theorem execFrom
    (hCall : ∀ f args, outer Value (call f args))
    (last : Value)
    (ss : List Stmt) :
    inner Flow (execFrom call last ss) := by
  match ss with
  | [] => exact h.innerSeq.pure _
  | s :: ss =>
      rw [DynScript.execFrom]
      refine h.innerSeq.bind (execStmt hCall s) fun flow => ?_
      cases flow with
      | next v => exact execFrom hCall v ss
      | ret v => exact h.innerSeq.pure _

end

theorem execBlock
    (hCall : ∀ f args, outer Value (call f args))
    (b : Block) :
    inner Flow (execBlock call b) :=
  h.execFrom hCall .nil b

/- The body of a function. -/
theorem runBody
    (hCall : ∀ f args, outer Value (call f args))
    (f : Function)
    (args : List Value) :
    outer Value (runBody call f args) := by
  rw [DynScript.runBody]
  refine h.outerSeq.bind
    (h.deeper (h.inScope _ (h.execBlock hCall f.body))) fun flow => ?_
  cases flow with
  | next v => exact h.outerSeq.pure _
  | ret v => exact h.outerSeq.pure v

end Handler

end Compositional

------------------------------------------------------------
-- Calls and programs
------------------------------------------------------------

/-
  Properties of which only the step that is taken in each
  state counts. Calls have them too, although the state
  decides whether there is one.
-/
structure Pointwise
    (outer inner : StepProperty) : Prop
    extends Compositional outer inner where
  outerChoose :
    ∀ {α : Type} {y : Eval α},
      (∀ m, ∃ x, outer α x ∧ y m = x m) → outer α y
  innerChoose :
    ∀ {α : Type} {y : Eval α},
      (∀ m, ∃ x, inner α x ∧ y m = x m) → inner α y

namespace Pointwise

variable {outer inner : StepProperty}
variable (h : Pointwise outer inner)

include h

/- Calls, by how many may still be inside one another. -/
theorem callFunction
    (room : Nat)
    (f : Function)
    (args : List Value) :
    outer Value (callFunction room f args) := by
  induction room generalizing f args with
  | zero =>
      apply h.outerChoose
      intro m
      by_cases hArity : f.params.length = args.length
      · exact ⟨_, h.outerSeq.throw _, callFunction_zero hArity m⟩
      · exact ⟨_, h.outerSeq.throw _, callFunction_arity 0 hArity m⟩
  | succ room ih =>
      apply h.outerChoose
      intro m
      by_cases hArity : f.params.length = args.length
      · by_cases hDeep : m.maxDepth ≤ m.depth
        · exact ⟨_, h.outerSeq.throw _,
            callFunction_overflow _ hArity hDeep⟩
        · exact ⟨_, h.runBody ih f args,
            callFunction_succ room hArity (Nat.lt_of_not_le hDeep)⟩
      · exact ⟨_, h.outerSeq.throw _, callFunction_arity _ hArity m⟩

/- Calls from outside of all others. -/
theorem invoke
    (f : Function)
    (args : List Value) :
    outer Value (invoke f args) := by
  apply h.outerChoose
  intro m
  exact ⟨_, h.callFunction (m.maxDepth - m.depth) f args, rfl⟩

/- Whole programs. -/
theorem runBlock
    (b : Block) :
    inner Value (runBlock b) := by
  apply h.innerChoose
  intro m
  have hBlock := h.execBlock (h.callFunction (m.maxDepth - m.depth)) b
  refine ⟨_, h.innerSeq.bind hBlock fun flow =>
    h.innerSeq.pure flow.value, ?_⟩
  rfl

end Pointwise

end DynScript
