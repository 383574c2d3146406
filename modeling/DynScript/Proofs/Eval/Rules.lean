import DynScript.Proofs.Eval.StackDiscipline

/-
  The rules of the language: what evaluating an expression,
  executing a statement or calling a function ends in, said by
  what the parts end in. A call is allowed by the state alone,
  as long as fewer calls are open than the limit; nothing
  bounds how far the rules can be applied. What the rules
  derive is what the machine computes.

  Key definitions include:
    * `Job`
    * `Job.Answer`
    * `Ends`
    * `Job.runWithin`

  Main statements include:
    * `Job.sameStacks_runWithin`
    * `Ends.runWithin_eq`
-/

namespace DynScript

------------------------------------------------------------
-- Jobs and their ends
------------------------------------------------------------

/- What a machine can be asked to do. -/
inductive Job where
  | expr (e : Expr)
  | args (es : List Expr)
  | stmt (s : Stmt)
  | seq (last : Value) (b : Block)
  | call (f : Function) (args : List Value)

/- What a job gives when no error ends it. -/
abbrev Job.Answer : Job → Type
  | .expr _ => Value
  | .args _ => List Value
  | .stmt _ => Flow
  | .seq _ _ => Flow
  | .call _ _ => Value

/- An answer or an error, and the state that is left. -/
abbrev End
    (α : Type) :=
  EStateM.Result RuntimeError Machine α

namespace End

variable {α β : Type}

/- The state that is left. -/
def state : End α → Machine
  | .ok _ m => m
  | .error _ m => m

/- Take a step behind an answer. -/
def andThen
    (r : End α)
    (next : α → Eval β) : End β :=
  match r with
  | .ok a m => next a m
  | .error e m => .error e m

/- Take the innermost scope away. -/
def popScope : End α → End α
  | .ok a m => .ok a { m with env := m.env.pop }
  | .error e m => .error e { m with env := m.env.pop }

/- Leave a call. -/
def leaveCall : End α → End α
  | .ok a m => .ok a { m with depth := m.depth - 1 }
  | .error e m => .error e { m with depth := m.depth - 1 }

@[simp]
theorem sink_popScope
    (r : End α) :
    r.popScope.state.sink = r.state.sink := by
  cases r with
  | ok a m => rfl
  | error e m => rfl

@[simp]
theorem sink_leaveCall
    (r : End α) :
    r.leaveCall.state.sink = r.state.sink := by
  cases r with
  | ok a m => rfl
  | error e m => rfl

end End

namespace Machine

/- The function that a name stands for in a call. -/
def callee
    (m : Machine)
    (name : String) : Except RuntimeError Function :=
  match m.env.get? name with
  | some (.function _ f) => .ok f
  | some _ => .error (.notCallable name)
  | none => .error (.unboundName name)

/- The state in which the body of a function starts. -/
def enter
    (m : Machine)
    (f : Function)
    (args : List Value) : Machine :=
  { m with
    env := m.env.push (Scope.ofPairs (f.params.zip args))
    depth := m.depth + 1 }

end Machine

/- What the caller gets from the body of a function. -/
def Flow.returned : Flow → Value
  | .ret v => v
  | .next _ => .nil

------------------------------------------------------------
-- The rules
------------------------------------------------------------

/- A job ends in an answer or an error. -/
inductive Ends : (j : Job) → Machine → End j.Answer → Prop where
  | int (i : Int64) (m : Machine) :
      Ends (.expr (.int i)) m (.ok (.int i) m)
  | float (x : Float) (m : Machine) :
      Ends (.expr (.float x)) m (.ok (.float x) m)
  | str (s : String) (m : Machine) :
      Ends (.expr (.str s)) m (.ok (.str s) m)
  | bool (b : Bool) (m : Machine) :
      Ends (.expr (.bool b)) m (.ok (.bool b) m)
  | nil (m : Machine) :
      Ends (.expr .nil) m (.ok .nil m)
  | var (name : String) (m : Machine) :
      Ends (.expr (.var name)) m (Eval.lookup name m)
  | unary
      {op : UnaryOp} {e : Expr} {m : Machine} {r : End Value}
      (hOperand : Ends (.expr e) m r) :
      Ends (.expr (.unary op e)) m
        (r.andThen fun v => Eval.ofExcept (evalUnary op v))
  | leftFault
      {op : BinaryOp} {left right : Expr} {m m' : Machine}
      {x : RuntimeError}
      (hLeft : Ends (.expr left) m (.error x m')) :
      Ends (.expr (.binary op left right)) m (.error x m')
  | leftDecides
      {op : BinaryOp} {left right : Expr} {m m' : Machine}
      {a v : Value}
      (hLeft : Ends (.expr left) m (.ok a m'))
      (hShort : shortCircuit? op a = some v) :
      Ends (.expr (.binary op left right)) m (.ok v m')
  | binary
      {op : BinaryOp} {left right : Expr} {m m' : Machine}
      {a : Value} {r : End Value}
      (hLeft : Ends (.expr left) m (.ok a m'))
      (hShort : shortCircuit? op a = none)
      (hRight : Ends (.expr right) m' r) :
      Ends (.expr (.binary op left right)) m
        (r.andThen fun b => Eval.ofExcept (evalBinary op a b))
  | builtin
      {name : String} {b : Builtin} {es : List Expr} {m : Machine}
      {r : End (List Value)}
      (hName : Builtin.ofName? name = some b)
      (hArgs : Ends (.args es) m r) :
      Ends (.expr (.call name es)) m (r.andThen b.call)
  | noCallee
      {name : String} {es : List Expr} {m : Machine}
      {x : RuntimeError}
      (hName : Builtin.ofName? name = none)
      (hCallee : m.callee name = .error x) :
      Ends (.expr (.call name es)) m (.error x m)
  | callFault
      {name : String} {f : Function} {es : List Expr}
      {m m' : Machine} {x : RuntimeError}
      (hName : Builtin.ofName? name = none)
      (hCallee : m.callee name = .ok f)
      (hArgs : Ends (.args es) m (.error x m')) :
      Ends (.expr (.call name es)) m (.error x m')
  | call
      {name : String} {f : Function} {es : List Expr}
      {m m' : Machine} {vs : List Value} {r : End Value}
      (hName : Builtin.ofName? name = none)
      (hCallee : m.callee name = .ok f)
      (hArgs : Ends (.args es) m (.ok vs m'))
      (hCall : Ends (.call f vs) m' r) :
      Ends (.expr (.call name es)) m r
  | argsNil (m : Machine) :
      Ends (.args []) m (.ok [] m)
  | argFault
      {e : Expr} {es : List Expr} {m m' : Machine}
      {x : RuntimeError}
      (hFirst : Ends (.expr e) m (.error x m')) :
      Ends (.args (e :: es)) m (.error x m')
  | argsCons
      {e : Expr} {es : List Expr} {m m' : Machine} {v : Value}
      {r : End (List Value)}
      (hFirst : Ends (.expr e) m (.ok v m'))
      (hOthers : Ends (.args es) m' r) :
      Ends (.args (e :: es)) m (r.andThen fun vs => pure (v :: vs))
  | assign
      {name : String} {e : Expr} {m : Machine} {r : End Value}
      (hValue : Ends (.expr e) m r) :
      Ends (.stmt (.assign name e)) m
        (r.andThen fun v => do
          Eval.assign name v
          return .next .nil)
  | testFault
      {test : Expr} {yes : Block} {no : Option Block}
      {m m' : Machine} {x : RuntimeError}
      (hTest : Ends (.expr test) m (.error x m')) :
      Ends (.stmt (.branch test yes no)) m (.error x m')
  | testNoBool
      {test : Expr} {yes : Block} {no : Option Block}
      {m m' : Machine} {v : Value}
      (hTest : Ends (.expr test) m (.ok v m'))
      (hKind : v.kind ≠ .bool) :
      Ends (.stmt (.branch test yes no)) m
        (.error (.nonBoolCondition v.kind) m')
  | yes
      {test : Expr} {yes : Block} {no : Option Block}
      {m m' : Machine} {r : End Flow}
      (hTest : Ends (.expr test) m (.ok (.bool true) m'))
      (hYes : Ends (.seq .nil yes) (m'.push .empty) r) :
      Ends (.stmt (.branch test yes no)) m r.popScope
  | no
      {test : Expr} {yes no : Block} {m m' : Machine} {r : End Flow}
      (hTest : Ends (.expr test) m (.ok (.bool false) m'))
      (hNo : Ends (.seq .nil no) (m'.push .empty) r) :
      Ends (.stmt (.branch test yes (some no))) m r.popScope
  | noElse
      {test : Expr} {yes : Block} {m m' : Machine}
      (hTest : Ends (.expr test) m (.ok (.bool false) m')) :
      Ends (.stmt (.branch test yes none)) m (.ok (.next .nil) m')
  | function
      (name : String) (params : List String) (body : Block)
      (m : Machine) :
      Ends (.stmt (.function name params body)) m
        ((do
          let v ← Eval.newFunction ⟨name, params, body⟩
          Eval.define name v
          return Flow.next .nil : Eval Flow) m)
  | retNone (m : Machine) :
      Ends (.stmt (.ret none)) m (.ok (.ret .nil) m)
  | ret
      {e : Expr} {m : Machine} {r : End Value}
      (hValue : Ends (.expr e) m r) :
      Ends (.stmt (.ret (some e))) m
        (r.andThen fun v => pure (.ret v))
  | expr
      {e : Expr} {m : Machine} {r : End Value}
      (hExpr : Ends (.expr e) m r) :
      Ends (.stmt (.expr e)) m (r.andThen fun v => pure (.next v))
  | seqNil (last : Value) (m : Machine) :
      Ends (.seq last []) m (.ok (.next last) m)
  | seqFault
      {last : Value} {s : Stmt} {ss : Block} {m m' : Machine}
      {x : RuntimeError}
      (hFirst : Ends (.stmt s) m (.error x m')) :
      Ends (.seq last (s :: ss)) m (.error x m')
  | seqRet
      {last : Value} {s : Stmt} {ss : Block} {m m' : Machine}
      {v : Value}
      (hFirst : Ends (.stmt s) m (.ok (.ret v) m')) :
      Ends (.seq last (s :: ss)) m (.ok (.ret v) m')
  | seqNext
      {last : Value} {s : Stmt} {ss : Block} {m m' : Machine}
      {v : Value} {r : End Flow}
      (hFirst : Ends (.stmt s) m (.ok (.next v) m'))
      (hOthers : Ends (.seq v ss) m' r) :
      Ends (.seq last (s :: ss)) m r
  | arity
      {f : Function} {args : List Value} (m : Machine)
      (hArity : f.params.length ≠ args.length) :
      Ends (.call f args) m
        (.error (.arity f.name f.params.length args.length) m)
  | overflow
      {f : Function} {args : List Value} {m : Machine}
      (hArity : f.params.length = args.length)
      (hDeep : m.maxDepth ≤ m.depth) :
      Ends (.call f args) m (.error (.stackOverflow m.maxDepth) m)
  | body
      {f : Function} {args : List Value} {m : Machine}
      {r : End Flow}
      (hArity : f.params.length = args.length)
      (hDeep : m.depth < m.maxDepth)
      (hBody : Ends (.seq .nil f.body) (m.enter f args) r) :
      Ends (.call f args) m
        (r.popScope.leaveCall.andThen fun flow => pure flow.returned)

------------------------------------------------------------
-- What the machine computes
------------------------------------------------------------

/- How many calls may still be inside one another. -/
def Machine.room
    (m : Machine) : Nat :=
  m.maxDepth - m.depth

/-
  The end of a job that the machine computes when so many
  calls may still be inside one another.
-/
def Job.runWithin
    (room : Nat) : (j : Job) → Machine → End j.Answer
  | .expr e => evalExpr (callFunction room) e
  | .args es => evalArgs (callFunction room) es
  | .stmt s => execStmt (callFunction room) s
  | .seq last b => execFrom (callFunction room) last b
  | .call f vs => callFunction room f vs

/- The end of a job with the room that the machine has. -/
def Job.run
    (j : Job)
    (m : Machine) : End j.Answer :=
  j.runWithin m.room m

/- A job leaves the scopes and calls that it finds. -/
theorem Job.sameStacks_runWithin
    (room : Nat)
    (j : Job)
    (m : Machine) :
    SameStacks m (j.runWithin room m).state := by
  have hCall := balanced_compositional.callFunction room
  cases j with
  | expr e => exact balanced_compositional.evalExpr hCall e m
  | args es => exact balanced_compositional.evalArgs hCall es m
  | stmt s => exact balanced_compositional.execStmt hCall s m
  | seq last b => exact balanced_compositional.execFrom hCall last b m
  | call f vs => exact hCall f vs m

/- So the same calls are possible behind it. -/
theorem Job.room_of_runWithin
    {room : Nat}
    {j : Job}
    {m m' : Machine}
    {a : j.Answer}
    (h : j.runWithin room m = .ok a m') :
    m'.room = m.room := by
  have hSame : SameStacks m m' := by
    have hState := j.sameStacks_runWithin room m
    rw [h] at hState
    exact hState
  unfold Machine.room
  rw [hSame.limit, hSame.calls]

/- A sequence of two steps. -/
theorem Eval.bind_apply
    {α β : Type}
    (x : Eval α)
    (next : α → Eval β)
    (m : Machine) :
    (x >>= next) m = End.andThen (x m) next := by
  change EStateM.bind x next m = _
  unfold EStateM.bind End.andThen
  cases x m with
  | ok a m' => rfl
  | error e m' => rfl

/- A step with a scope of its own. -/
theorem Eval.inScope_apply
    {α : Type}
    (s : Scope)
    (body : Eval α)
    (m : Machine) :
    Eval.inScope s body m = End.popScope (body (m.push s)) := by
  unfold Eval.inScope Machine.push End.popScope
  cases body { m with env := m.env.push s } with
  | ok a m' => rfl
  | error e m' => rfl

/- A step inside of a call. -/
theorem Eval.deeper_apply
    {α : Type}
    (body : Eval α)
    (m : Machine) :
    Eval.deeper body m =
      End.leaveCall (body { m with depth := m.depth + 1 }) := by
  unfold Eval.deeper End.leaveCall
  cases body { m with depth := m.depth + 1 } with
  | ok a m' => rfl
  | error e m' => rfl

@[simp]
theorem End.andThen_ok
    {α β : Type}
    (a : α)
    (m : Machine)
    (next : α → Eval β) :
    End.andThen (.ok a m) next = next a m :=
  rfl

@[simp]
theorem End.andThen_error
    {α β : Type}
    (x : RuntimeError)
    (m : Machine)
    (next : α → Eval β) :
    End.andThen (.error x m) next = .error x m :=
  rfl

/- The name of a call is looked up before its arguments. -/
theorem evalExpr_call
    {call : CallHandler}
    {name : String}
    (es : List Expr)
    (m : Machine)
    (hName : Builtin.ofName? name = none) :
    evalExpr call (.call name es) m =
      match m.callee name with
      | .ok f => End.andThen (evalArgs call es m) (call f)
      | .error x => .error x m := by
  rw [evalExpr, hName]
  dsimp only
  rw [Eval.bind_apply, Eval.lookup, Machine.callee]
  cases m.env.get? name with
  | none => rfl
  | some v =>
      cases v with
      | function _ f => exact Eval.bind_apply _ _ m
      | _ => rfl

/- What a conditional does with the value of its test. -/
def branchOn
    (call : CallHandler)
    (yes : Block)
    (no : Option Block) : Value → Eval Flow
  | .bool true => Eval.inScope .empty (execFrom call .nil yes)
  | .bool false =>
    match no with
    | some b => Eval.inScope .empty (execFrom call .nil b)
    | none => pure (.next .nil)
  | v => throw (.nonBoolCondition v.kind)

theorem execStmt_branch
    {call : CallHandler}
    (test : Expr)
    (yes : Block)
    (no : Option Block)
    (m : Machine) :
    execStmt call (.branch test yes no) m =
      End.andThen (evalExpr call test m) (branchOn call yes no) := by
  cases no with
  | none =>
      rw [execStmt, Eval.bind_apply]
      congr 1
  | some no =>
      rw [execStmt, Eval.bind_apply]
      congr 1

/- The body of a function. -/
theorem runBody_apply
    (call : CallHandler)
    (f : Function)
    (args : List Value)
    (m : Machine) :
    runBody call f args m =
      End.andThen
        (End.leaveCall (End.popScope
          (execFrom call .nil f.body (m.enter f args))))
        fun flow => pure flow.returned := by
  rw [runBody, Eval.bind_apply, Eval.deeper_apply, Eval.inScope_apply]
  congr 1
  funext flow
  cases flow with
  | next v => rfl
  | ret v => rfl

/-
  What the rules derive is what the machine computes, with all
  the room that it has or more.
-/
theorem Ends.runWithin_eq
    {j : Job}
    {m : Machine}
    {r : End j.Answer}
    (h : Ends j m r)
    {room : Nat}
    (hRoom : m.room ≤ room) :
    j.runWithin room m = r := by
  induction h generalizing room with
  | int i m => rfl
  | float x m => rfl
  | str s m => rfl
  | bool b m => rfl
  | nil m => rfl
  | var name m => rfl
  | unary _ ih =>
      have hOperand := ih hRoom
      simp only [Job.runWithin] at hOperand ⊢
      rw [evalExpr, Eval.bind_apply, hOperand]
  | leftFault _ ih =>
      have hLeft := ih hRoom
      simp only [Job.runWithin] at hLeft ⊢
      rw [evalExpr, Eval.bind_apply, hLeft, End.andThen_error]
  | leftDecides _ hShort ih =>
      have hLeft := ih hRoom
      simp only [Job.runWithin] at hLeft ⊢
      rw [evalExpr, Eval.bind_apply, hLeft, End.andThen_ok, hShort]
      rfl
  | binary _ hShort _ ihLeft ihRight =>
      have hLeft := ihLeft hRoom
      have hRight := ihRight (Job.room_of_runWithin hLeft ▸ hRoom)
      simp only [Job.runWithin] at hLeft hRight ⊢
      rw [evalExpr, Eval.bind_apply, hLeft, End.andThen_ok, hShort]
      dsimp only
      rw [Eval.bind_apply, hRight]
  | builtin hName _ ih =>
      have hArgs := ih hRoom
      simp only [Job.runWithin] at hArgs ⊢
      rw [evalExpr, hName]
      dsimp only
      rw [Eval.bind_apply, hArgs]
  | noCallee hName hCallee =>
      simp only [Job.runWithin]
      rw [evalExpr_call _ _ hName, hCallee]
  | callFault hName hCallee _ ih =>
      have hArgs := ih hRoom
      simp only [Job.runWithin] at hArgs ⊢
      rw [evalExpr_call _ _ hName, hCallee]
      dsimp only
      rw [hArgs, End.andThen_error]
  | call hName hCallee _ _ ihArgs ihCall =>
      have hArgs := ihArgs hRoom
      have hCall := ihCall (Job.room_of_runWithin hArgs ▸ hRoom)
      simp only [Job.runWithin] at hArgs hCall ⊢
      rw [evalExpr_call _ _ hName, hCallee]
      dsimp only
      rw [hArgs, End.andThen_ok, hCall]
  | argsNil m => rfl
  | argFault _ ih =>
      have hFirst := ih hRoom
      simp only [Job.runWithin] at hFirst ⊢
      rw [evalArgs, Eval.bind_apply, hFirst, End.andThen_error]
  | argsCons _ _ ihFirst ihOthers =>
      have hFirst := ihFirst hRoom
      have hOthers := ihOthers (Job.room_of_runWithin hFirst ▸ hRoom)
      simp only [Job.runWithin] at hFirst hOthers ⊢
      rw [evalArgs, Eval.bind_apply, hFirst, End.andThen_ok,
        Eval.bind_apply, hOthers]
  | assign _ ih =>
      have hValue := ih hRoom
      simp only [Job.runWithin] at hValue ⊢
      rw [execStmt, Eval.bind_apply, hValue]
  | testFault _ ih =>
      have hTest := ih hRoom
      simp only [Job.runWithin] at hTest ⊢
      rw [execStmt_branch, hTest, End.andThen_error]
  | @testNoBool test yes no m m' v _ hKind ih =>
      have hTest := ih hRoom
      simp only [Job.runWithin] at hTest ⊢
      rw [execStmt_branch, hTest, End.andThen_ok]
      cases v with
      | bool b => exact absurd rfl hKind
      | _ => rfl
  | yes _ _ ihTest ihYes =>
      have hTest := ihTest hRoom
      have hYes := ihYes (Job.room_of_runWithin hTest ▸ hRoom)
      simp only [Job.runWithin] at hTest hYes ⊢
      rw [execStmt_branch, hTest, End.andThen_ok, ← hYes]
      exact Eval.inScope_apply _ _ _
  | no _ _ ihTest ihNo =>
      have hTest := ihTest hRoom
      have hNo := ihNo (Job.room_of_runWithin hTest ▸ hRoom)
      simp only [Job.runWithin] at hTest hNo ⊢
      rw [execStmt_branch, hTest, End.andThen_ok, ← hNo]
      exact Eval.inScope_apply _ _ _
  | noElse _ ih =>
      have hTest := ih hRoom
      simp only [Job.runWithin] at hTest ⊢
      rw [execStmt_branch, hTest, End.andThen_ok]
      rfl
  | function name params body m => rfl
  | retNone m => rfl
  | ret _ ih =>
      have hValue := ih hRoom
      simp only [Job.runWithin] at hValue ⊢
      rw [execStmt, Eval.bind_apply, hValue]
  | expr _ ih =>
      have hExpr := ih hRoom
      simp only [Job.runWithin] at hExpr ⊢
      rw [execStmt, Eval.bind_apply, hExpr]
  | seqNil last m => rfl
  | seqFault _ ih =>
      have hFirst := ih hRoom
      simp only [Job.runWithin] at hFirst ⊢
      rw [execFrom, Eval.bind_apply, hFirst, End.andThen_error]
  | seqRet _ ih =>
      have hFirst := ih hRoom
      simp only [Job.runWithin] at hFirst ⊢
      rw [execFrom, Eval.bind_apply, hFirst, End.andThen_ok]
      rfl
  | seqNext _ _ ihFirst ihOthers =>
      have hFirst := ihFirst hRoom
      have hOthers := ihOthers (Job.room_of_runWithin hFirst ▸ hRoom)
      simp only [Job.runWithin] at hFirst hOthers ⊢
      rw [execFrom, Eval.bind_apply, hFirst, End.andThen_ok]
      exact hOthers
  | arity m hArity => exact callFunction_arity _ hArity m
  | overflow hArity hDeep => exact callFunction_overflow _ hArity hDeep
  | @body f args m r hArity hDeep _ ih =>
      -- The body has the room of its caller but for the call itself.
      have hOpen : m.room = (m.enter f args).room + 1 := by
        simp only [Machine.room, Machine.enter]
        omega
      rcases Nat.exists_eq_add_of_lt (hOpen ▸ hRoom) with ⟨more, rfl⟩
      have hBody := ih (Nat.le_add_right _ more)
      simp only [Job.runWithin] at hBody ⊢
      rw [callFunction_succ _ hArity hDeep, runBody_apply, hBody]

/- So more room than the machine has changes nothing. -/
theorem Ends.run_eq
    {j : Job}
    {m : Machine}
    {r : End j.Answer}
    (h : Ends j m r) :
    j.run m = r :=
  h.runWithin_eq (Nat.le_refl _)

end DynScript
