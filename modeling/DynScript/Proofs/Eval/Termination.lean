import Mathlib.Logic.ExistsUnique
import DynScript.Proofs.Eval.Rules

/-
  Every run ends. What a job asks for is smaller than the job:
  either a call was opened, so that fewer can still be opened,
  or as many can and the syntax is smaller. The body of a
  function is no part of the call; it may be as large as it
  likes, because a call was opened for it.

  Key definitions include:
    * `Expr.size`
    * `Stmt.size`
    * `Job.size`
    * `Asks`

  Main statements include:
    * `Asks.decreases`
    * `ends_of_asked`
    * `exists_ends`
    * `every_run_ends`
-/

namespace DynScript

------------------------------------------------------------
-- The size of syntax
------------------------------------------------------------

mutual

/- The number of nodes of an expression, with one for each argument. -/
def Expr.size : Expr → Nat
  | .unary _ e => e.size + 1
  | .binary _ l r => l.size + r.size + 1
  | .call _ args => Expr.sizeArgs args + 1
  | _ => 1

/- The size of arguments. -/
def Expr.sizeArgs : List Expr → Nat
  | [] => 0
  | e :: es => e.size + Expr.sizeArgs es + 1

end

mutual

/- The number of nodes of a statement. -/
def Stmt.size : Stmt → Nat
  | .assign _ e => e.size + 1
  | .branch test yes none => test.size + Stmt.sizeSeq yes + 1
  | .branch test yes (some no) =>
    test.size + Stmt.sizeSeq yes + Stmt.sizeSeq no + 1
  | .function _ _ body => Stmt.sizeSeq body + 1
  | .ret none => 1
  | .ret (some e) => e.size + 1
  | .expr e => e.size + 1

/- The size of a block. -/
def Stmt.sizeSeq : List Stmt → Nat
  | [] => 0
  | s :: ss => s.size + Stmt.sizeSeq ss + 1

end

/- The size of the syntax of a job; a call of a value has none. -/
def Job.size : Job → Nat
  | .expr e => e.size
  | .args es => Expr.sizeArgs es
  | .stmt s => s.size
  | .seq _ b => Stmt.sizeSeq b
  | .call _ _ => 0

------------------------------------------------------------
-- What a job asks for
------------------------------------------------------------

/-
  A job needs the end of another one, in the state in which it
  is asked for. That state is the one that the parts before it
  left, as the order of evaluation says.
-/
inductive Asks : Job → Machine → Job → Machine → Prop where
  | operand
      (op : UnaryOp) (e : Expr) (m : Machine) :
      Asks (.expr (.unary op e)) m (.expr e) m
  | left
      (op : BinaryOp) (left right : Expr) (m : Machine) :
      Asks (.expr (.binary op left right)) m (.expr left) m
  | right
      {op : BinaryOp} {left : Expr} (right : Expr) {m m' : Machine}
      {a : Value}
      (hLeft : Ends (.expr left) m (.ok a m'))
      (hShort : shortCircuit? op a = none) :
      Asks (.expr (.binary op left right)) m (.expr right) m'
  | builtinArgs
      {name : String} {b : Builtin} (es : List Expr) (m : Machine)
      (hName : Builtin.ofName? name = some b) :
      Asks (.expr (.call name es)) m (.args es) m
  | callArgs
      {name : String} {f : Function} (es : List Expr) {m : Machine}
      (hName : Builtin.ofName? name = none)
      (hCallee : m.callee name = .ok f) :
      Asks (.expr (.call name es)) m (.args es) m
  | call
      {name : String} {f : Function} {es : List Expr}
      {m m' : Machine} {vs : List Value}
      (hName : Builtin.ofName? name = none)
      (hCallee : m.callee name = .ok f)
      (hArgs : Ends (.args es) m (.ok vs m')) :
      Asks (.expr (.call name es)) m (.call f vs) m'
  | firstArg
      (e : Expr) (es : List Expr) (m : Machine) :
      Asks (.args (e :: es)) m (.expr e) m
  | otherArgs
      {e : Expr} (es : List Expr) {m m' : Machine} {v : Value}
      (hFirst : Ends (.expr e) m (.ok v m')) :
      Asks (.args (e :: es)) m (.args es) m'
  | assigned
      (name : String) (e : Expr) (m : Machine) :
      Asks (.stmt (.assign name e)) m (.expr e) m
  | test
      (test : Expr) (yes : Block) (no : Option Block) (m : Machine) :
      Asks (.stmt (.branch test yes no)) m (.expr test) m
  | yes
      {test : Expr} (yes : Block) (no : Option Block)
      {m m' : Machine}
      (hTest : Ends (.expr test) m (.ok (.bool true) m')) :
      Asks (.stmt (.branch test yes no)) m
        (.seq .nil yes) (m'.push .empty)
  | no
      {test : Expr} (yes no : Block) {m m' : Machine}
      (hTest : Ends (.expr test) m (.ok (.bool false) m')) :
      Asks (.stmt (.branch test yes (some no))) m
        (.seq .nil no) (m'.push .empty)
  | returned
      (e : Expr) (m : Machine) :
      Asks (.stmt (.ret (some e))) m (.expr e) m
  | expr
      (e : Expr) (m : Machine) :
      Asks (.stmt (.expr e)) m (.expr e) m
  | firstStmt
      (last : Value) (s : Stmt) (ss : Block) (m : Machine) :
      Asks (.seq last (s :: ss)) m (.stmt s) m
  | otherStmts
      (last : Value) {s : Stmt} (ss : Block) {m m' : Machine}
      {v : Value}
      (hFirst : Ends (.stmt s) m (.ok (.next v) m')) :
      Asks (.seq last (s :: ss)) m (.seq v ss) m'
  | body
      {f : Function} {args : List Value} {m : Machine}
      (hArity : f.params.length = args.length)
      (hDeep : m.depth < m.maxDepth) :
      Asks (.call f args) m (.seq .nil f.body) (m.enter f args)

/- The room for calls and the size of the syntax of a job. -/
def Job.measure
    (j : Job)
    (m : Machine) : Nat × Nat :=
  (m.maxDepth - m.depth, j.size)

/- As much room and less syntax. -/
theorem lex_of_size_lt
    {j j' : Job}
    {m m' : Machine}
    (hRoom : m'.room = m.room)
    (hSize : j'.size < j.size) :
    Prod.Lex (· < ·) (· < ·) (j'.measure m') (j.measure m) := by
  have hEq : (j'.measure m').1 = (j.measure m).1 := hRoom
  exact Prod.lex_def.mpr (.inr ⟨hEq, hSize⟩)

/- An answer leaves as much room as there was. -/
theorem Ends.room_eq
    {j : Job}
    {m m' : Machine}
    {a : j.Answer}
    (h : Ends j m (.ok a m')) :
    m'.room = m.room :=
  Job.room_of_runWithin h.run_eq

/- What a job asks for is smaller than the job. -/
theorem Asks.decreases
    {j j' : Job}
    {m m' : Machine}
    (h : Asks j m j' m') :
    Prod.Lex (· < ·) (· < ·) (j'.measure m') (j.measure m) := by
  cases h with
  | operand op e m =>
      exact lex_of_size_lt rfl (by simp only [Job.size, Expr.size]; omega)
  | left op left right m =>
      exact lex_of_size_lt rfl (by simp only [Job.size, Expr.size]; omega)
  | right right hLeft _ =>
      exact lex_of_size_lt hLeft.room_eq
        (by simp only [Job.size, Expr.size]; omega)
  | builtinArgs es m _ =>
      exact lex_of_size_lt rfl (by simp only [Job.size, Expr.size]; omega)
  | callArgs es _ _ =>
      exact lex_of_size_lt rfl (by simp only [Job.size, Expr.size]; omega)
  | call _ _ hArgs =>
      exact lex_of_size_lt hArgs.room_eq
        (by simp only [Job.size, Expr.size]; omega)
  | firstArg e es m =>
      exact lex_of_size_lt rfl
        (by simp only [Job.size, Expr.sizeArgs]; omega)
  | otherArgs es hFirst =>
      exact lex_of_size_lt hFirst.room_eq
        (by simp only [Job.size, Expr.sizeArgs]; omega)
  | assigned name e m =>
      exact lex_of_size_lt rfl (by simp only [Job.size, Stmt.size]; omega)
  | test test yes no m =>
      apply lex_of_size_lt rfl
      cases no <;> simp only [Job.size, Stmt.size] <;> omega
  | yes yes no hTest =>
      apply lex_of_size_lt hTest.room_eq
      cases no <;> simp only [Job.size, Stmt.size] <;> omega
  | no yes no hTest =>
      exact lex_of_size_lt hTest.room_eq
        (by simp only [Job.size, Stmt.size]; omega)
  | returned e m =>
      exact lex_of_size_lt rfl (by simp only [Job.size, Stmt.size]; omega)
  | expr e m =>
      exact lex_of_size_lt rfl (by simp only [Job.size, Stmt.size]; omega)
  | firstStmt last s ss m =>
      exact lex_of_size_lt rfl
        (by simp only [Job.size, Stmt.sizeSeq]; omega)
  | otherStmts last ss hFirst =>
      exact lex_of_size_lt hFirst.room_eq
        (by simp only [Job.size, Stmt.sizeSeq]; omega)
  | body _ hDeep =>
      -- Whatever the size of the body, there is one call less.
      apply Prod.lex_def.mpr (.inl ?_)
      simp only [Job.measure, Machine.enter]
      omega

------------------------------------------------------------
-- A job ends when the jobs it asks for do
------------------------------------------------------------

section Step

variable {m : Machine}

/- Calls by name. -/
theorem ends_callByName
    {name : String}
    {es : List Expr}
    (h : ∀ j' m', Asks (.expr (.call name es)) m j' m' →
      ∃ r, Ends j' m' r) :
    ∃ r, Ends (.expr (.call name es)) m r := by
  cases hName : Builtin.ofName? name with
  | some b =>
      rcases h _ _ (.builtinArgs es m hName) with ⟨r, hArgs⟩
      exact ⟨_, .builtin hName hArgs⟩
  | none =>
      cases hCallee : m.callee name with
      | error x => exact ⟨_, .noCallee hName hCallee⟩
      | ok f =>
          rcases h _ _ (.callArgs es hName hCallee) with ⟨r, hArgs⟩
          cases r with
          | error x m' => exact ⟨_, .callFault hName hCallee hArgs⟩
          | ok vs m' =>
              rcases h _ _ (.call hName hCallee hArgs) with ⟨r, hCall⟩
              exact ⟨_, .call hName hCallee hArgs hCall⟩

/- Expressions. -/
theorem ends_expr
    {e : Expr}
    (h : ∀ j' m', Asks (.expr e) m j' m' → ∃ r, Ends j' m' r) :
    ∃ r, Ends (.expr e) m r := by
  cases e with
  | int i => exact ⟨_, .int i m⟩
  | float x => exact ⟨_, .float x m⟩
  | str s => exact ⟨_, .str s m⟩
  | bool b => exact ⟨_, .bool b m⟩
  | nil => exact ⟨_, .nil m⟩
  | var name => exact ⟨_, .var name m⟩
  | unary op e =>
      rcases h _ _ (.operand op e m) with ⟨r, hOperand⟩
      exact ⟨_, .unary hOperand⟩
  | binary op left right =>
      rcases h _ _ (.left op left right m) with ⟨r, hLeft⟩
      cases r with
      | error x m' => exact ⟨_, .leftFault hLeft⟩
      | ok a m' =>
          cases hShort : shortCircuit? op a with
          | some v => exact ⟨_, .leftDecides hLeft hShort⟩
          | none =>
              rcases h _ _ (.right right hLeft hShort) with ⟨r, hRight⟩
              exact ⟨_, .binary hLeft hShort hRight⟩
  | call name es => exact ends_callByName h

/- Arguments. -/
theorem ends_args
    {es : List Expr}
    (h : ∀ j' m', Asks (.args es) m j' m' → ∃ r, Ends j' m' r) :
    ∃ r, Ends (.args es) m r := by
  cases es with
  | nil => exact ⟨_, .argsNil m⟩
  | cons e es =>
      rcases h _ _ (.firstArg e es m) with ⟨r, hFirst⟩
      cases r with
      | error x m' => exact ⟨_, .argFault hFirst⟩
      | ok v m' =>
          rcases h _ _ (.otherArgs es hFirst) with ⟨r, hOthers⟩
          exact ⟨_, .argsCons hFirst hOthers⟩

/- A value of the kind of truth values is one. -/
theorem Value.eq_bool_of_kind
    {v : Value}
    (h : v.kind = .bool) :
    ∃ b, v = .bool b := by
  cases v with
  | bool b => exact ⟨b, rfl⟩
  | _ => cases h

/- Conditionals. -/
theorem ends_branch
    {test : Expr}
    {yes : Block}
    {no : Option Block}
    (h : ∀ j' m', Asks (.stmt (.branch test yes no)) m j' m' →
      ∃ r, Ends j' m' r) :
    ∃ r, Ends (.stmt (.branch test yes no)) m r := by
  rcases h _ _ (.test test yes no m) with ⟨r, hTest⟩
  cases r with
  | error x m' => exact ⟨_, .testFault hTest⟩
  | ok v m' =>
      by_cases hKind : v.kind = .bool
      · rcases Value.eq_bool_of_kind hKind with ⟨b, rfl⟩
        cases b with
        | true =>
            rcases h _ _ (.yes yes no hTest) with ⟨r, hYes⟩
            exact ⟨_, .yes hTest hYes⟩
        | false =>
            cases no with
            | none => exact ⟨_, .noElse hTest⟩
            | some no =>
                rcases h _ _ (.no yes no hTest) with ⟨r, hNo⟩
                exact ⟨_, .no hTest hNo⟩
      · exact ⟨_, .testNoBool hTest hKind⟩

/- Statements. -/
theorem ends_stmt
    {s : Stmt}
    (h : ∀ j' m', Asks (.stmt s) m j' m' → ∃ r, Ends j' m' r) :
    ∃ r, Ends (.stmt s) m r := by
  match s with
  | .assign name e =>
      rcases h _ _ (.assigned name e m) with ⟨r, hValue⟩
      exact ⟨_, .assign hValue⟩
  | .branch test yes no => exact ends_branch h
  | .function name params body =>
      exact ⟨_, .function name params body m⟩
  | .ret none => exact ⟨_, .retNone m⟩
  | .ret (some e) =>
      rcases h _ _ (.returned e m) with ⟨r, hValue⟩
      exact ⟨_, .ret hValue⟩
  | .expr e =>
      rcases h _ _ (.expr e m) with ⟨r, hExpr⟩
      exact ⟨_, .expr hExpr⟩

/- Statements one after the other. -/
theorem ends_seq
    {last : Value}
    {b : Block}
    (h : ∀ j' m', Asks (.seq last b) m j' m' → ∃ r, Ends j' m' r) :
    ∃ r, Ends (.seq last b) m r := by
  cases b with
  | nil => exact ⟨_, .seqNil last m⟩
  | cons s ss =>
      rcases h _ _ (.firstStmt last s ss m) with ⟨r, hFirst⟩
      cases r with
      | error x m' => exact ⟨_, .seqFault hFirst⟩
      | ok flow m' =>
          cases flow with
          | ret v => exact ⟨_, .seqRet hFirst⟩
          | next v =>
              rcases h _ _ (.otherStmts last ss hFirst) with
                ⟨r, hOthers⟩
              exact ⟨_, .seqNext hFirst hOthers⟩

/- Calls of functions. -/
theorem ends_call
    {f : Function}
    {args : List Value}
    (h : ∀ j' m', Asks (.call f args) m j' m' → ∃ r, Ends j' m' r) :
    ∃ r, Ends (.call f args) m r := by
  by_cases hArity : f.params.length = args.length
  · by_cases hDeep : m.depth < m.maxDepth
    · rcases h _ _ (.body hArity hDeep) with ⟨r, hBody⟩
      exact ⟨_, .body hArity hDeep hBody⟩
    · exact ⟨_, .overflow hArity (Nat.le_of_not_lt hDeep)⟩
  · exact ⟨_, .arity m hArity⟩

end Step

/- A job ends when all jobs that it asks for end. -/
theorem ends_of_asked
    {j : Job}
    {m : Machine}
    (h : ∀ j' m', Asks j m j' m' → ∃ r, Ends j' m' r) :
    ∃ r, Ends j m r := by
  cases j with
  | expr e => exact ends_expr h
  | args es => exact ends_args h
  | stmt s => exact ends_stmt h
  | seq last b => exact ends_seq h
  | call f args => exact ends_call h

/- Every job ends, because it cannot ask for smaller ones forever. -/
theorem exists_ends
    (j : Job)
    (m : Machine) :
    ∃ r, Ends j m r :=
  ends_of_asked fun j' m' _hAsks => exists_ends j' m'
termination_by j.measure m
decreasing_by exact _hAsks.decreases

/- The rules and the machine agree about all jobs. -/
theorem ends_run
    (j : Job)
    (m : Machine) :
    Ends j m (j.run m) := by
  rcases exists_ends j m with ⟨r, hEnds⟩
  rw [hEnds.run_eq]
  exact hEnds

/- More room than the machine has changes nothing. -/
theorem Job.runWithin_eq_run
    (j : Job)
    {m : Machine}
    {room : Nat}
    (h : m.room ≤ room) :
    j.runWithin room m = j.run m :=
  (ends_run j m).runWithin_eq h

------------------------------------------------------------
-- Programs and calls
------------------------------------------------------------

/- What a host gets: a value or an error, and the machine. -/
def End.conclude
    {α : Type}
    (value : α → Value) : End α → Except RuntimeError Value × Machine
  | .ok a m => (.ok (value a), m)
  | .error e m => (.error e, m)

/- Running a program is the job of its statements. -/
theorem Machine.run_eq
    (m : Machine)
    (b : Block) :
    m.run b = ((Job.seq .nil b).run m).conclude Flow.value := by
  change m.step (runBlock b) =
    End.conclude Flow.value (execFrom (callFunction m.room) .nil b m)
  have hRun : runBlock b m =
      End.andThen (execFrom (callFunction m.room) .nil b m)
        fun flow => pure flow.value :=
    Eval.bind_apply _ _ m
  rw [Machine.step, hRun]
  cases execFrom (callFunction m.room) .nil b m with
  | ok flow m' => rfl
  | error e m' => rfl

/- Calling a function is its job. -/
theorem Machine.call_eq
    (m : Machine)
    (f : Function)
    (args : List Value) :
    m.call f args = ((Job.call f args).run m).conclude id := by
  change m.step (invoke f args) =
    End.conclude id (callFunction m.room f args m)
  rw [Machine.step, invoke]
  change _ =
    End.conclude id (callFunction (m.maxDepth - m.depth) f args m)
  cases callFunction (m.maxDepth - m.depth) f args m with
  | ok v m' => rfl
  | error e m' => rfl

/-
  Whatever a job asks for leaves less room for calls, or as
  much and less syntax. So the rules lead every job to exactly
  one end in finitely many steps, from every state; for the
  statements of a program and for the call of a function it is
  the value or the error that the host gets.
-/
theorem every_run_ends :
    (∀ j m j' m', Asks j m j' m' →
      Prod.Lex (· < ·) (· < ·)
        (m'.maxDepth - m'.depth, j'.size)
        (m.maxDepth - m.depth, j.size)) ∧
    (∀ j m, ∃! r, Ends j m r) ∧
    (∀ (m : Machine) (b : Block), ∃ r,
      Ends (.seq .nil b) m r ∧ m.run b = r.conclude Flow.value) ∧
    ∀ (m : Machine) (f : Function) (args : List Value), ∃ r,
      Ends (.call f args) m r ∧ m.call f args = r.conclude id := by
  refine ⟨fun j m j' m' hAsks => hAsks.decreases, ?_, ?_, ?_⟩
  · intro j m
    refine ⟨j.run m, ends_run j m, ?_⟩
    intro r hEnds
    exact hEnds.run_eq.symm
  · intro m b
    exact ⟨_, ends_run _ m, m.run_eq b⟩
  · intro m f args
    exact ⟨_, ends_run _ m, m.call_eq f args⟩

end DynScript
