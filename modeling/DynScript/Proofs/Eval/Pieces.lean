import Mathlib.Logic.Relation
import DynScript.Proofs.Eval.Termination

/-
  Programs in pieces. Statements one after the other are run
  as a whole or in two parts with the same end, unless the
  first part ends the run; and the run of a block is ended by
  a `return` exactly when one is executed inside of it, in the
  same call. It leaves the branches around it and nothing
  behind it is executed.

  Key definitions include:
    * `Machine.unwind`
    * `Inside`
    * `Job.Returns`
    * `Executes`

  Main statements include:
    * `execBlock_append`
    * `Machine.run_append`
    * `returns_iff`
    * `executes_of_returns`
    * `running_in_pieces`
-/

namespace DynScript

------------------------------------------------------------
-- Two parts of a block
------------------------------------------------------------

/- How a block goes on behind its first part. -/
def Flow.resume
    (call : CallHandler)
    (b : Block) : Flow → Eval Flow
  | .next v => execFrom call v b
  | .ret v => pure (.ret v)

/- The second part starts with the value of the first. -/
theorem execFrom_append
    (call : CallHandler)
    (last : Value)
    (b₁ b₂ : Block)
    (m : Machine) :
    execFrom call last (b₁ ++ b₂) m =
      End.andThen (execFrom call last b₁ m) (Flow.resume call b₂) := by
  induction b₁ generalizing last m with
  | nil => rfl
  | cons s ss ih =>
      rw [List.cons_append, execFrom, execFrom, Eval.bind_apply,
        Eval.bind_apply]
      cases execStmt call s m with
      | error e m' => rfl
      | ok flow m' =>
          cases flow with
          | next v => exact ih v m'
          | ret v => rfl

/- A block that is not empty does not show the value before it. -/
theorem execFrom_of_ne_nil
    {b : Block}
    (h : b ≠ [])
    (call : CallHandler)
    (last : Value)
    (m : Machine) :
    execFrom call last b m = execBlock call b m := by
  cases b with
  | nil => exact absurd rfl h
  | cons s ss => rw [execBlock, execFrom, execFrom]

/- A block in two parts. -/
theorem execBlock_append
    (call : CallHandler)
    (b₁ b₂ : Block)
    (m : Machine) :
    execBlock call (b₁ ++ b₂) m =
      match execBlock call b₁ m with
      | .ok (.next v) m' =>
        if b₂ = [] then .ok (.next v) m' else execBlock call b₂ m'
      | .ok (.ret v) m' => .ok (.ret v) m'
      | .error e m' => .error e m' := by
  rw [execBlock, execFrom_append]
  change End.andThen (execBlock call b₁ m) _ = _
  cases execBlock call b₁ m with
  | error e m' => rfl
  | ok flow m' =>
      cases flow with
      | ret v => rfl
      | next v =>
          by_cases hEmpty : b₂ = []
          · rw [hEmpty]
            rfl
          · rw [End.andThen_ok]
            dsimp only
            rw [if_neg hEmpty]
            exact execFrom_of_ne_nil hEmpty call v m'

/-
  Two programs on one machine. The first leaves as much room
  for calls as it found, so the second finds what it would
  find behind the same statements of one program.
-/
theorem Machine.run_append
    {b₁ b₂ : Block}
    {m m' : Machine}
    {v : Value}
    (hFirst : execBlock (callFunction m.room) b₁ m = .ok (.next v) m')
    (hMore : b₂ ≠ []) :
    m.run (b₁ ++ b₂) = (m.run b₁).2.run b₂ := by
  have hRoom : m'.room = m.room :=
    Job.room_of_runWithin (j := .seq .nil b₁) hFirst
  have hState : (m.run b₁).2 = m' := by
    rw [m.run_eq b₁]
    change (End.conclude _ (execBlock (callFunction m.room) b₁ m)).2 = m'
    rw [hFirst]
    rfl
  have hBoth : (Job.seq .nil (b₁ ++ b₂)).run m =
      (Job.seq .nil b₂).run m' := by
    change execBlock (callFunction m.room) (b₁ ++ b₂) m =
      execBlock (callFunction m'.room) b₂ m'
    rw [execBlock_append, hFirst, hRoom]
    exact if_neg hMore
  rw [hState, m.run_eq, m'.run_eq, hBoth]

/- A program that ends in its first part is that part. -/
theorem Machine.run_append_of_stopped
    {b₁ : Block}
    {m : Machine}
    (h : ∀ v m', execBlock (callFunction m.room) b₁ m ≠ .ok (.next v) m')
    (b₂ : Block) :
    m.run (b₁ ++ b₂) = m.run b₁ := by
  have hSame : (Job.seq .nil (b₁ ++ b₂)).run m =
      (Job.seq .nil b₁).run m := by
    change execBlock (callFunction m.room) (b₁ ++ b₂) m =
      execBlock (callFunction m.room) b₁ m
    rw [execBlock_append]
    cases hFirst : execBlock (callFunction m.room) b₁ m with
    | error e m' => rfl
    | ok flow m' =>
        cases flow with
        | next v => exact absurd hFirst (h v m')
        | ret v => rfl
  rw [m.run_eq, m.run_eq, hSame]

------------------------------------------------------------
-- Executed returns
------------------------------------------------------------

/- A machine without its innermost scopes. -/
def Machine.unwind : Nat → Machine → Machine
  | 0, m => m
  | scopes + 1, m =>
    { m.unwind scopes with env := (m.unwind scopes).env.pop }

/-
  A statement is executed inside of a job and of so many
  branches of it, in the same call: it is the next one, or the
  statements before it end without a `return`, or it is in the
  branch that is taken.
-/
inductive Inside : Job → Machine → Nat → Stmt → Machine → Prop where
  | here
      (s : Stmt) (m : Machine) :
      Inside (.stmt s) m 0 s m
  | first
      (last : Value) {s t : Stmt} (ss : Block) {m m' : Machine}
      {scopes : Nat}
      (hFirst : Inside (.stmt s) m scopes t m') :
      Inside (.seq last (s :: ss)) m scopes t m'
  | later
      (last : Value) {s t : Stmt} {ss : Block} {m m₁ m' : Machine}
      {v : Value} {scopes : Nat}
      (hFirst : Ends (.stmt s) m (.ok (.next v) m₁))
      (hOthers : Inside (.seq v ss) m₁ scopes t m') :
      Inside (.seq last (s :: ss)) m scopes t m'
  | yes
      {test : Expr} {yes : Block} (no : Option Block) {t : Stmt}
      {m m₁ m' : Machine} {scopes : Nat}
      (hTest : Ends (.expr test) m (.ok (.bool true) m₁))
      (hYes : Inside (.seq .nil yes) (m₁.push .empty) scopes t m') :
      Inside (.stmt (.branch test yes no)) m (scopes + 1) t m'
  | no
      {test : Expr} (yes : Block) {no : Block} {t : Stmt}
      {m m₁ m' : Machine} {scopes : Nat}
      (hTest : Ends (.expr test) m (.ok (.bool false) m₁))
      (hNo : Inside (.seq .nil no) (m₁.push .empty) scopes t m') :
      Inside (.stmt (.branch test yes (some no))) m (scopes + 1) t m'

/- A job is ended by a `return` of a value. -/
def Job.Returns
    (j : Job)
    (m : Machine)
    (v : Value)
    (m' : Machine) : Prop :=
  match j with
  | .stmt s => Ends (.stmt s) m (.ok (.ret v) m')
  | .seq last b => Ends (.seq last b) m (.ok (.ret v) m')
  | _ => False

/-
  A `return` ends all that it is inside of, and takes away the
  scopes of the branches around it.
-/
theorem Inside.returns
    {j : Job}
    {m m₀ m₁ : Machine}
    {scopes : Nat}
    {s : Stmt}
    {v : Value}
    (h : Inside j m scopes s m₀)
    (hReturn : Ends (.stmt s) m₀ (.ok (.ret v) m₁)) :
    j.Returns m v (m₁.unwind scopes) := by
  induction h with
  | here s m => exact hReturn
  | first last ss _ ih => exact .seqRet (ih hReturn)
  | later last hFirst _ ih => exact .seqNext hFirst (ih hReturn)
  | yes no hTest _ ih => exact .yes hTest (ih hReturn)
  | no yes hTest _ ih => exact .no hTest (ih hReturn)

/- A step behind an answer ends as the answer of the step does. -/
theorem End.andThen_eq_ok
    {α β : Type}
    {r : End α}
    {next : α → Eval β}
    {b : β}
    {m' : Machine}
    (h : r.andThen next = .ok b m') :
    ∃ a m, r = .ok a m ∧ next a m = .ok b m' := by
  cases r with
  | ok a m => exact ⟨a, m, rfl, h⟩
  | error e m => cases h

/- The end before a scope was taken away. -/
theorem End.popScope_eq_ok
    {α : Type}
    {r : End α}
    {a : α}
    {m' : Machine}
    (h : r.popScope = .ok a m') :
    ∃ m, r = .ok a m ∧ m' = m.unwind 1 := by
  cases r with
  | ok a m =>
      cases h
      exact ⟨m, rfl, rfl⟩
  | error e m => cases h

/- A statement that a `return` ends is one, or a branch of it is. -/
theorem Ends.stmt_return_cases
    {s : Stmt}
    {m m' : Machine}
    {v : Value}
    (h : Ends (.stmt s) m (.ok (.ret v) m')) :
    (∃ e, s = .ret e) ∨
      (∃ test yes no m₁ m₂, s = .branch test yes no ∧
        Ends (.expr test) m (.ok (.bool true) m₁) ∧
        Ends (.seq .nil yes) (m₁.push .empty) (.ok (.ret v) m₂) ∧
        m' = m₂.unwind 1) ∨
      ∃ test yes no m₁ m₂, s = .branch test yes (some no) ∧
        Ends (.expr test) m (.ok (.bool false) m₁) ∧
        Ends (.seq .nil no) (m₁.push .empty) (.ok (.ret v) m₂) ∧
        m' = m₂.unwind 1 := by
  generalize hEnd : (.ok (.ret v) m' : End Flow) = r at h
  cases h with
  | assign _ =>
      rcases End.andThen_eq_ok hEnd.symm with ⟨_, _, _, hNext⟩
      cases hNext
  | testFault _ => cases hEnd
  | testNoBool _ _ => cases hEnd
  | yes hTest hYes =>
      rcases End.popScope_eq_ok hEnd.symm with ⟨m₂, rfl, hState⟩
      exact .inr (.inl ⟨_, _, _, _, m₂, rfl, hTest, hYes, hState⟩)
  | no hTest hNo =>
      rcases End.popScope_eq_ok hEnd.symm with ⟨m₂, rfl, hState⟩
      exact .inr (.inr ⟨_, _, _, _, m₂, rfl, hTest, hNo, hState⟩)
  | noElse _ => cases hEnd
  | function name params body => cases hEnd
  | retNone => exact .inl ⟨none, rfl⟩
  | ret _ => exact .inl ⟨_, rfl⟩
  | expr _ =>
      rcases End.andThen_eq_ok hEnd.symm with ⟨_, _, _, hNext⟩
      cases hNext

/- A block that a `return` ends has a statement that it ends. -/
theorem Ends.seq_return_cases
    {last : Value}
    {b : Block}
    {m m' : Machine}
    {v : Value}
    (h : Ends (.seq last b) m (.ok (.ret v) m')) :
    ∃ s ss, b = s :: ss ∧
      (Ends (.stmt s) m (.ok (.ret v) m') ∨
        ∃ w m₁, Ends (.stmt s) m (.ok (.next w) m₁) ∧
          Ends (.seq w ss) m₁ (.ok (.ret v) m')) := by
  cases h with
  | seqRet hFirst => exact ⟨_, _, rfl, .inl hFirst⟩
  | seqNext hFirst hOthers =>
      exact ⟨_, _, rfl, .inr ⟨_, _, hFirst, hOthers⟩⟩

/-
  What a `return` ends has one inside of it. By induction on
  the size of the syntax, which shrinks from a job to what it
  is inside of.
-/
theorem exists_inside_of_returns
    {j : Job}
    {m m' : Machine}
    {v : Value}
    (h : j.Returns m v m') :
    ∃ scopes e m₀ m₁,
      Inside j m scopes (.ret e) m₀ ∧
      Ends (.stmt (.ret e)) m₀ (.ok (.ret v) m₁) ∧
      m' = m₁.unwind scopes := by
  induction hSize : j.size using Nat.strongRecOn
    generalizing j m m' with
  | ind size ih =>
      cases j with
      | expr e => cases h
      | args es => cases h
      | call f args => cases h
      | stmt s =>
          rcases Ends.stmt_return_cases h with
            ⟨e, rfl⟩ |
            ⟨test, yes, no, m₁, m₂, rfl, hTest, hYes, rfl⟩ |
            ⟨test, yes, no, m₁, m₂, rfl, hTest, hNo, rfl⟩
          · exact ⟨0, e, m, m', .here _ m, h, rfl⟩
          · have hLt : (Job.seq .nil yes).size < size := by
              rw [← hSize]
              cases no <;> simp only [Job.size, Stmt.size] <;> omega
            rcases ih _ hLt (j := .seq .nil yes) hYes rfl with
              ⟨scopes, e, m₀, m₃, hInside, hReturn, rfl⟩
            exact ⟨scopes + 1, e, m₀, m₃, .yes no hTest hInside,
              hReturn, rfl⟩
          · have hLt : (Job.seq .nil no).size < size := by
              rw [← hSize]
              simp only [Job.size, Stmt.size]
              omega
            rcases ih _ hLt (j := .seq .nil no) hNo rfl with
              ⟨scopes, e, m₀, m₃, hInside, hReturn, rfl⟩
            exact ⟨scopes + 1, e, m₀, m₃, .no yes hTest hInside,
              hReturn, rfl⟩
      | seq last b =>
          rcases Ends.seq_return_cases h with
            ⟨s, ss, rfl, hFirst | ⟨w, m₁, hFirst, hOthers⟩⟩
          · have hLt : (Job.stmt s).size < size := by
              rw [← hSize]
              simp only [Job.size, Stmt.sizeSeq]
              omega
            rcases ih _ hLt (j := .stmt s) hFirst rfl with
              ⟨scopes, e, m₀, m₃, hInside, hReturn, rfl⟩
            exact ⟨scopes, e, m₀, m₃, .first last ss hInside,
              hReturn, rfl⟩
          · have hLt : (Job.seq w ss).size < size := by
              rw [← hSize]
              simp only [Job.size, Stmt.sizeSeq]
              omega
            rcases ih _ hLt (j := .seq w ss) hOthers rfl with
              ⟨scopes, e, m₀, m₃, hInside, hReturn, rfl⟩
            exact ⟨scopes, e, m₀, m₃, .later last hFirst hInside,
              hReturn, rfl⟩

/- A job is ended by the `return` that is executed inside of it. -/
theorem returns_iff
    {j : Job}
    {m m' : Machine}
    {v : Value} :
    j.Returns m v m' ↔
      ∃ scopes e m₀ m₁,
        Inside j m scopes (.ret e) m₀ ∧
        Ends (.stmt (.ret e)) m₀ (.ok (.ret v) m₁) ∧
        m' = m₁.unwind scopes := by
  constructor
  · exact exists_inside_of_returns
  · rintro ⟨scopes, e, m₀, m₁, hInside, hReturn, rfl⟩
    exact hInside.returns hReturn

------------------------------------------------------------
-- What is executed
------------------------------------------------------------

/- What the rules derive is what is computed, and nothing else. -/
theorem ends_iff
    (j : Job)
    (m : Machine)
    (r : End j.Answer) :
    Ends j m r ↔ j.run m = r := by
  constructor
  · exact Ends.run_eq
  · rintro rfl
    exact ends_run j m

/- A job leads to another one, which is executed in its course. -/
def Executes : Job × Machine → Job × Machine → Prop :=
  Relation.ReflTransGen fun p q => Asks p.1 p.2 q.1 q.2

/-
  In the course of a block whose first statement was ended by
  a `return`, nothing is executed but that statement.
-/
theorem executes_of_returns
    {last v : Value}
    {s : Stmt}
    {ss : Block}
    {m m' : Machine}
    {p : Job × Machine}
    (hReturn : Ends (.stmt s) m (.ok (.ret v) m'))
    (h : Executes (.seq last (s :: ss), m) p) :
    p = (.seq last (s :: ss), m) ∨ Executes (.stmt s, m) p := by
  rcases Relation.ReflTransGen.cases_head h with
    hHere | ⟨q, hAsks, hLater⟩
  · exact .inl hHere.symm
  · rcases q with ⟨j, m₁⟩
    cases hAsks with
    | firstStmt => exact .inr hLater
    | otherStmts _ _ hNext =>
        have hSame := hReturn.run_eq.symm.trans hNext.run_eq
        cases hSame

/- A call gives back what was returned in it, and goes no further. -/
theorem ends_call_of_returns
    {f : Function}
    {args : List Value}
    {m m₁ : Machine}
    {v : Value}
    (hArity : f.params.length = args.length)
    (hDeep : m.depth < m.maxDepth)
    (h : Ends (.seq .nil f.body) (m.enter f args) (.ok (.ret v) m₁)) :
    Ends (.call f args) m
      (.ok v { m₁.unwind 1 with depth := m₁.depth - 1 }) :=
  .body hArity hDeep h

------------------------------------------------------------
-- Programs in pieces
------------------------------------------------------------

/-
  A block in two parts ends as the second part does in the
  state that the first one left, with the value of the first if
  the second is empty; if the first ends in an error or by a
  `return`, the second has no effect. So a program can be run
  in pieces on one machine. A block is ended by a `return`
  exactly when one is executed inside of it, through any number
  of branches but in no other call; nothing behind the
  statement that it ends is executed, and the call around the
  block ends with the value.
-/
theorem running_in_pieces :
    let handler (m : Machine) := callFunction (m.maxDepth - m.depth)
    (∀ (call : CallHandler) (b₁ b₂ : Block) (m : Machine),
      execBlock call (b₁ ++ b₂) m =
        match execBlock call b₁ m with
        | .ok (.next v) m' =>
          if b₂ = [] then .ok (.next v) m' else execBlock call b₂ m'
        | .ok (.ret v) m' => .ok (.ret v) m'
        | .error e m' => .error e m') ∧
    (∀ (m : Machine) (b₁ b₂ : Block),
      match execBlock (handler m) b₁ m with
      | .ok (.next _) _ =>
        b₂ ≠ [] → m.run (b₁ ++ b₂) = (m.run b₁).2.run b₂
      | _ => m.run (b₁ ++ b₂) = m.run b₁) ∧
    (∀ last b m v m',
      execFrom (handler m) last b m = .ok (.ret v) m' ↔
        ∃ scopes e m₀ m₁,
          Inside (.seq last b) m scopes (.ret e) m₀ ∧
          execStmt (handler m₀) (.ret e) m₀ = .ok (.ret v) m₁ ∧
          m' = m₁.unwind scopes) ∧
    (∀ last s ss m v m', execStmt (handler m) s m = .ok (.ret v) m' →
      execFrom (handler m) last (s :: ss) m = .ok (.ret v) m' ∧
      ∀ p, Executes (.seq last (s :: ss), m) p →
        p = (.seq last (s :: ss), m) ∨ Executes (.stmt s, m) p) ∧
    ∀ f args m v m₁,
      f.params.length = args.length → m.depth < m.maxDepth →
        execBlock (handler (m.enter f args)) f.body (m.enter f args) =
            .ok (.ret v) m₁ →
          invoke f args m =
            .ok v { m₁.unwind 1 with depth := m₁.depth - 1 } := by
  intro handler
  have hStmt :
      ∀ s m r, execStmt (handler m) s m = r ↔ Ends (.stmt s) m r :=
    fun s m r => (ends_iff (.stmt s) m r).symm
  have hSeq : ∀ last b m r,
      execFrom (handler m) last b m = r ↔ Ends (.seq last b) m r :=
    fun last b m r => (ends_iff (.seq last b) m r).symm
  refine ⟨execBlock_append, ?_, ?_, ?_, ?_⟩
  · intro m b₁ b₂
    split
    · next hFirst => exact Machine.run_append hFirst
    · next hOther =>
      apply Machine.run_append_of_stopped
      intro v m' hFirst
      exact hOther v m' hFirst
  · intro last b m v m'
    simp only [hStmt, hSeq]
    exact returns_iff (j := .seq last b)
  · intro last s ss m v m' hReturn
    rw [hStmt] at hReturn
    rw [hSeq]
    exact ⟨.seqRet hReturn, fun p => executes_of_returns hReturn⟩
  · intro f args m v m₁ hArity hDeep hBody
    rw [execBlock, hSeq] at hBody
    exact (ends_iff (.call f args) m _).mp
      (ends_call_of_returns hArity hDeep hBody)

end DynScript
