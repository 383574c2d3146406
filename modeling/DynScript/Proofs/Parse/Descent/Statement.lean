import DynScript.Proofs.Parse.Descent.Expression

/-
  The readers of statements, blocks and programs follow the
  readers of token lists. For each of their loops it is said
  what one turn reads from a list of tokens, and that the loop
  is one turn and what it leads to.

  Key definitions include:
    * `Parse.behindSeparators`
    * `Parse.separatorTurn`
    * `Parse.blockTurn`
    * `Parse.programTurn`
    * `Descent.FollowsStmt`

  Main statements include:
    * `Parse.outcome_blockBody_turn`
    * `Parse.statements_turn`
    * `Descent.followsStmt`
    * `Descent.follows_program`
-/

namespace DynScript

open Reading

------------------------------------------------------------
-- Turns of the loops between statements
------------------------------------------------------------

namespace Parse

variable {limit : Option Nat}
variable {ending : Ending}
variable {depth : Nat}

/- What is left behind all semicolons that come next. -/
def behindSeparators
    (toks : List Token) : List Token :=
  toks.dropWhile fun t => t.kind = .symbol .semicolon

theorem behindSeparators_of_eq
    {t : Token}
    (rest : List Token)
    (h : t.kind = .symbol .semicolon) :
    behindSeparators (t :: rest) = behindSeparators rest := by
  simp [behindSeparators, h]

theorem behindSeparators_of_ne
    {t : Token}
    (rest : List Token)
    (h : t.kind ≠ .symbol .semicolon) :
    behindSeparators (t :: rest) = t :: rest := by
  simp [behindSeparators, h]

theorem length_behindSeparators_le
    (toks : List Token) :
    (behindSeparators toks).length ≤ toks.length :=
  (List.dropWhile_suffix _).length_le

/- No semicolon comes next behind them. -/
theorem head_behindSeparators_ne
    {t : Token}
    {toks rest : List Token}
    (h : behindSeparators toks = t :: rest) :
    t.kind ≠ .symbol .semicolon := by
  have hHead := List.head?_dropWhile_not
    (fun t : Token => decide (t.kind = .symbol .semicolon)) toks
  rw [behindSeparators] at h
  rw [h] at hHead
  simpa using hHead

/- One semicolon, read from a list of tokens. -/
def separatorTurn
    (ending : Ending)
    (toks : List Token) :
    Except ParseError (Turn Unit Unit × List Token) :=
  peek ending toks >>= fun _ =>
    match accept? .semicolon toks with
    | some p => .ok (.again (), p.rest)
    | none => .ok (.done (), toks)

theorem length_lt_of_separatorTurn
    {toks rest : List Token}
    (h : separatorTurn ending toks = .ok (.again (), rest)) :
    rest.length < toks.length := by
  rcases bind_succeeds_iff.mp h with ⟨_, _, hLast⟩
  split at hLast
  · next p _ =>
      cases hLast
      exact p.lt
  · cases hLast

/- Skipping semicolons is one turn and what it leads to. -/
theorem behindSeparators_turn
    (toks : List Token) :
    (peek ending (behindSeparators toks) >>= fun _ =>
        .ok ((), behindSeparators toks)) =
      separatorTurn ending toks >>= fun p =>
        match p.1 with
        | .again _ =>
          peek ending (behindSeparators p.2) >>= fun _ =>
            .ok ((), behindSeparators p.2)
        | .done _ => .ok ((), p.2) := by
  rw [separatorTurn, bind_assoc]
  cases toks with
  | nil => rfl
  | cons t rest =>
      by_cases hKind : t.kind = .symbol .semicolon
      · rw [behindSeparators_of_eq rest hKind,
          accept?_cons_of_eq rest hKind]
        rfl
      · rw [behindSeparators_of_ne rest hKind, accept?, if_neg hKind]
        rfl

/- Semicolons before the statements of a block make no difference. -/
theorem outcome_blockBody_behindSeparators
    (toks : List Token) :
    outcome (blockBody limit ending depth (behindSeparators toks)) =
      outcome (blockBody limit ending depth toks) := by
  induction toks with
  | nil => rfl
  | cons t rest ih =>
      by_cases hKind : t.kind = .symbol .semicolon
      · rw [behindSeparators_of_eq rest hKind, ih,
          outcome_blockBody_semicolon rest hKind]
      · rw [behindSeparators_of_ne rest hKind]

/- Nor do they before the statements of a program. -/
theorem statements_behindSeparators
    (toks : List Token) :
    statements limit ending (behindSeparators toks) =
      statements limit ending toks := by
  induction toks with
  | nil => rfl
  | cons t rest ih =>
      by_cases hKind : t.kind = .symbol .semicolon
      · rw [behindSeparators_of_eq rest hKind, ih,
          statements_semicolon rest hKind]
      · rw [behindSeparators_of_ne rest hKind]

/- One more statement of a block, read from a list of tokens. -/
def blockTurn
    (limit : Option Nat)
    (ending : Ending)
    (depth : Nat)
    (body : Block)
    (toks : List Token) :
    Except ParseError (Turn Block Block × List Token) :=
  match behindSeparators toks with
  | [] => .error (ending.fault (.symbol .braceR))
  | t :: rest =>
    if t.kind = .symbol .braceR then
      .ok (.done body, rest)
    else
      outcome (statement limit ending depth (t :: rest)) >>= fun p =>
        .ok (.again (body ++ [p.1]), p.2)

theorem length_lt_of_blockTurn
    {body : Block}
    {turn : Turn Block Block}
    {toks rest : List Token}
    (h : blockTurn limit ending depth body toks = .ok (turn, rest)) :
    rest.length < toks.length := by
  apply Nat.lt_of_lt_of_le _ (length_behindSeparators_le toks)
  unfold blockTurn at h
  split at h
  · cases h
  · next t behind hLeft =>
      rw [hLeft]
      split at h
      · cases h
        exact Nat.lt_succ_self _
      · rcases bind_succeeds_iff.mp h with ⟨p, hStmt, hLast⟩
        cases hLast
        exact length_lt_of_outcome hStmt

/- The statements of a block are one turn and what it leads to. -/
theorem outcome_blockBody_turn
    (body : Block)
    (toks : List Token) :
    (outcome (blockBody limit ending depth toks) >>= fun p =>
        .ok (body ++ p.1, p.2)) =
      blockTurn limit ending depth body toks >>= fun p =>
        match p.1 with
        | .again body =>
          outcome (blockBody limit ending depth p.2) >>= fun q =>
            .ok (body ++ q.1, q.2)
        | .done body => .ok (body, p.2) := by
  rw [← outcome_blockBody_behindSeparators, blockTurn]
  cases hLeft : behindSeparators toks with
  | nil =>
      rw [outcome_blockBody_nil]
      rfl
  | cons t rest =>
      have hSemicolon := head_behindSeparators_ne hLeft
      dsimp only
      by_cases hClose : t.kind = .symbol .braceR
      · rw [outcome_blockBody_close rest hClose, if_pos hClose, ok_bind,
          ok_bind]
        dsimp only
        rw [List.append_nil]
      · rw [outcome_blockBody_statement rest hSemicolon hClose,
          if_neg hClose, bind_assoc, bind_assoc]
        congr 1
        funext p
        rw [bind_assoc, ok_bind]
        dsimp only
        congr 1
        funext q
        rw [ok_bind, List.append_assoc, List.singleton_append]

/-
  The next statement of a program, or nothing at the end of the
  input, read from a list of tokens.
-/
def nextRead
    (limit : Option Nat)
    (ending : Ending)
    (toks : List Token) :
    Except ParseError (Option Stmt × List Token) :=
  match behindSeparators toks with
  | [] => ending.look >>= fun _ => .ok (none, [])
  | t :: rest =>
    outcome (statement limit ending 0 (t :: rest)) >>= fun q =>
      .ok (some q.1, q.2)

/- One more statement of a program, read from a list of tokens. -/
def programTurn
    (limit : Option Nat)
    (ending : Ending)
    (read : Block)
    (toks : List Token) :
    Except ParseError (Turn Block Block × List Token) :=
  match behindSeparators toks with
  | [] => ending.look >>= fun _ => .ok (.done read, [])
  | t :: rest =>
    outcome (statement limit ending 0 (t :: rest)) >>= fun p =>
      .ok (.again (read ++ [p.1]), p.2)

/- One turn is the next statement, if there is one. -/
theorem programTurn_eq_next
    (read : Block)
    (toks : List Token) :
    programTurn limit ending read toks =
      nextRead limit ending toks >>= fun q =>
        match q.1 with
        | some st => .ok (.again (read ++ [st]), q.2)
        | none => .ok (.done read, q.2) := by
  rw [programTurn, nextRead]
  cases behindSeparators toks with
  | nil =>
      dsimp only
      rw [bind_assoc]
      rfl
  | cons t rest =>
      dsimp only
      rw [bind_assoc]
      rfl

theorem length_lt_of_programTurn
    {read more : Block}
    {toks rest : List Token}
    (h : programTurn limit ending read toks = .ok (.again more, rest)) :
    rest.length < toks.length := by
  apply Nat.lt_of_lt_of_le _ (length_behindSeparators_le toks)
  unfold programTurn at h
  split at h
  · rcases bind_succeeds_iff.mp h with ⟨_, _, hLast⟩
    cases hLast
  · next t behind hLeft =>
      rw [hLeft]
      rcases bind_succeeds_iff.mp h with ⟨p, hStmt, hLast⟩
      cases hLast
      exact length_lt_of_outcome hStmt

/- The loop is over only when no token is left. -/
theorem eq_nil_of_programTurn
    {read all : Block}
    {toks rest : List Token}
    (h : programTurn limit ending read toks = .ok (.done all, rest)) :
    rest = [] := by
  unfold programTurn at h
  split at h
  · rcases bind_succeeds_iff.mp h with ⟨_, _, hLast⟩
    cases hLast
    rfl
  · rcases bind_succeeds_iff.mp h with ⟨p, _, hLast⟩
    cases hLast

/- The statements of a program are one turn and what it leads to. -/
theorem statements_turn
    (read : Block)
    (toks : List Token) :
    (statements limit ending toks >>= fun ss =>
        .ok (read ++ ss, ([] : List Token))) =
      programTurn limit ending read toks >>= fun p =>
        match p.1 with
        | .again read =>
          statements limit ending p.2 >>= fun ss => .ok (read ++ ss, [])
        | .done read => .ok (read, []) := by
  rw [← statements_behindSeparators, programTurn]
  cases hLeft : behindSeparators toks with
  | nil =>
      rw [statements_nil, bind_assoc, bind_assoc]
      congr 1
      funext _
      rw [ok_bind, ok_bind, List.append_nil]
  | cons t rest =>
      rw [statements_statement rest (head_behindSeparators_ne hLeft),
        bind_assoc, bind_assoc]
      congr 1
      funext p
      rw [bind_assoc, ok_bind]
      dsimp only
      congr 1
      funext ss
      rw [ok_bind, List.append_assoc, List.singleton_append]

------------------------------------------------------------
-- Where too few tokens are left
------------------------------------------------------------

/- There is no expression at the end of the input. -/
theorem outcome_callOrDefinition_nil :
    outcome (callOrDefinition limit ending depth []) =
      .error (ending.fault .expression) := by
  rw [outcome_callOrDefinition, expression_eq_climb, outcome_climb,
    outcome_operand_nil]
  rfl

/- A fault behind a name is met before the name is a statement. -/
theorem outcome_bareStatement_name
    {e : LexError}
    {t : Token}
    {name : String}
    (hName : t.kind = .ident name) :
    outcome (bareStatement limit (.failed e) depth [t]) =
      .error (.lex e) := by
  rw [outcome_bareStatement_other, outcome_callOrDefinition,
    expression_eq_climb,
    outcome_climb, outcome_operand_var hName (by rintro u ⟨⟩)]
  · rfl
  · intro name' rest hKinds
    cases (List.cons.inj hKinds).2
  · rintro u hHead hKind
    rcases Option.some.inj hHead with rfl
    rw [hName] at hKind
    cases hKind
  · rintro u hHead hKind
    rcases Option.some.inj hHead with rfl
    rw [hName] at hKind
    cases hKind

end Parse

namespace Descent

variable {d : Descent}
variable {s : TokenStream}
variable {depth : Nat}
variable {p : Parser}
variable {toks : List Token}

------------------------------------------------------------
-- Parts of statements
------------------------------------------------------------

/- One semicolon. -/
theorem follows_separatorTurn
    (h : p.Stands s depth toks) :
    Follows s depth d.separatorTurn p
      (Parse.separatorTurn s.ending toks) := by
  rw [separatorTurn, Parse.separatorTurn]
  apply Follows.behind_eat h
  · intro t rest p' hNext hKind hRest
    subst hNext
    rw [Parse.accept?_cons_of_eq rest hKind]
    exact follows_pure hRest _
  · intro p' hNext hEnd hStands
    rw [Parse.peek_eq_ok.mpr hEnd, ok_bind, Parse.accept?_eq_none hNext]
    exact follows_pure hStands _
  · intro e hNext hEnding
    rw [hNext, hEnding]
    rfl

/- The loop of semicolons. -/
theorem follows_skipSeparators
    (h : p.Stands s depth toks) :
    Follows s depth d.skipSeparators p
      (Parse.peek s.ending (Parse.behindSeparators toks) >>= fun _ =>
        .ok ((), Parse.behindSeparators toks)) := by
  induction hLength : toks.length using Nat.strong_induction_on
    generalizing toks p with
  | _ length ih =>
      rw [skipSeparators, Parse.behindSeparators_turn]
      apply (follows_separatorTurn h).bind
      intro turn rest p' hOk hStands
      cases turn with
      | again _ =>
          have hShorter := Parse.length_lt_of_separatorTurn hOk
          exact ih rest.length (hLength ▸ hShorter) hStands rfl
      | done _ => exact follows_pure hStands ()

/- Semicolons before something else. -/
theorem follows_behind_separators
    {β : Type}
    {f : Unit → Reading β}
    {r : Except ParseError (β × List Token)}
    (h : p.Stands s depth toks)
    (hNext : ∀ p', p'.Stands s depth (Parse.behindSeparators toks) →
      Follows s depth (f ()) p' r)
    (hFault : ∀ e, Parse.behindSeparators toks = [] →
      s.ending = .failed e → r = .error (.lex e)) :
    Follows s depth (d.skipSeparators >>= f) p r := by
  have hSkip := follows_skipSeparators (d := d) h
  by_cases hEnd : Parse.behindSeparators toks ≠ [] ∨
      s.ending.look = .ok ()
  · rw [Parse.peek_eq_ok.mpr hEnd, ok_bind] at hSkip
    refine hSkip.bind (g := fun _ => r) ?_
    intro _ rest p' hOk hStands
    rcases Prod.mk.inj (Except.ok.inj hOk) with ⟨_, rfl⟩
    exact hNext p' hStands
  · rcases not_or.mp hEnd with ⟨hNone, hLook⟩
    rw [not_not] at hNone
    cases hEnding : s.ending with
    | endOfInput pos =>
        rw [hEnding] at hLook
        exact absurd rfl hLook
    | failed e =>
        rw [hFault e hNone hEnding]
        rw [hNone, hEnding] at hSkip
        have hFails :
            Follows s depth d.skipSeparators p (.error (.lex e)) :=
          hSkip
        cases hFails with
        | fault hAnswer hBlocks hLocal =>
            exact .behind_fault hAnswer hBlocks hLocal

/- A symbol behind a token was read from the tokens. -/
theorem exists_token_of_itemAt
    {ending : Ending}
    {t : Token}
    {rest : List Token}
    {item : Item}
    {symbol : Symbol}
    (h : Supply.itemAt ending (t :: rest) 1 = .ok item)
    (hKind : item.kind? = some (.symbol symbol)) :
    ∃ u behind, rest = u :: behind ∧ u.kind = .symbol symbol := by
  cases rest with
  | cons u behind =>
      rcases Except.ok.inj h with rfl
      exact ⟨u, behind, rfl, Option.some.inj hKind⟩
  | nil =>
      rcases Supply.exists_end_of_itemAt h (Nat.le_refl 1) with
        ⟨pos, _, rfl⟩
      cases hKind

/- What stands behind a name decides whether it is assigned to. -/
theorem follows_behind_name
    {β : Type}
    {f : Option String → Reading β}
    {r : Except ParseError (β × List Token)}
    {t : Token}
    {name : String}
    {rest : List Token}
    (h : p.Stands s depth (t :: rest))
    (hAssign : ∀ u behind p', rest = u :: behind →
      u.kind = .symbol .assign → p'.Stands s depth (t :: rest) →
        Follows s depth (f (some name)) p' r)
    (hOther : ∀ p',
      (∀ other behind,
        kinds (t :: rest) ≠ .ident other :: .symbol .assign :: behind) →
          p'.Stands s depth (t :: rest) → Follows s depth (f none) p' r)
    (hFault : ∀ e, rest = [] → s.ending = .failed e →
      r = .error (.lex e)) :
    Follows s depth
      (peekNth 1 >>= fun next =>
        f (if next.kind? = some (.symbol .assign) then some name
          else none))
      p r := by
  apply Follows.behind_peekNth 1 h
  · intro item p₁ hItem hStands
    by_cases hAssigned : item.kind? = some (.symbol .assign)
    · rw [if_pos hAssigned]
      rcases exists_token_of_itemAt hItem hAssigned with
        ⟨u, behind, hRest, hSign⟩
      exact hAssign u behind p₁ hRest hSign hStands
    · rw [if_neg hAssigned]
      apply hOther p₁ _ hStands
      rintro other w hKinds
      rcases kinds_eq_cons (List.cons.inj hKinds).2 with
        ⟨u, behind, rfl, hSign, _⟩
      rcases Except.ok.inj hItem with rfl
      exact hAssigned (congrArg some hSign)
  · intro e hEnd
    rcases Supply.exists_fault_of_itemAt hEnd with
      ⟨hLength, fault, hEnding, rfl⟩
    have hNone : rest = [] :=
      List.eq_nil_of_length_eq_zero
        (Nat.le_zero.mp (Nat.le_of_succ_le_succ hLength))
    exact hFault fault hNone hEnding

/- The name that is assigned to. -/
theorem follows_behind_assigned?
    {β : Type}
    {f : Option String → Reading β}
    {r : Except ParseError (β × List Token)}
    (h : p.Stands s depth toks)
    (hAssign : ∀ name t u rest p', toks = t :: u :: rest →
      t.kind = .ident name → u.kind = .symbol .assign →
        p'.Stands s depth toks → Follows s depth (f (some name)) p' r)
    (hOther : ∀ p',
      (∀ name rest, kinds toks ≠ .ident name :: .symbol .assign :: rest) →
        p'.Stands s depth toks → Follows s depth (f none) p' r)
    (hFault : ∀ e, s.ending = .failed e →
      toks = [] ∨ (∃ t name, toks = [t] ∧ t.kind = .ident name) →
        r = .error (.lex e)) :
    Follows s depth (d.assigned? >>= f) p r := by
  rw [assigned?, bind_assoc]
  cases toks with
  | nil =>
      apply Follows.peek_end h
      · intro pos p' _ hStands
        rw [Item.kind?_endOfInput, pure_bind]
        exact hOther p' (by rintro name rest ⟨⟩) hStands
      · exact fun e hEnding => hFault e hEnding (.inl rfl)
  | cons t rest =>
      apply Follows.peek_token h
      intro p' hStands
      rw [Item.kind?_token]
      split
      · next name hSome =>
          have hName := Option.some.inj hSome
          simp only [bind_assoc, pure_bind]
          apply follows_behind_name hStands
          · rintro u behind p₁ rfl hSign hStands
            exact hAssign name t u behind p₁ rfl hName hSign hStands
          · exact hOther
          · rintro e rfl hEnding
            exact hFault e hEnding (.inr ⟨t, name, rfl, hName⟩)
      · next hNone =>
          rw [pure_bind]
          apply hOther p' _ hStands
          rintro name behind hKinds
          exact hNone name (congrArg some (List.cons.inj hKinds).1)

/- A `return` and what it gives back. -/
theorem follows_returnStmt
    {t : Token}
    {rest : List Token}
    (h : p.Stands s depth (t :: rest))
    (hReturn : t.kind = .symbol .kwReturn) :
    Follows s depth d.returnStmt p
      (outcome (Parse.returned d.limit s.ending rest) >>= fun p =>
        .ok (.ret p.1, p.2)) := by
  rw [returnStmt]
  apply Follows.expect_token h hReturn
  intro p₁ hRest
  cases rest with
  | nil =>
      rw [Parse.outcome_returned_nil]
      apply Follows.peek_end hRest
      · intro pos p' hEnding hStands
        rw [Item.kind?_endOfInput, hEnding]
        exact follows_pure hStands _
      · intro e hEnding
        rw [hEnding]
        rfl
  | cons u behind =>
      apply Follows.peek_token hRest
      intro p' hStands
      rw [Item.kind?_token]
      split
      · next hNone => cases hNone
      · next hClose =>
          rw [Parse.outcome_returned_none (.inl (List.cons_ne_nil _ _))
            (by simpa using .inl (Option.some.inj hClose))]
          exact follows_pure hStands _
      · next hSemicolon =>
          rw [Parse.outcome_returned_none (.inl (List.cons_ne_nil _ _))
            (by simpa using .inr (Option.some.inj hSemicolon))]
          exact follows_pure hStands _
      · next kind hClose hSemicolon hKind =>
          rcases Option.some.inj hKind with rfl
          rw [Parse.outcome_returned_some behind
            (fun hEq => hClose hEq) (fun hEq => hSemicolon hEq),
            bind_assoc]
          apply (follows_expression hStands).bind
          intro e next p₂ _ hNext
          exact follows_pure hNext _

/- An assignment. -/
theorem follows_assignment
    {name : String}
    {t u : Token}
    {rest : List Token}
    (h : p.Stands s depth (t :: u :: rest))
    (hAssign : u.kind = .symbol .assign) :
    Follows s depth (d.assignment name) p
      (outcome (Parse.expression d.limit s.ending rest) >>= fun p =>
        .ok (.assign name p.1, p.2)) := by
  rw [assignment]
  apply Follows.advance_token h
  intro p₁ hSign
  apply Follows.expect_token hSign hAssign
  intro p₂ hRest
  apply (follows_expression hRest).bind
  intro e behind p₃ _ hBehind
  exact follows_pure hBehind _

------------------------------------------------------------
-- Statements and blocks
------------------------------------------------------------

/-
  Before the tokens `toks` the readers of statements and blocks
  do what the readers of token lists do. A conditional is read
  with its keyword.
-/
structure FollowsStmt
    (d : Descent)
    (s : TokenStream)
    (toks : List Token) : Prop where
  statement :
    ∀ depth p, p.Stands s depth toks →
      Follows s depth (d.statement) p
        (outcome (Parse.statement d.limit s.ending depth toks))
  conditional :
    ∀ depth t p, p.Stands s depth (t :: toks) → t.kind = .symbol .kwIf →
      Follows s depth (d.ifStmt) p
        (outcome (Parse.conditional d.limit s.ending depth toks))
  block :
    ∀ depth p, p.Stands s depth toks →
      Follows s depth (d.block) p
        (outcome (Parse.block d.limit s.ending depth toks))
  body :
    ∀ depth body p, p.Stands s depth toks →
      Follows s depth (d.blockBody body) p
        (outcome
            (Parse.blockBody d.limit s.ending depth toks) >>= fun p =>
          .ok (body ++ p.1, p.2))

section Steps

variable (ih : ∀ shorter : List Token, shorter.length < toks.length →
  FollowsStmt d s shorter)

/- Nothing is left behind an expression only at the end of the input. -/
theorem endOfInput_of_expression
    {limit : Option Nat}
    {ending : Ending}
    {e : Expr}
    (h : outcome (Parse.expression limit ending toks) = .ok (e, [])) :
    ∃ pos, ending = .endOfInput pos := by
  rw [Parse.expression_eq_climb, Parse.outcome_climb] at h
  rcases bind_succeeds_iff.mp h with ⟨⟨left, rest⟩, _, hExtend⟩
  exact Parse.endOfInput_of_extend hExtend

include ih in
/- An expression and what it turns out to be. -/
theorem follows_exprOrFunction
    (depth : Nat)
    (h : p.Stands s depth toks) :
    Follows s depth (d.exprOrFunction) p
      (outcome (Parse.callOrDefinition d.limit s.ending depth toks)) := by
  rw [exprOrFunction, Parse.outcome_callOrDefinition]
  apply (follows_expression h).bind
  intro e rest p₁ hExpr hRest
  have hShorter := Parse.length_lt_of_outcome hExpr
  unfold Parse.definition
  cases e with
  | call name args =>
      cases rest with
      | nil =>
          rw [Parse.heading?_nil]
          apply Follows.peek_end hRest
          · intro pos p₂ _ hStands
            rw [Item.kind?_endOfInput, if_neg (by rintro ⟨⟩)]
            exact follows_pure hStands _
          · intro fault hEnding
            -- Nothing is left behind an expression only at the end.
            rcases endOfInput_of_expression hExpr with ⟨pos, hEnd⟩
            rw [hEnding] at hEnd
            cases hEnd
      | cons u behind =>
          apply Follows.peek_token hRest
          intro p₂ hStands
          rw [Item.kind?_token]
          by_cases hOpen : u.kind = .symbol .braceL
          · rw [if_pos (congrArg some hOpen), Parse.heading?,
              if_pos hOpen]
            apply Follows.behind_test hStands
            intro params _
            apply ((ih _ hShorter).block depth p₂ hStands).bind
            intro body next p₃ _ hNext
            exact follows_pure hNext _
          · rw [if_neg fun hSome => hOpen (Option.some.inj hSome),
              Parse.heading?, if_neg hOpen]
            exact follows_pure hStands _
  | _ => exact follows_pure hRest _

/- What stands behind the keyword `else`. -/
theorem follows_else
    {t : Token}
    {other : List Token}
    (ih : ∀ shorter : List Token, shorter.length ≤ other.length →
      FollowsStmt d s shorter)
    (depth : Nat)
    (cond : Expr)
    (yes : Block)
    (hElse : t.kind = .symbol .kwElse)
    (h : p.Stands s depth other) :
    Follows s depth
      (do
        let item ← peek
        if item.kind? = some (.symbol .kwIf) then
          let st ← d.ifStmt
          return Stmt.branch cond yes (some [st])
        else
          let no ← d.block
          return Stmt.branch cond yes (some no)) p
      (Parse.otherwise d.limit s.ending depth cond yes (t :: other)) := by
  have hBlock : ∀ p', p'.Stands s depth other →
      Follows s depth (d.block >>= fun no =>
          pure (Stmt.branch cond yes (some no))) p'
        (outcome (Parse.block d.limit s.ending depth other) >>= fun no =>
          .ok (.branch cond yes (some no.1), no.2)) := by
    intro p' hStands
    exact ((ih other (Nat.le_refl _)).block depth p' hStands).map _
  cases other with
  | nil =>
      rw [Parse.otherwise_block hElse (by rintro u ⟨⟩)]
      apply Follows.peek_end h
      · intro pos p' _ hStands
        rw [Item.kind?_endOfInput, if_neg (by rintro ⟨⟩)]
        exact hBlock p' hStands
      · intro e hEnding
        rw [Parse.outcome_block_nil, hEnding]
        rfl
  | cons u chain =>
      apply Follows.peek_token h
      intro p' hStands
      rw [Item.kind?_token]
      by_cases hIf : u.kind = .symbol .kwIf
      · rw [if_pos (congrArg some hIf),
          Parse.otherwise_chain chain hElse hIf]
        have hChain := ih chain (Nat.le_succ _)
        exact (hChain.conditional depth u p' hStands hIf).map _
      · rw [if_neg fun hSome => hIf (Option.some.inj hSome),
          Parse.otherwise_block hElse (by simpa using hIf)]
        exact hBlock p' hStands

include ih in
/- A conditional. -/
theorem follows_ifStmt
    (depth : Nat)
    {t : Token}
    (h : p.Stands s depth (t :: toks))
    (hIf : t.kind = .symbol .kwIf) :
    Follows s depth (d.ifStmt) p
      (outcome (Parse.conditional d.limit s.ending depth toks)) := by
  rw [ifStmt, Parse.outcome_conditional]
  apply Follows.expect_token h hIf
  intro p₁ hToks
  apply (follows_expression hToks).bind
  intro cond opening p₂ hCond hOpening
  have hOpeningShorter := Parse.length_lt_of_outcome hCond
  apply ((ih opening hOpeningShorter).block depth p₂ hOpening).bind
  intro yes rest p₃ hYes hRest
  have hRestShorter := Nat.lt_trans (Parse.length_lt_of_outcome hYes)
    hOpeningShorter
  dsimp only
  apply Follows.behind_eat hRest
  · intro u other p₄ hElse hKind hOther
    subst hElse
    rw [Parse.peek, ok_bind]
    apply follows_else _ depth cond yes hKind hOther
    intro shorter hLe
    exact ih shorter (Nat.lt_trans (Nat.lt_succ_of_le hLe) hRestShorter)
  · intro p₄ hNext hEnd hStands
    rw [Parse.peek_eq_ok.mpr hEnd, ok_bind, Parse.otherwise_none hNext]
    exact follows_pure hStands _
  · intro e hNext hEnding
    rw [hNext, hEnding]
    rfl

include ih in
/- Without a keyword in front there is an expression or a definition. -/
theorem follows_unkeyed
    (depth : Nat)
    (h : p.Stands s depth toks)
    (hIf : ∀ t ∈ toks.head?, t.kind ≠ .symbol .kwIf)
    (hReturn : ∀ t ∈ toks.head?, t.kind ≠ .symbol .kwReturn) :
    Follows s depth
      (do
        let item ← peek
        match item.kind? with
        | some (.symbol .kwIf) => d.ifStmt
        | some (.symbol .kwReturn) => d.returnStmt
        | _ => d.exprOrFunction) p
      (outcome (Parse.callOrDefinition d.limit s.ending depth toks)) := by
  cases toks with
  | nil =>
      apply Follows.peek_end h
      · intro pos p' _ hStands
        exact follows_exprOrFunction ih depth hStands
      · intro e hEnding
        rw [Parse.outcome_callOrDefinition_nil, hEnding]
        rfl
  | cons t rest =>
      apply Follows.peek_token h
      intro p' hStands
      rw [Item.kind?_token]
      split
      · next hKind => exact absurd (Option.some.inj hKind) (hIf t rfl)
      · next hKind => exact absurd (Option.some.inj hKind) (hReturn t rfl)
      · exact follows_exprOrFunction ih depth hStands

include ih in
/- A statement without what may end it. -/
theorem follows_bareStatement
    (depth : Nat)
    (h : p.Stands s depth toks) :
    Follows s depth (d.bareStatement) p
      (outcome (Parse.bareStatement d.limit s.ending depth toks)) := by
  rw [bareStatement]
  apply follows_behind_assigned? h
  · intro name t u rest p₁ hToks hName hAssign hStands
    subst hToks
    rw [Parse.outcome_bareStatement_assign rest hName hAssign]
    exact follows_assignment hStands hAssign
  · intro p₁ hNoAssign hStands
    rcases Parse.bareStatement_begins toks with
      ⟨name, t, u, rest, rfl, hName, hAssign⟩ | ⟨t, rest, rfl, hIf⟩ |
      ⟨t, rest, rfl, hReturn⟩ | ⟨_, hIf, hReturn⟩
    · refine absurd ?_ (hNoAssign name (kinds rest))
      rw [kinds_cons, kinds_cons, hName, hAssign]
    · rw [Parse.outcome_bareStatement_if rest hIf]
      apply Follows.peek_token hStands
      intro p₂ hStands
      rw [Item.kind?_token, hIf]
      exact (ih rest (by simp)).conditional depth t p₂ hStands hIf
    · rw [Parse.outcome_bareStatement_return rest hReturn]
      apply Follows.peek_token hStands
      intro p₂ hStands
      rw [Item.kind?_token, hReturn]
      exact follows_returnStmt hStands hReturn
    · rw [Parse.outcome_bareStatement_other hNoAssign hIf hReturn]
      exact follows_unkeyed ih depth hStands hIf hReturn
  · rintro e hEnding (rfl | ⟨t, name, rfl, hName⟩)
    · rw [Parse.outcome_bareStatement_other (by rintro name rest ⟨⟩)
        (by rintro t ⟨⟩) (by rintro t ⟨⟩),
        Parse.outcome_callOrDefinition_nil, hEnding]
      rfl
    · rw [hEnding]
      exact Parse.outcome_bareStatement_name hName

include ih in
/- A statement. -/
theorem follows_statement
    (depth : Nat)
    (h : p.Stands s depth toks) :
    Follows s depth (d.statement) p
      (outcome (Parse.statement d.limit s.ending depth toks)) := by
  rw [statement, Parse.outcome_statement]
  apply (follows_bareStatement ih depth h).bind
  intro st rest p₁ _ hRest
  dsimp only
  apply Follows.behind_eat hRest
  · intro t behind p₂ hNext hKind hBehind
    subst hNext
    rw [Parse.outcome_skipSemicolon_of_eq behind hKind, ok_bind]
    exact follows_pure hBehind st
  · intro p₂ hNext hEnd hStands
    rw [Parse.outcome_skipSemicolon_of_ne hEnd hNext, ok_bind]
    exact follows_pure hStands st
  · intro e hNext hEnding
    subst hNext
    rw [Parse.outcome_skipSemicolon_nil, hEnding]
    rfl

include ih in
/- A block. -/
theorem follows_block
    (depth : Nat)
    (h : p.Stands s depth toks) :
    Follows s depth (d.block) p
      (outcome (Parse.block d.limit s.ending depth toks)) := by
  rw [block]
  cases toks with
  | nil =>
      rw [Parse.outcome_block_nil]
      exact Follows.behind_expect (g := fun p => .ok ([], p.2)) h
        (by rintro t rest p' ⟨⟩)
  | cons t rest =>
      by_cases hOpen : t.kind = .symbol .braceL
      · rw [Parse.outcome_block_open rest hOpen]
        apply Follows.expect_token h hOpen
        intro p₁ hRest
        apply Follows.behind_openBlocks hRest
        apply Follows.behind_test hRest
        intro _ _
        apply Follows.inBlock hRest
        intro p₂ hInside
        have hBody := (ih rest (by simp)).body (depth + 1) [] p₂ hInside
        rw [bind_nil_append] at hBody
        exact hBody
      · have hFault :
            (outcome (Parse.expect s.ending .braceL (t :: rest)) >>=
                fun p => .ok (([] : Block), p.2)) =
              .error (t.fault (.symbol .braceL)) := by
          rw [Parse.expect, if_neg hOpen]
          rfl
        rw [Parse.outcome_block_other rest hOpen, ← hFault]
        apply Follows.behind_expect h
        rintro u behind p' hEq hKind
        rcases List.cons.inj hEq with ⟨rfl, _⟩
        exact absurd hKind hOpen

/- One more statement of a block. -/
theorem follows_blockTurn
    (depth : Nat)
    (body : Block)
    (hStatement : ∀ more p', more.length ≤ toks.length →
      p'.Stands s depth more →
        Follows s depth (d.statement) p'
          (outcome (Parse.statement d.limit s.ending depth more)))
    (h : p.Stands s depth toks) :
    Follows s depth (d.blockTurn body) p
      (Parse.blockTurn d.limit s.ending depth body toks) := by
  have hShorter := Parse.length_behindSeparators_le toks
  rw [blockTurn, Parse.blockTurn]
  apply follows_behind_separators h
  · intro p₁ hStands
    cases hLeft : Parse.behindSeparators toks with
    | nil =>
        rw [hLeft] at hStands
        apply Follows.peek_end hStands
        · intro pos p₂ hEnding hStands
          rw [Item.kind?_endOfInput, hEnding]
          exact follows_fail hStands _
        · intro e hEnding
          rw [hEnding]
          rfl
    | cons t rest =>
        rw [hLeft] at hStands hShorter
        apply Follows.peek_token hStands
        intro p₂ hStands
        rw [Item.kind?_token]
        dsimp only
        split
        · next hNone => cases hNone
        · next hClose =>
            rw [if_pos (Option.some.inj hClose)]
            apply Follows.advance_token hStands
            intro p₃ hRest
            exact follows_pure hRest _
        · next hClose hKind =>
            rw [if_neg fun hEq =>
              hClose ((Option.some.inj hKind).symm.trans hEq)]
            exact (hStatement _ p₂ hShorter hStands).map _
  · intro e hLeft hEnding
    rw [hLeft, hEnding]
    rfl

include ih in
/- The loop of statements up to the closing brace. -/
theorem follows_blockBody
    (depth : Nat)
    (body : Block)
    (hStatement : ∀ more p', more.length ≤ toks.length →
      p'.Stands s depth more →
        Follows s depth (d.statement) p'
          (outcome (Parse.statement d.limit s.ending depth more)))
    (h : p.Stands s depth toks) :
    Follows s depth (d.blockBody body) p
      (outcome (Parse.blockBody d.limit s.ending depth toks) >>= fun p =>
        .ok (body ++ p.1, p.2)) := by
  rw [blockBody, Parse.outcome_blockBody_turn]
  apply (follows_blockTurn depth body hStatement h).bind
  intro turn rest p' hOk hStands
  cases turn with
  | again more =>
      have hShorter := Parse.length_lt_of_blockTurn hOk
      exact (ih rest hShorter).body depth more p' hStands
  | done all => exact follows_pure hStands all

end Steps

/- All readers of statements and blocks, by the number of tokens. -/
theorem followsStmt
    (d : Descent)
    (s : TokenStream)
    (toks : List Token) :
    FollowsStmt d s toks := by
  induction hLength : toks.length using Nat.strong_induction_on
    generalizing toks with
  | _ length ih =>
      have ihShorter : ∀ shorter : List Token,
          shorter.length < toks.length → FollowsStmt d s shorter := by
        intro shorter hLt
        exact ih shorter.length (hLength ▸ hLt) shorter rfl
      have hStatement : ∀ depth more p', more.length ≤ toks.length →
          p'.Stands s depth more →
            Follows s depth (d.statement) p'
              (outcome
                (Parse.statement d.limit s.ending depth more)) := by
        intro depth more p' hLe hStands
        apply follows_statement _ depth hStands
        intro shorter hLt
        exact ihShorter shorter (Nat.lt_of_lt_of_le hLt hLe)
      exact
        { statement := fun depth p h =>
            hStatement depth toks p (Nat.le_refl _) h
          conditional := fun depth t p h hIf =>
            follows_ifStmt ihShorter depth h hIf
          block := fun depth p h => follows_block ihShorter depth h
          body := fun depth body p h =>
            follows_blockBody ihShorter depth body (hStatement depth) h }

------------------------------------------------------------
-- Programs
------------------------------------------------------------

/- The next statement outside all blocks. -/
theorem follows_nextStatement
    (h : p.Stands s 0 toks) :
    Follows s 0 d.nextStatement p
      (Parse.nextRead d.limit s.ending toks) := by
  rw [nextStatement, Parse.nextRead]
  apply follows_behind_separators h
  · intro p₁ hStands
    cases hLeft : Parse.behindSeparators toks with
    | nil =>
        rw [hLeft] at hStands
        apply Follows.peek_end hStands
        · intro pos p₂ hEnding hStands
          rw [Item.kind?_endOfInput, hEnding]
          exact follows_pure hStands _
        · intro e hEnding
          rw [hEnding]
          rfl
    | cons t rest =>
        rw [hLeft] at hStands
        apply Follows.peek_token hStands
        intro p₂ hStands
        rw [Item.kind?_token]
        dsimp only
        have hStmt := followsStmt d s (t :: rest)
        exact (hStmt.statement 0 p₂ hStands).map some
  · intro e hLeft hEnding
    rw [hLeft, hEnding]
    rfl

/- A call that asks for it. -/
theorem follows_readStatement
    (h : p.Stands s 0 toks) :
    Follows s 0 d.readStatement p
      (Parse.nextRead d.limit s.ending toks) :=
  (follows_nextStatement h).guarded h.running

/- One more statement of a program. -/
theorem follows_programTurn
    (read : Block)
    (h : p.Stands s 0 toks) :
    Follows s 0 (d.programTurn read) p
      (Parse.programTurn d.limit s.ending read toks) := by
  rw [programTurn, Parse.programTurn_eq_next]
  apply (follows_readStatement h).bind
  intro st? rest p' _ hStands
  cases st? with
  | none => exact follows_pure hStands _
  | some st => exact follows_pure hStands _

/- The loop of statements up to the end of the input. -/
theorem follows_program
    (read : Block)
    (h : p.Stands s 0 toks) :
    Follows s 0 (d.program read) p
      (Parse.statements d.limit s.ending toks >>= fun ss =>
        .ok (read ++ ss, [])) := by
  induction hLength : toks.length using Nat.strong_induction_on
    generalizing toks p read with
  | _ length ih =>
      rw [program, Parse.statements_turn]
      apply (follows_programTurn read h).bind
      intro turn rest p' hOk hStands
      cases turn with
      | again more =>
          have hShorter := Parse.length_lt_of_programTurn hOk
          exact ih rest.length (hLength ▸ hShorter) more hStands rfl
      | done all =>
          have hNone := Parse.eq_nil_of_programTurn hOk
          subst hNone
          exact follows_pure hStands all

end Descent

end DynScript
