import DynScript.Parse.Reader
import DynScript.Proofs.Parse.OpenBlocks
import DynScript.Proofs.Parse.Outcome
import DynScript.Proofs.Token.Scanning

/-
  The readers of statements without the number of open blocks
  that they give back, since it is the one they are given. For
  their outcomes there is one equation for each way in which a
  reader can go on. Nothing behind this file unfolds a reader
  of statements to find its outcome.

  Key definitions include:
    * `Parse.statement`
    * `Parse.conditional`
    * `Parse.block`
    * `Parse.otherwise`
    * `Parse.definition`

  Main statements include:
    * `Parse.outcome_statement`
    * `Parse.outcome_callOrDefinition`
    * `Parse.outcome_conditional`
    * `Parse.outcome_block_open`
    * `Parse.outcome_blockBody_statement`
    * `Parse.statements_statement`
-/

namespace DynScript

namespace Parse

variable {limit : Option Nat}
variable {ending : Ending}
variable {depth : Nat}

------------------------------------------------------------
-- Parts of statements
------------------------------------------------------------

/- A semicolon that comes next is skipped. -/
theorem outcome_skipSemicolon_of_eq
    {t : Token}
    (rest : List Token)
    (h : t.kind = .symbol .semicolon) :
    outcome (skipSemicolon ending (t :: rest)) = .ok ((), rest) := by
  rw [skipSemicolon, accept?_cons_of_eq rest h]
  rfl

/- Something else is left. -/
theorem outcome_skipSemicolon_of_ne
    {toks : List Token}
    (hEnd : toks ≠ [] ∨ ending.look = .ok ())
    (h : ∀ t ∈ toks.head?, t.kind ≠ .symbol .semicolon) :
    outcome (skipSemicolon ending toks) = .ok ((), toks) := by
  rw [skipSemicolon, peek_eq_ok.mpr hEnd, accept?_eq_none h]
  rfl

/- At the end of the input there is none. -/
theorem outcome_skipSemicolon_nil :
    outcome (skipSemicolon ending []) =
      ending.look >>= fun _ => .ok ((), []) := by
  rw [skipSemicolon]
  apply outcome_test_bind
  intro _
  rfl

/- What is left behind a semicolon that may stand there. -/
theorem outcome_skipSemicolon_eq_ok
    {toks rest : List Token}
    (h : outcome (skipSemicolon ending toks) = .ok ((), rest)) :
    rest = toks ∨
      ∃ t, t.kind = .symbol .semicolon ∧ toks = t :: rest := by
  cases toks with
  | nil =>
      left
      rw [outcome_skipSemicolon_nil] at h
      rcases bind_succeeds_iff.mp h with ⟨_, _, hLast⟩
      cases hLast
      rfl
  | cons t behind =>
      by_cases hKind : t.kind = .symbol .semicolon
      · rw [outcome_skipSemicolon_of_eq behind hKind] at h
        simp only [Except.ok.injEq, Prod.mk.injEq, true_and] at h
        exact .inr ⟨t, hKind, by rw [h]⟩
      · rw [outcome_skipSemicolon_of_ne (.inl (by simp))
          (by simpa using hKind)] at h
        simp only [Except.ok.injEq, Prod.mk.injEq, true_and] at h
        exact .inl h.symm

/- A `return` at the end of the input. -/
theorem outcome_returned_nil :
    outcome (returned limit ending []) =
      ending.look >>= fun _ => .ok (none, []) := by
  rw [returned]
  apply outcome_test_bind
  intro _
  rfl

/- A `return` with nothing to give back. -/
theorem outcome_returned_none
    {toks : List Token}
    (hEnd : toks ≠ [] ∨ ending.look = .ok ())
    (h : ∀ t ∈ toks.head?,
      t.kind = .symbol .braceR ∨ t.kind = .symbol .semicolon) :
    outcome (returned limit ending toks) = .ok (none, toks) := by
  cases toks with
  | nil =>
      have hLook : ending.look = .ok () := by simpa using hEnd
      rw [outcome_returned_nil, hLook, ok_bind]
  | cons t rest =>
      have hStop := h t rfl
      simp [returned, hStop, Parsed.leaving]

/- A `return` with an expression behind it. -/
theorem outcome_returned_some
    {t : Token}
    (rest : List Token)
    (hClose : t.kind ≠ .symbol .braceR)
    (hSemicolon : t.kind ≠ .symbol .semicolon) :
    outcome (returned limit ending (t :: rest)) =
      outcome (expression limit ending (t :: rest)) >>= fun p =>
        .ok (some p.1, p.2) := by
  rw [returned, if_neg (not_or.mpr ⟨hClose, hSemicolon⟩)]
  apply outcome_bind
  intro p
  rfl

/- Variables are read as the names of parameters. -/
theorem parameters_eq_ok
    {pos : Position}
    {es : List Expr}
    {params : List String} :
    parameters pos es = .ok params ↔ es = params.map .var := by
  induction es generalizing params with
  | nil => simp [parameters, eq_comm]
  | cons e es ih =>
      cases e
      case var name =>
        rw [parameters, bind_succeeds_iff]
        constructor
        · rintro ⟨names, hNames, hEq⟩
          rcases Except.ok.inj hEq with rfl
          rw [ih.mp hNames]
          rfl
        · intro hEq
          cases params with
          | nil => simp at hEq
          | cons x xs =>
              simp only [List.map_cons, List.cons.injEq,
                Expr.var.injEq] at hEq
              rcases hEq with ⟨rfl, hEq⟩
              exact ⟨xs, ih.mpr hEq, rfl⟩
      all_goals
        cases params with
        | nil => simp [parameters]
        | cons x xs => simp [parameters]

/- A heading is a call. -/
theorem call_of_heading?
    {e : Expr}
    {toks : List Token}
    {name : String}
    {args : List Expr}
    {pos : Position}
    (h : heading? e toks = some (name, args, pos)) :
    e = .call name args := by
  unfold heading? at h
  split at h
  · split at h
    · cases h
      rfl
    · cases h
  · cases h

/- The fault of a block that is nested too deep. -/
theorem mayOpen_tooDeep
    {n : Nat}
    (pos : Position)
    (h : n ≤ depth) :
    mayOpen (some n) pos depth = .error (.tooDeep n pos) := by
  simp [mayOpen, h]

/- A block may be opened as long as the limit is not reached. -/
theorem mayOpen_eq_ok
    {pos : Position} :
    mayOpen limit pos depth = .ok () ↔ ∀ n ∈ limit, depth + 1 ≤ n := by
  cases limit with
  | none => simp [mayOpen]
  | some n =>
      by_cases hLe : n ≤ depth
      · rw [mayOpen_tooDeep pos hLe]
        constructor
        · intro h
          cases h
        · intro h
          exact absurd (h n rfl) (Nat.not_le_of_lt (by omega))
      · constructor
        · intro _ m hm
          rcases Option.some.inj hm with rfl
          omega
        · intro _
          exact if_neg hLe

------------------------------------------------------------
-- Readers without the number of open blocks
------------------------------------------------------------

/- A statement inside `depth` blocks, with its semicolon. -/
def statement
    (limit : Option Nat)
    (ending : Ending)
    (depth : Nat)
    (toks : List Token) :
    Except ParseError (Parsed Stmt toks.length) :=
  (countedStatement limit ending depth toks).map
    (Parsed.map Counted.value)

/- A statement without what may end it. -/
def bareStatement
    (limit : Option Nat)
    (ending : Ending)
    (depth : Nat)
    (toks : List Token) :
    Except ParseError (Parsed Stmt toks.length) :=
  (countedBareStatement limit ending depth toks).map
    (Parsed.map Counted.value)

/- An expression, or a call that a block turns into a definition. -/
def callOrDefinition
    (limit : Option Nat)
    (ending : Ending)
    (depth : Nat)
    (toks : List Token) :
    Except ParseError (Parsed Stmt toks.length) :=
  (countedCallOrDefinition limit ending depth toks).map
    (Parsed.map Counted.value)

/- A conditional, from behind the keyword `if`. -/
def conditional
    (limit : Option Nat)
    (ending : Ending)
    (depth : Nat)
    (toks : List Token) :
    Except ParseError (Parsed Stmt toks.length) :=
  (countedConditional limit ending depth toks).map
    (Parsed.map Counted.value)

/- A block inside `depth` others. -/
def block
    (limit : Option Nat)
    (ending : Ending)
    (depth : Nat)
    (toks : List Token) :
    Except ParseError (Parsed Block toks.length) :=
  (countedBlock limit ending depth toks).map
    (Parsed.map Counted.value)

/- The statements of a block. -/
def blockBody
    (limit : Option Nat)
    (ending : Ending)
    (depth : Nat)
    (toks : List Token) :
    Except ParseError (Parsed Block toks.length) :=
  (countedBlockBody limit ending depth toks).map
    (Parsed.map Counted.value)

/- The next statement outside all blocks. -/
def nextStatement
    (limit : Option Nat)
    (ending : Ending)
    (toks : List Token) :
    Except ParseError (Option (Parsed Stmt toks.length)) :=
  (countedNext limit ending 0 toks).map
    (Option.map (Parsed.map Counted.value))

------------------------------------------------------------
-- Statements
------------------------------------------------------------

/- A statement and the semicolon that may end it. -/
theorem outcome_statement
    (toks : List Token) :
    outcome (statement limit ending depth toks) =
      outcome (bareStatement limit ending depth toks) >>= fun p =>
        outcome (skipSemicolon ending p.2) >>= fun q =>
          .ok (p.1, q.2) := by
  rw [statement, countedStatement]
  apply (restores_countedBareStatement depth toks).outcome_bind
  intro p _
  apply outcome_map_bind
  intro q
  rfl

/- A name with `=` behind it. -/
theorem outcome_bareStatement_assign
    {name : String}
    {t u : Token}
    (rest : List Token)
    (hName : t.kind = .ident name)
    (hAssign : u.kind = .symbol .assign) :
    outcome (bareStatement limit ending depth (t :: u :: rest)) =
      outcome (expression limit ending rest) >>= fun p =>
        .ok (.assign name p.1, p.2) := by
  rcases t with ⟨kind, text, pos⟩
  rcases u with ⟨kind', text', pos'⟩
  rcases hName with rfl
  rcases hAssign with rfl
  rw [bareStatement, countedBareStatement]
  apply outcome_map_bind
  intro p
  rfl

/- The keyword `if`. -/
theorem outcome_bareStatement_if
    {t : Token}
    (rest : List Token)
    (h : t.kind = .symbol .kwIf) :
    outcome (bareStatement limit ending depth (t :: rest)) =
      outcome (conditional limit ending depth rest) := by
  rcases t with ⟨kind, text, pos⟩
  rcases h with rfl
  rw [bareStatement, countedBareStatement]
  apply outcome_widen

/- The keyword `return`. -/
theorem outcome_bareStatement_return
    {t : Token}
    (rest : List Token)
    (h : t.kind = .symbol .kwReturn) :
    outcome (bareStatement limit ending depth (t :: rest)) =
      outcome (returned limit ending rest) >>= fun p =>
        .ok (.ret p.1, p.2) := by
  rcases t with ⟨kind, text, pos⟩
  rcases h with rfl
  rw [bareStatement, countedBareStatement]
  apply outcome_map_bind
  intro p
  rfl

/- Anything else begins with an expression. -/
theorem outcome_bareStatement_other
    {toks : List Token}
    (hAssign : ∀ name rest, kinds toks ≠
      .ident name :: .symbol .assign :: rest)
    (hIf : ∀ t ∈ toks.head?, t.kind ≠ .symbol .kwIf)
    (hReturn : ∀ t ∈ toks.head?, t.kind ≠ .symbol .kwReturn) :
    outcome (bareStatement limit ending depth toks) =
      outcome (callOrDefinition limit ending depth toks) := by
  rw [bareStatement, countedBareStatement, callOrDefinition]
  · intro name text pos text' pos' rest hEq
    rw [hEq] at hAssign
    exact hAssign name (kinds rest) rfl
  · intro text pos rest hEq
    rw [hEq] at hIf
    exact hIf _ rfl rfl
  · intro text pos rest hEq
    rw [hEq] at hReturn
    exact hReturn _ rfl rfl

/- The beginnings of a statement. -/
theorem bareStatement_begins
    (toks : List Token) :
    (∃ name t u rest, toks = t :: u :: rest ∧
        t.kind = .ident name ∧ u.kind = .symbol .assign) ∨
      (∃ t rest, toks = t :: rest ∧ t.kind = .symbol .kwIf) ∨
      (∃ t rest, toks = t :: rest ∧ t.kind = .symbol .kwReturn) ∨
      ((∀ name rest, kinds toks ≠
          .ident name :: .symbol .assign :: rest) ∧
        (∀ t ∈ toks.head?, t.kind ≠ .symbol .kwIf) ∧
        ∀ t ∈ toks.head?, t.kind ≠ .symbol .kwReturn) := by
  by_cases hAssign : ∃ name rest,
      kinds toks = .ident name :: .symbol .assign :: rest
  · rcases hAssign with ⟨name, w, hKinds⟩
    rcases kinds_eq_cons hKinds with ⟨t, toks, rfl, hName, hKinds⟩
    rcases kinds_eq_cons hKinds with ⟨u, toks, rfl, hSign, _⟩
    exact .inl ⟨name, t, u, toks, rfl, hName, hSign⟩
  cases hIf : accept? .kwIf toks with
  | some p =>
      rcases accept?_eq_some hIf with ⟨t, rest, hKind, hSplit, _⟩
      exact .inr (.inl ⟨t, rest, hSplit, hKind⟩)
  | none =>
      cases hReturn : accept? .kwReturn toks with
      | some p =>
          rcases accept?_eq_some hReturn with ⟨t, rest, hKind, hSplit, _⟩
          exact .inr (.inr (.inl ⟨t, rest, hSplit, hKind⟩))
      | none =>
          refine .inr (.inr (.inr ⟨?_, head_ne_of_accept?_eq_none hIf,
            head_ne_of_accept?_eq_none hReturn⟩))
          intro name rest hKinds
          exact hAssign ⟨name, rest, hKinds⟩

/- What an expression in the place of a statement is. -/
def definition
    (limit : Option Nat)
    (ending : Ending)
    (depth : Nat)
    (e : Expr)
    (toks : List Token) : Except ParseError (Stmt × List Token) :=
  match heading? e toks with
  | some (name, args, pos) =>
    parameters pos args >>= fun params =>
      outcome (block limit ending depth toks) >>= fun p =>
        .ok (.function name params p.1, p.2)
  | none => .ok (.expr e, toks)

/- An expression and what it turns out to be. -/
theorem outcome_callOrDefinition
    (toks : List Token) :
    outcome (callOrDefinition limit ending depth toks) =
      outcome (expression limit ending toks) >>= fun p =>
        definition limit ending depth p.1 p.2 := by
  rw [callOrDefinition, countedCallOrDefinition]
  apply outcome_map_bind
  rintro ⟨e, rest, hLt⟩
  unfold definition
  cases hHeading : heading? e rest with
  | none =>
      simp only [hHeading]
      rfl
  | some heading =>
      rcases heading with ⟨name, args, pos⟩
      simp only [hHeading]
      apply outcome_map_test_bind
      intro params _
      apply (restores_countedBlock depth rest).outcome_bind
      intro p _
      rfl

/- What stands behind the first block of a conditional. -/
def otherwise
    (limit : Option Nat)
    (ending : Ending)
    (depth : Nat)
    (test : Expr)
    (yes : Block)
    (toks : List Token) : Except ParseError (Stmt × List Token) :=
  match accept? .kwElse toks with
  | none => .ok (.branch test yes none, toks)
  | some p =>
    match accept? .kwIf p.rest with
    | some q =>
      outcome (conditional limit ending depth q.rest) >>= fun s =>
        .ok (.branch test yes (some [s.1]), s.2)
    | none =>
      outcome (block limit ending depth p.rest) >>= fun no =>
        .ok (.branch test yes (some no.1), no.2)

/- Nothing more. -/
theorem otherwise_none
    {test : Expr}
    {yes : Block}
    {toks : List Token}
    (h : ∀ t ∈ toks.head?, t.kind ≠ .symbol .kwElse) :
    otherwise limit ending depth test yes toks =
      .ok (.branch test yes none, toks) := by
  rw [otherwise, accept?_eq_none h]

/- The keyword `else` and a block. -/
theorem otherwise_block
    {test : Expr}
    {yes : Block}
    {t : Token}
    {toks : List Token}
    (hElse : t.kind = .symbol .kwElse)
    (hNext : ∀ u ∈ toks.head?, u.kind ≠ .symbol .kwIf) :
    otherwise limit ending depth test yes (t :: toks) =
      outcome (block limit ending depth toks) >>= fun no =>
        .ok (.branch test yes (some no.1), no.2) := by
  rw [otherwise, accept?_cons_of_eq toks hElse]
  simp only [Parsed.leaving, accept?_eq_none hNext]

/- The keywords `else` and `if` and another conditional. -/
theorem otherwise_chain
    {test : Expr}
    {yes : Block}
    {t u : Token}
    (toks : List Token)
    (hElse : t.kind = .symbol .kwElse)
    (hIf : u.kind = .symbol .kwIf) :
    otherwise limit ending depth test yes (t :: u :: toks) =
      outcome (conditional limit ending depth toks) >>= fun s =>
        .ok (.branch test yes (some [s.1]), s.2) := by
  rw [otherwise, accept?_cons_of_eq (u :: toks) hElse]
  simp only [Parsed.leaving, accept?_cons_of_eq toks hIf]

/- A test, a block and what may stand behind it. -/
theorem outcome_conditional
    (toks : List Token) :
    outcome (conditional limit ending depth toks) =
      outcome (expression limit ending toks) >>= fun test =>
        outcome (block limit ending depth test.2) >>= fun yes =>
          peek ending yes.2 >>= fun _ =>
            otherwise limit ending depth test.1 yes.1 yes.2 := by
  rw [conditional, countedConditional]
  apply outcome_map_bind
  rintro ⟨test, opening, hTest⟩
  apply (restores_countedBlock depth opening).outcome_bind
  rintro ⟨⟨yes, blocks⟩, rest, hYes⟩ hRestored
  rcases (hRestored : blocks = depth) with rfl
  apply outcome_map_test_bind
  intro _ _
  unfold otherwise
  cases hElse : accept? .kwElse rest with
  | none => rfl
  | some p =>
      rcases p with ⟨_, other, hOther⟩
      dsimp only
      cases hIf : accept? .kwIf other with
      | none =>
          dsimp only
          apply (restores_countedBlock blocks other).outcome_bind
          intro no _
          rfl
      | some q =>
          dsimp only
          apply (restores_countedConditional blocks _).outcome_bind
          intro s _
          rfl

------------------------------------------------------------
-- Blocks
------------------------------------------------------------

/- An opening brace, unless the block is nested too deep. -/
theorem outcome_block_open
    {t : Token}
    (rest : List Token)
    (h : t.kind = .symbol .braceL) :
    outcome (block limit ending depth (t :: rest)) =
      mayOpen limit t.pos depth >>= fun _ =>
        outcome (blockBody limit ending (depth + 1) rest) := by
  rw [block, countedBlock, if_pos h]
  apply outcome_map_test_bind
  intro _ _
  rw [blockBody]
  cases countedBlockBody limit ending (depth + 1) rest with
  | error e => rfl
  | ok p => rfl

/- A block cannot begin at the end of the input. -/
theorem outcome_block_nil :
    outcome (block limit ending depth []) =
      .error (ending.fault (.symbol .braceL)) := by
  rw [block, countedBlock]
  rfl

/- Nor with anything but its brace. -/
theorem outcome_block_other
    {t : Token}
    (rest : List Token)
    (h : t.kind ≠ .symbol .braceL) :
    outcome (block limit ending depth (t :: rest)) =
      .error (t.fault (.symbol .braceL)) := by
  rw [block, countedBlock, if_neg h]
  rfl

/- A block begins with its brace. -/
theorem block_begins
    {toks : List Token}
    {r : Block × List Token}
    (h : outcome (block limit ending depth toks) = .ok r) :
    ∃ t rest, t.kind = .symbol .braceL ∧ toks = t :: rest := by
  cases toks with
  | nil =>
      rw [outcome_block_nil] at h
      cases h
  | cons t rest =>
      by_cases hOpen : t.kind = .symbol .braceL
      · exact ⟨t, rest, hOpen, rfl⟩
      · rw [outcome_block_other rest hOpen] at h
        cases h

theorem outcome_blockBody_nil :
    outcome (blockBody limit ending depth []) =
      .error (ending.fault (.symbol .braceR)) := by
  rw [blockBody, countedBlockBody]
  rfl

/- A semicolon without a statement. -/
theorem outcome_blockBody_semicolon
    {t : Token}
    (rest : List Token)
    (h : t.kind = .symbol .semicolon) :
    outcome (blockBody limit ending depth (t :: rest)) =
      outcome (blockBody limit ending depth rest) := by
  rw [blockBody, countedBlockBody, if_pos h]
  apply outcome_widen

/- The closing brace. -/
theorem outcome_blockBody_close
    {t : Token}
    (rest : List Token)
    (h : t.kind = .symbol .braceR) :
    outcome (blockBody limit ending depth (t :: rest)) =
      .ok ([], rest) := by
  rw [blockBody, countedBlockBody, if_neg (by rw [h]; decide),
    if_pos h]
  rfl

/- A statement and the others behind it. -/
theorem outcome_blockBody_statement
    {t : Token}
    (rest : List Token)
    (hSemicolon : t.kind ≠ .symbol .semicolon)
    (hClose : t.kind ≠ .symbol .braceR) :
    outcome (blockBody limit ending depth (t :: rest)) =
      outcome (statement limit ending depth (t :: rest)) >>= fun p =>
        outcome (blockBody limit ending depth p.2) >>= fun q =>
          .ok (p.1 :: q.1, q.2) := by
  rw [blockBody, countedBlockBody, if_neg hSemicolon, if_neg hClose]
  apply (restores_countedStatement depth _).outcome_bind
  rintro ⟨⟨s, blocks⟩, next, hNext⟩ hRestored
  rcases (hRestored : blocks = depth) with rfl
  apply (restores_countedBlockBody blocks next).outcome_bind
  intro q _
  rfl

/- Skipping a semicolon first makes no difference to what is read. -/
theorem outcome_blockBody_skipSemicolon
    (toks : List Token) :
    (outcome (skipSemicolon ending toks) >>= fun q =>
        outcome (blockBody limit ending depth q.2)) =
      outcome (blockBody limit ending depth toks) := by
  cases toks with
  | nil =>
      rw [outcome_skipSemicolon_nil, outcome_blockBody_nil]
      cases ending with
      | endOfInput pos => exact outcome_blockBody_nil
      | failed e => rfl
  | cons t rest =>
      by_cases hSemicolon : t.kind = .symbol .semicolon
      · rw [outcome_skipSemicolon_of_eq rest hSemicolon,
          outcome_blockBody_semicolon rest hSemicolon, ok_bind]
      · rw [outcome_skipSemicolon_of_ne (.inl (by simp))
          (by simpa using hSemicolon), ok_bind]

/- So a statement needs no semicolon to end it. -/
theorem outcome_blockBody_bare
    {t : Token}
    (rest : List Token)
    (hSemicolon : t.kind ≠ .symbol .semicolon)
    (hClose : t.kind ≠ .symbol .braceR) :
    outcome (blockBody limit ending depth (t :: rest)) =
      outcome (bareStatement limit ending depth (t :: rest)) >>= fun p =>
        outcome (blockBody limit ending depth p.2) >>= fun q =>
          .ok (p.1 :: q.1, q.2) := by
  rw [outcome_blockBody_statement rest hSemicolon hClose,
    outcome_statement, bind_assoc]
  congr 1
  funext p
  rw [← outcome_blockBody_skipSemicolon p.2, bind_assoc, bind_assoc]
  rfl

------------------------------------------------------------
-- Programs
------------------------------------------------------------

/- Behind a statement outside all blocks no block is open. -/
theorem countedNext_eq
    (toks : List Token) :
    countedNext limit ending 0 toks =
      (nextStatement limit ending toks).map
        (Option.map (Parsed.map fun s => ⟨s, 0⟩)) := by
  rw [nextStatement]
  cases hNext : countedNext limit ending 0 toks with
  | error e => rfl
  | ok p? =>
      cases p? with
      | none => rfl
      | some p =>
          have hRestored := restores_countedNext 0 toks p hNext
          rcases p with ⟨c, rest, hLt⟩
          show Except.ok (some (Parsed.mk c rest hLt)) =
            .ok (some ⟨⟨c.value, 0⟩, rest, hLt⟩)
          rw [← Counted.Restores.eq hRestored]

/- Nor is one open behind a program. -/
theorem countedStatements_eq
    (toks : List Token) :
    countedStatements limit ending 0 toks =
      (statements limit ending toks).map fun ss => ⟨ss, 0⟩ := by
  rw [statements]
  cases hRead : countedStatements limit ending 0 toks with
  | error e => rfl
  | ok ss =>
      have hRestored := restores_countedStatements 0 toks ss hRead
      exact congrArg Except.ok hRestored.eq

/- The end of the input. -/
theorem statements_nil :
    statements limit ending [] = ending.look >>= fun _ => .ok [] := by
  rw [statements, countedStatements, countedNext]
  cases ending.look with
  | error e => rfl
  | ok u => rfl

/- A semicolon without a statement. -/
theorem statements_semicolon
    {t : Token}
    (rest : List Token)
    (h : t.kind = .symbol .semicolon) :
    statements limit ending (t :: rest) =
      statements limit ending rest := by
  rw [statements, statements, countedStatements, countedStatements,
    countedNext, if_pos h]
  cases countedNext limit ending 0 rest with
  | error e => rfl
  | ok p? =>
      cases p? with
      | none => rfl
      | some p => rfl

/- A statement and the others behind it. -/
theorem statements_statement
    {t : Token}
    (rest : List Token)
    (h : t.kind ≠ .symbol .semicolon) :
    statements limit ending (t :: rest) =
      outcome (statement limit ending 0 (t :: rest)) >>= fun p =>
        statements limit ending p.2 >>= fun ss =>
          .ok (p.1 :: ss) := by
  rw [statements, countedStatements, countedNext, if_neg h, statement]
  cases hFirst : countedStatement limit ending 0 (t :: rest) with
  | error e => rfl
  | ok p =>
      have hRestored := restores_countedStatement 0 _ p hFirst
      rcases p with ⟨⟨s, blocks⟩, behind, hBehind⟩
      rcases (hRestored : blocks = 0) with rfl
      show Except.map _ (countedStatements limit ending 0 behind >>= _) =
        statements limit ending behind >>= _
      rw [statements]
      cases countedStatements limit ending 0 behind with
      | error e => rfl
      | ok ss => rfl

/- Skipping a semicolon first makes no difference to what is read. -/
theorem statements_skipSemicolon
    (toks : List Token) :
    (outcome (skipSemicolon ending toks) >>= fun q =>
        statements limit ending q.2) =
      statements limit ending toks := by
  cases toks with
  | nil =>
      rw [outcome_skipSemicolon_nil, statements_nil]
      cases ending with
      | endOfInput pos => exact statements_nil
      | failed e => rfl
  | cons t rest =>
      by_cases hSemicolon : t.kind = .symbol .semicolon
      · rw [outcome_skipSemicolon_of_eq rest hSemicolon,
          statements_semicolon rest hSemicolon, ok_bind]
      · rw [outcome_skipSemicolon_of_ne (.inl (by simp))
          (by simpa using hSemicolon), ok_bind]

/- So a statement needs no semicolon to end it. -/
theorem statements_bare
    {t : Token}
    (rest : List Token)
    (h : t.kind ≠ .symbol .semicolon) :
    statements limit ending (t :: rest) =
      outcome (bareStatement limit ending 0 (t :: rest)) >>= fun p =>
        statements limit ending p.2 >>= fun ss =>
          .ok (p.1 :: ss) := by
  rw [statements_statement rest h, outcome_statement, bind_assoc]
  congr 1
  funext p
  rw [← statements_skipSemicolon p.2, bind_assoc, bind_assoc]
  rfl

end Parse

end DynScript
