import DynScript.Proofs.Parse.Climbing
import DynScript.Proofs.Parse.Statement
import DynScript.Proofs.Syntax.Rendering

/-
  The tokens of a tree's text are read back as the tree. Each
  reader needs as many levels as the blocks of the tree are
  nested: when they are within the limit it gives back the
  tree, and otherwise it says that the nesting is too deep.

  Key definitions include:
    * `Verdict`
    * `Parse.Closes`

  Main statements include:
    * `Parse.reads_expr`
    * `Parse.reads_bareStatement`
    * `Parse.reads_blockBody`
    * `Parse.reads_statements`
-/

namespace DynScript

------------------------------------------------------------
-- Readings that need so many levels
------------------------------------------------------------

/-
  The result of a reading that needs `levels` levels of
  nesting: `a` within the limit, and a fault beyond it.
-/
structure Verdict
    {α : Type}
    (limit : Option Nat)
    (levels : Nat)
    (result : Except ParseError α)
    (a : α) : Prop where
  ok : Fits limit levels → result = .ok a
  tooDeep :
    ∀ n ∈ limit, n < levels →
      ∃ pos, result = .error (.tooDeep n pos)

section Verdict

variable {α β : Type}
variable {limit : Option Nat}
variable {i j : Nat}

theorem Fits.mono
    (h : Fits limit j)
    (hLe : i ≤ j) :
    Fits limit i :=
  fun n hn => Nat.le_trans hLe (h n hn)

/- A result that needs no more levels than there are. -/
theorem Verdict.of_fits
    {result : Except ParseError α}
    {a : α}
    (hFits : Fits limit i)
    (h : result = .ok a) :
    Verdict limit i result a := by
  refine ⟨fun _ => h, ?_⟩
  intro n hn hLt
  exact absurd (hFits n hn) (Nat.not_le_of_lt hLt)

/-
  Two readings one after the other need the levels of both.
  The second one is only made when the first one succeeds.
-/
theorem Verdict.bind
    {levels : Nat}
    {first : Except ParseError α}
    {next : α → Except ParseError β}
    {a : α}
    {b : β}
    (hFirst : Verdict limit i first a)
    (hLevels : levels = max i j)
    (hNext : Fits limit i → Verdict limit j (next a) b) :
    Verdict limit levels (first >>= next) b := by
  constructor
  · intro hFits
    have hSmall : Fits limit i := hFits.mono (by omega)
    rw [hFirst.ok hSmall, ok_bind]
    exact (hNext hSmall).ok (hFits.mono (by omega))
  · intro n hn hLt
    by_cases hBeyond : n < i
    · rcases hFirst.tooDeep n hn hBeyond with ⟨pos, hFault⟩
      exact ⟨pos, by rw [hFault, error_bind]⟩
    · have hFits : Fits limit i := by
        intro m hm
        rcases Option.mem_unique hm hn with rfl
        exact Nat.le_of_not_lt hBeyond
      rw [hFirst.ok hFits, ok_bind]
      exact (hNext hFits).tooDeep n hn (by omega)

/- What always succeeds behind a reading needs no levels. -/
theorem Verdict.andThen
    {first : Except ParseError α}
    {next : α → Except ParseError β}
    {a : α}
    {b : β}
    (hFirst : Verdict limit i first a)
    (hNext : next a = .ok b) :
    Verdict limit i (first >>= next) b :=
  hFirst.bind (Nat.max_self i).symm
    (fun hFits => .of_fits hFits hNext)

end Verdict

namespace Parse

variable {limit : Option Nat}
variable {ending : Ending}
variable {depth : Nat}

------------------------------------------------------------
-- Expressions
------------------------------------------------------------

/- One of the marks comes next, or the end of the input. -/
def Closes
    (marks : List Symbol)
    (ending : Ending)
    (r : List Token) : Prop :=
  (∀ t ∈ r.head?, ∃ s ∈ marks, t.kind = .symbol s) ∧
    (r ≠ [] ∨ ending.look = .ok ())

theorem Closes.mono
    {marks more : List Symbol}
    {r : List Token}
    (h : Closes marks ending r)
    (hSub : marks ⊆ more) :
    Closes more ending r := by
  refine ⟨?_, h.2⟩
  intro t ht
  rcases h.1 t ht with ⟨s, hs, hKind⟩
  exact ⟨s, hSub hs, hKind⟩

theorem closes_cons
    {marks : List Symbol}
    {s : Symbol}
    {t : Token}
    (r : List Token)
    (hMark : s ∈ marks)
    (hKind : t.kind = .symbol s) :
    Closes marks ending (t :: r) := by
  refine ⟨?_, .inl (List.cons_ne_nil t r)⟩
  intro u hu
  rcases Option.some.inj hu with rfl
  exact ⟨s, hMark, hKind⟩

/- The next token is none that is not among the marks. -/
theorem Closes.head_ne
    {marks : List Symbol}
    {s : Symbol}
    {r : List Token}
    (h : Closes marks ending r)
    (hNot : s ∉ marks) :
    ∀ t ∈ r.head?, t.kind ≠ .symbol s := by
  intro t ht hKind
  rcases h.1 t ht with ⟨u, hu, hEq⟩
  rw [hKind] at hEq
  rcases TokenKind.symbol.inj hEq with rfl
  exact hNot hu

/- The marks that may stand behind an expression in a statement. -/
def exprMarks : List Symbol :=
  [.semicolon, .braceR, .braceL]

/- The tokens of an expression are read as it. -/
theorem reads_expr
    {e : Expr}
    {toks r : List Token}
    (hKinds : kinds toks = e.tokens)
    (hWithin : e.Within limit)
    (hRest : Closes exprMarks ending r) :
    outcome (expression limit ending (toks ++ r)) = .ok (e, r) := by
  apply outcome_expression_of_derives
  · rw [hKinds]
    exact (Expr.derives_tokens e).of_primary (Nat.zero_le 6)
  · exact hWithin
  · have hNone : ∀ s ∈ exprMarks, binaryOp? (.symbol s) = none := by
      decide
    intro t ht op hOp
    rcases hRest.1 t ht with ⟨s, hs, hKind⟩
    rw [hKind, hNone s hs] at hOp
    cases hOp
  · intro _ _
    exact hRest.head_ne (by decide)
  · exact hRest.2

/- No expression looks like the beginning of an assignment. -/
theorem not_assign
    {e : Expr}
    {toks r : List Token}
    (hKinds : kinds toks = e.tokens)
    (hNext : ∀ t ∈ r.head?, t.kind ≠ .symbol .assign)
    (name : String)
    (rest : List TokenKind) :
    kinds (toks ++ r) ≠ .ident name :: .symbol .assign :: rest := by
  rw [kinds_append, hKinds]
  intro hEq
  cases e with
  | var x =>
      simp only [Expr.tokens, List.singleton_append,
        List.cons.injEq] at hEq
      rcases kinds_eq_cons hEq.2 with ⟨t, others, rfl, hKind, _⟩
      exact hNext t rfl hKind
  | _ => simp [Expr.tokens] at hEq

/- An expression begins with no keyword and no mark of a statement. -/
theorem expr_begins
    {e : Expr}
    {toks : List Token}
    (r : List Token)
    (hKinds : kinds toks = e.tokens) :
    ∃ t rest, toks ++ r = t :: rest ∧ t.kind.begins = true := by
  rcases (Expr.derives_tokens e).begins with ⟨k, w, hTokens, hBegins⟩
  rw [hTokens] at hKinds
  rcases kinds_eq_cons hKinds with ⟨t, rest, rfl, rfl, _⟩
  exact ⟨t, rest ++ r, rfl, hBegins⟩

/- An expression in the place of a statement. -/
theorem outcome_bareStatement_expr
    {e : Expr}
    {toks r : List Token}
    (hKinds : kinds toks = e.tokens)
    (hWithin : e.Within limit)
    (hRest : Closes exprMarks ending r) :
    outcome (bareStatement limit ending depth (toks ++ r)) =
      definition limit ending depth e r := by
  rcases expr_begins r hKinds with ⟨t, rest, hEq, hBegins⟩
  have hHead : ∀ s : Symbol,
      TokenKind.begins (.symbol s) = false →
        ∀ u ∈ (toks ++ r).head?, u.kind ≠ .symbol s := by
    intro s hNot u hu hKind
    rw [hEq] at hu
    rcases Option.some.inj hu with rfl
    rw [hKind, hNot] at hBegins
    cases hBegins
  rw [outcome_bareStatement_other
    (not_assign hKinds (hRest.head_ne (by decide)))
    (hHead .kwIf rfl) (hHead .kwReturn rfl),
    outcome_callOrDefinition, reads_expr hKinds hWithin hRest, ok_bind]

------------------------------------------------------------
-- Statements and blocks
------------------------------------------------------------

/- The marks that may stand behind a statement. -/
def stmtMarks : List Symbol :=
  [.semicolon, .braceR]

/- The tokens of a statement begin with no mark. -/
theorem stmt_begins
    (s : Stmt) :
    ∃ k w, s.tokens = k :: w ∧ k ≠ .symbol .semicolon ∧
      k ≠ .symbol .braceR := by
  have hExpr : ∀ e : Expr, ∃ k w, e.tokens = k :: w ∧
      k ≠ .symbol .semicolon ∧ k ≠ .symbol .braceR := by
    intro e
    rcases (Expr.derives_tokens e).begins with ⟨k, w, hEq, hBegins⟩
    refine ⟨k, w, hEq, ?_, ?_⟩
    · rintro rfl
      cases hBegins
    · rintro rfl
      cases hBegins
  match s with
  | .assign name value => exact ⟨_, _, rfl, by simp, by simp⟩
  | .branch test yes none => exact ⟨_, _, rfl, by simp, by simp⟩
  | .branch test yes (some no) => exact ⟨_, _, rfl, by simp, by simp⟩
  | .function name params body =>
      exact ⟨_, _, rfl, by simp, by simp⟩
  | .ret (some e) => exact ⟨_, _, rfl, by simp, by simp⟩
  | .ret none => exact ⟨_, _, rfl, by simp, by simp⟩
  | .expr e => exact hExpr e

/- The heading of a function is no higher than two. -/
theorem within_heading
    {name : String}
    {params : List String}
    (h : Fits limit 2) :
    (heading name params).Within limit := by
  have hArgs : Expr.maxHeight (params.map .var) ≤ 1 := by
    induction params with
    | nil => exact Nat.zero_le 1
    | cons x xs ih =>
        simp only [List.map_cons, Expr.maxHeight, Expr.height]
        omega
  apply Fits.mono h
  simp only [heading, Expr.height]
  omega

/- A block is read when its statements are. -/
theorem reads_block
    {ss : List Stmt}
    {toks r : List Token}
    (hKinds : kinds toks = tokensBraced (Stmt.tokensSeq ss))
    (hDepth : Fits limit depth)
    (hBody : ∀ inner t, kinds inner = Stmt.tokensSeq ss →
      t.kind = .symbol .braceR → Fits limit (depth + 1) →
        Verdict limit (depth + 1 + Stmt.nestingSeq ss)
          (outcome (blockBody limit ending (depth + 1)
            (inner ++ t :: r))) (ss, r)) :
    Verdict limit (depth + (Stmt.nestingSeq ss + 1))
      (outcome (block limit ending depth (toks ++ r))) (ss, r) := by
  rcases kinds_eq_append hKinds with
    ⟨front, closing, rfl, hFront, hLast⟩
  rcases kinds_eq_cons hFront with ⟨t, inner, rfl, hOpen, hInner⟩
  rcases kinds_eq_cons hLast with ⟨u, none, rfl, hClose, hNone⟩
  rcases List.map_eq_nil_iff.mp hNone with rfl
  have hSplit : t :: inner ++ [u] ++ r = t :: (inner ++ u :: r) := by
    simp
  rw [hSplit, outcome_block_open _ hOpen]
  have hMayOpen : Verdict limit (depth + 1)
      (mayOpen limit t.pos depth) () := by
    refine ⟨mayOpen_eq_ok.mpr, ?_⟩
    intro n hn hLt
    rcases hn with rfl
    exact ⟨t.pos, mayOpen_tooDeep t.pos (by omega)⟩
  exact hMayOpen.bind (by omega) (hBody inner u hInner hClose)

/- A statement with a semicolon behind it. -/
theorem reads_statement_semicolon
    {s : Stmt}
    {levels : Nat}
    {toks r : List Token}
    {t : Token}
    (hSemicolon : t.kind = .symbol .semicolon)
    (h : Verdict limit levels
      (outcome (bareStatement limit ending depth (toks ++ t :: r)))
      (s, t :: r)) :
    Verdict limit levels
      (outcome (statement limit ending depth (toks ++ t :: r)))
      (s, r) := by
  rw [outcome_statement]
  apply h.andThen
  rw [outcome_skipSemicolon_of_eq r hSemicolon, ok_bind]

/- A statement without one. -/
theorem reads_statement_last
    {s : Stmt}
    {levels : Nat}
    {toks r : List Token}
    (hRest : Closes [.braceR] ending r)
    (h : Verdict limit levels
      (outcome (bareStatement limit ending depth (toks ++ r))) (s, r)) :
    Verdict limit levels
      (outcome (statement limit ending depth (toks ++ r))) (s, r) := by
  rw [outcome_statement]
  apply h.andThen
  rw [outcome_skipSemicolon_of_ne hRest.2 (hRest.head_ne (by decide)),
    ok_bind]

/- A block may stand behind an expression. -/
theorem closes_braced
    {w : List TokenKind}
    {toks : List Token}
    (r : List Token)
    (hKinds : kinds toks = tokensBraced w) :
    Closes exprMarks ending (toks ++ r) := by
  rcases kinds_eq_cons hKinds with ⟨t, rest, rfl, hOpen, _⟩
  exact closes_cons (rest ++ r) (by decide) hOpen

/- A conditional without another branch. -/
theorem reads_conditional_none
    {test : Expr}
    {yes : List Stmt}
    {levels : Nat}
    {u v r : List Token}
    (hTest : kinds u = test.tokens)
    (hWithin : test.Within limit)
    (hOpens : Closes exprMarks ending (v ++ r))
    (hRest : Closes stmtMarks ending r)
    (hYes : Verdict limit levels
      (outcome (block limit ending depth (v ++ r))) (yes, r)) :
    Verdict limit levels
      (outcome (conditional limit ending depth (u ++ (v ++ r))))
      (.branch test yes none, r) := by
  rw [outcome_conditional, reads_expr hTest hWithin hOpens, ok_bind]
  apply hYes.andThen
  rw [peek_eq_ok.mpr hRest.2, ok_bind,
    otherwise_none (hRest.head_ne (by decide))]

/- A conditional with another branch. -/
theorem reads_conditional_some
    {test : Expr}
    {yes no : List Stmt}
    {i j levels : Nat}
    {u v w r : List Token}
    {t : Token}
    (hTest : kinds u = test.tokens)
    (hWithin : test.Within limit)
    (hOpens : Closes exprMarks ending (v ++ t :: (w ++ r)))
    (hElse : t.kind = .symbol .kwElse)
    (hElseOpens : Closes exprMarks ending (w ++ r))
    (hLevels : levels = max i j)
    (hYes : Verdict limit i
      (outcome (block limit ending depth (v ++ t :: (w ++ r))))
      (yes, t :: (w ++ r)))
    (hNo : Verdict limit j
      (outcome (block limit ending depth (w ++ r))) (no, r)) :
    Verdict limit levels
      (outcome (conditional limit ending depth
        (u ++ (v ++ t :: (w ++ r)))))
      (.branch test yes (some no), r) := by
  rw [outcome_conditional, reads_expr hTest hWithin hOpens, ok_bind]
  apply hYes.bind hLevels
  intro _
  rw [peek_eq_ok.mpr (.inl (List.cons_ne_nil t (w ++ r))), ok_bind,
    otherwise_block hElse (hElseOpens.head_ne (by decide))]
  exact hNo.andThen rfl

/- A definition. -/
theorem reads_definition
    {name : String}
    {params : List String}
    {body : List Stmt}
    {levels : Nat}
    {v r : List Token}
    (hOpens : ∃ t rest, v ++ r = t :: rest ∧
      t.kind = .symbol .braceL)
    (hBody : Verdict limit levels
      (outcome (block limit ending depth (v ++ r))) (body, r)) :
    Verdict limit levels
      (definition limit ending depth (heading name params) (v ++ r))
      (.function name params body, r) := by
  rcases hOpens with ⟨t, rest, hEq, hOpen⟩
  have hParams : parameters t.pos (params.map .var) = .ok params :=
    parameters_eq_ok.mpr rfl
  have hHeading :
      heading? (heading name params) (v ++ r) =
        some (name, params.map .var, t.pos) := by
    rw [hEq, heading, heading?, if_pos hOpen]
  rw [definition, hHeading]
  simp only [hParams, ok_bind]
  exact hBody.andThen rfl

/- An expression that is a statement. -/
theorem definition_expr
    (e : Expr)
    {r : List Token}
    (hRest : Closes stmtMarks ending r) :
    definition limit ending depth e r = .ok (.expr e, r) := by
  have hHeading : heading? e r = none := by
    unfold heading?
    split
    · next t _ =>
      have hNot := hRest.head_ne (s := .braceL) (by decide) t rfl
      rw [if_neg hNot]
    · rfl
  rw [definition, hHeading]

/- The tokens of a statement begin with none of its marks. -/
theorem begins_of_kinds
    {s : Stmt}
    {toks : List Token}
    (r : List Token)
    (hKinds : kinds toks = s.tokens) :
    ∃ t rest, toks ++ r = t :: rest ∧
      t.kind ≠ .symbol .semicolon ∧ t.kind ≠ .symbol .braceR := by
  rcases stmt_begins s with ⟨k, w, hTokens, hSemicolon, hClose⟩
  rw [hTokens] at hKinds
  rcases kinds_eq_cons hKinds with ⟨t, rest, rfl, rfl, _⟩
  exact ⟨t, rest ++ r, rfl, hSemicolon, hClose⟩

/- The first of several statements, its semicolon and the others. -/
theorem kinds_eq_tokensSeq
    {s s' : Stmt}
    {ss : List Stmt}
    {toks : List Token}
    (hKinds : kinds toks = Stmt.tokensSeq (s :: s' :: ss)) :
    ∃ us t more, toks = us ++ t :: more ∧ kinds us = s.tokens ∧
      t.kind = .symbol .semicolon ∧
      kinds more = Stmt.tokensSeq (s' :: ss) := by
  rcases kinds_eq_append hKinds with ⟨front, more, rfl, hFront, hMore⟩
  rcases kinds_eq_append hFront with ⟨us, marks, rfl, hFirst, hMarks⟩
  rcases kinds_eq_cons hMarks with ⟨t, none, rfl, hKind, hNone⟩
  rcases List.map_eq_nil_iff.mp hNone with rfl
  refine ⟨us, t, more, ?_, hFirst, hKind, hMore⟩
  rw [List.append_assoc, List.singleton_append]

/- The first statement of a block and the others. -/
theorem reads_blockBody_cons
    {s : Stmt}
    {ss : List Stmt}
    {toks r behind next : List Token}
    (hKinds : kinds toks = s.tokens)
    (hFirst : Verdict limit (depth + s.nesting)
      (outcome (statement limit ending depth (toks ++ r))) (s, next))
    (hOthers : Verdict limit (depth + Stmt.nestingSeq ss)
      (outcome (blockBody limit ending depth next)) (ss, behind)) :
    Verdict limit (depth + Stmt.nestingSeq (s :: ss))
      (outcome (blockBody limit ending depth (toks ++ r)))
      (s :: ss, behind) := by
  rcases begins_of_kinds r hKinds with
    ⟨t, rest, hEq, hSemicolon, hClose⟩
  rw [hEq, outcome_blockBody_statement rest hSemicolon hClose, ← hEq]
  refine hFirst.bind ?_ fun _ => hOthers.andThen rfl
  rw [Stmt.nestingSeq]
  omega

mutual

/- The tokens of a statement are read as it. -/
theorem reads_bareStatement
    {s : Stmt}
    {depth : Nat}
    {toks r : List Token}
    (hTwo : Fits limit 2)
    (hHolds : s.Holds IsName (Expr.WritableWithin limit))
    (hKinds : kinds toks = s.tokens)
    (hDepth : Fits limit depth)
    (hRest : Closes stmtMarks ending r) :
    Verdict limit (depth + s.nesting)
      (outcome (bareStatement limit ending depth (toks ++ r)))
      (s, r) := by
  have hExprRest : Closes exprMarks ending r :=
    hRest.mono (by decide)
  match s, hHolds with
  | .assign name value, h =>
      rcases kinds_eq_cons hKinds with ⟨t, toks, rfl, hName, hKinds⟩
      rcases kinds_eq_cons hKinds with ⟨u, toks, rfl, hAssign, hValue⟩
      apply Verdict.of_fits hDepth
      rw [List.cons_append, List.cons_append,
        outcome_bareStatement_assign _ hName hAssign,
        reads_expr hValue h.2.2 hExprRest, ok_bind]
  | .branch test yes none, h =>
      rcases kinds_eq_cons hKinds with ⟨t, toks, rfl, hIf, hKinds⟩
      rcases kinds_eq_append hKinds with ⟨u, v, rfl, hTest, hYes⟩
      rw [List.cons_append, outcome_bareStatement_if _ hIf,
        List.append_assoc]
      apply reads_conditional_none hTest h.1.2
        (closes_braced r hYes) hRest
      exact reads_block hYes hDepth fun _ _ hInner hClose hDeeper =>
        reads_blockBody hTwo h.2 hInner hDeeper hClose
  | .branch test yes (some no), h =>
      rcases kinds_eq_append hKinds with ⟨toks, w, rfl, hKinds, hNo⟩
      rcases kinds_eq_append hKinds with ⟨toks, e, rfl, hKinds, hLast⟩
      rcases kinds_eq_append hKinds with ⟨toks, v, rfl, hKinds, hYes⟩
      rcases kinds_eq_cons hKinds with ⟨t, u, rfl, hIf, hTest⟩
      rcases kinds_eq_cons hLast with ⟨x, none, rfl, hElse, hNone⟩
      rcases List.map_eq_nil_iff.mp hNone with rfl
      have hSplit :
          t :: u ++ v ++ [x] ++ w ++ r =
            t :: (u ++ (v ++ x :: (w ++ r))) := by
        simp
      rw [hSplit, outcome_bareStatement_if _ hIf]
      refine reads_conditional_some hTest h.1.2
        (closes_braced _ hYes) hElse (closes_braced r hNo) ?_
        (reads_block hYes hDepth fun _ _ hInner hClose hDeeper =>
          reads_blockBody hTwo h.2.1 hInner hDeeper hClose)
        (reads_block hNo hDepth fun _ _ hInner hClose hDeeper =>
          reads_blockBody hTwo h.2.2 hInner hDeeper hClose)
      rw [Stmt.nesting]
      omega
  | .function name params body, h =>
      rcases kinds_eq_append hKinds with ⟨u, v, rfl, hHeading, hBody⟩
      rw [List.append_assoc, outcome_bareStatement_expr hHeading
        (within_heading hTwo) (closes_braced r hBody)]
      apply reads_definition
      · rcases kinds_eq_cons hBody with ⟨t, rest, rfl, hOpen, _⟩
        exact ⟨t, rest ++ r, rfl, hOpen⟩
      · exact reads_block hBody hDepth fun _ _ hInner hClose hDeeper =>
          reads_blockBody hTwo h.2.2 hInner hDeeper hClose
  | .ret (some e), h =>
      rcases kinds_eq_cons hKinds with ⟨t, toks, rfl, hReturn, hValue⟩
      rcases expr_begins r hValue with ⟨u, rest, hEq, hBegins⟩
      have hNot : ∀ s : Symbol,
          TokenKind.begins (.symbol s) = false →
            u.kind ≠ .symbol s := by
        intro s hNot hKind
        rw [hKind, hNot] at hBegins
        cases hBegins
      apply Verdict.of_fits hDepth
      rw [List.cons_append, outcome_bareStatement_return _ hReturn, hEq,
        outcome_returned_some _ (hNot .braceR rfl)
          (hNot .semicolon rfl), ← hEq,
        reads_expr hValue (h e rfl).2 hExprRest, ok_bind, ok_bind]
  | .ret none, _ =>
      rcases kinds_eq_cons hKinds with ⟨t, toks, rfl, hReturn, hNone⟩
      rcases List.map_eq_nil_iff.mp hNone with rfl
      apply Verdict.of_fits hDepth
      rw [List.cons_append, outcome_bareStatement_return _ hReturn,
        List.nil_append, outcome_returned_none hRest.2, ok_bind]
      intro u hu
      rcases hRest.1 u hu with ⟨m, hm, hKind⟩
      simp only [stmtMarks, List.mem_cons, List.not_mem_nil,
        or_false] at hm
      rcases hm with rfl | rfl
      · exact .inr hKind
      · exact .inl hKind
  | .expr e, h =>
      apply Verdict.of_fits hDepth
      rw [outcome_bareStatement_expr hKinds h.2 hExprRest,
        definition_expr e hRest]

/- The tokens of statements and a closing brace are read as them. -/
theorem reads_blockBody
    {ss : List Stmt}
    {depth : Nat}
    {toks r : List Token}
    {t : Token}
    (hTwo : Fits limit 2)
    (hHolds : Stmt.HoldsSeq IsName (Expr.WritableWithin limit) ss)
    (hKinds : kinds toks = Stmt.tokensSeq ss)
    (hDepth : Fits limit depth)
    (hClose : t.kind = .symbol .braceR) :
    Verdict limit (depth + Stmt.nestingSeq ss)
      (outcome (blockBody limit ending depth (toks ++ t :: r)))
      (ss, r) := by
  match ss, hHolds with
  | [], _ =>
      rcases List.map_eq_nil_iff.mp hKinds with rfl
      exact .of_fits hDepth (outcome_blockBody_close r hClose)
  | [s], h =>
      have hMarks : Closes [.braceR] ending (t :: r) :=
        closes_cons r (by decide) hClose
      have hFirst := reads_statement_last hMarks
        (reads_bareStatement hTwo h.1 hKinds hDepth
          (hMarks.mono (by decide)))
      exact reads_blockBody_cons hKinds hFirst
        (.of_fits hDepth (outcome_blockBody_close r hClose))
  | s :: s' :: ss, h =>
      rcases kinds_eq_tokensSeq hKinds with
        ⟨toks, x, more, rfl, hFirst, hSemicolon, hMore⟩
      have hStmt := reads_statement_semicolon hSemicolon
        (reads_bareStatement hTwo h.1 hFirst hDepth
          (closes_cons (more ++ t :: r) (by decide) hSemicolon))
      rw [List.append_assoc, List.cons_append]
      exact reads_blockBody_cons hFirst hStmt
        (reads_blockBody hTwo h.2 hMore hDepth hClose)

end

------------------------------------------------------------
-- Programs
------------------------------------------------------------

/- The first statement of a program and the others. -/
theorem reads_statements_cons
    {s : Stmt}
    {ss : List Stmt}
    {toks r next : List Token}
    (hKinds : kinds toks = s.tokens)
    (hFirst : Verdict limit (0 + s.nesting)
      (outcome (statement limit ending 0 (toks ++ r))) (s, next))
    (hOthers : Verdict limit (Stmt.nestingSeq ss)
      (statements limit ending next) ss) :
    Verdict limit (Stmt.nestingSeq (s :: ss))
      (statements limit ending (toks ++ r)) (s :: ss) := by
  rcases begins_of_kinds r hKinds with ⟨t, rest, hEq, hSemicolon, _⟩
  rw [hEq, statements_statement rest hSemicolon, ← hEq]
  refine hFirst.bind ?_ fun _ => hOthers.andThen rfl
  rw [Stmt.nestingSeq, Nat.zero_add]

/- The tokens of a program are read as it. -/
theorem reads_statements
    {ss : List Stmt}
    {toks : List Token}
    (hTwo : Fits limit 2)
    (hHolds : Stmt.HoldsSeq IsName (Expr.WritableWithin limit) ss)
    (hKinds : kinds toks = Stmt.tokensSeq ss)
    (hEnd : ending.look = .ok ()) :
    Verdict limit (Stmt.nestingSeq ss)
      (statements limit ending toks) ss := by
  have hZero : Fits limit 0 := hTwo.mono (Nat.zero_le 2)
  have hNil : statements limit ending [] = .ok [] := by
    rw [statements_nil, hEnd, ok_bind]
  match ss, hHolds with
  | [], _ =>
      rcases List.map_eq_nil_iff.mp hKinds with rfl
      exact .of_fits hZero hNil
  | [s], h =>
      have hMarks : Closes [.braceR] ending [] := by
        refine ⟨?_, .inr hEnd⟩
        intro t ht
        cases ht
      have hFirst := reads_statement_last hMarks
        (reads_bareStatement hTwo h.1 hKinds hZero
          (hMarks.mono (by decide)))
      rw [← List.append_nil toks]
      exact reads_statements_cons hKinds hFirst (.of_fits hZero hNil)
  | s :: s' :: ss, h =>
      rcases kinds_eq_tokensSeq hKinds with
        ⟨toks, x, more, rfl, hFirst, hSemicolon, hMore⟩
      have hMarks : Closes stmtMarks ending (x :: more) :=
        closes_cons more (by decide) hSemicolon
      have hStmt := reads_statement_semicolon hSemicolon
        (reads_bareStatement hTwo h.1 hFirst hZero hMarks)
      exact reads_statements_cons hFirst hStmt
        (reads_statements hTwo h.2 hMore hEnd)

end Parse

end DynScript
