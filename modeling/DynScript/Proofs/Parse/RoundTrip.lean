import DynScript.Proofs.Parse.Forms
import DynScript.Proofs.Parse.ReadsBack

/-
  Writing a program and reading it again. A well-formed tree
  comes back as it was. A tree that was read is well formed
  but for its nesting: a chain of `else if` opens one block
  after the other in a source text and one inside the other
  in the tree, so that its text may be nested too deep.

  Main statements include:
    * `verdict_parseWithin_render`
    * `writableWithin_of_parseWithin`
    * `parse_render`
    * `parse_render_of_parse`
-/

namespace DynScript

------------------------------------------------------------
-- Writing and reading
------------------------------------------------------------

/-
  The text of a program is read as the program when its blocks
  are not nested too deep, and is refused otherwise.
-/
theorem verdict_parseWithin_render
    {limit : Option Nat}
    {b : Block}
    (hTwo : Fits limit 2)
    (hWritable : b.WritableWithin limit) :
    Verdict limit b.nesting (parseWithin limit b.render) b := by
  rcases (Block.scans_render hWritable).ofSource with
    ⟨pos, toks, hKinds, hStream⟩
  rw [parseWithin, hStream]
  exact Parse.reads_statements hTwo hWritable hKinds rfl

/- A program that was read can be written. -/
theorem writableWithin_of_parseWithin
    {limit : Option Nat}
    {source : String}
    {b : Block}
    (hLimit : ∀ n ∈ limit, 0 < n)
    (h : parseWithin limit source = .ok b) :
    b.WritableWithin limit :=
  (Parse.forms_of_statements hLimit h).writable
    (writable_of_scan .start source.toList)

theorem fits_maxNesting :
    Fits (some maxNesting) 2 := by
  intro n hn
  rcases Option.some.inj hn with rfl
  decide

------------------------------------------------------------
-- Well-formed programs
------------------------------------------------------------

/- A text with the tokens of a well-formed program is the program. -/
theorem parse_of_kinds
    {text : String}
    {b : Block}
    (toks : List Token)
    (p : Position)
    (hStream : TokenStream.ofSource text = ⟨toks, .endOfInput p⟩)
    (hKinds : kinds toks = Stmt.tokensSeq b)
    (hWell : b.WellFormed) :
    parse text = .ok b := by
  rw [parse, parseWithin, hStream]
  apply (Parse.reads_statements fits_maxNesting hWell.writable hKinds
    rfl).ok
  intro n hn
  rcases Option.some.inj hn with rfl
  exact hWell.nesting_le

/- A well-formed program is read back from its text. -/
theorem parse_render
    {b : Block}
    (h : b.WellFormed) :
    parse b.render = .ok b := by
  apply (verdict_parseWithin_render fits_maxNesting h.writable).ok
  intro n hn
  rcases Option.some.inj hn with rfl
  exact h.nesting_le

/- A program with a function, quote marks and signs. -/
def sample : Block :=
  [.function "least" ["a", "b"]
      [.branch (.binary .le (.var "a") (.var "b"))
        [.ret (some (.var "a"))] (some [.ret none])],
    .assign "text" (.str "say \"no\" \\ 'maybe'\n"),
    .branch (.call "least" [])
      [] none,
    .expr (.unary .not (.call "least"
      [.unary .neg (.int 9223372036854775807), .float 0.1]))]

theorem sample_read_back :
    sample.WellFormed ∧ parse sample.render = .ok sample := by
  have hSample : sample.WellFormed := by decide +kernel
  exact ⟨hSample, parse_render hSample⟩

------------------------------------------------------------
-- Chains of conditionals
------------------------------------------------------------

/- A conditional with `n` others behind it, each inside the last. -/
def chain : Nat → Stmt
  | 0 => .branch (.bool true) [] none
  | n + 1 => .branch (.bool true) [] (some [chain n])

/- Its source text, in which no block stands inside another one. -/
def chainText : Nat → String
  | 0 => (chain 0).render
  | n + 1 => (chain 0).render ++ " else " ++ chainText n

/- The tokens of that text. -/
def chainTokens : Nat → List TokenKind
  | 0 => (chain 0).tokens
  | n + 1 => (chain 0).tokens ++ [.symbol .kwElse] ++ chainTokens n

theorem chainTokens_begin
    (n : Nat) :
    ∃ w, chainTokens n = .symbol .kwIf :: w := by
  cases n with
  | zero => exact ⟨_, rfl⟩
  | succ n => exact ⟨_, rfl⟩

theorem nestingSeq_chain
    (n : Nat) :
    Stmt.nestingSeq [chain n] = n + 1 := by
  induction n with
  | zero => rfl
  | succ n ih =>
      rw [chain, Stmt.nestingSeq, Stmt.nesting, ih]
      simp [Stmt.nestingSeq]

theorem holds_chain_zero :
    (chain 0).Holds IsName
      (Expr.WritableWithin (some maxNesting)) := by
  refine ⟨⟨trivial, ?_⟩, trivial⟩
  intro n hn
  rcases Option.some.inj hn with rfl
  decide

theorem scans_chainText
    (n : Nat) :
    Scans (chainText n).toList (chainTokens n) [] := by
  induction n with
  | zero =>
      apply Stmt.scans_render holds_chain_zero
      intro c hc
      cases hc
  | succ n ih =>
      have hFirst : Scans (chain 0).render.toList (chain 0).tokens
          (" else ".toList ++ ((chainText n).toList ++ [])) :=
        Stmt.scans_render holds_chain_zero
          (boundary_cons _ (by decide))
      have hElse : Scans " else ".toList [.symbol .kwElse]
          ((chainText n).toList ++ []) :=
        (scans_space _).append
          (scans_keyword_space (s := .kwElse) _ (by decide))
      simp only [chainText, chainTokens, String.toList_append]
      exact (hFirst.append hElse).append ih

/- A chain needs one level, however long it is. -/
theorem Parse.outcome_chain
    {ending : Ending}
    {toks r : List Token}
    (n : Nat)
    (hKinds : kinds toks = chainTokens n)
    (hRest : Closes stmtMarks ending r) :
    outcome (bareStatement (some maxNesting) ending 0 (toks ++ r)) =
      .ok (chain n, r) := by
  have hZero : Fits (some maxNesting) 0 :=
    fits_maxNesting.mono (Nat.zero_le 2)
  have hOne : Fits (some maxNesting) 1 :=
    fits_maxNesting.mono (by decide)
  induction n generalizing toks with
  | zero =>
      exact (reads_bareStatement fits_maxNesting holds_chain_zero hKinds
        hZero hRest).ok hOne
  | succ n ih =>
      rcases kinds_eq_append hKinds with
        ⟨front, more, rfl, hFront, hMore⟩
      rcases kinds_eq_append hFront with
        ⟨first, marks, rfl, hFirst, hMark⟩
      rcases kinds_eq_cons hMark with ⟨x, none, rfl, hElse, hNone⟩
      rcases List.map_eq_nil_iff.mp hNone with rfl
      rcases kinds_eq_cons hFirst with ⟨t, first, rfl, hIf, hFirst⟩
      rcases kinds_eq_append hFirst with ⟨u, v, rfl, hTest, hYes⟩
      rcases chainTokens_begin n with ⟨w, hBegin⟩
      rcases kinds_eq_cons (hMore.trans hBegin) with
        ⟨y, ys, rfl, hNextIf, _⟩
      have hBlock :
          outcome (block (some maxNesting) ending 0
              (v ++ x :: y :: (ys ++ r))) =
            .ok ([], x :: y :: (ys ++ r)) :=
        (reads_block hYes hZero fun _ _ hInner hClose hDeeper =>
          reads_blockBody fits_maxNesting trivial hInner hDeeper
            hClose).ok hOne
      have hChain := ih hMore
      rw [List.cons_append, outcome_bareStatement_if _ hNextIf] at hChain
      have hSplit :
          t :: (u ++ v) ++ [x] ++ y :: ys ++ r =
            t :: (u ++ (v ++ x :: y :: (ys ++ r))) := by
        simp
      rw [hSplit, outcome_bareStatement_if _ hIf, outcome_conditional,
        reads_expr hTest holds_chain_zero.1.2 (closes_braced _ hYes),
        ok_bind, hBlock, ok_bind,
        peek_eq_ok.mpr (.inl (List.cons_ne_nil _ _)), ok_bind,
        otherwise_chain _ hElse hNextIf, hChain, ok_bind]
      rfl

/- A chain of any length is read. -/
theorem parse_chainText
    (n : Nat) :
    parse (chainText n) = .ok [chain n] := by
  rcases (scans_chainText n).ofSource with
    ⟨pos, toks, hKinds, hStream⟩
  rcases chainTokens_begin n with ⟨w, hBegin⟩
  rcases kinds_eq_cons (hKinds.trans hBegin) with
    ⟨t, rest, rfl, hIf, _⟩
  have hEnd : Parse.Closes Parse.stmtMarks (.endOfInput pos) [] := by
    refine ⟨?_, .inr rfl⟩
    intro t ht
    cases ht
  have hBare := Parse.outcome_chain n hKinds hEnd
  have hNotSemicolon : t.kind ≠ .symbol .semicolon := by
    rw [hIf]
    decide
  rw [List.append_nil] at hBare
  rw [parse, parseWithin, hStream]
  rw [Parse.statements_statement rest hNotSemicolon,
    Parse.outcome_statement, hBare, ok_bind,
    Parse.outcome_skipSemicolon_of_ne (.inr rfl) (by simp), ok_bind,
    ok_bind, Parse.statements_nil]
  rfl

/-
  A program that was read is read back from its text exactly
  when the blocks of its tree are not nested too deep.
-/
theorem parse_render_of_parse
    {source : String}
    {b : Block}
    (h : parse source = .ok b) :
    (b.nesting ≤ maxNesting → parse b.render = .ok b) ∧
      (maxNesting < b.nesting →
        ∃ pos, parse b.render =
          .error (.tooDeep maxNesting pos)) := by
  have hWritable : b.WritableWithin (some maxNesting) :=
    writableWithin_of_parseWithin (by simp [maxNesting]) h
  have hVerdict :=
    verdict_parseWithin_render fits_maxNesting hWritable
  constructor
  · intro hNesting
    apply hVerdict.ok
    intro n hn
    rcases Option.some.inj hn with rfl
    exact hNesting
  · exact hVerdict.tooDeep maxNesting rfl

/-
  A chain of 513 conditionals is read, but its text is nested
  too deep.
-/
theorem chain_not_read_back :
    parse (chainText 512) = .ok [chain 512] ∧
      ∃ pos, parse (Block.render [chain 512]) =
        .error (.tooDeep maxNesting pos) := by
  have hParse := parse_chainText 512
  have hDeep : maxNesting < Block.nesting [chain 512] := by
    rw [Block.nesting, nestingSeq_chain]
    decide
  exact ⟨hParse, (parse_render_of_parse hParse).2 hDeep⟩

end DynScript
