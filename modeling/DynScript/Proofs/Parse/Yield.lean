import DynScript.Proofs.Parse.RoundTrip

/-
  Nothing is lost, repeated or moved between the tokens of a
  source text and its tree. Without the tokens that only group
  and separate, the tokens are those of the tree from left to
  right.

  Key definitions include:
    * `significant`
    * `Expr.yield`
    * `Stmt.yield`
    * `Piece.Yields`

  Main statements include:
    * `Derives.yields`
    * `Forms.yields`
    * `parse_yield`
-/

namespace DynScript

------------------------------------------------------------
-- Tokens that group and separate
------------------------------------------------------------

/- A token that groups or separates others. -/
def TokenKind.groups : TokenKind → Bool
  | .symbol s => s ∈ [.parenL, .parenR, .braceL, .braceR, .semicolon]
  | _ => false

/- The tokens that do not only group and separate. -/
def significant
    (w : List TokenKind) : List TokenKind :=
  w.filter fun k => !k.groups

@[simp]
theorem significant_nil :
    significant [] = [] :=
  rfl

@[simp]
theorem significant_append
    (u v : List TokenKind) :
    significant (u ++ v) = significant u ++ significant v :=
  List.filter_append u v

/- A token that groups leaves nothing. -/
theorem significant_cons_of_groups
    {k : TokenKind}
    (w : List TokenKind)
    (h : k.groups = true) :
    significant (k :: w) = significant w := by
  simp [significant, h]

/- Any other token stays. -/
theorem significant_cons_of_not_groups
    {k : TokenKind}
    (w : List TokenKind)
    (h : k.groups = false) :
    significant (k :: w) = k :: significant w := by
  simp [significant, h]

/- Tokens between brackets that group them. -/
theorem significant_enclosed
    {left right : TokenKind}
    (w : List TokenKind)
    (hLeft : left.groups = true)
    (hRight : right.groups = true) :
    significant (left :: (w ++ [right])) = significant w := by
  rw [significant_cons_of_groups _ hLeft, significant_append,
    significant_cons_of_groups [] hRight, significant_nil,
    List.append_nil]

------------------------------------------------------------
-- The tokens of a tree
------------------------------------------------------------

/- Sequences of tokens with commas between them. -/
def commaSeparated
    (parts : List (List TokenKind)) : List TokenKind :=
  [.symbol .comma].intercalate parts

/- Commas stay between what is left of the parts. -/
theorem significant_commaSeparated
    (parts : List (List TokenKind)) :
    significant (commaSeparated parts) =
      commaSeparated (parts.map significant) := by
  unfold commaSeparated
  induction parts with
  | nil => rfl
  | cons part parts ih =>
      cases parts with
      | nil => simp
      | cons next parts =>
          rw [List.map_cons, List.map_cons] at *
          rw [List.intercalate_cons_cons, List.intercalate_cons_cons,
            significant_append, significant_append, ih]
          rfl

mutual

/- The tokens of an expression from left to right. -/
def Expr.yield : Expr → List TokenKind
  | .int i => [.int i]
  | .float x => [.float x]
  | .str s => [.str s]
  | .bool true => [.symbol .kwTrue]
  | .bool false => [.symbol .kwFalse]
  | .nil => [.symbol .kwNil]
  | .var name => [.ident name]
  | .unary op e => .symbol op.symbol :: e.yield
  | .binary op l r => l.yield ++ .symbol op.symbol :: r.yield
  | .call name args => .ident name :: commaSeparated (Expr.yields args)

/- The tokens of each expression of a list. -/
def Expr.yields : List Expr → List (List TokenKind)
  | [] => []
  | e :: es => e.yield :: Expr.yields es

end

theorem Expr.yields_eq_map
    (es : List Expr) :
    Expr.yields es = es.map Expr.yield := by
  induction es with
  | nil => rfl
  | cons e es ih => rw [Expr.yields, ih, List.map_cons]

mutual

/- The tokens of a statement from left to right. -/
def Stmt.yield : Stmt → List TokenKind
  | .assign name e => .ident name :: .symbol .assign :: e.yield
  | .branch test yes none =>
    .symbol .kwIf :: (test.yield ++ Stmt.yieldSeq yes)
  | .branch test yes (some no) =>
    .symbol .kwIf :: (test.yield ++ Stmt.yieldSeq yes
      ++ .symbol .kwElse :: Stmt.yieldSeq no)
  | .function name params body =>
    .ident name :: (commaSeparated (params.map fun x => [.ident x])
      ++ Stmt.yieldSeq body)
  | .ret none => [.symbol .kwReturn]
  | .ret (some e) => .symbol .kwReturn :: e.yield
  | .expr e => e.yield

/- The tokens of statements one after the other. -/
def Stmt.yieldSeq : List Stmt → List TokenKind
  | [] => []
  | s :: ss => s.yield ++ Stmt.yieldSeq ss

end

/- A heading has the tokens of the call that it looks like. -/
theorem yield_heading
    (name : String)
    (params : List String) :
    (heading name params).yield =
      .ident name :: commaSeparated (params.map fun x => [.ident x]) := by
  rw [heading, Expr.yield, Expr.yields_eq_map, List.map_map]
  rfl

------------------------------------------------------------
-- What is derived
------------------------------------------------------------

/- The symbol of an operator of a layer. -/
theorem Layer.symbol_eq_of_mem_operators
    {layer : Layer}
    {s : Symbol}
    {op : BinaryOp}
    (h : (s, op) ∈ layer.operators) :
    s = op.symbol := by
  have hOp := (Layer.of_mem_operators h).1
  cases s <;> cases hOp <;> rfl

/- The symbol of a sign. -/
theorem Layer.symbol_eq_of_mem_signs
    {s : Symbol}
    {op : UnaryOp}
    (h : (s, op) ∈ Layer.signs) :
    s = op.symbol := by
  simp only [Layer.signs, List.mem_cons, Prod.mk.injEq,
    List.not_mem_nil, or_false] at h
  rcases h with ⟨rfl, rfl⟩ | ⟨rfl, rfl⟩ <;> rfl

/- No operator groups. -/
theorem BinaryOp.not_groups_symbol
    (op : BinaryOp) :
    TokenKind.groups (.symbol op.symbol) = false := by
  cases op <;> rfl

/- No sign groups. -/
theorem UnaryOp.not_groups_symbol
    (op : UnaryOp) :
    TokenKind.groups (.symbol op.symbol) = false := by
  cases op <;> rfl

/- What derives an expression has its tokens. -/
theorem Derives.yields
    {layer : Layer}
    {w : List TokenKind}
    {e : Expr}
    (h : Derives layer w e) :
    significant w = e.yield := by
  induction h with
  | descend _ _ ih => exact ih
  | @operator _ _ s op u v left right _ hOp _ _ ihLeft ihRight =>
      rcases Layer.symbol_eq_of_mem_operators hOp with rfl
      rw [significant_append, ihLeft,
        significant_cons_of_not_groups v op.not_groups_symbol,
        ihRight, Expr.yield]
  | @sign s op w e hOp _ ih =>
      rcases Layer.symbol_eq_of_mem_signs hOp with rfl
      rw [significant_cons_of_not_groups w op.not_groups_symbol, ih,
        Expr.yield]
  | int i => rfl
  | float x => rfl
  | str s => rfl
  | true => rfl
  | false => rfl
  | nil => rfl
  | var name => rfl
  | call name args _ ih =>
      have hArgs : (args.map Prod.fst).map significant =
          (args.map Prod.snd).map Expr.yield := by
        rw [List.map_map, List.map_map]
        exact List.map_congr_left ih
      rw [significant_cons_of_not_groups _ rfl,
        significant_enclosed _ rfl rfl, Expr.yield,
        Expr.yields_eq_map, ← hArgs]
      exact congrArg _ (significant_commaSeparated _)
  | group _ ih => rw [significant_enclosed _ rfl rfl, ih]

------------------------------------------------------------
-- What is formed
------------------------------------------------------------

/-
  The tokens of a piece are those of its tree. The tokens of a
  conditional are given from behind the keyword.
-/
def Piece.Yields
    (w : List TokenKind) : Piece → Prop
  | .stmt s => significant w = s.yield
  | .conditional s => .symbol .kwIf :: significant w = s.yield
  | .block b => significant w = Stmt.yieldSeq b
  | .seq b => significant w = Stmt.yieldSeq b

/- What forms a piece has its tokens. -/
theorem Forms.yields
    {limit : Option Nat}
    {w : List TokenKind}
    {p : Piece}
    (h : Forms limit w p) :
    p.Yields w := by
  induction h with
  | assign name hValue _ =>
      simp only [Piece.Yields]
      rw [significant_cons_of_not_groups _ rfl,
        significant_cons_of_not_groups _ rfl, hValue.yields, Stmt.yield]
  | branch _ ih =>
      simp only [Piece.Yields] at ih ⊢
      rw [significant_cons_of_not_groups _ rfl, ih]
  | retNone => rfl
  | retSome hValue _ =>
      simp only [Piece.Yields]
      rw [significant_cons_of_not_groups _ rfl, hValue.yields, Stmt.yield]
  | expr hExpr _ => exact hExpr.yields
  | function hHeading _ ih =>
      simp only [Piece.Yields] at ih ⊢
      rw [significant_append, hHeading.yields, yield_heading, ih,
        Stmt.yield, List.cons_append]
  | ifOnly hTest _ _ ih =>
      simp only [Piece.Yields] at ih ⊢
      rw [significant_append, hTest.yields, ih, Stmt.yield]
  | ifElse hTest _ _ _ ihYes ihNo =>
      simp only [Piece.Yields] at ihYes ihNo ⊢
      rw [significant_append, significant_append, hTest.yields, ihYes,
        significant_cons_of_not_groups _ rfl, ihNo, Stmt.yield]
  | elseIf hTest _ _ _ ihYes ihChain =>
      -- The keyword `if` of the link belongs to the inner conditional.
      simp only [Piece.Yields] at ihYes ihChain ⊢
      rw [significant_append, significant_append, hTest.yields, ihYes,
        significant_cons_of_not_groups _ rfl,
        significant_cons_of_not_groups _ rfl, ihChain, Stmt.yield,
        Stmt.yieldSeq, Stmt.yieldSeq, List.append_nil]
  | block _ ih =>
      simp only [Piece.Yields] at ih ⊢
      rw [significant_enclosed _ rfl rfl, ih]
  | nil => rfl
  | semicolon _ ih =>
      simp only [Piece.Yields] at ih ⊢
      rw [significant_cons_of_groups _ rfl, ih]
  | cons _ _ ihFirst ihOthers =>
      simp only [Piece.Yields] at ihFirst ihOthers ⊢
      rw [significant_append, ihFirst, ihOthers, Stmt.yieldSeq]

------------------------------------------------------------
-- What is read
------------------------------------------------------------

/- A program is read only up to the end of the input. -/
theorem Parse.look_of_statements
    {limit : Option Nat}
    {ending : Ending}
    {toks : List Token}
    {b : Block}
    (h : statements limit ending toks = .ok b) :
    ending.look = .ok () := by
  induction hLength : toks.length using Nat.strong_induction_on
    generalizing toks b with
  | _ n ih =>
      cases toks with
      | nil =>
          rw [statements_nil] at h
          rcases bind_succeeds_iff.mp h with ⟨_, hLook, _⟩
          exact hLook
      | cons t rest =>
          by_cases hSemicolon : t.kind = .symbol .semicolon
          · rw [statements_semicolon rest hSemicolon] at h
            exact ih rest.length (by rw [← hLength]; simp) h rfl
          · rw [statements_statement rest hSemicolon] at h
            rcases bind_succeeds_iff.mp h with
              ⟨⟨s, next⟩, hStmt, hThen⟩
            rcases bind_succeeds_iff.mp hThen with
              ⟨ss, hOthers, _⟩
            have hShorter := length_lt_of_outcome hStmt
            exact ih next.length (hLength ▸ hShorter) hOthers rfl

/- A text that is read as a program has no lexical fault. -/
theorem tokenize_of_look
    {source : String}
    (h : (TokenStream.ofSource source).ending.look = .ok ()) :
    ∃ pos, tokenize source =
      .ok ((TokenStream.ofSource source).tokens, pos) := by
  cases hEnding : (TokenStream.ofSource source).ending with
  | endOfInput pos => exact ⟨pos, by simp only [tokenize, hEnding]⟩
  | failed e =>
      rw [hEnding] at h
      cases h

/-
  A source text that is read as a program has the tokens of
  the program, in the same order, and besides them only tokens
  that group and separate.
-/
theorem parse_yield
    {source : String}
    {b : Block}
    (h : parse source = .ok b) :
    ∃ toks pos, tokenize source = .ok (toks, pos) ∧
      significant (kinds toks) = Stmt.yieldSeq b := by
  rcases tokenize_of_look (Parse.look_of_statements h) with
    ⟨pos, hTokens⟩
  have hForms := Parse.forms_of_statements (by simp [maxNesting]) h
  exact ⟨_, pos, hTokens, hForms.yields⟩

/- The tokens of a text with all kinds of brackets in it. -/
theorem sample_yield :
    parse sample.render = .ok sample ∧
      ∃ toks pos, tokenize sample.render = .ok (toks, pos) ∧
        significant (kinds toks) =
          [.ident "least", .ident "a", .symbol .comma, .ident "b",
            .symbol .kwIf, .ident "a", .symbol .le, .ident "b",
            .symbol .kwReturn, .ident "a",
            .symbol .kwElse, .symbol .kwReturn,
            .ident "text", .symbol .assign,
            .str "say \"no\" \\ 'maybe'\n",
            .symbol .kwIf, .ident "least",
            .symbol .bang, .ident "least", .symbol .minus,
            .int 9223372036854775807, .symbol .comma, .float 0.1] := by
  have hSample : sample.WellFormed := by decide +kernel
  have hParse : parse sample.render = .ok sample := by
    apply (verdict_parseWithin_render fits_maxNesting
      hSample.writable).ok
    intro n hn
    rcases Option.some.inj hn with rfl
    exact hSample.nesting_le
  exact ⟨hParse, parse_yield hParse⟩

end DynScript
