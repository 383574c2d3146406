import DynScript.Parse.Stmt
import DynScript.Proofs.Parse.Heights

/-
  The readers of expressions without the heights that they
  count: what they give back and where they stop is determined
  by the trees alone. Each reader gets equations for its
  outcome, one for each way in which it can go on; nothing
  behind this file unfolds a reader of expressions to find its
  outcome.

  Key definitions include:
    * `Parse.boundedTree`
    * `Parse.operand`
    * `Parse.climb`
    * `Parse.extend`
    * `Parse.arguments`

  Main statements include:
    * `Parse.outcome_climb`
    * `Parse.outcome_extend_op`
    * `Parse.outcome_operand_call`
    * `Parse.outcome_someArguments`
-/

namespace DynScript

namespace Parse

variable {limit : Option Nat}
variable {ending : Ending}

------------------------------------------------------------
-- Single tokens
------------------------------------------------------------

/- Looking ahead succeeds when the stream does not end in a fault. -/
theorem peek_eq_ok
    {toks : List Token} :
    peek ending toks = .ok () ↔ toks ≠ [] ∨ ending.look = .ok () := by
  cases toks with
  | nil => simp [peek]
  | cons t rest => simp [peek]

/- A symbol is accepted when it comes next. -/
theorem accept?_cons_of_eq
    {s : Symbol}
    {t : Token}
    (rest : List Token)
    (h : t.kind = .symbol s) :
    accept? s (t :: rest) = some (.leaving () rest) := by
  simp [accept?, h]

/- A symbol is not accepted when something else comes next. -/
theorem accept?_eq_none
    {s : Symbol}
    {toks : List Token}
    (h : ∀ t ∈ toks.head?, t.kind ≠ .symbol s) :
    accept? s toks = none := by
  cases toks with
  | nil => rfl
  | cons t rest =>
      have hKind : t.kind ≠ .symbol s := h t rfl
      simp [accept?, hKind]

/- What was accepted stood in front of the rest. -/
theorem accept?_eq_some
    {s : Symbol}
    {toks : List Token}
    {p : Parsed Unit toks.length}
    (h : accept? s toks = some p) :
    ∃ t rest, t.kind = .symbol s ∧ toks = t :: rest ∧
      p.rest = rest := by
  cases toks with
  | nil => simp [accept?] at h
  | cons t rest =>
      by_cases hKind : t.kind = .symbol s
      · rw [accept?_cons_of_eq rest hKind] at h
        rcases Option.some.inj h with rfl
        exact ⟨t, rest, hKind, rfl, rfl⟩
      · simp [accept?, hKind] at h

/- What comes next where a symbol is not accepted. -/
theorem head_ne_of_accept?_eq_none
    {s : Symbol}
    {toks : List Token}
    (h : accept? s toks = none) :
    ∀ t ∈ toks.head?, t.kind ≠ .symbol s := by
  intro t hHead hKind
  cases toks with
  | nil => simp at hHead
  | cons u rest =>
      rcases Option.some.inj hHead with rfl
      simp [accept?, hKind] at h

/- An expected symbol that comes next is skipped. -/
theorem outcome_expect_of_eq
    {s : Symbol}
    {t : Token}
    (rest : List Token)
    (h : t.kind = .symbol s) :
    outcome (expect ending s (t :: rest)) = .ok ((), rest) := by
  simp [expect, h, Parsed.leaving]

/- What was expected stood in front of the rest. -/
theorem outcome_expect_eq_ok
    {s : Symbol}
    {toks rest : List Token}
    (h : outcome (expect ending s toks) = .ok ((), rest)) :
    ∃ t, t.kind = .symbol s ∧ toks = t :: rest := by
  cases toks with
  | nil => cases h
  | cons t behind =>
      by_cases hKind : t.kind = .symbol s
      · rw [outcome_expect_of_eq behind hKind] at h
        simp only [Except.ok.injEq, Prod.mk.injEq, true_and] at h
        exact ⟨t, hKind, by rw [h]⟩
      · rw [expect, if_neg hKind] at h
        cases h

------------------------------------------------------------
-- Readers without heights
------------------------------------------------------------

/- An expression that is not too high. -/
def boundedTree
    (limit : Option Nat)
    (pos : Position)
    (e : Expr) : Except ParseError Expr :=
  bounded limit pos e.height >>= fun _ => .ok e

/- An operand. -/
def operand
    (limit : Option Nat)
    (ending : Ending)
    (toks : List Token) :
    Except ParseError (Parsed Expr toks.length) :=
  (sizedOperand limit ending toks).map (Parsed.map Sized.tree)

/- An operand and the operators behind it. -/
def climb
    (limit : Option Nat)
    (ending : Ending)
    (least : Nat)
    (toks : List Token) :
    Except ParseError (Parsed Expr toks.length) :=
  (sizedClimb limit ending least toks).map (Parsed.map Sized.tree)

/- The expression `left`, extended to the right. -/
def extend
    (limit : Option Nat)
    (ending : Ending)
    (least : Nat)
    (left : Expr)
    (toks : List Token) :
    Except ParseError (Parsed Expr (toks.length + 1)) :=
  (sizedExtend limit ending least ⟨left, left.height⟩ toks).map
    (Parsed.map Sized.tree)

/- The arguments of a call. -/
def arguments
    (limit : Option Nat)
    (ending : Ending)
    (toks : List Token) :
    Except ParseError (Parsed (List Expr) toks.length) :=
  (sizedArguments limit ending toks).map (Parsed.map Sized.tree)

/- At least one argument. -/
def someArguments
    (limit : Option Nat)
    (ending : Ending)
    (toks : List Token) :
    Except ParseError (Parsed (List Expr) toks.length) :=
  (sizedSomeArguments limit ending toks).map (Parsed.map Sized.tree)

theorem expression_eq_climb
    (toks : List Token) :
    expression limit ending toks = climb limit ending 0 toks :=
  rfl

/- Without a limit every tree is accepted. -/
theorem boundedTree_none
    (pos : Position)
    (e : Expr) :
    boundedTree none pos e = .ok e :=
  rfl

/- With a limit the height decides. -/
theorem boundedTree_some
    (n : Nat)
    (pos : Position)
    (e : Expr) :
    boundedTree (some n) pos e =
      if n < e.height then .error (.tooDeep n pos) else .ok e := by
  unfold boundedTree bounded
  dsimp only
  split
  · rfl
  · rfl

/- A tree within the limit passes the test of its height. -/
theorem boundedTree_eq_ok
    {pos : Position}
    {e e' : Expr} :
    boundedTree limit pos e = .ok e' ↔
      e' = e ∧ ∀ n ∈ limit, e.height ≤ n := by
  cases limit with
  | none => simp [boundedTree_none, eq_comm]
  | some n =>
      by_cases hHeight : n < e.height
      · simp [boundedTree_some, hHeight]
      · simp [boundedTree_some, hHeight, eq_comm,
          Nat.le_of_not_lt hHeight]

/- Testing the height of a tree and going on with it. -/
theorem boundedTree_bind
    {α : Type}
    (pos : Position)
    (e : Expr)
    (next : Expr → Except ParseError α) :
    boundedTree limit pos e >>= next =
      bounded limit pos e.height >>= fun _ => next e := by
  rw [boundedTree, bind_assoc]
  rfl

------------------------------------------------------------
-- Expressions
------------------------------------------------------------

/- Climbing is an operand with the operators behind it. -/
theorem outcome_climb
    (least : Nat)
    (toks : List Token) :
    outcome (climb limit ending least toks) =
      outcome (operand limit ending toks) >>= fun p =>
        outcome (extend limit ending least p.1 p.2) := by
  rw [climb, sizedClimb]
  apply (exact_sizedOperand toks).outcome_bind
  rintro ⟨left, rest, hLt⟩ hExact
  rw [extend, ← Sized.Exact.eq hExact]
  exact outcome_widen _

/- Nothing extends an expression at the end of the input. -/
theorem outcome_extend_nil
    (least : Nat)
    (left : Expr) :
    outcome (extend limit ending least left []) =
      ending.look >>= fun _ => .ok (left, []) := by
  rw [extend, sizedExtend]
  apply outcome_map_test_bind
  intro _ _
  rfl

/- A token that is no operator, or binds too loosely, ends it. -/
theorem outcome_extend_stop
    {least : Nat}
    {t : Token}
    (left : Expr)
    (rest : List Token)
    (h : ∀ op ∈ binaryOp? t.kind, op.precedence ≤ least) :
    outcome (extend limit ending least left (t :: rest)) =
      .ok (left, t :: rest) := by
  rw [extend, sizedExtend]
  cases hOp : binaryOp? t.kind with
  | none => rfl
  | some op =>
      have hLoose : ¬ least < op.precedence :=
        Nat.not_lt.mpr (h op hOp)
      dsimp only
      rw [if_neg hLoose]
      rfl

/- An operator that binds tightly enough extends an expression. -/
theorem outcome_extend_op
    {least : Nat}
    {t : Token}
    {op : BinaryOp}
    (left : Expr)
    (rest : List Token)
    (hOp : binaryOp? t.kind = some op)
    (hTight : least < op.precedence) :
    outcome (extend limit ending least left (t :: rest)) =
      outcome (climb limit ending op.precedence rest) >>= fun p =>
        boundedTree limit t.pos (.binary op left p.1) >>= fun e =>
          outcome (extend limit ending least e p.2) := by
  rw [extend, sizedExtend]
  simp only [hOp, hTight, if_true]
  apply (exact_sizedClimb op.precedence rest).outcome_bind
  intro p hExact
  rw [boundedTree_bind, Expr.height, hExact.size_eq]
  apply outcome_map_test_bind
  intro height hBounded
  rcases eq_of_bounded hBounded with rfl
  rw [extend, Expr.height, hExact.size_eq]
  exact outcome_widen _

/- There is no operand at the end of the input. -/
theorem outcome_operand_nil :
    outcome (operand limit ending []) =
      .error (ending.fault .expression) := by
  rw [operand, sizedOperand]
  rfl

/- An operator before an operand. -/
theorem outcome_operand_unary
    {t : Token}
    {op : UnaryOp}
    (rest : List Token)
    (hOp : unaryOp? t.kind = some op) :
    outcome (operand limit ending (t :: rest)) =
      outcome (operand limit ending rest) >>= fun p =>
        boundedTree limit t.pos (.unary op p.1) >>= fun e =>
          .ok (e, p.2) := by
  rw [operand, sizedOperand]
  simp only [hOp]
  apply (exact_sizedOperand rest).outcome_bind
  intro p hExact
  rw [boundedTree_bind, Expr.height, hExact.size_eq]
  apply outcome_map_test_bind
  intro height _
  rfl

/- A literal. -/
theorem outcome_operand_literal
    {t : Token}
    {e : Expr}
    (rest : List Token)
    (hOp : unaryOp? t.kind = none)
    (hLiteral : literal? t.kind = some e) :
    outcome (operand limit ending (t :: rest)) = .ok (e, rest) := by
  rw [operand, sizedOperand]
  simp only [hOp, hLiteral]
  rfl

/- A name that is not called. -/
theorem outcome_operand_var
    {t : Token}
    {name : String}
    {rest : List Token}
    (hName : t.kind = .ident name)
    (hNext : ∀ u ∈ rest.head?, u.kind ≠ .symbol .parenL) :
    outcome (operand limit ending (t :: rest)) =
      peek ending rest >>= fun _ => .ok (.var name, rest) := by
  rw [operand, sizedOperand]
  simp only [hName, accept?_eq_none hNext]
  apply outcome_map_test_bind
  intro _ _
  rfl

/- A call. -/
theorem outcome_operand_call
    {t u : Token}
    {name : String}
    (rest : List Token)
    (hName : t.kind = .ident name)
    (hOpen : u.kind = .symbol .parenL) :
    outcome (operand limit ending (t :: u :: rest)) =
      outcome (arguments limit ending rest) >>= fun p =>
        boundedTree limit t.pos (.call name p.1) >>= fun e =>
          .ok (e, p.2) := by
  rw [operand, sizedOperand]
  simp only [hName, accept?_cons_of_eq rest hOpen, peek, ok_bind]
  apply (exact_sizedArguments rest).outcome_bind
  intro p hExact
  rw [boundedTree_bind, Expr.height, hExact.size_eq]
  apply outcome_map_test_bind
  intro height _
  rfl

/- An expression in parentheses. -/
theorem outcome_operand_group
    {t : Token}
    (rest : List Token)
    (hOpen : t.kind = .symbol .parenL) :
    outcome (operand limit ending (t :: rest)) =
      outcome (climb limit ending 0 rest) >>= fun p =>
        outcome (expect ending .parenR p.2) >>= fun q =>
          .ok (p.1, q.2) := by
  rw [operand, sizedOperand]
  simp only [hOpen]
  apply (exact_sizedClimb 0 rest).outcome_bind
  intro p _
  apply outcome_map_bind
  intro q
  rfl

/- Anything else is no operand. -/
theorem outcome_operand_other
    {t : Token}
    (rest : List Token)
    (hOp : unaryOp? t.kind = none)
    (hLiteral : literal? t.kind = none)
    (hName : ∀ name, t.kind ≠ .ident name)
    (hOpen : t.kind ≠ .symbol .parenL) :
    outcome (operand limit ending (t :: rest)) =
      .error (t.fault .expression) := by
  rw [operand, sizedOperand]
  simp only [hOp, hLiteral]
  rfl

/- What a token is in the place of an operand. -/
theorem operand_cases
    (k : TokenKind) :
    (∃ op, unaryOp? k = some op) ∨
      (unaryOp? k = none ∧ ∃ e, literal? k = some e) ∨
      (∃ name, k = .ident name) ∨
      k = .symbol .parenL ∨
      (unaryOp? k = none ∧ literal? k = none ∧
        (∀ name, k ≠ .ident name) ∧ k ≠ .symbol .parenL) := by
  cases hOp : unaryOp? k with
  | some op => exact .inl ⟨op, rfl⟩
  | none =>
      cases hLiteral : literal? k with
      | some e => exact .inr (.inl ⟨rfl, e, rfl⟩)
      | none =>
          by_cases hName : ∃ name, k = .ident name
          · exact .inr (.inr (.inl hName))
          by_cases hOpen : k = .symbol .parenL
          · exact .inr (.inr (.inr (.inl hOpen)))
          refine .inr (.inr (.inr (.inr ⟨rfl, rfl, ?_, hOpen⟩)))
          intro name hKind
          exact hName ⟨name, hKind⟩

/-
  The beginnings of an operand: what a token must be for one
  to be read.
-/
theorem operand_begins
    {t : Token}
    {rest : List Token}
    {p : Expr × List Token}
    (h : outcome (operand limit ending (t :: rest)) = .ok p) :
    (∃ op, unaryOp? t.kind = some op) ∨
      (unaryOp? t.kind = none ∧ ∃ e, literal? t.kind = some e) ∨
      (∃ name, t.kind = .ident name) ∨
      t.kind = .symbol .parenL := by
  rcases operand_cases t.kind with
    hUnary | hLiteral | hName | hOpen | ⟨hOp, hLiteral, hName, hOpen⟩
  · exact .inl hUnary
  · exact .inr (.inl hLiteral)
  · exact .inr (.inr (.inl hName))
  · exact .inr (.inr (.inr hOpen))
  · rw [outcome_operand_other rest hOp hLiteral hName hOpen] at h
    cases h

------------------------------------------------------------
-- Arguments
------------------------------------------------------------

/- No arguments between the parentheses. -/
theorem outcome_arguments_close
    {t : Token}
    (rest : List Token)
    (hClose : t.kind = .symbol .parenR) :
    outcome (arguments limit ending (t :: rest)) = .ok ([], rest) := by
  rw [arguments, sizedArguments, accept?_cons_of_eq rest hClose]
  rfl

/- Arguments that do not begin with the closing parenthesis. -/
theorem outcome_arguments_open
    {toks : List Token}
    (hNext : ∀ t ∈ toks.head?, t.kind ≠ .symbol .parenR) :
    outcome (arguments limit ending toks) =
      outcome (someArguments limit ending toks) := by
  rw [arguments, sizedArguments, accept?_eq_none hNext, someArguments]

/- What stands behind an argument: a comma and more, or the end. -/
def moreArguments
    (limit : Option Nat)
    (ending : Ending)
    (e : Expr)
    (toks : List Token) :
    Except ParseError (List Expr × List Token) :=
  match accept? .comma toks with
  | some p =>
    outcome (someArguments limit ending p.rest) >>= fun q =>
      .ok (e :: q.1, q.2)
  | none =>
    outcome (expect ending .parenR toks) >>= fun q =>
      .ok ([e], q.2)

/- Arguments are an expression and what stands behind it. -/
theorem outcome_someArguments
    (toks : List Token) :
    outcome (someArguments limit ending toks) =
      outcome (climb limit ending 0 toks) >>= fun p =>
        moreArguments limit ending p.1 p.2 := by
  rw [someArguments, sizedSomeArguments]
  apply (exact_sizedClimb 0 toks).outcome_bind
  rintro ⟨e, next, hLt⟩ _
  unfold moreArguments
  cases hComma : accept? .comma next with
  | none =>
      simp only [hComma]
      apply outcome_map_bind
      intro q
      rfl
  | some p =>
      simp only [hComma]
      apply (exact_sizedSomeArguments p.rest).outcome_bind
      intro q _
      rfl

end Parse

end DynScript
