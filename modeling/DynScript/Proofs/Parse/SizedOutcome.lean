import DynScript.Proofs.Parse.Outcome

/-
  The outcomes of the readers of expressions with the heights
  that they count, one equation for each way in which a reader
  can go on.

  Main statements include:
    * `Parse.outcome_sizedClimb`
    * `Parse.outcome_sizedExtend_op`
    * `Parse.outcome_sizedOperand_call`
    * `Parse.outcome_sizedSomeArguments`
-/

namespace DynScript

namespace Parse

variable {limit : Option Nat}
variable {ending : Ending}

/- Taking a result for one with a larger bound leaves the outcome. -/
theorem outcome_bind_widen
    {α : Type}
    {m n : Nat}
    {r : Except ParseError (Parsed α m)}
    (h : Parsed α m → m ≤ n) :
    outcome (r >>= fun p => pure (p.widen (h p))) = outcome r := by
  cases r with
  | error e => rfl
  | ok p => rfl

------------------------------------------------------------
-- Operators
------------------------------------------------------------

/- Climbing is an operand with the operators behind it. -/
theorem outcome_sizedClimb
    (least : Nat)
    (toks : List Token) :
    outcome (sizedClimb limit ending least toks) =
      outcome (sizedOperand limit ending toks) >>= fun p =>
        outcome (sizedExtend limit ending least p.1 p.2) := by
  rw [sizedClimb]
  apply outcome_bind
  intro p
  exact outcome_bind_widen _

/- Nothing extends an expression at the end of the input. -/
theorem outcome_sizedExtend_nil
    (least : Nat)
    (left : Sized Expr) :
    outcome (sizedExtend limit ending least left []) =
      ending.look >>= fun _ => .ok (left, []) := by
  rw [sizedExtend]
  apply outcome_test_bind
  intro _
  rfl

/- A token that is no operator ends it. -/
theorem outcome_sizedExtend_none
    {t : Token}
    (least : Nat)
    (left : Sized Expr)
    (rest : List Token)
    (hOp : binaryOp? t.kind = none) :
    outcome (sizedExtend limit ending least left (t :: rest)) =
      .ok (left, t :: rest) := by
  rw [sizedExtend]
  simp only [hOp]
  rfl

/- So does an operator that binds too loosely. -/
theorem outcome_sizedExtend_loose
    {least : Nat}
    {t : Token}
    {op : BinaryOp}
    (left : Sized Expr)
    (rest : List Token)
    (hOp : binaryOp? t.kind = some op)
    (hLoose : ¬ least < op.precedence) :
    outcome (sizedExtend limit ending least left (t :: rest)) =
      .ok (left, t :: rest) := by
  rw [sizedExtend]
  simp only [hOp, hLoose, if_false]
  rfl

/- An operator that binds tightly enough extends an expression. -/
theorem outcome_sizedExtend_op
    {least : Nat}
    {t : Token}
    {op : BinaryOp}
    (left : Sized Expr)
    (rest : List Token)
    (hOp : binaryOp? t.kind = some op)
    (hTight : least < op.precedence) :
    outcome (sizedExtend limit ending least left (t :: rest)) =
      outcome (sizedClimb limit ending op.precedence rest) >>= fun p =>
        bounded limit t.pos (max left.height p.1.height + 1) >>=
          fun height =>
            outcome (sizedExtend limit ending least
              ⟨.binary op left.tree p.1.tree, height⟩ p.2) := by
  rw [sizedExtend]
  simp only [hOp, hTight, if_true]
  apply outcome_bind
  intro p
  apply outcome_test_bind
  intro height
  exact outcome_bind_widen _

------------------------------------------------------------
-- Operands
------------------------------------------------------------

/- There is no operand at the end of the input. -/
theorem outcome_sizedOperand_nil :
    outcome (sizedOperand limit ending []) =
      .error (ending.fault .expression) := by
  rw [sizedOperand]
  rfl

/- An operator before an operand. -/
theorem outcome_sizedOperand_unary
    {t : Token}
    {op : UnaryOp}
    (rest : List Token)
    (hOp : unaryOp? t.kind = some op) :
    outcome (sizedOperand limit ending (t :: rest)) =
      outcome (sizedOperand limit ending rest) >>= fun p =>
        bounded limit t.pos (p.1.height + 1) >>= fun height =>
          .ok (⟨.unary op p.1.tree, height⟩, p.2) := by
  rw [sizedOperand]
  simp only [hOp]
  apply outcome_bind
  intro p
  apply outcome_test_bind
  intro height
  rfl

/- A literal. -/
theorem outcome_sizedOperand_literal
    {t : Token}
    {e : Expr}
    (rest : List Token)
    (hOp : unaryOp? t.kind = none)
    (hLiteral : literal? t.kind = some e) :
    outcome (sizedOperand limit ending (t :: rest)) =
      .ok (⟨e, 1⟩, rest) := by
  rw [sizedOperand]
  simp only [hOp, hLiteral]
  rfl

/- A name that is not called. -/
theorem outcome_sizedOperand_var
    {t : Token}
    {name : String}
    {rest : List Token}
    (hName : t.kind = .ident name)
    (hNext : ∀ u ∈ rest.head?, u.kind ≠ .symbol .parenL) :
    outcome (sizedOperand limit ending (t :: rest)) =
      peek ending rest >>= fun _ => .ok (⟨.var name, 1⟩, rest) := by
  rw [sizedOperand]
  simp only [hName, accept?_eq_none hNext]
  apply outcome_test_bind
  intro _
  rfl

/- A call. -/
theorem outcome_sizedOperand_call
    {t u : Token}
    {name : String}
    (rest : List Token)
    (hName : t.kind = .ident name)
    (hOpen : u.kind = .symbol .parenL) :
    outcome (sizedOperand limit ending (t :: u :: rest)) =
      outcome (sizedArguments limit ending rest) >>= fun p =>
        bounded limit t.pos (p.1.height + 1) >>= fun height =>
          .ok (⟨.call name p.1.tree, height⟩, p.2) := by
  rw [sizedOperand]
  simp only [hName, accept?_cons_of_eq rest hOpen, peek, ok_bind]
  apply outcome_bind
  intro p
  apply outcome_test_bind
  intro height
  rfl

/- An expression in parentheses, which add nothing to its height. -/
theorem outcome_sizedOperand_group
    {t : Token}
    (rest : List Token)
    (hOpen : t.kind = .symbol .parenL) :
    outcome (sizedOperand limit ending (t :: rest)) =
      outcome (sizedClimb limit ending 0 rest) >>= fun p =>
        outcome (expect ending .parenR p.2) >>= fun q =>
          .ok (p.1, q.2) := by
  rw [sizedOperand]
  simp only [hOpen]
  apply outcome_bind
  intro p
  apply outcome_bind
  intro q
  rfl

/- Anything else is no operand. -/
theorem outcome_sizedOperand_other
    {t : Token}
    (rest : List Token)
    (hOp : unaryOp? t.kind = none)
    (hLiteral : literal? t.kind = none)
    (hName : ∀ name, t.kind ≠ .ident name)
    (hOpen : t.kind ≠ .symbol .parenL) :
    outcome (sizedOperand limit ending (t :: rest)) =
      .error (t.fault .expression) := by
  rw [sizedOperand]
  simp only [hOp, hLiteral]
  rfl

------------------------------------------------------------
-- Arguments
------------------------------------------------------------

/- No arguments between the parentheses. -/
theorem outcome_sizedArguments_close
    {t : Token}
    (rest : List Token)
    (hClose : t.kind = .symbol .parenR) :
    outcome (sizedArguments limit ending (t :: rest)) =
      .ok (⟨[], 0⟩, rest) := by
  rw [sizedArguments, accept?_cons_of_eq rest hClose]
  rfl

/- Arguments that do not begin with the closing parenthesis. -/
theorem outcome_sizedArguments_open
    {toks : List Token}
    (hNext : ∀ t ∈ toks.head?, t.kind ≠ .symbol .parenR) :
    outcome (sizedArguments limit ending toks) =
      outcome (sizedSomeArguments limit ending toks) := by
  rw [sizedArguments, accept?_eq_none hNext]

/- What stands behind an argument: a comma and more, or the end. -/
def moreSizedArguments
    (limit : Option Nat)
    (ending : Ending)
    (e : Sized Expr)
    (toks : List Token) :
    Except ParseError (Sized (List Expr) × List Token) :=
  match accept? .comma toks with
  | some p =>
    outcome (sizedSomeArguments limit ending p.rest) >>= fun q =>
      .ok (⟨e.tree :: q.1.tree, max e.height q.1.height⟩, q.2)
  | none =>
    outcome (expect ending .parenR toks) >>= fun q =>
      .ok (⟨[e.tree], e.height⟩, q.2)

/- Arguments are an expression and what stands behind it. -/
theorem outcome_sizedSomeArguments
    (toks : List Token) :
    outcome (sizedSomeArguments limit ending toks) =
      outcome (sizedClimb limit ending 0 toks) >>= fun p =>
        moreSizedArguments limit ending p.1 p.2 := by
  rw [sizedSomeArguments]
  apply outcome_bind
  rintro ⟨e, next, hLt⟩
  unfold moreSizedArguments
  cases hComma : accept? .comma next with
  | none =>
      simp only [hComma]
      apply outcome_bind
      intro q
      rfl
  | some p =>
      simp only [hComma]
      apply outcome_bind
      intro q
      rfl

/- There are no arguments at the end of the input. -/
theorem outcome_sizedSomeArguments_nil :
    outcome (sizedSomeArguments limit ending []) =
      .error (ending.fault .expression) := by
  rw [outcome_sizedSomeArguments, outcome_sizedClimb,
    outcome_sizedOperand_nil]
  rfl

end Parse

end DynScript
