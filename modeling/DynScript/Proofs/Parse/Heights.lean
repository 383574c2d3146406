import DynScript.Proofs.Parse.Results

/-
  The number that the readers of expressions count while they
  read is the height of the tree that they give back.

  Key definitions include:
    * `Sized.Exact`

  Main statements include:
    * `Parse.exact_sizedOperand`
    * `Parse.exact_sizedClimb`
    * `Parse.exact_sizedExtend`
    * `Parse.exact_sizedArguments`
-/

namespace DynScript

/- The number that was counted is the size of the tree. -/
def Sized.Exact
    {α : Type}
    (size : α → Nat)
    (s : Sized α) : Prop :=
  s.height = size s.tree

/- Then it is determined by the tree. -/
theorem Sized.Exact.eq
    {α : Type}
    {size : α → Nat}
    {s : Sized α}
    (h : s.Exact size) :
    s = ⟨s.tree, size s.tree⟩ :=
  congrArg (Sized.mk s.tree) h

theorem Sized.Exact.size_eq
    {α : Type}
    {size : α → Nat}
    {s : Sized α}
    (h : s.Exact size) :
    size s.tree = s.height :=
  Eq.symm h

namespace Parse

variable {limit : Option Nat}
variable {ending : Ending}

/- The test of a height gives the height back. -/
theorem eq_of_bounded
    {pos : Position}
    {height height' : Nat}
    (h : bounded limit pos height = .ok height') :
    height' = height := by
  unfold bounded at h
  split at h
  · exact (Except.ok.inj h).symm
  · split at h
    · cases h
    · exact (Except.ok.inj h).symm

------------------------------------------------------------
-- Nodes
------------------------------------------------------------

/- The height of an operator with its operand. -/
theorem exact_unary
    {op : UnaryOp}
    {e : Sized Expr}
    {pos : Position}
    {height : Nat}
    (h : e.Exact Expr.height)
    (hBounded : bounded limit pos (e.height + 1) = .ok height) :
    Sized.Exact Expr.height ⟨.unary op e.tree, height⟩ := by
  rcases eq_of_bounded hBounded with rfl
  show e.height + 1 = Expr.height (.unary op e.tree)
  rw [h, Expr.height]

/- The height of an operator between its operands. -/
theorem exact_binary
    {op : BinaryOp}
    {left right : Sized Expr}
    {pos : Position}
    {height : Nat}
    (hLeft : left.Exact Expr.height)
    (hRight : right.Exact Expr.height)
    (hBounded :
      bounded limit pos (max left.height right.height + 1) =
        .ok height) :
    Sized.Exact Expr.height
      ⟨.binary op left.tree right.tree, height⟩ := by
  rcases eq_of_bounded hBounded with rfl
  show max left.height right.height + 1 =
    Expr.height (.binary op left.tree right.tree)
  rw [hLeft, hRight, Expr.height]

/- The height of a call. -/
theorem exact_call
    {name : String}
    {args : Sized (List Expr)}
    {pos : Position}
    {height : Nat}
    (h : args.Exact Expr.maxHeight)
    (hBounded : bounded limit pos (args.height + 1) = .ok height) :
    Sized.Exact Expr.height ⟨.call name args.tree, height⟩ := by
  rcases eq_of_bounded hBounded with rfl
  show args.height + 1 = Expr.height (.call name args.tree)
  rw [h, Expr.height]

/- The height of a literal. -/
theorem exact_literal
    {k : TokenKind}
    {e : Expr}
    (h : literal? k = some e) :
    Sized.Exact Expr.height ⟨e, 1⟩ := by
  have hHeight : e.height = 1 := by
    cases k with
    | ident name => cases h
    | int i =>
        cases h
        rfl
    | float x =>
        cases h
        rfl
    | str s =>
        cases h
        rfl
    | symbol s => cases s <;> cases h <;> rfl
  exact hHeight.symm

/- One argument in front of others. -/
theorem exact_cons
    {e : Sized Expr}
    {es : Sized (List Expr)}
    (hFirst : e.Exact Expr.height)
    (hOthers : es.Exact Expr.maxHeight) :
    Sized.Exact Expr.maxHeight
      ⟨e.tree :: es.tree, max e.height es.height⟩ := by
  show max e.height es.height = Expr.maxHeight (e.tree :: es.tree)
  rw [hFirst, hOthers, Expr.maxHeight]

/- One argument alone. -/
theorem exact_singleton
    {e : Sized Expr}
    (h : e.Exact Expr.height) :
    Sized.Exact Expr.maxHeight ⟨[e.tree], e.height⟩ := by
  show e.height = Expr.maxHeight [e.tree]
  rw [h, Expr.maxHeight, Expr.maxHeight, Nat.max_zero]

------------------------------------------------------------
-- Readers
------------------------------------------------------------

/-
  By recursion along the readers, each of which may count on
  the numbers that the others give back.
-/
mutual

theorem exact_sizedOperand
    (toks : List Token) :
    Gives (Sized.Exact Expr.height)
      (sizedOperand limit ending toks) := by
  match toks with
  | [] =>
      rw [sizedOperand]
      exact gives_error _
  | t :: rest =>
      rw [sizedOperand]
      split
      · refine (exact_sizedOperand rest).bind fun p hOperand => ?_
        refine gives_bind fun height hBounded => gives_ok ?_
        exact exact_unary hOperand hBounded
      · split
        · next hLiteral => exact gives_ok (exact_literal hLiteral)
        · split
          · refine gives_bind fun _ _ => ?_
            split
            · exact gives_ok rfl
            · next inner hInner _ =>
              refine (exact_sizedArguments inner).bind
                fun p hArgs => ?_
              refine gives_bind fun height hBounded => gives_ok ?_
              exact exact_call hArgs hBounded
          · refine (exact_sizedClimb 0 rest).bind fun p hInner => ?_
            exact gives_bind fun q _ => gives_ok hInner
          · exact gives_error _
termination_by (toks.length, 0)

theorem exact_sizedClimb
    (least : Nat)
    (toks : List Token) :
    Gives (Sized.Exact Expr.height)
      (sizedClimb limit ending least toks) := by
  rw [sizedClimb]
  refine (exact_sizedOperand toks).bind fun p hLeft => ?_
  have hShorter := p.lt
  refine (exact_sizedExtend least p.value hLeft p.rest).bind
    fun q hWhole => ?_
  exact gives_ok hWhole
termination_by (toks.length, 1)

theorem exact_sizedExtend
    (least : Nat)
    (left : Sized Expr)
    (hLeft : left.Exact Expr.height)
    (toks : List Token) :
    Gives (Sized.Exact Expr.height)
      (sizedExtend limit ending least left toks) := by
  match toks with
  | [] =>
      rw [sizedExtend]
      exact gives_bind fun _ _ => gives_ok hLeft
  | t :: rest =>
      rw [sizedExtend]
      split
      · exact gives_ok hLeft
      · next op _ =>
        split
        · refine (exact_sizedClimb op.precedence rest).bind
            fun p hRight => ?_
          have hShorter := p.lt
          refine gives_bind fun height hBounded => ?_
          have hNode : Sized.Exact Expr.height
              ⟨.binary op left.tree p.value.tree, height⟩ :=
            exact_binary hLeft hRight hBounded
          refine (exact_sizedExtend least _ hNode p.rest).bind
            fun q hWhole => ?_
          exact gives_ok hWhole
        · exact gives_ok hLeft
termination_by (toks.length, 0)

theorem exact_sizedArguments
    (toks : List Token) :
    Gives (Sized.Exact Expr.maxHeight)
      (sizedArguments limit ending toks) := by
  rw [sizedArguments]
  split
  · exact gives_ok rfl
  · exact exact_sizedSomeArguments toks
termination_by (toks.length, 3)

theorem exact_sizedSomeArguments
    (toks : List Token) :
    Gives (Sized.Exact Expr.maxHeight)
      (sizedSomeArguments limit ending toks) := by
  rw [sizedSomeArguments]
  refine (exact_sizedClimb 0 toks).bind fun p hFirst => ?_
  have hShorter := p.lt
  dsimp only
  split
  · next rest hRest _ =>
    refine (exact_sizedSomeArguments rest).bind fun q hOthers => ?_
    exact gives_ok (exact_cons hFirst hOthers)
  · exact gives_bind fun q _ => gives_ok (exact_singleton hFirst)
termination_by (toks.length, 2)

end

end Parse

end DynScript
