import DynScript.Parse.Stmt

/-
  Every fault that is met while tokens are read has a place in
  the source. So no reader of tokens reports that it was
  stopped before.

  Key definitions include:
    * `Placed`

  Main statements include:
    * `Placed.bind`
    * `Parse.placed_expression`
    * `Parse.placed_countedStatement`
    * `Parse.placed_statements`
-/

namespace DynScript

/- If there is a fault, it has a place. -/
def Placed
    {α : Type}
    (r : Except ParseError α) : Prop :=
  ∀ e, r = .error e → e.pos?.isSome = true

section Results

variable {α β : Type}

theorem placed_ok
    (a : α) :
    Placed (.ok a) := by
  intro e h
  cases h

theorem placed_error
    {e : ParseError}
    (h : e.pos?.isSome = true) :
    Placed (.error e : Except ParseError α) := by
  intro e' hEq
  rcases Except.error.inj hEq with rfl
  exact h

theorem Placed.bind
    {r : Except ParseError α}
    {next : α → Except ParseError β}
    (hFirst : Placed r)
    (hNext : ∀ a, Placed (next a)) :
    Placed (r >>= next) := by
  cases r with
  | ok a => exact hNext a
  | error e => exact placed_error (hFirst e rfl)

theorem Placed.map
    {r : Except ParseError α}
    (h : Placed r)
    (f : α → β) :
    Placed (r.map f) := by
  cases r with
  | ok a => exact placed_ok (f a)
  | error e => exact placed_error (h e rfl)

end Results

/- What is missing behind the last token is missing at the end. -/
theorem Ending.placed_fault
    {α : Type}
    (ending : Ending)
    (expected : Expected) :
    Placed (.error (ending.fault expected) : Except ParseError α) := by
  cases ending with
  | endOfInput pos => exact placed_error rfl
  | failed e => exact placed_error rfl

theorem Ending.placed_look
    (ending : Ending) :
    Placed ending.look := by
  cases ending with
  | endOfInput pos => exact placed_ok ()
  | failed e => exact placed_error rfl

namespace Parse

variable {limit : Option Nat}
variable {ending : Ending}

------------------------------------------------------------
-- Expressions
------------------------------------------------------------

theorem placed_peek
    (toks : List Token) :
    Placed (peek ending toks) := by
  cases toks with
  | nil => exact ending.placed_look
  | cons t rest => exact placed_ok ()

theorem placed_expect
    (s : Symbol)
    (toks : List Token) :
    Placed (expect ending s toks) := by
  unfold expect
  split
  · exact ending.placed_fault _
  · split
    · exact placed_ok _
    · exact placed_error rfl

theorem placed_bounded
    (pos : Position)
    (height : Nat) :
    Placed (bounded limit pos height) := by
  unfold bounded
  split
  · exact placed_ok _
  · split
    · exact placed_error rfl
    · exact placed_ok _

mutual

theorem placed_sizedOperand
    (toks : List Token) :
    Placed (sizedOperand limit ending toks) := by
  match toks with
  | [] =>
      rw [sizedOperand]
      exact ending.placed_fault _
  | t :: rest =>
      rw [sizedOperand]
      split
      · refine (placed_sizedOperand rest).bind fun p => ?_
        exact (placed_bounded _ _).bind fun _ => placed_ok _
      · split
        · exact placed_ok _
        · split
          · refine (placed_peek rest).bind fun _ => ?_
            split
            · exact placed_ok _
            · next inner hInner _ =>
              refine (placed_sizedArguments inner).bind fun p => ?_
              exact (placed_bounded _ _).bind fun _ => placed_ok _
          · refine (placed_sizedClimb 0 rest).bind fun p => ?_
            exact (placed_expect _ _).bind fun q => placed_ok _
          · exact placed_error rfl
termination_by (toks.length, 0)

theorem placed_sizedClimb
    (least : Nat)
    (toks : List Token) :
    Placed (sizedClimb limit ending least toks) := by
  rw [sizedClimb]
  refine (placed_sizedOperand toks).bind fun p => ?_
  have hShorter := p.lt
  exact (placed_sizedExtend least p.value p.rest).bind fun q =>
    placed_ok _
termination_by (toks.length, 1)

theorem placed_sizedExtend
    (least : Nat)
    (left : Sized Expr)
    (toks : List Token) :
    Placed (sizedExtend limit ending least left toks) := by
  match toks with
  | [] =>
      rw [sizedExtend]
      exact ending.placed_look.bind fun _ => placed_ok _
  | t :: rest =>
      rw [sizedExtend]
      split
      · exact placed_ok _
      · next op _ =>
        split
        · refine (placed_sizedClimb op.precedence rest).bind fun p => ?_
          have hShorter := p.lt
          refine (placed_bounded _ _).bind fun height => ?_
          exact (placed_sizedExtend least _ p.rest).bind
            fun q => placed_ok _
        · exact placed_ok _
termination_by (toks.length, 0)

theorem placed_sizedArguments
    (toks : List Token) :
    Placed (sizedArguments limit ending toks) := by
  rw [sizedArguments]
  split
  · exact placed_ok _
  · exact placed_sizedSomeArguments toks
termination_by (toks.length, 3)

theorem placed_sizedSomeArguments
    (toks : List Token) :
    Placed (sizedSomeArguments limit ending toks) := by
  rw [sizedSomeArguments]
  refine (placed_sizedClimb 0 toks).bind fun p => ?_
  have hShorter := p.lt
  dsimp only
  split
  · next rest hRest _ =>
    exact (placed_sizedSomeArguments rest).bind fun q => placed_ok _
  · exact (placed_expect _ _).bind fun q => placed_ok _
termination_by (toks.length, 2)

end

theorem placed_expression
    (toks : List Token) :
    Placed (expression limit ending toks) :=
  (placed_sizedClimb 0 toks).map _

------------------------------------------------------------
-- Statements
------------------------------------------------------------

theorem placed_parameters
    (pos : Position)
    (es : List Expr) :
    Placed (parameters pos es) := by
  induction es with
  | nil => exact placed_ok []
  | cons e es ih =>
      cases e with
      | var name => exact ih.bind fun names => placed_ok _
      | _ => exact placed_error rfl

theorem placed_skipSemicolon
    (toks : List Token) :
    Placed (skipSemicolon ending toks) := by
  unfold skipSemicolon
  refine (placed_peek toks).bind fun _ => ?_
  split
  · exact placed_ok _
  · exact placed_ok _

theorem placed_returned
    (toks : List Token) :
    Placed (returned limit ending toks) := by
  unfold returned
  split
  · exact ending.placed_look.bind fun _ => placed_ok _
  · split
    · exact placed_ok _
    · exact (placed_expression _).bind fun p => placed_ok _

theorem placed_mayOpen
    (pos : Position)
    (blocks : Nat) :
    Placed (mayOpen limit pos blocks) := by
  unfold mayOpen
  split
  · exact placed_ok ()
  · split
    · exact placed_error rfl
    · exact placed_ok ()

mutual

theorem placed_countedStatement
    (blocks : Nat)
    (toks : List Token) :
    Placed (countedStatement limit ending blocks toks) := by
  rw [countedStatement]
  refine (placed_countedBareStatement blocks toks).bind fun p => ?_
  exact (placed_skipSemicolon _).bind fun q => placed_ok _
termination_by (toks.length, 2)

theorem placed_countedBareStatement
    (blocks : Nat)
    (toks : List Token) :
    Placed (countedBareStatement limit ending blocks toks) := by
  unfold countedBareStatement
  split
  · exact (placed_expression _).bind fun p => placed_ok _
  · next rest =>
    exact (placed_countedConditional blocks rest).bind fun p =>
      placed_ok _
  · exact (placed_returned _).bind fun p => placed_ok _
  · exact placed_countedCallOrDefinition blocks _
termination_by (toks.length, 1)

theorem placed_countedCallOrDefinition
    (blocks : Nat)
    (toks : List Token) :
    Placed (countedCallOrDefinition limit ending blocks toks) := by
  rw [countedCallOrDefinition]
  refine (placed_expression toks).bind fun p => ?_
  have hShorter := p.lt
  dsimp only
  split
  · refine (placed_parameters _ _).bind fun params => ?_
    exact (placed_countedBlock blocks p.rest).bind fun q => placed_ok _
  · exact placed_ok _
termination_by (toks.length, 0)

theorem placed_countedConditional
    (blocks : Nat)
    (toks : List Token) :
    Placed (countedConditional limit ending blocks toks) := by
  rw [countedConditional]
  refine (placed_expression toks).bind fun p => ?_
  have hTest := p.lt
  refine (placed_countedBlock blocks p.rest).bind fun q => ?_
  have hYes := q.lt
  refine (placed_peek q.rest).bind fun _ => ?_
  dsimp only
  split
  · exact placed_ok _
  · next other hOther _ =>
    split
    · next chain hChain _ =>
      exact (placed_countedConditional q.value.blocks chain).bind fun s =>
        placed_ok _
    · exact (placed_countedBlock q.value.blocks other).bind fun s =>
        placed_ok _
termination_by (toks.length, 0)

theorem placed_countedBlock
    (blocks : Nat)
    (toks : List Token) :
    Placed (countedBlock limit ending blocks toks) := by
  match toks with
  | [] =>
      rw [countedBlock]
      exact ending.placed_fault _
  | t :: rest =>
      rw [countedBlock]
      split
      · refine (placed_mayOpen _ _).bind fun _ => ?_
        exact (placed_countedBlockBody (blocks + 1) rest).bind fun p =>
          placed_ok _
      · exact placed_error rfl
termination_by (toks.length, 0)

theorem placed_countedBlockBody
    (blocks : Nat)
    (toks : List Token) :
    Placed (countedBlockBody limit ending blocks toks) := by
  match toks with
  | [] =>
      rw [countedBlockBody]
      exact ending.placed_fault _
  | t :: rest =>
      rw [countedBlockBody]
      split
      · exact (placed_countedBlockBody blocks rest).bind fun p =>
          placed_ok _
      · split
        · exact placed_ok _
        · refine (placed_countedStatement blocks (t :: rest)).bind
            fun p => ?_
          have hShorter := p.lt
          exact (placed_countedBlockBody p.value.blocks p.rest).bind
            fun q => placed_ok _
termination_by (toks.length, 3)

end

------------------------------------------------------------
-- Programs
------------------------------------------------------------

theorem placed_countedNext
    (blocks : Nat)
    (toks : List Token) :
    Placed (countedNext limit ending blocks toks) := by
  induction toks with
  | nil =>
      rw [countedNext]
      exact ending.placed_look.bind fun _ => placed_ok none
  | cons t rest ih =>
      rw [countedNext]
      split
      · exact ih.bind fun p? => placed_ok _
      · exact (placed_countedStatement blocks (t :: rest)).bind
          fun p => placed_ok _

theorem placed_countedStatements
    (blocks : Nat)
    (toks : List Token) :
    Placed (countedStatements limit ending blocks toks) := by
  rw [countedStatements]
  refine (placed_countedNext blocks toks).bind fun p? => ?_
  cases p? with
  | none => exact placed_ok _
  | some p =>
      have hShorter := p.lt
      exact (placed_countedStatements p.value.blocks p.rest).bind
        fun ss => placed_ok _
termination_by toks.length

/- All statements of a program. -/
theorem placed_statements
    (toks : List Token) :
    Placed (statements limit ending toks) :=
  (placed_countedStatements 0 toks).map _

end Parse

end DynScript
