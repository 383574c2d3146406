import DynScript.Proofs.Parse.Forms

/-
  Readings under a limit beside the same readings without one:
  where the free reading succeeds, what it gives says whether
  the other one does too, and where it fails, the other one
  fails in the same way or at the limit. Expressions are within
  the limit when they are not too high.

  Key definitions include:
    * `Curbed`
    * `Parse.Curbs`

  Main statements include:
    * `Curbed.bind`
    * `Parse.height_le_of_extend`
    * `Parse.curbs`
-/

namespace DynScript

------------------------------------------------------------
-- Readings with and without a limit
------------------------------------------------------------

/-
  The result of a reading under the limit `n` beside the one
  without a limit. The results that are within the limit are
  those that satisfy `fits`.
-/
structure Curbed
    {α : Type}
    (n : Nat)
    (fits : α → Prop)
    (curbed free : Except ParseError α) : Prop where
  ok : ∀ a, free = .ok a → fits a → curbed = .ok a
  tooDeep :
    ∀ a, free = .ok a → ¬ fits a →
      ∃ pos, curbed = .error (.tooDeep n pos)
  fault :
    ∀ e, free = .error e →
      curbed = .error e ∨ ∃ pos, curbed = .error (.tooDeep n pos)

section Curbed

variable {α β : Type}
variable {n : Nat}

/- What does not depend on the limit. -/
theorem curbed_self
    {fits : α → Prop}
    {result : Except ParseError α}
    (h : ∀ a, result = .ok a → fits a) :
    Curbed n fits result result where
  ok := fun _ hOk _ => hOk
  tooDeep := fun a hOk hNot => absurd (h a hOk) hNot
  fault := fun _ hFault => .inl hFault

/-
  Two readings one after the other. What both of them give
  fits when what each of them gives does.
-/
theorem Curbed.bind
    {fits : α → Prop}
    {fitsBoth : β → Prop}
    {first first' : Except ParseError α}
    {next next' : α → Except ParseError β}
    (hFirst : Curbed n fits first first')
    (fitsNext : α → β → Prop)
    (hNext : ∀ a, first' = .ok a → fits a →
      Curbed n (fitsNext a) (next a) (next' a))
    (hBoth : ∀ a b, first' = .ok a → next' a = .ok b →
      (fitsBoth b ↔ fits a ∧ fitsNext a b)) :
    Curbed n fitsBoth (first >>= next) (first' >>= next') := by
  cases hFree : first' with
  | error e =>
      rw [error_bind]
      refine ⟨?_, ?_, ?_⟩
      · intro b hOk
        cases hOk
      · intro b hOk
        cases hOk
      · intro e' hFault
        rcases Except.error.inj hFault with rfl
        rcases hFirst.fault e hFree with hSame | ⟨pos, hDeep⟩
        · exact .inl (by rw [hSame, error_bind])
        · exact .inr ⟨pos, by rw [hDeep, error_bind]⟩
  | ok a =>
      rw [ok_bind]
      by_cases hFits : fits a
      · rw [hFirst.ok a hFree hFits, ok_bind]
        have hStep := hNext a hFree hFits
        refine ⟨?_, ?_, hStep.fault⟩
        · intro b hOk hAll
          exact hStep.ok b hOk ((hBoth a b hFree hOk).mp hAll).2
        · intro b hOk hNot
          apply hStep.tooDeep b hOk
          intro hSecond
          exact hNot ((hBoth a b hFree hOk).mpr ⟨hFits, hSecond⟩)
      · -- The first reading met the limit, and so did both.
        rcases hFirst.tooDeep a hFree hFits with ⟨pos, hDeep⟩
        rw [hDeep, error_bind]
        refine ⟨?_, ?_, ?_⟩
        · intro b hOk hAll
          exact absurd ((hBoth a b hFree hOk).mp hAll).1 hFits
        · intro b hOk hNot
          exact ⟨pos, rfl⟩
        · intro e hFault
          exact .inr ⟨pos, rfl⟩

/- What fits may be said in other words. -/
theorem Curbed.congr
    {fits fits' : α → Prop}
    {curbed free : Except ParseError α}
    (h : Curbed n fits curbed free)
    (hSame : ∀ a, free = .ok a → (fits' a ↔ fits a)) :
    Curbed n fits' curbed free where
  ok := fun a hFree hFits =>
    h.ok a hFree ((hSame a hFree).mp hFits)
  tooDeep := fun a hFree hNot =>
    h.tooDeep a hFree fun hFits => hNot ((hSame a hFree).mpr hFits)
  fault := h.fault

/- A step behind a reading that always succeeds. -/
theorem Curbed.map
    {fits : α → Prop}
    {fitsBoth : β → Prop}
    {first first' : Except ParseError α}
    {f : α → β}
    (hFirst : Curbed n fits first first')
    (hBoth : ∀ a, first' = .ok a → (fitsBoth (f a) ↔ fits a)) :
    Curbed n fitsBoth (first >>= fun a => .ok (f a))
      (first' >>= fun a => .ok (f a)) := by
  apply hFirst.bind (fun _ _ => True)
  · intro a _ _
    exact curbed_self fun _ _ => trivial
  · intro a b hFree hOk
    rcases Except.ok.inj hOk with rfl
    rw [hBoth a hFree, and_true]

/- A step before a reading that does not depend on the limit. -/
theorem Curbed.after
    {fits : β → Prop}
    {test : Except ParseError α}
    {next next' : α → Except ParseError β}
    (hNext : ∀ a, test = .ok a → Curbed n fits (next a) (next' a)) :
    Curbed n fits (test >>= next) (test >>= next') := by
  cases test with
  | error e => exact curbed_self fun a hOk => by cases hOk
  | ok a => exact hNext a rfl

end Curbed

namespace Parse

variable {n : Nat}
variable {ending : Ending}

------------------------------------------------------------
-- Expressions
------------------------------------------------------------

/- An expression that is tested for its height. -/
theorem curbed_bounded
    (pos : Position)
    (e : Expr) :
    Curbed n (fun e => e.height ≤ n)
      (boundedTree (some n) pos e) (boundedTree none pos e) := by
  rw [boundedTree_some]
  refine ⟨?_, ?_, ?_⟩
  · intro a hFree hHeight
    rcases Except.ok.inj hFree with rfl
    exact if_neg (Nat.not_lt_of_le hHeight)
  · intro a hFree hHeight
    rcases Except.ok.inj hFree with rfl
    exact ⟨pos, if_pos (Nat.lt_of_not_le hHeight)⟩
  · intro a hFault
    cases hFault

/- Operators behind an expression make it no lower. -/
theorem height_le_of_extend
    {least : Nat}
    {left e : Expr}
    {toks rest : List Token}
    (h : outcome (extend none ending least left toks) = .ok (e, rest)) :
    left.height ≤ e.height := by
  induction hLength : toks.length using Nat.strong_induction_on
    generalizing toks left with
  | _ length ih =>
      cases toks with
      | nil =>
          rw [outcome_extend_nil] at h
          rcases bind_succeeds_iff.mp h with ⟨_, _, hLast⟩
          cases hLast
          exact Nat.le_refl _
      | cons t behind =>
          by_cases hOperator : ∃ op, binaryOp? t.kind = some op ∧
              least < op.precedence
          · rcases hOperator with ⟨op, hOp, hTight⟩
            rw [outcome_extend_op left behind hOp hTight] at h
            rcases bind_succeeds_iff.mp h with
              ⟨⟨right, next⟩, hRight, hThen⟩
            rcases bind_succeeds_iff.mp hThen with
              ⟨both, hBounded, hThen⟩
            rcases boundedTree_eq_ok.mp hBounded with ⟨rfl, _⟩
            have hShorter := length_lt_of_outcome hRight
            have hBoth := ih next.length
              (by rw [← hLength]; exact Nat.lt_succ_of_lt hShorter)
              hThen rfl
            rw [Expr.height] at hBoth
            omega
          · rw [outcome_extend_stop left behind ?_] at h
            · cases h
              exact Nat.le_refl _
            · intro op hOp
              apply Nat.le_of_not_lt
              intro hTight
              exact hOperator ⟨op, hOp, hTight⟩

/-
  All readers of expressions give what they give without a
  limit, or meet the limit, depending on the height of what
  they give.
-/
structure Curbs
    (n : Nat)
    (ending : Ending)
    (toks : List Token) : Prop where
  operand :
    Curbed n (fun p => p.1.height ≤ n)
      (outcome (operand (some n) ending toks))
      (outcome (operand none ending toks))
  climb :
    ∀ least, Curbed n (fun p => p.1.height ≤ n)
      (outcome (climb (some n) ending least toks))
      (outcome (climb none ending least toks))
  extend :
    ∀ least left, left.height ≤ n →
      Curbed n (fun p => p.1.height ≤ n)
        (outcome (extend (some n) ending least left toks))
        (outcome (extend none ending least left toks))
  arguments :
    Curbed n (fun p => Expr.maxHeight p.1 ≤ n)
      (outcome (arguments (some n) ending toks))
      (outcome (arguments none ending toks))
  someArguments :
    Curbed n (fun p => Expr.maxHeight p.1 ≤ n)
      (outcome (someArguments (some n) ending toks))
      (outcome (someArguments none ending toks))

section Steps

variable {toks : List Token}
variable (hPos : 0 < n)
variable (ih : ∀ shorter : List Token, shorter.length < toks.length →
  Curbs n ending shorter)

include hPos ih in
/- An operand. -/
theorem curbed_operand :
    Curbed n (fun p => p.1.height ≤ n)
      (outcome (operand (some n) ending toks))
      (outcome (operand none ending toks)) := by
  cases toks with
  | nil =>
      rw [outcome_operand_nil, outcome_operand_nil]
      exact curbed_self fun a hOk => by cases hOk
  | cons t rest =>
      rcases operand_cases t.kind with
        ⟨op, hOp⟩ | ⟨hOp, literal, hLiteral⟩ | ⟨name, hName⟩ | hOpen |
        ⟨hOp, hLiteral, hName, hOpen⟩
      · rw [outcome_operand_unary rest hOp,
          outcome_operand_unary rest hOp]
        apply (ih rest (by simp)).operand.bind
          (fun p q => q.1.height ≤ n)
        · intro p _ _
          apply (curbed_bounded t.pos (.unary op p.1)).map
          intro e _
          rfl
        · rintro ⟨e, behind⟩ q _ hOk
          rcases Except.ok.inj hOk with rfl
          simp only [Expr.height]
          omega
      · rw [outcome_operand_literal rest hOp hLiteral,
          outcome_operand_literal rest hOp hLiteral]
        apply curbed_self
        intro p hOk
        rcases Except.ok.inj hOk with rfl
        rcases derives_of_literal? hLiteral with ⟨_, hHeight, _⟩
        rw [hHeight]
        exact hPos
      · cases hAccept : accept? .parenL rest with
        | none =>
            have hNext := head_ne_of_accept?_eq_none hAccept
            rw [outcome_operand_var hName hNext,
              outcome_operand_var hName hNext]
            apply curbed_self
            intro p hOk
            rcases bind_succeeds_iff.mp hOk with ⟨_, _, hLast⟩
            rcases Except.ok.inj hLast with rfl
            exact hPos
        | some p =>
            rcases accept?_eq_some hAccept with
              ⟨u, inner, hOpen, rfl, _⟩
            rw [outcome_operand_call inner hName hOpen,
              outcome_operand_call inner hName hOpen]
            apply (ih inner (by simp)).arguments.bind
              (fun p q => q.1.height ≤ n)
            · intro p _ _
              apply (curbed_bounded t.pos (.call name p.1)).map
              intro e _
              rfl
            · rintro ⟨args, behind⟩ q _ hOk
              rcases Except.ok.inj hOk with rfl
              simp only [Expr.height]
              omega
      · rw [outcome_operand_group rest hOpen,
          outcome_operand_group rest hOpen]
        apply ((ih rest (by simp)).climb 0).bind
          (fun _ _ => True)
        · intro p _ _
          exact curbed_self fun _ _ => trivial
        · rintro ⟨e, closing⟩ q _ hOk
          rcases bind_succeeds_iff.mp hOk with ⟨_, _, hLast⟩
          rcases Except.ok.inj hLast with rfl
          rw [and_true]
      · rw [outcome_operand_other rest hOp hLiteral hName hOpen,
          outcome_operand_other rest hOp hLiteral hName hOpen]
        exact curbed_self fun a hOk => by cases hOk

include hPos ih in
/- An operand and the operators behind it. -/
theorem curbed_climb
    (least : Nat) :
    Curbed n (fun p => p.1.height ≤ n)
      (outcome (climb (some n) ending least toks))
      (outcome (climb none ending least toks)) := by
  rw [outcome_climb, outcome_climb]
  apply (curbed_operand hPos ih).bind
    (fun p q => q.1.height ≤ n)
  · rintro ⟨left, rest⟩ hLeft hHeight
    exact (ih rest (length_lt_of_outcome hLeft)).extend least left hHeight
  · rintro ⟨left, rest⟩ ⟨e, behind⟩ _ hExtend
    have hHeight : left.height ≤ e.height :=
      height_le_of_extend hExtend
    dsimp only
    omega

include ih in
/- Operators behind an expression that is not too high. -/
theorem curbed_extend
    (least : Nat)
    (left : Expr)
    (hLeft : left.height ≤ n) :
    Curbed n (fun p => p.1.height ≤ n)
      (outcome (extend (some n) ending least left toks))
      (outcome (extend none ending least left toks)) := by
  cases toks with
  | nil =>
      rw [outcome_extend_nil, outcome_extend_nil]
      apply curbed_self
      intro p hOk
      rcases bind_succeeds_iff.mp hOk with ⟨_, _, hLast⟩
      rcases Except.ok.inj hLast with rfl
      exact hLeft
  | cons t rest =>
      by_cases hOperator : ∃ op, binaryOp? t.kind = some op ∧
          least < op.precedence
      · rcases hOperator with ⟨op, hOp, hTight⟩
        rw [outcome_extend_op left rest hOp hTight,
          outcome_extend_op left rest hOp hTight]
        apply ((ih rest (by simp)).climb op.precedence).bind
          (fun p q => q.1.height ≤ n)
        · rintro ⟨right, behind⟩ hRight _
          have hShorter := length_lt_of_outcome hRight
          apply (curbed_bounded t.pos (.binary op left right)).bind
            (fun e q => q.1.height ≤ n)
          · intro e _ hHeight
            exact (ih behind (Nat.lt_succ_of_lt hShorter)).extend
              least e hHeight
          · rintro e ⟨e', _⟩ _ hExtend
            have hHeight := height_le_of_extend hExtend
            dsimp only
            omega
        · rintro ⟨right, behind⟩ ⟨e, _⟩ _ hThen
          rcases bind_succeeds_iff.mp hThen with
            ⟨both, hBounded, hExtend⟩
          rcases boundedTree_eq_ok.mp hBounded with ⟨rfl, _⟩
          have hHeight : max left.height right.height + 1 ≤ e.height :=
            height_le_of_extend hExtend
          dsimp only
          omega
      · have hStop : ∀ op ∈ binaryOp? t.kind, op.precedence ≤ least := by
          intro op hOp
          apply Nat.le_of_not_lt
          intro hTight
          exact hOperator ⟨op, hOp, hTight⟩
        rw [outcome_extend_stop left rest hStop,
          outcome_extend_stop left rest hStop]
        apply curbed_self
        intro p hOk
        rcases Except.ok.inj hOk with rfl
        exact hLeft

include hPos ih in
/- At least one argument. -/
theorem curbed_someArguments :
    Curbed n (fun p => Expr.maxHeight p.1 ≤ n)
      (outcome (someArguments (some n) ending toks))
      (outcome (someArguments none ending toks)) := by
  rw [outcome_someArguments, outcome_someArguments]
  apply (curbed_climb hPos ih 0).bind
    (fun p q => Expr.maxHeight q.1 ≤ n)
  · rintro ⟨e, next⟩ hFirst hHeight
    have hShorter := length_lt_of_outcome hFirst
    unfold moreArguments
    cases hComma : accept? .comma next with
    | none =>
        apply curbed_self
        intro q hOk
        rcases bind_succeeds_iff.mp hOk with ⟨_, _, hLast⟩
        rcases Except.ok.inj hLast with rfl
        simpa [Expr.maxHeight] using hHeight
    | some p =>
        have hRest := p.lt
        apply (ih p.rest (by omega)).someArguments.map
        intro q _
        simp only [Expr.maxHeight]
        dsimp only at hHeight
        omega
  · rintro ⟨e, next⟩ ⟨es, behind⟩ _ hMore
    have hMember : e.height ≤ Expr.maxHeight es := by
      unfold moreArguments at hMore
      split at hMore
      · rcases bind_succeeds_iff.mp hMore with ⟨q, _, hLast⟩
        cases hLast
        simp only [Expr.maxHeight]
        omega
      · rcases bind_succeeds_iff.mp hMore with ⟨q, _, hLast⟩
        cases hLast
        simp only [Expr.maxHeight]
        omega
    dsimp only
    omega

include hPos ih in
/- The arguments of a call. -/
theorem curbed_arguments :
    Curbed n (fun p => Expr.maxHeight p.1 ≤ n)
      (outcome (arguments (some n) ending toks))
      (outcome (arguments none ending toks)) := by
  cases hAccept : accept? .parenR toks with
  | none =>
      have hNext := head_ne_of_accept?_eq_none hAccept
      rw [outcome_arguments_open hNext, outcome_arguments_open hNext]
      exact curbed_someArguments hPos ih
  | some p =>
      rcases accept?_eq_some hAccept with ⟨t, rest, hClose, rfl, _⟩
      rw [outcome_arguments_close rest hClose,
        outcome_arguments_close rest hClose]
      apply curbed_self
      intro q hOk
      rcases Except.ok.inj hOk with rfl
      exact Nat.zero_le n

end Steps

/- Expressions under the limit, by the number of tokens. -/
theorem curbs
    (ending : Ending)
    (hPos : 0 < n)
    (toks : List Token) :
    Curbs n ending toks := by
  induction hLength : toks.length using Nat.strong_induction_on
    generalizing toks with
  | _ length ih =>
      have ihShorter : ∀ shorter : List Token,
          shorter.length < toks.length → Curbs n ending shorter := by
        intro shorter hLt
        exact ih shorter.length (hLength ▸ hLt) shorter rfl
      exact
        { operand := curbed_operand hPos ihShorter
          climb := curbed_climb hPos ihShorter
          extend := curbed_extend ihShorter
          arguments := curbed_arguments hPos ihShorter
          someArguments := curbed_someArguments hPos ihShorter }

end Parse

end DynScript
