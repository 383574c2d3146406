import DynScript.Proofs.Parse.Yield
import DynScript.Proofs.Token.Concatenation

/-
  Programs one after the other. A reading is compared with the
  one of the same tokens at other places and with a semicolon
  and more behind them: what the first gives, the second gives
  too, and where nothing stands behind the tokens, it meets
  the same fault at the other place.

  Key definitions include:
    * `ParseError.mapPos`
    * `Parse.carry`
    * `Parse.Followed`
    * `Carried`
    * `Parse.Carries`
    * `Parse.CarriesStmt`

  Main statements include:
    * `Carried.bind`
    * `Parse.carries`
    * `Parse.carriesStmt`
    * `Parse.statements_carry`
    * `parse_append`
-/

namespace DynScript

------------------------------------------------------------
-- Tokens at other places
------------------------------------------------------------

/- A fault at another place, where it has one. -/
def ParseError.mapPos
    (f : Position → Position) : ParseError → ParseError
  | .lex e => .lex (e.mapPos f)
  | .invalidUtf8 offset => .invalidUtf8 offset
  | .unexpected expected found pos => .unexpected expected found (f pos)
  | .tooDeep limit pos => .tooDeep limit (f pos)
  | .halted => .halted

/- Tokens at other places, and others behind them. -/
def Parse.carry
    (f : Position → Position)
    (tail toks : List Token) : List Token :=
  toks.map (Token.mapPos f) ++ tail

/-
  What may stand behind tokens at other places: nothing, and
  then their end is at another place too, or a semicolon.
-/
inductive Parse.Followed
    (f : Position → Position)
    (ending : Ending) : List Token → Ending → Prop where
  | moved : Followed f ending [] (ending.mapPos f)
  | semicolon
      {t : Token}
      (more : List Token)
      (ending' : Ending)
      (hKind : t.kind = .symbol .semicolon) :
      Followed f ending (t :: more) ending'

/-
  What a reading gives, moved by `move`, is what the other one
  gives. If nothing stands behind the tokens, the other one
  meets the same fault.
-/
structure Carried
    {α β : Type}
    (f : Position → Position)
    (tail : List Token)
    (move : α → β)
    (first : Except ParseError α)
    (second : Except ParseError β) : Prop where
  ok : ∀ a, first = .ok a → second = .ok (move a)
  fault :
    ∀ e, first = .error e → tail = [] → second = .error (e.mapPos f)

section Carried

variable {α β γ δ : Type}
variable {f : Position → Position}
variable {tail : List Token}

theorem carried_ok
    {move : α → β}
    {a : α}
    {b : β}
    (h : b = move a) :
    Carried f tail move (.ok a) (.ok b) where
  ok := fun a' hOk => by
    rcases Except.ok.inj hOk with rfl
    rw [h]
  fault := fun _ hFault => by cases hFault

theorem carried_error
    {move : α → β}
    {e : ParseError}
    {second : Except ParseError β}
    (h : tail = [] → second = .error (e.mapPos f)) :
    Carried f tail move (.error e) second where
  ok := fun _ hOk => by cases hOk
  fault := fun e' hFault hNone => by
    rcases Except.error.inj hFault with rfl
    exact h hNone

/- Two readings one after the other. -/
theorem Carried.bind
    {move : α → β}
    {moveNext : γ → δ}
    {first : Except ParseError α}
    {second : Except ParseError β}
    {next : α → Except ParseError γ}
    {next' : β → Except ParseError δ}
    (hFirst : Carried f tail move first second)
    (hNext : ∀ a, first = .ok a →
      Carried f tail moveNext (next a) (next' (move a))) :
    Carried f tail moveNext (first >>= next) (second >>= next') := by
  cases hResult : first with
  | error e =>
      rw [error_bind]
      apply carried_error
      intro hNone
      rw [hFirst.fault e hResult hNone, error_bind]
  | ok a =>
      rw [hFirst.ok a hResult, ok_bind, ok_bind]
      exact hNext a hResult

/- A step behind a reading that always succeeds. -/
theorem Carried.map
    {move : α → β}
    {moveNext : γ → δ}
    {first : Except ParseError α}
    {second : Except ParseError β}
    {g : α → γ}
    {k : β → δ}
    (hFirst : Carried f tail move first second)
    (h : ∀ a, k (move a) = moveNext (g a)) :
    Carried f tail moveNext (first >>= fun a => .ok (g a))
      (second >>= fun b => .ok (k b)) :=
  hFirst.bind fun a _ => carried_ok (h a)

end Carried

namespace Parse

variable {limit : Option Nat}
variable {ending ending' : Ending}
variable {f : Position → Position}
variable {tail : List Token}

/- Readings that leave tokens leave the others behind them. -/
abbrev Carrying
    {α : Type}
    (f : Position → Position)
    (tail : List Token)
    (first second : Except ParseError (α × List Token)) : Prop :=
  Carried f tail (Prod.map id (carry f tail)) first second

------------------------------------------------------------
-- What stands behind
------------------------------------------------------------

theorem carry_nil :
    carry f tail [] = tail :=
  rfl

theorem carry_cons
    (t : Token)
    (toks : List Token) :
    carry f tail (t :: toks) = t.mapPos f :: carry f tail toks :=
  rfl

/- What does not come next does not come next with more behind. -/
theorem Followed.head_carry_ne
    (h : Followed f ending tail ending')
    {k : TokenKind}
    {toks : List Token}
    (hHead : ∀ t ∈ toks.head?, t.kind ≠ k)
    (hOther : k ≠ .symbol .semicolon) :
    ∀ t ∈ (carry f tail toks).head?, t.kind ≠ k := by
  intro t ht
  cases toks with
  | cons u rest =>
      rcases Option.some.inj ht with rfl
      exact hHead u rfl
  | nil =>
      cases h with
      | moved => cases ht
      | semicolon more ending' hKind =>
          rcases Option.some.inj ht with rfl
          rw [hKind]
          exact hOther.symm

/- The fault of an input that ends too early is met again. -/
theorem Followed.fault
    (h : Followed f ending tail ending')
    (expected : Expected)
    (hNone : tail = []) :
    ending'.fault expected = (ending.fault expected).mapPos f := by
  cases h with
  | moved =>
      cases ending with
      | endOfInput pos => rfl
      | failed e => rfl
  | semicolon more ending' hKind => cases hNone

/- Looking behind the last token. -/
theorem Followed.carried_look
    (h : Followed f ending tail ending') :
    Carried f tail id ending.look (peek ending' tail) := by
  cases h with
  | moved =>
      cases ending with
      | endOfInput pos => exact carried_ok rfl
      | failed e => exact carried_error fun _ => rfl
  | semicolon more ending' hKind =>
      refine ⟨fun _ _ => rfl, ?_⟩
      intro e _ hNone
      cases hNone

section Parts

variable (hFollowed : Followed f ending tail ending')

include hFollowed

theorem carried_peek
    (toks : List Token) :
    Carried f tail id (peek ending toks)
      (peek ending' (carry f tail toks)) := by
  cases toks with
  | nil => exact hFollowed.carried_look
  | cons t rest => exact carried_ok rfl

theorem carried_expect
    (s : Symbol)
    (toks : List Token) :
    Carrying f tail (outcome (expect ending s toks))
      (outcome (expect ending' s (carry f tail toks))) := by
  cases toks with
  | nil =>
      apply carried_error
      intro hNone
      rw [← hFollowed.fault (.symbol s) hNone, hNone]
      rfl
  | cons t rest =>
      rw [carry_cons]
      by_cases hKind : t.kind = .symbol s
      · rw [outcome_expect_of_eq rest hKind,
          outcome_expect_of_eq (t := t.mapPos f) _ hKind]
        exact carried_ok rfl
      · simp only [expect, Token.mapPos, hKind, if_false]
        exact carried_error fun _ => rfl

end Parts

/- A test that depends on a place only for its fault. -/
theorem carried_bounded
    (pos : Position)
    (e : Expr) :
    Carried f tail id (boundedTree limit pos e)
      (boundedTree limit (f pos) e) := by
  cases limit with
  | none => exact carried_ok rfl
  | some n =>
      rw [boundedTree_some, boundedTree_some]
      split
      · exact carried_error fun _ => rfl
      · exact carried_ok rfl

theorem carried_mayOpen
    (pos : Position)
    (depth : Nat) :
    Carried f tail id (mayOpen limit pos depth)
      (mayOpen limit (f pos) depth) := by
  unfold mayOpen
  split
  · exact carried_ok rfl
  · split
    · exact carried_error fun _ => rfl
    · exact carried_ok rfl

theorem carried_parameters
    (pos : Position)
    (es : List Expr) :
    Carried f tail id (parameters pos es) (parameters (f pos) es) := by
  induction es with
  | nil => exact carried_ok rfl
  | cons e es ih =>
      cases e
      case var name => exact ih.map fun _ => rfl
      all_goals exact carried_error fun _ => rfl

------------------------------------------------------------
-- Expressions
------------------------------------------------------------

/- All readers of expressions, of one sequence of tokens. -/
structure Carries
    (limit : Option Nat)
    (ending ending' : Ending)
    (f : Position → Position)
    (tail toks : List Token) : Prop where
  operand :
    Carrying f tail (outcome (operand limit ending toks))
      (outcome (operand limit ending' (carry f tail toks)))
  climb :
    ∀ least,
      Carrying f tail (outcome (climb limit ending least toks))
        (outcome (climb limit ending' least (carry f tail toks)))
  extend :
    ∀ least left,
      Carrying f tail (outcome (extend limit ending least left toks))
        (outcome (extend limit ending' least left (carry f tail toks)))
  arguments :
    Carrying f tail (outcome (arguments limit ending toks))
      (outcome (arguments limit ending' (carry f tail toks)))
  someArguments :
    Carrying f tail (outcome (someArguments limit ending toks))
      (outcome (someArguments limit ending' (carry f tail toks)))

section Steps

variable {toks : List Token}
variable (hFollowed : Followed f ending tail ending')
variable (ih : ∀ shorter : List Token, shorter.length < toks.length →
  Carries limit ending ending' f tail shorter)

include hFollowed ih

/- An operand. -/
theorem carried_operand :
    Carrying f tail (outcome (operand limit ending toks))
      (outcome (operand limit ending' (carry f tail toks))) := by
  cases toks with
  | nil =>
      rw [outcome_operand_nil]
      apply carried_error
      intro hNone
      rw [carry_nil, hNone, outcome_operand_nil,
        hFollowed.fault .expression hNone]
  | cons t rest =>
      rw [carry_cons]
      rcases operand_cases t.kind with
        ⟨op, hOp⟩ | ⟨hOp, literal, hLiteral⟩ | ⟨name, hName⟩ | hOpen |
        ⟨hOp, hLiteral, hName, hOpen⟩
      · rw [outcome_operand_unary rest hOp,
          outcome_operand_unary (t := t.mapPos f) _ hOp]
        apply (ih rest (by simp)).operand.bind
        intro p _
        exact (carried_bounded t.pos _).map fun _ => rfl
      · rw [outcome_operand_literal rest hOp hLiteral,
          outcome_operand_literal (t := t.mapPos f) _ hOp hLiteral]
        exact carried_ok rfl
      · cases hAccept : accept? .parenL rest with
        | none =>
            have hNext := head_ne_of_accept?_eq_none hAccept
            have hNext' := hFollowed.head_carry_ne hNext (by simp)
            rw [outcome_operand_var hName hNext,
              outcome_operand_var (t := t.mapPos f) hName hNext']
            exact (carried_peek hFollowed rest).map fun _ => rfl
        | some p =>
            rcases accept?_eq_some hAccept with
              ⟨u, inner, hOpen, rfl, _⟩
            rw [carry_cons, outcome_operand_call inner hName hOpen,
              outcome_operand_call (t := t.mapPos f) (u := u.mapPos f)
                _ hName hOpen]
            apply (ih inner (by simp)).arguments.bind
            intro p _
            exact (carried_bounded t.pos _).map fun _ => rfl
      · rw [outcome_operand_group rest hOpen,
          outcome_operand_group (t := t.mapPos f) _ hOpen]
        apply ((ih rest (by simp)).climb 0).bind
        intro p _
        exact (carried_expect hFollowed .parenR p.2).map fun _ => rfl
      · rw [outcome_operand_other rest hOp hLiteral hName hOpen,
          outcome_operand_other (t := t.mapPos f) _ hOp hLiteral hName
            hOpen]
        exact carried_error fun _ => rfl

/- An operand and the operators behind it. -/
theorem carried_climb
    (least : Nat) :
    Carrying f tail (outcome (climb limit ending least toks))
      (outcome (climb limit ending' least (carry f tail toks))) := by
  rw [outcome_climb, outcome_climb]
  apply (carried_operand hFollowed ih).bind
  rintro ⟨left, rest⟩ hLeft
  exact (ih rest (length_lt_of_outcome hLeft)).extend least left

/- Operators behind an expression. A semicolon is none of them. -/
theorem carried_extend
    (least : Nat)
    (left : Expr) :
    Carrying f tail (outcome (extend limit ending least left toks))
      (outcome
        (extend limit ending' least left (carry f tail toks))) := by
  cases toks with
  | nil =>
      rw [outcome_extend_nil, carry_nil]
      have hLook := hFollowed.carried_look
      cases hFollowed with
      | moved =>
          rw [outcome_extend_nil]
          exact hLook.map fun _ => rfl
      | semicolon more ending' hKind =>
          have hStop : ∀ op ∈ binaryOp? (.symbol .semicolon),
              op.precedence ≤ least := by
            intro op hOp
            cases hOp
          rw [outcome_extend_stop left more (by rwa [hKind])]
          exact hLook.map (k := fun _ => (left, _ :: more)) fun _ => rfl
  | cons t rest =>
      rw [carry_cons]
      by_cases hOperator : ∃ op, binaryOp? t.kind = some op ∧
          least < op.precedence
      · rcases hOperator with ⟨op, hOp, hTight⟩
        rw [outcome_extend_op left rest hOp hTight,
          outcome_extend_op (t := t.mapPos f) left _ hOp hTight]
        apply ((ih rest (by simp)).climb op.precedence).bind
        rintro ⟨right, behind⟩ hRight
        have hShorter := length_lt_of_outcome hRight
        apply (carried_bounded t.pos _).bind
        intro e _
        exact (ih behind (Nat.lt_succ_of_lt hShorter)).extend least e
      · have hStop : ∀ op ∈ binaryOp? t.kind, op.precedence ≤ least := by
          intro op hOp
          apply Nat.le_of_not_lt
          intro hTight
          exact hOperator ⟨op, hOp, hTight⟩
        rw [outcome_extend_stop left rest hStop,
          outcome_extend_stop (t := t.mapPos f) left _ hStop]
        exact carried_ok rfl

/- At least one argument. -/
theorem carried_someArguments :
    Carrying f tail (outcome (someArguments limit ending toks))
      (outcome (someArguments limit ending' (carry f tail toks))) := by
  rw [outcome_someArguments, outcome_someArguments]
  apply (carried_climb hFollowed ih 0).bind
  rintro ⟨e, next⟩ hFirst
  have hShorter := length_lt_of_outcome hFirst
  dsimp only [Prod.map]
  cases hComma : accept? .comma next with
  | none =>
      have hNext := hFollowed.head_carry_ne
        (head_ne_of_accept?_eq_none hComma) (by simp)
      simp only [moreArguments, hComma, accept?_eq_none hNext]
      exact (carried_expect hFollowed .parenR next).map fun _ => rfl
  | some p =>
      rcases accept?_eq_some hComma with ⟨t, rest, hKind, rfl, hRest⟩
      simp only [moreArguments, carry_cons, accept?_cons_of_eq rest hKind,
        accept?_cons_of_eq (t := t.mapPos f) _ hKind]
      exact (ih rest (Nat.lt_of_succ_lt hShorter)).someArguments.map
        fun _ => rfl

/- The arguments of a call. -/
theorem carried_arguments :
    Carrying f tail (outcome (arguments limit ending toks))
      (outcome (arguments limit ending' (carry f tail toks))) := by
  cases hAccept : accept? .parenR toks with
  | none =>
      have hNext := head_ne_of_accept?_eq_none hAccept
      rw [outcome_arguments_open hNext,
        outcome_arguments_open (hFollowed.head_carry_ne hNext (by simp))]
      exact carried_someArguments hFollowed ih
  | some p =>
      rcases accept?_eq_some hAccept with ⟨t, rest, hClose, rfl, _⟩
      rw [carry_cons, outcome_arguments_close rest hClose,
        outcome_arguments_close (t := t.mapPos f) _ hClose]
      exact carried_ok rfl

end Steps

/- Expressions, by the number of tokens. -/
theorem carries
    (hFollowed : Followed f ending tail ending')
    (toks : List Token) :
    Carries limit ending ending' f tail toks := by
  induction hLength : toks.length using Nat.strong_induction_on
    generalizing toks with
  | _ length ih =>
      have ihShorter : ∀ shorter : List Token,
          shorter.length < toks.length →
            Carries limit ending ending' f tail shorter := by
        intro shorter hLt
        exact ih shorter.length (hLength ▸ hLt) shorter rfl
      exact
        { operand := carried_operand hFollowed ihShorter
          climb := carried_climb hFollowed ihShorter
          extend := carried_extend hFollowed ihShorter
          arguments := carried_arguments hFollowed ihShorter
          someArguments := carried_someArguments hFollowed ihShorter }

/- A whole expression. -/
theorem carried_expression
    (hFollowed : Followed f ending tail ending')
    (toks : List Token) :
    Carrying f tail (outcome (expression limit ending toks))
      (outcome (expression limit ending' (carry f tail toks))) :=
  (carries hFollowed toks).climb 0

------------------------------------------------------------
-- Statements
------------------------------------------------------------

/- All readers of statements, of one sequence of tokens. -/
structure CarriesStmt
    (limit : Option Nat)
    (ending ending' : Ending)
    (f : Position → Position)
    (tail toks : List Token) : Prop where
  bare :
    ∀ depth,
      Carrying f tail (outcome (bareStatement limit ending depth toks))
        (outcome (bareStatement limit ending' depth (carry f tail toks)))
  conditional :
    ∀ depth,
      Carrying f tail (outcome (conditional limit ending depth toks))
        (outcome (conditional limit ending' depth (carry f tail toks)))
  block :
    ∀ depth,
      Carrying f tail (outcome (block limit ending depth toks))
        (outcome (block limit ending' depth (carry f tail toks)))
  body :
    ∀ depth,
      Carrying f tail (outcome (blockBody limit ending depth toks))
        (outcome (blockBody limit ending' depth (carry f tail toks)))

/- What a `return` gives back. A semicolon ends it too. -/
theorem carried_returned
    (hFollowed : Followed f ending tail ending')
    (toks : List Token) :
    Carrying f tail (outcome (returned limit ending toks))
      (outcome (returned limit ending' (carry f tail toks))) := by
  cases toks with
  | nil =>
      rw [outcome_returned_nil, carry_nil]
      have hLook := hFollowed.carried_look
      cases hFollowed with
      | moved =>
          rw [outcome_returned_nil]
          exact hLook.map fun _ => rfl
      | semicolon more ending' hKind =>
          rw [outcome_returned_none (.inl (by simp))
            (by simpa using .inr hKind)]
          exact hLook.map (k := fun _ => (none, _ :: more)) fun _ => rfl
  | cons t rest =>
      rw [carry_cons]
      by_cases hStop : t.kind = .symbol .braceR ∨
          t.kind = .symbol .semicolon
      · rw [outcome_returned_none (.inl (by simp)) (by simpa using hStop),
          outcome_returned_none (.inl (by simp))
            (by simpa [Token.mapPos] using hStop)]
        exact carried_ok rfl
      · rcases not_or.mp hStop with ⟨hClose, hSemicolon⟩
        rw [outcome_returned_some rest hClose hSemicolon,
          outcome_returned_some (t := t.mapPos f) _ hClose hSemicolon,
          ← carry_cons]
        exact (carried_expression hFollowed (t :: rest)).map fun _ => rfl

/- The heading of a definition is one at another place too. -/
theorem heading?_carry
    (hFollowed : Followed f ending tail ending')
    (e : Expr)
    (toks : List Token) :
    heading? e (carry f tail toks) =
      (heading? e toks).map fun h => (h.1, h.2.1, f h.2.2) := by
  cases e
  case call name args =>
    cases toks with
    | nil =>
        cases hFollowed with
        | moved => rfl
        | semicolon more ending' hKind =>
            simp [heading?, carry, hKind]
    | cons t rest =>
        by_cases hOpen : t.kind = .symbol .braceL
        · simp [heading?, carry, Token.mapPos, hOpen]
        · simp [heading?, carry, Token.mapPos, hOpen]
  all_goals rfl

/- Tokens that do not begin an assignment. -/
theorem Followed.not_assign_carry
    (h : Followed f ending tail ending')
    {toks : List Token}
    (hAssign : ∀ name rest, kinds toks ≠
      .ident name :: .symbol .assign :: rest)
    (name : String)
    (rest : List TokenKind) :
    kinds (carry f tail toks) ≠
      .ident name :: .symbol .assign :: rest := by
  intro hKinds
  match toks with
  | [] =>
      have hHead : ∀ t ∈ (carry f tail []).head?, t.kind ≠ .ident name :=
        h.head_carry_ne (by simp) (by simp)
      rcases kinds_eq_cons hKinds with ⟨t, others, hSplit, hName, _⟩
      exact hHead t (by rw [hSplit]; rfl) hName
  | [t] =>
      have hHead :
          ∀ t ∈ (carry f tail []).head?, t.kind ≠ .symbol .assign :=
        h.head_carry_ne (by simp) (by simp)
      rw [carry_cons, kinds_cons] at hKinds
      rcases kinds_eq_cons (List.cons.inj hKinds).2 with
        ⟨u, others, hSplit, hSign, _⟩
      exact hHead u (by rw [hSplit]; rfl) hSign
  | t :: u :: others =>
      rw [carry_cons, carry_cons, kinds_cons, kinds_cons] at hKinds
      apply hAssign name (kinds others)
      rw [kinds_cons, kinds_cons]
      simp only [List.cons.injEq] at hKinds ⊢
      exact ⟨hKinds.1, hKinds.2.1, trivial⟩

section StmtSteps

variable {toks : List Token}
variable (hFollowed : Followed f ending tail ending')
variable (ih : ∀ shorter : List Token, shorter.length < toks.length →
  CarriesStmt limit ending ending' f tail shorter)

include hFollowed ih

/- An expression, or a call that a block turns into a definition. -/
theorem carried_callOrDefinition
    (depth : Nat) :
    Carrying f tail (outcome (callOrDefinition limit ending depth toks))
      (outcome (callOrDefinition limit ending' depth
        (carry f tail toks))) := by
  rw [outcome_callOrDefinition, outcome_callOrDefinition]
  apply (carried_expression hFollowed toks).bind
  rintro ⟨e, rest⟩ hExpr
  have hShorter := length_lt_of_outcome hExpr
  dsimp only [Prod.map, id_eq]
  unfold definition
  rw [heading?_carry hFollowed]
  cases heading? e rest with
  | none => exact carried_ok rfl
  | some heading =>
      rcases heading with ⟨name, args, pos⟩
      apply (carried_parameters pos args).bind
      intro params _
      exact ((ih rest hShorter).block depth).map fun _ => rfl

/- A statement without what may end it. -/
theorem carried_bareStatement
    (depth : Nat) :
    Carrying f tail (outcome (bareStatement limit ending depth toks))
      (outcome (bareStatement limit ending' depth
        (carry f tail toks))) := by
  rcases bareStatement_begins toks with
    ⟨name, t, u, rest, rfl, hName, hAssign⟩ |
    ⟨t, rest, rfl, hIf⟩ | ⟨t, rest, rfl, hReturn⟩ |
    ⟨hAssign, hIf, hReturn⟩
  · rw [carry_cons, carry_cons,
      outcome_bareStatement_assign rest hName hAssign,
      outcome_bareStatement_assign (t := t.mapPos f) (u := u.mapPos f)
        _ hName hAssign]
    exact (carried_expression hFollowed rest).map fun _ => rfl
  · rw [carry_cons, outcome_bareStatement_if rest hIf,
      outcome_bareStatement_if (t := t.mapPos f) _ hIf]
    exact (ih rest (by simp)).conditional depth
  · rw [carry_cons, outcome_bareStatement_return rest hReturn,
      outcome_bareStatement_return (t := t.mapPos f) _ hReturn]
    exact (carried_returned hFollowed rest).map fun _ => rfl
  · rw [outcome_bareStatement_other hAssign hIf hReturn,
      outcome_bareStatement_other (hFollowed.not_assign_carry hAssign)
        (hFollowed.head_carry_ne hIf (by simp))
        (hFollowed.head_carry_ne hReturn (by simp))]
    exact carried_callOrDefinition hFollowed ih depth

/- What stands behind the first block of a conditional. -/
theorem carried_otherwise
    {rest : List Token}
    (depth : Nat)
    (test : Expr)
    (yes : Block)
    (hShorter : rest.length < toks.length) :
    Carrying f tail (otherwise limit ending depth test yes rest)
      (otherwise limit ending' depth test yes (carry f tail rest)) := by
  cases hAccept : accept? .kwElse rest with
  | none =>
      have hNext := head_ne_of_accept?_eq_none hAccept
      rw [otherwise_none hNext,
        otherwise_none (hFollowed.head_carry_ne hNext (by simp))]
      exact carried_ok rfl
  | some p =>
      rcases accept?_eq_some hAccept with ⟨t, other, hElse, rfl, _⟩
      have hOther : other.length < toks.length :=
        Nat.lt_of_succ_lt hShorter
      rw [carry_cons]
      cases hChained : accept? .kwIf other with
      | none =>
          have hNext := head_ne_of_accept?_eq_none hChained
          rw [otherwise_block hElse hNext,
            otherwise_block (t := t.mapPos f) hElse
              (hFollowed.head_carry_ne hNext (by simp))]
          exact ((ih other hOther).block depth).map fun _ => rfl
      | some q =>
          rcases accept?_eq_some hChained with ⟨u, chain, hIf, rfl, _⟩
          rw [carry_cons, otherwise_chain chain hElse hIf,
            otherwise_chain (t := t.mapPos f) (u := u.mapPos f) _ hElse
              hIf]
          exact ((ih chain (Nat.lt_of_succ_lt hOther)).conditional
            depth).map fun _ => rfl

/- A conditional from behind its keyword. -/
theorem carried_conditional
    (depth : Nat) :
    Carrying f tail (outcome (conditional limit ending depth toks))
      (outcome (conditional limit ending' depth
        (carry f tail toks))) := by
  rw [outcome_conditional, outcome_conditional]
  apply (carried_expression hFollowed toks).bind
  rintro ⟨test, opening⟩ hTest
  have hOpening := length_lt_of_outcome hTest
  apply ((ih opening hOpening).block depth).bind
  rintro ⟨yes, rest⟩ hYes
  have hRest := length_lt_of_outcome hYes
  apply (carried_peek hFollowed rest).bind
  intro _ _
  exact carried_otherwise hFollowed ih depth test yes
    (Nat.lt_trans hRest hOpening)

/- A block with its braces. -/
theorem carried_block
    (depth : Nat) :
    Carrying f tail (outcome (block limit ending depth toks))
      (outcome (block limit ending' depth (carry f tail toks))) := by
  cases toks with
  | nil =>
      rw [outcome_block_nil]
      apply carried_error
      intro hNone
      rw [carry_nil, hNone, outcome_block_nil,
        hFollowed.fault (.symbol .braceL) hNone]
  | cons t rest =>
      rw [carry_cons]
      by_cases hOpen : t.kind = .symbol .braceL
      · rw [outcome_block_open rest hOpen,
          outcome_block_open (t := t.mapPos f) _ hOpen]
        apply (carried_mayOpen t.pos depth).bind
        intro _ _
        exact (ih rest (by simp)).body (depth + 1)
      · rw [outcome_block_other rest hOpen,
          outcome_block_other (t := t.mapPos f) _ hOpen]
        exact carried_error fun _ => rfl

/- The statements of a block and its closing brace. -/
theorem carried_blockBody
    (depth : Nat) :
    Carrying f tail (outcome (blockBody limit ending depth toks))
      (outcome (blockBody limit ending' depth (carry f tail toks))) := by
  cases toks with
  | nil =>
      rw [outcome_blockBody_nil]
      apply carried_error
      intro hNone
      rw [carry_nil, hNone, outcome_blockBody_nil,
        hFollowed.fault (.symbol .braceR) hNone]
  | cons t rest =>
      rw [carry_cons]
      by_cases hSemicolon : t.kind = .symbol .semicolon
      · rw [outcome_blockBody_semicolon rest hSemicolon,
          outcome_blockBody_semicolon (t := t.mapPos f) _ hSemicolon]
        exact (ih rest (by simp)).body depth
      by_cases hClose : t.kind = .symbol .braceR
      · rw [outcome_blockBody_close rest hClose,
          outcome_blockBody_close (t := t.mapPos f) _ hClose]
        exact carried_ok rfl
      -- Without its semicolon a statement leaves what is behind it.
      rw [outcome_blockBody_bare rest hSemicolon hClose,
        outcome_blockBody_bare (t := t.mapPos f) _ hSemicolon hClose,
        ← carry_cons]
      apply (carried_bareStatement hFollowed ih depth).bind
      rintro ⟨s, next⟩ hStmt
      exact ((ih next (length_lt_of_outcome hStmt)).body depth).map
        fun _ => rfl

end StmtSteps

/- Statements, by the number of tokens. -/
theorem carriesStmt
    (hFollowed : Followed f ending tail ending')
    (toks : List Token) :
    CarriesStmt limit ending ending' f tail toks := by
  induction hLength : toks.length using Nat.strong_induction_on
    generalizing toks with
  | _ length ih =>
      have ihShorter : ∀ shorter : List Token,
          shorter.length < toks.length →
            CarriesStmt limit ending ending' f tail shorter := by
        intro shorter hLt
        exact ih shorter.length (hLength ▸ hLt) shorter rfl
      exact
        { bare := carried_bareStatement hFollowed ihShorter
          conditional := carried_conditional hFollowed ihShorter
          block := carried_block hFollowed ihShorter
          body := carried_blockBody hFollowed ihShorter }

------------------------------------------------------------
-- Programs
------------------------------------------------------------

/- A program is read again with what stands behind it. -/
theorem statements_carry
    {toks : List Token}
    {b : Block}
    (hFollowed : Followed f ending tail ending')
    (h : statements limit ending toks = .ok b) :
    statements limit ending' (carry f tail toks) =
      (statements limit ending' tail).map (b ++ ·) := by
  induction hLength : toks.length using Nat.strong_induction_on
    generalizing toks b with
  | _ length ih =>
      cases toks with
      | nil =>
          rw [statements_nil] at h
          rcases bind_succeeds_iff.mp h with ⟨_, _, hLast⟩
          cases hLast
          rw [carry_nil]
          cases statements limit ending' tail with
          | ok b => rfl
          | error e => rfl
      | cons t rest =>
          rw [carry_cons]
          by_cases hSemicolon : t.kind = .symbol .semicolon
          · rw [statements_semicolon rest hSemicolon] at h
            rw [statements_semicolon (t := t.mapPos f) _ hSemicolon]
            exact ih rest.length (by rw [← hLength]; simp) h rfl
          rw [statements_bare rest hSemicolon] at h
          rcases bind_succeeds_iff.mp h with ⟨⟨s, next⟩, hStmt, hThen⟩
          rcases bind_succeeds_iff.mp hThen with ⟨ss, hOthers, hLast⟩
          cases hLast
          have hShorter := length_lt_of_outcome hStmt
          have hCarried :=
            ((carriesStmt hFollowed (t :: rest)).bare 0).ok _ hStmt
          rw [statements_bare (t := t.mapPos f) _ hSemicolon,
            ← carry_cons, hCarried, ok_bind]
          dsimp only [Prod.map, id_eq]
          rw [ih next.length (hLength ▸ hShorter) hOthers rfl]
          cases statements limit ending' tail with
          | ok b => rfl
          | error e => rfl

/- A program, a semicolon and more behind it. -/
theorem statements_append_semicolon
    {toks : List Token}
    {b : Block}
    {t : Token}
    (more : List Token)
    (hKind : t.kind = .symbol .semicolon)
    (h : statements limit ending toks = .ok b) :
    statements limit ending' (toks ++ t :: more) =
      (statements limit ending' more).map (b ++ ·) := by
  have hCarry := statements_carry (f := id)
    (.semicolon more ending' hKind) h
  rw [carry, Token.mapPos_id, List.map_id,
    statements_semicolon more hKind] at hCarry
  exact hCarry

/- Tokens at other places are the same program, or no program. -/
theorem carried_statements
    (f : Position → Position)
    (toks : List Token) :
    Carried f [] id (statements limit ending toks)
      (statements limit (ending.mapPos f) (carry f [] toks)) := by
  induction hLength : toks.length using Nat.strong_induction_on
    generalizing toks with
  | _ length ih =>
      cases toks with
      | nil =>
          rw [carry_nil, statements_nil, statements_nil]
          exact Followed.moved.carried_look.map fun _ => rfl
      | cons t rest =>
          rw [carry_cons]
          by_cases hSemicolon : t.kind = .symbol .semicolon
          · rw [statements_semicolon rest hSemicolon,
              statements_semicolon (t := t.mapPos f) _ hSemicolon]
            exact ih rest.length (by rw [← hLength]; simp) rest rfl
          rw [statements_bare rest hSemicolon,
            statements_bare (t := t.mapPos f) _ hSemicolon,
            ← carry_cons]
          apply ((carriesStmt .moved (t :: rest)).bare 0).bind
          rintro ⟨s, next⟩ hStmt
          have hShorter := length_lt_of_outcome hStmt
          exact (ih next.length (hLength ▸ hShorter) next rfl).map
            fun _ => rfl

end Parse

------------------------------------------------------------
-- Source texts
------------------------------------------------------------

/-
  A program, a semicolon in a line of its own and another text
  are the statements of both, if the other text is a program,
  and otherwise its fault, as many lines and bytes further on
  as stand before it.
-/
theorem parse_append
    {first : String}
    {b : Block}
    (h : parse first = .ok b)
    (second : String) :
    parse (first ++ "\n;\n" ++ second) =
      match parse second with
      | .ok b' => .ok (b ++ b')
      | .error e =>
        .error (e.mapPos (Position.shift
          (first.toList.count '\n' + 2) (first.utf8ByteSize + 3))) := by
  let f := Position.shift (first.toList.count '\n' + 2)
    (first.utf8ByteSize + 3)
  let s₁ := TokenStream.ofSource first
  let s₂ := TokenStream.ofSource second
  have hEnd : ∃ p, s₁ = ⟨s₁.tokens, .endOfInput p⟩ := by
    have hLook : s₁.ending.look = .ok () := Parse.look_of_statements h
    rcases hStream : s₁ with ⟨toks, p | e⟩
    · exact ⟨p, rfl⟩
    · rw [hStream] at hLook
      cases hLook
  rcases hEnd with ⟨p, hStream⟩
  rcases ofSource_append hStream second with ⟨t, hKind, hBoth⟩
  have hSecond : Carried f [] id (parse second)
      (Parse.statements (some maxNesting) (s₂.ending.mapPos f)
        (Parse.carry f [] s₂.tokens)) :=
    Parse.carried_statements f s₂.tokens
  rw [Parse.carry, List.append_nil] at hSecond
  rw [parse, parseWithin, hBoth]
  dsimp only [TokenStream.mapPos]
  rw [Parse.statements_append_semicolon _ hKind h]
  cases hParse : parse second with
  | ok b' =>
      rw [hSecond.ok b' hParse]
      rfl
  | error e =>
      rw [hSecond.fault e hParse rfl]
      rfl

/- A fault behind a `return` without a value and a comment. -/
theorem parse_append_fault :
    parse "return\n// a" = .ok [.ret none] ∧
      parse "x =" =
        .error (.unexpected .expression .endOfInput ⟨1, 4, 3⟩) ∧
      parse ("return\n// a" ++ "\n;\n" ++ "x =") =
        .error (.unexpected .expression .endOfInput ⟨4, 4, 17⟩) := by
  have hFirst : parse "return\n// a" = .ok [.ret none] := by
    cbv
  have hSecond : parse "x =" =
      .error (.unexpected .expression .endOfInput ⟨1, 4, 3⟩) := by
    cbv
  refine ⟨hFirst, hSecond, ?_⟩
  rw [parse_append hFirst "x =", hSecond]
  rfl

end DynScript
