import Mathlib.Data.Nat.Init
import DynScript.Proofs.Parse.Descent
import DynScript.Proofs.Parse.Follows
import DynScript.Proofs.Parse.Lookahead
import DynScript.Proofs.Parse.SizedOutcome

/-
  The readers of expressions follow the readers of token lists,
  also in the heights that they count. For the loops of
  operators and of arguments it is said what one turn reads
  from a list of tokens, and that the loop is one turn and what
  it leads to.

  Key definitions include:
    * `Parse.operatorTurn`
    * `Parse.argumentTurn`
    * `Descent.FollowsExpr`

  Main statements include:
    * `Parse.outcome_sizedExtend_turn`
    * `Parse.outcome_sizedSomeArguments_turn`
    * `Descent.followsExpr`
    * `Descent.follows_callArgs`
    * `Descent.height_binary`
-/

namespace DynScript

open Reading

variable {d : Descent}
variable {s : TokenStream}
variable {blocks : Nat}
variable {p : Parser}
variable {toks : List Token}

------------------------------------------------------------
-- Turns of the loops in expressions
------------------------------------------------------------

/- Some arguments behind others. -/
def Sized.append
    (es fs : Sized (List Expr)) : Sized (List Expr) :=
  ⟨es.tree ++ fs.tree, max es.height fs.height⟩

/- Arguments that are taken when none were before. -/
theorem Sized.nil_append
    (es : Sized (List Expr)) :
    Sized.append ⟨[], 0⟩ es = es := by
  rcases es with ⟨es, height⟩
  rw [append, List.nil_append, Nat.zero_max]

/- A loop that has taken nothing before gives what it takes. -/
theorem bind_nil_append
    {α : Type}
    (r : Except ParseError (List α × List Token)) :
    (r >>= fun q => .ok ([] ++ q.1, q.2)) = r := by
  cases r with
  | error e => rfl
  | ok q => rfl

theorem bind_sized_nil_append
    (r : Except ParseError (Sized (List Expr) × List Token)) :
    (r >>= fun q => .ok (Sized.append ⟨[], 0⟩ q.1, q.2)) = r := by
  cases r with
  | error e => rfl
  | ok q => rw [ok_bind, Sized.nil_append]

namespace Parse

/- One operator with its right operand, read from a list of tokens. -/
def operatorTurn
    (limit : Option Nat)
    (ending : Ending)
    (least : Nat)
    (left : Sized Expr) :
    List Token →
      Except ParseError (Turn (Sized Expr) (Sized Expr) × List Token)
  | [] => ending.look >>= fun _ => .ok (.done left, [])
  | t :: rest =>
    match binaryOp? t.kind with
    | none => .ok (.done left, t :: rest)
    | some op =>
      if least < op.precedence then
        outcome (sizedClimb limit ending op.precedence rest) >>=
          fun q =>
            bounded limit t.pos (max left.height q.1.height + 1) >>=
              fun height =>
                .ok (.again ⟨.binary op left.tree q.1.tree, height⟩,
                  q.2)
      else
        .ok (.done left, t :: rest)

/- Extending an expression is one turn and what it leads to. -/
theorem outcome_sizedExtend_turn
    (limit : Option Nat)
    (ending : Ending)
    (least : Nat)
    (left : Sized Expr)
    (toks : List Token) :
    outcome (sizedExtend limit ending least left toks) =
      operatorTurn limit ending least left toks >>= fun q =>
        match q.1 with
        | .again e => outcome (sizedExtend limit ending least e q.2)
        | .done e => .ok (e, q.2) := by
  cases toks with
  | nil =>
      rw [outcome_sizedExtend_nil, operatorTurn, bind_assoc]
      rfl
  | cons t rest =>
      rw [operatorTurn]
      cases hOp : binaryOp? t.kind with
      | none =>
          rw [outcome_sizedExtend_none least left rest hOp]
          rfl
      | some op =>
          by_cases hTight : least < op.precedence
          · rw [outcome_sizedExtend_op left rest hOp hTight]
            dsimp only
            rw [if_pos hTight, bind_assoc]
            congr 1
            funext q
            rw [bind_assoc]
            rfl
          · rw [outcome_sizedExtend_loose left rest hOp hTight]
            dsimp only
            rw [if_neg hTight]
            rfl

/- Another turn means that a token was read. -/
theorem length_lt_of_operatorTurn
    {limit : Option Nat}
    {ending : Ending}
    {least : Nat}
    {left e : Sized Expr}
    {toks rest : List Token}
    (h : operatorTurn limit ending least left toks =
      .ok (.again e, rest)) :
    rest.length < toks.length := by
  unfold operatorTurn at h
  split at h
  · rcases bind_succeeds_iff.mp h with ⟨_, _, hLast⟩
    cases hLast
  · split at h
    · cases h
    · split at h
      · rcases bind_succeeds_iff.mp h with ⟨q, hRight, hThen⟩
        rcases bind_succeeds_iff.mp hThen with ⟨height, _, hLast⟩
        cases hLast
        exact Nat.lt_succ_of_lt (length_lt_of_outcome hRight)
      · cases h

/- One more argument, read from a list of tokens. -/
def argumentTurn
    (limit : Option Nat)
    (ending : Ending)
    (args : Sized (List Expr))
    (toks : List Token) :
    Except ParseError
      (Turn (Sized (List Expr)) (Sized (List Expr)) × List Token) :=
  outcome (sizedClimb limit ending 0 toks) >>= fun q =>
    peek ending q.2 >>= fun _ =>
      match accept? .comma q.2 with
      | some next =>
        .ok (.again (args.append ⟨[q.1.tree], q.1.height⟩), next.rest)
      | none =>
        .ok (.done (args.append ⟨[q.1.tree], q.1.height⟩), q.2)

/-
  The arguments of a call are one turn and what it leads to, up
  to the closing parenthesis.
-/
theorem outcome_sizedSomeArguments_turn
    (limit : Option Nat)
    (ending : Ending)
    (args : Sized (List Expr))
    (toks : List Token) :
    (outcome (sizedSomeArguments limit ending toks) >>= fun q =>
        .ok (args.append q.1, q.2)) =
      argumentTurn limit ending args toks >>= fun q =>
        match q.1 with
        | .again args =>
          outcome (sizedSomeArguments limit ending q.2) >>= fun q' =>
            .ok (args.append q'.1, q'.2)
        | .done args =>
          outcome (expect ending .parenR q.2) >>= fun q' =>
            .ok (args, q'.2) := by
  rw [outcome_sizedSomeArguments, argumentTurn, bind_assoc, bind_assoc]
  congr 1
  funext q
  rcases q with ⟨e, next⟩
  unfold moreSizedArguments
  dsimp only
  cases hComma : accept? .comma next with
  | some q =>
      rcases accept?_eq_some hComma with ⟨t, rest, _, rfl, _⟩
      simp [peek, bind_assoc, Sized.append, Nat.max_assoc]
  | none =>
      rw [bind_assoc, bind_assoc]
      dsimp only
      cases next with
      | cons t rest => rfl
      | nil =>
          cases ending with
          | endOfInput pos => rfl
          | failed e => rfl

theorem length_lt_of_argumentTurn
    {limit : Option Nat}
    {ending : Ending}
    {args : Sized (List Expr)}
    {toks rest : List Token}
    {turn : Turn (Sized (List Expr)) (Sized (List Expr))}
    (h : argumentTurn limit ending args toks = .ok (turn, rest)) :
    rest.length < toks.length := by
  rcases bind_succeeds_iff.mp h with ⟨q, hFirst, hThen⟩
  rcases bind_succeeds_iff.mp hThen with ⟨_, _, hLast⟩
  have hShorter := length_lt_of_outcome hFirst
  split at hLast
  · next q' _ =>
      cases hLast
      exact Nat.lt_trans q'.lt hShorter
  · cases hLast
    exact hShorter

end Parse

------------------------------------------------------------
-- Expressions
------------------------------------------------------------

namespace Descent

/-
  Before the tokens `toks` the readers of expressions do what
  the readers of token lists do.
-/
structure FollowsExpr
    (d : Descent)
    (s : TokenStream)
    (blocks : Nat)
    (toks : List Token) : Prop where
  unary :
    ∀ p, p.Stands s blocks toks →
      Follows s blocks d.unary p
        (outcome (Parse.sizedOperand d.limit s.ending toks))
  binary :
    ∀ least p, p.Stands s blocks toks →
      Follows s blocks (d.binary least) p
        (outcome (Parse.sizedClimb d.limit s.ending least toks))
  operators :
    ∀ least left p, p.Stands s blocks toks →
      Follows s blocks (d.operators least left) p
        (outcome
          (Parse.sizedExtend d.limit s.ending least left toks))
  arguments :
    ∀ args p, p.Stands s blocks toks →
      Follows s blocks
        (d.arguments args >>= fun args =>
          expect .parenR >>= fun _ => pure args) p
        (outcome (Parse.sizedSomeArguments d.limit s.ending toks) >>=
          fun q => .ok (args.append q.1, q.2))

section Steps

variable (ih : ∀ shorter : List Token, shorter.length < toks.length →
  FollowsExpr d s blocks shorter)

/-
  An operator may come before an operand, and nothing else is
  looked for.
-/
theorem follows_operatorTurn
    (ih : ∀ shorter : List Token, shorter.length < toks.length →
      ∀ least p, p.Stands s blocks shorter →
        Follows s blocks (d.binary least) p
          (outcome
            (Parse.sizedClimb d.limit s.ending least shorter)))
    (least : Nat)
    (left : Sized Expr)
    (h : p.Stands s blocks toks) :
    Follows s blocks (d.operatorTurn least left) p
      (Parse.operatorTurn d.limit s.ending least left toks) := by
  rw [operatorTurn]
  cases toks with
  | nil =>
      rw [Parse.operatorTurn]
      apply Follows.peek_end h
      · intro pos p' hEnding hStands
        rw [hEnding]
        exact follows_pure hStands _
      · intro e hEnding
        rw [hEnding]
        rfl
  | cons t rest =>
      rw [Parse.operatorTurn]
      apply Follows.peek_token h
      intro p' hStands
      rw [Item.kind?_token, Option.bind_some]
      cases hOp : Parse.binaryOp? t.kind with
      | none => exact follows_pure hStands _
      | some op =>
          dsimp only
          split
          · apply Follows.advance_token hStands
            intro p₁ hRest
            apply (ih rest (by simp) op.precedence p₁ hRest).bind
            intro right behind p₂ _ hBehind
            apply Follows.behind_test hBehind
            intro height _
            exact follows_pure hBehind _
          · exact follows_pure hStands _

include ih in
/- The loop of operators. -/
theorem follows_operators
    (least : Nat)
    (left : Sized Expr)
    (h : p.Stands s blocks toks) :
    Follows s blocks (d.operators least left) p
      (outcome
        (Parse.sizedExtend d.limit s.ending least left toks)) := by
  rw [operators, Parse.outcome_sizedExtend_turn]
  have hTurn := follows_operatorTurn
    (fun shorter hLt => (ih shorter hLt).binary) least left h
  apply hTurn.bind
  intro turn rest p' hOk hStands
  cases turn with
  | again e =>
      have hShorter := Parse.length_lt_of_operatorTurn hOk
      exact (ih rest hShorter).operators least e p' hStands
  | done e => exact follows_pure hStands e

/- One more argument. -/
theorem follows_argumentTurn
    (args : Sized (List Expr))
    (hBinary : Follows s blocks (d.binary 0) p
      (outcome (Parse.sizedClimb d.limit s.ending 0 toks))) :
    Follows s blocks (d.argumentTurn args) p
      (Parse.argumentTurn d.limit s.ending args toks) := by
  rw [argumentTurn, Parse.argumentTurn]
  apply hBinary.bind
  intro e next p' _ hStands
  dsimp only
  apply Follows.behind_eat hStands
  · intro t rest p₁ hNext hKind hRest
    subst hNext
    rw [Parse.accept?_cons_of_eq rest hKind]
    exact follows_pure hRest _
  · intro p₁ hNext hEnd hStands
    rw [Parse.peek_eq_ok.mpr hEnd, ok_bind, Parse.accept?_eq_none hNext]
    exact follows_pure hStands _
  · intro fault hNext hEnding
    rw [hNext, hEnding]
    rfl

include ih in
/- The loop of arguments, up to the closing parenthesis. -/
theorem follows_arguments
    (args : Sized (List Expr))
    (hBinary : Follows s blocks (d.binary 0) p
      (outcome (Parse.sizedClimb d.limit s.ending 0 toks))) :
    Follows s blocks
      (d.arguments args >>= fun args =>
        expect .parenR >>= fun _ => pure args) p
      (outcome (Parse.sizedSomeArguments d.limit s.ending toks) >>=
        fun q => .ok (args.append q.1, q.2)) := by
  rw [arguments, bind_assoc, Parse.outcome_sizedSomeArguments_turn]
  apply (follows_argumentTurn args hBinary).bind
  intro turn rest p' hOk hStands
  cases turn with
  | again more =>
      have hShorter := Parse.length_lt_of_argumentTurn hOk
      exact (ih rest hShorter).arguments more p' hStands
  | done all =>
      dsimp only
      rw [pure_bind]
      apply Follows.behind_expect hStands
      intro t behind p₁ _ _ hBehind
      exact follows_pure hBehind all

/- The arguments of a call, with their parentheses. -/
theorem follows_callArgs
    (ih : ∀ shorter : List Token, shorter.length < toks.length →
      FollowsExpr d s blocks shorter)
    (h : p.Stands s blocks toks) :
    Follows s blocks d.callArgs p
      (outcome (Parse.expect s.ending .parenL toks) >>= fun q =>
        outcome (Parse.sizedArguments d.limit s.ending q.2)) := by
  rw [callArgs]
  apply Follows.behind_expect h
  intro t inner p₁ hToks _ hStands
  subst hToks
  apply Follows.behind_eat hStands
  · intro u rest p₂ hClosed hKind hRest
    subst hClosed
    dsimp only
    rw [Parse.outcome_sizedArguments_close rest hKind]
    exact follows_pure hRest _
  · intro p₂ hNext _ hStands
    have hLoop := (ih inner (by simp)).arguments ⟨[], 0⟩ p₂ hStands
    rw [bind_sized_nil_append] at hLoop
    dsimp only
    rw [Parse.outcome_sizedArguments_open hNext]
    exact hLoop
  · intro e hNext hEnding
    subst hNext
    dsimp only
    rw [Parse.outcome_sizedArguments_open (by rintro u ⟨⟩),
      Parse.outcome_sizedSomeArguments_nil, hEnding]
    rfl

/- A name, which may be called. -/
theorem follows_named
    {t : Token}
    {name : String}
    {rest : List Token}
    (ih : ∀ shorter : List Token, shorter.length < rest.length →
      FollowsExpr d s blocks shorter)
    (hName : t.kind = .ident name)
    (h : p.Stands s blocks rest) :
    Follows s blocks
      (do
        let next ← peek
        if next.kind? = some (.symbol .parenL) then
          let args ← d.callArgs
          let height ← test (Parse.bounded d.limit t.pos
            (args.height + 1))
          return ⟨.call name args.tree, height⟩
        else
          return ⟨.var name, 1⟩) p
      (outcome (Parse.sizedOperand d.limit s.ending (t :: rest))) := by
  cases rest with
  | nil =>
      rw [Parse.outcome_sizedOperand_var hName (by rintro u ⟨⟩)]
      apply Follows.peek_end h
      · intro pos p' hEnding hStands
        rw [Item.kind?_endOfInput, if_neg (by rintro ⟨⟩), hEnding]
        exact follows_pure hStands _
      · intro e hEnding
        rw [hEnding]
        rfl
  | cons u inner =>
      apply Follows.peek_token h
      intro p' hStands
      rw [Item.kind?_token]
      by_cases hOpen : u.kind = .symbol .parenL
      · rw [if_pos (congrArg some hOpen),
          Parse.outcome_sizedOperand_call inner hName hOpen]
        have hArgs := follows_callArgs ih hStands
        rw [Parse.outcome_expect_of_eq inner hOpen, ok_bind] at hArgs
        apply hArgs.bind
        intro args behind p₁ _ hBehind
        apply Follows.behind_test hBehind
        intro height _
        exact follows_pure hBehind _
      · rw [if_neg fun hSome => hOpen (Option.some.inj hSome),
          Parse.outcome_sizedOperand_var hName (by simpa using hOpen)]
        exact follows_pure hStands _

include ih in
/- An operand that no operator precedes. -/
theorem follows_primary
    (h : p.Stands s blocks toks)
    (hSign : ∀ t ∈ toks.head?, Parse.unaryOp? t.kind = none) :
    Follows s blocks d.primary p
      (outcome (Parse.sizedOperand d.limit s.ending toks)) := by
  rw [primary]
  cases toks with
  | nil =>
      rw [Parse.outcome_sizedOperand_nil]
      apply Follows.advance_end h
      intro pos
      rfl
  | cons t rest =>
      apply Follows.advance_token h
      intro p₁ hRest
      rw [Item.kind?_token, Option.bind_some]
      have hOp := hSign t rfl
      rcases Parse.operand_cases t.kind with
        ⟨op, hSome⟩ | ⟨_, literal, hLiteral⟩ | ⟨name, hName⟩ | hOpen |
        ⟨_, hLiteral, hName, hOpen⟩
      · rw [hOp] at hSome
        cases hSome
      · rw [hLiteral,
          Parse.outcome_sizedOperand_literal rest hOp hLiteral]
        exact follows_pure hRest _
      · rw [hName]
        apply follows_named _ hName hRest
        intro shorter hLt
        exact ih shorter (Nat.lt_succ_of_lt hLt)
      · rw [hOpen, Parse.outcome_sizedOperand_group rest hOpen]
        apply ((ih rest (by simp)).binary 0 p₁ hRest).bind
        intro e closing p₂ _ hClosing
        apply Follows.behind_expect hClosing
        intro u behind p₃ _ _ hBehind
        exact follows_pure hBehind e
      · rw [hLiteral, Parse.outcome_sizedOperand_other rest hOp
          hLiteral hName hOpen]
        dsimp only
        split
        · next name hKind =>
            exact absurd (Option.some.inj hKind) (hName name)
        · next hKind => exact absurd (Option.some.inj hKind) hOpen
        · exact follows_fail hRest _

include ih in
/- An operand. -/
theorem follows_unary
    (h : p.Stands s blocks toks) :
    Follows s blocks d.unary p
      (outcome (Parse.sizedOperand d.limit s.ending toks)) := by
  rw [unary]
  cases toks with
  | nil =>
      apply Follows.peek_end h
      · intro pos p' _ hStands
        exact follows_primary ih hStands (by rintro t ⟨⟩)
      · intro e hEnding
        rw [Parse.outcome_sizedOperand_nil, hEnding]
        rfl
  | cons t rest =>
      apply Follows.peek_token h
      intro p' hStands
      rw [Item.kind?_token, Option.bind_some]
      cases hOp : Parse.unaryOp? t.kind with
      | none =>
          exact follows_primary ih hStands (by simpa using hOp)
      | some op =>
          rw [Parse.outcome_sizedOperand_unary rest hOp]
          apply Follows.advance_token hStands
          intro p₁ hRest
          apply ((ih rest (by simp)).unary p₁ hRest).bind
          intro e behind p₂ _ hBehind
          apply Follows.behind_test hBehind
          intro height _
          exact follows_pure hBehind _

include ih in
/- An operand and the operators behind it. -/
theorem follows_binary
    (least : Nat)
    (h : p.Stands s blocks toks) :
    Follows s blocks (d.binary least) p
      (outcome (Parse.sizedClimb d.limit s.ending least toks)) := by
  rw [binary, Parse.outcome_sizedClimb]
  apply (follows_unary ih h).bind
  intro left rest p' hLeft hStands
  have hShorter := Parse.length_lt_of_outcome hLeft
  exact (ih rest hShorter).operators least left p' hStands

end Steps

/- All readers of expressions, by the number of tokens. -/
theorem followsExpr
    (d : Descent)
    (s : TokenStream)
    (blocks : Nat)
    (toks : List Token) :
    FollowsExpr d s blocks toks := by
  induction hLength : toks.length using Nat.strong_induction_on
    generalizing toks with
  | _ length ih =>
      have ihShorter : ∀ shorter : List Token,
          shorter.length < toks.length →
            FollowsExpr d s blocks shorter := by
        intro shorter hLt
        exact ih shorter.length (hLength ▸ hLt) shorter rfl
      exact
        { unary := fun p h => follows_unary ihShorter h
          binary := fun least p h => follows_binary ihShorter least h
          operators := fun least left p h =>
            follows_operators ihShorter least left h
          arguments := fun args p h =>
            follows_arguments ihShorter args
              (follows_binary ihShorter 0 h) }

/- A whole expression. -/
theorem follows_expression
    (h : p.Stands s blocks toks) :
    Follows s blocks d.expression p
      (outcome (Parse.expression d.limit s.ending toks)) := by
  have hClimb := (followsExpr d s blocks toks).binary 0 p h
  have hTree := hClimb.map Sized.tree
  rw [Parse.expression, expression]
  cases hRead : Parse.sizedClimb d.limit s.ending 0 toks with
  | error e =>
      rw [hRead] at hTree
      exact hTree
  | ok q =>
      rw [hRead] at hTree
      exact hTree

/-
  The number that comes with an expression is its height, also
  where it is read from a supply.
-/
theorem height_binary
    {least : Nat}
    {e : Sized Expr}
    {p' : Parser}
    (h : p.Stands s blocks toks)
    (hAnswer : d.binary least p = some (.ok e, p')) :
    e.height = e.tree.height := by
  have hClimb := (followsExpr d s blocks toks).binary least p h
  cases hRead : Parse.sizedClimb d.limit s.ending least toks with
  | error e' =>
      rw [hRead] at hClimb
      cases hClimb with
      | fault hFault _ _ => cases hFault.symm.trans hAnswer
  | ok q =>
      have hExact := Parse.exact_sizedClimb least toks q hRead
      rw [hRead, outcome_ok] at hClimb
      cases hClimb with
      | ok hSame _ _ =>
          cases hSame.symm.trans hAnswer
          exact hExact

end Descent

end DynScript
