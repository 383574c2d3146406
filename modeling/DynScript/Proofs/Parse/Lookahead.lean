import DynScript.Proofs.Parse.Forms

/-
  How far readers look. What a reader makes of the tokens in
  front of it depends on those it takes and on the first one
  behind them, and where it blames a token, on nothing behind
  that token.

  Key definitions include:
    * `Parse.Reading`
    * `Parse.Keeps`
    * `Parse.Blames`
    * `Parse.Settled`

  Main statements include:
    * `Parse.Settled.bind`
    * `Parse.settles`
    * `Parse.settlesStmt`
    * `Parse.settled_statements`
-/

namespace DynScript

namespace Parse

------------------------------------------------------------
-- Readings
------------------------------------------------------------

/- What is made of tokens and of what ends them. -/
abbrev Reading
    (α : Type) :=
  Ending → List Token → Except ParseError (α × List Token)

/-
  The tokens behind a place may be exchanged for others with
  the same first one. Where a lexical fault stands behind the
  place, nobody has looked there, and anything may follow.
-/
def Keeps
    (ending : Ending) : List Token → List Token → Prop
  | t :: _, rest' => rest'.head? = some t
  | [], _ => ∃ e, ending = .failed e

/- A syntax error is placed at the first of the tokens, or at the end. -/
def Blames
    (ending : Ending)
    (rest : List Token)
    (e : ParseError) : Prop :=
  ∀ expected found pos, e = .unexpected expected found pos →
    match rest with
    | t :: _ => t.pos = pos
    | [] => ending = .endOfInput pos

/-
  What a reading gives for some tokens does not change when
  those that it has not looked at are exchanged. A fault of the
  lexer is the one that ends the tokens.
-/
structure Settled
    {α : Type}
    (read : Reading α)
    (ending : Ending)
    (toks : List Token) : Prop where
  ok :
    ∀ a rest, read ending toks = .ok (a, rest) →
      ∃ taken, toks = taken ++ rest ∧
        ∀ ending' rest', Keeps ending rest rest' →
          read ending' (taken ++ rest') = .ok (a, rest')
  lex :
    ∀ e, read ending toks = .error (.lex e) → ending = .failed e
  fault :
    ∀ e, read ending toks = .error e → (∀ e', e ≠ .lex e') →
      ∃ taken rest, toks = taken ++ rest ∧ Blames ending rest e ∧
        ∀ ending' rest', Keeps ending rest rest' →
          read ending' (taken ++ rest') = .error e

section Settled

variable {α β : Type}
variable {ending : Ending}
variable {toks rest : List Token}
variable {t : Token}

/- Tokens that begin alike may be exchanged for each other. -/
theorem keeps_append
    {taken behind rest' : List Token}
    (h : Keeps ending behind rest') :
    Keeps ending (taken ++ behind) (taken ++ rest') := by
  cases taken with
  | nil => exact h
  | cons t taken => rfl

/- What is exchanged for tokens begins with the first of them. -/
theorem Keeps.exists_cons
    {rest' : List Token}
    (h : Keeps ending (t :: rest) rest') :
    ∃ more, rest' = t :: more :=
  List.head?_eq_some_iff.mp h

/- Two readings one after the other. -/
theorem Settled.bind
    {read : Reading α}
    (hFirst : Settled read ending toks)
    (next : α → Reading β)
    (hNext : ∀ a rest, read ending toks = .ok (a, rest) →
      Settled (next a) ending rest) :
    Settled (fun ending toks =>
      read ending toks >>= fun p => next p.1 ending p.2) ending toks := by
  cases hRead : read ending toks with
  | error e =>
      constructor
      · intro b rest h
        rw [hRead] at h
        cases h
      · intro e' h
        rw [hRead] at h
        rcases Except.error.inj h with rfl
        exact hFirst.lex e' hRead
      · intro e' h hLex
        rw [hRead] at h
        rcases Except.error.inj h with rfl
        rcases hFirst.fault e hRead hLex with
          ⟨taken, rest, hSplit, hBlames, hSame⟩
        refine ⟨taken, rest, hSplit, hBlames, ?_⟩
        intro ending' rest' hKeeps
        rw [hSame ending' rest' hKeeps]
        rfl
  | ok p =>
      rcases p with ⟨a, rest⟩
      rcases hFirst.ok a rest hRead with ⟨taken, hSplit, hSame⟩
      have hThen := hNext a rest hRead
      -- The second reading takes its tokens behind those of the first.
      have hBoth : ∀ more behind, rest = more ++ behind →
          ∀ ending' rest', Keeps ending behind rest' →
            read ending' (taken ++ more ++ rest') =
              .ok (a, more ++ rest') := by
        intro more behind hRest ending' rest' hKeeps
        rw [List.append_assoc]
        apply hSame
        rw [hRest]
        exact keeps_append hKeeps
      constructor
      · intro b behind h
        rw [hRead] at h
        rcases hThen.ok b behind h with ⟨more, hRest, hSecond⟩
        refine ⟨taken ++ more, by rw [hSplit, hRest, List.append_assoc],
          ?_⟩
        intro ending' rest' hKeeps
        rw [hBoth more behind hRest ending' rest' hKeeps]
        exact hSecond ending' rest' hKeeps
      · intro e h
        rw [hRead] at h
        exact hThen.lex e h
      · intro e h hLex
        rw [hRead] at h
        rcases hThen.fault e h hLex with
          ⟨more, behind, hRest, hBlames, hSecond⟩
        refine ⟨taken ++ more, behind,
          by rw [hSplit, hRest, List.append_assoc], hBlames, ?_⟩
        intro ending' rest' hKeeps
        rw [hBoth more behind hRest ending' rest' hKeeps]
        exact hSecond ending' rest' hKeeps

/- A step behind a reading that always succeeds. -/
theorem Settled.map
    {read : Reading α}
    (hFirst : Settled read ending toks)
    (g : α → β) :
    Settled (fun ending toks =>
      read ending toks >>= fun p => .ok (g p.1, p.2)) ending toks := by
  apply hFirst.bind (fun a _ toks => .ok (g a, toks))
  intro a rest _
  constructor
  · intro b behind h
    cases h
    exact ⟨[], rfl, fun _ _ _ => rfl⟩
  · intro e h
    cases h
  · intro e h
    cases h

/- A reading that does the same behind one more token. -/
theorem Settled.cons
    {read behind : Reading α}
    (h : Settled behind ending rest)
    (hRead :
      ∀ ending toks, read ending (t :: toks) = behind ending toks) :
    Settled read ending (t :: rest) := by
  constructor
  · intro a left hOk
    rw [hRead] at hOk
    rcases h.ok a left hOk with ⟨taken, hSplit, hSame⟩
    refine ⟨t :: taken, by rw [hSplit]; rfl, ?_⟩
    intro ending' rest' hKeeps
    rw [List.cons_append, hRead]
    exact hSame ending' rest' hKeeps
  · intro e hError
    rw [hRead] at hError
    exact h.lex e hError
  · intro e hError hLex
    rw [hRead] at hError
    rcases h.fault e hError hLex with
      ⟨taken, left, hSplit, hBlames, hSame⟩
    refine ⟨t :: taken, left, by rw [hSplit]; rfl, hBlames, ?_⟩
    intro ending' rest' hKeeps
    rw [List.cons_append, hRead]
    exact hSame ending' rest' hKeeps

/- A reading that does the same for tokens that begin with `t`. -/
theorem Settled.congr
    {read read' : Reading α}
    (h : Settled read ending (t :: rest))
    (hSame : ∀ ending toks,
      read' ending (t :: toks) = read ending (t :: toks)) :
    Settled read' ending (t :: rest) := by
  -- What is exchanged behind `taken` leaves `t` where it is.
  have hBegins : ∀ taken left, t :: rest = taken ++ left →
      ∀ rest', Keeps ending left rest' →
        ∃ more, taken ++ rest' = t :: more := by
    intro taken left hSplit rest' hKeeps
    cases taken with
    | cons u taken =>
        rcases (List.cons.inj hSplit).1 with rfl
        exact ⟨taken ++ rest', rfl⟩
    | nil =>
        rw [List.nil_append] at hSplit
        rw [← hSplit] at hKeeps
        exact hKeeps.exists_cons
  constructor
  · intro a left hOk
    rw [hSame] at hOk
    rcases h.ok a left hOk with ⟨taken, hSplit, hOther⟩
    refine ⟨taken, hSplit, ?_⟩
    intro ending' rest' hKeeps
    rcases hBegins taken left hSplit rest' hKeeps with ⟨more, hMore⟩
    rw [hMore, hSame, ← hMore]
    exact hOther ending' rest' hKeeps
  · intro e hError
    rw [hSame] at hError
    exact h.lex e hError
  · intro e hError hLex
    rw [hSame] at hError
    rcases h.fault e hError hLex with
      ⟨taken, left, hSplit, hBlames, hOther⟩
    refine ⟨taken, left, hSplit, hBlames, ?_⟩
    intro ending' rest' hKeeps
    rcases hBegins taken left hSplit rest' hKeeps with ⟨more, hMore⟩
    rw [hMore, hSame, ← hMore]
    exact hOther ending' rest' hKeeps

------------------------------------------------------------
-- Readings that look at one token
------------------------------------------------------------

/- The first token is looked at and left. -/
theorem settled_leave
    {read : Reading α}
    {a : α}
    (h : ∀ ending toks, read ending (t :: toks) = .ok (a, t :: toks)) :
    Settled read ending (t :: rest) := by
  constructor
  · intro b left hOk
    rw [h] at hOk
    cases hOk
    refine ⟨[], rfl, ?_⟩
    intro ending' rest' hKeeps
    rcases hKeeps.exists_cons with ⟨more, rfl⟩
    exact h ending' more
  · intro e hError
    rw [h] at hError
    cases hError
  · intro e hError
    rw [h] at hError
    cases hError

/- The first token is taken. -/
theorem settled_take
    {read : Reading α}
    {a : α}
    (h : ∀ ending toks, read ending (t :: toks) = .ok (a, toks)) :
    Settled read ending (t :: rest) := by
  constructor
  · intro b left hOk
    rw [h] at hOk
    cases hOk
    exact ⟨[t], rfl, fun ending' rest' _ => h ending' rest'⟩
  · intro e hError
    rw [h] at hError
    cases hError
  · intro e hError
    rw [h] at hError
    cases hError

/- The first token is blamed. -/
theorem settled_blame
    {read : Reading α}
    (expected : Expected)
    (h : ∀ ending toks,
      read ending (t :: toks) = .error (t.fault expected)) :
    Settled read ending (t :: rest) := by
  constructor
  · intro b left hOk
    rw [h] at hOk
    cases hOk
  · intro e hError
    rw [h] at hError
    cases hError
  · intro e hError _
    rw [h] at hError
    rcases Except.error.inj hError with rfl
    refine ⟨[], t :: rest, rfl, ?_, ?_⟩
    · intro expected' found pos hFault
      cases hFault
      rfl
    · intro ending' rest' hKeeps
      rcases hKeeps.exists_cons with ⟨more, rfl⟩
      exact h ending' more

/- Something is missing behind the last token. -/
theorem settled_missing
    {read : Reading α}
    (expected : Expected)
    (h : read ending [] = .error (ending.fault expected)) :
    Settled read ending [] := by
  constructor
  · intro b left hOk
    rw [h] at hOk
    cases hOk
  · intro e hError
    rw [h] at hError
    cases ending with
    | endOfInput pos => cases hError
    | failed e' => cases hError; rfl
  · intro e hError hLex
    rw [h] at hError
    rcases Except.error.inj hError with rfl
    cases ending with
    | failed e' => exact absurd rfl (hLex e')
    | endOfInput pos =>
        refine ⟨[], [], rfl, ?_, ?_⟩
        · intro expected' found pos' hFault
          cases hFault
          rfl
        · rintro ending' rest' ⟨e, hEnding⟩
          cases hEnding

/- The place behind the last token is looked at. -/
theorem settled_look
    {read : Reading α}
    {a : α}
    (h : read ending [] = ending.look >>= fun _ => .ok (a, [])) :
    Settled read ending [] := by
  cases ending with
  | failed e' =>
      have hError : read (.failed e') [] = .error (.lex e') := h
      constructor
      · intro b left hOk
        rw [hError] at hOk
        cases hOk
      · intro e hLex
        rw [hError] at hLex
        cases hLex
        rfl
      · intro e hFault hLex
        rw [hError] at hFault
        cases hFault
        exact absurd rfl (hLex e')
  | endOfInput pos =>
      have hOk : read (.endOfInput pos) [] = .ok (a, []) := h
      constructor
      · intro b left hResult
        rw [hOk] at hResult
        cases hResult
        refine ⟨[], rfl, ?_⟩
        rintro ending' rest' ⟨e, hEnding⟩
        cases hEnding
      · intro e hLex
        rw [hOk] at hLex
        cases hLex
      · intro e hFault
        rw [hOk] at hFault
        cases hFault

/-
  A test that reads nothing. If it finds a syntax error, it
  puts it at the next token.
-/
theorem settled_test
    (test : Except ParseError α)
    (hLex : ∀ e, test ≠ .error (.lex e))
    (hBlames : ∀ e, test = .error e → Blames ending toks e) :
    Settled (fun _ toks => test >>= fun a => .ok (a, toks))
      ending toks := by
  cases hTest : test with
  | ok a =>
      constructor
      · intro b left hOk
        cases hOk
        exact ⟨[], rfl, fun _ _ _ => rfl⟩
      · intro e hError
        cases hError
      · intro e hError
        cases hError
  | error e =>
      constructor
      · intro b left hOk
        cases hOk
      · intro e' hError
        rcases Except.error.inj hError with rfl
        exact absurd hTest (hLex e')
      · intro e' hError _
        rcases Except.error.inj hError with rfl
        exact ⟨[], toks, rfl, hBlames e hTest, fun _ _ _ => rfl⟩

/- A reading behind a test that reads nothing. -/
theorem Settled.behind_test
    {test : Except ParseError α}
    (hTest : Settled (fun _ toks => test >>= fun a => .ok (a, toks))
      ending toks)
    (next : α → Reading β)
    (hNext : ∀ a, test = .ok a → Settled (next a) ending toks) :
    Settled (fun ending toks => test >>= fun a => next a ending toks)
      ending toks := by
  have hBoth := hTest.bind next fun a left hOk => by
    rcases bind_succeeds_iff.mp hOk with ⟨a', hResult, hEq⟩
    cases hEq
    exact hNext a hResult
  simpa only [bind_assoc, ok_bind] using hBoth

end Settled

variable {limit : Option Nat}
variable {ending : Ending}

/- A test of a limit blames no token. -/
theorem settled_limit
    {α : Type}
    (test : Except ParseError α)
    (toks : List Token)
    (h : ∀ e, test = .error e → ∃ n pos, e = .tooDeep n pos) :
    Settled (fun _ toks => test >>= fun a => .ok (a, toks))
      ending toks := by
  apply settled_test
  · intro e hTest
    rcases h _ hTest with ⟨n, pos, hFault⟩
    cases hFault
  · intro e hTest expected found pos hSyntax
    rcases h _ hTest with ⟨n, place, hFault⟩
    rw [hSyntax] at hFault
    cases hFault

/- The height of an expression. -/
theorem settled_bounded
    (pos : Position)
    (e : Expr)
    (toks : List Token) :
    Settled (fun _ toks =>
      boundedTree limit pos e >>= fun e => .ok (e, toks))
      ending toks := by
  apply settled_limit
  intro fault h
  cases limit with
  | none => cases h
  | some n =>
      rw [boundedTree_some] at h
      split at h
      · cases h
        exact ⟨n, pos, rfl⟩
      · cases h

/- The number of open blocks. -/
theorem settled_mayOpen
    (pos : Position)
    (depth : Nat)
    (toks : List Token) :
    Settled (fun _ toks =>
      mayOpen limit pos depth >>= fun u => .ok (u, toks))
      ending toks := by
  apply settled_limit
  intro fault h
  unfold mayOpen at h
  split at h
  · cases h
  · split at h
    · cases h
      exact ⟨_, pos, rfl⟩
    · cases h

/- An argument that is no name is blamed on the brace behind it. -/
theorem parameters_error
    {pos : Position}
    {es : List Expr}
    {e : ParseError}
    (h : parameters pos es = .error e) :
    ∃ arg, e = .unexpected .parameterName (.argument arg) pos := by
  induction es with
  | nil => cases h
  | cons first others ih =>
      cases first
      case var name =>
        cases hOthers : parameters pos others with
        | ok names =>
            rw [parameters, hOthers] at h
            cases h
        | error e' =>
            rw [parameters, hOthers] at h
            cases h
            exact ih hOthers
      all_goals
        cases h
        exact ⟨_, rfl⟩

/- Reading a symbol that must come next. -/
theorem settled_expect
    (s : Symbol)
    (toks : List Token) :
    Settled (fun ending toks => outcome (expect ending s toks))
      ending toks := by
  cases toks with
  | nil => exact settled_missing _ rfl
  | cons t rest =>
      by_cases hKind : t.kind = .symbol s
      · exact settled_take fun _ toks => outcome_expect_of_eq toks hKind
      · apply settled_blame (.symbol s)
        intro ending toks
        rw [expect, if_neg hKind]
        rfl

------------------------------------------------------------
-- Expressions
------------------------------------------------------------

/- All readers of expressions, of one sequence of tokens. -/
structure Settles
    (limit : Option Nat)
    (ending : Ending)
    (toks : List Token) : Prop where
  operand :
    Settled (fun ending toks => outcome (operand limit ending toks))
      ending toks
  climb :
    ∀ least,
      Settled (fun ending toks => outcome (climb limit ending least toks))
        ending toks
  extend :
    ∀ least left,
      Settled (fun ending toks =>
        outcome (extend limit ending least left toks)) ending toks
  arguments :
    Settled (fun ending toks => outcome (arguments limit ending toks))
      ending toks
  someArguments :
    Settled (fun ending toks => outcome (someArguments limit ending toks))
      ending toks

section Steps

variable {toks : List Token}
variable (ih : ∀ shorter : List Token, shorter.length < toks.length →
  Settles limit ending shorter)

/- A name, which is called if a parenthesis stands behind it. -/
theorem settled_operand_ident
    {t : Token}
    {name : String}
    {rest : List Token}
    (hName : t.kind = .ident name)
    (ih : ∀ shorter : List Token, shorter.length < rest.length →
      Settles limit ending shorter) :
    Settled
      (fun ending toks => outcome (operand limit ending (t :: toks)))
      ending rest := by
  cases rest with
  | nil => exact settled_look (outcome_operand_var hName (by simp))
  | cons u rest =>
      by_cases hOpen : u.kind = .symbol .parenL
      · refine Settled.cons ?_ fun ending toks =>
          outcome_operand_call toks hName hOpen
        apply (ih rest (by simp)).arguments.bind
          (fun args _ toks =>
            boundedTree limit t.pos (.call name args) >>= fun e =>
              .ok (e, toks))
        intro args behind _
        exact settled_bounded t.pos _ behind
      · apply settled_leave (a := .var name)
        intro ending toks
        exact outcome_operand_var hName (by simpa using hOpen)

include ih

/- An operand. -/
theorem settled_operand :
    Settled (fun ending toks => outcome (operand limit ending toks))
      ending toks := by
  cases toks with
  | nil => exact settled_missing _ outcome_operand_nil
  | cons t rest =>
      rcases operand_cases t.kind with
        ⟨op, hOp⟩ | ⟨hOp, literal, hLiteral⟩ | ⟨name, hName⟩ | hOpen |
        ⟨hOp, hLiteral, hName, hOpen⟩
      · refine Settled.cons ?_ fun ending toks =>
          outcome_operand_unary toks hOp
        apply (ih rest (by simp)).operand.bind
          (fun e _ toks =>
            boundedTree limit t.pos (.unary op e) >>= fun e =>
              .ok (e, toks))
        intro e behind _
        exact settled_bounded t.pos _ behind
      · exact settled_take fun _ toks =>
          outcome_operand_literal toks hOp hLiteral
      · refine Settled.cons ?_ fun _ _ => rfl
        apply settled_operand_ident hName
        intro shorter hLt
        exact ih shorter (Nat.lt_succ_of_lt hLt)
      · refine Settled.cons ?_ fun ending toks =>
          outcome_operand_group toks hOpen
        apply ((ih rest (by simp)).climb 0).bind
          (fun e ending toks =>
            outcome (expect ending .parenR toks) >>= fun q =>
              .ok (e, q.2))
        intro e behind _
        exact (settled_expect .parenR behind).map fun _ => e
      · apply settled_blame .expression
        intro ending toks
        exact outcome_operand_other toks hOp hLiteral hName hOpen

/- An operand and the operators behind it. -/
theorem settled_climb
    (least : Nat) :
    Settled (fun ending toks => outcome (climb limit ending least toks))
      ending toks := by
  simp only [outcome_climb]
  apply (settled_operand ih).bind (fun left ending toks =>
    outcome (extend limit ending least left toks))
  intro left rest hLeft
  exact (ih rest (length_lt_of_outcome hLeft)).extend least left

/- Operators behind an expression. -/
theorem settled_extend
    (least : Nat)
    (left : Expr) :
    Settled (fun ending toks =>
      outcome (extend limit ending least left toks)) ending toks := by
  cases toks with
  | nil => exact settled_look (outcome_extend_nil least left)
  | cons t rest =>
      by_cases hOperator : ∃ op, binaryOp? t.kind = some op ∧
          least < op.precedence
      · rcases hOperator with ⟨op, hOp, hTight⟩
        refine Settled.cons ?_ fun ending toks =>
          outcome_extend_op left toks hOp hTight
        apply ((ih rest (by simp)).climb op.precedence).bind
          (fun right ending toks =>
            boundedTree limit t.pos (.binary op left right) >>= fun e =>
              outcome (extend limit ending least e toks))
        intro right behind hRight
        have hShorter := length_lt_of_outcome hRight
        apply (settled_bounded t.pos _ behind).behind_test
          (fun e ending toks =>
            outcome (extend limit ending least e toks))
        intro e _
        exact (ih behind (Nat.lt_succ_of_lt hShorter)).extend least e
      · have hStop : ∀ op ∈ binaryOp? t.kind, op.precedence ≤ least := by
          intro op hOp
          apply Nat.le_of_not_lt
          intro hTight
          exact hOperator ⟨op, hOp, hTight⟩
        exact settled_leave fun _ toks =>
          outcome_extend_stop left toks hStop

/- At least one argument. -/
theorem settled_someArguments :
    Settled (fun ending toks => outcome (someArguments limit ending toks))
      ending toks := by
  simp only [outcome_someArguments]
  apply (settled_climb ih 0).bind (fun e ending toks =>
    moreArguments limit ending e toks)
  intro e next hFirst
  have hShorter := length_lt_of_outcome hFirst
  cases next with
  | nil => exact settled_missing _ rfl
  | cons t rest =>
      by_cases hComma : t.kind = .symbol .comma
      · refine Settled.cons ((ih rest
          (Nat.lt_of_succ_lt hShorter)).someArguments.map (e :: ·)) ?_
        intro ending toks
        rw [moreArguments, accept?_cons_of_eq toks hComma]
        rfl
      · have hEnd : Settled (fun ending toks =>
            outcome (expect ending .parenR toks)) ending (t :: rest) :=
          settled_expect .parenR (t :: rest)
        apply (hEnd.map fun _ => [e]).congr
        intro ending toks
        rw [moreArguments, accept?_eq_none (by simpa using hComma)]

/- The arguments of a call. -/
theorem settled_arguments :
    Settled (fun ending toks => outcome (arguments limit ending toks))
      ending toks := by
  cases toks with
  | nil =>
      apply settled_missing .expression
      rw [outcome_arguments_open (by simp), outcome_someArguments,
        outcome_climb, outcome_operand_nil]
      rfl
  | cons t rest =>
      by_cases hClose : t.kind = .symbol .parenR
      · exact settled_take fun _ toks =>
          outcome_arguments_close toks hClose
      · apply (settled_someArguments ih).congr
        intro ending toks
        exact outcome_arguments_open (by simpa using hClose)

end Steps

/- Expressions, by the number of tokens. -/
theorem settles
    (toks : List Token) :
    Settles limit ending toks := by
  induction hLength : toks.length using Nat.strong_induction_on
    generalizing toks with
  | _ length ih =>
      have ihShorter : ∀ shorter : List Token,
          shorter.length < toks.length →
            Settles limit ending shorter := by
        intro shorter hLt
        exact ih shorter.length (hLength ▸ hLt) shorter rfl
      exact
        { operand := settled_operand ihShorter
          climb := settled_climb ihShorter
          extend := settled_extend ihShorter
          arguments := settled_arguments ihShorter
          someArguments := settled_someArguments ihShorter }

/- A whole expression. -/
theorem settled_expression
    (toks : List Token) :
    Settled (fun ending toks => outcome (expression limit ending toks))
      ending toks :=
  (settles toks).climb 0

------------------------------------------------------------
-- Statements
------------------------------------------------------------

/- All readers of statements, of one sequence of tokens. -/
structure SettlesStmt
    (limit : Option Nat)
    (ending : Ending)
    (toks : List Token) : Prop where
  bare :
    ∀ depth,
      Settled (fun ending toks =>
        outcome (bareStatement limit ending depth toks)) ending toks
  conditional :
    ∀ depth,
      Settled (fun ending toks =>
        outcome (conditional limit ending depth toks)) ending toks
  block :
    ∀ depth,
      Settled (fun ending toks =>
        outcome (block limit ending depth toks)) ending toks
  body :
    ∀ depth,
      Settled (fun ending toks =>
        outcome (blockBody limit ending depth toks)) ending toks

/- What a `return` gives back. -/
theorem settled_returned
    (toks : List Token) :
    Settled (fun ending toks => outcome (returned limit ending toks))
      ending toks := by
  cases toks with
  | nil => exact settled_look outcome_returned_nil
  | cons t rest =>
      by_cases hStop : t.kind = .symbol .braceR ∨
          t.kind = .symbol .semicolon
      · apply settled_leave (a := none)
        intro ending toks
        exact outcome_returned_none (.inl (by simp))
          (by simpa using hStop)
      · rcases not_or.mp hStop with ⟨hClose, hSemicolon⟩
        apply ((settled_expression (t :: rest)).map some).congr
        intro ending toks
        exact outcome_returned_some toks hClose hSemicolon

/- Nothing is left behind an expression only at the end of the input. -/
theorem endOfInput_of_extend
    {least : Nat}
    {left e : Expr}
    {toks : List Token}
    (h : outcome (extend limit ending least left toks) = .ok (e, [])) :
    ∃ pos, ending = .endOfInput pos := by
  induction hLength : toks.length using Nat.strong_induction_on
    generalizing toks left with
  | _ length ih =>
      cases toks with
      | nil =>
          rw [outcome_extend_nil] at h
          cases ending with
          | endOfInput pos => exact ⟨pos, rfl⟩
          | failed fault => cases h
      | cons t rest =>
          by_cases hOperator : ∃ op, binaryOp? t.kind = some op ∧
              least < op.precedence
          · rcases hOperator with ⟨op, hOp, hTight⟩
            rw [outcome_extend_op left rest hOp hTight] at h
            rcases bind_succeeds_iff.mp h with
              ⟨⟨right, behind⟩, hRight, h⟩
            rcases bind_succeeds_iff.mp h with ⟨both, _, h⟩
            have hShorter := length_lt_of_outcome hRight
            refine ih behind.length ?_ h rfl
            rw [← hLength]
            exact Nat.lt_succ_of_lt hShorter
          · have hStop : ∀ op ∈ binaryOp? t.kind,
                op.precedence ≤ least := by
              intro op hOp
              apply Nat.le_of_not_lt
              intro hTight
              exact hOperator ⟨op, hOp, hTight⟩
            rw [outcome_extend_stop left rest hStop] at h
            cases h

/- The heading of a definition is seen with the first token behind it. -/
theorem heading?_cons
    (e : Expr)
    (t : Token)
    (toks toks' : List Token) :
    heading? e (t :: toks) = heading? e (t :: toks') := by
  cases e <;> rfl

/- It is placed at that token. -/
theorem pos_of_heading?
    {e : Expr}
    {t : Token}
    {toks : List Token}
    {name : String}
    {args : List Expr}
    {pos : Position}
    (h : heading? e (t :: toks) = some (name, args, pos)) :
    t.pos = pos := by
  rcases call_of_heading? h with rfl
  rw [heading?] at h
  split at h
  · cases h
    rfl
  · cases h

/- Nothing behind the end of the input makes a call a definition. -/
theorem heading?_nil
    (e : Expr) :
    heading? e [] = none := by
  cases e <;> rfl

section StmtSteps

variable {toks : List Token}
variable (ih : ∀ shorter : List Token, shorter.length < toks.length →
  SettlesStmt limit ending shorter)

include ih

/- What an expression in the place of a statement is. -/
theorem settled_definition
    {rest : List Token}
    (depth : Nat)
    (e : Expr)
    (hEnd : rest = [] → ∃ pos, ending = .endOfInput pos)
    (hShorter : rest.length < toks.length) :
    Settled (fun ending toks => definition limit ending depth e toks)
      ending rest := by
  have hBlock := (ih rest hShorter).block depth
  cases rest with
  | nil =>
      rcases hEnd rfl with ⟨pos, rfl⟩
      apply settled_look (a := .expr e)
      rw [definition, heading?_nil]
      rfl
  | cons t rest =>
      cases hHeading : heading? e (t :: rest) with
      | none =>
          apply settled_leave (a := .expr e)
          intro ending toks
          rw [definition, heading?_cons e t toks rest, hHeading]
      | some heading =>
          rcases heading with ⟨name, args, pos⟩
          have hParams : Settled (fun _ toks =>
              parameters pos args >>= fun params => .ok (params, toks))
              ending (t :: rest) := by
            apply settled_test
            · intro fault hError
              rcases parameters_error hError with ⟨arg, hFault⟩
              cases hFault
            · intro fault hError expected found place hSyntax
              rcases parameters_error hError with ⟨arg, hFault⟩
              rw [hSyntax] at hFault
              cases hFault
              exact pos_of_heading? hHeading
          have hBoth := hParams.behind_test
            (fun params ending toks =>
              outcome (block limit ending depth toks) >>= fun p =>
                .ok (Stmt.function name params p.1, p.2))
            fun params _ => hBlock.map (Stmt.function name params)
          apply hBoth.congr
          intro ending toks
          rw [definition, heading?_cons e t toks rest, hHeading]

/- A statement that begins with an expression. -/
theorem settled_callOrDefinition
    (depth : Nat) :
    Settled (fun ending toks =>
      outcome (callOrDefinition limit ending depth toks))
      ending toks := by
  simp only [outcome_callOrDefinition]
  apply (settled_expression toks).bind (fun e ending toks =>
    definition limit ending depth e toks)
  intro e rest hExpr
  apply settled_definition ih depth e ?_ (length_lt_of_outcome hExpr)
  rintro rfl
  rw [expression_eq_climb, outcome_climb] at hExpr
  rcases bind_succeeds_iff.mp hExpr with ⟨_, _, hExtend⟩
  exact endOfInput_of_extend hExtend

/-
  A statement that begins with a name and is no assignment. The
  token behind the name is looked at, and not the one behind it.
-/
theorem settled_bareStatement_ident
    {t : Token}
    {name : String}
    {rest : List Token}
    (depth : Nat)
    (hToks : toks = t :: rest)
    (hName : t.kind = .ident name)
    (hAssign : ∀ u ∈ rest.head?, u.kind ≠ .symbol .assign) :
    Settled (fun ending toks =>
      outcome (bareStatement limit ending depth (t :: toks)))
      ending rest := by
  have hOther : ∀ ending toks,
      (∀ u ∈ toks.head?, u.kind ≠ .symbol .assign) →
        outcome (bareStatement limit ending depth (t :: toks)) =
          (outcome (operand limit ending (t :: toks)) >>= fun p =>
            outcome (extend limit ending 0 p.1 p.2)) >>= fun p =>
              definition limit ending depth p.1 p.2 := by
    intro ending toks hNext
    rw [outcome_bareStatement_other, outcome_callOrDefinition,
      expression_eq_climb, outcome_climb]
    · intro name' more hKinds
      rcases kinds_eq_cons hKinds with ⟨t', toks', hSplit, _, hKinds⟩
      rcases (List.cons.inj hSplit).2 with rfl
      rcases kinds_eq_cons hKinds with ⟨u, others, rfl, hSign, _⟩
      exact hNext u rfl hSign
    · simp [hName]
    · simp [hName]
  have hOperand : Settled (fun ending toks =>
      outcome (operand limit ending (t :: toks))) ending rest :=
    settled_operand_ident hName fun shorter _ => settles shorter
  have hExpr := hOperand.bind (fun left ending toks =>
    outcome (extend limit ending 0 left toks))
      fun left behind _ => (settles behind).extend 0 left
  have hStmt := hExpr.bind (fun e ending toks =>
    definition limit ending depth e toks) fun e behind hRead => by
      rcases bind_succeeds_iff.mp hRead with
        ⟨⟨left, next⟩, hLeft, hExtend⟩
      have hNext := length_lt_of_outcome hLeft
      have hBehind : behind.length < next.length + 1 :=
        length_lt_of_outcome hExtend
      apply settled_definition ih depth e
      · rintro rfl
        exact endOfInput_of_extend hExtend
      · rw [hToks]
        omega
  cases rest with
  | nil =>
      -- The end of the input is looked at as well.
      apply settled_look (a := .expr (.var name))
      rw [hOther _ _ (by simp), outcome_operand_var hName (by simp), peek]
      cases ending with
      | endOfInput pos =>
          simp only [Ending.look, ok_bind, outcome_extend_nil, definition,
            heading?_nil]
      | failed e => rfl
  | cons u rest =>
      apply hStmt.congr
      intro ending toks
      exact hOther ending (u :: toks) (by simpa using hAssign)

/- A statement without what may end it. -/
theorem settled_bareStatement
    (depth : Nat) :
    Settled (fun ending toks =>
      outcome (bareStatement limit ending depth toks)) ending toks := by
  rcases bareStatement_begins toks with
    ⟨name, t, u, rest, rfl, hName, hAssign⟩ |
    ⟨t, rest, rfl, hIf⟩ | ⟨t, rest, rfl, hReturn⟩ |
    ⟨hAssign, hIf, hReturn⟩
  · have hSign : Settled (fun ending toks =>
        outcome (bareStatement limit ending depth (t :: toks)))
        ending (u :: rest) :=
      ((settled_expression rest).map (Stmt.assign name)).cons
        fun ending toks => outcome_bareStatement_assign toks hName hAssign
    exact hSign.cons fun _ _ => rfl
  · exact ((ih rest (by simp)).conditional depth).cons
      fun ending toks => outcome_bareStatement_if toks hIf
  · exact ((settled_returned rest).map Stmt.ret).cons
      fun ending toks => outcome_bareStatement_return toks hReturn
  · cases toks with
    | nil =>
        apply settled_missing .expression
        rw [outcome_bareStatement_other hAssign hIf hReturn,
          outcome_callOrDefinition, expression_eq_climb, outcome_climb,
          outcome_operand_nil]
        rfl
    | cons t rest =>
        by_cases hIdent : ∃ name, t.kind = .ident name
        · rcases hIdent with ⟨name, hName⟩
          refine (settled_bareStatement_ident ih depth rfl hName ?_).cons
            fun _ _ => rfl
          intro u hHead hSign
          rcases List.head?_eq_some_iff.mp hHead with ⟨others, rfl⟩
          apply hAssign name (kinds others)
          rw [kinds_cons, kinds_cons, hName, hSign]
        · apply (settled_callOrDefinition ih depth).congr
          intro ending toks
          apply outcome_bareStatement_other
          · intro name others hKinds
            rcases kinds_eq_cons hKinds with ⟨t', toks', hSplit, hName, _⟩
            rcases (List.cons.inj hSplit).1 with rfl
            exact hIdent ⟨name, hName⟩
          · simpa using hIf
          · simpa using hReturn

/- What stands behind the first block of a conditional. -/
theorem settled_otherwise
    {rest : List Token}
    (depth : Nat)
    (test : Expr)
    (yes : Block)
    (hShorter : rest.length < toks.length) :
    Settled (fun ending toks =>
      peek ending toks >>= fun _ =>
        otherwise limit ending depth test yes toks) ending rest := by
  cases rest with
  | nil => exact settled_look (a := .branch test yes none) rfl
  | cons t rest =>
      by_cases hElse : t.kind = .symbol .kwElse
      · have hOther : Settled (fun ending toks =>
            otherwise limit ending depth test yes (t :: toks))
            ending rest := by
          cases rest with
          | nil =>
              apply settled_missing (.symbol .braceL)
              rw [otherwise_block hElse (by simp), outcome_block_nil]
              rfl
          | cons u rest =>
              by_cases hIf : u.kind = .symbol .kwIf
              · have hChain := (ih rest (by
                  simp only [List.length_cons] at hShorter
                  omega)).conditional
                  depth
                refine (hChain.map fun s =>
                  .branch test yes (some [s])).cons
                  fun ending toks => otherwise_chain toks hElse hIf
              · have hBlock := (ih (u :: rest)
                  (Nat.lt_of_succ_lt hShorter)).block depth
                apply (hBlock.map fun b =>
                  .branch test yes (some b)).congr
                intro ending toks
                exact otherwise_block hElse (by simpa using hIf)
        exact hOther.cons fun _ _ => rfl
      · apply settled_leave (a := .branch test yes none)
        intro ending toks
        rw [otherwise_none (by simpa using hElse)]
        rfl

/- A conditional from behind its keyword. -/
theorem settled_conditional
    (depth : Nat) :
    Settled (fun ending toks =>
      outcome (conditional limit ending depth toks)) ending toks := by
  simp only [outcome_conditional]
  apply (settled_expression toks).bind (fun test ending toks =>
    outcome (block limit ending depth toks) >>= fun yes =>
      peek ending yes.2 >>= fun _ =>
        otherwise limit ending depth test yes.1 yes.2)
  intro test opening hTest
  have hOpening := length_lt_of_outcome hTest
  apply ((ih opening hOpening).block depth).bind
    (fun yes ending toks => peek ending toks >>= fun _ =>
      otherwise limit ending depth test yes toks)
  intro yes rest hYes
  have hRest := length_lt_of_outcome hYes
  exact settled_otherwise ih depth test yes (Nat.lt_trans hRest hOpening)

/- A block with its braces. -/
theorem settled_block
    (depth : Nat) :
    Settled (fun ending toks =>
      outcome (block limit ending depth toks)) ending toks := by
  cases toks with
  | nil => exact settled_missing _ outcome_block_nil
  | cons t rest =>
      by_cases hOpen : t.kind = .symbol .braceL
      · refine Settled.cons ?_ fun ending toks =>
          outcome_block_open toks hOpen
        apply (settled_mayOpen t.pos depth rest).behind_test
          (fun _ ending toks =>
            outcome (blockBody limit ending (depth + 1) toks))
        intro _ _
        exact (ih rest (by simp)).body (depth + 1)
      · exact settled_blame _ fun ending toks =>
          outcome_block_other toks hOpen

/- The statements of a block and its closing brace. -/
theorem settled_blockBody
    (depth : Nat) :
    Settled (fun ending toks =>
      outcome (blockBody limit ending depth toks)) ending toks := by
  cases toks with
  | nil => exact settled_missing _ outcome_blockBody_nil
  | cons t rest =>
      by_cases hSemicolon : t.kind = .symbol .semicolon
      · exact ((ih rest (by simp)).body depth).cons fun ending toks =>
          outcome_blockBody_semicolon toks hSemicolon
      by_cases hClose : t.kind = .symbol .braceR
      · exact settled_take fun ending toks =>
          outcome_blockBody_close toks hClose
      have hBoth := (settled_bareStatement ih depth).bind
        (fun s ending toks =>
          outcome (blockBody limit ending depth toks) >>= fun q =>
            .ok (s :: q.1, q.2)) fun s next hStmt =>
        ((ih next (length_lt_of_outcome hStmt)).body depth).map (s :: ·)
      apply hBoth.congr
      intro ending toks
      exact outcome_blockBody_bare toks hSemicolon hClose

end StmtSteps

/- Statements, by the number of tokens. -/
theorem settlesStmt
    (toks : List Token) :
    SettlesStmt limit ending toks := by
  induction hLength : toks.length using Nat.strong_induction_on
    generalizing toks with
  | _ length ih =>
      have ihShorter : ∀ shorter : List Token,
          shorter.length < toks.length →
            SettlesStmt limit ending shorter := by
        intro shorter hLt
        exact ih shorter.length (hLength ▸ hLt) shorter rfl
      exact
        { bare := settled_bareStatement ihShorter
          conditional := settled_conditional ihShorter
          block := settled_block ihShorter
          body := settled_blockBody ihShorter }

/- All statements that are left, which leave no tokens. -/
theorem settled_statements
    (toks : List Token) :
    Settled (fun ending toks =>
      statements limit ending toks >>= fun b => .ok (b, []))
      ending toks := by
  induction hLength : toks.length using Nat.strong_induction_on
    generalizing toks with
  | _ length ih =>
      cases toks with
      | nil =>
          apply settled_look (a := [])
          rw [statements_nil]
          cases ending with
          | endOfInput pos => rfl
          | failed e => rfl
      | cons t rest =>
          by_cases hSemicolon : t.kind = .symbol .semicolon
          · refine (ih rest.length (by rw [← hLength]; simp) rest
              rfl).cons fun ending toks => ?_
            rw [statements_semicolon toks hSemicolon]
          have hSettles : SettlesStmt limit ending (t :: rest) :=
            settlesStmt (t :: rest)
          have hBoth := (hSettles.bare 0).bind
            (fun s ending toks =>
              (statements limit ending toks >>= fun b => .ok (b, [])) >>=
                fun q => .ok (s :: q.1, q.2)) fun s next hStmt =>
            (ih next.length (hLength ▸ length_lt_of_outcome hStmt) next
              rfl).map (s :: ·)
          apply hBoth.congr
          intro ending toks
          rw [statements_bare toks hSemicolon]
          simp only [bind_assoc, ok_bind]

end Parse

end DynScript
