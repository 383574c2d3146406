import DynScript.Proofs.Parse.Climbing
import DynScript.Proofs.Parse.Statement
import DynScript.Proofs.Syntax.Rendering

/-
  The grammar of statements on the kinds of the tokens, and
  that whatever is read was formed by it. A semicolon that
  ends a statement and one that stands alone are the same.

  Key definitions include:
    * `Piece`
    * `Forms`

  Main statements include:
    * `Parse.forms_of_statements`
    * `Forms.writable`
-/

namespace DynScript

------------------------------------------------------------
-- The grammar of statements
------------------------------------------------------------

/-
  What tokens can form: a statement, a conditional from behind
  its keyword, a block with its braces, and the statements of
  a block or a program.
-/
inductive Piece where
  | stmt (s : Stmt)
  | conditional (s : Stmt)
  | block (b : Block)
  | seq (b : Block)

/- A sequence of tokens forms a piece of a program. -/
inductive Forms
    (limit : Option Nat) : List TokenKind → Piece → Prop where
  | assign
      (name : String)
      {w : List TokenKind}
      {e : Expr}
      (hValue : Derives .or w e)
      (hWithin : e.Within limit) :
      Forms limit (.ident name :: .symbol .assign :: w)
        (.stmt (.assign name e))
  | branch
      {w : List TokenKind}
      {s : Stmt}
      (hBranch : Forms limit w (.conditional s)) :
      Forms limit (.symbol .kwIf :: w) (.stmt s)
  | retNone :
      Forms limit [.symbol .kwReturn] (.stmt (.ret none))
  | retSome
      {w : List TokenKind}
      {e : Expr}
      (hValue : Derives .or w e)
      (hWithin : e.Within limit) :
      Forms limit (.symbol .kwReturn :: w) (.stmt (.ret (some e)))
  | expr
      {w : List TokenKind}
      {e : Expr}
      (hExpr : Derives .or w e)
      (hWithin : e.Within limit) :
      Forms limit w (.stmt (.expr e))
  | function
      {u v : List TokenKind}
      {name : String}
      {params : List String}
      {body : Block}
      (hHeading : Derives .or u (heading name params))
      (hBody : Forms limit v (.block body)) :
      Forms limit (u ++ v) (.stmt (.function name params body))
  | ifOnly
      {u v : List TokenKind}
      {test : Expr}
      {yes : Block}
      (hTest : Derives .or u test)
      (hWithin : test.Within limit)
      (hYes : Forms limit v (.block yes)) :
      Forms limit (u ++ v) (.conditional (.branch test yes none))
  | ifElse
      {u v w : List TokenKind}
      {test : Expr}
      {yes no : Block}
      (hTest : Derives .or u test)
      (hWithin : test.Within limit)
      (hYes : Forms limit v (.block yes))
      (hNo : Forms limit w (.block no)) :
      Forms limit (u ++ v ++ .symbol .kwElse :: w)
        (.conditional (.branch test yes (some no)))
  | elseIf
      {u v w : List TokenKind}
      {test : Expr}
      {yes : Block}
      {s : Stmt}
      (hTest : Derives .or u test)
      (hWithin : test.Within limit)
      (hYes : Forms limit v (.block yes))
      (hChain : Forms limit w (.conditional s)) :
      Forms limit
        (u ++ v ++ .symbol .kwElse :: .symbol .kwIf :: w)
        (.conditional (.branch test yes (some [s])))
  | block
      {w : List TokenKind}
      {b : Block}
      (hBody : Forms limit w (.seq b)) :
      Forms limit (.symbol .braceL :: (w ++ [.symbol .braceR]))
        (.block b)
  | nil :
      Forms limit [] (.seq [])
  | semicolon
      {w : List TokenKind}
      {b : Block}
      (hOthers : Forms limit w (.seq b)) :
      Forms limit (.symbol .semicolon :: w) (.seq b)
  | cons
      {u v : List TokenKind}
      {s : Stmt}
      {b : Block}
      (hFirst : Forms limit u (.stmt s))
      (hOthers : Forms limit v (.seq b)) :
      Forms limit (u ++ v) (.seq (s :: b))

------------------------------------------------------------
-- What is formed of writable tokens
------------------------------------------------------------

/- Putting a separator between parts keeps what is in them. -/
theorem mem_intercalate
    {k : TokenKind}
    {sep w : List TokenKind}
    {parts : List (List TokenKind)}
    (hPart : w ∈ parts)
    (hMem : k ∈ w) :
    k ∈ sep.intercalate parts := by
  induction parts with
  | nil => cases hPart
  | cons first others ih =>
      cases others with
      | nil =>
          rw [List.intercalate_singleton]
          rcases List.mem_singleton.mp hPart with rfl
          exact hMem
      | cons second others =>
          rw [List.intercalate_cons_cons]
          rcases List.mem_cons.mp hPart with rfl | hPart
          · exact List.mem_append_left _
              (List.mem_append_left _ hMem)
          · exact List.mem_append_right _ (ih hPart)

/- An expression of writable tokens can be written. -/
theorem Derives.writable
    {layer : Layer}
    {w : List TokenKind}
    {e : Expr}
    (h : Derives layer w e)
    (hTokens : ∀ k ∈ w, k.Writable) :
    e.Writable := by
  induction h with
  | descend _ _ ih => exact ih hTokens
  | operator _ _ _ _ ihLeft ihRight =>
      constructor
      · exact ihLeft fun k hk => hTokens k (by simp [hk])
      · exact ihRight fun k hk => hTokens k (by simp [hk])
  | sign _ _ ih => exact ih fun k hk => hTokens k (by simp [hk])
  | int i => exact hTokens (.int i) (by simp)
  | float x => exact hTokens (.float x) (by simp)
  | str s => exact trivial
  | true => exact trivial
  | false => exact trivial
  | nil => exact trivial
  | var name => exact hTokens (.ident name) (by simp)
  | call name args _ ih =>
      refine ⟨hTokens (.ident name) (by simp), ?_⟩
      apply Expr.allWritable_iff.mpr
      intro e he
      rcases List.mem_map.mp he with ⟨arg, hArg, rfl⟩
      apply ih arg hArg
      intro k hk
      apply hTokens
      have hInside : k ∈ [.symbol .comma].intercalate
          (args.map Prod.fst) :=
        mem_intercalate (List.mem_map_of_mem hArg) hk
      simp [hInside]
  | group _ ih => exact ih fun k hk => hTokens k (by simp [hk])

/- What holds of a piece when it holds of its statements. -/
def Piece.Holds
    (name : String → Prop)
    (expr : Expr → Prop) : Piece → Prop
  | .stmt s => s.Holds name expr
  | .conditional s => s.Holds name expr
  | .block b => Stmt.HoldsSeq name expr b
  | .seq b => Stmt.HoldsSeq name expr b

/- A piece of writable tokens can be written. -/
theorem Forms.writable
    {limit : Option Nat}
    {w : List TokenKind}
    {p : Piece}
    (h : Forms limit w p)
    (hTokens : ∀ k ∈ w, k.Writable) :
    p.Holds IsName (Expr.WritableWithin limit) := by
  induction h with
  | assign name hValue hWithin =>
      refine ⟨hTokens (.ident name) (by simp), ?_, hWithin⟩
      exact hValue.writable fun k hk => hTokens k (by simp [hk])
  | branch _ ih => exact ih fun k hk => hTokens k (by simp [hk])
  | retNone =>
      intro e he
      cases he
  | retSome hValue hWithin =>
      intro e he
      rcases Option.some.inj he with rfl
      refine ⟨?_, hWithin⟩
      exact hValue.writable fun k hk => hTokens k (by simp [hk])
  | expr hExpr hWithin => exact ⟨hExpr.writable hTokens, hWithin⟩
  | function hHeading _ ih =>
      have hCall := hHeading.writable
        fun k hk => hTokens k (by simp [hk])
      refine ⟨hCall.1, ?_, ih fun k hk => hTokens k (by simp [hk])⟩
      intro x hx
      exact Expr.allWritable_iff.mp hCall.2 (.var x)
        (List.mem_map_of_mem hx)
  | ifOnly hTest hWithin _ ih =>
      refine ⟨⟨?_, hWithin⟩, ih fun k hk => hTokens k (by simp [hk])⟩
      exact hTest.writable fun k hk => hTokens k (by simp [hk])
  | ifElse hTest hWithin _ _ ihYes ihNo =>
      refine ⟨⟨?_, hWithin⟩, ?_, ?_⟩
      · exact hTest.writable fun k hk => hTokens k (by simp [hk])
      · exact ihYes fun k hk => hTokens k (by simp [hk])
      · exact ihNo fun k hk => hTokens k (by simp [hk])
  | elseIf hTest hWithin _ _ ihYes ihChain =>
      refine ⟨⟨?_, hWithin⟩, ?_, ?_, trivial⟩
      · exact hTest.writable fun k hk => hTokens k (by simp [hk])
      · exact ihYes fun k hk => hTokens k (by simp [hk])
      · exact ihChain fun k hk => hTokens k (by simp [hk])
  | block _ ih => exact ih fun k hk => hTokens k (by simp [hk])
  | nil => exact trivial
  | semicolon _ ih => exact ih fun k hk => hTokens k (by simp [hk])
  | cons _ _ ihFirst ihOthers =>
      constructor
      · exact ihFirst fun k hk => hTokens k (by simp [hk])
      · exact ihOthers fun k hk => hTokens k (by simp [hk])

namespace Parse

variable {limit : Option Nat}
variable {ending : Ending}
variable {depth : Nat}

------------------------------------------------------------
-- What is read was formed
------------------------------------------------------------

/- The tokens in front of `rest` form a piece. -/
def FormedIn
    (limit : Option Nat)
    (toks : List Token)
    (p : Piece)
    (rest : List Token) : Prop :=
  ∃ w, toks = w ++ rest ∧ Forms limit (kinds w) p

/-
  All readers of statements find what they should in the given
  tokens, inside any number of blocks.
-/
structure SoundStmt
    (limit : Option Nat)
    (ending : Ending)
    (toks : List Token) : Prop where
  bare :
    ∀ depth s rest,
      outcome (bareStatement limit ending depth toks) = .ok (s, rest) →
        FormedIn limit toks (.stmt s) rest
  conditional :
    ∀ depth s rest,
      outcome (conditional limit ending depth toks) = .ok (s, rest) →
        FormedIn limit toks (.conditional s) rest
  block :
    ∀ depth b rest,
      outcome (block limit ending depth toks) = .ok (b, rest) →
        FormedIn limit toks (.block b) rest
  body :
    ∀ depth b rest,
      outcome (blockBody limit ending depth toks) = .ok (b, rest) →
        ∃ w t, toks = w ++ t :: rest ∧ t.kind = .symbol .braceR ∧
          Forms limit (kinds w) (.seq b)

/- A reader that succeeds leaves fewer tokens. -/
theorem length_lt_of_outcome
    {α : Type}
    {n : Nat}
    {r : Except ParseError (Parsed α n)}
    {a : α}
    {rest : List Token}
    (h : outcome r = .ok (a, rest)) :
    rest.length < n := by
  rcases outcome_eq_ok.mp h with ⟨hLt, _⟩
  exact hLt

section Steps

variable {toks : List Token}
variable (hLimit : ∀ n ∈ limit, 0 < n)
variable (ih : ∀ shorter : List Token, shorter.length < toks.length →
  SoundStmt limit ending shorter)

include hLimit in
/- A `return` and what it gives back. -/
theorem formedIn_of_returned
    {t : Token}
    {behind rest : List Token}
    {value : Option Expr}
    (hReturn : t.kind = .symbol .kwReturn)
    (h : outcome (returned limit ending behind) = .ok (value, rest)) :
    FormedIn limit (t :: behind) (.stmt (.ret value)) rest := by
  have hNone :
      outcome (returned limit ending behind) = .ok (none, behind) →
        FormedIn limit (t :: behind) (.stmt (.ret value)) rest := by
    intro hBare
    rw [hBare] at h
    cases h
    refine ⟨[t], rfl, ?_⟩
    rw [kinds_cons, hReturn]
    exact .retNone
  cases behind with
  | nil =>
      cases hLook : ending.look with
      | error e =>
          rw [returned, hLook] at h
          cases h
      | ok u => exact hNone (outcome_returned_none (.inr hLook) (by simp))
  | cons u behind =>
      by_cases hStop :
          u.kind = .symbol .braceR ∨ u.kind = .symbol .semicolon
      · exact hNone (outcome_returned_none (.inl (by simp))
          (by simpa using hStop))
      · rw [not_or] at hStop
        rw [outcome_returned_some behind hStop.1 hStop.2] at h
        rcases bind_succeeds_iff.mp h with ⟨⟨e, left⟩, hExpr, hLast⟩
        cases hLast
        rcases (derives_of_outcome_expression hLimit hExpr).1 with
          ⟨w, hSplit, hDerives, hWithin, _⟩
        refine ⟨t :: w, ?_, ?_⟩
        · rw [hSplit, List.cons_append]
        · rw [kinds_cons, hReturn]
          exact .retSome hDerives hWithin

include hLimit ih in
/- An expression or a definition. -/
theorem formedIn_of_callOrDefinition
    (depth : Nat)
    (s : Stmt)
    (rest : List Token)
    (h : outcome (callOrDefinition limit ending depth toks) =
      .ok (s, rest)) :
    FormedIn limit toks (.stmt s) rest := by
  rw [outcome_callOrDefinition] at h
  rcases bind_succeeds_iff.mp h with ⟨⟨e, behind⟩, hExpr, hThen⟩
  have hShorter := length_lt_of_outcome hExpr
  rcases (derives_of_outcome_expression hLimit hExpr).1 with
    ⟨u, hSplit, hDerives, hWithin, _⟩
  unfold definition at hThen
  split at hThen
  · next name args pos hHeading =>
    rcases bind_succeeds_iff.mp hThen with ⟨params, hParams, hThen⟩
    rcases bind_succeeds_iff.mp hThen with
      ⟨⟨body, left⟩, hBody, hLast⟩
    cases hLast
    rcases parameters_eq_ok.mp hParams with rfl
    rcases (ih behind hShorter).block depth _ _ hBody with
      ⟨v, hInner, hForms⟩
    rcases call_of_heading? hHeading with rfl
    refine ⟨u ++ v, ?_, ?_⟩
    · rw [hSplit, hInner, List.append_assoc]
    · rw [kinds_append]
      exact .function hDerives hForms
  · cases hThen
    exact ⟨u, hSplit, .expr hDerives hWithin⟩

include hLimit ih in
/- A statement without its semicolon. -/
theorem formedIn_of_bareStatement
    (depth : Nat)
    (s : Stmt)
    (rest : List Token)
    (h : outcome (bareStatement limit ending depth toks) =
      .ok (s, rest)) :
    FormedIn limit toks (.stmt s) rest := by
  rcases bareStatement_begins toks with
    ⟨name, t, u, behind, rfl, hName, hAssign⟩ |
    ⟨t, behind, rfl, hIf⟩ | ⟨t, behind, rfl, hReturn⟩ |
    ⟨hAssign, hIf, hReturn⟩
  · rw [outcome_bareStatement_assign behind hName hAssign] at h
    rcases bind_succeeds_iff.mp h with ⟨⟨e, left⟩, hExpr, hLast⟩
    cases hLast
    rcases (derives_of_outcome_expression hLimit hExpr).1 with
      ⟨w, hSplit, hDerives, hWithin, _⟩
    refine ⟨t :: u :: w, ?_, ?_⟩
    · rw [hSplit, List.cons_append, List.cons_append]
    · rw [kinds_cons, kinds_cons, hName, hAssign]
      exact .assign name hDerives hWithin
  · rw [outcome_bareStatement_if behind hIf] at h
    rcases (ih behind (by simp)).conditional depth s rest h with
      ⟨w, hSplit, hForms⟩
    refine ⟨t :: w, ?_, ?_⟩
    · rw [hSplit, List.cons_append]
    · rw [kinds_cons, hIf]
      exact .branch hForms
  · rw [outcome_bareStatement_return behind hReturn] at h
    rcases bind_succeeds_iff.mp h with ⟨⟨value, left⟩, hValue, hLast⟩
    cases hLast
    exact formedIn_of_returned hLimit hReturn hValue
  · rw [outcome_bareStatement_other hAssign hIf hReturn] at h
    exact formedIn_of_callOrDefinition hLimit ih depth s rest h

include hLimit ih in
/- A conditional from behind its keyword. -/
theorem formedIn_of_conditional
    (depth : Nat)
    (s : Stmt)
    (rest : List Token)
    (h : outcome (conditional limit ending depth toks) =
      .ok (s, rest)) :
    FormedIn limit toks (.conditional s) rest := by
  rw [outcome_conditional] at h
  rcases bind_succeeds_iff.mp h with ⟨⟨test, opening⟩, hTest, hThen⟩
  rcases bind_succeeds_iff.mp hThen with ⟨⟨yes, next⟩, hYes, hThen⟩
  rcases bind_succeeds_iff.mp hThen with ⟨_, _, hThen⟩
  have hOpening := length_lt_of_outcome hTest
  have hNext := length_lt_of_outcome hYes
  rcases (derives_of_outcome_expression hLimit hTest).1 with
    ⟨u, rfl, hDerives, hWithin, _⟩
  rcases (ih opening hOpening).block depth _ _ hYes with
    ⟨v, rfl, hYesForms⟩
  cases hAccept : accept? .kwElse next with
  | none =>
      rw [otherwise_none (head_ne_of_accept?_eq_none hAccept)] at hThen
      cases hThen
      refine ⟨u ++ v, ?_, ?_⟩
      · rw [List.append_assoc]
      · rw [kinds_append]
        exact .ifOnly hDerives hWithin hYesForms
  | some p =>
      rcases accept?_eq_some hAccept with ⟨t, other, hElse, rfl, _⟩
      cases hChained : accept? .kwIf other with
      | none =>
          rw [otherwise_block hElse
            (head_ne_of_accept?_eq_none hChained)] at hThen
          rcases bind_succeeds_iff.mp hThen with
            ⟨⟨no, left⟩, hNo, hLast⟩
          cases hLast
          have hShorter :
              other.length < (u ++ (v ++ t :: other)).length := by
            simp only [List.length_append, List.length_cons]
            omega
          rcases (ih other hShorter).block depth _ _ hNo with
            ⟨w, rfl, hForms⟩
          refine ⟨u ++ v ++ t :: w, ?_, ?_⟩
          · simp only [List.append_assoc, List.cons_append]
          · rw [kinds_append, kinds_append, kinds_cons, hElse]
            exact .ifElse hDerives hWithin hYesForms hForms
      | some q =>
          rcases accept?_eq_some hChained with ⟨x, chain, hIf, rfl, _⟩
          rw [otherwise_chain chain hElse hIf] at hThen
          rcases bind_succeeds_iff.mp hThen with
            ⟨⟨s', left⟩, hChain, hLast⟩
          cases hLast
          have hShorter :
              chain.length < (u ++ (v ++ t :: x :: chain)).length := by
            simp only [List.length_append, List.length_cons]
            omega
          rcases (ih chain hShorter).conditional depth _ _ hChain with
            ⟨w, rfl, hForms⟩
          refine ⟨u ++ v ++ t :: x :: w, ?_, ?_⟩
          · simp only [List.append_assoc, List.cons_append]
          · rw [kinds_append, kinds_append, kinds_cons, kinds_cons,
              hElse, hIf]
            exact .elseIf hDerives hWithin hYesForms hForms

include ih in
/- A block with its braces. -/
theorem formedIn_of_block
    (depth : Nat)
    (b : Block)
    (rest : List Token)
    (h : outcome (block limit ending depth toks) = .ok (b, rest)) :
    FormedIn limit toks (.block b) rest := by
  rcases block_begins h with ⟨t, behind, hOpen, rfl⟩
  rw [outcome_block_open behind hOpen] at h
  rcases bind_succeeds_iff.mp h with ⟨_, _, hBody⟩
  rcases (ih behind (by simp)).body (depth + 1) b rest hBody with
    ⟨w, u, rfl, hClose, hForms⟩
  refine ⟨t :: (w ++ [u]), ?_, ?_⟩
  · simp
  · rw [kinds_cons, kinds_append, kinds_cons, kinds_nil, hOpen, hClose]
    exact .block hForms

include hLimit ih in
/-
  A statement and the semicolon that may end it, which belongs
  to the statements behind it.
-/
theorem formedIn_of_statement
    (depth : Nat)
    (s : Stmt)
    (rest : List Token)
    (h : outcome (statement limit ending depth toks) =
      .ok (s, rest)) :
    ∃ u gap, toks = u ++ (gap ++ rest) ∧
      Forms limit (kinds u) (.stmt s) ∧
      ∀ {w b}, Forms limit w (.seq b) →
        Forms limit (kinds gap ++ w) (.seq b) := by
  rw [outcome_statement] at h
  rcases bind_succeeds_iff.mp h with ⟨⟨s', next⟩, hBare, hThen⟩
  rcases bind_succeeds_iff.mp hThen with ⟨⟨_, left⟩, hSkip, hLast⟩
  cases hLast
  rcases formedIn_of_bareStatement hLimit ih depth _ _ hBare with
    ⟨u, rfl, hForms⟩
  rcases outcome_skipSemicolon_eq_ok hSkip with rfl | ⟨t, hKind, rfl⟩
  · exact ⟨u, [], rfl, hForms, fun hOthers => hOthers⟩
  · refine ⟨u, [t], rfl, hForms, ?_⟩
    intro w b hOthers
    rw [kinds_cons, hKind]
    exact .semicolon hOthers

include hLimit ih in
/- The statements of a block and its closing brace. -/
theorem formed_of_blockBody
    (depth : Nat)
    (b : Block)
    (rest : List Token)
    (h : outcome (blockBody limit ending depth toks) =
      .ok (b, rest)) :
    ∃ w t, toks = w ++ t :: rest ∧ t.kind = .symbol .braceR ∧
      Forms limit (kinds w) (.seq b) := by
  cases toks with
  | nil =>
      rw [outcome_blockBody_nil] at h
      cases h
  | cons t behind =>
      by_cases hSemicolon : t.kind = .symbol .semicolon
      · rw [outcome_blockBody_semicolon behind hSemicolon] at h
        rcases (ih behind (by simp)).body depth b rest h with
          ⟨w, u, rfl, hClose, hForms⟩
        refine ⟨t :: w, u, rfl, hClose, ?_⟩
        rw [kinds_cons, hSemicolon]
        exact .semicolon hForms
      by_cases hClose : t.kind = .symbol .braceR
      · rw [outcome_blockBody_close behind hClose] at h
        cases h
        exact ⟨[], t, rfl, hClose, .nil⟩
      rw [outcome_blockBody_statement behind hSemicolon hClose] at h
      rcases bind_succeeds_iff.mp h with ⟨⟨s, next⟩, hStmt, hThen⟩
      rcases bind_succeeds_iff.mp hThen with
        ⟨⟨ss, left⟩, hOthers, hLast⟩
      cases hLast
      have hShorter := length_lt_of_outcome hStmt
      rcases (ih next hShorter).body depth _ _ hOthers with
        ⟨v, x, hSplit, hLast, hForms⟩
      rcases formedIn_of_statement hLimit ih depth s next hStmt with
        ⟨u, gap, hFront, hFirst, hGap⟩
      refine ⟨u ++ (gap ++ v), x, ?_, hLast, ?_⟩
      · rw [hFront, hSplit]
        simp only [List.append_assoc]
      · rw [kinds_append, kinds_append]
        exact .cons hFirst (hGap hForms)

end Steps

/- Reading statements is sound, by the number of tokens. -/
theorem soundStmt
    (hLimit : ∀ n ∈ limit, 0 < n)
    (toks : List Token) :
    SoundStmt limit ending toks := by
  induction hLength : toks.length using Nat.strong_induction_on
    generalizing toks with
  | _ n ih =>
      have ihShorter : ∀ shorter : List Token,
          shorter.length < toks.length →
            SoundStmt limit ending shorter := by
        intro shorter hLt
        exact ih shorter.length (hLength ▸ hLt) shorter rfl
      constructor
      · exact formedIn_of_bareStatement hLimit ihShorter
      · exact formedIn_of_conditional hLimit ihShorter
      · exact formedIn_of_block ihShorter
      · exact formed_of_blockBody hLimit ihShorter

/- A program that is read was formed by all of its tokens. -/
theorem forms_of_statements
    (hLimit : ∀ n ∈ limit, 0 < n)
    {toks : List Token}
    {b : Block}
    (h : statements limit ending toks = .ok b) :
    Forms limit (kinds toks) (.seq b) := by
  induction hLength : toks.length using Nat.strong_induction_on
    generalizing toks b with
  | _ n ih =>
      cases toks with
      | nil =>
          rw [statements_nil] at h
          rcases bind_succeeds_iff.mp h with ⟨_, _, hLast⟩
          cases hLast
          exact .nil
      | cons t rest =>
          by_cases hSemicolon : t.kind = .symbol .semicolon
          · rw [statements_semicolon rest hSemicolon] at h
            rw [kinds_cons, hSemicolon]
            apply Forms.semicolon
            exact ih rest.length (by rw [← hLength]; simp) h rfl
          · rw [statements_statement rest hSemicolon] at h
            rcases bind_succeeds_iff.mp h with
              ⟨⟨s, next⟩, hStmt, hThen⟩
            rcases bind_succeeds_iff.mp hThen with
              ⟨ss, hOthers, hLast⟩
            cases hLast
            have hShorter := length_lt_of_outcome hStmt
            rcases formedIn_of_statement hLimit
                (fun shorter _ => soundStmt hLimit shorter) 0 s next
                hStmt with ⟨u, gap, hSplit, hFirst, hGap⟩
            have hForms := ih next.length (hLength ▸ hShorter)
              hOthers rfl
            rw [hSplit, kinds_append, kinds_append]
            exact .cons hFirst (hGap hForms)

end Parse

end DynScript
