import DynScript.Proofs.Parse.Brackets
import DynScript.Proofs.Parse.Curbed
import DynScript.Proofs.Parse.Descent.Progress
import DynScript.Proofs.Parse.ReadsBack

/-
  The limit on nesting is exact and changes nothing else. A
  statement is within the limit when none of its expressions
  is too high and the tokens that were taken for it open no
  block too many; a program that is within the limit is read
  as without one, and any other meets the limit. The limit is
  put on numbers that the readers count: that these are the
  heights of the trees is `Parse.exact_sizedClimb`, and that
  the number of open blocks is restored behind every statement
  is `Parse.restores_countedStatement`.

  Key definitions include:
    * `Parse.TakesWithin`
    * `Stmt.Low`
    * `Parse.CurbsStmt`

  Main statements include:
    * `Parse.takesWithin_append`
    * `Parse.curbsStmt`
    * `Parse.curbed_statements`
    * `nesting_limit_exact`
-/

namespace DynScript

namespace Parse

variable {n : Nat}
variable {ending : Ending}

------------------------------------------------------------
-- Statements
------------------------------------------------------------

/-
  What a reading inside of `depth` blocks gives, and that it is
  within the limit: the tree satisfies `low`, and the tokens
  that were taken for it open no block too many.
-/
def TakesWithin
    {α : Type}
    (n depth : Nat)
    (low : α → Prop)
    (toks : List Token)
    (p : α × List Token) : Prop :=
  low p.1 ∧ ∃ w, toks = w ++ p.2 ∧ Nested n depth (kinds w)

section Taken

variable {α : Type}
variable {depth : Nat}
variable {low : α → Prop}
variable {a : α}
variable {rest : List Token}

/- The tokens in front of those that are left were taken. -/
theorem takesWithin_iff
    {w : List Token} :
    TakesWithin n depth low (w ++ rest) (a, rest) ↔
      low a ∧ Nested n depth (kinds w) := by
  simp [TakesWithin]

/- Where nothing is taken, no block is opened. -/
theorem takesWithin_here
    (hDepth : depth ≤ n)
    (h : low a) :
    TakesWithin n depth low rest (a, rest) := by
  refine ⟨h, [], rfl, ?_⟩
  exact nested_of_braceless braceless_nil hDepth

/- A part that closes what it opens, and what is taken behind it. -/
theorem takesWithin_append
    {u next : List Token}
    (hPaired : Paired (kinds u))
    (hRest : rest <:+ next) :
    TakesWithin n depth low (u ++ next) (a, rest) ↔
      Nested n depth (kinds u) ∧
        TakesWithin n depth low next (a, rest) := by
  rcases hRest with ⟨v, rfl⟩
  rw [takesWithin_iff, ← List.append_assoc, takesWithin_iff,
    kinds_append, nested_append hPaired]
  exact and_left_comm

/- A part without braces may stand in front. -/
theorem takesWithin_braceless
    {u next : List Token}
    (hDepth : depth ≤ n)
    (hBraceless : Braceless (kinds u))
    (hRest : rest <:+ next) :
    TakesWithin n depth low (u ++ next) (a, rest) ↔
      TakesWithin n depth low next (a, rest) := by
  rw [takesWithin_append hBraceless.paired hRest]
  exact and_iff_right (nested_of_braceless hBraceless hDepth)

end Taken

end Parse

/- No expression of a statement is higher than `n`. -/
def Stmt.Low
    (n : Nat)
    (s : Stmt) : Prop :=
  s.Holds (fun _ => True) (fun e => e.height ≤ n)

/- No expression of a block is higher than `n`. -/
def Block.Low
    (n : Nat)
    (b : Block) : Prop :=
  Stmt.HoldsSeq (fun _ => True) (fun e => e.height ≤ n) b

namespace Parse

/-
  All readers of statements give what they give without a
  limit, or meet the limit, depending on what they take.
-/
structure CurbsStmt
    (n : Nat)
    (ending : Ending)
    (toks : List Token) : Prop where
  bare :
    ∀ depth ≤ n, Curbed n (TakesWithin n depth (Stmt.Low n) toks)
      (outcome (bareStatement (some n) ending depth toks))
      (outcome (bareStatement none ending depth toks))
  conditional :
    ∀ depth ≤ n, Curbed n (TakesWithin n depth (Stmt.Low n) toks)
      (outcome (conditional (some n) ending depth toks))
      (outcome (conditional none ending depth toks))
  block :
    ∀ depth, Curbed n (TakesWithin n depth (Block.Low n) toks)
      (outcome (block (some n) ending depth toks))
      (outcome (block none ending depth toks))
  body :
    ∀ depth ≤ n, Curbed n (TakesWithin n depth (Block.Low n) toks)
      (outcome (blockBody (some n) ending depth toks))
      (outcome (blockBody none ending depth toks))

------------------------------------------------------------
-- What a free reading takes
------------------------------------------------------------

/- There is nothing to ask of a limit that does not exist. -/
theorem no_limit :
    ∀ m ∈ (none : Option Nat), 0 < m := by
  intro m hm
  cases hm

/- An expression takes tokens without braces. -/
theorem braceless_of_expression
    {toks rest : List Token}
    {e : Expr}
    (h : outcome (expression none ending toks) = .ok (e, rest)) :
    ∃ w, toks = w ++ rest ∧ Braceless (kinds w) := by
  rcases (derives_of_outcome_expression no_limit h).1 with
    ⟨w, hSplit, hDerives, _, _⟩
  exact ⟨w, hSplit, hDerives.braceless⟩

/- A block takes tokens that close what they open. -/
theorem paired_of_block
    {depth : Nat}
    {toks rest : List Token}
    {b : Block}
    (h : outcome (block none ending depth toks) = .ok (b, rest)) :
    ∃ w, toks = w ++ rest ∧ Paired (kinds w) := by
  rcases (soundStmt no_limit toks).block depth b rest h with
    ⟨w, hSplit, hForms⟩
  exact ⟨w, hSplit, hForms.paired⟩

/- What is left behind an expression in the place of a statement. -/
theorem suffix_of_definition
    {depth : Nat}
    {e : Expr}
    {s : Stmt}
    {toks rest : List Token}
    (h : definition none ending depth e toks = .ok (s, rest)) :
    rest <:+ toks := by
  unfold definition at h
  split at h
  · rcases bind_succeeds_iff.mp h with ⟨params, _, hThen⟩
    rcases bind_succeeds_iff.mp hThen with ⟨⟨body, left⟩, hBody, hLast⟩
    cases hLast
    rcases paired_of_block hBody with ⟨w, rfl, _⟩
    exact List.suffix_append w left
  · cases h
    exact List.suffix_refl toks

/- What is left behind the first block of a conditional. -/
theorem suffix_of_otherwise
    {depth : Nat}
    {test : Expr}
    {yes : Block}
    {s : Stmt}
    {toks rest : List Token}
    (h : otherwise none ending depth test yes toks = .ok (s, rest)) :
    rest <:+ toks := by
  cases hAccept : accept? .kwElse toks with
  | none =>
      rw [otherwise_none (head_ne_of_accept?_eq_none hAccept)] at h
      cases h
      exact List.suffix_refl toks
  | some p =>
      rcases accept?_eq_some hAccept with ⟨t, other, hElse, rfl, _⟩
      cases hChained : accept? .kwIf other with
      | none =>
          rw [otherwise_block hElse
            (head_ne_of_accept?_eq_none hChained)] at h
          rcases bind_succeeds_iff.mp h with ⟨⟨no, left⟩, hNo, hLast⟩
          cases hLast
          rcases paired_of_block hNo with ⟨w, rfl, _⟩
          exact List.suffix_append (t :: w) left
      | some q =>
          rcases accept?_eq_some hChained with ⟨u, chain, hIf, rfl, _⟩
          rw [otherwise_chain chain hElse hIf] at h
          rcases bind_succeeds_iff.mp h with ⟨⟨s', left⟩, hChain, hLast⟩
          cases hLast
          rcases (soundStmt no_limit chain).conditional depth _ _ hChain
            with ⟨w, rfl, _⟩
          exact List.suffix_append (t :: u :: w) left

/- The tree of a conditional keeps its test and its first block. -/
theorem low_of_otherwise
    {depth : Nat}
    {test : Expr}
    {yes : Block}
    {s : Stmt}
    {toks rest : List Token}
    (h : otherwise none ending depth test yes toks = .ok (s, rest))
    (hLow : s.Low n) :
    test.height ≤ n ∧ yes.Low n := by
  unfold otherwise at h
  split at h
  · cases h
    exact hLow
  · split at h
    · rcases bind_succeeds_iff.mp h with ⟨s', _, hLast⟩
      cases hLast
      exact ⟨hLow.1, hLow.2.1⟩
    · rcases bind_succeeds_iff.mp h with ⟨no, _, hLast⟩
      cases hLast
      exact ⟨hLow.1, hLow.2.1⟩

/-
  The expression in the place of a statement is part of its
  tree, or the heading of a function, which is never too high.
-/
theorem height_le_of_definition
    {depth : Nat}
    {e : Expr}
    {s : Stmt}
    {toks rest : List Token}
    (hTwo : 2 ≤ n)
    (h : definition none ending depth e toks = .ok (s, rest))
    (hLow : s.Low n) :
    e.height ≤ n := by
  unfold definition at h
  split at h
  · next name args pos hHeading =>
    rcases bind_succeeds_iff.mp h with ⟨params, hParams, _⟩
    rcases parameters_eq_ok.mp hParams with rfl
    rcases call_of_heading? hHeading with rfl
    have hFits : Fits (some n) 2 := by
      intro m hm
      rcases Option.some.inj hm with rfl
      exact hTwo
    exact within_heading hFits n rfl
  · cases h
    exact hLow

------------------------------------------------------------
-- Statements under the limit
------------------------------------------------------------

/- A block that is opened. -/
theorem curbed_mayOpen
    (pos : Position)
    (depth : Nat) :
    Curbed n (fun _ => depth + 1 ≤ n)
      (mayOpen (some n) pos depth) (mayOpen none pos depth) := by
  refine ⟨?_, ?_, ?_⟩
  · intro a _ hOpen
    exact if_neg (Nat.not_le_of_lt hOpen)
  · intro a _ hFull
    exact ⟨pos, if_pos (by omega)⟩
  · intro e hFault
    cases hFault

section StmtSteps

variable {toks : List Token}
variable (hTwo : 2 ≤ n)
variable (ih : ∀ shorter : List Token, shorter.length < toks.length →
  CurbsStmt n ending shorter)

include hTwo in
/- An expression in front of something that takes more tokens. -/
theorem curbed_expression_bind
    {depth : Nat}
    {next next' : Expr × List Token →
      Except ParseError (Stmt × List Token)}
    (hDepth : depth ≤ n)
    (hNext : ∀ e rest,
      outcome (expression none ending toks) = .ok (e, rest) →
        e.height ≤ n →
          Curbed n (TakesWithin n depth (Stmt.Low n) rest)
            (next (e, rest)) (next' (e, rest)))
    (hSuffix : ∀ e rest s left,
      outcome (expression none ending toks) = .ok (e, rest) →
        next' (e, rest) = .ok (s, left) →
          left <:+ rest ∧ (s.Low n → e.height ≤ n)) :
    Curbed n (TakesWithin n depth (Stmt.Low n) toks)
      (outcome (expression (some n) ending toks) >>= next)
      (outcome (expression none ending toks) >>= next') := by
  have hExpr := (curbs ending (by omega : 0 < n) toks).climb 0
  apply hExpr.bind
    (fun p => TakesWithin n depth (Stmt.Low n) p.2)
  · rintro ⟨e, rest⟩ hFree hHeight
    exact hNext e rest hFree hHeight
  · rintro ⟨e, rest⟩ ⟨s, left⟩ hFree hThen
    rcases hSuffix e rest s left hFree hThen with ⟨hRest, hLow⟩
    rcases braceless_of_expression hFree with ⟨w, rfl, hBraceless⟩
    rw [takesWithin_braceless hDepth hBraceless hRest]
    constructor
    · exact fun hTakes => ⟨hLow hTakes.1, hTakes⟩
    · exact fun h => h.2

include ih in
/- An expression that may turn out to be a heading. -/
theorem curbed_definition
    {depth : Nat}
    {e : Expr}
    {rest : List Token}
    (hDepth : depth ≤ n)
    (hShorter : rest.length < toks.length)
    (hHeight : e.height ≤ n) :
    Curbed n (TakesWithin n depth (Stmt.Low n) rest)
      (definition (some n) ending depth e rest)
      (definition none ending depth e rest) := by
  unfold definition
  cases heading? e rest with
  | none =>
      apply curbed_self
      intro p hOk
      rcases Except.ok.inj hOk with rfl
      exact takesWithin_here hDepth hHeight
  | some heading =>
      rcases heading with ⟨name, args, pos⟩
      apply Curbed.after
      intro params _
      apply ((ih rest hShorter).block depth).map
      rintro ⟨body, left⟩ _
      simp [TakesWithin, Stmt.Low, Block.Low, Stmt.Holds]

include hTwo ih in
/- An expression or a definition. -/
theorem curbed_callOrDefinition
    {depth : Nat}
    (hDepth : depth ≤ n) :
    Curbed n (TakesWithin n depth (Stmt.Low n) toks)
      (outcome (callOrDefinition (some n) ending depth toks))
      (outcome (callOrDefinition none ending depth toks)) := by
  rw [outcome_callOrDefinition, outcome_callOrDefinition]
  apply curbed_expression_bind hTwo hDepth
  · intro e rest hExpr hHeight
    exact curbed_definition ih hDepth (length_lt_of_outcome hExpr) hHeight
  · intro e rest s left _ hThen
    exact ⟨suffix_of_definition hThen, height_le_of_definition hTwo hThen⟩

include hTwo in
/- What a `return` gives back. -/
theorem curbed_returned
    {depth : Nat}
    {t : Token}
    {rest : List Token}
    (hDepth : depth ≤ n)
    (hReturn : t.kind = .symbol .kwReturn) :
    Curbed n (TakesWithin n depth (Stmt.Low n) (t :: rest))
      (outcome (returned (some n) ending rest) >>= fun p =>
        .ok (.ret p.1, p.2))
      (outcome (returned none ending rest) >>= fun p =>
        .ok (.ret p.1, p.2)) := by
  have hKeyword : Braceless (kinds [t]) := by
    rw [kinds_cons, hReturn]
    exact braceless_nil.cons (by simp) (by simp)
  have hNone : TakesWithin n depth (Stmt.Low n) (t :: rest)
      (.ret none, rest) := by
    rw [← List.singleton_append,
      takesWithin_braceless hDepth hKeyword (List.suffix_refl rest)]
    apply takesWithin_here hDepth
    intro e he
    cases he
  cases rest with
  | nil =>
      rw [outcome_returned_nil, outcome_returned_nil]
      apply curbed_self
      intro p hOk
      rcases bind_succeeds_iff.mp hOk with ⟨q, hBare, hLast⟩
      rcases bind_succeeds_iff.mp hBare with ⟨_, _, hEnd⟩
      cases hEnd
      cases hLast
      exact hNone
  | cons u rest =>
      by_cases hStop :
          u.kind = .symbol .braceR ∨ u.kind = .symbol .semicolon
      · rw [outcome_returned_none (.inl (by simp)) (by simpa using hStop),
          outcome_returned_none (.inl (by simp)) (by simpa using hStop)]
        apply curbed_self
        intro p hOk
        cases hOk
        exact hNone
      · rw [not_or] at hStop
        rw [outcome_returned_some rest hStop.1 hStop.2,
          outcome_returned_some rest hStop.1 hStop.2]
        have hExpr := (curbs ending (by omega : 0 < n)
          (u :: rest)).climb 0
        have hValue : Curbed n (fun p => ∀ e ∈ p.1, e.height ≤ n)
            (outcome (expression (some n) ending (u :: rest)) >>=
              fun p => .ok (some p.1, p.2))
            (outcome (expression none ending (u :: rest)) >>=
              fun p => .ok (some p.1, p.2)) :=
          hExpr.map (by simp)
        apply hValue.map
        rintro ⟨value, left⟩ hFree
        rcases bind_succeeds_iff.mp hFree with ⟨⟨e, behind⟩, hRead, hLast⟩
        cases hLast
        rcases braceless_of_expression hRead with
          ⟨w, hSplit, hBraceless⟩
        have hTaken : Braceless (kinds ([t] ++ w)) := by
          rw [kinds_append]
          exact hKeyword.append hBraceless
        rw [hSplit, ← List.singleton_append, ← List.append_assoc,
          takesWithin_iff]
        exact and_iff_left (nested_of_braceless hTaken hDepth)

include hTwo ih in
/- A statement without its semicolon. -/
theorem curbed_bareStatement
    (depth : Nat)
    (hDepth : depth ≤ n) :
    Curbed n (TakesWithin n depth (Stmt.Low n) toks)
      (outcome (bareStatement (some n) ending depth toks))
      (outcome (bareStatement none ending depth toks)) := by
  rcases bareStatement_begins toks with
    ⟨name, t, u, rest, rfl, hName, hAssign⟩ |
    ⟨t, rest, rfl, hIf⟩ | ⟨t, rest, rfl, hReturn⟩ |
    ⟨hAssign, hIf, hReturn⟩
  · rw [outcome_bareStatement_assign rest hName hAssign,
      outcome_bareStatement_assign rest hName hAssign]
    apply ((curbs ending (by omega : 0 < n) rest).climb 0).map
    rintro ⟨e, left⟩ hFree
    rcases braceless_of_expression hFree with ⟨w, rfl, hBraceless⟩
    have hTaken : Braceless (kinds (t :: u :: w)) := by
      rw [kinds_cons, kinds_cons, hName, hAssign]
      exact (hBraceless.cons (by simp) (by simp)).cons
        (by simp) (by simp)
    rw [← List.cons_append, ← List.cons_append, takesWithin_iff]
    rw [and_iff_left (nested_of_braceless hTaken hDepth)]
    exact and_iff_right trivial
  · rw [outcome_bareStatement_if rest hIf,
      outcome_bareStatement_if rest hIf]
    apply ((ih rest (by simp)).conditional depth hDepth).congr
    rintro ⟨s, left⟩ hFree
    rcases (soundStmt no_limit rest).conditional depth s left hFree with
      ⟨w, rfl, _⟩
    rw [← List.cons_append, takesWithin_iff, takesWithin_iff, kinds_cons,
      hIf, nested_cons (by simp) (by simp)]
  · rw [outcome_bareStatement_return rest hReturn,
      outcome_bareStatement_return rest hReturn]
    exact curbed_returned hTwo hDepth hReturn
  · rw [outcome_bareStatement_other hAssign hIf hReturn,
      outcome_bareStatement_other hAssign hIf hReturn]
    exact curbed_callOrDefinition hTwo ih hDepth

include ih in
/- What stands behind the first block of a conditional. -/
theorem curbed_otherwise
    {depth : Nat}
    {test : Expr}
    {yes : Block}
    {rest : List Token}
    (hDepth : depth ≤ n)
    (hShorter : rest.length < toks.length)
    (hTest : test.height ≤ n)
    (hYes : yes.Low n) :
    Curbed n (TakesWithin n depth (Stmt.Low n) rest)
      (otherwise (some n) ending depth test yes rest)
      (otherwise none ending depth test yes rest) := by
  cases hAccept : accept? .kwElse rest with
  | none =>
      have hNext := head_ne_of_accept?_eq_none hAccept
      rw [otherwise_none hNext, otherwise_none hNext]
      apply curbed_self
      intro p hOk
      cases hOk
      exact takesWithin_here hDepth ⟨hTest, hYes⟩
  | some p =>
      rcases accept?_eq_some hAccept with ⟨t, other, hElse, rfl, _⟩
      have hOther : other.length < toks.length :=
        Nat.lt_of_succ_lt hShorter
      cases hChained : accept? .kwIf other with
      | none =>
          have hNext := head_ne_of_accept?_eq_none hChained
          rw [otherwise_block hElse hNext, otherwise_block hElse hNext]
          apply ((ih other hOther).block depth).map
          rintro ⟨no, left⟩ hFree
          rcases paired_of_block hFree with ⟨w, rfl, _⟩
          rw [← List.cons_append, takesWithin_iff, takesWithin_iff,
            kinds_cons, hElse, nested_cons (by simp) (by simp)]
          apply and_congr_left
          intro _
          exact ⟨fun hLow => hLow.2.2, fun hNo => ⟨hTest, hYes, hNo⟩⟩
      | some q =>
          rcases accept?_eq_some hChained with ⟨u, chain, hIf, rfl, _⟩
          rw [otherwise_chain chain hElse hIf,
            otherwise_chain chain hElse hIf]
          apply ((ih chain (Nat.lt_of_succ_lt hOther)).conditional depth
            hDepth).map
          rintro ⟨s, left⟩ hFree
          rcases (soundStmt no_limit chain).conditional depth s left hFree
            with ⟨w, rfl, _⟩
          rw [← List.cons_append, ← List.cons_append, takesWithin_iff,
            takesWithin_iff, kinds_cons, kinds_cons, hElse, hIf,
            nested_cons (by simp) (by simp),
            nested_cons (by simp) (by simp)]
          apply and_congr_left
          intro _
          exact ⟨fun hLow => hLow.2.2.1,
            fun hChain => ⟨hTest, hYes, hChain, trivial⟩⟩

include hTwo ih in
/- A conditional from behind its keyword. -/
theorem curbed_conditional
    (depth : Nat)
    (hDepth : depth ≤ n) :
    Curbed n (TakesWithin n depth (Stmt.Low n) toks)
      (outcome (conditional (some n) ending depth toks))
      (outcome (conditional none ending depth toks)) := by
  rw [outcome_conditional, outcome_conditional]
  apply curbed_expression_bind hTwo hDepth
  · intro test opening hTest hHeight
    have hOpening := length_lt_of_outcome hTest
    apply ((ih opening hOpening).block depth).bind
      (fun p => TakesWithin n depth (Stmt.Low n) p.2)
    · rintro ⟨yes, rest⟩ hYes hTakes
      have hRest := length_lt_of_outcome hYes
      apply Curbed.after
      intro _ _
      exact curbed_otherwise ih hDepth (Nat.lt_trans hRest hOpening)
        hHeight hTakes.1
    · rintro ⟨yes, rest⟩ ⟨s, left⟩ hYes hThen
      rcases bind_succeeds_iff.mp hThen with ⟨_, _, hOtherwise⟩
      rcases paired_of_block hYes with ⟨w, rfl, hPaired⟩
      rw [takesWithin_append hPaired (suffix_of_otherwise hOtherwise),
        takesWithin_iff]
      constructor
      · rintro ⟨hNested, hTakes⟩
        exact ⟨⟨(low_of_otherwise hOtherwise hTakes.1).2, hNested⟩,
          hTakes⟩
      · rintro ⟨hYesTakes, hTakes⟩
        exact ⟨hYesTakes.2, hTakes⟩
  · intro test opening s left hTest hThen
    rcases bind_succeeds_iff.mp hThen with ⟨⟨yes, rest⟩, hYes, hThen⟩
    rcases bind_succeeds_iff.mp hThen with ⟨_, _, hOtherwise⟩
    rcases paired_of_block hYes with ⟨w, rfl, _⟩
    refine ⟨?_, fun hLow => (low_of_otherwise hOtherwise hLow).1⟩
    exact (suffix_of_otherwise hOtherwise).trans
      (List.suffix_append w rest)

include ih in
/- A block with its braces. -/
theorem curbed_block
    (depth : Nat) :
    Curbed n (TakesWithin n depth (Block.Low n) toks)
      (outcome (block (some n) ending depth toks))
      (outcome (block none ending depth toks)) := by
  cases toks with
  | nil =>
      rw [outcome_block_nil, outcome_block_nil]
      exact curbed_self fun a hOk => by cases hOk
  | cons t rest =>
      by_cases hOpen : t.kind = .symbol .braceL
      · rw [outcome_block_open rest hOpen, outcome_block_open rest hOpen]
        apply (curbed_mayOpen t.pos depth).bind
          (fun _ =>
            TakesWithin n (depth + 1) (Block.Low n) rest)
        · intro _ _ hFits
          exact (ih rest (by simp)).body (depth + 1) hFits
        · rintro _ ⟨b, left⟩ _ hBody
          rcases (soundStmt no_limit rest).body (depth + 1) b left hBody
            with ⟨w, u, rfl, _, _⟩
          rw [List.append_cons, ← List.cons_append, takesWithin_iff,
            takesWithin_iff, kinds_cons, hOpen, nested_open]
          constructor
          · rintro ⟨hLow, hNested⟩
            exact ⟨hNested.le, hLow, hNested⟩
          · exact fun h => h.2
      · rw [outcome_block_other rest hOpen,
          outcome_block_other rest hOpen]
        exact curbed_self fun a hOk => by cases hOk

/- A statement takes tokens that close what they open. -/
theorem paired_of_bareStatement
    {depth : Nat}
    {toks rest : List Token}
    {s : Stmt}
    (h : outcome (bareStatement none ending depth toks) = .ok (s, rest)) :
    ∃ w, toks = w ++ rest ∧ Paired (kinds w) := by
  rcases (soundStmt no_limit toks).bare depth s rest h with
    ⟨w, hSplit, hForms⟩
  exact ⟨w, hSplit, hForms.paired⟩

include hTwo ih in
/- The statements of a block and its closing brace. -/
theorem curbed_blockBody
    (depth : Nat)
    (hDepth : depth ≤ n) :
    Curbed n (TakesWithin n depth (Block.Low n) toks)
      (outcome (blockBody (some n) ending depth toks))
      (outcome (blockBody none ending depth toks)) := by
  cases toks with
  | nil =>
      rw [outcome_blockBody_nil, outcome_blockBody_nil]
      exact curbed_self fun a hOk => by cases hOk
  | cons t rest =>
      by_cases hSemicolon : t.kind = .symbol .semicolon
      · rw [outcome_blockBody_semicolon rest hSemicolon,
          outcome_blockBody_semicolon rest hSemicolon]
        apply ((ih rest (by simp)).body depth hDepth).congr
        rintro ⟨b, left⟩ hBody
        rcases (soundStmt no_limit rest).body depth b left hBody
          with ⟨w, u, rfl, _, _⟩
        rw [List.append_cons, ← List.cons_append, takesWithin_iff,
          takesWithin_iff, kinds_cons, hSemicolon,
          nested_cons (by simp) (by simp)]
      by_cases hClose : t.kind = .symbol .braceR
      · rw [outcome_blockBody_close rest hClose,
          outcome_blockBody_close rest hClose]
        apply curbed_self
        intro p hOk
        cases hOk
        rw [← List.singleton_append, takesWithin_iff, kinds_cons, hClose]
        exact ⟨trivial, nested_close hDepth⟩
      rw [outcome_blockBody_bare rest hSemicolon hClose,
        outcome_blockBody_bare rest hSemicolon hClose]
      apply (curbed_bareStatement hTwo ih depth hDepth).bind
        (fun p q => TakesWithin n depth (Block.Low n) p.2
          (q.1.tail, q.2))
      · rintro ⟨s, next⟩ hStmt _
        apply ((ih next (length_lt_of_outcome hStmt)).body depth
          hDepth).map
        rintro ⟨b, left⟩ _
        rfl
      · rintro ⟨s, next⟩ ⟨b, left⟩ hStmt hThen
        rcases bind_succeeds_iff.mp hThen with ⟨⟨ss, left⟩, hBody, hLast⟩
        cases hLast
        rcases (soundStmt no_limit next).body depth ss left hBody with
          ⟨v, u, hSplit, _, _⟩
        have hSuffix : left <:+ next := by
          rw [hSplit, List.append_cons]
          exact List.suffix_append _ left
        rcases paired_of_bareStatement hStmt with ⟨w, hFront, hPaired⟩
        rw [hFront, takesWithin_append hPaired hSuffix, takesWithin_iff]
        unfold TakesWithin
        simp only [List.tail_cons]
        constructor
        · rintro ⟨hNested, hLow, hOthers⟩
          exact ⟨⟨hLow.1, hNested⟩, hLow.2, hOthers⟩
        · rintro ⟨⟨hFirst, hNested⟩, hLow, hOthers⟩
          exact ⟨hNested, ⟨hFirst, hLow⟩, hOthers⟩

end StmtSteps

/- Statements under the limit, by the number of tokens. -/
theorem curbsStmt
    (hTwo : 2 ≤ n)
    (toks : List Token) :
    CurbsStmt n ending toks := by
  induction hLength : toks.length using Nat.strong_induction_on
    generalizing toks with
  | _ length ih =>
      have ihShorter : ∀ shorter : List Token,
          shorter.length < toks.length → CurbsStmt n ending shorter := by
        intro shorter hLt
        exact ih shorter.length (hLength ▸ hLt) shorter rfl
      exact
        { bare := curbed_bareStatement hTwo ihShorter
          conditional := curbed_conditional hTwo ihShorter
          block := curbed_block ihShorter
          body := curbed_blockBody hTwo ihShorter }

/- Programs under the limit. -/
theorem curbed_statements
    (hTwo : 2 ≤ n)
    (toks : List Token) :
    Curbed n (fun b => b.Low n ∧ Nested n 0 (kinds toks))
      (statements (some n) ending toks)
      (statements none ending toks) := by
  induction hLength : toks.length using Nat.strong_induction_on
    generalizing toks with
  | _ length ih =>
      cases toks with
      | nil =>
          rw [statements_nil, statements_nil]
          apply curbed_self
          intro b hOk
          rcases bind_succeeds_iff.mp hOk with ⟨_, _, hLast⟩
          cases hLast
          exact ⟨trivial, nested_of_braceless braceless_nil (by simp)⟩
      | cons t rest =>
          by_cases hSemicolon : t.kind = .symbol .semicolon
          · rw [statements_semicolon rest hSemicolon,
              statements_semicolon rest hSemicolon]
            apply (ih rest.length (by rw [← hLength]; simp) rest
              rfl).congr
            intro b _
            rw [kinds_cons, hSemicolon, nested_cons (by simp) (by simp)]
          rw [statements_bare rest hSemicolon,
            statements_bare rest hSemicolon]
          apply ((curbsStmt hTwo (t :: rest)).bare 0
              (Nat.zero_le n)).bind
            (fun p b =>
              Block.Low n b.tail ∧ Nested n 0 (kinds p.2))
          · rintro ⟨s, next⟩ hStmt _
            have hShorter := length_lt_of_outcome hStmt
            apply (ih next.length (hLength ▸ hShorter) next rfl).map
            intro b _
            rfl
          · rintro ⟨s, next⟩ b hStmt hThen
            rcases bind_succeeds_iff.mp hThen with ⟨ss, _, hLast⟩
            cases hLast
            rcases paired_of_bareStatement hStmt with
              ⟨w, hFront, hPaired⟩
            rw [hFront, kinds_append, nested_append hPaired,
              takesWithin_iff]
            simp only [List.tail_cons]
            constructor
            · rintro ⟨hLow, hFirst, hOthers⟩
              exact ⟨⟨hLow.1, hFirst⟩, hLow.2, hOthers⟩
            · rintro ⟨⟨hLow, hFirst⟩, hLows, hOthers⟩
              exact ⟨⟨hLow, hLows⟩, hFirst, hOthers⟩

end Parse

------------------------------------------------------------
-- Source texts
------------------------------------------------------------

/-
  Without a limit a source text is read as a program or not at
  all. With the limit the same program is read when no
  expression of it is higher than the limit and no beginning of
  the tokens leaves more blocks open; otherwise the nesting is
  too deep. A fault is the same, or the nesting is too deep
  before it. So it is for parsers that count heights while they
  read and keep the number of open blocks in their state: with
  any limit, or without one, they read what is said here, and
  leave no block open.
-/
theorem nesting_limit_exact
    (source : String) :
    let opens (u : List TokenKind) := u.count (.symbol .braceL)
    let closes (u : List TokenKind) := u.count (.symbol .braceR)
    let within (b : Block) :=
      Stmt.HoldsSeq (fun _ => True) (fun e => e.height ≤ maxNesting) b ∧
      ∀ u, u <+: kinds (TokenStream.ofSource source).tokens →
        opens u ≤ closes u + maxNesting
    (∀ b, parseWithin none source = .ok b →
      (within b → parse source = .ok b) ∧
      (¬ within b →
        ∃ pos, parse source = .error (.tooDeep maxNesting pos))) ∧
    (∀ e, parseWithin none source = .error e →
      parse source = .error e ∨
        ∃ pos, parse source = .error (.tooDeep maxNesting pos)) ∧
    ∀ d : Descent,
      ∃ p, d.program [] (.ofStream (.ofSource source)) =
          some (parseWithin d.limit source, p) ∧
        p.blocks = 0 := by
  intro opens closes within
  have hTwo : 2 ≤ maxNesting := by decide
  have hCurbed : Curbed maxNesting within
      (parse source) (parseWithin none source) := by
    apply (Parse.curbed_statements hTwo _).congr
    intro b _
    apply and_congr_right
    intro _
    unfold Nested
    simp only [Nat.zero_add, Nat.add_comm maxNesting]
    rfl
  refine ⟨?_, hCurbed.fault, fun d => d.parseWithin_eq_program source⟩
  intro b hFree
  exact ⟨hCurbed.ok b hFree, hCurbed.tooDeep b hFree⟩

end DynScript
