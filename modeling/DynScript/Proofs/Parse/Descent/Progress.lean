import DynScript.Proofs.Parse.Descent.Statement
import DynScript.Proofs.Parse.Yield

/-
  Reading from a supply that never runs dry comes to an end.
  What a reader answers with took tokens and no end of the
  input, every turn after which there is another one took a
  token, and so there are no more statements in a program than
  tokens in its text.

  Key definitions include:
    * `Stmt.count`
    * `Takes`
    * `Descent.Progresses`
    * `Descent.standard`

  Main statements include:
    * `takes_of_follows`
    * `Descent.exists_program`
    * `Descent.parseWithin_eq_program`
    * `parser_progresses`
-/

namespace DynScript

------------------------------------------------------------
-- How many statements there are
------------------------------------------------------------

mutual

/- The number of statements in a statement, itself included. -/
def Stmt.count : Stmt → Nat
  | .assign _ _ => 1
  | .branch _ yes none => Stmt.countSeq yes + 1
  | .branch _ yes (some no) =>
    Stmt.countSeq yes + Stmt.countSeq no + 1
  | .function _ _ body => Stmt.countSeq body + 1
  | .ret _ => 1
  | .expr _ => 1

/- The number of statements in some, themselves included. -/
def Stmt.countSeq : List Stmt → Nat
  | [] => 0
  | s :: ss => s.count + Stmt.countSeq ss

end

/- There is no expression without tokens. -/
theorem Expr.length_yield_pos
    (e : Expr) :
    0 < e.yield.length := by
  cases e with
  | bool value => cases value <;> simp [Expr.yield]
  | _ => simp [Expr.yield]

mutual

/- Every statement has a token of its own. -/
theorem Stmt.count_le_length_yield :
    (s : Stmt) → s.count ≤ s.yield.length
  | .assign name e => by
    simp only [Stmt.count, Stmt.yield, List.length_cons]
    omega
  | .branch test yes none => by
    have hYes := Stmt.countSeq_le_length_yieldSeq yes
    simp only [Stmt.count, Stmt.yield, List.length_cons,
      List.length_append]
    omega
  | .branch test yes (some no) => by
    have hYes := Stmt.countSeq_le_length_yieldSeq yes
    have hNo := Stmt.countSeq_le_length_yieldSeq no
    simp only [Stmt.count, Stmt.yield, List.length_cons,
      List.length_append]
    omega
  | .function name params body => by
    have hBody := Stmt.countSeq_le_length_yieldSeq body
    simp only [Stmt.count, Stmt.yield, List.length_cons,
      List.length_append]
    omega
  | .ret none => by simp [Stmt.count, Stmt.yield]
  | .ret (some e) => by simp [Stmt.count, Stmt.yield]
  | .expr e => e.length_yield_pos

theorem Stmt.countSeq_le_length_yieldSeq :
    (ss : List Stmt) → Stmt.countSeq ss ≤ (Stmt.yieldSeq ss).length
  | [] => Nat.le_refl 0
  | s :: ss => by
    have hFirst := Stmt.count_le_length_yield s
    have hOthers := Stmt.countSeq_le_length_yieldSeq ss
    simp only [Stmt.countSeq, Stmt.yieldSeq, List.length_append]
    omega

end

/- A program that is read has no more statements than tokens. -/
theorem Parse.countSeq_le_of_statements
    {limit : Option Nat}
    {ending : Ending}
    {toks : List Token}
    {b : Block}
    (hLimit : ∀ n ∈ limit, 0 < n)
    (h : statements limit ending toks = .ok b) :
    Stmt.countSeq b ≤ toks.length := by
  have hYield : significant (kinds toks) = Stmt.yieldSeq b :=
    (forms_of_statements hLimit h).yields
  calc Stmt.countSeq b
      ≤ (Stmt.yieldSeq b).length := Stmt.countSeq_le_length_yieldSeq b
    _ = (significant (kinds toks)).length := by rw [hYield]
    _ ≤ (kinds toks).length := List.length_filter_le _ _
    _ = toks.length := by simp [kinds]

------------------------------------------------------------
-- Readers that take tokens
------------------------------------------------------------

/- After this turn there is another one. -/
def Turn.GoesOn
    {α β : Type} : Turn α β → Prop
  | .again _ => True
  | .done _ => False

/-
  Wherever the reader `x` stands among the tokens of `s`, it
  comes to an end and does what `read` does. When it answers,
  it has taken tokens and no end of the input, and at least one
  token where the answer is one that `counts`.
-/
structure Takes
    {α : Type}
    (s : TokenStream)
    (blocks : Nat)
    (x : Reading α)
    (read : List Token → Except ParseError (α × List Token))
    (counts : α → Prop) : Prop where
  ends :
    ∀ p toks, p.Stands s blocks toks → ∃ answer, x p = some answer
  follows :
    ∀ p toks, p.Stands s blocks toks →
      Follows s blocks x p (read toks)
  takes :
    ∀ p toks a p', p.Stands s blocks toks →
      x p = some (.ok a, p') →
        ∃ used : List Token,
          p'.supply.taken = p.supply.taken ++ used.map .token ∧
          (counts a → used ≠ [])

section Takes

variable {α : Type}
variable {s : TokenStream}
variable {blocks : Nat}
variable {x : Reading α}
variable {p : Parser}

/- Who follows a reader of lists comes to an end. -/
theorem Follows.exists_answer
    {r : Except ParseError (α × List Token)}
    (h : Follows s blocks x p r) :
    ∃ answer, x p = some answer := by
  cases h with
  | ok hAnswer _ _ => exact ⟨_, hAnswer⟩
  | fault hAnswer _ _ => exact ⟨_, hAnswer⟩

/-
  An answer is that of the reader of lists, before the tokens
  it leaves.
-/
theorem Follows.of_answer
    {r : Except ParseError (α × List Token)}
    {a : α}
    {p' : Parser}
    (h : Follows s blocks x p r)
    (hAnswer : x p = some (.ok a, p')) :
    ∃ rest, r = .ok (a, rest) ∧ p'.Stands s blocks rest := by
  cases h with
  | ok hOk hStands _ =>
      cases hOk.symm.trans hAnswer
      exact ⟨_, rfl, hStands⟩
  | fault hFault _ _ => cases hFault.symm.trans hAnswer

/-
  What a reader takes is read off the tokens that the reader of
  lists leaves.
-/
theorem takes_of_follows
    {read : List Token → Except ParseError (α × List Token)}
    {counts : α → Prop}
    (hFollows : ∀ p toks, p.Stands s blocks toks →
      Follows s blocks x p (read toks))
    (hLeft : ∀ toks a rest, read toks = .ok (a, rest) →
      rest.length ≤ toks.length ∧
        (counts a → rest.length < toks.length)) :
    Takes s blocks x read counts where
  ends p toks h := (hFollows p toks h).exists_answer
  follows := hFollows
  takes p toks a p' h hAnswer := by
    rcases (hFollows p toks h).of_answer hAnswer with
      ⟨rest, hRead, hStands⟩
    rcases hLeft toks a rest hRead with ⟨hLe, hLt⟩
    rcases h.supply.exists_used hStands.supply hLe with
      ⟨used, hToks, hTaken⟩
    refine ⟨used, hTaken, ?_⟩
    rintro hCounts rfl
    rw [hToks, List.nil_append] at hLt
    exact Nat.lt_irrefl _ (hLt hCounts)

/- A reader of lists that leaves fewer tokens takes one at least. -/
theorem takes_of_length_lt
    {read : List Token → Except ParseError (α × List Token)}
    (hFollows : ∀ p toks, p.Stands s blocks toks →
      Follows s blocks x p (read toks))
    (hLeft : ∀ toks a rest, read toks = .ok (a, rest) →
      rest.length < toks.length) :
    Takes s blocks x read fun _ => True := by
  apply takes_of_follows hFollows
  intro toks a rest hRead
  have hShorter := hLeft toks a rest hRead
  exact ⟨Nat.le_of_lt hShorter, fun _ => hShorter⟩

end Takes

------------------------------------------------------------
-- What single turns leave
------------------------------------------------------------

namespace Parse

variable {limit : Option Nat}
variable {ending : Ending}
variable {toks rest : List Token}

/- The loop of operators is over where it stands. -/
theorem eq_of_operatorTurn_done
    {least : Nat}
    {left e : Sized Expr}
    (h : operatorTurn limit ending least left toks =
      .ok (.done e, rest)) :
    rest = toks := by
  unfold operatorTurn at h
  split at h
  · rcases bind_succeeds_iff.mp h with ⟨_, _, hLast⟩
    cases hLast
    rfl
  · split at h
    · cases h
      rfl
    · split at h
      · rcases bind_succeeds_iff.mp h with ⟨p, _, hThen⟩
        rcases bind_succeeds_iff.mp hThen with ⟨e', _, hLast⟩
        cases hLast
      · cases h
        rfl

/- The loop of semicolons is over where it stands. -/
theorem eq_of_separatorTurn_done
    (h : separatorTurn ending toks = .ok (.done (), rest)) :
    rest = toks := by
  rcases bind_succeeds_iff.mp h with ⟨_, _, hLast⟩
  split at hLast
  · cases hLast
  · cases hLast
    rfl

/- The arguments of a call leave fewer tokens than there were. -/
theorem length_lt_of_callArgs
    {args : Sized (List Expr)}
    (h : (outcome (expect ending .parenL toks) >>= fun q =>
      outcome (sizedArguments limit ending q.2)) = .ok (args, rest)) :
    rest.length < toks.length := by
  rcases bind_succeeds_iff.mp h with ⟨p, hOpen, hArgs⟩
  exact Nat.lt_trans (length_lt_of_outcome hArgs)
    (length_lt_of_outcome hOpen)

/- A statement that is read leaves fewer tokens, or there is none. -/
theorem length_le_of_nextRead
    {st? : Option Stmt}
    (h : nextRead limit ending toks = .ok (st?, rest)) :
    rest.length ≤ toks.length ∧
      (st?.isSome → rest.length < toks.length) := by
  have hShorter := length_behindSeparators_le toks
  unfold nextRead at h
  split at h
  · rcases bind_succeeds_iff.mp h with ⟨_, _, hLast⟩
    cases hLast
    exact ⟨Nat.zero_le _, by rintro ⟨⟩⟩
  · next t behind hBehind =>
      rcases bind_succeeds_iff.mp h with ⟨q, hStmt, hLast⟩
      cases hLast
      rw [hBehind] at hShorter
      have hLess := Nat.lt_of_lt_of_le (length_lt_of_outcome hStmt)
        hShorter
      exact ⟨Nat.le_of_lt hLess, fun _ => hLess⟩

end Parse

------------------------------------------------------------
-- Progress
------------------------------------------------------------

namespace Descent

/-
  The readers of statements, expressions, blocks and arguments
  take tokens, and so do the turns of all loops after which
  there is another one. A turn that takes an argument, or a
  statement or brace of a block, takes a token in any case.
-/
structure Progresses
    (d : Descent)
    (s : TokenStream) : Prop where
  statement :
    ∀ depth, Takes s depth d.statement
      (fun toks =>
        outcome (Parse.statement d.limit s.ending depth toks))
      fun _ => True
  expression :
    ∀ depth, Takes s depth d.expression
      (fun toks => outcome (Parse.expression d.limit s.ending toks))
      fun _ => True
  block :
    ∀ depth, Takes s depth d.block
      (fun toks => outcome (Parse.block d.limit s.ending depth toks))
      fun _ => True
  callArgs :
    ∀ depth, Takes s depth d.callArgs
      (fun toks =>
        outcome (Parse.expect s.ending .parenL toks) >>= fun q =>
          outcome (Parse.sizedArguments d.limit s.ending q.2))
      fun _ => True
  readStatement :
    Takes s 0 d.readStatement (Parse.nextRead d.limit s.ending)
      (·.isSome)
  separatorTurn :
    ∀ depth, Takes s depth d.separatorTurn
      (Parse.separatorTurn s.ending) Turn.GoesOn
  operatorTurn :
    ∀ depth least left, Takes s depth (d.operatorTurn least left)
      (Parse.operatorTurn d.limit s.ending least left) Turn.GoesOn
  argumentTurn :
    ∀ depth args, Takes s depth (d.argumentTurn args)
      (Parse.argumentTurn d.limit s.ending args) fun _ => True
  blockTurn :
    ∀ depth body, Takes s depth (d.blockTurn body)
      (Parse.blockTurn d.limit s.ending depth body) fun _ => True
  programTurn :
    ∀ read, Takes s 0 (d.programTurn read)
      (Parse.programTurn d.limit s.ending read) Turn.GoesOn

variable (d : Descent)
variable (s : TokenStream)

theorem takes_separatorTurn
    (depth : Nat) :
    Takes s depth d.separatorTurn (Parse.separatorTurn s.ending)
      Turn.GoesOn := by
  apply takes_of_follows (fun _ _ => follows_separatorTurn)
  rintro toks (_ | _) rest hRead
  · have hShorter := Parse.length_lt_of_separatorTurn hRead
    exact ⟨Nat.le_of_lt hShorter, fun _ => hShorter⟩
  · rw [Parse.eq_of_separatorTurn_done hRead]
    exact ⟨Nat.le_refl _, False.elim⟩

theorem takes_operatorTurn
    (depth least : Nat)
    (left : Sized Expr) :
    Takes s depth (d.operatorTurn least left)
      (Parse.operatorTurn d.limit s.ending least left)
      Turn.GoesOn := by
  apply takes_of_follows
  · intro p toks
    exact follows_operatorTurn
      (fun shorter _ => (followsExpr d s depth shorter).binary)
      least left
  · rintro toks (_ | _) rest hRead
    · have hShorter := Parse.length_lt_of_operatorTurn hRead
      exact ⟨Nat.le_of_lt hShorter, fun _ => hShorter⟩
    · rw [Parse.eq_of_operatorTurn_done hRead]
      exact ⟨Nat.le_refl _, False.elim⟩

theorem takes_programTurn
    (read : Block) :
    Takes s 0 (d.programTurn read)
      (Parse.programTurn d.limit s.ending read) Turn.GoesOn := by
  apply takes_of_follows (fun _ _ => follows_programTurn read)
  rintro toks (_ | _) rest hRead
  · have hShorter := Parse.length_lt_of_programTurn hRead
    exact ⟨Nat.le_of_lt hShorter, fun _ => hShorter⟩
  · rw [Parse.eq_nil_of_programTurn hRead]
    exact ⟨Nat.zero_le _, False.elim⟩

/- All readers and all loops get on. -/
theorem progresses :
    d.Progresses s where
  statement depth :=
    takes_of_length_lt
      (fun p toks => (followsStmt d s toks).statement depth p)
      (fun _ _ _ => Parse.length_lt_of_outcome)
  expression _ :=
    takes_of_length_lt (fun _ _ => follows_expression)
      (fun _ _ _ => Parse.length_lt_of_outcome)
  block depth :=
    takes_of_length_lt
      (fun p toks => (followsStmt d s toks).block depth p)
      (fun _ _ _ => Parse.length_lt_of_outcome)
  callArgs depth :=
    takes_of_length_lt
      (fun _ _ => follows_callArgs
        fun shorter _ => followsExpr d s depth shorter)
      (fun _ _ _ => Parse.length_lt_of_callArgs)
  readStatement :=
    takes_of_follows (fun _ _ => follows_readStatement)
      (fun _ _ _ => Parse.length_le_of_nextRead)
  separatorTurn := takes_separatorTurn d s
  operatorTurn := takes_operatorTurn d s
  argumentTurn depth args :=
    takes_of_length_lt
      (fun p toks h => follows_argumentTurn args
        ((followsExpr d s depth toks).binary 0 p h))
      (fun _ _ _ => Parse.length_lt_of_argumentTurn)
  blockTurn depth body :=
    takes_of_length_lt
      (fun _ _ => follows_blockTurn depth body
        fun more p' _ => (followsStmt d s more).statement depth p')
      (fun _ _ _ => Parse.length_lt_of_blockTurn)
  programTurn := takes_programTurn d s

/-
  A program is read to its end. The answer is that of the
  reader of token lists, no block is open behind it, and no
  token is left where it is no fault.
-/
theorem exists_program :
    ∃ p, d.program [] (.ofStream s) =
        some (Parse.statements d.limit s.ending s.tokens, p) ∧
      p.blocks = 0 ∧
      ∀ b, Parse.statements d.limit s.ending s.tokens = .ok b →
        p.Stands s 0 [] := by
  have hFollows := follows_program (d := d) []
    (Parser.stands_ofStream s)
  cases hRead : Parse.statements d.limit s.ending s.tokens with
  | error e =>
      rw [hRead] at hFollows
      cases hFollows with
      | fault hAnswer hBlocks _ =>
          exact ⟨_, hAnswer, hBlocks, by rintro b ⟨⟩⟩
  | ok ss =>
      rw [hRead, ok_bind, List.nil_append] at hFollows
      cases hFollows with
      | ok hAnswer hStands _ =>
          exact ⟨_, hAnswer, hStands.blocks_eq, fun _ _ => hStands⟩

/- With the limit that source texts are read with. -/
def standard : Descent where
  limit := some maxNesting
  positive := by simp [maxNesting]

/-
  A source text is read as it is read from a supply, and no
  block is open in the end.
-/
theorem parseWithin_eq_program
    (source : String) :
    ∃ p, d.program [] (.ofStream (.ofSource source)) =
        some (parseWithin d.limit source, p) ∧
      p.blocks = 0 := by
  rcases exists_program d (.ofSource source) with
    ⟨p, hProgram, hBlocks, _⟩
  exact ⟨p, hProgram, hBlocks⟩

end Descent

/-
  Reading gets on and comes to an end on every stream: readers
  and turns of loops take tokens, and a program is read with an
  answer or a fault. The answer has no more statements, those
  inside others included, than there are tokens. All of these
  were taken, and nothing but ends of the input could be read
  from there on.
-/
theorem parser_progresses
    (d : Descent)
    (s : TokenStream) :
    d.Progresses s ∧
    ∃ p, d.program [] (.ofStream s) =
        some (Parse.statements d.limit s.ending s.tokens, p) ∧
      ∀ b, Parse.statements d.limit s.ending s.tokens = .ok b →
        Stmt.countSeq b ≤ s.tokens.length ∧
        p.supply.taken = s.tokens.map .token ∧
        ∀ n, ∃ pos p',
          Reading.peekNth n p = some (.ok (.endOfInput pos), p') := by
  refine ⟨d.progresses s, ?_⟩
  rcases d.exists_program s with ⟨p, hProgram, _, hStands⟩
  refine ⟨p, hProgram, ?_⟩
  intro b hRead
  have hBehind := hStands b hRead
  refine ⟨Parse.countSeq_le_of_statements d.positive hRead, ?_, ?_⟩
  · rcases hBehind.supply.exists_taken with ⟨taken, hTaken, hTokens⟩
    rw [hTaken, hTokens, List.append_nil]
  · intro n
    cases hEnding : s.ending with
    | endOfInput pos =>
        rcases hBehind.peekNth_end hEnding n with ⟨p', hPeek, _⟩
        exact ⟨pos, p', hPeek⟩
    | failed e =>
        have hLook := Parse.look_of_statements hRead
        rw [hEnding] at hLook
        cases hLook

end DynScript
