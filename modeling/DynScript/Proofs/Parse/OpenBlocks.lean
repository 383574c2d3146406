import DynScript.Parse.Stmt
import DynScript.Proofs.Parse.Results

/-
  The readers of statements give back the number of open
  blocks that they were given. A block takes off what it has
  added, so the blocks of a conditional, those behind `else`
  and those of a chain of conditionals are all opened where
  equally many are open.

  Key definitions include:
    * `Counted.Restores`

  Main statements include:
    * `Parse.restores_countedBlock`
    * `Parse.restores_countedConditional`
    * `Parse.restores_countedStatement`
    * `Parse.restores_countedNext`
    * `Parse.restores_countedStatements`
-/

namespace DynScript

/- As many blocks are open as were before. -/
def Counted.Restores
    {α : Type}
    (blocks : Nat)
    (c : Counted α) : Prop :=
  c.blocks = blocks

/- Then what was read determines the result. -/
theorem Counted.Restores.eq
    {α : Type}
    {blocks : Nat}
    {c : Counted α}
    (h : c.Restores blocks) :
    c = ⟨c.value, blocks⟩ :=
  congrArg (Counted.mk c.value) h

/- Two readers, the second with the number the first gives back. -/
theorem Counted.Restores.gives
    {α β : Type}
    {n : Nat}
    {c : Counted α}
    {blocks : Nat}
    {r : Except ParseError (Parsed (Counted β) n)}
    (hFirst : c.Restores blocks)
    (hSecond : Gives (Counted.Restores c.blocks) r) :
    Gives (Counted.Restores blocks) r := by
  intro p hRead
  exact (hSecond p hRead).trans hFirst

namespace Parse

variable {limit : Option Nat}
variable {ending : Ending}

------------------------------------------------------------
-- One block
------------------------------------------------------------

/- What a block has added is taken off behind it. -/
theorem restores_close
    {body : Counted Block}
    {blocks : Nat}
    (h : body.Restores (blocks + 1)) :
    Counted.Restores blocks ⟨body.value, body.blocks - 1⟩ := by
  show body.blocks - 1 = blocks
  rw [show body.blocks = blocks + 1 from h, Nat.add_sub_cancel]

------------------------------------------------------------
-- Statements
------------------------------------------------------------

/-
  By recursion along the readers. The number rises and falls
  only in blocks; everything else hands it on.
-/
mutual

theorem restores_countedStatement
    (blocks : Nat)
    (toks : List Token) :
    Gives (Counted.Restores blocks)
      (countedStatement limit ending blocks toks) := by
  rw [countedStatement]
  refine (restores_countedBareStatement blocks toks).bind
    fun p hBare => ?_
  exact gives_bind fun q _ => gives_ok hBare
termination_by (toks.length, 2)

theorem restores_countedBareStatement
    (blocks : Nat)
    (toks : List Token) :
    Gives (Counted.Restores blocks)
      (countedBareStatement limit ending blocks toks) := by
  unfold countedBareStatement
  split
  · exact gives_bind fun p _ => gives_ok rfl
  · next rest =>
    refine (restores_countedConditional blocks rest).bind
      fun p hBranch => ?_
    exact gives_ok hBranch
  · exact gives_bind fun p _ => gives_ok rfl
  · exact restores_countedCallOrDefinition blocks _
termination_by (toks.length, 1)

theorem restores_countedCallOrDefinition
    (blocks : Nat)
    (toks : List Token) :
    Gives (Counted.Restores blocks)
      (countedCallOrDefinition limit ending blocks toks) := by
  rw [countedCallOrDefinition]
  refine gives_bind fun p _ => ?_
  have hShorter := p.lt
  dsimp only
  split
  · refine gives_bind fun params _ => ?_
    refine (restores_countedBlock blocks p.rest).bind
      fun q hBody => ?_
    exact gives_ok hBody
  · exact gives_ok rfl
termination_by (toks.length, 0)

theorem restores_countedConditional
    (blocks : Nat)
    (toks : List Token) :
    Gives (Counted.Restores blocks)
      (countedConditional limit ending blocks toks) := by
  rw [countedConditional]
  refine gives_bind fun p _ => ?_
  have hTest := p.lt
  refine (restores_countedBlock blocks p.rest).bind
    fun q hYes => ?_
  have hShorter := q.lt
  refine gives_bind fun _ _ => ?_
  dsimp only
  split
  · exact gives_ok hYes
  · next other hOther _ =>
    split
    · next chain hChain _ =>
      have hLast :=
        restores_countedConditional q.value.blocks chain
      refine (hYes.gives hLast).bind fun s hChained => ?_
      exact gives_ok hChained
    · have hLast := restores_countedBlock q.value.blocks other
      refine (hYes.gives hLast).bind fun no hNo => ?_
      exact gives_ok hNo
termination_by (toks.length, 0)

theorem restores_countedBlock
    (blocks : Nat)
    (toks : List Token) :
    Gives (Counted.Restores blocks)
      (countedBlock limit ending blocks toks) := by
  match toks with
  | [] =>
      rw [countedBlock]
      exact gives_error _
  | t :: rest =>
      rw [countedBlock]
      split
      · refine gives_bind fun _ _ => ?_
        refine (restores_countedBlockBody (blocks + 1) rest).bind
          fun p hBody => ?_
        exact gives_ok (restores_close hBody)
      · exact gives_error _
termination_by (toks.length, 0)

theorem restores_countedBlockBody
    (blocks : Nat)
    (toks : List Token) :
    Gives (Counted.Restores blocks)
      (countedBlockBody limit ending blocks toks) := by
  match toks with
  | [] =>
      rw [countedBlockBody]
      exact gives_error _
  | t :: rest =>
      rw [countedBlockBody]
      split
      · refine (restores_countedBlockBody blocks rest).bind
          fun p hOthers => ?_
        exact gives_ok hOthers
      · split
        · exact gives_ok rfl
        · refine (restores_countedStatement blocks (t :: rest)).bind
            fun p hFirst => ?_
          have hShorter := p.lt
          have hLast :=
            restores_countedBlockBody p.value.blocks p.rest
          refine (hFirst.gives hLast).bind
            fun q hOthers => ?_
          exact gives_ok hOthers
termination_by (toks.length, 3)

end

------------------------------------------------------------
-- Programs
------------------------------------------------------------

/- Between the statements of a program as many blocks are open. -/
theorem restores_countedNext
    (blocks : Nat)
    (toks : List Token)
    (p : Parsed (Counted Stmt) toks.length)
    (h : countedNext limit ending blocks toks = .ok (some p)) :
    p.value.Restores blocks := by
  induction toks with
  | nil =>
      rw [countedNext] at h
      rcases bind_succeeds_iff.mp h with ⟨_, _, hLast⟩
      cases hLast
  | cons t rest ih =>
      rw [countedNext] at h
      split at h
      · rcases bind_succeeds_iff.mp h with ⟨_ | q, hNext, hLast⟩
        · cases hLast
        · rcases Option.some.inj (Except.ok.inj hLast) with rfl
          exact ih q hNext
      · rcases bind_succeeds_iff.mp h with ⟨q, hFirst, hLast⟩
        cases hLast
        exact restores_countedStatement blocks _ p hFirst

/- So they are behind all of its statements. -/
theorem restores_countedStatements
    (blocks : Nat)
    (toks : List Token)
    (ss : Counted Block)
    (h : countedStatements limit ending blocks toks = .ok ss) :
    ss.Restores blocks := by
  rw [countedStatements] at h
  rcases bind_succeeds_iff.mp h with ⟨_ | p, hNext, hOthers⟩
  · cases hOthers
    rfl
  · have hFirst := restores_countedNext blocks toks p hNext
    rcases bind_succeeds_iff.mp hOthers with ⟨others, hRead, hLast⟩
    have hShorter := p.lt
    have hOpen :=
      restores_countedStatements p.value.blocks p.rest others hRead
    cases hLast
    exact hOpen.trans hFirst
termination_by toks.length

end Parse

end DynScript
