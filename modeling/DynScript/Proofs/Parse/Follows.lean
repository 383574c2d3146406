import DynScript.Proofs.Parse.Locality

/-
  Readers of a supply compared with readers of token lists. A
  reader of a supply follows one of lists when it answers the
  same and stands behind the same tokens, or fails the same;
  either way as many blocks are open as before, and the stream
  matters only as far as it was pulled.

  Key definitions include:
    * `Follows`

  Main statements include:
    * `Follows.bind`
    * `Follows.inBlock`
    * `Follows.guarded`
    * `Follows.behind_peekNth`
    * `Follows.peek_token`
    * `Follows.peek_end`
    * `Follows.behind_expect`
    * `Follows.behind_eat`
-/

namespace DynScript

/-
  From the parser `p` the reader `x` gives what `r` says, the
  answer with the tokens that are left or the fault.
-/
inductive Follows
    {α : Type}
    (s : TokenStream)
    (blocks : Nat)
    (x : Reading α)
    (p : Parser) : Except ParseError (α × List Token) → Prop where
  | ok
      {a : α}
      {p' : Parser}
      {rest : List Token}
      (hAnswer : x p = some (.ok a, p'))
      (hStands : p'.Stands s blocks rest)
      (hLocal : Local s x p) :
      Follows s blocks x p (.ok (a, rest))
  | fault
      {e : ParseError}
      {p' : Parser}
      (hAnswer : x p = some (.error e, p'))
      (hBlocks : p'.blocks = blocks)
      (hLocal : Local s x p) :
      Follows s blocks x p (.error e)

section Follows

variable {α β : Type}
variable {s : TokenStream}
variable {blocks : Nat}
variable {p : Parser}
variable {toks rest : List Token}

open Reading

------------------------------------------------------------
-- Sequences
------------------------------------------------------------

/- An answer without reading. -/
theorem follows_pure
    (h : p.Stands s blocks toks)
    (a : α) :
    Follows s blocks (pure a) p (.ok (a, toks)) :=
  .ok rfl h (local_test (.ok a) p)

theorem follows_fail
    (h : p.Stands s blocks toks)
    (e : ParseError) :
    Follows s blocks (fail e : Reading α) p (.error e) :=
  .fault rfl h.blocks_eq (local_test _ p)

theorem Follows.local
    {x : Reading α}
    {r : Except ParseError (α × List Token)}
    (h : Follows s blocks x p r) :
    Local s x p := by
  cases h with
  | ok hAnswer hStands hLocal => exact hLocal
  | fault hAnswer hBlocks hLocal => exact hLocal

/- What stands behind a reader that answers. -/
theorem Follows.behind_ok
    {x : Reading α}
    {f : α → Reading β}
    {a : α}
    {p' : Parser}
    {r : Except ParseError (β × List Token)}
    (hAnswer : x p = some (.ok a, p'))
    (hLocal : Local s x p)
    (h : Follows s blocks (f a) p' r) :
    Follows s blocks (x >>= f) p r := by
  have hBoth : Local s (x >>= f) p := by
    apply hLocal.bind
    intro a' p'' hAnswer'
    cases hAnswer.symm.trans hAnswer'
    exact h.local
  cases h with
  | ok hAnswer' hStands _ =>
      exact .ok ((bind_of_ok hAnswer f).trans hAnswer') hStands hBoth
  | fault hAnswer' hBlocks _ =>
      exact .fault ((bind_of_ok hAnswer f).trans hAnswer') hBlocks hBoth

/- Nothing stands behind one that fails. -/
theorem Follows.behind_fault
    {x : Reading α}
    {f : α → Reading β}
    {e : ParseError}
    {p' : Parser}
    (hAnswer : x p = some (.error e, p'))
    (hBlocks : p'.blocks = blocks)
    (hLocal : Local s x p) :
    Follows s blocks (x >>= f) p (.error e) := by
  refine .fault (bind_of_error hAnswer f) hBlocks (hLocal.bind ?_)
  intro a p'' hAnswer'
  cases hAnswer.symm.trans hAnswer'

/- Two readers one after the other. -/
theorem Follows.bind
    {x : Reading α}
    {f : α → Reading β}
    {r : Except ParseError (α × List Token)}
    {g : α × List Token → Except ParseError (β × List Token)}
    (h : Follows s blocks x p r)
    (hNext : ∀ a rest p', r = .ok (a, rest) →
      p'.Stands s blocks rest →
        Follows s blocks (f a) p' (g (a, rest))) :
    Follows s blocks (x >>= f) p (r >>= g) := by
  cases h with
  | ok hAnswer hStands hLocal =>
      exact .behind_ok hAnswer hLocal (hNext _ _ _ rfl hStands)
  | fault hAnswer hBlocks hLocal =>
      exact .behind_fault hAnswer hBlocks hLocal

/- An answer that is put into another one. -/
theorem Follows.map
    {x : Reading α}
    {r : Except ParseError (α × List Token)}
    (h : Follows s blocks x p r)
    (f : α → β) :
    Follows s blocks (x >>= fun a => pure (f a)) p
      (r >>= fun q => .ok (f q.1, q.2)) := by
  apply h.bind
  intro a rest p' _ hStands
  exact follows_pure hStands (f a)

/- A test before a reader. -/
theorem Follows.behind_test
    {x : Except ParseError α}
    {f : α → Reading β}
    {g : α → Except ParseError (β × List Token)}
    (h : p.Stands s blocks toks)
    (hNext : ∀ a, x = .ok a → Follows s blocks (f a) p (g a)) :
    Follows s blocks (test x >>= f) p (x >>= g) := by
  cases x with
  | error e => exact .behind_fault rfl h.blocks_eq (local_test _ p)
  | ok a => exact .behind_ok rfl (local_test _ p) (hNext a rfl)

------------------------------------------------------------
-- Blocks and calls
------------------------------------------------------------

/- As many blocks are open as was said. -/
theorem Follows.behind_openBlocks
    {f : Nat → Reading β}
    {r : Except ParseError (β × List Token)}
    (h : p.Stands s blocks toks)
    (hNext : Follows s blocks (f blocks) p r) :
    Follows s blocks (openBlocks >>= f) p r := by
  have hAnswer : openBlocks p = some (.ok blocks, p) := by
    rw [openBlocks, h.blocks_eq]
  exact .behind_ok hAnswer (local_openBlocks p) hNext

/-
  Inside a block one more is open, and behind it, or where
  reading it fails, as many as before.
-/
theorem Follows.inBlock
    {x : Reading α}
    {r : Except ParseError (α × List Token)}
    (h : p.Stands s blocks toks)
    (hInside : ∀ p', p'.Stands s (blocks + 1) toks →
      Follows s (blocks + 1) x p' r) :
    Follows s blocks (enterBlock >>= fun _ => inBlock x) p r := by
  have hEnter :
      enterBlock p = some (.ok (), { p with blocks := p.blocks + 1 }) :=
    rfl
  apply Follows.behind_ok hEnter (local_enterBlock p)
  cases hInside _ h.enter with
  | ok hAnswer hStands hLocal =>
      exact .ok (inBlock_of_some hAnswer) hStands.leave hLocal.inBlock
  | fault hAnswer hBlocks hLocal =>
      exact .fault (inBlock_of_some hAnswer)
        (congrArg (· - 1) hBlocks) hLocal.inBlock

/- A call of a parser that has not stopped. -/
theorem Follows.guarded
    {x : Reading α}
    {r : Except ParseError (α × List Token)}
    (hRunning : p.halted = false)
    (h : Follows s blocks x p r) :
    Follows s blocks (guarded x) p r := by
  cases h with
  | ok hAnswer hStands hLocal =>
      exact .ok (guarded_of_some hRunning hAnswer) hStands
        (hLocal.guarded hRunning)
  | fault hAnswer hBlocks hLocal =>
      exact .fault (guarded_of_some hRunning hAnswer) hBlocks
        (hLocal.guarded hRunning)

------------------------------------------------------------
-- Single items
------------------------------------------------------------

/- Looking at an item, wherever it stands. -/
theorem Follows.behind_peekNth
    {f : Item → Reading β}
    {r : Except ParseError (β × List Token)}
    (n : Nat)
    (h : p.Stands s blocks toks)
    (hNext : ∀ item p',
      Supply.itemAt s.ending toks n = .ok item →
        p'.Stands s blocks toks → Follows s blocks (f item) p' r)
    (hFault : ∀ e, Supply.itemAt s.ending toks n = .error e →
      r = .error e) :
    Follows s blocks (peekNth n >>= f) p r := by
  rcases h.peekNth n with
    ⟨p', item, hPeek, hStands, hAhead⟩ |
    ⟨e, p', hPeek, hBlocks, hEnd⟩
  · have hItem := hStands.supply.itemAt_of_ahead hAhead
    exact .behind_ok hPeek (local_peekNth n p)
      (hNext item p' hItem hStands)
  · rw [hFault e hEnd]
    exact .behind_fault hPeek hBlocks (local_peekNth n p)

/- The next item where a token comes next. -/
theorem Follows.peek_token
    {t : Token}
    {f : Item → Reading β}
    {r : Except ParseError (β × List Token)}
    (h : p.Stands s blocks (t :: rest))
    (hNext : ∀ p', p'.Stands s blocks (t :: rest) →
      Follows s blocks (f (.token t)) p' r) :
    Follows s blocks (peek >>= f) p r := by
  apply Follows.behind_peekNth 0 h
  · intro item p' hItem hStands
    rcases Except.ok.inj hItem with rfl
    exact hNext p' hStands
  · intro e hFault
    cases hFault

/- The next item where only the end of the input is left. -/
theorem Follows.peek_end
    {f : Item → Reading β}
    {r : Except ParseError (β × List Token)}
    (h : p.Stands s blocks [])
    (hNext : ∀ pos p', s.ending = .endOfInput pos →
      p'.Stands s blocks [] →
        Follows s blocks (f (.endOfInput pos)) p' r)
    (hFault : ∀ e, s.ending = .failed e → r = .error (.lex e)) :
    Follows s blocks (peek >>= f) p r := by
  apply Follows.behind_peekNth 0 h
  · intro item p' hItem hStands
    rcases Supply.exists_end_of_itemAt hItem (Nat.le_refl 0) with
      ⟨pos, hEnding, rfl⟩
    exact hNext pos p' hEnding hStands
  · intro e hItem
    rcases Supply.exists_fault_of_itemAt hItem with
      ⟨_, fault, hEnding, rfl⟩
    exact hFault fault hEnding

/- A token that is taken. -/
theorem Follows.advance_token
    {t : Token}
    {f : Item → Reading β}
    {r : Except ParseError (β × List Token)}
    (h : p.Stands s blocks (t :: rest))
    (hNext : ∀ p', p'.Stands s blocks rest →
      Follows s blocks (f (.token t)) p' r) :
    Follows s blocks (advance >>= f) p r := by
  rcases h.advance with ⟨p', hAdvance, hStands⟩
  exact .behind_ok hAdvance (local_advance p) (hNext p' hStands)

/- The end of the input may be taken only to fail. -/
theorem Follows.advance_end
    {f : Item → Reading β}
    {expected : Expected}
    (h : p.Stands s blocks [])
    (hNext : ∀ pos,
      f (.endOfInput pos) =
        fail (.unexpected expected .endOfInput pos)) :
    Follows s blocks (advance >>= f) p
      (.error (s.ending.fault expected)) := by
  rcases h.advance_end with
    ⟨pos, p', hEnding, hBlocks, hAdvance⟩ |
    ⟨e, p', hEnding, hBlocks, hAdvance⟩
  · rw [hEnding]
    apply Follows.behind_ok hAdvance (local_advance p)
    rw [hNext pos]
    exact .fault rfl hBlocks (local_test _ p')
  · rw [hEnding]
    exact .behind_fault hAdvance hBlocks (local_advance p)

------------------------------------------------------------
-- Symbols
------------------------------------------------------------

/- A symbol that must come next, and does. -/
theorem Follows.expect_token
    {symbol : Symbol}
    {t : Token}
    {f : Item → Reading β}
    {r : Except ParseError (β × List Token)}
    (h : p.Stands s blocks (t :: rest))
    (hKind : t.kind = .symbol symbol)
    (hNext : ∀ p', p'.Stands s blocks rest →
      Follows s blocks (f (.token t)) p' r) :
    Follows s blocks (expect symbol >>= f) p r := by
  unfold Reading.expect
  rw [bind_assoc]
  apply Follows.peek_token h
  intro p' hStands
  rw [Item.kind?_token, if_pos (congrArg some hKind)]
  exact Follows.advance_token hStands hNext

/- A fault, with or without more to be read behind it. -/
theorem follows_fail_bind
    {f : α → Reading β}
    (h : p.Stands s blocks toks)
    (e : ParseError) :
    Follows s blocks (fail e >>= f) p (.error e) :=
  .behind_fault rfl h.blocks_eq (local_test _ p)

/- A symbol that must come next. -/
theorem Follows.behind_expect
    {symbol : Symbol}
    {f : Item → Reading β}
    {g : Unit × List Token → Except ParseError (β × List Token)}
    (h : p.Stands s blocks toks)
    (hNext : ∀ t rest p', toks = t :: rest →
      t.kind = .symbol symbol → p'.Stands s blocks rest →
        Follows s blocks (f (.token t)) p' (g ((), rest))) :
    Follows s blocks (expect symbol >>= f) p
      (outcome (Parse.expect s.ending symbol toks) >>= g) := by
  cases toks with
  | nil =>
      unfold Reading.expect
      rw [bind_assoc]
      apply Follows.peek_end h
      · intro pos p' hEnding hStands
        rw [hEnding, if_neg (by rintro ⟨⟩)]
        exact follows_fail_bind hStands _
      · intro e hEnding
        rw [hEnding]
        rfl
  | cons t rest =>
      by_cases hKind : t.kind = .symbol symbol
      · rw [Parse.outcome_expect_of_eq rest hKind, ok_bind]
        apply Follows.expect_token h hKind
        intro p' hRest
        exact hNext t rest p' rfl hKind hRest
      · unfold Reading.expect
        rw [bind_assoc]
        apply Follows.peek_token h
        intro p' hStands
        rw [Item.kind?_token,
          if_neg fun hSome => hKind (Option.some.inj hSome),
          Parse.expect, if_neg hKind]
        exact follows_fail_bind hStands _

/- A symbol that may come next. -/
theorem Follows.behind_eat
    {symbol : Symbol}
    {f : Bool → Reading β}
    {r : Except ParseError (β × List Token)}
    (h : p.Stands s blocks toks)
    (hTaken : ∀ t rest p', toks = t :: rest →
      t.kind = .symbol symbol → p'.Stands s blocks rest →
        Follows s blocks (f true) p' r)
    (hOther : ∀ p', (∀ t ∈ toks.head?, t.kind ≠ .symbol symbol) →
      toks ≠ [] ∨ s.ending.look = .ok () →
        p'.Stands s blocks toks → Follows s blocks (f false) p' r)
    (hFault : ∀ e, toks = [] → s.ending = .failed e →
      r = .error (.lex e)) :
    Follows s blocks (eat symbol >>= f) p r := by
  unfold Reading.eat
  rw [bind_assoc]
  cases toks with
  | nil =>
      apply Follows.peek_end h
      · intro pos p' hEnding hStands
        rw [Item.kind?_endOfInput, if_neg (by rintro ⟨⟩), pure_bind]
        exact hOther p' (by rintro t ⟨⟩) (.inr (by rw [hEnding]; rfl))
          hStands
      · exact fun e => hFault e rfl
  | cons t rest =>
      apply Follows.peek_token h
      intro p' hStands
      rw [Item.kind?_token]
      by_cases hKind : t.kind = .symbol symbol
      · rw [if_pos (congrArg some hKind), bind_assoc]
        apply Follows.advance_token hStands
        intro p₁ hRest
        rw [pure_bind]
        exact hTaken t rest p₁ rfl hKind hRest
      · rw [if_neg fun hSome => hKind (Option.some.inj hSome), pure_bind]
        refine hOther p' ?_ (.inl (List.cons_ne_nil t rest)) hStands
        intro u hHead
        rcases Option.some.inj hHead with rfl
        exact hKind

end Follows

end DynScript
