import DynScript.Proofs.Parse.Supply

/-
  Readers of a supply. A reader changes the state of a parser:
  its supply, the number of blocks that are open, and whether
  it has stopped. It may fail, and the state is kept where it
  does; it may also never give an answer at all, because a
  supply never runs dry.

  Key definitions include:
    * `Parser`
    * `Reading`
    * `Reading.peekNth`
    * `Reading.advance`
    * `Reading.expect`
    * `Reading.eat`
    * `Reading.leaveBlock`
    * `Reading.guarded`
    * `Turn`
    * `Parser.Stands`

  Main statements include:
    * `Reading.bind_of_ok`
    * `Reading.bind_of_error`
    * `Reading.guarded_of_halted`
    * `Reading.guarded_of_some`
    * `Parser.Stands.peekNth`
    * `Parser.Stands.advance`
-/

namespace DynScript

------------------------------------------------------------
-- Readers
------------------------------------------------------------

/- The state of a parser. -/
structure Parser where
  supply : Supply
  blocks : Nat
  halted : Bool

/- A parser at the beginning of a stream. -/
def Parser.ofStream
    (s : TokenStream) : Parser :=
  ⟨.ofStream s, 0, false⟩

/-
  A reader changes the state of a parser, also where it fails.
  It gives nothing when it reads on forever.
-/
abbrev Reading :=
  ExceptT ParseError (StateT Parser Option)

/-
  How one turn of a loop ends: there is another one, or the
  loop is over.
-/
inductive Turn
    (α β : Type) where
  | again (a : α)
  | done (b : β)

namespace Reading

variable {α β : Type}

/- A step of the supply. -/
def onSupply
    (f : Supply → Except ParseError α × Supply) : Reading α :=
  fun p => some ((f p.supply).1, { p with supply := (f p.supply).2 })

/- The result of a test that reads nothing. -/
def test
    (x : Except ParseError α) : Reading α :=
  fun p => some (x, p)

/- Give up. -/
def fail
    (e : ParseError) : Reading α :=
  test (.error e)

------------------------------------------------------------
-- Items
------------------------------------------------------------

/- Look at one more item. -/
def pull : Reading Unit :=
  onSupply Supply.pull

/- Look at some more items. -/
def fill : Nat → Reading Unit
  | 0 => pure ()
  | n + 1 => pull >>= fun _ => fill n

/- The items that were looked at and not taken. -/
def ahead : Reading (List Item) :=
  fun p => some (.ok p.supply.ahead, p)

/- Look at the item with a number, counted from the next one. -/
def peekNth
    (n : Nat) : Reading Item := do
  let looked ← ahead
  fill (n + 1 - looked.length)
  let looked ← ahead
  match looked[n]? with
  | some item => return item
  | none => fail .halted

/- Look at the next item. -/
def peek : Reading Item :=
  peekNth 0

/- Take the next item. -/
def advance : Reading Item := do
  let _ ← peek
  onSupply Supply.take

/- Take the next item, which must be the symbol `symbol`. -/
def expect
    (symbol : Symbol) : Reading Item := do
  let item ← peek
  if item.kind? = some (.symbol symbol) then
    advance
  else
    fail (item.fault (.symbol symbol))

/-
  Take the next item if it is the symbol `symbol`, and say
  whether it was.
-/
def eat
    (symbol : Symbol) : Reading Bool := do
  if (← peek).kind? = some (.symbol symbol) then
    let _ ← advance
    return true
  else
    return false

------------------------------------------------------------
-- Blocks and calls
------------------------------------------------------------

/- The number of blocks that are open. -/
def openBlocks : Reading Nat :=
  fun p => some (.ok p.blocks, p)

/- One more block is open. -/
def enterBlock : Reading Unit :=
  fun p => some (.ok (), { p with blocks := p.blocks + 1 })

/- One block less is open, whatever came of its statements. -/
def leaveBlock
    (result : Except ParseError α) : Reading α :=
  fun p => some (result, { p with blocks := p.blocks - 1 })

/- A reader inside a block. -/
def inBlock
    (x : Reading α) : Reading α :=
  (ExceptT.run x >>= leaveBlock :
    StateT Parser Option (Except ParseError α))

/-
  A call from outside. A parser that has stopped only says so,
  and a fault stops it.
-/
def guarded
    (x : Reading α) : Reading α := fun p =>
  if p.halted then
    some (.error .halted, p)
  else
    (x p).map fun r =>
      match r.1 with
      | .ok a => (.ok a, r.2)
      | .error e => (.error e, { r.2 with halted := true })

------------------------------------------------------------
-- Readers one after the other
------------------------------------------------------------

/- A reader behind one that answers. -/
theorem bind_of_ok
    {x : Reading α}
    {p p' : Parser}
    {a : α}
    (h : x p = some (.ok a, p'))
    (f : α → Reading β) :
    (x >>= f) p = f a p' := by
  change Option.bind (x p) _ = _
  rw [h]
  rfl

/- A reader behind one that fails. -/
theorem bind_of_error
    {x : Reading α}
    {p p' : Parser}
    {e : ParseError}
    (h : x p = some (.error e, p'))
    (f : α → Reading β) :
    (x >>= f) p = some (.error e, p') := by
  change Option.bind (x p) _ = _
  rw [h]
  rfl

/- A reader behind one that reads on forever. -/
theorem bind_of_none
    {x : Reading α}
    {p : Parser}
    (h : x p = none)
    (f : α → Reading β) :
    (x >>= f) p = none := by
  change Option.bind (x p) _ = _
  rw [h]
  rfl

/- Behind a block the number falls, also where it failed. -/
theorem inBlock_of_some
    {x : Reading α}
    {p p' : Parser}
    {r : Except ParseError α}
    (h : x p = some (r, p')) :
    inBlock x p = some (r, { p' with blocks := p'.blocks - 1 }) := by
  change Option.bind (x p) _ = _
  rw [h]
  rfl

theorem inBlock_of_none
    {x : Reading α}
    {p : Parser}
    (h : x p = none) :
    inBlock x p = none := by
  change Option.bind (x p) _ = _
  rw [h]
  rfl

/- A parser that has stopped stays as it is. -/
theorem guarded_of_halted
    {p : Parser}
    (h : p.halted = true)
    (x : Reading α) :
    guarded x p = some (.error .halted, p) := by
  rw [guarded, if_pos h]

/- The state behind a call, which a fault stops. -/
def behindCall
    (r : Except ParseError α)
    (p : Parser) : Parser :=
  match r with
  | .ok _ => p
  | .error _ => { p with halted := true }

/- A call of a parser that has not stopped. -/
theorem guarded_of_some
    {x : Reading α}
    {p p' : Parser}
    {r : Except ParseError α}
    (hRunning : p.halted = false)
    (h : x p = some (r, p')) :
    guarded x p = some (r, behindCall r p') := by
  rw [guarded, if_neg (by rw [hRunning]; decide), h]
  cases r with
  | ok a => rfl
  | error e => rfl

theorem guarded_of_none
    {x : Reading α}
    {p : Parser}
    (hRunning : p.halted = false)
    (h : x p = none) :
    guarded x p = none := by
  rw [guarded, if_neg (by rw [hRunning]; decide), h]
  rfl

end Reading

------------------------------------------------------------
-- Where a parser stands
------------------------------------------------------------

/-
  A parser that has not stopped, before the tokens `toks` of
  the stream `s`, where `blocks` are open.
-/
structure Parser.Stands
    (s : TokenStream)
    (blocks : Nat)
    (p : Parser)
    (toks : List Token) : Prop where
  supply : p.supply.Stands s toks
  blocks_eq : p.blocks = blocks
  running : p.halted = false

namespace Parser

open Reading

variable {s : TokenStream}
variable {blocks : Nat}
variable {p p' : Parser}
variable {toks rest : List Token}

theorem stands_ofStream
    (s : TokenStream) :
    Stands s 0 (ofStream s) s.tokens :=
  ⟨Supply.stands_ofStream s, rfl, rfl⟩

/- Another supply of the same stream. -/
theorem Stands.supplied
    {b : Supply}
    (h : Stands s blocks p toks)
    (hSupply : b.Stands s rest) :
    Stands s blocks { p with supply := b } rest :=
  ⟨hSupply, h.blocks_eq, h.running⟩

/- One more block, or one less. -/
theorem Stands.enter
    (h : Stands s blocks p toks) :
    Stands s (blocks + 1) { p with blocks := p.blocks + 1 } toks :=
  ⟨h.supply, congrArg (· + 1) h.blocks_eq, h.running⟩

theorem Stands.leave
    (h : Stands s (blocks + 1) p toks) :
    Stands s blocks { p with blocks := p.blocks - 1 } toks :=
  ⟨h.supply, congrArg (· - 1) h.blocks_eq, h.running⟩

/- Looking at more items, up to a fault. -/
theorem Stands.fill
    (h : Stands s blocks p toks)
    (n : Nat) :
    (∃ p', Reading.fill n p = some (.ok (), p') ∧
      Stands s blocks p' toks ∧
        p'.supply.ahead.length = p.supply.ahead.length + n) ∨
      ∃ e i p', Reading.fill n p = some (.error e, p') ∧
        p'.blocks = blocks ∧ p.supply.ahead.length ≤ i ∧
        i < p.supply.ahead.length + n ∧
        Supply.itemAt s.ending toks i = .error e := by
  induction n generalizing p with
  | zero => exact .inl ⟨p, rfl, h, rfl⟩
  | succ n ih =>
      rw [Reading.fill]
      rcases h.supply.pull with
        ⟨b, item, hPull, hStands, _, hAhead⟩ | ⟨e, b, hPull, hFault⟩
      · have hStep : pull p = some (.ok (), { p with supply := b }) := by
          rw [pull, onSupply, hPull]
        have hLength : b.ahead.length = p.supply.ahead.length + 1 := by
          rw [hAhead, List.length_append, List.length_singleton]
        rw [bind_of_ok hStep]
        rcases ih (h.supplied hStands) with
          ⟨p', hFill, hStands', hMore⟩ |
          ⟨e, i, p', hFill, hBlocks, hNew, hPlace, hFault⟩
        · exact .inl ⟨p', hFill, hStands', by dsimp only at hMore; omega⟩
        · dsimp only at hNew hPlace
          exact .inr ⟨e, i, p', hFill, hBlocks, by omega, by omega,
            hFault⟩
      · have hStep :
            pull p = some (.error e, { p with supply := b }) := by
          rw [pull, onSupply, hPull]
        rw [bind_of_error hStep]
        exact .inr ⟨e, _, _, rfl, h.blocks_eq, Nat.le_refl _, by omega,
          hFault⟩

/- Looking at an item finds what stands at its place. -/
theorem Stands.peekNth
    (h : Stands s blocks p toks)
    (n : Nat) :
    (∃ p' item, Reading.peekNth n p = some (.ok item, p') ∧
        Stands s blocks p' toks ∧ p'.supply.ahead[n]? = some item) ∨
      ∃ e p', Reading.peekNth n p = some (.error e, p') ∧
        p'.blocks = blocks ∧
        Supply.itemAt s.ending toks n = .error e := by
  rw [Reading.peekNth]
  have hAhead : ahead p = some (.ok p.supply.ahead, p) := rfl
  rw [bind_of_ok hAhead]
  rcases h.fill (n + 1 - p.supply.ahead.length) with
    ⟨p', hFill, hStands, hLength⟩ |
    ⟨e, i, p', hFill, hBlocks, hNew, hPlace, hFault⟩
  · left
    have hPlace : n < p'.supply.ahead.length := by omega
    have hItem := List.getElem?_eq_getElem hPlace
    have hAhead' : ahead p' = some (.ok p'.supply.ahead, p') := rfl
    refine ⟨p', p'.supply.ahead[n], ?_, hStands, hItem⟩
    rw [bind_of_ok hFill, bind_of_ok hAhead', hItem]
    rfl
  · right
    refine ⟨e, p', ?_, hBlocks,
      Supply.itemAt_error_of_le hFault (by omega)⟩
    rw [bind_of_error hFill]

/- Behind the last token there is an end at every place. -/
theorem Stands.peekNth_end
    {pos : Position}
    (h : Stands s blocks p [])
    (hEnding : s.ending = .endOfInput pos)
    (n : Nat) :
    ∃ p', Reading.peekNth n p = some (.ok (.endOfInput pos), p') ∧
      Stands s blocks p' [] := by
  rcases h.peekNth n with
    ⟨p', item, hPeek, hStands, hAhead⟩ | ⟨e, p', _, _, hFault⟩
  · have hItem := hStands.supply.itemAt_of_ahead hAhead
    rw [hEnding, Supply.itemAt_endOfInput (Nat.zero_le n)] at hItem
    rcases Except.ok.inj hItem with rfl
    exact ⟨p', hPeek, hStands⟩
  · rw [hEnding, Supply.itemAt_endOfInput (Nat.zero_le n)] at hFault
    cases hFault

/- What was looked at is there to be taken. -/
theorem ahead_ne_nil
    {item : Item}
    (h : p.supply.ahead[0]? = some item) :
    p.supply.ahead ≠ [] := by
  intro hNone
  rw [hNone] at h
  cases h

/- Taking an item when a token comes next. -/
theorem Stands.advance
    {t : Token}
    (h : Stands s blocks p (t :: rest)) :
    ∃ p', Reading.advance p = some (.ok (.token t), p') ∧
      Stands s blocks p' rest := by
  rw [Reading.advance]
  rcases h.peekNth 0 with
    ⟨p₁, item, hPeek, hStands, hAhead⟩ | ⟨e, p₁, _, _, hFault⟩
  · rcases hStands.supply.take (ahead_ne_nil hAhead) with
      ⟨b, hTake, hRest⟩
    refine ⟨_, ?_, hStands.supplied hRest⟩
    rw [peek, bind_of_ok hPeek, onSupply, hTake]
  · cases hFault

/- Taking an item when none but the end of the input is left. -/
theorem Stands.advance_end
    (h : Stands s blocks p []) :
    (∃ pos p', s.ending = .endOfInput pos ∧ p'.blocks = blocks ∧
        Reading.advance p = some (.ok (.endOfInput pos), p')) ∨
      ∃ e p', s.ending = .failed e ∧ p'.blocks = blocks ∧
        Reading.advance p = some (.error (.lex e), p') := by
  rw [Reading.advance]
  rcases h.peekNth 0 with
    ⟨p₁, item, hPeek, hStands, hAhead⟩ |
    ⟨e, p₁, hPeek, hBlocks, hFault⟩
  · rcases hStands.supply.take_end (ahead_ne_nil hAhead) with
      ⟨pos, b, hEnding, hTake⟩
    refine .inl ⟨pos, { p₁ with supply := b }, hEnding,
      hStands.blocks_eq, ?_⟩
    rw [peek, bind_of_ok hPeek, onSupply, hTake]
  · rcases Supply.exists_fault_of_itemAt hFault with
      ⟨_, fault, hEnding, rfl⟩
    exact .inr ⟨fault, p₁, hEnding, hBlocks, bind_of_error hPeek _⟩

end Parser

end DynScript
