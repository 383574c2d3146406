import DynScript.Proofs.Parse.Reading

/-
  What a reader does depends on a stream only through the
  items that it has pulled. Where the stream is cut off behind
  some of its tokens, and ends in a fault there, a reader does
  the same as long as it pulls no more than these, and it
  meets the fault when it does.

  Key definitions include:
    * `Supply.pulled`
    * `Supply.Cut`
    * `Parser.Cut`
    * `Local`

  Main statements include:
    * `Supply.Cut.pull`
    * `Local.bind`
    * `Local.inBlock`
    * `Local.guarded`
    * `local_peekNth`
    * `local_advance`
-/

namespace DynScript

------------------------------------------------------------
-- Items that were pulled
------------------------------------------------------------

/-
  How many items a supply of the stream `s` has handed out,
  the end or fault behind the tokens included.
-/
def Supply.pulled
    (s : TokenStream)
    (b : Supply) : Nat :=
  match b.ending? with
  | some _ => s.tokens.length - b.coming.length
  | none => s.tokens.length + 1

def Parser.pulled
    (s : TokenStream)
    (p : Parser) : Nat :=
  p.supply.pulled s

/-
  A supply of the stream `s` that has not come to its end, and
  one with the same past of the stream that is cut off behind
  `k` tokens and fails there with `e`.
-/
inductive Supply.Cut
    (s : TokenStream)
    (k : Nat)
    (e : LexError) : Supply → Supply → Prop where
  | mk
      (ahead : List Item)
      (n : Nat)
      (eof : Position)
      (taken : List Item)
      (hPulled : n ≤ k)
      (hLength : k ≤ s.tokens.length) :
      Cut s k e
        ⟨ahead, s.tokens.drop n, some s.ending, eof, taken⟩
        ⟨ahead, (s.tokens.take k).drop n, some (.failed e), eof,
          taken⟩

/- Parsers that differ in nothing else. -/
structure Parser.Cut
    (s : TokenStream)
    (k : Nat)
    (e : LexError)
    (p q : Parser) : Prop where
  supply : p.supply.Cut s k e q.supply
  blocks_eq : q.blocks = p.blocks
  halted_eq : q.halted = p.halted

namespace Supply

variable {s : TokenStream}
variable {k : Nat}
variable {e : LexError}
variable {b c : Supply}

/- Not more was pulled than is left of the stream that is cut. -/
theorem Cut.pulled_le
    (h : b.Cut s k e c) :
    b.pulled s ≤ k := by
  cases h with
  | mk ahead n eof taken hPulled hLength =>
      show s.tokens.length - (s.tokens.drop n).length ≤ k
      rw [List.length_drop]
      omega

/- What was looked at is the same. -/
theorem Cut.ahead_eq
    (h : b.Cut s k e c) :
    c.ahead = b.ahead := by
  cases h
  rfl

/- What was pulled once is not pulled again. -/
theorem pulled_le_pull
    (s : TokenStream)
    (b : Supply) :
    b.pulled s ≤ b.pull.2.pulled s := by
  rcases b with ⟨ahead, coming, ending?, eof, taken⟩
  cases coming with
  | cons t rest =>
      cases ending? with
      | none => exact Nat.le_refl _
      | some ending =>
          rw [pull, pulled, pulled, List.length_cons]
          exact Nat.sub_le_sub_left (Nat.le_succ _) _
  | nil =>
      cases ending? with
      | none => exact Nat.le_refl _
      | some ending =>
          cases ending with
          | endOfInput pos => exact Nat.le_succ _
          | failed e => exact Nat.le_succ _

/-
  One more item: it is the same, or it is the fault at which
  the other stream is cut off.
-/
theorem Cut.pull
    (h : b.Cut s k e c) :
    (b.pull.2.pulled s ≤ k ∧ c.pull.1 = b.pull.1 ∧
        b.pull.2.Cut s k e c.pull.2) ∨
      (k < b.pull.2.pulled s ∧ c.pull.1 = .error (.lex e)) := by
  cases h with
  | mk ahead n eof taken hPulled hLength =>
      rcases Nat.lt_or_ge n k with hMore | hDone
      · left
        have hToken : n < s.tokens.length :=
          Nat.lt_of_lt_of_le hMore hLength
        have hLeft : n < (s.tokens.take k).length := by
          rw [List.length_take]
          omega
        have hNext :
            Cut s k e
              ⟨ahead ++ [.token s.tokens[n]], s.tokens.drop (n + 1),
                some s.ending, eof, taken⟩
              ⟨ahead ++ [.token s.tokens[n]],
                (s.tokens.take k).drop (n + 1), some (.failed e), eof,
                taken⟩ :=
          .mk _ _ _ _ hMore hLength
        rw [List.drop_eq_getElem_cons hToken,
          List.drop_eq_getElem_cons hLeft, List.getElem_take]
        exact ⟨hNext.pulled_le, rfl, hNext⟩
      · right
        have hLast : k = n := Nat.le_antisymm hDone hPulled
        subst hLast
        have hNone : (s.tokens.take k).drop k = [] :=
          List.drop_eq_nil_of_le (List.length_take_le _ _)
        rw [hNone]
        refine ⟨?_, rfl⟩
        rcases Nat.lt_or_ge k s.tokens.length with hToken | hEnd
        · rw [List.drop_eq_getElem_cons hToken, Supply.pull, pulled,
            List.length_drop]
          dsimp only
          omega
        · rw [List.drop_eq_nil_of_le hEnd]
          cases hEnding : s.ending with
          | endOfInput pos => exact Nat.lt_succ_of_le hLength
          | failed e' => exact Nat.lt_succ_of_le hLength

/- Taking what was looked at pulls nothing. -/
theorem pulled_take
    (s : TokenStream)
    (b : Supply) :
    b.take.2.pulled s = b.pulled s := by
  rcases b with ⟨ahead, coming, ending?, eof, taken⟩
  cases ahead with
  | nil => rfl
  | cons item ahead => rfl

theorem Cut.take
    (h : b.Cut s k e c) :
    c.take.1 = b.take.1 ∧ b.take.2.Cut s k e c.take.2 := by
  cases h with
  | mk ahead n eof taken hPulled hLength =>
      cases ahead with
      | nil => exact ⟨rfl, .mk _ _ _ _ hPulled hLength⟩
      | cons item ahead => exact ⟨rfl, .mk _ _ _ _ hPulled hLength⟩

end Supply

------------------------------------------------------------
-- Readers that depend on what they have pulled
------------------------------------------------------------

/-
  From the parser `p` the reader `x` pulls items and depends on
  nothing else of the stream `s`.
-/
def Local
    {α : Type}
    (s : TokenStream)
    (x : Reading α)
    (p : Parser) : Prop :=
  ∀ r p', x p = some (r, p') →
    p.pulled s ≤ p'.pulled s ∧
    ∀ k e q, p.Cut s k e q →
      (p'.pulled s ≤ k ∧
        ∃ q', x q = some (r, q') ∧ p'.Cut s k e q') ∨
      (k < p'.pulled s ∧ ∃ q', x q = some (.error (.lex e), q'))

section Local

open Reading

variable {α β : Type}
variable {s : TokenStream}
variable {p p' : Parser}
variable {x : Reading α}

/- A reader that pulls nothing and finds nothing out. -/
theorem local_of_still
    {r : Except ParseError α}
    (hAnswer : x p = some (r, p'))
    (hPulled : p'.pulled s = p.pulled s)
    (hCut : ∀ k e q, p.Cut s k e q →
      ∃ q', x q = some (r, q') ∧ p'.Cut s k e q') :
    Local s x p := by
  intro r' p'' hAnswer'
  rcases Prod.mk.inj (Option.some.inj (hAnswer.symm.trans hAnswer'))
    with ⟨rfl, rfl⟩
  refine ⟨Nat.le_of_eq hPulled.symm, ?_⟩
  intro k e q h
  refine .inl ⟨?_, hCut k e q h⟩
  rw [hPulled]
  exact h.supply.pulled_le

/- The results of two readers one after the other. -/
theorem bind_eq_some
    {f : α → Reading β}
    {r : Except ParseError β}
    (h : (x >>= f) p = some (r, p')) :
    (∃ e, x p = some (.error e, p') ∧ r = .error e) ∨
      ∃ a p₁, x p = some (.ok a, p₁) ∧ f a p₁ = some (r, p') := by
  rcases hFirst : x p with _ | ⟨e | a, p₁⟩
  · rw [bind_of_none hFirst] at h
    cases h
  · rw [bind_of_error hFirst] at h
    cases h
    exact .inl ⟨e, rfl, rfl⟩
  · rw [bind_of_ok hFirst] at h
    exact .inr ⟨a, p₁, rfl, h⟩

theorem Local.bind
    {f : α → Reading β}
    (h : Local s x p)
    (hNext : ∀ a p', x p = some (.ok a, p') → Local s (f a) p') :
    Local s (x >>= f) p := by
  intro r p' hAnswer
  rcases bind_eq_some hAnswer with
    ⟨e', hFirst, rfl⟩ | ⟨a, p₁, hFirst, hSecond⟩
  · rcases h _ _ hFirst with ⟨hMore, hCut⟩
    refine ⟨hMore, ?_⟩
    intro k e q hStart
    rcases hCut k e q hStart with
      ⟨hWithin, q', hSame, hEnd⟩ | ⟨hBeyond, q', hFault⟩
    · exact .inl ⟨hWithin, q', bind_of_error hSame f, hEnd⟩
    · exact .inr ⟨hBeyond, q', bind_of_error hFault f⟩
  · rcases h _ _ hFirst with ⟨hMore, hCut⟩
    rcases hNext a p₁ hFirst _ _ hSecond with ⟨hMore', hCut'⟩
    refine ⟨Nat.le_trans hMore hMore', ?_⟩
    intro k e q hStart
    rcases hCut k e q hStart with
      ⟨hWithin, q₁, hSame, hMiddle⟩ | ⟨hBeyond, q₁, hFault⟩
    · rw [bind_of_ok hSame]
      exact hCut' k e q₁ hMiddle
    · -- What the first has pulled too much stays pulled.
      exact .inr ⟨Nat.lt_of_lt_of_le hBeyond hMore', q₁,
        bind_of_error hFault f⟩

/- A test reads nothing. -/
theorem local_test
    (r : Except ParseError α)
    (p : Parser) :
    Local s (test r) p :=
  local_of_still rfl rfl fun _ _ q h => ⟨q, rfl, h⟩

/- The number of open blocks is no item. -/
theorem local_openBlocks
    (p : Parser) :
    Local s openBlocks p := by
  apply local_of_still rfl rfl
  intro k e q h
  exact ⟨q, by rw [openBlocks, h.blocks_eq], h⟩

theorem local_enterBlock
    (p : Parser) :
    Local s enterBlock p := by
  have hPulled :
      Parser.pulled s { p with blocks := p.blocks + 1 } =
        p.pulled s :=
    rfl
  apply local_of_still rfl hPulled
  intro k e q h
  exact ⟨_, rfl, h.supply, congrArg (· + 1) h.blocks_eq, h.halted_eq⟩

/- Nor does leaving a block read anything. -/
theorem Local.inBlock
    (h : Local s x p) :
    Local s (inBlock x) p := by
  intro r p' hAnswer
  cases hInside : x p with
  | none =>
      rw [inBlock_of_none hInside] at hAnswer
      cases hAnswer
  | some answer =>
      rcases answer with ⟨r₁, p₁⟩
      rw [inBlock_of_some hInside] at hAnswer
      cases hAnswer
      rcases h _ _ hInside with ⟨hMore, hCut⟩
      refine ⟨hMore, ?_⟩
      intro k e q hStart
      rcases hCut k e q hStart with
        ⟨hWithin, q', hSame, hEnd⟩ | ⟨hBeyond, q', hFault⟩
      · exact .inl ⟨hWithin, _, inBlock_of_some hSame, hEnd.supply,
          congrArg (· - 1) hEnd.blocks_eq, hEnd.halted_eq⟩
      · exact .inr ⟨hBeyond, _, inBlock_of_some hFault⟩

/- That a parser has stopped is no item. -/
theorem pulled_behindCall
    (r : Except ParseError α)
    (p : Parser) :
    (behindCall r p).pulled s = p.pulled s := by
  cases r with
  | ok a => rfl
  | error e => rfl

theorem Parser.Cut.behindCall
    {k : Nat}
    {e : LexError}
    {q : Parser}
    (h : p.Cut s k e q)
    (r : Except ParseError α) :
    (behindCall r p).Cut s k e (behindCall r q) := by
  cases r with
  | ok a => exact h
  | error fault => exact ⟨h.supply, h.blocks_eq, rfl⟩

/- A call from outside does what the reader does. -/
theorem Local.guarded
    (h : Local s x p)
    (hRunning : p.halted = false) :
    Local s (guarded x) p := by
  intro r p' hAnswer
  cases hInside : x p with
  | none =>
      rw [guarded_of_none hRunning hInside] at hAnswer
      cases hAnswer
  | some answer =>
      rcases answer with ⟨r₁, p₁⟩
      rw [guarded_of_some hRunning hInside] at hAnswer
      cases hAnswer
      rcases h _ _ hInside with ⟨hMore, hCut⟩
      rw [pulled_behindCall]
      refine ⟨hMore, ?_⟩
      intro k e q hStart
      have hRunning' := hStart.halted_eq.trans hRunning
      rcases hCut k e q hStart with
        ⟨hWithin, q', hSame, hEnd⟩ | ⟨hBeyond, q', hFault⟩
      · exact .inl ⟨hWithin, _, guarded_of_some hRunning' hSame,
          hEnd.behindCall _⟩
      · exact .inr ⟨hBeyond, _, guarded_of_some hRunning' hFault⟩

------------------------------------------------------------
-- Looking and taking
------------------------------------------------------------

theorem local_pull
    (p : Parser) :
    Local s pull p := by
  rintro r p' ⟨⟩
  refine ⟨p.supply.pulled_le_pull s, ?_⟩
  intro k e q h
  rcases h.supply.pull with
    ⟨hWithin, hSame, hEnd⟩ | ⟨hBeyond, hFault⟩
  · refine .inl ⟨hWithin, { q with supply := q.supply.pull.2 }, ?_,
      hEnd, h.blocks_eq, h.halted_eq⟩
    rw [pull, onSupply, hSame]
  · refine .inr ⟨hBeyond, { q with supply := q.supply.pull.2 }, ?_⟩
    rw [pull, onSupply, hFault]

theorem local_take
    (p : Parser) :
    Local s (onSupply Supply.take) p := by
  have hPulled :
      Parser.pulled s { p with supply := p.supply.take.2 } =
        p.pulled s :=
    p.supply.pulled_take s
  apply local_of_still rfl hPulled
  intro k e q h
  rcases h.supply.take with ⟨hSame, hEnd⟩
  refine ⟨{ q with supply := q.supply.take.2 }, ?_, hEnd,
    h.blocks_eq, h.halted_eq⟩
  rw [onSupply, hSame]

theorem local_ahead
    (p : Parser) :
    Local s ahead p := by
  apply local_of_still rfl rfl
  intro k e q h
  exact ⟨q, by rw [ahead, h.supply.ahead_eq], h⟩

theorem local_fill
    (n : Nat)
    (p : Parser) :
    Local s (fill n) p := by
  induction n generalizing p with
  | zero => exact local_test (.ok ()) p
  | succ n ih =>
      rw [fill]
      exact (local_pull p).bind fun _ p' _ => ih p'

/- Looking at an item. -/
theorem local_peekNth
    (n : Nat)
    (p : Parser) :
    Local s (peekNth n) p := by
  rw [peekNth]
  refine (local_ahead p).bind fun looked p₁ _ => ?_
  refine (local_fill _ p₁).bind fun _ p₂ _ => ?_
  refine (local_ahead p₂).bind fun looked' p₃ _ => ?_
  split
  · exact local_test (.ok _) p₃
  · exact local_test _ p₃

/- Taking an item. -/
theorem local_advance
    (p : Parser) :
    Local s advance p := by
  rw [advance]
  exact (local_peekNth 0 p).bind fun _ p' _ => local_take p'

end Local

end DynScript
