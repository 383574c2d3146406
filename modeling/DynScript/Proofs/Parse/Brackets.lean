import DynScript.Proofs.Parse.Forms

/-
  The brackets in a sequence of tokens. Everything that the
  grammar forms closes the brackets that it opens, each kind of
  them for itself; expressions have no braces at all. The
  blocks that are open behind the beginnings of a sequence are
  counted by its braces.

  Key definitions include:
    * `surplus`
    * `openTokens`
    * `Bracketing`
    * `Nested`
    * `Paired`
    * `Braceless`

  Main statements include:
    * `Derives.surplus_eq_zero`
    * `Forms.surplus_eq_zero`
    * `nested_append`
    * `nested_open`
    * `Derives.braceless`
    * `Forms.paired`
-/

namespace DynScript

------------------------------------------------------------
-- Opening and closing
------------------------------------------------------------

/- How many more items of one kind than of another there are. -/
def surplus
    {α : Type}
    [DecidableEq α]
    (opening closing l : List α) : Int :=
  (l.countP (· ∈ opening) : Int) - l.countP (· ∈ closing)

section Surplus

variable {α : Type}
variable [DecidableEq α]
variable {opening closing : List α}

theorem surplus_append
    (l l' : List α) :
    surplus opening closing (l ++ l') =
      surplus opening closing l + surplus opening closing l' := by
  unfold surplus
  rw [List.countP_append, List.countP_append]
  omega

theorem surplus_cons
    (a : α)
    (l : List α) :
    surplus opening closing (a :: l) =
      surplus opening closing [a] + surplus opening closing l :=
  surplus_append [a] l

/- Items of neither kind do not count. -/
theorem surplus_eq_zero
    {l : List α}
    (h : ∀ a ∈ l, a ∉ opening ∧ a ∉ closing) :
    surplus opening closing l = 0 := by
  have hOpening : l.countP (· ∈ opening) = 0 :=
    List.countP_eq_zero.mpr fun a ha => by simpa using (h a ha).1
  have hClosing : l.countP (· ∈ closing) = 0 :=
    List.countP_eq_zero.mpr fun a ha => by simpa using (h a ha).2
  unfold surplus
  rw [hOpening, hClosing]
  rfl

end Surplus

/- The tokens that are brackets. -/
def bracketKinds : List TokenKind :=
  [.symbol .braceL, .symbol .parenL, .symbol .braceR, .symbol .parenR]

/-
  Brackets that open and close: no other tokens count, and a
  closing bracket makes up for an opening one of its kind.
-/
structure Bracketing
    (opening closing : List TokenKind) : Prop where
  other : ∀ k, k ∉ bracketKinds → surplus opening closing [k] = 0
  parens :
    surplus opening closing [.symbol .parenL] +
      surplus opening closing [.symbol .parenR] = 0
  braces :
    surplus opening closing [.symbol .braceL] +
      surplus opening closing [.symbol .braceR] = 0

/- Operators between operands are no brackets. -/
theorem not_bracket_of_operator
    {layer : Layer}
    {s : Symbol}
    {op : BinaryOp}
    (h : (s, op) ∈ layer.operators) :
    .symbol s ∉ bracketKinds := by
  rcases Layer.of_mem_operators h with ⟨hSymbol, _⟩
  intro hBracket
  simp only [bracketKinds, List.mem_cons, List.not_mem_nil,
    or_false] at hBracket
  rcases hBracket with hKind | hKind | hKind | hKind <;>
    rw [hKind] at hSymbol <;> cases hSymbol

/- Nor are operators before one. -/
theorem not_bracket_of_sign
    {s : Symbol}
    {op : UnaryOp}
    (h : (s, op) ∈ Layer.signs) :
    .symbol s ∉ bracketKinds := by
  have hSymbol := Layer.unaryOp?_of_mem_signs h
  intro hBracket
  simp only [bracketKinds, List.mem_cons, List.not_mem_nil,
    or_false] at hBracket
  rcases hBracket with hKind | hKind | hKind | hKind <;>
    rw [hKind] at hSymbol <;> cases hSymbol

section Bracketing

variable {opening closing : List TokenKind}

theorem Bracketing.cons_other
    (h : Bracketing opening closing)
    {k : TokenKind}
    (hOther : k ∉ bracketKinds)
    (w : List TokenKind) :
    surplus opening closing (k :: w) = surplus opening closing w := by
  rw [surplus_cons, h.other k hOther, Int.zero_add]

/- A pair of brackets around something that closes what it opens. -/
theorem surplus_around
    {left right : TokenKind}
    {w : List TokenKind}
    (hPair : surplus opening closing [left] +
      surplus opening closing [right] = 0)
    (hInner : surplus opening closing w = 0) :
    surplus opening closing (left :: (w ++ [right])) = 0 := by
  rw [surplus_cons, surplus_append, hInner, Int.zero_add]
  exact hPair

/- One after the other, two such parts are another one. -/
theorem surplus_append_eq_zero
    {u v : List TokenKind}
    (hFirst : surplus opening closing u = 0)
    (hSecond : surplus opening closing v = 0) :
    surplus opening closing (u ++ v) = 0 := by
  rw [surplus_append, hFirst, hSecond, Int.zero_add]

/- Commas between such parts. -/
theorem Bracketing.intercalate
    (h : Bracketing opening closing)
    {parts : List (List TokenKind)}
    (hParts : ∀ part ∈ parts, surplus opening closing part = 0) :
    surplus opening closing ([.symbol .comma].intercalate parts) = 0 := by
  induction parts with
  | nil => rfl
  | cons part parts ih =>
      have hFirst := hParts part List.mem_cons_self
      cases parts with
      | nil =>
          rw [List.intercalate_singleton]
          exact hFirst
      | cons next parts =>
          have hOthers := ih fun other hMem =>
            hParts other (List.mem_cons_of_mem part hMem)
          have hComma := h.other (.symbol .comma) (by decide)
          rw [List.intercalate_cons_cons]
          exact surplus_append_eq_zero
            (surplus_append_eq_zero hFirst hComma) hOthers

/- An expression closes the brackets that it opens. -/
theorem Derives.surplus_eq_zero
    {layer : Layer}
    {w : List TokenKind}
    {e : Expr}
    (hDerives : Derives layer w e)
    (h : Bracketing opening closing) :
    surplus opening closing w = 0 := by
  induction hDerives with
  | descend _ _ ih => exact ih
  | operator _ hOp _ _ ihLeft ihRight =>
      apply surplus_append_eq_zero ihLeft
      rw [h.cons_other (not_bracket_of_operator hOp), ihRight]
  | sign hOp _ ih => rw [h.cons_other (not_bracket_of_sign hOp), ih]
  | int i => exact h.other _ (by simp [bracketKinds])
  | float x => exact h.other _ (by simp [bracketKinds])
  | str s => exact h.other _ (by simp [bracketKinds])
  | true => exact h.other _ (by decide)
  | false => exact h.other _ (by decide)
  | nil => exact h.other _ (by decide)
  | var name => exact h.other _ (by simp [bracketKinds])
  | call name args _ ih =>
      rw [h.cons_other (by simp [bracketKinds])]
      apply surplus_around h.parens
      apply h.intercalate
      intro part hPart
      rcases List.mem_map.mp hPart with ⟨arg, hArg, rfl⟩
      exact ih arg hArg
  | group _ ih => exact surplus_around h.parens ih

/- So does everything that is formed of tokens. -/
theorem Forms.surplus_eq_zero
    {limit : Option Nat}
    {w : List TokenKind}
    {p : Piece}
    (hForms : Forms limit w p)
    (h : Bracketing opening closing) :
    surplus opening closing w = 0 := by
  induction hForms with
  | assign name hValue _ =>
      rw [h.cons_other (by simp [bracketKinds]), h.cons_other (by decide),
        hValue.surplus_eq_zero h]
  | branch _ ih => rw [h.cons_other (by decide), ih]
  | retNone => exact h.other _ (by decide)
  | retSome hValue _ =>
      rw [h.cons_other (by decide), hValue.surplus_eq_zero h]
  | expr hExpr _ => exact hExpr.surplus_eq_zero h
  | function hHeading _ ih =>
      exact surplus_append_eq_zero (hHeading.surplus_eq_zero h) ih
  | ifOnly hTest _ _ ih =>
      exact surplus_append_eq_zero (hTest.surplus_eq_zero h) ih
  | ifElse hTest _ _ _ ihYes ihNo =>
      apply surplus_append_eq_zero
      · exact surplus_append_eq_zero (hTest.surplus_eq_zero h) ihYes
      · rw [h.cons_other (by decide), ihNo]
  | elseIf hTest _ _ _ ihYes ihChain =>
      apply surplus_append_eq_zero
      · exact surplus_append_eq_zero (hTest.surplus_eq_zero h) ihYes
      · rw [h.cons_other (by decide), h.cons_other (by decide), ihChain]
  | block _ ih => exact surplus_around h.braces ih
  | nil => rfl
  | semicolon _ ih => rw [h.cons_other (by decide), ih]
  | cons _ _ ihFirst ihOthers =>
      exact surplus_append_eq_zero ihFirst ihOthers

end Bracketing

/- How many more brackets tokens open than they close. -/
def openTokens
    (w : List TokenKind) : Int :=
  surplus [.symbol .braceL, .symbol .parenL]
    [.symbol .braceR, .symbol .parenR] w

theorem openTokens_cons
    (k : TokenKind)
    (w : List TokenKind) :
    openTokens (k :: w) = openTokens [k] + openTokens w :=
  surplus_cons k w

/- Other tokens do not count. -/
theorem openTokens_other
    {k : TokenKind}
    (h : k ∉ bracketKinds) :
    openTokens [k] = 0 := by
  apply DynScript.surplus_eq_zero
  intro a ha
  rcases List.mem_singleton.mp ha with rfl
  simp only [bracketKinds, List.mem_cons, not_or] at h ⊢
  tauto

/- What is formed of tokens leaves no bracket open. -/
theorem Forms.openTokens_eq_zero
    {limit : Option Nat}
    {w : List TokenKind}
    {p : Piece}
    (h : Forms limit w p) :
    openTokens w = 0 :=
  h.surplus_eq_zero ⟨fun _ hOther => openTokens_other hOther, rfl, rfl⟩

------------------------------------------------------------
-- Braces in tokens
------------------------------------------------------------

/-
  Behind `depth` open blocks, no beginning of `w` opens more
  blocks than `n` that it does not close.
-/
def Nested
    (n depth : Nat)
    (w : List TokenKind) : Prop :=
  ∀ u, u <+: w →
    depth + u.count (.symbol .braceL) ≤ n + u.count (.symbol .braceR)

/- As many blocks are opened as closed. -/
def Paired
    (w : List TokenKind) : Prop :=
  w.count (.symbol .braceL) = w.count (.symbol .braceR)

/- No brace occurs. -/
def Braceless
    (w : List TokenKind) : Prop :=
  .symbol .braceL ∉ w ∧ .symbol .braceR ∉ w

section Braces

variable {n depth : Nat}
variable {u v w : List TokenKind}

theorem Braceless.paired
    (h : Braceless w) :
    Paired w := by
  unfold Paired
  rw [List.count_eq_zero.mpr h.1, List.count_eq_zero.mpr h.2]

theorem braceless_nil :
    Braceless [] :=
  ⟨List.not_mem_nil, List.not_mem_nil⟩

theorem Braceless.append
    (hFirst : Braceless u)
    (hSecond : Braceless v) :
    Braceless (u ++ v) := by
  constructor
  · exact List.not_mem_append hFirst.1 hSecond.1
  · exact List.not_mem_append hFirst.2 hSecond.2

theorem Braceless.cons
    {k : TokenKind}
    (hOpen : k ≠ .symbol .braceL)
    (hClose : k ≠ .symbol .braceR)
    (h : Braceless w) :
    Braceless (k :: w) := by
  constructor
  · exact List.not_mem_cons_of_ne_of_not_mem hOpen.symm h.1
  · exact List.not_mem_cons_of_ne_of_not_mem hClose.symm h.2

/- The blocks that are open before the first token count too. -/
theorem Nested.le
    (h : Nested n depth w) :
    depth ≤ n := by
  have hNone := h [] w.nil_prefix
  simpa using hNone

/- Without braces no further block is opened. -/
theorem nested_of_braceless
    (h : Braceless w)
    (hDepth : depth ≤ n) :
    Nested n depth w := by
  intro u hPrefix
  have hOpen : .symbol .braceL ∉ u :=
    fun hMem => h.1 (hPrefix.subset hMem)
  rw [List.count_eq_zero.mpr hOpen]
  omega

/- Behind a part that closes what it opens, the same are open. -/
theorem nested_append
    (hPaired : Paired u) :
    Nested n depth (u ++ v) ↔ Nested n depth u ∧ Nested n depth v := by
  constructor
  · intro h
    constructor
    · intro x hPrefix
      exact h x (hPrefix.trans (List.prefix_append u v))
    · intro x hPrefix
      have hBoth :=
        h (u ++ x) ((List.prefix_append_right_inj u).mpr hPrefix)
      unfold Paired at hPaired
      rw [List.count_append, List.count_append] at hBoth
      omega
  · rintro ⟨hFirst, hSecond⟩ x hPrefix
    rcases List.prefix_or_prefix_of_prefix hPrefix
        (List.prefix_append u v) with hInside | ⟨y, rfl⟩
    · exact hFirst x hInside
    · have hBehind := hSecond y
        ((List.prefix_append_right_inj u).mp hPrefix)
      unfold Paired at hPaired
      rw [List.count_append, List.count_append]
      omega

/- A token that is no brace. -/
theorem nested_cons
    {k : TokenKind}
    (hOpen : k ≠ .symbol .braceL)
    (hClose : k ≠ .symbol .braceR) :
    Nested n depth (k :: w) ↔ Nested n depth w := by
  have hToken : Braceless [k] :=
    braceless_nil.cons hOpen hClose
  rw [← List.singleton_append, nested_append hToken.paired]
  constructor
  · exact fun h => h.2
  · exact fun h => ⟨nested_of_braceless hToken h.le, h⟩

/- An opening brace. -/
theorem nested_open :
    Nested n depth (.symbol .braceL :: w) ↔ Nested n (depth + 1) w := by
  constructor
  · intro h x hPrefix
    have hBoth := h (.symbol .braceL :: x)
      (List.cons_prefix_cons.mpr ⟨rfl, hPrefix⟩)
    rw [List.count_cons_self,
      List.count_cons_of_ne (by decide)] at hBoth
    omega
  · intro h x hPrefix
    have hDepth := h.le
    rcases List.prefix_cons_iff.mp hPrefix with rfl | ⟨y, rfl, hInside⟩
    · simp only [List.count_nil]
      omega
    · have hBehind := h y hInside
      rw [List.count_cons_self, List.count_cons_of_ne (by decide)]
      omega

/- A closing brace with nothing behind it. -/
theorem nested_close
    (hDepth : depth ≤ n) :
    Nested n depth [.symbol .braceR] := by
  intro x hPrefix
  have hOpen : .symbol .braceL ∉ x := by
    intro hMem
    have hSame := List.mem_singleton.mp (hPrefix.subset hMem)
    cases hSame
  rw [List.count_eq_zero.mpr hOpen]
  omega

end Braces

------------------------------------------------------------
-- Braces in the grammar
------------------------------------------------------------

/- Commas between parts without braces. -/
theorem braceless_intercalate
    {parts : List (List TokenKind)}
    (h : ∀ part ∈ parts, Braceless part) :
    Braceless ([.symbol .comma].intercalate parts) := by
  induction parts with
  | nil => exact braceless_nil
  | cons part parts ih =>
      have hFirst := h part List.mem_cons_self
      cases parts with
      | nil =>
          rw [List.intercalate_singleton]
          exact hFirst
      | cons next parts =>
          have hOthers := ih fun other hMem =>
            h other (List.mem_cons_of_mem part hMem)
          rw [List.intercalate_cons_cons, List.append_assoc]
          exact hFirst.append (hOthers.cons (by simp) (by simp))

/- An expression has no braces. -/
theorem Derives.braceless
    {layer : Layer}
    {w : List TokenKind}
    {e : Expr}
    (h : Derives layer w e) :
    Braceless w := by
  induction h with
  | descend _ _ ih => exact ih
  | operator _ hOp _ _ ihLeft ihRight =>
      have hSymbol := not_bracket_of_operator hOp
      simp only [bracketKinds, List.mem_cons, not_or] at hSymbol
      exact ihLeft.append (ihRight.cons hSymbol.1 hSymbol.2.2.1)
  | sign hOp _ ih =>
      have hSymbol := not_bracket_of_sign hOp
      simp only [bracketKinds, List.mem_cons, not_or] at hSymbol
      exact ih.cons hSymbol.1 hSymbol.2.2.1
  | int i => exact braceless_nil.cons (by simp) (by simp)
  | float x => exact braceless_nil.cons (by simp) (by simp)
  | str s => exact braceless_nil.cons (by simp) (by simp)
  | true => exact braceless_nil.cons (by simp) (by simp)
  | false => exact braceless_nil.cons (by simp) (by simp)
  | nil => exact braceless_nil.cons (by simp) (by simp)
  | var name => exact braceless_nil.cons (by simp) (by simp)
  | call name args _ ih =>
      have hArgs : Braceless
          ([.symbol .comma].intercalate (args.map Prod.fst)) := by
        apply braceless_intercalate
        intro part hPart
        rcases List.mem_map.mp hPart with ⟨arg, hArg, rfl⟩
        exact ih arg hArg
      have hClosed := hArgs.append
        (braceless_nil.cons (k := .symbol .parenR) (by simp) (by simp))
      exact (hClosed.cons (by simp) (by simp)).cons (by simp) (by simp)
  | group _ ih =>
      have hClosed := ih.append
        (braceless_nil.cons (k := .symbol .parenR) (by simp) (by simp))
      exact hClosed.cons (by simp) (by simp)

/- What forms a piece closes the blocks that it opens. -/
theorem Forms.paired
    {limit : Option Nat}
    {w : List TokenKind}
    {p : Piece}
    (h : Forms limit w p) :
    Paired w := by
  have hOther : ∀ k, k ∉ bracketKinds →
      surplus [.symbol .braceL] [.symbol .braceR] [k] = 0 := by
    intro k hk
    apply DynScript.surplus_eq_zero
    intro a ha
    rcases List.mem_singleton.mp ha with rfl
    simp only [bracketKinds, List.mem_cons, not_or] at hk ⊢
    tauto
  have hZero := h.surplus_eq_zero ⟨hOther, rfl, rfl⟩
  simp only [surplus, List.mem_singleton] at hZero
  unfold Paired List.count
  simp only [beq_eq_decide]
  omega

end DynScript
