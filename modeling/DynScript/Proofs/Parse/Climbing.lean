import DynScript.Parse.Reader
import DynScript.Proofs.Parse.Grammar

/-
  Reading by precedence climbing and the layered grammar are
  the same. Whatever derives an expression is read as it, as
  long as nothing behind it could belong to it; and whatever
  is read derives the expression.

  Key definitions include:
    * `Parse.ReadAs`
    * `Parse.FoundIn`
    * `Parse.Sound`

  Main statements include:
    * `Parse.readAs_of_derives`
    * `Parse.sound`
    * `Parse.expression_iff_derives`
-/

namespace DynScript

------------------------------------------------------------
-- What follows an expression
------------------------------------------------------------

/- Only the last tokens decide whether a name is called. -/
theorem notCalled_append
    {u v : List TokenKind}
    {r : List Token}
    (hNe : v ≠ []) :
    NotCalled (u ++ v) r ↔ NotCalled v r := by
  unfold NotCalled
  have hSome : v.getLast?.isSome := by simpa using hNe
  rw [List.getLast?_append, Option.or_of_isSome hSome]

/- A symbol at the end is no name. -/
theorem notCalled_symbol
    (u : List TokenKind)
    (s : Symbol)
    (r : List Token) :
    NotCalled (u ++ [.symbol s]) r := by
  intro name hLast
  simp at hLast

/- A symbol that opens no parenthesis calls nothing. -/
theorem notCalled_of_head
    (w : List TokenKind)
    {t : Token}
    (r : List Token)
    (h : t.kind ≠ .symbol .parenL) :
    NotCalled w (t :: r) := by
  intro name _ u hHead
  rcases Option.some.inj hHead with rfl
  exact h

/- A token that is no operator stops every layer. -/
theorem stops_of_head
    (tight : Nat)
    {t : Token}
    (r : List Token)
    (h : Parse.binaryOp? t.kind = none) :
    Stops tight (t :: r) := by
  intro u hHead op hOp
  rcases Option.some.inj hHead with rfl
  rw [h] at hOp
  cases hOp

namespace Parse

variable {limit : Option Nat}
variable {ending : Ending}

------------------------------------------------------------
-- What derives an expression is read
------------------------------------------------------------

/-
  Tokens of the kinds `w` are read as `e` before any rest that
  does not go on with it. In a layer of operators the reader
  is left where it looks for the next operator of the layer,
  so that both a longer chain and its end can follow.
-/
def ReadAs
    (limit : Option Nat)
    (ending : Ending)
    (layer : Layer)
    (w : List TokenKind)
    (e : Expr) : Prop :=
  ∀ toks r, kinds toks = w → e.Within limit → NotCalled w r →
    (r ≠ [] ∨ ending.look = .ok ()) →
      (6 < layer.tightness →
        outcome (operand limit ending (toks ++ r)) = .ok (e, r)) ∧
      (∀ least < layer.tightness, Stops layer.tightness r →
        outcome (climb limit ending least (toks ++ r)) =
          outcome (extend limit ending least e r))

/- What is read as an operand is read as one in every layer. -/
theorem readAs_of_operand
    {layer : Layer}
    {w : List TokenKind}
    {e : Expr}
    (h : ∀ toks r, kinds toks = w → e.Within limit →
      NotCalled w r → (r ≠ [] ∨ ending.look = .ok ()) →
        outcome (operand limit ending (toks ++ r)) = .ok (e, r)) :
    ReadAs limit ending layer w e := by
  intro toks r hKinds hWithin hCalled hEnd
  have hOperand := h toks r hKinds hWithin hCalled hEnd
  refine ⟨fun _ => hOperand, ?_⟩
  intro least _ _
  rw [outcome_climb, hOperand, ok_bind]

/- An expression that stops is read as it stands. -/
theorem outcome_extend_of_stops
    {least : Nat}
    {e : Expr}
    {r : List Token}
    (hStops : Stops least r)
    (hEnd : r ≠ [] ∨ ending.look = .ok ()) :
    outcome (extend limit ending least e r) = .ok (e, r) := by
  cases r with
  | nil =>
      rcases hEnd with hNe | hLook
      · exact absurd rfl hNe
      · rw [outcome_extend_nil, hLook, ok_bind]
  | cons t rest =>
      exact outcome_extend_stop e rest (hStops t rfl)

/- What is read in the loosest layer is read as a whole. -/
theorem ReadAs.outcome_climb_zero
    {w : List TokenKind}
    {e : Expr}
    {toks r : List Token}
    (h : ReadAs limit ending .or w e)
    (hKinds : kinds toks = w)
    (hWithin : e.Within limit)
    (hCalled : NotCalled w r)
    (hStops : Stops 0 r)
    (hEnd : r ≠ [] ∨ ending.look = .ok ()) :
    outcome (climb limit ending 0 (toks ++ r)) = .ok (e, r) := by
  have hClimb :=
    (h toks r hKinds hWithin hCalled hEnd).2 0
      (by decide) (hStops.mono (by decide))
  rw [hClimb]
  exact outcome_extend_of_stops hStops hEnd

/- An operand with a sign before it. -/
theorem readAs_sign
    {s : Symbol}
    {op : UnaryOp}
    {w : List TokenKind}
    {e : Expr}
    (hOp : (s, op) ∈ Layer.signs)
    (hNe : w ≠ [])
    (h : ReadAs limit ending .unary w e) :
    ReadAs limit ending .unary (.symbol s :: w) (.unary op e) := by
  apply readAs_of_operand
  intro toks r hKinds hWithin hCalled hEnd
  rcases kinds_eq_cons hKinds with ⟨t, rest, rfl, hSign, hRest⟩
  have hUnary : unaryOp? t.kind = some op := by
    rw [hSign]
    exact Layer.unaryOp?_of_mem_signs hOp
  have hInner : e.Within limit := by
    intro n hn
    have hHeight := hWithin n hn
    simp only [Expr.height] at hHeight
    omega
  have hOperand :
      outcome (operand limit ending (rest ++ r)) = .ok (e, r) := by
    apply (h rest r hRest hInner ?_ hEnd).1
    · decide
    · exact (notCalled_append (u := [.symbol s]) hNe).mp hCalled
  rw [List.cons_append, outcome_operand_unary _ hUnary, hOperand,
    ok_bind, boundedTree_eq_ok.mpr ⟨rfl, hWithin⟩, ok_bind]

/- A literal, which is a single token. -/
theorem readAs_literal
    {k : TokenKind}
    {e : Expr}
    (hOp : unaryOp? k = none)
    (hLiteral : literal? k = some e) :
    ReadAs limit ending .primary [k] e := by
  apply readAs_of_operand
  intro toks r hKinds _ _ _
  rcases kinds_eq_cons hKinds with ⟨t, rest, rfl, rfl, hRest⟩
  rcases List.map_eq_nil_iff.mp hRest with rfl
  exact outcome_operand_literal r hOp hLiteral

/- A name that nothing calls. -/
theorem readAs_var
    (name : String) :
    ReadAs limit ending .primary [.ident name] (.var name) := by
  apply readAs_of_operand
  intro toks r hKinds _ hCalled hEnd
  rcases kinds_eq_cons hKinds with ⟨t, rest, rfl, hName, hRest⟩
  rcases List.map_eq_nil_iff.mp hRest with rfl
  have hPeek : peek ending r = .ok () := peek_eq_ok.mpr hEnd
  rw [List.singleton_append,
    outcome_operand_var hName (hCalled name rfl), hPeek, ok_bind]

/- An expression in parentheses. -/
theorem readAs_group
    {w : List TokenKind}
    {e : Expr}
    (h : ReadAs limit ending .or w e) :
    ReadAs limit ending .primary
      (.symbol .parenL :: (w ++ [.symbol .parenR])) e := by
  apply readAs_of_operand
  intro toks r hKinds hWithin _ _
  rcases kinds_eq_cons hKinds with ⟨t, rest, rfl, hOpen, hRest⟩
  rcases kinds_eq_append hRest with
    ⟨inner, closing, rfl, hInner, hClosing⟩
  rcases kinds_eq_cons hClosing with ⟨u, none, rfl, hClose, hNone⟩
  rcases List.map_eq_nil_iff.mp hNone with rfl
  have hClimb :
      outcome (climb limit ending 0 (inner ++ u :: r)) =
        .ok (e, u :: r) := by
    apply h.outcome_climb_zero hInner hWithin
    · exact notCalled_of_head w r (by simp [hClose])
    · exact stops_of_head 0 r (by rw [hClose]; rfl)
    · exact .inl (List.cons_ne_nil u r)
  rw [List.cons_append, outcome_operand_group _ hOpen,
    List.append_assoc, List.singleton_append, hClimb, ok_bind,
    outcome_expect_of_eq r hClose, ok_bind]

/- A call: its arguments one after the other, commas between them. -/
theorem outcome_someArguments_of_readAs
    (arg : List TokenKind × Expr)
    (args : List (List TokenKind × Expr))
    (hArgs : ∀ a ∈ arg :: args, ReadAs limit ending .or a.1 a.2)
    (hWithin : ∀ a ∈ arg :: args, a.2.Within limit)
    {toks : List Token}
    {t : Token}
    (r : List Token)
    (hKinds :
      kinds toks =
        [.symbol .comma].intercalate ((arg :: args).map Prod.fst))
    (hClose : t.kind = .symbol .parenR) :
    outcome (someArguments limit ending (toks ++ t :: r)) =
      .ok ((arg :: args).map Prod.snd, r) := by
  induction args generalizing arg toks with
  | nil =>
      have hOne : kinds toks = arg.1 := by simpa using hKinds
      have hClimb :
          outcome (climb limit ending 0 (toks ++ t :: r)) =
            .ok (arg.2, t :: r) := by
        apply (hArgs arg (by simp)).outcome_climb_zero hOne
          (hWithin arg (by simp))
        · exact notCalled_of_head arg.1 r (by simp [hClose])
        · exact stops_of_head 0 r (by rw [hClose]; rfl)
        · exact .inl (List.cons_ne_nil t r)
      have hNoComma : accept? .comma (t :: r) = none :=
        accept?_eq_none (by simp [hClose])
      rw [outcome_someArguments, hClimb, ok_bind]
      simp only [moreArguments, hNoComma]
      rw [outcome_expect_of_eq r hClose, ok_bind]
      rfl
  | cons arg' args ih =>
      have hSplit :
          kinds toks = arg.1 ++ .symbol .comma ::
            [.symbol .comma].intercalate
              ((arg' :: args).map Prod.fst) := by
        simpa [List.intercalate] using hKinds
      rcases kinds_eq_append hSplit with
        ⟨first, others, rfl, hFirst, hOthers⟩
      rcases kinds_eq_cons hOthers with
        ⟨comma, others, rfl, hComma, hOthers⟩
      have hClimb :
          outcome (climb limit ending 0
              (first ++ comma :: (others ++ t :: r))) =
            .ok (arg.2, comma :: (others ++ t :: r)) := by
        apply (hArgs arg (by simp)).outcome_climb_zero hFirst
          (hWithin arg (by simp))
        · exact notCalled_of_head arg.1 _ (by simp [hComma])
        · exact stops_of_head 0 _ (by rw [hComma]; rfl)
        · exact .inl (List.cons_ne_nil comma _)
      have hMore :=
        ih arg'
          (fun a ha => hArgs a (List.mem_cons_of_mem arg ha))
          (fun a ha => hWithin a (List.mem_cons_of_mem arg ha))
          hOthers
      rw [List.append_assoc, List.cons_append,
        outcome_someArguments, hClimb, ok_bind]
      simp only [moreArguments, accept?_cons_of_eq _ hComma,
        Parsed.leaving]
      rw [hMore, ok_bind]
      rfl

/- The arguments of an expression within the limit are within it. -/
theorem within_of_call
    {name : String}
    {args : List Expr}
    (h : (Expr.call name args).Within limit) :
    ∀ e ∈ args, e.Within limit := by
  intro e he n hn
  have hHeight := h n hn
  simp only [Expr.height] at hHeight
  have hMax : e.height ≤ Expr.maxHeight args := by
    clear hHeight h
    induction args with
    | nil => simp at he
    | cons a args ih =>
        simp only [Expr.maxHeight]
        rcases List.mem_cons.mp he with rfl | he
        · exact Nat.le_max_left _ _
        · exact Nat.le_trans (ih he) (Nat.le_max_right _ _)
  omega

/- A call. -/
theorem readAs_call
    (name : String)
    (args : List (List TokenKind × Expr))
    (hDerives : ∀ a ∈ args, Derives .or a.1 a.2)
    (hArgs : ∀ a ∈ args, ReadAs limit ending .or a.1 a.2) :
    ReadAs limit ending .primary
      (.ident name :: .symbol .parenL ::
        ([.symbol .comma].intercalate (args.map Prod.fst) ++
          [.symbol .parenR]))
      (.call name (args.map Prod.snd)) := by
  apply readAs_of_operand
  intro toks r hKinds hWithin _ _
  rcases kinds_eq_cons hKinds with ⟨t, toks, rfl, hName, hKinds⟩
  rcases kinds_eq_cons hKinds with ⟨u, toks, rfl, hOpen, hKinds⟩
  rcases kinds_eq_append hKinds with
    ⟨inner, closing, rfl, hInner, hClosing⟩
  rcases kinds_eq_cons hClosing with ⟨v, none, rfl, hClose, hNone⟩
  rcases List.map_eq_nil_iff.mp hNone with rfl
  have hArguments :
      outcome (arguments limit ending (inner ++ v :: r)) =
        .ok (args.map Prod.snd, r) := by
    cases args with
    | nil =>
        rcases List.map_eq_nil_iff.mp hInner with rfl
        exact outcome_arguments_close r hClose
    | cons arg args =>
        have hEach : ∀ a ∈ arg :: args, a.2.Within limit :=
          fun a ha =>
            within_of_call hWithin a.2 (List.mem_map_of_mem ha)
        rw [outcome_arguments_open,
          outcome_someArguments_of_readAs arg args hArgs hEach r
            hInner hClose]
        rcases (hDerives arg (by simp)).begins with
          ⟨k, rest, hFirst, hBegins⟩
        have hHead :
            ∃ more, kinds inner = k :: more := by
          cases args with
          | nil =>
              exact ⟨rest, by simpa [hFirst] using hInner⟩
          | cons arg' args =>
              exact ⟨_, by
                simpa [List.intercalate, hFirst] using hInner⟩
        rcases hHead with ⟨more, hHead⟩
        rcases kinds_eq_cons hHead with ⟨w, _, rfl, hKind, _⟩
        intro x hx hParen
        rcases Option.some.inj hx with rfl
        rw [← hKind, hParen] at hBegins
        exact absurd hBegins (by decide)
  rw [List.cons_append, List.cons_append,
    outcome_operand_call _ hName hOpen, List.append_assoc,
    List.singleton_append, hArguments, ok_bind,
    boundedTree_eq_ok.mpr ⟨rfl, hWithin⟩, ok_bind]

/- Two expressions with an operator of a layer between them. -/
theorem readAs_operator
    {layer below : Layer}
    {s : Symbol}
    {op : BinaryOp}
    {u v : List TokenKind}
    {left right : Expr}
    (hNext : layer.next? = some below)
    (hOp : (s, op) ∈ layer.operators)
    (hNe : v ≠ [])
    (hLeft : ReadAs limit ending layer u left)
    (hRight : ReadAs limit ending below v right) :
    ReadAs limit ending layer
      (u ++ .symbol s :: v) (.binary op left right) := by
  intro toks r hKinds hWithin hCalled hEnd
  rcases kinds_eq_append hKinds with ⟨us, vs, rfl, hUs, hVs⟩
  rcases kinds_eq_cons hVs with ⟨t, vs, rfl, hSymbol, hVs⟩
  rcases Layer.of_mem_operators hOp with ⟨hBinary, hPrecedence⟩
  have hBelow := Layer.tightness_of_next? hNext
  have hToken : binaryOp? t.kind = some op := by
    rw [hSymbol, hBinary]
  have hLeftWithin : left.Within limit := by
    intro n hn
    have hHeight := hWithin n hn
    simp only [Expr.height] at hHeight
    omega
  have hRightWithin : right.Within limit := by
    intro n hn
    have hHeight := hWithin n hn
    simp only [Expr.height] at hHeight
    omega
  have hRightCalled : NotCalled v r := by
    have hLast :=
      (notCalled_append (List.cons_ne_nil (.symbol s) v)).mp hCalled
    exact (notCalled_append (u := [.symbol s]) hNe).mp hLast
  constructor
  · -- There are no operators in the layers of operands.
    intro hTight
    have hLe := op.precedence_le
    omega
  · intro least hLeast hStops
    have hBehindLeft : Stops layer.tightness (t :: (vs ++ r)) := by
      intro x hx op' hOp'
      rcases Option.some.inj hx with rfl
      rcases Option.some.inj (hToken.symm.trans hOp') with rfl
      exact Nat.le_of_eq hPrecedence
    have hNoCall : t.kind ≠ .symbol .parenL := by
      intro hParen
      rw [hParen] at hToken
      cases hToken
    have hClimbLeft :=
      (hLeft us (t :: (vs ++ r)) hUs hLeftWithin
        (notCalled_of_head u _ hNoCall)
        (.inl (List.cons_ne_nil t _))).2 least hLeast hBehindLeft
    have hClimbRight :
        outcome (climb limit ending op.precedence (vs ++ r)) =
          .ok (right, r) := by
      rw [(hRight vs r hVs hRightWithin hRightCalled hEnd).2
        op.precedence (by omega) (hStops.mono (by omega))]
      exact outcome_extend_of_stops (hPrecedence ▸ hStops) hEnd
    rw [List.append_assoc, List.cons_append, hClimbLeft,
      outcome_extend_op left _ hToken (by omega), hClimbRight,
      ok_bind, boundedTree_eq_ok.mpr ⟨rfl, hWithin⟩, ok_bind]

/- Whatever derives an expression is read as it. -/
theorem readAs_of_derives
    {layer : Layer}
    {w : List TokenKind}
    {e : Expr}
    (h : Derives layer w e) :
    ReadAs limit ending layer w e := by
  induction h with
  | @descend layer below w e hNext _ ih =>
      have hBelow := Layer.tightness_of_next? hNext
      intro toks r hKinds hWithin hCalled hEnd
      rcases ih toks r hKinds hWithin hCalled hEnd with
        ⟨hOperand, hClimb⟩
      refine ⟨fun hTight => hOperand (by omega), ?_⟩
      intro least hLeast hStops
      exact hClimb least (by omega) (hStops.mono (by omega))
  | operator hNext hOp _ hRight ihLeft ihRight =>
      exact readAs_operator hNext hOp hRight.ne_nil ihLeft ihRight
  | sign hOp hOperand ih => exact readAs_sign hOp hOperand.ne_nil ih
  | int i => exact readAs_literal rfl rfl
  | float x => exact readAs_literal rfl rfl
  | str s => exact readAs_literal rfl rfl
  | true => exact readAs_literal rfl rfl
  | false => exact readAs_literal rfl rfl
  | nil => exact readAs_literal rfl rfl
  | var name => exact readAs_var name
  | call name args hArgs ih => exact readAs_call name args hArgs ih
  | group _ ih => exact readAs_group ih

------------------------------------------------------------
-- What is read derives an expression
------------------------------------------------------------

/-
  The tokens in front of `rest` derive `e` in a layer, and
  nothing behind them calls the name they may end with.
-/
def FoundIn
    (limit : Option Nat)
    (layer : Layer)
    (toks : List Token)
    (e : Expr)
    (rest : List Token) : Prop :=
  ∃ w, toks = w ++ rest ∧ Derives layer (kinds w) e ∧
    e.Within limit ∧ NotCalled (kinds w) rest

/-
  Arguments and the closing parenthesis stand in front of
  `rest`; the tokens of each argument derive it.
-/
def ArgumentsIn
    (limit : Option Nat)
    (toks : List Token)
    (es : List Expr)
    (rest : List Token) : Prop :=
  ∃ (inner : List Token) (t : Token)
    (args : List (List TokenKind × Expr)),
    toks = inner ++ t :: rest ∧ t.kind = .symbol .parenR ∧
      kinds inner =
        [.symbol .comma].intercalate (args.map Prod.fst) ∧
      es = args.map Prod.snd ∧
      ∀ a ∈ args, Derives .or a.1 a.2 ∧ a.2.Within limit

/-
  All readers of expressions find what they should in the
  given tokens. When an expression is extended, `before` are
  the tokens it was read from, in a layer `j` that is not too
  loose for what comes next.
-/
structure Sound
    (limit : Option Nat)
    (ending : Ending)
    (toks : List Token) : Prop where
  operand :
    ∀ e rest, outcome (operand limit ending toks) = .ok (e, rest) →
      FoundIn limit .unary toks e rest
  climb :
    ∀ least e rest,
      outcome (climb limit ending least toks) = .ok (e, rest) →
        FoundIn limit (.above least) toks e rest ∧ Stops least rest
  extend :
    ∀ least j before left e rest, least ≤ j →
      Derives (.above j) (kinds before) left →
      left.Within limit → NotCalled (kinds before) toks →
      Stops (j + 1) toks →
      outcome (extend limit ending least left toks) = .ok (e, rest) →
        FoundIn limit (.above least) (before ++ toks) e rest ∧
          Stops least rest
  someArguments :
    ∀ es rest,
      outcome (someArguments limit ending toks) = .ok (es, rest) →
        ArgumentsIn limit toks es rest ∧ es ≠ []
  arguments :
    ∀ es rest,
      outcome (arguments limit ending toks) = .ok (es, rest) →
        ArgumentsIn limit toks es rest

/- A reader that succeeds has read something. -/
theorem FoundIn.length_lt
    {layer : Layer}
    {toks rest : List Token}
    {e : Expr}
    (h : FoundIn limit layer toks e rest) :
    rest.length < toks.length := by
  rcases h with ⟨w, rfl, hDerives, _, _⟩
  have hNe : w ≠ [] := by
    rintro rfl
    exact hDerives.ne_nil rfl
  have hPos := List.length_pos_iff.mpr hNe
  simp only [List.length_append]
  omega

/- A single token that derives an expression of height one. -/
theorem foundIn_token
    {t : Token}
    {e : Expr}
    {rest : List Token}
    (hLimit : ∀ n ∈ limit, 0 < n)
    (hDerives : Derives .primary [t.kind] e)
    (hHeight : e.height = 1)
    (hCalled : NotCalled [t.kind] rest) :
    FoundIn limit .unary (t :: rest) e rest := by
  refine ⟨[t], rfl, .descend rfl hDerives, ?_, hCalled⟩
  intro n hn
  rw [hHeight]
  exact hLimit n hn

/- A literal token derives its literal. -/
theorem derives_of_literal?
    {k : TokenKind}
    {e : Expr}
    (h : literal? k = some e) :
    Derives .primary [k] e ∧ e.height = 1 ∧
      ∀ rest, NotCalled [k] rest := by
  have hLast :
      (∀ name, k ≠ .ident name) → ∀ rest, NotCalled [k] rest := by
    intro hNoName rest name hName
    exact absurd (Option.some.inj hName) (hNoName name)
  cases k with
  | ident name => cases h
  | int i =>
      cases h
      exact ⟨.int i, rfl, hLast (by simp)⟩
  | float x =>
      cases h
      exact ⟨.float x, rfl, hLast (by simp)⟩
  | str s =>
      cases h
      exact ⟨.str s, rfl, hLast (by simp)⟩
  | symbol s =>
      cases s <;> cases h
      · exact ⟨.true, rfl, hLast (by simp)⟩
      · exact ⟨.false, rfl, hLast (by simp)⟩
      · exact ⟨.nil, rfl, hLast (by simp)⟩

/- An operand that is read derives what it is read as. -/
theorem foundIn_of_operand
    {toks : List Token}
    (hLimit : ∀ n ∈ limit, 0 < n)
    (ih : ∀ shorter : List Token, shorter.length < toks.length →
      Sound limit ending shorter)
    (e : Expr)
    (rest : List Token)
    (h : outcome (operand limit ending toks) = .ok (e, rest)) :
    FoundIn limit .unary toks e rest := by
  cases toks with
  | nil =>
      rw [outcome_operand_nil] at h
      cases h
  | cons t behind =>
      rcases operand_begins h with
        ⟨op, hOp⟩ | ⟨hOp, literal, hLiteral⟩ | ⟨name, hName⟩ | hOpen
      · -- A sign and its operand.
        rw [outcome_operand_unary behind hOp] at h
        rcases bind_succeeds_iff.mp h with
          ⟨⟨inner, left⟩, hInner, hThen⟩
        rcases bind_succeeds_iff.mp hThen with ⟨e', hBounded, hLast⟩
        rcases boundedTree_eq_ok.mp hBounded with ⟨rfl, hWithin⟩
        cases hLast
        rcases (ih behind (by simp)).operand _ _ hInner with
          ⟨w, rfl, hDerives, _, hCalled⟩
        rcases Layer.exists_of_unaryOp? hOp with ⟨s, hKind, hSign⟩
        refine ⟨t :: w, rfl, ?_, hWithin, ?_⟩
        · rw [kinds_cons, hKind]
          exact .sign hSign hDerives
        · rw [kinds_cons, ← List.singleton_append]
          exact (notCalled_append hDerives.ne_nil).mpr hCalled
      · rw [outcome_operand_literal behind hOp hLiteral] at h
        cases h
        rcases derives_of_literal? hLiteral with
          ⟨hDerives, hHeight, hCalled⟩
        exact foundIn_token hLimit hDerives hHeight (hCalled rest)
      · cases hAccept : accept? .parenL behind with
        | none =>
            have hNext := head_ne_of_accept?_eq_none hAccept
            rw [outcome_operand_var hName hNext] at h
            rcases bind_succeeds_iff.mp h with ⟨_, _, hLast⟩
            cases hLast
            refine foundIn_token hLimit ?_ rfl ?_
            · rw [hName]
              exact .var name
            · intro _ _
              exact hNext
        | some p =>
            rcases accept?_eq_some hAccept with
              ⟨u, args, hOpen, rfl, _⟩
            rw [outcome_operand_call args hName hOpen] at h
            rcases bind_succeeds_iff.mp h with
              ⟨⟨es, left⟩, hArguments, hThen⟩
            rcases bind_succeeds_iff.mp hThen with
              ⟨e', hBounded, hLast⟩
            rcases boundedTree_eq_ok.mp hBounded with ⟨rfl, hWithin⟩
            cases hLast
            have hShorter :
                args.length < (t :: u :: args).length := by
              simp only [List.length_cons]
              omega
            rcases (ih args hShorter).arguments _ _ hArguments with
              ⟨inner, v, args, hSplit, hClose, hInner, rfl, hArgs⟩
            refine ⟨t :: u :: (inner ++ [v]), ?_, ?_, hWithin, ?_⟩
            · simp [hSplit]
            · rw [kinds_cons, kinds_cons, kinds_append, kinds_cons,
                hName, hOpen, hInner, hClose, kinds_nil]
              exact .descend rfl
                (.call name args fun a ha => (hArgs a ha).1)
            · rw [← List.cons_append, ← List.cons_append,
                kinds_append, kinds_cons v [], hClose]
              exact notCalled_symbol _ _ _
      · rw [outcome_operand_group behind hOpen] at h
        rcases bind_succeeds_iff.mp h with
          ⟨⟨inner, next⟩, hInner, hThen⟩
        rcases bind_succeeds_iff.mp hThen with
          ⟨⟨_, left⟩, hExpect, hLast⟩
        cases hLast
        rcases outcome_expect_eq_ok hExpect with ⟨u, hClose, rfl⟩
        rcases ((ih behind (by simp)).climb 0 _ _ hInner).1 with
          ⟨w, rfl, hDerives, hWithin, _⟩
        refine ⟨t :: (w ++ [u]), by simp, ?_, hWithin, ?_⟩
        · rw [kinds_cons, kinds_append, kinds_cons, hOpen, hClose,
            kinds_nil]
          exact .descend rfl (.group hDerives)
        · rw [← List.cons_append, kinds_append, kinds_cons u [], hClose]
          exact notCalled_symbol _ _ _

/- An expression with the operators read behind it. -/
theorem foundIn_of_extend
    {toks : List Token}
    (ih : ∀ shorter : List Token, shorter.length < toks.length →
      Sound limit ending shorter)
    (least j : Nat)
    (before : List Token)
    (left e : Expr)
    (rest : List Token)
    (hLeast : least ≤ j)
    (hLeft : Derives (.above j) (kinds before) left)
    (hWithin : left.Within limit)
    (hCalled : NotCalled (kinds before) toks)
    (hStops : Stops (j + 1) toks)
    (h : outcome (extend limit ending least left toks) =
      .ok (e, rest)) :
    FoundIn limit (.above least) (before ++ toks) e rest ∧
      Stops least rest := by
  cases toks with
  | nil =>
      rw [outcome_extend_nil] at h
      rcases bind_succeeds_iff.mp h with ⟨_, _, hLast⟩
      cases hLast
      constructor
      · exact ⟨before, rfl, hLeft.lower hLeast, hWithin, hCalled⟩
      · intro t hHead
        cases hHead
  | cons t behind =>
      by_cases hLoose :
          ∀ op ∈ binaryOp? t.kind, op.precedence ≤ least
      · rw [outcome_extend_stop left behind hLoose] at h
        cases h
        refine ⟨⟨before, rfl, hLeft.lower hLeast, hWithin, hCalled⟩, ?_⟩
        intro u hHead
        rcases Option.some.inj hHead with rfl
        exact hLoose
      · simp only [not_forall, Nat.not_le] at hLoose
        rcases hLoose with ⟨op, hOp, hTight⟩
        have hAtMost : op.precedence ≤ j + 1 := hStops t rfl op hOp
        rw [outcome_extend_op left behind hOp hTight] at h
        rcases bind_succeeds_iff.mp h with
          ⟨⟨right, next⟩, hRight, hThen⟩
        rcases bind_succeeds_iff.mp hThen with ⟨e', hBounded, hLast⟩
        rcases boundedTree_eq_ok.mp hBounded with ⟨rfl, hWithin'⟩
        rcases (ih behind (by simp)).climb _ _ _ hRight with
          ⟨⟨w, rfl, hDerives, _, hCalled'⟩, hStops'⟩
        rcases Layer.exists_of_binaryOp? hOp with
          ⟨s, hKind, hMem, hNext, hPos⟩
        -- The new expression stands in the layer of its operator.
        have hBinary :
            Derives (.above (op.precedence - 1))
              (kinds (before ++ t :: w)) (.binary op left right) := by
          rw [kinds_append, kinds_cons, hKind]
          exact .operator hNext hMem (hLeft.lower (by omega)) hDerives
        have hShorter : next.length < (t :: (w ++ next)).length := by
          simp only [List.length_cons, List.length_append]
          omega
        have hGoOn :=
          (ih next hShorter).extend least (op.precedence - 1)
            (before ++ t :: w) _ e rest (by omega) hBinary hWithin'
            (by
              rw [kinds_append, kinds_cons, ← List.singleton_append,
                ← List.append_assoc]
              exact (notCalled_append hDerives.ne_nil).mpr hCalled')
            (hStops'.mono (by omega)) hLast
        simpa using hGoOn

/- An operand with the operators read behind it. -/
theorem foundIn_of_climb
    {toks : List Token}
    (hLimit : ∀ n ∈ limit, 0 < n)
    (ih : ∀ shorter : List Token, shorter.length < toks.length →
      Sound limit ending shorter)
    (least : Nat)
    (e : Expr)
    (rest : List Token)
    (h : outcome (climb limit ending least toks) = .ok (e, rest)) :
    FoundIn limit (.above least) toks e rest ∧ Stops least rest := by
  rw [outcome_climb] at h
  rcases bind_succeeds_iff.mp h with ⟨⟨left, next⟩, hLeft, hLast⟩
  have hFound := foundIn_of_operand hLimit ih left next hLeft
  have hShorter := hFound.length_lt
  rcases hFound with ⟨w, rfl, hDerives, hWithin, hCalled⟩
  -- An operand stands in the last layer, behind which all
  -- operators bind.
  apply (ih next hShorter).extend least (least + 6) w left e rest
    (Nat.le_add_right least 6) hDerives hWithin hCalled ?_ hLast
  intro t _ op _
  have hLe := op.precedence_le
  omega

/- Arguments, of which there is at least one. -/
theorem argumentsIn_of_someArguments
    {toks : List Token}
    (hLimit : ∀ n ∈ limit, 0 < n)
    (ih : ∀ shorter : List Token, shorter.length < toks.length →
      Sound limit ending shorter)
    (es : List Expr)
    (rest : List Token)
    (h : outcome (someArguments limit ending toks) = .ok (es, rest)) :
    ArgumentsIn limit toks es rest ∧ es ≠ [] := by
  rw [outcome_someArguments] at h
  rcases bind_succeeds_iff.mp h with ⟨⟨e, next⟩, hFirst, hThen⟩
  have hFound := (foundIn_of_climb hLimit ih 0 e next hFirst).1
  have hShorter := hFound.length_lt
  rcases hFound with ⟨w, rfl, hDerives, hWithin, _⟩
  simp only [moreArguments] at hThen
  cases hAccept : accept? .comma next with
  | none =>
      simp only [hAccept] at hThen
      rcases bind_succeeds_iff.mp hThen with
        ⟨⟨_, left⟩, hExpect, hLast⟩
      cases hLast
      rcases outcome_expect_eq_ok hExpect with ⟨t, hClose, rfl⟩
      refine ⟨⟨w, t, [(kinds w, e)], rfl, hClose, ?_, rfl, ?_⟩, ?_⟩
      · simp
      · simpa using ⟨hDerives, hWithin⟩
      · exact List.cons_ne_nil e []
  | some p =>
      simp only [hAccept] at hThen
      rcases bind_succeeds_iff.mp hThen with
        ⟨⟨others, left⟩, hOthers, hLast⟩
      cases hLast
      rcases accept?_eq_some hAccept with
        ⟨comma, more, hComma, rfl, hRest⟩
      rw [hRest] at hOthers
      have hMoreShorter :
          more.length < (w ++ comma :: more).length := by
        simp only [List.length_cons, List.length_append]
        omega
      rcases (ih more hMoreShorter).someArguments _ _ hOthers with
        ⟨⟨inner, t, args, rfl, hClose, hInner, rfl, hArgs⟩, hNe⟩
      refine ⟨⟨w ++ comma :: inner, t, (kinds w, e) :: args, ?_,
        hClose, ?_, rfl, ?_⟩, ?_⟩
      · simp
      · cases args with
        | nil => exact absurd rfl hNe
        | cons arg args =>
            rw [kinds_append, kinds_cons, hComma, hInner]
            simp [List.intercalate]
      · intro a ha
        rcases List.mem_cons.mp ha with rfl | ha
        · exact ⟨hDerives, hWithin⟩
        · exact hArgs a ha
      · exact List.cons_ne_nil e _

/- The arguments of a call. -/
theorem argumentsIn_of_arguments
    {toks : List Token}
    (hLimit : ∀ n ∈ limit, 0 < n)
    (ih : ∀ shorter : List Token, shorter.length < toks.length →
      Sound limit ending shorter)
    (es : List Expr)
    (rest : List Token)
    (h : outcome (arguments limit ending toks) = .ok (es, rest)) :
    ArgumentsIn limit toks es rest := by
  cases hAccept : accept? .parenR toks with
  | none =>
      rw [outcome_arguments_open
        (head_ne_of_accept?_eq_none hAccept)] at h
      exact (argumentsIn_of_someArguments hLimit ih es rest h).1
  | some p =>
      rcases accept?_eq_some hAccept with ⟨t, behind, hClose, rfl, _⟩
      rw [outcome_arguments_close behind hClose] at h
      cases h
      exact ⟨[], t, [], rfl, hClose, rfl, rfl, by simp⟩

/-
  Every reader finds what it should, by induction on the
  tokens left.
-/
theorem sound
    (hLimit : ∀ n ∈ limit, 0 < n)
    (toks : List Token) :
    Sound limit ending toks := by
  induction hLength : toks.length using Nat.strongRecOn
    generalizing toks with
  | ind n ih =>
      have ih' : ∀ shorter : List Token,
          shorter.length < toks.length → Sound limit ending shorter := by
        intro shorter hShorter
        exact ih shorter.length (hLength ▸ hShorter) shorter rfl
      exact
        { operand := foundIn_of_operand hLimit ih'
          climb := foundIn_of_climb hLimit ih'
          extend := foundIn_of_extend ih'
          someArguments := argumentsIn_of_someArguments hLimit ih'
          arguments := argumentsIn_of_arguments hLimit ih' }

------------------------------------------------------------
-- Reading is deriving
------------------------------------------------------------

/- What derives an expression is read as a whole expression. -/
theorem outcome_expression_of_derives
    {w r : List Token}
    {e : Expr}
    (hDerives : Derives .or (kinds w) e)
    (hWithin : e.Within limit)
    (hStops : Stops 0 r)
    (hCalled : NotCalled (kinds w) r)
    (hEnd : r ≠ [] ∨ ending.look = .ok ()) :
    outcome (expression limit ending (w ++ r)) = .ok (e, r) :=
  (readAs_of_derives hDerives).outcome_climb_zero rfl hWithin
    hCalled hStops hEnd

/- What is read as a whole expression derives it. -/
theorem derives_of_outcome_expression
    {toks rest : List Token}
    {e : Expr}
    (hLimit : ∀ n ∈ limit, 0 < n)
    (h : outcome (expression limit ending toks) = .ok (e, rest)) :
    FoundIn limit .or toks e rest ∧ Stops 0 rest :=
  (sound hLimit toks).climb 0 e rest h

/-
  The reader takes the tokens `w` in front of `r` for the
  expression `e` exactly when `w` derives `e` in the layered
  grammar, `e` is not too high, and what comes next is neither
  an operator nor the opening parenthesis of a call.
-/
theorem expression_iff_derives
    (w r : List Token)
    (pos : Position)
    (e : Expr) :
    (∃ h, expression (some maxNesting) (.endOfInput pos) (w ++ r) =
        .ok ⟨e, r, h⟩) ↔
      Derives .or (kinds w) e ∧
        e.height ≤ maxNesting ∧
        (∀ t ∈ r.head?, ∀ layer : Layer, ∀ s op,
          (s, op) ∈ layer.operators → t.kind ≠ .symbol s) ∧
        (∀ name, (kinds w).getLast? = some (.ident name) →
          ∀ t ∈ r.head?, t.kind ≠ .symbol .parenL) := by
  rw [← outcome_eq_ok]
  constructor
  · intro h
    rcases derives_of_outcome_expression (by simp [maxNesting]) h with
      ⟨⟨w', hSplit, hDerives, hWithin, hCalled⟩, hStops⟩
    rcases List.append_cancel_right hSplit with rfl
    refine ⟨hDerives, hWithin maxNesting rfl, ?_, hCalled⟩
    intro t hHead layer s op hMem hKind
    have hOp := (Layer.of_mem_operators hMem).1
    rw [← hKind] at hOp
    have hLe := hStops t hHead op hOp
    have hPos := op.precedence_pos
    omega
  · rintro ⟨hDerives, hHeight, hNoOp, hCalled⟩
    apply outcome_expression_of_derives hDerives
    · intro n hn
      rcases Option.some.inj hn with rfl
      exact hHeight
    · intro t hHead op hOp
      rcases Layer.exists_of_binaryOp? hOp with ⟨s, hKind, hMem, _⟩
      exact absurd hKind (hNoOp t hHead _ s op hMem)
    · exact hCalled
    · exact .inr rfl

end Parse

end DynScript
