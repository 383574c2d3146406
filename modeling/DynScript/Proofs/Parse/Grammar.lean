import Mathlib.Order.Basic
import Mathlib.Data.Nat.Init
import DynScript.Proofs.Parse.Outcome
import DynScript.Proofs.Token.Scanning

/-
  The grammar of expressions in layers, from the loosest
  operators to the operands, on the kinds of the tokens. Every
  layer of operators groups to the left, and parentheses leave
  no trace in the tree.

  Key definitions include:
    * `Layer`
    * `Layer.operators`
    * `Derives`
    * `Stops`
    * `NotCalled`
    * `Fits`

  Main statements include:
    * `Derives.lower`
    * `Derives.begins`
-/

namespace DynScript

------------------------------------------------------------
-- Layers
------------------------------------------------------------

/- The layers of the grammar, the loosest first. -/
inductive Layer where
  | or
  | and
  | equality
  | comparison
  | additive
  | multiplicative
  | unary
  | primary
deriving DecidableEq

namespace Layer

/- The layer whose expressions are the operands of a layer. -/
def next? : Layer → Option Layer
  | or => some and
  | and => some equality
  | equality => some comparison
  | comparison => some additive
  | additive => some multiplicative
  | multiplicative => some unary
  | unary => some primary
  | primary => none

/- The operators between the operands of a layer. -/
def operators : Layer → List (Symbol × BinaryOp)
  | or => [(.orOr, .or)]
  | and => [(.andAnd, .and)]
  | equality => [(.eqEq, .eq), (.notEq, .ne)]
  | comparison => [(.lt, .lt), (.le, .le), (.gt, .gt), (.ge, .ge)]
  | additive => [(.plus, .add), (.minus, .sub)]
  | multiplicative => [(.star, .mul), (.slash, .div), (.percent, .mod)]
  | unary => []
  | primary => []

/- The operators that stand before an operand. -/
def signs : List (Symbol × UnaryOp) :=
  [(.minus, .neg), (.bang, .not)]

end Layer

------------------------------------------------------------
-- Derivations
------------------------------------------------------------

/-
  A sequence of tokens derives an expression in a layer. The
  arguments of a call are given with the tokens of each, which
  commas keep apart.
-/
inductive Derives : Layer → List TokenKind → Expr → Prop where
  | descend
      {layer below : Layer}
      {w : List TokenKind}
      {e : Expr}
      (hNext : layer.next? = some below)
      (hBelow : Derives below w e) :
      Derives layer w e
  | operator
      {layer below : Layer}
      {s : Symbol}
      {op : BinaryOp}
      {u v : List TokenKind}
      {left right : Expr}
      (hNext : layer.next? = some below)
      (hOp : (s, op) ∈ layer.operators)
      (hLeft : Derives layer u left)
      (hRight : Derives below v right) :
      Derives layer (u ++ .symbol s :: v) (.binary op left right)
  | sign
      {s : Symbol}
      {op : UnaryOp}
      {w : List TokenKind}
      {e : Expr}
      (hOp : (s, op) ∈ Layer.signs)
      (hOperand : Derives .unary w e) :
      Derives .unary (.symbol s :: w) (.unary op e)
  | int (i : Int64) :
      Derives .primary [.int i] (.int i)
  | float (x : Float) :
      Derives .primary [.float x] (.float x)
  | str (s : String) :
      Derives .primary [.str s] (.str s)
  | true :
      Derives .primary [.symbol .kwTrue] (.bool true)
  | false :
      Derives .primary [.symbol .kwFalse] (.bool false)
  | nil :
      Derives .primary [.symbol .kwNil] .nil
  | var (name : String) :
      Derives .primary [.ident name] (.var name)
  | call
      (name : String)
      (args : List (List TokenKind × Expr))
      (hArgs : ∀ arg ∈ args, Derives .or arg.1 arg.2) :
      Derives .primary
        (.ident name :: .symbol .parenL ::
          ([.symbol .comma].intercalate (args.map Prod.fst) ++
            [.symbol .parenR]))
        (.call name (args.map Prod.snd))
  | group
      {w : List TokenKind}
      {e : Expr}
      (hInner : Derives .or w e) :
      Derives .primary
        (.symbol .parenL :: (w ++ [.symbol .parenR])) e

------------------------------------------------------------
-- What may follow an expression
------------------------------------------------------------

/- No operator that binds tighter than `tight` comes next. -/
def Stops
    (tight : Nat)
    (toks : List Token) : Prop :=
  ∀ t ∈ toks.head?, ∀ op ∈ Parse.binaryOp? t.kind,
    op.precedence ≤ tight

/- A name at the end of `w` is not called by what comes next. -/
def NotCalled
    (w : List TokenKind)
    (toks : List Token) : Prop :=
  ∀ name, w.getLast? = some (.ident name) →
    ∀ t ∈ toks.head?, t.kind ≠ .symbol .parenL

/- So many levels are within the limit, if there is one. -/
def Fits
    (limit : Option Nat)
    (levels : Nat) : Prop :=
  ∀ n ∈ limit, levels ≤ n

/- An expression is not higher than the limit. -/
def Expr.Within
    (limit : Option Nat)
    (e : Expr) : Prop :=
  Fits limit e.height

------------------------------------------------------------
-- Layers and precedences
------------------------------------------------------------

namespace Layer

/- How tightly the operators of a layer bind. -/
def tightness : Layer → Nat
  | or => 1
  | and => 2
  | equality => 3
  | comparison => 4
  | additive => 5
  | multiplicative => 6
  | unary => 7
  | primary => 8

/- The layer of the expressions without operators up to `least`. -/
def above : Nat → Layer
  | 0 => or
  | 1 => and
  | 2 => equality
  | 3 => comparison
  | 4 => additive
  | 5 => multiplicative
  | _ => unary

/- The next layer binds tighter by one. -/
theorem tightness_of_next?
    {layer below : Layer}
    (h : layer.next? = some below) :
    below.tightness = layer.tightness + 1 := by
  cases layer <;> cases h <;> rfl

/- The operators of a layer are those with its precedence. -/
theorem of_mem_operators
    {layer : Layer}
    {s : Symbol}
    {op : BinaryOp}
    (h : (s, op) ∈ layer.operators) :
    Parse.binaryOp? (.symbol s) = some op ∧
      op.precedence = layer.tightness := by
  cases layer <;>
    simp only [operators, List.mem_cons, Prod.mk.injEq,
      List.not_mem_nil, or_false] at h
  case or => rcases h with ⟨rfl, rfl⟩; exact ⟨rfl, rfl⟩
  case and => rcases h with ⟨rfl, rfl⟩; exact ⟨rfl, rfl⟩
  case equality =>
    rcases h with ⟨rfl, rfl⟩ | ⟨rfl, rfl⟩ <;> exact ⟨rfl, rfl⟩
  case comparison =>
    rcases h with ⟨rfl, rfl⟩ | ⟨rfl, rfl⟩ | ⟨rfl, rfl⟩ | ⟨rfl, rfl⟩ <;>
      exact ⟨rfl, rfl⟩
  case additive =>
    rcases h with ⟨rfl, rfl⟩ | ⟨rfl, rfl⟩ <;> exact ⟨rfl, rfl⟩
  case multiplicative =>
    rcases h with ⟨rfl, rfl⟩ | ⟨rfl, rfl⟩ | ⟨rfl, rfl⟩ <;>
      exact ⟨rfl, rfl⟩

/-
  A token that is an operator is one of the layer below its
  precedence.
-/
theorem exists_of_binaryOp?
    {k : TokenKind}
    {op : BinaryOp}
    (h : Parse.binaryOp? k = some op) :
    ∃ s, k = .symbol s ∧
      (s, op) ∈ (above (op.precedence - 1)).operators ∧
      (above (op.precedence - 1)).next? =
        some (above op.precedence) ∧
      0 < op.precedence := by
  unfold Parse.binaryOp? at h
  split at h <;> cases h
  all_goals
    refine ⟨_, rfl, ?_, rfl, ?_⟩
    · simp [above, operators, BinaryOp.precedence]
    · simp [BinaryOp.precedence]

/- The operators before an operand are the signs. -/
theorem unaryOp?_of_mem_signs
    {s : Symbol}
    {op : UnaryOp}
    (h : (s, op) ∈ signs) :
    Parse.unaryOp? (.symbol s) = some op := by
  simp only [signs, List.mem_cons, Prod.mk.injEq,
    List.not_mem_nil, or_false] at h
  rcases h with ⟨rfl, rfl⟩ | ⟨rfl, rfl⟩ <;> rfl

/- A token that stands before an operand is a sign. -/
theorem exists_of_unaryOp?
    {k : TokenKind}
    {op : UnaryOp}
    (h : Parse.unaryOp? k = some op) :
    ∃ s, k = .symbol s ∧ (s, op) ∈ signs := by
  unfold Parse.unaryOp? at h
  split at h <;> cases h
  all_goals exact ⟨_, rfl, by simp [signs]⟩

end Layer

/- No operator binds tighter than those of the last layer. -/
theorem BinaryOp.precedence_le
    (op : BinaryOp) :
    op.precedence ≤ 6 := by
  cases op <;> decide

/- No operator binds as loosely as none at all. -/
theorem BinaryOp.precedence_pos
    (op : BinaryOp) :
    0 < op.precedence := by
  cases op <;> decide

/- Stopping at looser operators is stopping at tighter ones. -/
theorem Stops.mono
    {m n : Nat}
    {toks : List Token}
    (h : Stops m toks)
    (hLe : m ≤ n) :
    Stops n toks := by
  intro t hHead op hOp
  exact Nat.le_trans (h t hHead op hOp) hLe

------------------------------------------------------------
-- Facts about derivations
------------------------------------------------------------

/-
  What derives an expression in a layer does so in the
  looser ones.
-/
theorem Derives.lower
    {i j : Nat}
    {w : List TokenKind}
    {e : Expr}
    (hLe : i ≤ j)
    (h : Derives (Layer.above j) w e) :
    Derives (Layer.above i) w e := by
  induction j, hLe using Nat.le_induction with
  | base => exact h
  | succ j _ ih =>
      apply ih
      match j, h with
      | 0, h => exact .descend rfl h
      | 1, h => exact .descend rfl h
      | 2, h => exact .descend rfl h
      | 3, h => exact .descend rfl h
      | 4, h => exact .descend rfl h
      | 5, h => exact .descend rfl h
      | _ + 6, h => exact h

/- A token with which an expression can begin. -/
def TokenKind.begins : TokenKind → Bool
  | .symbol s =>
    s ∈ [.minus, .bang, .kwTrue, .kwFalse, .kwNil, .parenL]
  | _ => true

/- A derivation begins with such a token. -/
theorem Derives.begins
    {layer : Layer}
    {w : List TokenKind}
    {e : Expr}
    (h : Derives layer w e) :
    ∃ k rest, w = k :: rest ∧ k.begins := by
  induction h with
  | descend _ _ ih => exact ih
  | operator _ _ _ _ ihLeft _ =>
      rcases ihLeft with ⟨k, rest, rfl, hBegins⟩
      exact ⟨k, _, rfl, hBegins⟩
  | sign hOp _ _ =>
      refine ⟨_, _, rfl, ?_⟩
      simp only [Layer.signs, List.mem_cons, Prod.mk.injEq,
        List.not_mem_nil, or_false] at hOp
      rcases hOp with ⟨rfl, rfl⟩ | ⟨rfl, rfl⟩ <;> rfl
  | int i => exact ⟨_, _, rfl, rfl⟩
  | float x => exact ⟨_, _, rfl, rfl⟩
  | str s => exact ⟨_, _, rfl, rfl⟩
  | true => exact ⟨_, _, rfl, rfl⟩
  | false => exact ⟨_, _, rfl, rfl⟩
  | nil => exact ⟨_, _, rfl, rfl⟩
  | var name => exact ⟨_, _, rfl, rfl⟩
  | call name args _ _ => exact ⟨_, _, rfl, rfl⟩
  | group _ _ => exact ⟨_, _, rfl, rfl⟩

/- No derivation is of nothing. -/
theorem Derives.ne_nil
    {layer : Layer}
    {w : List TokenKind}
    {e : Expr}
    (h : Derives layer w e) :
    w ≠ [] := by
  rcases h.begins with ⟨k, rest, rfl, _⟩
  exact List.cons_ne_nil k rest

end DynScript
