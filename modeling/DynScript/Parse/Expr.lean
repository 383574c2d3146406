import DynScript.Parse.Error

/-
  This file reads expressions by precedence climbing. A reader
  takes the tokens that are left and gives back a tree and the
  tokens behind it; that fewer are left is part of the result,
  which is why reading ends. With a tree the readers give back
  its height, which they count while they read. The limit is
  put on that number, and no tree is gone through a second
  time to be measured. The host stack, which is grown for
  deep expressions, is not part of what is modelled.

  Key definitions include:
    * `Parsed`
    * `Sized`
    * `Parse.bounded`
    * `Parse.sizedOperand`
    * `Parse.sizedClimb`
    * `Parse.sizedExtend`
    * `Parse.expression`
-/

namespace DynScript

------------------------------------------------------------
-- Results
------------------------------------------------------------

/-
  A tree and the tokens behind it, fewer than `bound` of them.
-/
structure Parsed
    (α : Type)
    (bound : Nat) where
  value : α
  rest : List Token
  lt : rest.length < bound

/- What is shorter than something shorter is shorter. -/
theorem shorter
    {as bs cs : List Token}
    (h₁ : bs.length < cs.length)
    (h₂ : as.length < bs.length) :
    as.length < cs.length :=
  Nat.lt_trans h₂ h₁

/- The same result where more tokens were given. -/
def Parsed.widen
    {α : Type}
    {m n : Nat}
    (p : Parsed α m)
    (h : m ≤ n) : Parsed α n :=
  ⟨p.value, p.rest, Nat.lt_of_lt_of_le p.lt h⟩

/- A result that leaves all of the given tokens. -/
def Parsed.leaving
    {α : Type}
    (value : α)
    (toks : List Token) : Parsed α (toks.length + 1) :=
  ⟨value, toks, Nat.lt_succ_self _⟩

/- The result for what is made of the value. -/
def Parsed.map
    {α β : Type}
    {n : Nat}
    (f : α → β)
    (p : Parsed α n) : Parsed β n :=
  ⟨f p.value, p.rest, p.lt⟩

/-
  A tree, or several of them, with the height that was counted
  while reading.
-/
structure Sized
    (α : Type) where
  tree : α
  height : Nat

namespace Parse

------------------------------------------------------------
-- Tokens in expressions
------------------------------------------------------------

/- The operator that a token is before an operand. -/
def unaryOp? : TokenKind → Option UnaryOp
  | .symbol .minus => some .neg
  | .symbol .bang => some .not
  | _ => none

/- The operator that a token is between two operands. -/
def binaryOp? : TokenKind → Option BinaryOp
  | .symbol .plus => some .add
  | .symbol .minus => some .sub
  | .symbol .star => some .mul
  | .symbol .slash => some .div
  | .symbol .percent => some .mod
  | .symbol .eqEq => some .eq
  | .symbol .notEq => some .ne
  | .symbol .lt => some .lt
  | .symbol .le => some .le
  | .symbol .gt => some .gt
  | .symbol .ge => some .ge
  | .symbol .andAnd => some .and
  | .symbol .orOr => some .or
  | _ => none

/- The literal that a token is. -/
def literal? : TokenKind → Option Expr
  | .int i => some (.int i)
  | .float x => some (.float x)
  | .str s => some (.str s)
  | .symbol .kwTrue => some (.bool true)
  | .symbol .kwFalse => some (.bool false)
  | .symbol .kwNil => some .nil
  | _ => none

/-
  A height that is not too great. Without a limit every height
  is accepted.
-/
def bounded
    (limit : Option Nat)
    (pos : Position)
    (height : Nat) : Except ParseError Nat :=
  match limit with
  | none => .ok height
  | some n =>
    if n < height then .error (.tooDeep n pos) else .ok height

/-
  Look at the next token. At the end of the input there is
  none, but a lexical fault is met.
-/
def peek
    (ending : Ending) : List Token → Except ParseError Unit
  | [] => ending.look
  | _ :: _ => .ok ()

/- The tokens behind `s`, if `s` comes next. -/
def accept?
    (s : Symbol) : (toks : List Token) → Option (Parsed Unit toks.length)
  | [] => none
  | t :: rest =>
    if t.kind = .symbol s then some (.leaving () rest) else none

/- The tokens behind `s`, which must come next. -/
def expect
    (ending : Ending)
    (s : Symbol) :
    (toks : List Token) → Except ParseError (Parsed Unit toks.length)
  | [] => .error (ending.fault (.symbol s))
  | t :: rest =>
    if t.kind = .symbol s then
      .ok (.leaving () rest)
    else
      .error (t.fault (.symbol s))

------------------------------------------------------------
-- Expressions
------------------------------------------------------------

mutual

/-
  An operand: a literal, a name, a call, a group, or an
  operator before one.
-/
def sizedOperand
    (limit : Option Nat)
    (ending : Ending)
    (toks : List Token) :
    Except ParseError (Parsed (Sized Expr) toks.length) :=
  match toks with
  | [] => .error (ending.fault .expression)
  | t :: rest =>
    match unaryOp? t.kind with
    | some op => do
      let ⟨e, behind, _⟩ ← sizedOperand limit ending rest
      let height ← bounded limit t.pos (e.height + 1)
      return ⟨⟨.unary op e.tree, height⟩, behind,
        by simp only [List.length_cons]; omega⟩
    | none =>
      match literal? t.kind with
      | some e => .ok (.leaving ⟨e, 1⟩ rest)
      | none =>
        match t.kind with
        | .ident name => do
          peek ending rest
          match accept? .parenL rest with
          | none => return .leaving ⟨.var name, 1⟩ rest
          | some ⟨_, inner, _⟩ =>
            let ⟨args, behind, _⟩ ← sizedArguments limit ending inner
            let height ← bounded limit t.pos (args.height + 1)
            return ⟨⟨.call name args.tree, height⟩, behind,
              by simp only [List.length_cons]; omega⟩
        | .symbol .parenL => do
          let ⟨e, closing, _⟩ ← sizedClimb limit ending 0 rest
          let ⟨_, behind, _⟩ ← expect ending .parenR closing
          return ⟨e, behind, by simp only [List.length_cons]; omega⟩
        | _ => .error (t.fault .expression)
termination_by (toks.length, 0)

/-
  An operand and the operators behind it that bind tighter
  than `least`.
-/
def sizedClimb
    (limit : Option Nat)
    (ending : Ending)
    (least : Nat)
    (toks : List Token) :
    Except ParseError (Parsed (Sized Expr) toks.length) := do
  let ⟨left, rest, _⟩ ← sizedOperand limit ending toks
  let p ← sizedExtend limit ending least left rest
  return p.widen (by omega)
termination_by (toks.length, 1)

/-
  The expression `left`, extended to the right by operators
  that bind tighter than `least`. It may stay as it is.
-/
def sizedExtend
    (limit : Option Nat)
    (ending : Ending)
    (least : Nat)
    (left : Sized Expr)
    (toks : List Token) :
    Except ParseError (Parsed (Sized Expr) (toks.length + 1)) :=
  match toks with
  | [] => do
    ending.look
    return .leaving left []
  | t :: rest =>
    match binaryOp? t.kind with
    | none => .ok (.leaving left (t :: rest))
    | some op =>
      if least < op.precedence then do
        let ⟨right, behind, _⟩ ←
          sizedClimb limit ending op.precedence rest
        let height ← bounded limit t.pos
          (max left.height right.height + 1)
        let p ← sizedExtend limit ending least
          ⟨.binary op left.tree right.tree, height⟩ behind
        return p.widen (by simp only [List.length_cons]; omega)
      else
        .ok (.leaving left (t :: rest))
termination_by (toks.length, 0)

/-
  The arguments of a call, from behind the opening to behind
  the closing parenthesis, with the height of the highest.
-/
def sizedArguments
    (limit : Option Nat)
    (ending : Ending)
    (toks : List Token) :
    Except ParseError (Parsed (Sized (List Expr)) toks.length) :=
  match accept? .parenR toks with
  | some ⟨_, behind, h⟩ => .ok ⟨⟨[], 0⟩, behind, h⟩
  | none => sizedSomeArguments limit ending toks
termination_by (toks.length, 3)

/- At least one argument, up to behind the closing parenthesis. -/
def sizedSomeArguments
    (limit : Option Nat)
    (ending : Ending)
    (toks : List Token) :
    Except ParseError (Parsed (Sized (List Expr)) toks.length) := do
  let ⟨e, next, _⟩ ← sizedClimb limit ending 0 toks
  match accept? .comma next with
  | some ⟨_, rest, _⟩ =>
    let ⟨es, behind, _⟩ ← sizedSomeArguments limit ending rest
    return ⟨⟨e.tree :: es.tree, max e.height es.height⟩, behind,
      by omega⟩
  | none =>
    let ⟨_, behind, _⟩ ← expect ending .parenR next
    return ⟨⟨[e.tree], e.height⟩, behind, by omega⟩
termination_by (toks.length, 2)

end

/- A whole expression, without the height that was counted. -/
def expression
    (limit : Option Nat)
    (ending : Ending)
    (toks : List Token) :
    Except ParseError (Parsed Expr toks.length) :=
  (sizedClimb limit ending 0 toks).map (Parsed.map Sized.tree)

end Parse

end DynScript
