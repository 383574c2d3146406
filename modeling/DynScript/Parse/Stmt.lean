import DynScript.Parse.Expr

/-
  This file reads statements and blocks. A call with a block
  behind it is the definition of a function, and its arguments
  are then the names of the parameters. The readers are given
  the number of blocks that are open and give it back: a block
  adds one before its statements are read and takes it off
  again behind them.

  Key definitions include:
    * `Counted`
    * `Parse.parameters`
    * `Parse.mayOpen`
    * `Parse.countedStatement`
    * `Parse.countedConditional`
    * `Parse.countedBlock`
    * `Parse.countedNext`
    * `Parse.statements`
-/

namespace DynScript

/-
  What was read, with the number of blocks that are open
  behind it.
-/
structure Counted
    (α : Type) where
  value : α
  blocks : Nat

namespace Parse

------------------------------------------------------------
-- Parts of statements
------------------------------------------------------------

/-
  The names of the parameters that arguments stand for. The
  fault of an argument that is no name is put at the brace
  that made it one.
-/
def parameters
    (pos : Position) : List Expr → Except ParseError (List String)
  | [] => .ok []
  | .var name :: es => do
    let names ← parameters pos es
    return name :: names
  | e :: _ => .error (.unexpected .parameterName (.argument e) pos)

/-
  The call and the brace behind it that begin a definition:
  the name, the arguments and the place of the brace.
-/
def heading? : Expr → List Token → Option (String × List Expr × Position)
  | .call name args, t :: _ =>
    if t.kind = .symbol .braceL then some (name, args, t.pos) else none
  | _, _ => none

/- What is left when one semicolon may be skipped. -/
def skipSemicolon
    (ending : Ending)
    (toks : List Token) :
    Except ParseError (Parsed Unit (toks.length + 1)) := do
  peek ending toks
  match accept? .semicolon toks with
  | some p => return p.widen (Nat.le_succ _)
  | none => return .leaving () toks

/- What a `return` gives back, from behind the keyword. -/
def returned
    (limit : Option Nat)
    (ending : Ending)
    (toks : List Token) :
    Except ParseError (Parsed (Option Expr) (toks.length + 1)) :=
  match toks with
  | [] => do
    ending.look
    return .leaving none []
  | t :: rest =>
    if t.kind = .symbol .braceR ∨ t.kind = .symbol .semicolon then
      .ok (.leaving none (t :: rest))
    else do
      let ⟨e, behind, _⟩ ← expression limit ending (t :: rest)
      return ⟨some e, behind, by omega⟩

/- Whether one more block may be opened where `blocks` are open. -/
def mayOpen
    (limit : Option Nat)
    (pos : Position)
    (blocks : Nat) : Except ParseError Unit :=
  match limit with
  | none => .ok ()
  | some n =>
    if n ≤ blocks then .error (.tooDeep n pos) else .ok ()

------------------------------------------------------------
-- Statements
------------------------------------------------------------

mutual

/-
  A statement where `blocks` are open, with the semicolon that
  may end it.
-/
def countedStatement
    (limit : Option Nat)
    (ending : Ending)
    (blocks : Nat)
    (toks : List Token) :
    Except ParseError (Parsed (Counted Stmt) toks.length) := do
  let ⟨s, rest, _⟩ ← countedBareStatement limit ending blocks toks
  let ⟨_, behind, _⟩ ← skipSemicolon ending rest
  return ⟨s, behind, by omega⟩
termination_by (toks.length, 2)

/- A statement without what may end it. -/
def countedBareStatement
    (limit : Option Nat)
    (ending : Ending)
    (blocks : Nat)
    (toks : List Token) :
    Except ParseError (Parsed (Counted Stmt) toks.length) :=
  match toks with
  | ⟨.ident name, _, _⟩ :: ⟨.symbol .assign, _, _⟩ :: rest => do
    let ⟨e, behind, _⟩ ← expression limit ending rest
    return ⟨⟨.assign name e, blocks⟩, behind,
      by simp only [List.length_cons]; omega⟩
  | ⟨.symbol .kwIf, _, _⟩ :: rest => do
    let p ← countedConditional limit ending blocks rest
    return p.widen (by simp only [List.length_cons]; omega)
  | ⟨.symbol .kwReturn, _, _⟩ :: rest => do
    let ⟨e, behind, _⟩ ← returned limit ending rest
    return ⟨⟨.ret e, blocks⟩, behind, by simpa using by omega⟩
  | toks => countedCallOrDefinition limit ending blocks toks
termination_by (toks.length, 1)

/- An expression, or a call that a block turns into a definition. -/
def countedCallOrDefinition
    (limit : Option Nat)
    (ending : Ending)
    (blocks : Nat)
    (toks : List Token) :
    Except ParseError (Parsed (Counted Stmt) toks.length) := do
  let ⟨e, rest, _⟩ ← expression limit ending toks
  match heading? e rest with
  | some (name, args, pos) =>
    let params ← parameters pos args
    let ⟨body, behind, _⟩ ← countedBlock limit ending blocks rest
    return ⟨⟨.function name params body.value, body.blocks⟩, behind,
      by omega⟩
  | none => return ⟨⟨.expr e, blocks⟩, rest, by omega⟩
termination_by (toks.length, 0)

/-
  A conditional, from behind the keyword `if`. What stands
  behind `else` is read with the number of open blocks that
  the first block has left.
-/
def countedConditional
    (limit : Option Nat)
    (ending : Ending)
    (blocks : Nat)
    (toks : List Token) :
    Except ParseError (Parsed (Counted Stmt) toks.length) := do
  let ⟨test, opening, h₁⟩ ← expression limit ending toks
  let ⟨yes, rest, h₂⟩ ← countedBlock limit ending blocks opening
  peek ending rest
  match accept? .kwElse rest with
  | none =>
    return ⟨⟨.branch test yes.value none, yes.blocks⟩, rest,
      shorter h₁ h₂⟩
  | some ⟨_, other, h₃⟩ =>
    have h₃ := shorter (shorter h₁ h₂) h₃
    match accept? .kwIf other with
    | some ⟨_, chain, h₄⟩ =>
      have h₄ := shorter h₃ h₄
      let ⟨s, behind, h₅⟩ ←
        countedConditional limit ending yes.blocks chain
      return ⟨⟨.branch test yes.value (some [s.value]), s.blocks⟩,
        behind, shorter h₄ h₅⟩
    | none =>
      let ⟨no, behind, h₄⟩ ←
        countedBlock limit ending yes.blocks other
      return ⟨⟨.branch test yes.value (some no.value), no.blocks⟩,
        behind, shorter h₃ h₄⟩
termination_by (toks.length, 0)

/-
  A block where `blocks` are open, from its opening to behind
  its closing brace. Its own statements are read with one more
  open.
-/
def countedBlock
    (limit : Option Nat)
    (ending : Ending)
    (blocks : Nat)
    (toks : List Token) :
    Except ParseError (Parsed (Counted Block) toks.length) :=
  match toks with
  | [] => .error (ending.fault (.symbol .braceL))
  | t :: rest =>
    if t.kind = .symbol .braceL then do
      mayOpen limit t.pos blocks
      let ⟨body, behind, hShorter⟩ ←
        countedBlockBody limit ending (blocks + 1) rest
      return ⟨⟨body.value, body.blocks - 1⟩, behind,
        Nat.lt_succ_of_lt hShorter⟩
    else
      .error (t.fault (.symbol .braceL))
termination_by (toks.length, 0)

/- The statements of a block, up to behind its closing brace. -/
def countedBlockBody
    (limit : Option Nat)
    (ending : Ending)
    (blocks : Nat)
    (toks : List Token) :
    Except ParseError (Parsed (Counted Block) toks.length) :=
  match toks with
  | [] => .error (ending.fault (.symbol .braceR))
  | t :: rest =>
    if t.kind = .symbol .semicolon then do
      let p ← countedBlockBody limit ending blocks rest
      return p.widen (by simp only [List.length_cons]; omega)
    else if t.kind = .symbol .braceR then
      .ok (.leaving ⟨[], blocks⟩ rest)
    else do
      let ⟨s, next, _⟩ ←
        countedStatement limit ending blocks (t :: rest)
      let ⟨ss, behind, _⟩ ←
        countedBlockBody limit ending s.blocks next
      return ⟨⟨s.value :: ss.value, ss.blocks⟩, behind, by omega⟩
termination_by (toks.length, 3)

end

------------------------------------------------------------
-- Programs
------------------------------------------------------------

/-
  The next statement of a program and what is left behind it,
  or nothing at the end of the input.
-/
def countedNext
    (limit : Option Nat)
    (ending : Ending)
    (blocks : Nat)
    (toks : List Token) :
    Except ParseError (Option (Parsed (Counted Stmt) toks.length)) :=
  match toks with
  | [] => do
    ending.look
    return none
  | t :: rest =>
    if t.kind = .symbol .semicolon then do
      let p? ← countedNext limit ending blocks rest
      return p?.map (·.widen (by simp only [List.length_cons]; omega))
    else do
      let p ← countedStatement limit ending blocks (t :: rest)
      return some p

/- All statements that are left. -/
def countedStatements
    (limit : Option Nat)
    (ending : Ending)
    (blocks : Nat)
    (toks : List Token) : Except ParseError (Counted Block) := do
  match ← countedNext limit ending blocks toks with
  | none => return ⟨[], blocks⟩
  | some ⟨s, rest, _⟩ =>
    let ss ← countedStatements limit ending s.blocks rest
    return ⟨s.value :: ss.value, ss.blocks⟩
termination_by toks.length

/- The statements of a program, outside of which no block is open. -/
def statements
    (limit : Option Nat)
    (ending : Ending)
    (toks : List Token) : Except ParseError Block :=
  (countedStatements limit ending 0 toks).map Counted.value

end Parse

end DynScript
