import DynScript.Parse.Reader
import DynScript.Proofs.Parse.Grammar
import DynScript.Proofs.Token.Literal

/-
  The trees that can be written as source text: their names
  are names, their numbers have no sign, no expression is too
  high and no block is nested too deep.

  Key definitions include:
    * `Expr.Writable`
    * `Stmt.Holds`
    * `Stmt.nesting`
    * `Block.nesting`
    * `Block.WellFormed`
-/

namespace DynScript

------------------------------------------------------------
-- Expressions
------------------------------------------------------------

mutual

/-
  An expression whose names are names and whose numbers are
  finite and have no sign. Texts are arbitrary.
-/
def Expr.Writable : Expr → Prop
  | .int i => 0 ≤ i.toInt
  | .float x =>
    Decimal.isFinite x = true ∧ Decimal.isNegative x = false
  | .str _ => True
  | .bool _ => True
  | .nil => True
  | .var name => IsName name
  | .unary _ e => e.Writable
  | .binary _ l r => l.Writable ∧ r.Writable
  | .call name args => IsName name ∧ Expr.AllWritable args

/- A list of such expressions. -/
def Expr.AllWritable : List Expr → Prop
  | [] => True
  | e :: es => e.Writable ∧ Expr.AllWritable es

end

mutual

def Expr.decidableWritable : (e : Expr) → Decidable e.Writable
  | .int i => inferInstanceAs (Decidable (0 ≤ i.toInt))
  | .float _ => inferInstanceAs (Decidable (_ ∧ _))
  | .str _ => inferInstanceAs (Decidable True)
  | .bool _ => inferInstanceAs (Decidable True)
  | .nil => inferInstanceAs (Decidable True)
  | .var name => inferInstanceAs (Decidable (IsName name))
  | .unary _ e => Expr.decidableWritable e
  | .binary _ l r =>
    have := Expr.decidableWritable l
    have := Expr.decidableWritable r
    inferInstanceAs (Decidable (l.Writable ∧ r.Writable))
  | .call name args =>
    have := Expr.decidableAllWritable args
    inferInstanceAs (Decidable (IsName name ∧ Expr.AllWritable args))

def Expr.decidableAllWritable :
    (es : List Expr) → Decidable (Expr.AllWritable es)
  | [] => inferInstanceAs (Decidable True)
  | e :: es =>
    have := Expr.decidableWritable e
    have := Expr.decidableAllWritable es
    inferInstanceAs (Decidable (e.Writable ∧ Expr.AllWritable es))

end

instance : DecidablePred Expr.Writable :=
  Expr.decidableWritable

theorem Expr.allWritable_iff
    {es : List Expr} :
    Expr.AllWritable es ↔ ∀ e ∈ es, e.Writable := by
  induction es with
  | nil => simp [Expr.AllWritable]
  | cons e es ih => simp [Expr.AllWritable, ih]

------------------------------------------------------------
-- Statements
------------------------------------------------------------

mutual

/-
  `name` holds of all names that a statement binds, and `expr`
  of all expressions in it.
-/
def Stmt.Holds
    (name : String → Prop)
    (expr : Expr → Prop) : Stmt → Prop
  | .assign x e => name x ∧ expr e
  | .branch test yes none =>
    expr test ∧ Stmt.HoldsSeq name expr yes
  | .branch test yes (some no) =>
    expr test ∧ Stmt.HoldsSeq name expr yes ∧
      Stmt.HoldsSeq name expr no
  | .function f params body =>
    name f ∧ (∀ x ∈ params, name x) ∧
      Stmt.HoldsSeq name expr body
  | .ret value => ∀ e ∈ value, expr e
  | .expr e => expr e

/- The same of all statements of a block. -/
def Stmt.HoldsSeq
    (name : String → Prop)
    (expr : Expr → Prop) : List Stmt → Prop
  | [] => True
  | s :: ss => s.Holds name expr ∧ Stmt.HoldsSeq name expr ss

end

section Decidable

variable {name : String → Prop}
variable {expr : Expr → Prop}
variable [DecidablePred name] [DecidablePred expr]

mutual

def Stmt.decidableHolds : (s : Stmt) → Decidable (s.Holds name expr)
  | .assign x e => inferInstanceAs (Decidable (name x ∧ expr e))
  | .branch test yes none =>
    have := Stmt.decidableHoldsSeq yes
    inferInstanceAs
      (Decidable (expr test ∧ Stmt.HoldsSeq name expr yes))
  | .branch test yes (some no) =>
    have := Stmt.decidableHoldsSeq yes
    have := Stmt.decidableHoldsSeq no
    inferInstanceAs
      (Decidable (expr test ∧ Stmt.HoldsSeq name expr yes ∧
        Stmt.HoldsSeq name expr no))
  | .function f params body =>
    have := Stmt.decidableHoldsSeq body
    inferInstanceAs
      (Decidable (name f ∧ (∀ x ∈ params, name x) ∧
        Stmt.HoldsSeq name expr body))
  | .ret none => isTrue (fun _ he => nomatch he)
  | .ret (some e) =>
    decidable_of_iff (expr e)
      ⟨fun h _ he => Option.some.inj he ▸ h, fun h => h e rfl⟩
  | .expr e => inferInstanceAs (Decidable (expr e))

def Stmt.decidableHoldsSeq :
    (ss : List Stmt) → Decidable (Stmt.HoldsSeq name expr ss)
  | [] => inferInstanceAs (Decidable True)
  | s :: ss =>
    have := Stmt.decidableHolds s
    have := Stmt.decidableHoldsSeq ss
    inferInstanceAs
      (Decidable (s.Holds name expr ∧ Stmt.HoldsSeq name expr ss))

end

instance : DecidablePred (Stmt.HoldsSeq name expr) :=
  Stmt.decidableHoldsSeq

end Decidable

mutual

/- How many blocks of a statement stand inside one another. -/
def Stmt.nesting : Stmt → Nat
  | .assign _ _ => 0
  | .branch _ yes none => Stmt.nestingSeq yes + 1
  | .branch _ yes (some no) =>
    max (Stmt.nestingSeq yes) (Stmt.nestingSeq no) + 1
  | .function _ _ body => Stmt.nestingSeq body + 1
  | .ret _ => 0
  | .expr _ => 0

/- The same for the statements of a block. -/
def Stmt.nestingSeq : List Stmt → Nat
  | [] => 0
  | s :: ss => max s.nesting (Stmt.nestingSeq ss)

end

/- How many blocks of a program stand inside one another. -/
def Block.nesting
    (b : Block) : Nat :=
  Stmt.nestingSeq b

------------------------------------------------------------
-- Programs
------------------------------------------------------------

/- An expression that can be written and is not too high. -/
def Expr.WritableWithin
    (limit : Option Nat)
    (e : Expr) : Prop :=
  e.Writable ∧ e.Within limit

instance
    (limit : Option Nat)
    (levels : Nat) :
    Decidable (Fits limit levels) :=
  match limit with
  | none => isTrue (fun _ hn => nomatch hn)
  | some n =>
    decidable_of_iff (levels ≤ n)
      ⟨fun h _ hm => Option.some.inj hm ▸ h, fun h => h n rfl⟩

instance
    (limit : Option Nat) :
    DecidablePred (Expr.WritableWithin limit) :=
  fun e =>
    inferInstanceAs (Decidable (e.Writable ∧ Fits limit e.height))

/- A block with such expressions and with names for names. -/
def Block.WritableWithin
    (limit : Option Nat)
    (b : Block) : Prop :=
  Stmt.HoldsSeq IsName (Expr.WritableWithin limit) b

/- A program that can be written and read again. -/
structure Block.WellFormed
    (b : Block) : Prop where
  writable : Block.WritableWithin (some maxNesting) b
  nesting_le : Block.nesting b ≤ maxNesting

instance : DecidablePred Block.WellFormed :=
  fun b =>
    decidable_of_iff
      (Stmt.HoldsSeq IsName (Expr.WritableWithin (some maxNesting)) b ∧
        Block.nesting b ≤ maxNesting)
      ⟨fun h => ⟨h.1, h.2⟩, fun h => ⟨h.writable, h.nesting_le⟩⟩

end DynScript
