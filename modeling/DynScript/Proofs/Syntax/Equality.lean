import DynScript.Proofs.Decimal.Order
import DynScript.Proofs.Syntax.WellFormed

/-
  Trees are compared node by node, with floating point literals
  as numbers. So a tree equals itself exactly if none of its
  literals is an undefined number.

  Key definitions include:
    * `Expr.Defined`
    * `Block.Defined`

  Main statements include:
    * `Expr.beq_self_iff`
    * `Block.beq_self_iff`
-/

namespace DynScript

------------------------------------------------------------
-- Expressions
------------------------------------------------------------

mutual

/- No literal of an expression is an undefined number. -/
def Expr.Defined : Expr → Prop
  | .float x => x.isNaN = false
  | .unary _ e => e.Defined
  | .binary _ l r => l.Defined ∧ r.Defined
  | .call _ args => Expr.AllDefined args
  | _ => True

/- The same of all expressions of a list. -/
def Expr.AllDefined : List Expr → Prop
  | [] => True
  | e :: es => e.Defined ∧ Expr.AllDefined es

end

mutual

theorem Expr.beq_self_iff :
    (e : Expr) → (e.beq e = true ↔ e.Defined)
  | .int i => by simp [Expr.beq, Expr.Defined]
  | .float x => by
      rw [Expr.beq, Expr.Defined]
      exact Decimal.beq_self_iff
  | .str s => by simp [Expr.beq, Expr.Defined]
  | .bool b => by simp [Expr.beq, Expr.Defined]
  | .nil => by simp [Expr.beq, Expr.Defined]
  | .var name => by simp [Expr.beq, Expr.Defined]
  | .unary op e => by
      simp [Expr.beq, Expr.Defined, Expr.beq_self_iff e]
  | .binary op l r => by
      simp [Expr.beq, Expr.Defined, Expr.beq_self_iff l,
        Expr.beq_self_iff r]
  | .call name args => by
      simp [Expr.beq, Expr.Defined, Expr.beqList_self_iff args]

theorem Expr.beqList_self_iff :
    (es : List Expr) → (Expr.beqList es es = true ↔ Expr.AllDefined es)
  | [] => by simp [Expr.beqList, Expr.AllDefined]
  | e :: es => by
      simp [Expr.beqList, Expr.AllDefined, Expr.beq_self_iff e,
        Expr.beqList_self_iff es]

end

------------------------------------------------------------
-- Statements
------------------------------------------------------------

/- No literal of a block is an undefined number. -/
def Block.Defined
    (b : Block) : Prop :=
  Stmt.HoldsSeq (fun _ => True) Expr.Defined b

/- Expressions of a statement equal themselves if they are defined. -/
theorem Expr.beq_self_iff_defined
    (e : Expr) :
    (e == e) = true ↔ e.Defined :=
  e.beq_self_iff

mutual

theorem Stmt.beq_self_iff :
    (s : Stmt) →
      (s.beq s = true ↔ s.Holds (fun _ => True) Expr.Defined)
  | .assign name e => by
      simp [Stmt.beq, Stmt.Holds, Expr.beq_self_iff_defined]
  | .branch test yes none => by
      simp [Stmt.beq, Stmt.Holds, Expr.beq_self_iff_defined,
        Stmt.beqList_self_iff yes]
  | .branch test yes (some no) => by
      simp [Stmt.beq, Stmt.Holds, Expr.beq_self_iff_defined,
        Stmt.beqList_self_iff yes, Stmt.beqList_self_iff no, and_assoc]
  | .function name params body => by
      simp [Stmt.beq, Stmt.Holds, Stmt.beqList_self_iff body]
  | .ret none => by simp [Stmt.beq, Stmt.Holds]
  | .ret (some e) => by
      simp [Stmt.beq, Stmt.Holds, Expr.beq_self_iff_defined]
  | .expr e => by
      simp [Stmt.beq, Stmt.Holds, Expr.beq_self_iff_defined]

theorem Stmt.beqList_self_iff :
    (b : List Stmt) →
      (Stmt.beqList b b = true ↔
        Stmt.HoldsSeq (fun _ => True) Expr.Defined b)
  | [] => by simp [Stmt.beqList, Stmt.HoldsSeq]
  | s :: ss => by
      simp [Stmt.beqList, Stmt.HoldsSeq, Stmt.beq_self_iff s,
        Stmt.beqList_self_iff ss]

end

/- Blocks are compared as lists of statements. -/
theorem Block.beq_self_iff
    (b : Block) :
    (b == b) = true ↔ b.Defined := by
  have hList : (b == b) = Stmt.beqList b b := by
    induction b with
    | nil => rfl
    | cons s ss ih =>
        change (s.beq s && ss == ss) = _
        rw [ih, Stmt.beqList]
  rw [hList]
  exact Stmt.beqList_self_iff b

end DynScript
