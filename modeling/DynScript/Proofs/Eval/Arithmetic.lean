import Mathlib
import DynScript.Eval.Operator

/-
  Arithmetic on integers is exact. An operator gives the number
  that mathematics gives where 64 bits can hold it; where they
  cannot, it gives an overflow, and never another number.

  Key definitions include:
    * `IsChecked`
    * `IsDivision`

  Main statements include:
    * `isChecked_checkedInt`
    * `overflows_tdiv_iff`
    * `isDivision_intArith`
    * `integers_never_wrap`
-/

namespace DynScript

------------------------------------------------------------
-- The range of integers
------------------------------------------------------------

/- The integers of 64 bits with a sign. -/
theorem fits_iff
    {n : Int} :
    fits n = true ↔ -2 ^ 63 ≤ n ∧ n ≤ 2 ^ 63 - 1 := by
  have hLow : Int64.minValue.toInt = -2 ^ 63 := by decide
  have hHigh : Int64.maxValue.toInt = 2 ^ 63 - 1 := by decide
  rw [fits, Bool.and_eq_true, decide_eq_true_iff, decide_eq_true_iff,
    hLow, hHigh]

------------------------------------------------------------
-- Results that are checked
------------------------------------------------------------

/-
  A result that is the integer `n` where 64 bits can hold it,
  and an overflow of the operator spelled `op` where not.
-/
structure IsChecked
    (op : String)
    (n : Int)
    (result : Except RuntimeError Value) : Prop where
  inRange :
    -2 ^ 63 ≤ n ∧ n ≤ 2 ^ 63 - 1 →
      ∃ i : Int64, i.toInt = n ∧ result = .ok (.int i)
  outside :
    ¬ (-2 ^ 63 ≤ n ∧ n ≤ 2 ^ 63 - 1) →
      result = .error (.overflow op)

/- What fits is kept as it is. -/
theorem checkedInt_of_fits
    {n : Int}
    (op : String)
    (h : fits n = true) :
    ∃ i : Int64, i.toInt = n ∧ checkedInt op n = .ok (.int i) := by
  rcases fits_iff.mp h with ⟨hLow, hHigh⟩
  refine ⟨Int64.ofInt n, ?_, ?_⟩
  · exact Int64.toInt_ofInt_of_le hLow (by omega)
  · rw [checkedInt, if_pos h]

theorem isChecked_checkedInt
    (op : String)
    (n : Int) :
    IsChecked op n (checkedInt op n) where
  inRange hRange := checkedInt_of_fits op (fits_iff.mpr hRange)
  outside hRange := by
    rw [checkedInt, if_neg]
    rwa [fits_iff]

------------------------------------------------------------
-- Division
------------------------------------------------------------

/-
  The results of the two divisions of `a` by `b`. The divisor
  zero is refused, and so is the one quotient that 64 bits
  cannot hold; otherwise quotient and remainder make up `a`,
  and the remainder is smaller than `b` and has the sign of `a`
  unless it is zero.
-/
structure IsDivision
    (a b : Int64)
    (quotient remainder : Except RuntimeError Value) : Prop where
  quotient_byZero :
    quotient = .error .divisionByZero ↔ b.toInt = 0
  remainder_byZero :
    remainder = .error .divisionByZero ↔ b.toInt = 0
  quotient_overflow :
    quotient = .error (.overflow BinaryOp.div.text) ↔
      a.toInt = -2 ^ 63 ∧ b.toInt = -1
  remainder_overflow :
    remainder = .error (.overflow BinaryOp.mod.text) ↔
      a.toInt = -2 ^ 63 ∧ b.toInt = -1
  exact :
    b.toInt ≠ 0 → ¬ (a.toInt = -2 ^ 63 ∧ b.toInt = -1) →
      ∃ q r : Int64,
        quotient = .ok (.int q) ∧ remainder = .ok (.int r) ∧
        a.toInt = q.toInt * b.toInt + r.toInt ∧
        r.toInt.natAbs < b.toInt.natAbs ∧
        (r.toInt = 0 ∨ r.toInt.sign = a.toInt.sign)

/-
  The only quotient of two integers that 64 bits cannot hold is
  the one of the smallest integer by minus one.
-/
theorem overflows_tdiv_iff
    (a b : Int64) :
    fits (a.toInt.tdiv b.toInt) = false ↔
      a.toInt = -2 ^ 63 ∧ b.toInt = -1 := by
  have hLow := a.le_toInt
  have hHigh := a.toInt_lt
  constructor
  · intro hOverflow
    have hOutside : ¬ fits (a.toInt.tdiv b.toInt) = true := by
      rw [hOverflow]
      decide
    rw [fits_iff] at hOutside
    -- No quotient is larger than the dividend, and only the
    -- divisors one and minus one leave it as large.
    have hSize : (a.toInt.tdiv b.toInt).natAbs =
        a.toInt.natAbs / b.toInt.natAbs :=
      Int.natAbs_tdiv _ _
    have hLe : (a.toInt.tdiv b.toInt).natAbs ≤ a.toInt.natAbs :=
      Int.natAbs_tdiv_le_natAbs _ _
    have hLarge : 2 ^ 63 ≤ a.toInt.natAbs / b.toInt.natAbs := by omega
    have hOne : b.toInt.natAbs = 1 := by
      rcases Nat.lt_trichotomy b.toInt.natAbs 1 with hZero | hOne | hMore
      · rw [Nat.lt_one_iff.mp hZero, Nat.div_zero] at hLarge
        omega
      · exact hOne
      · have hHalf : a.toInt.natAbs / b.toInt.natAbs ≤
            a.toInt.natAbs / 2 :=
          Nat.div_le_div_left hMore (by decide)
        omega
    have hB : b.toInt = 1 ∨ b.toInt = -1 := by omega
    rcases hB with hB | hB
    · rw [hB, Int.tdiv_one] at hOutside
      omega
    · rw [hOne, Nat.div_one] at hLarge
      exact ⟨by omega, hB⟩
  · rintro ⟨hA, hB⟩
    rw [hA, hB]
    decide

/- A remainder is smaller than its divisor, so it always fits. -/
theorem natAbs_tmod_lt
    {a b : Int}
    (h : b ≠ 0) :
    (a.tmod b).natAbs < b.natAbs := by
  rw [Int.natAbs_tmod]
  exact Nat.mod_lt _ (Int.natAbs_pos.mpr h)

theorem fits_tmod
    (a b : Int64)
    (h : b.toInt ≠ 0) :
    fits (a.toInt.tmod b.toInt) = true := by
  have hLow := b.le_toInt
  have hHigh := b.toInt_lt
  have hLt := natAbs_tmod_lt (a := a.toInt) h
  rw [fits_iff]
  omega

/- A remainder has the sign of the dividend unless it is zero. -/
theorem sign_tmod_cases
    (a b : Int) :
    a.tmod b = 0 ∨ (a.tmod b).sign = a.sign := by
  by_cases hDvd : b ∣ a
  · exact .inl (Int.tmod_eq_zero_of_dvd hDvd)
  · right
    rw [Int.sign_tmod, if_neg hDvd]

/- Both divisions by zero are refused. -/
theorem intArith_byZero
    {a b : Int64}
    (h : b.toInt = 0) :
    intArith .div a b = .error .divisionByZero ∧
      intArith .mod a b = .error .divisionByZero :=
  ⟨if_pos h, if_pos h⟩

/- Both are refused where the quotient does not fit. -/
theorem intArith_overflow
    {a b : Int64}
    (hZero : b.toInt ≠ 0)
    (hFits : fits (a.toInt.tdiv b.toInt) = false) :
    intArith .div a b = .error (.overflow BinaryOp.div.text) ∧
      intArith .mod a b = .error (.overflow BinaryOp.mod.text) := by
  constructor
  · simp [intArith, checkedInt, hZero, hFits]
  · simp [intArith, hZero, hFits]

/- Elsewhere they are the divisions of mathematics. -/
theorem intArith_exact
    {a b : Int64}
    (hZero : b.toInt ≠ 0)
    (hFits : fits (a.toInt.tdiv b.toInt) = true) :
    ∃ q r : Int64,
      q.toInt = a.toInt.tdiv b.toInt ∧ r.toInt = a.toInt.tmod b.toInt ∧
      intArith .div a b = .ok (.int q) ∧
      intArith .mod a b = .ok (.int r) := by
  rcases checkedInt_of_fits BinaryOp.div.text hFits with
    ⟨q, hQ, hQuotient⟩
  rcases checkedInt_of_fits BinaryOp.mod.text (fits_tmod a b hZero) with
    ⟨r, hR, hRemainder⟩
  refine ⟨q, r, hQ, hR, ?_, ?_⟩
  · rw [← hQuotient]
    exact if_neg hZero
  · rw [← hRemainder]
    exact (if_neg hZero).trans (if_pos hFits)

/-
  The three ways of a division exclude each other, so that each
  of its faults has exactly its own condition.
-/
theorem isDivision_intArith
    (a b : Int64) :
    IsDivision a b (intArith .div a b) (intArith .mod a b) := by
  by_cases hZero : b.toInt = 0
  · rcases intArith_byZero (a := a) hZero with ⟨hQuotient, hRemainder⟩
    rw [hQuotient, hRemainder]
    constructor <;> simp [hZero]
  · by_cases hFits : fits (a.toInt.tdiv b.toInt) = true
    · have hNot : ¬ (a.toInt = -2 ^ 63 ∧ b.toInt = -1) := by
        rw [← overflows_tdiv_iff, hFits]
        decide
      rcases intArith_exact hZero hFits with
        ⟨q, r, hQ, hR, hQuotient, hRemainder⟩
      rw [hQuotient, hRemainder]
      refine ⟨by simp [hZero], by simp [hZero], ?_, ?_, ?_⟩
      · exact iff_of_false nofun hNot
      · exact iff_of_false nofun hNot
      · intro _ _
        refine ⟨q, r, rfl, rfl, ?_, ?_, ?_⟩
        · rw [hQ, hR, Int.tdiv_mul_add_tmod]
        · rw [hR]
          exact natAbs_tmod_lt hZero
        · rw [hR]
          exact sign_tmod_cases _ _
    · rw [Bool.not_eq_true] at hFits
      have hLimit := (overflows_tdiv_iff a b).mp hFits
      rcases intArith_overflow hZero hFits with ⟨hQuotient, hRemainder⟩
      rw [hQuotient, hRemainder]
      refine ⟨by simp [hZero], by simp [hZero], ?_, ?_, ?_⟩
      · exact iff_of_true rfl hLimit
      · exact iff_of_true rfl hLimit
      · exact fun _ hOther => absurd hLimit hOther

------------------------------------------------------------
-- Operators
------------------------------------------------------------

/- The sign is refused for the smallest integer alone. -/
theorem overflows_neg_iff
    (a : Int64) :
    evalUnary .neg (.int a) = .error (.overflow UnaryOp.neg.text) ↔
      a.toInt = -2 ^ 63 := by
  have hChecked := isChecked_checkedInt UnaryOp.neg.text (-a.toInt)
  have hLow := a.le_toInt
  have hHigh := a.toInt_lt
  constructor
  · intro hOverflow
    apply Decidable.byContradiction
    intro hOther
    rcases hChecked.inRange (by omega) with ⟨i, _, hResult⟩
    have hSame := hOverflow.symm.trans hResult
    cases hSame
  · intro hLeast
    exact hChecked.outside (by omega)

/-
  Sums, differences, products and signs are the integers that
  they should be, or an overflow of their operator where 64
  bits cannot hold these; divisions are refused by zero and for
  the one quotient that is too large, and are exact otherwise.
-/
theorem integers_never_wrap
    (a b : Int64) :
    IsChecked BinaryOp.add.text (a.toInt + b.toInt)
      (evalBinary .add (.int a) (.int b)) ∧
    IsChecked BinaryOp.sub.text (a.toInt - b.toInt)
      (evalBinary .sub (.int a) (.int b)) ∧
    IsChecked BinaryOp.mul.text (a.toInt * b.toInt)
      (evalBinary .mul (.int a) (.int b)) ∧
    IsDivision a b
      (evalBinary .div (.int a) (.int b))
      (evalBinary .mod (.int a) (.int b)) ∧
    IsChecked UnaryOp.neg.text (-a.toInt)
      (evalUnary .neg (.int a)) ∧
    (evalUnary .neg (.int a) = .error (.overflow UnaryOp.neg.text) ↔
      a.toInt = -2 ^ 63) := by
  refine ⟨?_, ?_, ?_, ?_, ?_, ?_⟩
  · exact isChecked_checkedInt _ _
  · exact isChecked_checkedInt _ _
  · exact isChecked_checkedInt _ _
  · exact isDivision_intArith a b
  · exact isChecked_checkedInt _ _
  · exact overflows_neg_iff a

end DynScript
