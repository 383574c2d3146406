import DynScript.Eval.Operator
import DynScript.Proofs.Value.Equality

/-
  The six operators that compare two values agree with each
  other. Equality is decided apart from the order, and the order
  of two integers, of two texts and of other numbers each in its
  own way, yet on numbers and on texts all of them are read off
  one of three answers: less, equal or greater. On an undefined
  number there is no answer, and values of other kinds have no
  order.

  Key definitions include:
    * `Value.Comparable`
    * `Compared`
    * `Consistent`

  Main statements include:
    * `consistent_of_places`
    * `consistent_of_floats`
    * `comparisons_agree`
-/

namespace DynScript

------------------------------------------------------------
-- What the operators answer together
------------------------------------------------------------

/- The operators that put two values in order. -/
def orderings : List BinaryOp :=
  [.lt, .le, .gt, .ge]

/- Two numbers or two texts. -/
def Value.Comparable
    (l r : Value) : Prop :=
  ((l.kind = .int ∨ l.kind = .float) ∧
      (r.kind = .int ∨ r.kind = .float)) ∨
    (l.kind = .string ∧ r.kind = .string)

/- The operators say which of less, equal and greater hold. -/
structure Compared
    (l r : Value)
    (less equal greater : Bool) : Prop where
  lt : evalBinary .lt l r = .ok (.bool less)
  eq : evalBinary .eq l r = .ok (.bool equal)
  gt : evalBinary .gt l r = .ok (.bool greater)
  le : evalBinary .le l r = .ok (.bool (less || equal))
  ge : evalBinary .ge l r = .ok (.bool (greater || equal))
  ne : evalBinary .ne l r = .ok (.bool !equal)

/-
  The answers to a comparison and to the one with the operands
  exchanged: exactly one of them holds, or with an undefined
  number none.
-/
structure Consistent
    (l r : Value)
    (less equal greater : Bool) : Prop where
  forth : Compared l r less equal greater
  back : Compared r l greater equal less
  undefined :
    l.Undefined ∨ r.Undefined →
      less = false ∧ equal = false ∧ greater = false
  defined :
    ¬ (l.Undefined ∨ r.Undefined) →
      less.toNat + equal.toNat + greater.toNat = 1

section Orders

variable {l r : Value}

/- The answers of an order of which equality is known to be a part. -/
theorem compared_of_order
    {α : Type}
    [LT α]
    [LE α]
    [DecidableLT α]
    [DecidableLE α]
    {a b : α}
    (hOrder : ∀ op, order op l r = .ok (ordered op a b))
    (hAtMost : a ≤ b ↔ a < b ∨ l.looseEq r = true)
    (hAtLeast : b ≤ a ↔ b < a ∨ l.looseEq r = true) :
    Compared l r (decide (a < b)) (l.looseEq r) (decide (b < a)) where
  lt := hOrder .lt
  eq := rfl
  gt := hOrder .gt
  le := by
    have hLe : decide (a ≤ b) = (decide (a < b) || l.looseEq r) := by
      rw [Bool.eq_iff_iff, Bool.or_eq_true, decide_eq_true_iff,
        decide_eq_true_iff]
      exact hAtMost
    rw [← hLe]
    exact hOrder .le
  ge := by
    have hGe : decide (b ≤ a) = (decide (b < a) || l.looseEq r) := by
      rw [Bool.eq_iff_iff, Bool.or_eq_true, decide_eq_true_iff,
        decide_eq_true_iff]
      exact hAtLeast
    rw [← hGe]
    exact hOrder .ge
  ne := rfl

/-
  Values whose order is the one of two places in a linear order,
  and that are equal exactly if they share a place.
-/
theorem consistent_of_places
    {α κ : Type}
    [LT α]
    [LE α]
    [DecidableLT α]
    [DecidableLE α]
    [LT κ]
    [LE κ]
    [Std.IsLinearOrder κ]
    [Std.LawfulOrderLT κ]
    {a b : α}
    {p q : κ}
    (hForth : ∀ op, order op l r = .ok (ordered op a b))
    (hBack : ∀ op, order op r l = .ok (ordered op b a))
    (hLess : a < b ↔ p < q)
    (hMore : b < a ↔ q < p)
    (hAtMost : a ≤ b ↔ p ≤ q)
    (hAtLeast : b ≤ a ↔ q ≤ p)
    (hEqual : l.looseEq r = true ↔ p = q)
    (hDefined : ¬ (l.Undefined ∨ r.Undefined)) :
    Consistent l r (decide (a < b)) (l.looseEq r) (decide (b < a)) where
  forth := by
    apply compared_of_order hForth
    · rw [hEqual, hAtMost, hLess, Std.le_iff_lt_or_eq]
    · rw [hEqual, hAtLeast, hMore, Std.le_iff_lt_or_eq, eq_comm]
  back := by
    rw [Value.looseEq_comm] at hEqual ⊢
    apply compared_of_order hBack
    · rw [hEqual, hAtLeast, hMore, Std.le_iff_lt_or_eq, eq_comm]
    · rw [hEqual, hAtMost, hLess, Std.le_iff_lt_or_eq]
  undefined h := absurd h hDefined
  defined _ := by
    rcases Std.lt_trichotomy p q with hBefore | hSame | hBehind
    · have hNotEqual : l.looseEq r = false :=
        Bool.eq_false_iff.mpr (mt hEqual.mp (Std.ne_of_lt hBefore))
      rw [decide_eq_true (hLess.mpr hBefore), hNotEqual,
        decide_eq_false (mt hMore.mp (Std.not_gt_of_lt hBefore))]
      rfl
    · subst hSame
      rw [decide_eq_false (mt hLess.mp Std.lt_irrefl), hEqual.mpr rfl,
        decide_eq_false (mt hMore.mp Std.lt_irrefl)]
      rfl
    · have hNotEqual : l.looseEq r = false :=
        Bool.eq_false_iff.mpr (mt hEqual.mp (Std.ne_of_lt hBehind).symm)
      rw [decide_eq_false (mt hLess.mp (Std.not_gt_of_lt hBehind)),
        hNotEqual, decide_eq_true (hMore.mpr hBehind)]
      rfl

/- No comparison with an undefined number holds. -/
theorem consistent_of_undefined
    {x y : Float}
    (hForth : ∀ op, order op l r = .ok (ordered op x y))
    (hBack : ∀ op, order op r l = .ok (ordered op y x))
    (hEqual : l.looseEq r = (x == y))
    (hNone : ¬ (x.isNaN = false ∧ y.isNaN = false))
    (hUndefined : l.Undefined ∨ r.Undefined) :
    Consistent l r (decide (x < y)) (l.looseEq r) (decide (y < x)) := by
  have hLess : ¬ x < y :=
    fun h => hNone ⟨(Decimal.lt_iff.mp h).1, (Decimal.lt_iff.mp h).2.1⟩
  have hMore : ¬ y < x :=
    fun h => hNone ⟨(Decimal.lt_iff.mp h).2.1, (Decimal.lt_iff.mp h).1⟩
  have hAtMost : ¬ x ≤ y :=
    fun h => hNone ⟨(Decimal.le_iff.mp h).1, (Decimal.le_iff.mp h).2.1⟩
  have hAtLeast : ¬ y ≤ x :=
    fun h => hNone ⟨(Decimal.le_iff.mp h).2.1, (Decimal.le_iff.mp h).1⟩
  have hOther : ¬ l.looseEq r = true := by
    rw [hEqual]
    exact fun h =>
      hNone ⟨(Decimal.beq_iff.mp h).1, (Decimal.beq_iff.mp h).2.1⟩
  have hOther' : ¬ r.looseEq l = true := by
    rw [Value.looseEq_comm]
    exact hOther
  refine ⟨?_, ?_, ?_, fun h => absurd hUndefined h⟩
  · apply compared_of_order hForth
    · exact iff_of_false hAtMost (not_or.mpr ⟨hLess, hOther⟩)
    · exact iff_of_false hAtLeast (not_or.mpr ⟨hMore, hOther⟩)
  · rw [Value.looseEq_comm]
    apply compared_of_order hBack
    · exact iff_of_false hAtLeast (not_or.mpr ⟨hMore, hOther'⟩)
    · exact iff_of_false hAtMost (not_or.mpr ⟨hLess, hOther'⟩)
  · intro _
    exact ⟨decide_eq_false hLess, Bool.eq_false_iff.mpr hOther,
      decide_eq_false hMore⟩

/-
  Numbers that are compared as floating point numbers. If none
  is undefined they are in the order of their places.
-/
theorem consistent_of_floats
    {x y : Float}
    (hForth : ∀ op, order op l r = .ok (ordered op x y))
    (hBack : ∀ op, order op r l = .ok (ordered op y x))
    (hEqual : l.looseEq r = (x == y))
    (hLeft : l.Undefined ↔ x.isNaN = true)
    (hRight : r.Undefined ↔ y.isNaN = true) :
    Consistent l r (decide (x < y)) (l.looseEq r) (decide (y < x)) := by
  have hNumbers : ¬ (l.Undefined ∨ r.Undefined) ↔
      x.isNaN = false ∧ y.isNaN = false := by
    rw [hLeft, hRight, not_or, Bool.not_eq_true, Bool.not_eq_true]
  by_cases hUndefined : l.Undefined ∨ r.Undefined
  · exact consistent_of_undefined hForth hBack hEqual
      (fun h => hNumbers.mpr h hUndefined) hUndefined
  · rcases hNumbers.mp hUndefined with ⟨hNumber, hNumber'⟩
    apply consistent_of_places (p := Decimal.place x)
      (q := Decimal.place y)
      hForth hBack
    · simp only [Decimal.lt_iff, hNumber, hNumber', true_and]
    · simp only [Decimal.lt_iff, hNumber, hNumber', true_and]
    · simp only [Decimal.le_iff, hNumber, hNumber', true_and]
    · simp only [Decimal.le_iff, hNumber, hNumber', true_and]
    · simp only [hEqual, Decimal.beq_iff, hNumber, hNumber', true_and]
    · exact hUndefined

end Orders

------------------------------------------------------------
-- All pairs of values
------------------------------------------------------------

/- The conversion of an integer is not undefined. -/
theorem isNaN_ofInt
    (i : Int64) :
    (Decimal.ofInt i.toInt).isNaN = false :=
  Decimal.isNaN_of_isFinite
    (Decimal.ofInt_spec (Value.natAbs_toInt_le i)).1

/- Two numbers or two texts are compared in one of three ways. -/
theorem consistent_of_comparable
    {l r : Value}
    (h : l.Comparable r) :
    ∃ less equal greater, Consistent l r less equal greater := by
  have hInteger : ∀ i : Int64,
      Value.Undefined (.int i) ↔
        (Decimal.ofInt i.toInt).isNaN = true := by
    intro i
    rw [isNaN_ofInt]
    exact iff_of_false not_false Bool.false_ne_true
  rcases h with ⟨hLeft, hRight⟩ | ⟨hLeft, hRight⟩
  · cases l with
    | int i =>
        cases r with
        | int j =>
            exact ⟨_, _, _, consistent_of_places (p := i) (q := j)
              (fun _ => rfl) (fun _ => rfl) .rfl .rfl .rfl .rfl
              Value.looseEq_int_int (not_or.mpr ⟨not_false, not_false⟩)⟩
        | float y =>
            exact ⟨_, _, _, consistent_of_floats (fun _ => rfl)
              (fun _ => rfl) rfl (hInteger i) .rfl⟩
        | bool | str | function | nil => simp [Value.kind] at hRight
    | float x =>
        cases r with
        | int j =>
            exact ⟨_, _, _, consistent_of_floats (fun _ => rfl)
              (fun _ => rfl) Decimal.beq_comm .rfl (hInteger j)⟩
        | float y =>
            exact ⟨_, _, _, consistent_of_floats (fun _ => rfl)
              (fun _ => rfl) rfl .rfl .rfl⟩
        | bool | str | function | nil => simp [Value.kind] at hRight
    | bool | str | function | nil => simp [Value.kind] at hLeft
  · cases l with
    | str s =>
        cases r with
        | str t =>
            have hEqual :
                (Value.str s).looseEq (.str t) = true ↔ s = t := by
              change (s == t) = true ↔ s = t
              exact beq_iff_eq
            exact ⟨_, _, _, consistent_of_places (p := s) (q := t)
              (fun _ => rfl) (fun _ => rfl) .rfl .rfl .rfl .rfl
              hEqual (not_or.mpr ⟨not_false, not_false⟩)⟩
        | int | float | bool | function | nil => cases hRight
    | int | float | bool | function | nil => cases hLeft

/- Other values have no order. -/
theorem evalBinary_of_not_comparable
    {l r : Value}
    {op : BinaryOp}
    (hOp : op ∈ orderings)
    (h : ¬ l.Comparable r) :
    evalBinary op l r = .error (.typeMismatch op l.kind r.kind) := by
  have hOrder :
      order op l r = .error (.typeMismatch op l.kind r.kind) := by
    cases l <;> cases r <;> first
      | rfl
      | exact absurd (by simp [Value.Comparable, Value.kind]) h
  rw [← hOrder]
  fin_cases hOp <;> rfl

/-
  Any two values are equal or unequal. Two numbers or two texts
  are less, equal or greater, and all six operators say so,
  whichever operand comes first: exactly one of the three holds,
  and none with an undefined number. On values of other kinds
  the operators that order are all refused.
-/
theorem comparisons_agree
    (l r : Value) :
    (∃ equal,
      evalBinary .eq l r = .ok (.bool equal) ∧
      evalBinary .ne l r = .ok (.bool !equal)) ∧
    (l.Comparable r →
      evalBinary .gt l r = evalBinary .lt r l ∧
      evalBinary .ge l r = evalBinary .le r l ∧
      ∃ less equal greater,
        Consistent l r less equal greater) ∧
    (¬ l.Comparable r → ∀ op ∈ orderings,
      evalBinary op l r = .error (.typeMismatch op l.kind r.kind)) := by
  refine ⟨⟨l.looseEq r, rfl, rfl⟩, ?_, ?_⟩
  · intro hComparable
    rcases consistent_of_comparable hComparable with
      ⟨less, equal, greater, hConsistent⟩
    refine ⟨?_, ?_, less, equal, greater, hConsistent⟩
    · rw [hConsistent.forth.gt, hConsistent.back.lt]
    · rw [hConsistent.forth.ge, hConsistent.back.le]
  · intro hOther op hOp
    exact evalBinary_of_not_comparable hOp hOther

/- An integer and a number are in order, an integer and `nil` are not. -/
theorem comparisons_of_integer :
    let x := Decimal.ofInt 3
    evalBinary .gt (.float x) (.int 2) =
      evalBinary .lt (.int 2) (.float x) ∧
      evalBinary .le (.int 2) .nil =
        .error (.typeMismatch .le .int .nil) := by
  intro x
  constructor
  · have hNumbers : (Value.float x).Comparable (.int 2) :=
      .inl ⟨.inr rfl, .inl rfl⟩
    exact ((comparisons_agree _ _).2.1 hNumbers).1
  · have hOther : ¬ (Value.int 2).Comparable .nil := by
      simp [Value.Comparable, Value.kind]
    exact (comparisons_agree _ _).2.2 hOther .le (by decide)

end DynScript
