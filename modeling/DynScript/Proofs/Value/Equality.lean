import DynScript.Proofs.Decimal.Integer
import DynScript.Value.Basic

/-
  Equality as programs see it. It relates the values that are
  not undefined numbers to themselves and is symmetric. An
  integer equals the floating point number that it is rounded
  to, so that the relation is transitive except where one such
  number stands between two integers, and up to 53 binary places
  an integer equals exactly the number with its value.

  Key definitions include:
    * `Value.Undefined`
    * `Value.Alike`

  Main statements include:
    * `Value.looseEq_iff`
    * `Value.looseEq_comm`
    * `Value.looseEq_self_iff`
    * `Value.looseEq_trans`
    * `Value.looseEq_int_float`
    * `Value.looseEq_laws`
-/

namespace DynScript.Value

------------------------------------------------------------
-- Alike values
------------------------------------------------------------

/- The values that are not equal to themselves. -/
def Undefined : Value → Prop
  | float x => x.isNaN = true
  | _ => False

/- The rules of equality, one for each pair of kinds that can be equal. -/
inductive Alike : Value → Value → Prop where
  | int (i : Int64) :
      Alike (int i) (int i)
  | float {x y : Float}
      (hEqual : (x == y) = true) :
      Alike (float x) (float y)
  | intFloat {i : Int64} {x : Float}
      (hEqual : (Decimal.ofInt i.toInt == x) = true) :
      Alike (int i) (float x)
  | floatInt {i : Int64} {x : Float}
      (hEqual : (Decimal.ofInt i.toInt == x) = true) :
      Alike (float x) (int i)
  | bool (b : Bool) :
      Alike (bool b) (bool b)
  | str (s : String) :
      Alike (str s) (str s)
  | function (identity : Nat) (f g : Function) :
      Alike (function identity f) (function identity g)
  | nil :
      Alike nil nil

section Laws

variable {a b c v : Value}

/- Equality of contents, for values that are not functions. -/
theorem alike_of_beq
    (hKind : a.kind ≠ .function)
    (h : a.beq b = true) :
    Alike a b := by
  unfold beq at h
  split at h
  · rcases beq_iff_eq.mp h with rfl
    exact .int _
  · exact .float h
  · rcases beq_iff_eq.mp h with rfl
    exact .bool _
  · rcases beq_iff_eq.mp h with rfl
    exact .str _
  · exact absurd rfl hKind
  · exact .nil
  · cases h

theorem looseEq_iff :
    a.looseEq b = true ↔ Alike a b := by
  constructor
  · intro h
    unfold looseEq at h
    split at h
    · exact .intFloat h
    · exact .floatInt h
    · rcases beq_iff_eq.mp h with rfl
      exact .function _ _ _
    · next hBoth =>
      by_cases hKind : a.kind = .function
      · -- A function is not the same value as anything else.
        cases a <;> cases hKind
        cases b with
        | function j g => exact absurd rfl (hBoth _ _ j g rfl)
        | int | float | bool | str | nil => cases h
      · exact alike_of_beq hKind h
  · intro h
    cases h with
    | int i => exact beq_self_eq_true i
    | float hEqual => exact hEqual
    | intFloat hEqual => exact hEqual
    | floatInt hEqual => exact hEqual
    | bool b => exact beq_self_eq_true b
    | str s => exact beq_self_eq_true s
    | function identity f g => exact beq_self_eq_true identity
    | nil => rfl

------------------------------------------------------------
-- The laws of an equivalence
------------------------------------------------------------

/- Only undefined numbers are not equal to themselves. -/
theorem looseEq_self_iff :
    v.looseEq v = true ↔ ¬ v.Undefined := by
  rw [looseEq_iff]
  cases v with
  | float x =>
      rw [Undefined, Bool.not_eq_true, ← Decimal.beq_self_iff]
      constructor
      · rintro ⟨⟩
        assumption
      · exact .float
  | int i => exact iff_of_true (.int i) not_false
  | bool b => exact iff_of_true (.bool b) not_false
  | str s => exact iff_of_true (.str s) not_false
  | function identity f =>
      exact iff_of_true (.function identity f f) not_false
  | nil => exact iff_of_true .nil not_false

theorem Alike.symm
    (h : Alike a b) :
    Alike b a := by
  cases h with
  | int i => exact .int i
  | float hEqual => exact .float (Decimal.beq_comm ▸ hEqual)
  | intFloat hEqual => exact .floatInt hEqual
  | floatInt hEqual => exact .intFloat hEqual
  | bool b => exact .bool b
  | str s => exact .str s
  | function identity f g => exact .function identity g f
  | nil => exact .nil

theorem looseEq_comm :
    a.looseEq b = b.looseEq a := by
  rw [Bool.eq_iff_iff, looseEq_iff, looseEq_iff]
  exact ⟨Alike.symm, Alike.symm⟩

/- Two integers that one number stands between, and nothing else. -/
def RoundTogether
    (a b c : Value) : Prop :=
  ∃ i x j, a = int i ∧ b = float x ∧ c = int j ∧ i ≠ j

theorem Alike.trans
    (h : Alike a b)
    (h' : Alike b c) :
    Alike a c ∨ RoundTogether a b c := by
  cases h with
  | int i => exact .inl h'
  | bool b => exact .inl h'
  | str s => exact .inl h'
  | nil => exact .inl h'
  | function identity f g =>
      cases h' with
      | function _ _ k => exact .inl (.function identity f k)
  | float hEqual =>
      cases h' with
      | float hNext =>
          exact .inl (.float (Decimal.beq_trans hEqual hNext))
      | floatInt hNext =>
          refine .inl (.floatInt (Decimal.beq_trans hNext ?_))
          exact Decimal.beq_comm ▸ hEqual
  | @intFloat i x hEqual =>
      cases h' with
      | float hNext =>
          exact .inl (.intFloat (Decimal.beq_trans hEqual hNext))
      | @floatInt j _ hNext =>
          by_cases hSame : i = j
          · exact .inl (hSame ▸ .int i)
          · exact .inr ⟨i, x, j, rfl, rfl, rfl, hSame⟩
  | floatInt hEqual =>
      cases h' with
      | int => exact .inl (.floatInt hEqual)
      | intFloat hNext =>
          refine .inl (.float (Decimal.beq_trans ?_ hNext))
          exact Decimal.beq_comm ▸ hEqual

end Laws

------------------------------------------------------------
-- Numbers of both kinds
------------------------------------------------------------

section Numbers

variable {i j : Int64}
variable {x y : Float}

/- The magnitude of an integer of 64 bits. -/
theorem natAbs_toInt_le
    (i : Int64) :
    i.toInt.natAbs ≤ 2 ^ 63 := by
  have hLow := i.le_toInt
  have hHigh := i.toInt_lt
  omega

/- Integers are compared exactly. -/
theorem looseEq_int_int :
    (int i).looseEq (int j) = true ↔ i = j := by
  change (i == j) = true ↔ i = j
  exact beq_iff_eq

/- An integer equals the floating point number that is nearest to it. -/
theorem looseEq_int_float :
    (int i).looseEq (float x) = true ↔
      Decimal.isFinite x = true ∧ Decimal.IsNearest i.toInt x :=
  Decimal.ofInt_beq_iff (natAbs_toInt_le i)

/- Equal numbers are equal for programs. -/
theorem looseEq_of_value
    (hFinite : Decimal.isFinite x = true)
    (hValue : Decimal.value x = i.toInt) :
    (int i).looseEq (float x) = true := by
  rw [looseEq_int_float, Decimal.isNearest_iff (natAbs_toInt_le i)]
  exact ⟨hFinite, Decimal.units_eq_of_value (natAbs_toInt_le i) hValue⟩

/- And only those, where the integer has at most 53 binary places. -/
theorem value_of_looseEq
    (hPlaces : i.toInt.natAbs ≤ 2 ^ 53)
    (h : (int i).looseEq (float x) = true) :
    Decimal.value x = i.toInt := by
  rw [looseEq_int_float, Decimal.isNearest_iff (natAbs_toInt_le i)] at h
  rw [Decimal.value_eq_iff.mpr h.2]
  exact Decimal.value_ofInt hPlaces

/- Finite numbers of one kind are equal if their values are. -/
theorem looseEq_float_float
    (hLeft : Decimal.isFinite x = true)
    (hRight : Decimal.isFinite y = true) :
    (float x).looseEq (float y) = true ↔
      Decimal.value x = Decimal.value y := by
  change (x == y) = true ↔ _
  rw [Decimal.beq_iff, Decimal.value_eq_iff, Decimal.units_eq_iff]
  exact ⟨fun h => h.2.2, fun h => ⟨Decimal.isNaN_of_isFinite hLeft,
    Decimal.isNaN_of_isFinite hRight, h⟩⟩

/-
  Two integers that round together are not both of 53 places,
  since each of them would be the value of the number.
-/
theorem RoundTogether.beyond
    {a b c : Value}
    (h : RoundTogether a b c)
    (hFirst : a.looseEq b = true)
    (hSecond : b.looseEq c = true) :
    ∃ i x j, a = int i ∧ b = float x ∧ c = int j ∧ i ≠ j ∧
      ¬ (i.toInt.natAbs ≤ 2 ^ 53 ∧ j.toInt.natAbs ≤ 2 ^ 53) := by
  rcases h with ⟨i, x, j, rfl, rfl, rfl, hOther⟩
  refine ⟨i, x, j, rfl, rfl, rfl, hOther, ?_⟩
  rintro ⟨hPlaces, hPlaces'⟩
  have hLeft := value_of_looseEq hPlaces hFirst
  rw [looseEq_comm] at hSecond
  have hRight := value_of_looseEq hPlaces' hSecond
  rw [hLeft] at hRight
  exact hOther (Int64.toInt_inj.mp (Int.cast_inj.mp hRight))

end Numbers

------------------------------------------------------------
-- What equality is
------------------------------------------------------------

/-
  Equality is reflexive on all values but undefined numbers and
  it is symmetric. It is transitive unless a floating point
  number stands between two different integers, one of which
  has more than 53 binary places. Integers are compared exactly,
  finite floating point numbers by their values, and an integer
  equals exactly the finite number that is nearest to it: it
  equals any that has its value, and no other one if it has at
  most 53 places.
-/
theorem looseEq_laws
    (a b c : Value)
    (i j : Int64)
    (x y : Float) :
    (a.looseEq a = true ↔ ¬ a.Undefined) ∧
    a.looseEq b = b.looseEq a ∧
    (a.looseEq b = true → b.looseEq c = true →
      a.looseEq c = true ∨
        ∃ k z l, a = int k ∧ b = float z ∧ c = int l ∧ k ≠ l ∧
          ¬ (k.toInt.natAbs ≤ 2 ^ 53 ∧ l.toInt.natAbs ≤ 2 ^ 53)) ∧
    ((int i).looseEq (int j) = true ↔ i = j) ∧
    (Decimal.isFinite x = true → Decimal.isFinite y = true →
      ((float x).looseEq (float y) = true ↔
        Decimal.value x = Decimal.value y)) ∧
    ((int i).looseEq (float x) = true ↔
      Decimal.isFinite x = true ∧ Decimal.IsNearest i.toInt x) ∧
    (Decimal.isFinite x = true → Decimal.value x = i.toInt →
      (int i).looseEq (float x) = true) ∧
    (i.toInt.natAbs ≤ 2 ^ 53 →
      (int i).looseEq (float x) = true → Decimal.value x = i.toInt) := by
  refine ⟨looseEq_self_iff, looseEq_comm, ?_, looseEq_int_int,
    looseEq_float_float, looseEq_int_float, looseEq_of_value,
    value_of_looseEq⟩
  intro hFirst hSecond
  rcases (looseEq_iff.mp hFirst).trans (looseEq_iff.mp hSecond) with
    hAlike | hTogether
  · exact .inl (looseEq_iff.mpr hAlike)
  · exact .inr (hTogether.beyond hFirst hSecond)

/-
  2^53 + 1 is no floating point number. It is rounded to 2^53,
  which it therefore equals, and so do 2^53 and its conversion,
  although the two integers differ.
-/
theorem looseEq_rounds :
    let x := Decimal.ofInt (2 ^ 53)
    Decimal.isFinite x = true ∧
      Decimal.value x = (9007199254740992 : Int64).toInt ∧
      (int 9007199254740993).looseEq (float x) = true ∧
      (float x).looseEq (int 9007199254740992) = true ∧
      (int 9007199254740993).looseEq (int 9007199254740992) = false := by
  intro x
  rcases looseEq_laws (int 9007199254740992) (float x) nil
      9007199254740993 9007199254740992 x x with
    ⟨-, hComm, -, hInt, -, -, -, -⟩
  rcases looseEq_laws nil nil nil 9007199254740992 0 x x with
    ⟨-, -, -, -, -, hNearest, -, hExact⟩
  have hOdd : (int 9007199254740993).looseEq (float x) = true := by
    decide +kernel
  have hEven : (int 9007199254740992).looseEq (float x) = true := by
    decide +kernel
  refine ⟨(hNearest.mp hEven).1, hExact (by decide) hEven, hOdd,
    hComm ▸ hEven, ?_⟩
  apply Bool.eq_false_iff.mpr
  intro hEqual
  exact absurd (hInt.mp hEqual) (by decide)

end DynScript.Value
