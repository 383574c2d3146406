import DynScript.Proofs.Decimal.Order

/-
  The conversion of integers to floating point numbers. The
  number that an integer becomes is the finite one nearest to
  it, and of two equally near ones the one with the even
  pattern. So the conversion is exact where the integer is one
  of the numbers, as it is up to 53 binary places.

  Key definitions include:
    * `Decimal.units`
    * `Decimal.value`
    * `Decimal.IsNearest`
    * `Decimal.sideOfInt`

  Main statements include:
    * `Decimal.exists_surrounds`
    * `Decimal.Surrounds.nearest`
    * `Decimal.ofInt_beq_iff`
    * `Decimal.value_ofInt`
-/

namespace DynScript.Decimal

open Float.Model.UnpackedFloat

------------------------------------------------------------
-- Values of finite numbers
------------------------------------------------------------

/- A finite number as a multiple of 2^-1074. -/
def units
    (x : Float) : Int :=
  (side x).apply (unitsOfBits (magnitude x))

/- The real number that a finite number stands for. -/
def value
    (x : Float) : Rat :=
  units x / twoTo 1074

/-
  No finite number is nearer to `q` than `x`, and if another one
  is as near then the pattern of `x` is even.
-/
def IsNearest
    (q : Rat)
    (x : Float) : Prop :=
  ∀ y, isFinite y = true →
    |q - value x| ≤ |q - value y| ∧
      (|q - value x| = |q - value y| → value y ≠ value x →
        magnitude x % 2 = 0)

theorem unitsOfBits_strictMono :
    StrictMono unitsOfBits :=
  strictMono_nat_of_lt_succ unitsOfBits_lt_succ

theorem unitsOfBits_zero :
    unitsOfBits 0 = 0 := by
  decide

theorem unitsOfBits_inj
    {b c : Nat} :
    unitsOfBits b = unitsOfBits c ↔ b = c :=
  unitsOfBits_strictMono.injective.eq_iff

theorem unitsOfBits_eq_zero_iff
    {b : Nat} :
    unitsOfBits b = 0 ↔ b = 0 := by
  rw [← unitsOfBits_zero]
  exact unitsOfBits_inj

/- Numbers at one place have one magnitude. -/
theorem magnitude_eq_of_place
    {x y : Float}
    (h : place x = place y) :
    magnitude x = magnitude y := by
  unfold place at h
  cases hLeft : side x <;> cases hRight : side y <;>
    rw [hLeft, hRight] at h <;>
    simp only [Sign.apply] at h <;>
    omega

/- The value of a number and its place determine each other. -/
theorem units_eq_iff
    {x y : Float} :
    units x = units y ↔ place x = place y := by
  have hSame := @unitsOfBits_inj (magnitude x) (magnitude y)
  have hLeft := @unitsOfBits_eq_zero_iff (magnitude x)
  have hRight := @unitsOfBits_eq_zero_iff (magnitude y)
  unfold units place
  cases side x <;> cases side y <;>
    simp only [Sign.apply] <;>
    omega

theorem twoTo_pos
    (n : Nat) :
    0 < twoTo n :=
  Nat.two_pow_pos n

theorem value_eq_iff
    {x y : Float} :
    value x = value y ↔ units x = units y := by
  have hUnit : (twoTo 1074 : Rat) ≠ 0 :=
    Nat.cast_ne_zero.mpr (twoTo_pos 1074).ne'
  unfold value
  rw [div_left_inj' hUnit]
  exact Int.cast_inj

/- How far a number is from an integer. -/
theorem abs_sub_value
    (n : Int)
    (x : Float) :
    |(n : Rat) - value x| =
      ((n * twoTo 1074 - units x).natAbs : Rat) / twoTo 1074 := by
  have hUnit : (0 : Rat) < twoTo 1074 :=
    Nat.cast_pos.mpr (twoTo_pos 1074)
  have hScaled :
      (n : Rat) - value x =
        ((n * twoTo 1074 - units x : Int) : Rat) / twoTo 1074 := by
    unfold value
    rw [eq_div_iff hUnit.ne', sub_mul, div_mul_cancel₀ _ hUnit.ne']
    push_cast
    rfl
  rw [hScaled, abs_div, abs_of_pos hUnit, Nat.cast_natAbs, Int.cast_abs]

/-
  An integer is the value of a number if it is the same count
  of units.
-/
theorem value_eq_int_iff
    {n : Int}
    {x : Float} :
    value x = n ↔ units x = n * twoTo 1074 := by
  have hUnit : (twoTo 1074 : Rat) ≠ 0 :=
    Nat.cast_ne_zero.mpr (twoTo_pos 1074).ne'
  unfold value
  rw [div_eq_iff hUnit]
  constructor
  · intro h
    exact_mod_cast h
  · intro h
    exact_mod_cast h

------------------------------------------------------------
-- The pattern nearest to a magnitude
------------------------------------------------------------

/- Every magnitude lies around some pattern. -/
theorem exists_surrounds
    (num : Nat) :
    ∃ b, Surrounds b num 1 := by
  -- The last pattern that is not beyond the magnitude.
  have hBounded : ∃ b, num < unitsOfBits (b + 1) :=
    ⟨num, Nat.lt_of_lt_of_le (Nat.lt_succ_self num)
      (unitsOfBits_strictMono.le_apply)⟩
  classical
  have hAbove := Nat.find_spec hBounded
  have hBelow : unitsOfBits (Nat.find hBounded) ≤ num := by
    cases hLast : Nat.find hBounded with
    | zero =>
        rw [unitsOfBits_zero]
        exact Nat.zero_le num
    | succ b =>
        have hEarlier := Nat.find_min hBounded
          (m := b) (by rw [hLast]; exact Nat.lt_succ_self b)
        exact Nat.le_of_not_lt hEarlier
  generalize Nat.find hBounded = b at hAbove hBelow
  have hPrev : b = 0 ∨ unitsOfBits (b - 1) < unitsOfBits b := by
    rcases Nat.eq_zero_or_pos b with hZero | hPos
    · exact .inl hZero
    · exact .inr (unitsOfBits_strictMono (by omega))
  by_cases hNear : 2 * num < unitsOfBits b + unitsOfBits (b + 1) ∨
      2 * num = unitsOfBits b + unitsOfBits (b + 1) ∧ b % 2 = 0
  · refine ⟨b, ?_⟩
    unfold Surrounds
    rcases hPrev with rfl | hPrev
    · rw [Nat.zero_sub, unitsOfBits_zero] at *
      omega
    · omega
  · refine ⟨b + 1, ?_⟩
    have hNext := unitsOfBits_lt_succ (b + 1)
    unfold Surrounds
    rw [Nat.add_sub_cancel]
    omega

/-
  A pattern around a magnitude is the nearest one, and if
  another is as near then it is even and the other one is odd.
-/
theorem Surrounds.nearest
    {b num : Nat}
    (h : Surrounds b num 1)
    (c : Nat) :
    ((num : Int) - unitsOfBits b).natAbs ≤
        ((num : Int) - unitsOfBits c).natAbs ∧
      (((num : Int) - unitsOfBits b).natAbs =
          ((num : Int) - unitsOfBits c).natAbs →
        c ≠ b → b % 2 = 0 ∧ c % 2 = 1) := by
  rcases h with ⟨hLow, hHigh, hTie⟩
  rw [Nat.mul_one] at hLow hHigh hTie
  rw [Nat.mul_one] at hTie
  have hNext := unitsOfBits_lt_succ b
  rcases Nat.lt_trichotomy c b with hLess | rfl | hMore
  · -- At most the pattern before it.
    have hPrev : unitsOfBits (b - 1) < unitsOfBits b :=
      unitsOfBits_strictMono (by omega)
    rcases Nat.lt_or_eq_of_le (Nat.le_sub_one_of_lt hLess) with
      hFar | rfl
    · have hFarther := unitsOfBits_strictMono hFar
      omega
    · omega
  · omega
  · rcases Nat.lt_or_eq_of_le (Nat.succ_le_of_lt hMore) with
      hFar | rfl
    · have hFarther := unitsOfBits_strictMono hFar
      rw [Nat.succ_eq_add_one] at hFarther
      omega
    · rw [Nat.succ_eq_add_one]
      omega

/- The largest magnitude of an integer of 64 bits. -/
theorem unitsOfBits_maxInt :
    unitsOfBits (1086 * binade) = 2 ^ 63 * twoTo 1074 := by
  have hPlaces : ∀ k s, s = k + 11 →
      unitsOfBits (s * binade + binade) = 2 ^ 63 * twoTo k := by
    rintro k s rfl
    rw [unitsOfBits_shift (.inr (Nat.le_refl _)) (by omega), twoTo_eq,
      show binade = 2 ^ 52 from rfl]
    ring
  have hSplit : 1086 * binade = 1085 * binade + binade := by
    omega
  rw [hSplit]
  exact hPlaces 1074 1085 rfl

/- An integer of 64 bits is rounded to the pattern that it lies around. -/
theorem surrounds_bitsOfUnits
    {num : Nat}
    (hRange : num ≤ 2 ^ 63 * twoTo 1074) :
    bitsOfUnits num 1 < infiniteBits ∧
      Surrounds (bitsOfUnits num 1) num 1 := by
  rcases exists_surrounds num with ⟨b, hAround⟩
  have hFinite : b < infiniteBits := by
    by_contra hBeyond
    have hLarge : 1086 * binade < infiniteBits := by decide
    have hPrev : unitsOfBits (1086 * binade) ≤ unitsOfBits (b - 1) :=
      unitsOfBits_strictMono.monotone (by omega)
    have hSelf : unitsOfBits (1086 * binade) < unitsOfBits b :=
      unitsOfBits_strictMono (by omega)
    have hLow := hAround.1
    rw [unitsOfBits_maxInt] at hPrev hSelf
    omega
  rcases Nat.eq_zero_or_pos b with rfl | hPos
  · have hZero : num = 0 := by
      have hHigh := hAround.2.1
      have hOne : unitsOfBits (0 + 1) = 1 := by decide
      rw [unitsOfBits_zero, hOne] at hHigh
      omega
    have hNone : bitsOfUnits num 1 = 0 := by
      rw [hZero]
      decide
    rw [hNone]
    exact ⟨hFinite, hAround⟩
  · rw [bitsOfUnits_eq (by omega) hPos hFinite hAround]
    exact ⟨hFinite, hAround⟩

------------------------------------------------------------
-- The number of an integer
------------------------------------------------------------

section Integers

variable {n : Int}
variable {x : Float}

/- The side of zero that an integer is on. -/
def sideOfInt
    (n : Int) : Sign :=
  if n < 0 then .negative else .positive

/- An integer in units is its magnitude in units with its sign. -/
theorem mul_twoTo_eq
    (k : Nat) :
    n * (twoTo k : Int) =
      (sideOfInt n).apply (n.natAbs * twoTo k : Nat) := by
  unfold sideOfInt
  by_cases hNegative : n < 0
  · rw [if_pos hNegative]
    simp only [Sign.apply]
    push_cast
    rw [abs_of_neg hNegative, neg_mul, neg_neg]
  · rw [if_neg hNegative]
    simp only [Sign.apply]
    push_cast
    rw [abs_of_nonneg (Int.not_lt.mp hNegative)]

/- A finite pattern with a sign is the magnitude of its number. -/
theorem magnitude_ofMagnitude
    (negative : Bool)
    {b : Nat}
    (hFinite : b < infiniteBits) :
    magnitude (ofMagnitude negative b) = b ∧
      isNegative (ofMagnitude negative b) = negative := by
  have hBound : infiniteBits < signBit := by decide
  have hWord : 2 ^ 64 = 2 * signBit := by decide
  unfold ofMagnitude magnitude isNegative
  cases negative with
  | false =>
      have hBits : (UInt64.ofNat b).toNat = b := by
        rw [UInt64.toNat_ofNat']
        exact Nat.mod_eq_of_lt (by omega)
      simp only [Bool.false_eq_true, if_false]
      rw [toBits_ofBits, hBits]
      · exact ⟨Nat.mod_eq_of_lt (by omega), decide_eq_false (by omega)⟩
      · rw [hBits, Nat.mod_eq_of_lt (by omega)]
        exact hFinite
  | true =>
      have hBits : (UInt64.ofNat (signBit + b)).toNat = signBit + b := by
        rw [UInt64.toNat_ofNat']
        exact Nat.mod_eq_of_lt (by omega)
      have hRest : (signBit + b) % signBit = b := by
        rw [Nat.add_mod_left]
        exact Nat.mod_eq_of_lt (by omega)
      simp only [if_true]
      rw [toBits_ofBits, hBits]
      · exact ⟨hRest, decide_eq_true (by omega)⟩
      · rw [hBits, hRest]
        exact hFinite

/- What an integer of 64 bits is converted to, in parts. -/
theorem ofInt_spec
    (hRange : n.natAbs ≤ 2 ^ 63) :
    isFinite (ofInt n) = true ∧
      side (ofInt n) = sideOfInt n ∧
      Surrounds (magnitude (ofInt n)) (n.natAbs * twoTo 1074) 1 := by
  rcases surrounds_bitsOfUnits
    (Nat.mul_le_mul_right (twoTo 1074) hRange) with ⟨hFinite, hAround⟩
  rcases magnitude_ofMagnitude (decide (n < 0)) hFinite with
    ⟨hMagnitude, hSign⟩
  unfold isFinite side sideOfInt ofInt
  rw [hMagnitude, hSign]
  refine ⟨decide_eq_true hFinite, ?_, hAround⟩
  simp only [decide_eq_true_eq]

/- A finite number is not undefined. -/
theorem isNaN_of_isFinite
    (h : isFinite x = true) :
    x.isNaN = false := by
  have hFinite : magnitude x < infiniteBits := of_decide_eq_true h
  apply Bool.eq_false_iff.mpr
  intro hNaN
  have hBeyond := isNaN_iff.mp hNaN
  omega

/-
  No number is nearer to an integer than its conversion. Another
  one that is as near has an odd pattern, and the conversion has
  an even one.
-/
theorem nearest_ofInt
    (hRange : n.natAbs ≤ 2 ^ 63)
    (x : Float) :
    (n * twoTo 1074 - units (ofInt n)).natAbs ≤
        (n * twoTo 1074 - units x).natAbs ∧
      ((n * twoTo 1074 - units (ofInt n)).natAbs =
          (n * twoTo 1074 - units x).natAbs →
        units x ≠ units (ofInt n) →
        magnitude (ofInt n) % 2 = 0 ∧ magnitude x % 2 = 1) := by
  rcases ofInt_spec hRange with ⟨-, hSide, hAround⟩
  -- A number on the other side of zero is farther away than zero.
  have hSame := hAround.nearest (magnitude x)
  have hZero := hAround.nearest 0
  have hNone := @unitsOfBits_eq_zero_iff (magnitude (ofInt n))
  have hEqual := @unitsOfBits_inj (magnitude x) (magnitude (ofInt n))
  rw [unitsOfBits_zero] at hZero
  unfold units
  rw [hSide, mul_twoTo_eq]
  generalize sideOfInt n = sign
  generalize n.natAbs * twoTo 1074 = num at *
  cases sign <;> cases side x <;> simp only [Sign.apply] <;> omega

/- Being nearest to an integer, in units. -/
theorem isNearest_int_iff :
    IsNearest n x ↔
      ∀ y, isFinite y = true →
        (n * twoTo 1074 - units x).natAbs ≤
            (n * twoTo 1074 - units y).natAbs ∧
          ((n * twoTo 1074 - units x).natAbs =
              (n * twoTo 1074 - units y).natAbs →
            units y ≠ units x → magnitude x % 2 = 0) := by
  have hUnit : (0 : Rat) < twoTo 1074 :=
    Nat.cast_pos.mpr (twoTo_pos 1074)
  unfold IsNearest
  simp only [abs_sub_value, div_le_div_iff_of_pos_right hUnit,
    div_left_inj' hUnit.ne', Nat.cast_le, Nat.cast_inj, ne_eq,
    value_eq_iff]

/- The conversion of an integer is the number nearest to it. -/
theorem isNearest_iff
    (hRange : n.natAbs ≤ 2 ^ 63) :
    IsNearest n x ↔ units x = units (ofInt n) := by
  rw [isNearest_int_iff]
  constructor
  · intro hNearest
    by_contra hOther
    have hConversion := hNearest _ (ofInt_spec hRange).1
    have hSelf := nearest_ofInt hRange x
    have hEqual := Nat.le_antisymm hConversion.1 hSelf.1
    have hEven := hConversion.2 hEqual (Ne.symm hOther)
    have hOdd := (hSelf.2 hEqual.symm hOther).2
    omega
  · intro hUnits y _
    have hMagnitude := magnitude_eq_of_place (units_eq_iff.mp hUnits)
    have hSelf := nearest_ofInt hRange y
    rw [hUnits, hMagnitude]
    exact ⟨hSelf.1, fun hEqual hOther => (hSelf.2 hEqual hOther).1⟩

/-
  An integer is equal to the finite number that is nearest to
  it, and to no other number.
-/
theorem ofInt_beq_iff
    (hRange : n.natAbs ≤ 2 ^ 63) :
    (ofInt n == x) = true ↔ isFinite x = true ∧ IsNearest n x := by
  have hFinite := (ofInt_spec hRange).1
  rw [beq_iff, isNearest_iff hRange, units_eq_iff]
  constructor
  · rintro ⟨_, _, hPlace⟩
    refine ⟨?_, hPlace.symm⟩
    unfold isFinite at hFinite ⊢
    rw [← magnitude_eq_of_place hPlace]
    exact hFinite
  · rintro ⟨hNumber, hPlace⟩
    exact ⟨isNaN_of_isFinite hFinite, isNaN_of_isFinite hNumber,
      hPlace.symm⟩

/-
  An integer that is the value of a number is the value of its
  conversion.
-/
theorem units_eq_of_value
    (hRange : n.natAbs ≤ 2 ^ 63)
    (hValue : value x = n) :
    units x = units (ofInt n) := by
  have hNearest := (nearest_ofInt hRange x).1
  rw [value_eq_int_iff.mp hValue] at hNearest ⊢
  omega

/- The magnitude of an integer of 53 places is one of a pattern. -/
theorem exists_unitsOfBits
    {a : Nat}
    (hPlaces : a ≤ 2 ^ 53) :
    ∃ b, unitsOfBits b = a * twoTo 1074 := by
  rcases Nat.eq_zero_or_pos a with rfl | hPos
  · exact ⟨0, by rw [unitsOfBits_zero, Nat.zero_mul]⟩
  have hExponent : ∃ k j, k + j = 52 ∧ 2 ^ k ≤ a ∧ a ≤ 2 ^ (k + 1) := by
    rcases Nat.lt_or_eq_of_le hPlaces with hLess | rfl
    · have hLog := (Nat.log2_lt hPos.ne').mpr hLess
      exact ⟨a.log2, 52 - a.log2, by omega, Nat.log2_self_le hPos.ne',
        Nat.le_of_lt Nat.lt_log2_self⟩
    · exact ⟨52, 0, by decide⟩
  rcases hExponent with ⟨k, j, hSum, hLow, hHigh⟩
  -- Shifted to the left, the integer is a full significand.
  have hFull : binade ≤ a * 2 ^ j := by
    calc binade = 2 ^ k * 2 ^ j := by rw [← pow_add, hSum]; rfl
      _ ≤ a * 2 ^ j := Nat.mul_le_mul_right _ hLow
  have hMost : a * 2 ^ j ≤ 2 * binade := by
    calc a * 2 ^ j ≤ 2 ^ (k + 1) * 2 ^ j := Nat.mul_le_mul_right _ hHigh
      _ = 2 * binade := by
        rw [← pow_add, show k + 1 + j = 53 by omega]
        rfl
  refine ⟨(1022 + k) * binade + a * 2 ^ j, ?_⟩
  rw [unitsOfBits_shift (.inr hFull) hMost, twoTo_eq, Nat.mul_assoc,
    ← pow_add, show j + (1022 + k) = 1074 by omega]

/- An integer of 53 places is the value of its conversion. -/
theorem value_ofInt
    (hPlaces : n.natAbs ≤ 2 ^ 53) :
    value (ofInt n) = n := by
  have hRange : n.natAbs ≤ 2 ^ 63 :=
    Nat.le_trans hPlaces (Nat.pow_le_pow_right (by decide) (by decide))
  rcases ofInt_spec hRange with ⟨-, hSide, hAround⟩
  rcases exists_unitsOfBits hPlaces with ⟨b, hExact⟩
  have hNearest := (hAround.nearest b).1
  have hUnits :
      unitsOfBits (magnitude (ofInt n)) = n.natAbs * twoTo 1074 := by
    omega
  rw [value_eq_int_iff]
  unfold units
  rw [hSide, hUnits, mul_twoTo_eq]

end Integers

end DynScript.Decimal
