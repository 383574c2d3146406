import Mathlib.Tactic.Linarith
import Mathlib.Tactic.Ring
import DynScript.Decimal.Binary

/-
  The bit pattern nearest to a quotient. A pattern is a number
  of 53 binary places and a shift, and consecutive patterns
  are consecutive magnitudes. So whatever lies between the
  midpoints to its neighbours is rounded to a pattern.

  Key definitions include:
    * `Decimal.Surrounds`

  Main statements include:
    * `Decimal.unitsOfBits_shift`
    * `Decimal.roundHalfEven_eq`
    * `Decimal.bitsOfUnits_eq`
-/

namespace DynScript.Decimal

------------------------------------------------------------
-- Significand and shift of a pattern
------------------------------------------------------------

theorem twoTo_eq
    (n : Nat) :
    twoTo n = 2 ^ n :=
  rfl

theorem tenTo_eq
    (n : Nat) :
    tenTo n = 10 ^ n :=
  rfl

theorem binade_eq :
    binade = 4503599627370496 := by
  decide

/-
  The magnitude of a pattern with shift `s` and significand
  `m`. The significand may be one more than 53 places hold:
  that is the first pattern of the next shift.
-/
theorem unitsOfBits_shift
    {s m : Nat}
    (hLow : s = 0 ∨ binade ≤ m)
    (hHigh : m ≤ 2 * binade) :
    unitsOfBits (s * binade + m) = m * 2 ^ s := by
  have hPos : 0 < binade := by decide
  unfold unitsOfBits
  simp only [twoTo_eq]
  rcases Nat.lt_or_ge m binade with hSmall | hLarge
  · -- Below the first full significand there is no shift.
    have hZero : s = 0 := by omega
    subst hZero
    simp [Nat.div_eq_of_lt hSmall, Nat.mod_eq_of_lt hSmall]
  · rcases Nat.lt_or_eq_of_le hHigh with hInside | hNext
    · have hSplit :
          s * binade + m = (m - binade) + (s + 1) * binade := by
        rw [Nat.add_mul]
        omega
      have hRest : m - binade < binade := by omega
      rw [hSplit, Nat.add_mul_div_right _ _ hPos,
        Nat.add_mul_mod_self_right, Nat.div_eq_of_lt hRest,
        Nat.mod_eq_of_lt hRest]
      have hShift : 0 + (s + 1) - 1 = s := by omega
      have hSignificand : binade + (m - binade) = m := by omega
      rw [if_neg (by omega), hShift, hSignificand]
    · have hSplit :
          s * binade + m = 0 + (s + 2) * binade := by
        rw [Nat.add_mul]
        omega
      rw [hSplit, Nat.add_mul_div_right _ _ hPos,
        Nat.add_mul_mod_self_right, Nat.zero_div, Nat.zero_mod,
        if_neg (by omega), hNext]
      have hShift : 0 + (s + 2) - 1 = s + 1 := by omega
      rw [hShift, pow_succ]
      ring

/- Every pattern has a significand and a shift. -/
theorem exists_shift
    (b : Nat) :
    ∃ s m, b = s * binade + m ∧ (s = 0 ∨ binade ≤ m) ∧
      m < 2 * binade := by
  have hDiv := Nat.div_add_mod b binade
  have hMod : b % binade < binade := Nat.mod_lt b (by decide)
  rcases Nat.eq_zero_or_pos (b / binade) with hZero | hPos
  · refine ⟨0, b, by omega, .inl rfl, ?_⟩
    rw [hZero] at hDiv
    omega
  · refine ⟨b / binade - 1, binade + b % binade, ?_, .inr ?_, ?_⟩
    · have hOne : b / binade = b / binade - 1 + 1 := by omega
      rw [hOne, Nat.mul_add] at hDiv
      rw [Nat.mul_comm]
      omega
    · omega
    · omega

------------------------------------------------------------
-- Rounding a quotient
------------------------------------------------------------

/-
  A quotient at most half a unit away from `m` is rounded to
  it, and at exactly half a unit only if `m` is even.
-/
theorem roundHalfEven_eq
    {num den m : Nat}
    (hPos : 0 < den)
    (hLow : 2 * m * den ≤ 2 * num + den)
    (hHigh : 2 * num ≤ 2 * m * den + den)
    (hTie :
      2 * m * den = 2 * num + den ∨ 2 * num = 2 * m * den + den →
        m % 2 = 0) :
    roundHalfEven num den = m := by
  have hDiv := Nat.div_add_mod num den
  have hMod := Nat.mod_lt num hPos
  unfold roundHalfEven
  simp only
  generalize num / den = q at *
  generalize num % den = r at *
  split
  · have hLe : m < q + 1 := by
      by_contra hNot
      have hMul := Nat.mul_le_mul_right den (Nat.le_of_not_lt hNot)
      nlinarith
    have hGe : q < m + 1 := by
      by_contra hNot
      have hMul := Nat.mul_le_mul_right den (Nat.le_of_not_lt hNot)
      nlinarith
    omega
  · split
    · have hLe : m < q + 2 := by
        by_contra hNot
        have hMul := Nat.mul_le_mul_right den (Nat.le_of_not_lt hNot)
        nlinarith
      have hGe : q < m := by
        by_contra hNot
        have hMul := Nat.mul_le_mul_right den (Nat.le_of_not_lt hNot)
        nlinarith
      omega
    · have hHalf : 2 * r = den := by omega
      have hLe : m < q + 2 := by
        by_contra hNot
        have hMul := Nat.mul_le_mul_right den (Nat.le_of_not_lt hNot)
        nlinarith
      have hGe : q < m + 1 := by
        by_contra hNot
        have hMul := Nat.mul_le_mul_right den (Nat.le_of_not_lt hNot)
        nlinarith
      have hEven : m % 2 = 0 := by
        apply hTie
        rcases (by omega : m = q ∨ m = q + 1) with rfl | rfl
        · right
          nlinarith
        · left
          nlinarith
      omega

------------------------------------------------------------
-- Rounding to a pattern
------------------------------------------------------------

/-
  A quotient that has 53 binary places after a shift by `s`
  and is nearest to the significand `m` there.
-/
theorem bitsOfUnits_shift
    {num den s m : Nat}
    (hDen : 0 < den)
    (hLow : s = 0 ∨ binade * (2 ^ s * den) ≤ num)
    (hHigh : num < 2 * binade * (2 ^ s * den))
    (hRoundLow : 2 * m * (2 ^ s * den) ≤ 2 * num + 2 ^ s * den)
    (hRoundHigh : 2 * num ≤ 2 * m * (2 ^ s * den) + 2 ^ s * den)
    (hTie :
      2 * m * (2 ^ s * den) = 2 * num + 2 ^ s * den ∨
          2 * num = 2 * m * (2 ^ s * den) + 2 ^ s * den →
        m % 2 = 0) :
    bitsOfUnits num den = min infiniteBits (s * binade + m) := by
  have hShift : (num / den).log2 - 52 = s := by
    have hBelow : num / den < 2 ^ (52 + s + 1) := by
      rw [Nat.div_lt_iff_lt_mul hDen]
      calc num < 2 * binade * (2 ^ s * den) := hHigh
        _ = 2 ^ (52 + s + 1) * den := by
          rw [show binade = 2 ^ 52 from rfl]
          ring
    rcases hLow with rfl | hAbove
    · have hLt : (num / den).log2 < 52 + 0 + 1 := by
        rcases Nat.eq_zero_or_pos (num / den) with hZero | hPos
        · rw [hZero]
          decide
        · exact (Nat.log2_lt (by omega)).mpr hBelow
      omega
    · have hGe : 2 ^ (52 + s) ≤ num / den := by
        rw [Nat.le_div_iff_mul_le hDen]
        calc 2 ^ (52 + s) * den = binade * (2 ^ s * den) := by
              rw [show binade = 2 ^ 52 from rfl]
              ring
          _ ≤ num := hAbove
      have hNe : num / den ≠ 0 := by
        have hTwo : 0 < 2 ^ (52 + s) := Nat.two_pow_pos _
        omega
      have hLog : (num / den).log2 = 52 + s :=
        (Nat.log2_eq_iff hNe).mpr ⟨hGe, hBelow⟩
      omega
  have hUnit : 0 < 2 ^ s * den := Nat.mul_pos (Nat.two_pow_pos s) hDen
  unfold bitsOfUnits
  simp only [hShift, twoTo_eq]
  rw [Nat.mul_comm den, roundHalfEven_eq hUnit hRoundLow hRoundHigh hTie]

/-
  A quotient lies between the midpoints from a pattern to its
  neighbours, and on a midpoint only if the pattern is even.
-/
def Surrounds
    (b num den : Nat) : Prop :=
  (unitsOfBits (b - 1) + unitsOfBits b) * den ≤ 2 * num ∧
    2 * num ≤ (unitsOfBits b + unitsOfBits (b + 1)) * den ∧
    ((unitsOfBits (b - 1) + unitsOfBits b) * den = 2 * num ∨
        2 * num = (unitsOfBits b + unitsOfBits (b + 1)) * den →
      b % 2 = 0)

/- A pattern that is one unit away from both of its neighbours. -/
theorem bitsOfUnits_regular
    {s m num den : Nat}
    (hDen : 0 < den)
    (hSome : 1 ≤ m)
    (hRegular : s = 0 ∨ binade < m)
    (hPlaces : m < 2 * binade)
    (hFinite : s * binade + m < infiniteBits)
    (h : Surrounds (s * binade + m) num den) :
    bitsOfUnits num den = s * binade + m := by
  rcases h with ⟨hLow, hHigh, hTie⟩
  have hPrev :
      unitsOfBits (s * binade + m - 1) = (m - 1) * 2 ^ s := by
    rw [Nat.add_sub_assoc hSome]
    exact unitsOfBits_shift (by omega) (by omega)
  have hSelf : unitsOfBits (s * binade + m) = m * 2 ^ s :=
    unitsOfBits_shift (by omega) (by omega)
  have hNext :
      unitsOfBits (s * binade + m + 1) = (m + 1) * 2 ^ s := by
    rw [Nat.add_assoc]
    exact unitsOfBits_shift (by omega) (by omega)
  have hEven : (s * binade + m) % 2 = 0 → m % 2 = 0 := by
    rw [binade_eq]
    omega
  have hOne : 2 * m = m - 1 + m + 1 := by omega
  -- The two midpoints, in units of the shift.
  have hMidLow :
      ((m - 1) * 2 ^ s + m * 2 ^ s) * den + 2 ^ s * den =
        2 * m * (2 ^ s * den) := by
    rw [hOne]
    ring
  have hMidHigh :
      (m * 2 ^ s + (m + 1) * 2 ^ s) * den =
        2 * m * (2 ^ s * den) + 2 ^ s * den := by
    ring
  rw [hPrev, hSelf] at hLow
  rw [hSelf, hNext, hMidHigh] at hHigh
  rw [hPrev, hSelf, hNext, hMidHigh] at hTie
  have hUpper : num < 2 * binade * (2 ^ s * den) := by
    have hUnit : 0 < 2 ^ s * den :=
      Nat.mul_pos (Nat.two_pow_pos s) hDen
    have hMul :
        (m + 1) * (2 ^ s * den) ≤ 2 * binade * (2 ^ s * den) :=
      Nat.mul_le_mul_right _ (by omega)
    rw [Nat.add_mul, Nat.one_mul] at hMul
    rw [Nat.mul_assoc] at hHigh
    omega
  have hLower : s = 0 ∨ binade * (2 ^ s * den) ≤ num := by
    rcases hRegular with hZero | hLarge
    · exact .inl hZero
    · right
      have hMul :
          (binade + 1) * (2 ^ s * den) ≤ m * (2 ^ s * den) :=
        Nat.mul_le_mul_right _ hLarge
      rw [Nat.add_mul, Nat.one_mul] at hMul
      rw [Nat.mul_assoc] at hMidLow
      omega
  rw [bitsOfUnits_shift (m := m) hDen hLower hUpper (by omega) hHigh]
  · exact Nat.min_eq_right (Nat.le_of_lt hFinite)
  · intro hMid
    apply hEven
    apply hTie
    omega

/-
  The first pattern of a shift, to which the one before it is
  only half a unit away.
-/
theorem bitsOfUnits_first
    {t num den : Nat}
    (hDen : 0 < den)
    (hFinite : t * binade + 2 * binade < infiniteBits)
    (h : Surrounds (t * binade + 2 * binade) num den) :
    bitsOfUnits num den = t * binade + 2 * binade := by
  rcases h with ⟨hLow, hHigh, _⟩
  have hSome : 1 ≤ binade := by decide
  have hPrev :
      unitsOfBits (t * binade + 2 * binade - 1) =
        (2 * binade - 1) * 2 ^ t := by
    rw [Nat.add_sub_assoc (by omega)]
    exact unitsOfBits_shift (by omega) (by omega)
  have hSelf :
      unitsOfBits (t * binade + 2 * binade) = 2 * binade * 2 ^ t :=
    unitsOfBits_shift (by omega) (by omega)
  have hSplit :
      t * binade + 2 * binade = (t + 1) * binade + binade := by
    ring
  have hNext :
      unitsOfBits (t * binade + 2 * binade + 1) =
        (binade + 1) * 2 ^ (t + 1) := by
    rw [hSplit, Nat.add_assoc]
    exact unitsOfBits_shift (by omega) (by omega)
  have hUnit : 0 < 2 ^ t * den := Nat.mul_pos (Nat.two_pow_pos t) hDen
  have hUnits : 1 * (2 ^ t * den) ≤ binade * (2 ^ t * den) :=
    Nat.mul_le_mul_right _ hSome
  have hDouble : 2 ^ (t + 1) * den = 2 * (2 ^ t * den) := by ring
  have hTwice :
      binade * (2 ^ (t + 1) * den) = 2 * (binade * (2 ^ t * den)) := by
    ring
  -- The two midpoints; the lower one is half as far away.
  have hMidLow :
      ((2 * binade - 1) * 2 ^ t + 2 * binade * 2 ^ t) * den +
          2 ^ t * den =
        4 * (binade * (2 ^ t * den)) := by
    have hOne :
        4 * binade = 2 * binade - 1 + 2 * binade + 1 := by
      omega
    rw [← Nat.mul_assoc, hOne]
    ring
  have hMidHigh :
      (2 * binade * 2 ^ t + (binade + 1) * 2 ^ (t + 1)) * den =
        4 * (binade * (2 ^ t * den)) + 2 * (2 ^ t * den) := by
    ring
  rw [hPrev, hSelf] at hLow
  rw [hSelf, hNext, hMidHigh] at hHigh
  rcases Nat.lt_or_ge num (2 * (binade * (2 ^ t * den))) with
    hBelow | hAbove
  · rw [bitsOfUnits_shift (s := t) (m := 2 * binade) hDen]
    · exact Nat.min_eq_right (Nat.le_of_lt hFinite)
    · right
      omega
    · rw [Nat.mul_assoc]
      exact hBelow
    · rw [Nat.mul_assoc, Nat.mul_assoc]
      omega
    · rw [Nat.mul_assoc, Nat.mul_assoc]
      omega
    · intro _
      omega
  · rw [hSplit, bitsOfUnits_shift (s := t + 1) (m := binade) hDen]
    · rw [← hSplit]
      exact Nat.min_eq_right (Nat.le_of_lt hFinite)
    · right
      rw [hTwice]
      exact hAbove
    · rw [Nat.mul_assoc, hTwice]
      omega
    · rw [Nat.mul_assoc, hTwice, hDouble]
      omega
    · rw [Nat.mul_assoc, hTwice, hDouble]
      omega
    · intro _
      decide

/- What lies around a finite pattern is rounded to it. -/
theorem bitsOfUnits_eq
    {b num den : Nat}
    (hDen : 0 < den)
    (hPos : 0 < b)
    (hFinite : b < infiniteBits)
    (h : Surrounds b num den) :
    bitsOfUnits num den = b := by
  rcases exists_shift b with ⟨s, m, rfl, hFull, hPlaces⟩
  have hSome : 1 ≤ m := by
    rcases hFull with rfl | hLe
    · rw [Nat.zero_mul, Nat.zero_add] at hPos
      exact hPos
    · exact Nat.le_trans (by decide) hLe
  by_cases hRegular : s = 0 ∨ binade < m
  · exact bitsOfUnits_regular hDen hSome hRegular hPlaces hFinite h
  · have hFirst : m = binade := by omega
    have hSplit : s * binade + m = (s - 1) * binade + 2 * binade := by
      rw [Nat.sub_mul, hFirst]
      have hMul : 1 * binade ≤ s * binade :=
        Nat.mul_le_mul_right _ (by omega)
      omega
    rw [hSplit] at hFinite h ⊢
    exact bitsOfUnits_first hDen hFinite h

end DynScript.Decimal
