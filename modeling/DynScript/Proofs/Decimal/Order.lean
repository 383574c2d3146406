import DynScript.Proofs.Decimal.ReadsBack

/-
  The order of floating point numbers is the order of their
  bit patterns: a number's place is its magnitude with its sign.
  The two zeros share a place, and an undefined number is
  neither before nor behind nor equal to any other.

  Key definitions include:
    * `Decimal.side`
    * `Decimal.place`
    * `Decimal.Unpacked`

  Main statements include:
    * `Decimal.unpacked_unpack`
    * `Decimal.compare_unpacked`
    * `Decimal.isNaN_iff`
    * `Decimal.beq_iff`
    * `Decimal.lt_iff`
    * `Decimal.le_iff`
-/

namespace DynScript.Decimal

open Float.Model
open Float.Model.UnpackedFloat

------------------------------------------------------------
-- Places
------------------------------------------------------------

/- The side of zero that a number is on. -/
def side
    (x : Float) : Sign :=
  if isNegative x then .negative else .positive

/- The place of a number among all numbers that are not undefined. -/
def place
    (x : Float) : Int :=
  (side x).apply (magnitude x)

------------------------------------------------------------
-- Patterns taken apart
------------------------------------------------------------

/-
  What a pattern is taken apart into: a finite one into a
  significand and a shift.
-/
inductive Unpacked
    (sign : Sign) : Nat → UnpackedFloat → Prop where
  | undefined {b : Nat}
      (hBeyond : infiniteBits < b) :
      Unpacked sign b .notANumber
  | infinite :
      Unpacked sign infiniteBits (.infinity sign)
  | zero :
      Unpacked sign 0 (.zero sign)
  | finite {s m : Nat}
      (hFull : s = 0 ∨ binade ≤ m)
      (hPlaces : m < 2 * binade)
      (hFinite : s * binade + m < infiniteBits)
      (hPos : 0 < m) :
      Unpacked sign (s * binade + m) (.finite sign m (s - 1074) hPos)

theorem Unpacked.of_finite
    {sign : Sign}
    {b s m : Nat}
    {e : Int}
    (hPattern : b = s * binade + m)
    (hExponent : e = s - 1074)
    (hFull : s = 0 ∨ binade ≤ m)
    (hPlaces : m < 2 * binade)
    (hFinite : b < infiniteBits)
    (hPos : 0 < m) :
    Unpacked sign b (.finite sign m e hPos) := by
  subst hPattern hExponent
  exact .finite hFull hPlaces hFinite hPos

/- The mantissa of a pattern, as a number. -/
theorem toNat_unpackMantissa
    (b : BitVec 64) :
    (@unpackMantissa .binary64 b).toNat = b.toNat % 2 ^ 52 := by
  rw [@unpackMantissa_def .binary64 b, BitVec.extractLsb'_toNat,
    Nat.shiftRight_zero]

/- The significand of a pattern whose exponent is not zero. -/
theorem toNat_implicit
    (m : BitVec 52) :
    (1#1 ++ m).toNat = binade + m.toNat := by
  have hOr := Nat.two_pow_add_eq_or_of_lt m.isLt 1
  rw [Nat.mul_one] at hOr
  rw [BitVec.toNat_append, BitVec.toNat_ofNat, Nat.pow_one,
    Nat.one_mod, Nat.one_shiftLeft, ← hOr]
  rfl

/- The sign of a pattern, as a number. -/
theorem toNat_unpackSign
    (b : BitVec 64) :
    (@unpackSign .binary64 b).toNat = b.toNat / 2 ^ 63 := by
  have hBit : b.toNat / 2 ^ 63 < 2 ^ 1 := by
    have hLt := b.isLt
    omega
  rw [@unpackSign_def .binary64 b, BitVec.extractLsb'_toNat,
    Nat.shiftRight_eq_div_pow]
  exact Nat.mod_eq_of_lt hBit

/- The sign of a number is its side. -/
theorem ofBitVec_unpackSign
    (x : Float) :
    Sign.ofBitVec (@unpackSign .binary64 x.toBits.toBitVec) = side x := by
  have hSign := toNat_unpackSign x.toBits.toBitVec
  rw [UInt64.toNat_toBitVec] at hSign
  unfold side isNegative Sign.ofBitVec
  by_cases hBit : signBit ≤ x.toBits.toNat
  · have hOne : ¬ @unpackSign .binary64 x.toBits.toBitVec = 0#1 := by
      intro hZero
      rw [hZero] at hSign
      simp only [signBit, twoTo_eq, BitVec.toNat_ofNat] at hBit hSign
      omega
    rw [if_neg hOne, decide_eq_true hBit, if_pos rfl]
  · have hZero : @unpackSign .binary64 x.toBits.toBitVec = 0#1 := by
      apply BitVec.eq_of_toNat_eq
      simp only [signBit, twoTo_eq] at hBit
      rw [hSign, BitVec.toNat_ofNat]
      omega
    rw [if_pos hZero, decide_eq_false hBit, if_neg Bool.false_ne_true]

/- The exponent and the mantissa make up the magnitude. -/
theorem magnitude_eq_fields
    (x : Float) :
    magnitude x =
      (@unpackExponent .binary64 x.toBits.toBitVec).toNat * binade +
        (@unpackMantissa .binary64 x.toBits.toBitVec).toNat := by
  have hMantissa := toNat_unpackMantissa x.toBits.toBitVec
  have hExponent := toNat_unpackExponent x.toBits.toBitVec
  rw [UInt64.toNat_toBitVec] at hMantissa hExponent
  rw [hMantissa, hExponent]
  simp only [magnitude, signBit, binade, twoTo_eq]
  omega

/-
  A pattern whose exponent is the least has its mantissa as
  significand.
-/
theorem unpacked_subnormal
    (sign : Sign)
    {m : BitVec 52}
    (hPos : 0 < m.toNat) :
    Unpacked sign (0 * binade + m.toNat)
      (.finite sign m.toNat (-1074) hPos) := by
  have hPlaces := m.isLt
  apply Unpacked.of_finite rfl rfl (.inl rfl)
  · rw [binade_eq]
    omega
  · change 0 * binade + _ < 2047 * binade
    rw [binade_eq]
    omega

/- With another exponent there is one place more in front. -/
theorem unpacked_normal
    (sign : Sign)
    {e : BitVec 11}
    {m : BitVec 52}
    (hNormal : e.toNat ≠ 0)
    (hBelow : e.toNat ≠ 2047)
    (hPos : 0 < (1#1 ++ m).toNat) :
    Unpacked sign (e.toNat * binade + m.toNat)
      (.finite sign (1#1 ++ m).toNat (e.toNat - (1023 + 52)) hPos) := by
  have hExponent := e.isLt
  have hPlaces := m.isLt
  rcases Nat.exists_eq_succ_of_ne_zero hNormal with ⟨s, hSucc⟩
  rw [hSucc] at hBelow hExponent ⊢
  apply Unpacked.of_finite (s := s)
  · rw [toNat_implicit, Nat.succ_mul, Nat.add_assoc]
  · omega
  · rw [toNat_implicit]
    exact .inr (Nat.le_add_right _ _)
  · rw [toNat_implicit, binade_eq]
    omega
  · change _ < 2047 * binade
    rw [binade_eq]
    omega

/- A number is taken apart by the fields of its pattern. -/
theorem unpacked_unpack
    (x : Float) :
    Unpacked (side x) (magnitude x) x.toModel.unpack := by
  have hUnpack :
      x.toModel.unpack =
        UnpackedFloat.unpack .binary64 x.toBits.toBitVec :=
    rfl
  rw [hUnpack, magnitude_eq_fields]
  unfold UnpackedFloat.unpack
  dsimp only
  rw [ofBitVec_unpackSign]
  split
  · next hAll =>
    rw [hAll]
    split
    · next hNone =>
      rw [hNone]
      exact .infinite
    · next hSome =>
      have hPos := mt BitVec.eq_of_toNat_eq hSome
      rw [BitVec.toNat_ofNat, Nat.zero_mod] at hPos
      apply Unpacked.undefined
      change 2047 * binade < 2047 * binade + _
      omega
  · next hOther =>
    split
    · next hLeast =>
      rw [hLeast]
      split
      · next hNone =>
        rw [hNone]
        exact .zero
      · exact unpacked_subnormal (side x) _
    · next hNormal =>
      exact unpacked_normal (side x)
        (fun hLeast => hNormal (BitVec.eq_of_toNat_eq hLeast))
        (fun hAll => hOther (BitVec.eq_of_toNat_eq hAll)) _

------------------------------------------------------------
-- Comparing what was taken apart
------------------------------------------------------------

/- The larger shift decides, and then the larger significand. -/
theorem compare_shift
    {s t m n : Nat}
    (hFull : s = 0 ∨ binade ≤ m)
    (hPlaces : m < 2 * binade)
    (hFull' : t = 0 ∨ binade ≤ n)
    (hPlaces' : n < 2 * binade) :
    (compare ((s : Int) - 1074) (t - 1074)).then (compare m n) =
      compare (s * binade + m : Nat) (t * binade + n : Nat) := by
  have hBinade := binade_eq
  rcases Nat.lt_trichotomy s t with hLess | rfl | hMore
  · have hExponent : compare ((s : Int) - 1074) (t - 1074) = .lt :=
      Int.compare_eq_lt.mpr (by omega)
    have hPattern : s * binade + m < t * binade + n := by
      simp only [binade_eq] at *
      omega
    rw [hExponent, Nat.compare_eq_lt.mpr hPattern]
    rfl
  · have hExponent : compare ((s : Int) - 1074) (s - 1074) = .eq :=
      Int.compare_eq_eq.mpr rfl
    rw [hExponent]
    rcases Nat.lt_trichotomy m n with hLess | rfl | hMore
    · rw [Nat.compare_eq_lt.mpr hLess, Nat.compare_eq_lt.mpr (by omega)]
      rfl
    · rw [Nat.compare_eq_eq.mpr rfl, Nat.compare_eq_eq.mpr rfl]
      rfl
    · rw [Nat.compare_eq_gt.mpr hMore, Nat.compare_eq_gt.mpr (by omega)]
      rfl
  · have hExponent : compare ((s : Int) - 1074) (t - 1074) = .gt :=
      Int.compare_eq_gt.mpr (by omega)
    have hPattern : t * binade + n < s * binade + m := by
      simp only [binade_eq] at *
      omega
    rw [hExponent, Nat.compare_eq_gt.mpr hPattern]
    rfl

/- Magnitudes with one sign are ordered as they are, or the other way. -/
theorem compare_apply
    (sign : Sign)
    (b c : Nat) :
    compare (sign.apply b) (sign.apply c) =
      match sign with
      | .positive => compare b c
      | .negative => (compare b c).swap := by
  rcases Nat.lt_trichotomy b c with hLess | rfl | hMore
  · rw [Nat.compare_eq_lt.mpr hLess]
    cases sign with
    | positive =>
        exact Int.compare_eq_lt.mpr (by simp only [Sign.apply]; omega)
    | negative =>
        exact Int.compare_eq_gt.mpr (by simp only [Sign.apply]; omega)
  · rw [Nat.compare_eq_eq.mpr rfl, Int.compare_eq_eq.mpr rfl]
    cases sign <;> rfl
  · rw [Nat.compare_eq_gt.mpr hMore]
    cases sign with
    | positive =>
        exact Int.compare_eq_gt.mpr (by simp only [Sign.apply]; omega)
    | negative =>
        exact Int.compare_eq_lt.mpr (by simp only [Sign.apply]; omega)

/- Numbers are compared by their places, unless one is undefined. -/
theorem compare_unpacked
    {sign sign' : Sign}
    {b c : Nat}
    {u v : UnpackedFloat}
    (hLeft : Unpacked sign b u)
    (hRight : Unpacked sign' c v)
    (hDefined : b ≤ infiniteBits)
    (hDefined' : c ≤ infiniteBits) :
    UnpackedFloat.compare u v =
      some (compare (sign.apply b) (sign'.apply c)) := by
  have hInfinite : 0 < infiniteBits := by decide
  cases hLeft with
  | undefined hBeyond => omega
  | finite hFull hPlaces hFinite hPos =>
      cases hRight with
      | undefined hBeyond => omega
      | finite hFull' hPlaces' hFinite' hPos' =>
          have hShift := compare_shift hFull hPlaces hFull' hPlaces'
          cases sign <;> cases sign'
          · rw [compare_apply .negative, ← hShift]
            rfl
          · rw [Int.compare_eq_lt.mpr (by simp only [Sign.apply]; omega)]
            rfl
          · rw [Int.compare_eq_gt.mpr (by simp only [Sign.apply]; omega)]
            rfl
          · rw [compare_apply .positive, ← hShift]
            rfl
      | infinite | zero =>
          -- Only the signs and which of the two is infinite count.
          cases sign <;> cases sign' <;>
            first
            | rw [Int.compare_eq_lt.mpr
                (by simp only [Sign.apply]; omega)]
              rfl
            | rw [Int.compare_eq_gt.mpr
                (by simp only [Sign.apply]; omega)]
              rfl
  | infinite | zero =>
      cases hRight with
      | undefined hBeyond => omega
      | infinite | zero | finite =>
          cases sign <;> cases sign' <;>
            first
            | rfl
            | rw [Int.compare_eq_lt.mpr
                (by simp only [Sign.apply]; omega)]
              rfl
            | rw [Int.compare_eq_gt.mpr
                (by simp only [Sign.apply]; omega)]
              rfl

------------------------------------------------------------
-- Comparing numbers
------------------------------------------------------------

section Comparison

variable {x y : Float}

/- A number is undefined if its pattern is beyond the infinite one. -/
theorem isNaN_iff :
    x.isNaN = true ↔ infiniteBits < magnitude x := by
  have hUnpacked := unpacked_unpack x
  change x.toModel.unpack.isNaN = true ↔ _
  generalize x.toModel.unpack = u at hUnpacked
  generalize magnitude x = b at hUnpacked
  have hInfinite : 0 < infiniteBits := by decide
  cases hUnpacked with
  | undefined hBeyond => exact iff_of_true rfl hBeyond
  | infinite => exact iff_of_false Bool.false_ne_true (by omega)
  | zero => exact iff_of_false Bool.false_ne_true (by omega)
  | finite hFull hPlaces hFinite hPos =>
      exact iff_of_false Bool.false_ne_true (by omega)

/- Numbers that are not undefined are compared by their places. -/
theorem compare_eq
    (hLeft : x.isNaN = false)
    (hRight : y.isNaN = false) :
    x.toModel.unpack.compare y.toModel.unpack =
      some (compare (place x) (place y)) := by
  have hDefined := mt isNaN_iff.mpr (Bool.not_eq_true _ ▸ hLeft)
  have hDefined' := mt isNaN_iff.mpr (Bool.not_eq_true _ ▸ hRight)
  exact compare_unpacked (unpacked_unpack x) (unpacked_unpack y)
    (Nat.le_of_not_lt hDefined) (Nat.le_of_not_lt hDefined')

/- An undefined number is not compared with any other. -/
theorem compare_eq_none
    (h : x.isNaN = true ∨ y.isNaN = true) :
    x.toModel.unpack.compare y.toModel.unpack = none := by
  have hNone : ∀ z : Float, z.isNaN = true →
      z.toModel.unpack = .notANumber := by
    intro z hNaN
    change z.toModel.unpack.isNaN = true at hNaN
    generalize z.toModel.unpack = u at hNaN
    cases u with
    | notANumber => rfl
    | infinity | zero | finite => cases hNaN
  rcases h with hLeft | hRight
  · rw [hNone x hLeft]
    rfl
  · rw [hNone y hRight]
    cases x.toModel.unpack <;> rfl

/- What a comparison says of two numbers, by their places. -/
theorem compare_eq_some_iff
    {o : Ordering} :
    x.toModel.unpack.compare y.toModel.unpack = some o ↔
      x.isNaN = false ∧ y.isNaN = false ∧
        compare (place x) (place y) = o := by
  cases hLeft : x.isNaN with
  | true => simp [compare_eq_none (.inl hLeft)]
  | false =>
      cases hRight : y.isNaN with
      | true => simp [compare_eq_none (.inr hRight)]
      | false => simp [compare_eq hLeft hRight]

theorem beq_iff :
    (x == y) = true ↔
      x.isNaN = false ∧ y.isNaN = false ∧ place x = place y := by
  have hBeq : (x == y) =
      (x.toModel.unpack.compare y.toModel.unpack == some .eq) :=
    rfl
  rw [hBeq, beq_iff_eq, compare_eq_some_iff, Int.compare_eq_eq]

theorem lt_iff :
    x < y ↔ x.isNaN = false ∧ y.isNaN = false ∧ place x < place y := by
  have hLt : x < y ↔
      (x.toModel.unpack.compare y.toModel.unpack == some .lt) = true :=
    decide_eq_true_iff
  rw [hLt, beq_iff_eq, compare_eq_some_iff, Int.compare_eq_lt]

theorem le_iff :
    x ≤ y ↔ x.isNaN = false ∧ y.isNaN = false ∧ place x ≤ place y := by
  have hLe : x ≤ y ↔
      (x.toModel.unpack.compare y.toModel.unpack).any (·.isLE) = true :=
    decide_eq_true_iff
  rw [hLe, Option.any_eq_true]
  constructor
  · rintro ⟨o, hSome, hAtMost⟩
    rcases compare_eq_some_iff.mp hSome with ⟨hLeft, hRight, rfl⟩
    exact ⟨hLeft, hRight, Std.isLE_compare.mp hAtMost⟩
  · rintro ⟨hLeft, hRight, hPlaces⟩
    exact ⟨_, compare_eq hLeft hRight, Std.isLE_compare.mpr hPlaces⟩

/- A number is equal to itself unless it is undefined. -/
theorem beq_self_iff :
    (x == x) = true ↔ x.isNaN = false := by
  rw [beq_iff]
  exact ⟨fun h => h.1, fun h => ⟨h, h, rfl⟩⟩

theorem beq_comm :
    (x == y) = (y == x) := by
  rw [Bool.eq_iff_iff, beq_iff, beq_iff]
  exact ⟨fun ⟨hLeft, hRight, h⟩ => ⟨hRight, hLeft, h.symm⟩,
    fun ⟨hRight, hLeft, h⟩ => ⟨hLeft, hRight, h.symm⟩⟩

theorem beq_trans
    {z : Float}
    (h : (x == y) = true)
    (h' : (y == z) = true) :
    (x == z) = true := by
  rw [beq_iff] at *
  exact ⟨h.1, h'.2.1, h.2.2.trans h'.2.2⟩

end Comparison

end DynScript.Decimal
