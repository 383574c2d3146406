import Mathlib
import DynScript.Decimal.Nearest
import DynScript.Proofs.Decimal.Rounding

/-
  Finite floating point numbers and their bit patterns are the
  same thing: a finite pattern becomes a number with that
  pattern, and no number is read as one with a sign.

  Main statements include:
    * `Decimal.toBits_ofBits`
    * `Decimal.ofMagnitude_magnitude`
    * `Decimal.eq_of_magnitude`
    * `Decimal.isNegative_nearest`
-/

namespace DynScript.Decimal

open Float.Model.UnpackedFloat

------------------------------------------------------------
-- Numbers and patterns
------------------------------------------------------------

/- The exponent of a pattern, as a number. -/
theorem toNat_unpackExponent
    (b : BitVec 64) :
    (@unpackExponent .binary64 b).toNat =
      b.toNat / 2 ^ 52 % 2 ^ 11 := by
  rw [@unpackExponent_def .binary64 b, BitVec.extractLsb'_toNat,
    Nat.shiftRight_eq_div_pow]

/- The number with a finite pattern has that pattern. -/
theorem toBits_ofBits
    {b : UInt64}
    (hFinite : b.toNat % signBit < infiniteBits) :
    (Float.ofBits b).toBits = b := by
  have hExponent :
      (@unpackExponent .binary64 b.toBitVec).toNat < 2047 := by
    rw [toNat_unpackExponent]
    have hLt := b.toNat_lt
    simp only [signBit, infiniteBits, binade, twoTo_eq] at hFinite
    simp only [UInt64.toNat_toBitVec]
    omega
  have hNumber : ¬ @isNaNBits .binary64 b.toBitVec = true := by
    intro hNaN
    have hAll := (of_decide_eq_true hNaN).1
    rw [hAll] at hExponent
    exact absurd hExponent (by decide)
  have hPack := @pack_unpack .binary64 b.toBitVec (by decide)
  rw [if_neg hNumber] at hPack
  exact UInt64.toBitVec_inj.mp hPack

/- A number without a sign is the one with its magnitude. -/
theorem ofMagnitude_magnitude
    {x : Float}
    (hSign : isNegative x = false) :
    ofMagnitude false (magnitude x) = x := by
  have hSmall : x.toBits.toNat < signBit := by
    simpa [isNegative] using hSign
  have hSelf : magnitude x = x.toBits.toNat := Nat.mod_eq_of_lt hSmall
  unfold ofMagnitude
  simp only [Bool.false_eq_true, if_false]
  rw [hSelf, UInt64.ofNat_toNat, Float.ofBits_toBits]

/- A number is known from its sign and its magnitude. -/
theorem eq_of_magnitude
    {x y : Float}
    (hSign : isNegative x = isNegative y)
    (hMagnitude : magnitude x = magnitude y) :
    x = y := by
  have hLt := x.toBits.toNat_lt
  have hLt' := y.toBits.toNat_lt
  have hSide : signBit ≤ x.toBits.toNat ↔ signBit ≤ y.toBits.toNat :=
    decide_eq_decide.mp hSign
  have hBits : x.toBits.toNat = y.toBits.toNat := by
    simp only [magnitude, signBit, twoTo_eq] at hMagnitude hSide
    omega
  rw [← Float.ofBits_toBits x, UInt64.toNat_inj.mp hBits,
    Float.ofBits_toBits]

/- The number of a finite magnitude without a sign has none. -/
theorem toNat_toBits_ofMagnitude
    {b : Nat}
    (hFinite : b < infiniteBits) :
    (ofMagnitude false b).toBits.toNat = b := by
  have hBound : infiniteBits < signBit := by decide
  have hWord : signBit < 2 ^ 64 := by decide
  have hNat : (UInt64.ofNat b).toNat = b := by
    rw [UInt64.toNat_ofNat']
    exact Nat.mod_eq_of_lt (by omega)
  unfold ofMagnitude
  simp only [Bool.false_eq_true, if_false]
  rw [toBits_ofBits, hNat]
  rw [hNat, Nat.mod_eq_of_lt (by omega)]
  exact hFinite

------------------------------------------------------------
-- Numbers that were read
------------------------------------------------------------

/- No decimal is read as more than infinite. -/
theorem nearestBits_le
    (digits : Nat)
    (exponent : Int) :
    nearestBits digits exponent ≤ infiniteBits := by
  unfold nearestBits
  split
  · exact Nat.zero_le _
  · split
    · exact Nat.le_refl _
    · split
      · exact Nat.zero_le _
      · split
        · exact Nat.min_le_left _ _
        · exact Nat.min_le_left _ _

/- A finite number that was read without a sign has none. -/
theorem isNegative_nearest
    {whole fraction : List Char}
    (hFinite : isFinite (nearest whole fraction) = true) :
    isNegative (nearest whole fraction) = false := by
  unfold nearest at *
  rcases Nat.lt_or_eq_of_le (nearestBits_le
      (natOfDigits (whole ++ fraction)) (-fraction.length)) with
    hInside | hInfinite
  · have hBound : infiniteBits < signBit := by decide
    unfold isNegative
    rw [toNat_toBits_ofMagnitude hInside]
    exact decide_eq_false (by omega)
  · rw [hInfinite] at hFinite
    exact absurd hFinite (by decide +kernel)

end DynScript.Decimal
