/-
  This file relates 64-bit floating point numbers to exact
  arithmetic. Every finite magnitude is a whole number of
  units of 2^-1074, and consecutive bit patterns are
  consecutive magnitudes, so that rounding, remainders and
  neighbours are questions about natural numbers.

  Key definitions include:
    * `Decimal.binade`
    * `Decimal.unitsOfBits`
    * `Decimal.roundHalfEven`
    * `Decimal.bitsOfUnits`
    * `Decimal.magnitude`
    * `Decimal.ofMagnitude`
    * `Decimal.ofInt`
    * `Decimal.remainder`
-/

namespace DynScript.Decimal

------------------------------------------------------------
-- Bit patterns and magnitudes
------------------------------------------------------------

/- A power of two. -/
def twoTo
    (n : Nat) : Nat :=
  Nat.pow 2 n

/- A power of ten. -/
def tenTo
    (n : Nat) : Nat :=
  Nat.pow 10 n

/- How many patterns share an exponent. -/
def binade : Nat :=
  twoTo 52

/- The weight of the sign in a pattern. -/
def signBit : Nat :=
  twoTo 63

/- The pattern of an infinite magnitude. -/
def infiniteBits : Nat :=
  2047 * binade

/-
  The magnitude with the given bit pattern, counted in units
  of 2^-1074.
-/
def unitsOfBits
    (b : Nat) : Nat :=
  let e := b / binade
  let f := b % binade
  if e = 0 then f else (binade + f) * twoTo (e - 1)

/-
  A quotient rounded to the nearest whole number, halves to
  the even one.
-/
def roundHalfEven
    (num den : Nat) : Nat :=
  let q := num / den
  let r := num % den
  if 2 * r < den then q
  else if den < 2 * r then q + 1
  else q + q % 2

/-
  The bit pattern nearest to the magnitude `num / den`, given
  in units of 2^-1074. Scaling the quotient to 53 binary
  places makes the pattern a sum: a significand that rounds
  up to a power of two carries into the exponent by itself.
-/
def bitsOfUnits
    (num den : Nat) : Nat :=
  let e := (num / den).log2 - 52
  min infiniteBits (e * binade + roundHalfEven num (den * twoTo e))

------------------------------------------------------------
-- Floating point numbers
------------------------------------------------------------

/- The bit pattern of a number without its sign. -/
def magnitude
    (x : Float) : Nat :=
  x.toBits.toNat % signBit

/- Whether the sign bit is set, as it is for the negative zero. -/
def isNegative
    (x : Float) : Bool :=
  signBit ≤ x.toBits.toNat

/- Whether a number is neither infinite nor undefined. -/
def isFinite
    (x : Float) : Bool :=
  magnitude x < infiniteBits

/- The number with the given sign and magnitude. -/
def ofMagnitude
    (negative : Bool)
    (b : Nat) : Float :=
  Float.ofBits (UInt64.ofNat (if negative then signBit + b else b))

/-
  The number nearest to an integer, of two equally near ones
  the even one.
-/
def ofInt
    (n : Int) : Float :=
  ofMagnitude (n < 0) (bitsOfUnits (n.natAbs * twoTo 1074) 1)

/-
  The remainder of a division whose quotient is cut towards
  zero. It is exact and has the sign of the dividend.
-/
def remainder
    (x y : Float) : Float :=
  let a := magnitude x
  let b := magnitude y
  if infiniteBits ≤ a || infiniteBits < b || b == 0 then
    Float.ofBits 0x7ff8000000000000
  else if b == infiniteBits then
    x
  else
    ofMagnitude (isNegative x)
      (bitsOfUnits (unitsOfBits a % unitsOfBits b) 1)

end DynScript.Decimal
