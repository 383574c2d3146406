import DynScript.Decimal.Binary

/-
  This file reads decimal numerals as the nearest 64-bit
  floating point number, in exact arithmetic.

  Key definitions include:
    * `Decimal.digitValue`
    * `Decimal.natOfDigits`
    * `Decimal.nearestBits`
    * `Decimal.nearest`
    * `Decimal.read?`
-/

namespace DynScript.Decimal

------------------------------------------------------------
-- Digits
------------------------------------------------------------

/- The value of an ASCII digit. -/
def digitValue
    (c : Char) : Nat :=
  c.toNat - '0'.toNat

/- The number written by a list of ASCII digits. -/
def natOfDigits
    (cs : List Char) : Nat :=
  cs.foldl (fun n c => 10 * n + digitValue c) 0

------------------------------------------------------------
-- Rounding
------------------------------------------------------------

/-
  The bit pattern nearest to `digits * 10 ^ exponent`. The two
  early answers are for exponents so extreme that the result
  is certain without computing the power.
-/
def nearestBits
    (digits : Nat)
    (exponent : Int) : Nat :=
  if digits = 0 then 0
  else if 400 < exponent then infiniteBits
  else if exponent + (digits.log2 + 1) < -400 then 0
  else if 0 ≤ exponent then
    bitsOfUnits (digits * tenTo exponent.toNat * twoTo 1074) 1
  else
    bitsOfUnits (digits * twoTo 1074) (tenTo (-exponent).toNat)

/-
  The number nearest to a decimal with digits before and after
  the point.
-/
def nearest
    (whole fraction : List Char) : Float :=
  ofMagnitude false
    (nearestBits (natOfDigits (whole ++ fraction)) (-fraction.length))

------------------------------------------------------------
-- Numerals with sign and exponent
------------------------------------------------------------

/- A whole number with an optional sign; at least one digit. -/
def readInt?
    (cs : List Char) : Option Int :=
  let (negative, ds) :=
    match cs with
    | '-' :: ds => (true, ds)
    | '+' :: ds => (false, ds)
    | ds => (false, ds)
  if ds.isEmpty || !ds.all Char.isDigit then
    none
  else if negative then
    some (-(natOfDigits ds : Int))
  else
    some (natOfDigits ds)

/- The magnitude pattern of a numeral without sign. -/
def readMagnitude?
    (cs : List Char) : Option Nat :=
  let whole := cs.takeWhile Char.isDigit
  let rest := cs.dropWhile Char.isDigit
  let (fraction, rest) :=
    match rest with
    | '.' :: ds => (ds.takeWhile Char.isDigit, ds.dropWhile Char.isDigit)
    | ds => ([], ds)
  if whole.isEmpty && fraction.isEmpty then
    none
  else
    let exponent? : Option Int :=
      match rest with
      | [] => some 0
      | c :: ds => if c = 'e' || c = 'E' then readInt? ds else none
    exponent?.map fun e =>
      nearestBits (natOfDigits (whole ++ fraction)) (e - fraction.length)

/-
  A numeral with an optional sign, an optional fraction and an
  optional exponent, or one of the words for an infinite or
  undefined number in any case.
-/
def read?
    (s : String) : Option Float :=
  let (negative, cs) :=
    match s.toList with
    | '-' :: cs => (true, cs)
    | '+' :: cs => (false, cs)
    | cs => (false, cs)
  let word := String.ofList (cs.map Char.toLower)
  let bits? :=
    if word == "inf" || word == "infinity" then some infiniteBits
    else if word == "nan" then some 0x7ff8000000000000
    else readMagnitude? cs
  bits?.map (ofMagnitude negative)

end DynScript.Decimal
