import DynScript.Decimal.Nearest

/-
  This file defines the numbers of JSON texts: how they are
  written, and which value is taken for one. A value with a
  fraction or an exponent is computed from at most 64 bits of
  digits and one power of ten, in floating point.

  Key definitions include:
    * `Json.Numeral`
    * `Json.Numeral.split?`
    * `Json.Number`
    * `Json.Numeral.value?`
-/

namespace DynScript.Json

------------------------------------------------------------
-- Numerals
------------------------------------------------------------

/- The parts of a number as written; an exponent has a sign and digits. -/
structure Numeral where
  negative : Bool
  whole : List Char
  fraction : List Char
  exponent : Option (Bool × List Char)

namespace Numeral

/- Cut digits off, at least one. -/
def digits?
    (cs : List Char) : Option (List Char × List Char) :=
  let ds := cs.takeWhile Char.isDigit
  if ds.isEmpty then none else some (ds, cs.dropWhile Char.isDigit)

/- Cut the digits before the point off; a leading zero stands alone. -/
def whole?
    (cs : List Char) : Option (List Char × List Char) :=
  match digits? cs with
  | some ('0' :: _ :: _, _) => none
  | parts => parts

/- Cut a fraction off, which may be missing. -/
def fraction?
    (cs : List Char) : Option (List Char × List Char) :=
  match cs with
  | '.' :: rest => digits? rest
  | rest => some ([], rest)

/- Cut an exponent off, which may be missing. -/
def exponent?
    (cs : List Char) : Option (Option (Bool × List Char) × List Char) :=
  match cs with
  | c :: rest =>
    if c = 'e' || c = 'E' then
      let (negative, ds) :=
        match rest with
        | '-' :: ds => (true, ds)
        | '+' :: ds => (false, ds)
        | ds => (false, ds)
      (digits? ds).map fun (e, rest) => (some (negative, e), rest)
    else
      some (none, c :: rest)
  | [] => some (none, [])

/- Cut a number off the beginning of a text. -/
def split?
    (cs : List Char) : Option (Numeral × List Char) := do
  let (negative, cs) :=
    match cs with
    | '-' :: cs => (true, cs)
    | cs => (false, cs)
  let (whole, cs) ← whole? cs
  let (fraction, cs) ← fraction? cs
  let (exponent, cs) ← exponent? cs
  return (⟨negative, whole, fraction, exponent⟩, cs)

end Numeral

------------------------------------------------------------
-- Values
------------------------------------------------------------

/- What a numeral is taken for. -/
inductive Number where
  | whole (n : Int)
  | real (x : Float)

namespace Numeral

/- The largest number of 64 bits without a sign. -/
def maxDigits : Nat :=
  18446744073709551615

/-
  Take digits over into a significand while it fits in 64 bits;
  what does not fit is left.
-/
def accumulate
    (significand : Nat) : List Char → Nat × List Char
  | [] => (significand, [])
  | d :: ds =>
    let next := 10 * significand + Decimal.digitValue d
    if next ≤ maxDigits then
      accumulate next ds
    else
      (significand, d :: ds)

/- A power of ten as the nearest floating point number. -/
def powerOfTen
    (n : Nat) : Float :=
  Decimal.ofMagnitude false (Decimal.nearestBits 1 n)

/-
  A significand times a power of ten that may be negative. Very
  small powers are reached by dividing again and again; a
  result that is too large is none.
-/
def scale? : (steps : Nat) → Float → Int → Option Float
  | 0, _, _ => some 0
  | steps + 1, x, exponent =>
    if exponent.natAbs ≤ 308 then
      if 0 ≤ exponent then
        let y := x * powerOfTen exponent.toNat
        if Decimal.isFinite y then some y else none
      else
        some (x / powerOfTen exponent.natAbs)
    else if x == 0 then
      some x
    else if 0 ≤ exponent then
      none
    else
      scale? steps (x / powerOfTen 308) (exponent + 308)

/- The largest exponent that is counted. -/
def maxExponent : Nat :=
  2147483647

/-
  The magnitude of a number that has a fraction or an exponent,
  or more digits than fit in 64 bits.
-/
def real?
    (n : Numeral) : Option Float :=
  let (significand, dropped) := accumulate 0 n.whole
  let (significand, unused) := accumulate significand n.fraction
  let start : Int :=
    dropped.length - (n.fraction.length - unused.length : Nat)
  let (negative, e) :=
    match n.exponent with
    | none => (false, 0)
    | some (negative, ds) => (negative, Decimal.natOfDigits ds)
  if maxExponent < e then
    if significand = 0 || negative then some 0 else none
  else
    let exponent := if negative then start - e else start + e
    scale? 10 (UInt64.ofNat significand).toFloat exponent

/- The value that a numeral is taken for, unless it is too large. -/
def value?
    (n : Numeral) : Option Number :=
  let (significand, dropped) := accumulate 0 n.whole
  if n.fraction.isEmpty && n.exponent.isNone && dropped.isEmpty then
    if !n.negative then
      some (.whole significand)
    else if 0 < significand && significand ≤ Decimal.signBit then
      some (.whole (-significand))
    else
      some (.real (-(UInt64.ofNat significand).toFloat))
  else
    (real? n).map fun x => .real (if n.negative then -x else x)

end Numeral

end DynScript.Json
