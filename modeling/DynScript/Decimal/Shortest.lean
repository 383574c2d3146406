import DynScript.Decimal.Binary

/-
  This file finds the shortest decimal that reads back as a
  given floating point number. All quantities are counted in
  units of 10^-1074, in which both the number and every grid
  of decimals from there on are whole.

  Key definitions include:
    * `Decimal.Tie`
    * `Decimal.Scientific`
    * `Decimal.scaled`
    * `Decimal.readsBack`
    * `Decimal.onGrid?`
    * `Decimal.shortest`
-/

namespace DynScript.Decimal

/- Which of two equally near neighbours on a grid is taken. -/
inductive Tie where
  | toEven
  | away
deriving DecidableEq

/- The decimal `digits * 10 ^ exponent`. -/
structure Scientific where
  digits : Nat
  exponent : Int
deriving DecidableEq

/- The scale between units of 2^-1074 and units of 10^-1074. -/
def scale : Nat :=
  Nat.pow 5 1074

/- The magnitude with the pattern `b`, in units of 10^-1074. -/
def scaled
    (b : Nat) : Nat :=
  unitsOfBits b * scale

/-
  Whether `d * 10 ^ g` rounds to the pattern `b`: it lies
  between the midpoints to the neighbouring patterns, and on
  a midpoint only if `b` is the even one.
-/
def readsBack
    (b g d : Nat) : Bool :=
  let low := scaled (b - 1) + scaled b
  let high := scaled b + scaled (b + 1)
  let x := 2 * d * tenTo g
  if b % 2 = 0 then
    low ≤ x && x ≤ high
  else
    low < x && x < high

/-
  The multiple of `10 ^ g` that reads back as `b` and is
  nearest to it, if there is one. Only the two neighbours of
  `b` on the grid can be.
-/
def onGrid?
    (tie : Tie)
    (b g : Nat) : Option Nat :=
  let d := scaled b / tenTo g
  let r := scaled b % tenTo g
  match readsBack b g d, readsBack b g (d + 1) with
  | false, false => none
  | true, false => some d
  | false, true => some (d + 1)
  | true, true =>
    if 2 * r < tenTo g then some d
    else if tenTo g < 2 * r then some (d + 1)
    else
      match tie with
      | .toEven => some (d + d % 2)
      | .away => some (d + 1)

/-
  The first hit on the grids `g`, `g - 1`, ... down to the
  exact value.
-/
def searchFrom
    (tie : Tie)
    (b : Nat) : Nat → Scientific
  | 0 => ⟨scaled b, -1074⟩
  | g + 1 =>
    match onGrid? tie b (g + 1) with
    | some d => ⟨d, (g + 1 : Int) - 1074⟩
    | none => searchFrom tie b g

/- A grid coarser than any on which a decimal reads back as `b`. -/
def coarsest
    (b : Nat) : Nat :=
  ((scaled b).log2 + 2) * 30103 / 100000 + 1

/- The shortest decimal that reads back as the pattern `b`. -/
def shortest
    (tie : Tie)
    (b : Nat) : Scientific :=
  if b = 0 then ⟨0, 0⟩ else searchFrom tie b (coarsest b)

end DynScript.Decimal
