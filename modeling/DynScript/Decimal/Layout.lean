import DynScript.Decimal.Shortest

/-
  This file writes floating point numbers as text. What the
  forms in use have in common is here; a form is a record of
  its decisions.

  Key definitions include:
    * `Decimal.Layout`
    * `Decimal.Layout.write`
    * `Decimal.Layout.plain`
-/

namespace DynScript.Decimal

------------------------------------------------------------
-- Decisions of a form
------------------------------------------------------------

/-
  How a finite number is written. The exponent meant by
  `positional` is that of the leading digit; numbers outside
  the range have an exponent mark.
-/
structure Layout where
  /- Leading exponents written without a mark; all where absent. -/
  positional : Option (Int × Int)
  /-- Whether a whole number keeps a zero after the point. -/
  wholePoint : Bool
  /-- Whether an exponent that is not negative has a sign. -/
  plusSign : Bool
  /-- Which of two equally near shortest decimals is written. -/
  tie : Tie

namespace Layout

------------------------------------------------------------
-- Writing
------------------------------------------------------------

/- The digits of a number with the point put in its place. -/
def positionalText
    (l : Layout)
    (s : Scientific) : String :=
  let ds := Nat.toDigits 10 s.digits
  if 0 ≤ s.exponent then
    let whole := String.ofList (ds ++ List.replicate s.exponent.toNat '0')
    if l.wholePoint then whole ++ ".0" else whole
  else
    let places := (-s.exponent).toNat
    let padded := List.replicate (places + 1 - ds.length) '0' ++ ds
    let cut := padded.length - places
    String.ofList (padded.take cut ++ '.' :: padded.drop cut)

/- One digit before the point, and the exponent after the mark. -/
def exponentText
    (l : Layout)
    (s : Scientific)
    (leading : Int) : String :=
  let significand :=
    match Nat.toDigits 10 s.digits with
    | [] => ""
    | [d] => String.singleton d
    | d :: ds => String.ofList (d :: '.' :: ds)
  let sign := if l.plusSign && 0 ≤ leading then "+" else ""
  significand ++ "e" ++ sign ++ toString leading

/- The text of the finite magnitude with the pattern `b`. -/
def magnitudeText
    (l : Layout)
    (b : Nat) : String :=
  let s := shortest l.tie b
  let leading :=
    s.exponent + ((Nat.toDigits 10 s.digits).length - 1 : Nat)
  match l.positional with
  | none => l.positionalText s
  | some (low, high) =>
    if b = 0 || (low ≤ leading && leading ≤ high) then
      l.positionalText s
    else
      l.exponentText s leading

/- The text of a number; the undefined one has no sign. -/
def write
    (l : Layout)
    (x : Float) : String :=
  let b := magnitude x
  let sign := if isNegative x then "-" else ""
  if infiniteBits < b then "NaN"
  else if b = infiniteBits then sign ++ "inf"
  else sign ++ l.magnitudeText b

/-
  Every digit written out, and no point in a whole number. Of
  two equally near decimals the one farther from zero is
  written.
-/
def plain : Layout where
  positional := none
  wholePoint := false
  plusSign := false
  tie := .away

end Layout

end DynScript.Decimal
