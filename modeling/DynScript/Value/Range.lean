/-
  This file defines the range of the integers that programs
  compute with.

  Key definitions include:
    * `fits`
-/

namespace DynScript

/- Whether an integer can be held in 64 bits with a sign. -/
def fits
    (n : Int) : Bool :=
  Int64.minValue.toInt ≤ n && n ≤ Int64.maxValue.toInt

end DynScript
