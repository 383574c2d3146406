/-
  This file defines how bytes become a source text. A text is
  accepted whole, or the number of bytes before the first
  ill-formed sequence is reported.

  Key definitions include:
    * `Text.validLengthFrom`
    * `Text.validLength`
    * `Text.decode`
-/

namespace DynScript.Text

/- The end of the run of well-formed characters that begins at `i`. -/
def validLengthFrom
    (bytes : ByteArray)
    (i : Nat) : Nat :=
  if i < bytes.size then
    match bytes.utf8DecodeChar? i with
    | some c => validLengthFrom bytes (i + c.utf8Size)
    | none => i
  else
    i
termination_by bytes.size - i
decreasing_by
  have := c.utf8Size_pos
  omega

/- The number of bytes in the longest well-formed beginning. -/
def validLength
    (bytes : ByteArray) : Nat :=
  validLengthFrom bytes 0

/-
  The text of well-formed bytes, or the length of their valid
  beginning.
-/
def decode
    (bytes : ByteArray) : Except Nat String :=
  match String.fromUTF8? bytes with
  | some s => .ok s
  | none => .error (validLength bytes)

end DynScript.Text
