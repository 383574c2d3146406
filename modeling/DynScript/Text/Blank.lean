/-
  This file defines the characters that count as blank when
  a line typed at the prompt is trimmed: the code points with
  the Unicode property White_Space.

  Key definitions include:
    * `Text.isBlank`
    * `Text.trimChars`
    * `Text.trim`
-/

namespace DynScript.Text

/- The code points with the property White_Space. -/
def isBlank
    (c : Char) : Bool :=
  let n := c.toNat
  (9 ≤ n && n ≤ 13) || n == 0x20 || n == 0x85 || n == 0xA0
    || n == 0x1680 || (0x2000 ≤ n && n ≤ 0x200A) || n == 0x2028
    || n == 0x2029 || n == 0x202F || n == 0x205F || n == 0x3000

/- Drop the blanks on both ends of a list of characters. -/
def trimChars
    (cs : List Char) : List Char :=
  ((cs.dropWhile isBlank).reverse.dropWhile isBlank).reverse

/- Drop the blanks on both ends of a text. -/
def trim
    (s : String) : String :=
  String.ofList (trimChars s.toList)

end DynScript.Text
