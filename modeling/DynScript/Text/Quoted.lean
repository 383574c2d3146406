import DynScript.Text.Combining

/-
  This file defines how diagnostics quote a character or a
  text, so that what cannot be seen is spelled out.

  Key definitions include:
    * `Text.spellOut`
    * `Text.isVisible`
    * `Text.escapeFor`
    * `Text.quoteChar`
    * `Text.quote`
-/

namespace DynScript.Text

/- A code point by its number, in lower-case hexadecimal. -/
def spellOut
    (c : Char) : String :=
  "\\u\x7b" ++ String.ofList (Nat.toDigits 16 c.toNat) ++ "\x7d"

/-
  The half-width sound marks, which extend a character but
  take a place.
-/
def isSoundMark
    (c : Char) : Bool :=
  c.toNat = 0xFF9E || c.toNat = 0xFF9F

/- Whether a character can be seen by itself. -/
def isVisible
    (c : Char) : Bool :=
  isPrintable c && (!isCombining c || isSoundMark c)

/- One character between quotes of the kind `mark`. -/
def escapeFor
    (mark : Char)
    (c : Char) : String :=
  if c = '\x00' then "\\0"
  else if c = '\t' then "\\t"
  else if c = '\r' then "\\r"
  else if c = '\n' then "\\n"
  else if c = '\\' then "\\\\"
  else if c = mark then String.ofList ['\\', c]
  else if isVisible c then String.singleton c
  else spellOut c

/- A character between single quotes. -/
def quoteChar
    (c : Char) : String :=
  "'" ++ escapeFor '\'' c ++ "'"

/- A text between double quotes. -/
def quote
    (s : String) : String :=
  "\"" ++ String.join (s.toList.map (escapeFor '"')) ++ "\""

end DynScript.Text
