import DynScript.Text.Position
import DynScript.Text.Quoted

/-
  This file defines what can be wrong with the characters of a
  source text.

  Key definitions include:
    * `LexError`
    * `LexError.pos`
    * `LexError.message`
-/

namespace DynScript

/- A place where no token can be read, and why. -/
inductive LexError where
  | unexpectedChar (c : Char) (pos : Position)
  | unterminatedString (pos : Position)
  | invalidEscape (c : Char) (pos : Position)
  | integerOverflow (text : String) (pos : Position)
  | floatOverflow (text : String) (pos : Position)
deriving DecidableEq

namespace LexError

/- Where the lexeme at fault begins. -/
def pos : LexError → Position
  | unexpectedChar _ p => p
  | unterminatedString p => p
  | invalidEscape _ p => p
  | integerOverflow _ p => p
  | floatOverflow _ p => p

/- The fault without its place. -/
def reason : LexError → String
  | unexpectedChar c _ => "unexpected character " ++ Text.quoteChar c
  | unterminatedString _ => "unterminated string literal"
  | invalidEscape c _ =>
    "unknown escape sequence `\\" ++ String.singleton c ++ "`"
  | integerOverflow t _ =>
    "integer literal `" ++ t ++ "` does not fit in 64 bits"
  | floatOverflow t _ => "float literal `" ++ t ++ "` is out of range"

/- The text of the diagnostic. -/
def message
    (e : LexError) : String :=
  e.pos.render ++ ": " ++ e.reason

end LexError

end DynScript
