import DynScript.Decimal.Layout
import DynScript.Text.Position
import DynScript.Text.Quoted

/-
  This file defines the tokens of the language: keywords,
  operators and punctuation have a fixed spelling, the other
  tokens carry a value.

  Key definitions include:
    * `Symbol`
    * `Symbol.text`
    * `Symbol.keyword?`
    * `TokenKind`
    * `TokenKind.describe`
    * `Token`
-/

namespace DynScript

------------------------------------------------------------
-- Fixed spellings
------------------------------------------------------------

/- Keywords, operators and punctuation. -/
inductive Symbol where
  | kwIf | kwElse | kwReturn | kwTrue | kwFalse | kwNil
  | plus | minus | star | slash | percent
  | eqEq | notEq | lt | le | gt | ge | andAnd | orOr | bang | assign
  | parenL | parenR | braceL | braceR | comma | semicolon
deriving DecidableEq

namespace Symbol

/- How a symbol is spelled in a source text. -/
def text : Symbol → String
  | kwIf => "if"
  | kwElse => "else"
  | kwReturn => "return"
  | kwTrue => "true"
  | kwFalse => "false"
  | kwNil => "nil"
  | plus => "+"
  | minus => "-"
  | star => "*"
  | slash => "/"
  | percent => "%"
  | eqEq => "=="
  | notEq => "!="
  | lt => "<"
  | le => "<="
  | gt => ">"
  | ge => ">="
  | andAnd => "&&"
  | orOr => "||"
  | bang => "!"
  | assign => "="
  | parenL => "("
  | parenR => ")"
  | braceL => "\x7b"
  | braceR => "\x7d"
  | comma => ","
  | semicolon => ";"

/- The words that cannot be names. -/
def keywords : List Symbol :=
  [kwIf, kwElse, kwReturn, kwTrue, kwFalse, kwNil]

/- The keyword spelled by a word, if it is one. -/
def keyword?
    (word : String) : Option Symbol :=
  keywords.find? (·.text == word)

/- A symbol as diagnostics show it. -/
def quoted
    (s : Symbol) : String :=
  "`" ++ s.text ++ "`"

end Symbol

------------------------------------------------------------
-- Tokens
------------------------------------------------------------

/- What a token is. The end of the input is not a token. -/
inductive TokenKind where
  | ident (name : String)
  | int (value : Int64)
  | float (value : Float)
  | str (value : String)
  | symbol (s : Symbol)
deriving DecidableEq

/-
  Floating point numbers in a diagnostic keep a zero after the
  point, and have an exponent when they are below 10^-4 or
  from 10^16 on.
-/
def TokenKind.floatLayout : Decimal.Layout where
  positional := some (-4, 15)
  wholePoint := true
  plusSign := false
  tie := .away

/- A token as diagnostics name it. -/
def TokenKind.describe : TokenKind → String
  | .ident name => "identifier `" ++ name ++ "`"
  | .int i => "integer `" ++ toString i.toInt ++ "`"
  | .float x => "float `" ++ TokenKind.floatLayout.write x ++ "`"
  | .str s => "string " ++ Text.quote s
  | .symbol s => s.quoted

/-
  A token with its lexeme exactly as written and the place
  where the lexeme begins.
-/
structure Token where
  kind : TokenKind
  text : String
  pos : Position
deriving DecidableEq

end DynScript
