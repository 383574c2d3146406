import DynScript.Syntax.Printer
import DynScript.Token.Stream

/-
  This file defines the ways in which a source text is not a
  program.

  Key definitions include:
    * `Expected`
    * `Found`
    * `ParseError`
    * `ParseError.pos?`
    * `ParseError.message`
-/

namespace DynScript

------------------------------------------------------------
-- What was expected and what was found
------------------------------------------------------------

/- What the grammar asks for at a place. -/
inductive Expected where
  | symbol (s : Symbol)
  | spelling (text : String)
  | expression
  | parameterName

/- What is asked for, in words. -/
def Expected.describe : Expected → String
  | .symbol s => s.quoted
  | .spelling text => "`" ++ text ++ "`"
  | .expression => "expression"
  | .parameterName => "parameter name"

/- What stands at the place instead. -/
inductive Found where
  | token (kind : TokenKind)
  | endOfInput
  | argument (e : Expr)

/- What stands there, in words. -/
def Found.describe : Found → String
  | .token kind => kind.describe
  | .endOfInput => "end of input"
  | .argument e => e.render

------------------------------------------------------------
-- Errors
------------------------------------------------------------

/- Why a source text, or the rest of one, is not read. -/
inductive ParseError where
  | lex (e : LexError)
  | invalidUtf8 (offset : Nat)
  | unexpected (expected : Expected) (found : Found) (pos : Position)
  | tooDeep (limit : Nat) (pos : Position)
  | halted

namespace ParseError

/- The place of the fault, where it has one. -/
def pos? : ParseError → Option Position
  | lex e => some e.pos
  | invalidUtf8 _ => none
  | unexpected _ _ pos => some pos
  | tooDeep _ pos => some pos
  | halted => none

/- The text of the diagnostic. -/
def message : ParseError → String
  | lex e => e.message
  | invalidUtf8 offset =>
    "source is not valid UTF-8 (byte " ++ toString offset ++ ")"
  | unexpected expected found pos =>
    pos.render ++ ": expected " ++ expected.describe ++ ", found " ++
      found.describe
  | tooDeep limit pos =>
    pos.render ++ ": nesting deeper than " ++ toString limit ++ " levels"
  | halted => "parser stopped after an earlier error"

end ParseError

------------------------------------------------------------
-- Looking at tokens
------------------------------------------------------------

/-
  The fault of a stream whose tokens are used up where
  something is still expected. A lexical fault behind the last
  token comes first.
-/
def Ending.fault
    (ending : Ending)
    (expected : Expected) : ParseError :=
  match ending with
  | .endOfInput pos => .unexpected expected .endOfInput pos
  | .failed e => .lex e

/- Looking behind the last token, where nothing has to follow. -/
def Ending.look : Ending → Except ParseError Unit
  | .endOfInput _ => .ok ()
  | .failed e => .error (.lex e)

/- The fault of a token that does not fit. -/
def Token.fault
    (t : Token)
    (expected : Expected) : ParseError :=
  .unexpected expected (.token t.kind) t.pos

end DynScript
