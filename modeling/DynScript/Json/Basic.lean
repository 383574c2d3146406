import DynScript.Decimal.Layout

/-
  This file defines the data that JSON texts denote, and how
  they are written. Numbers keep their digits as written, so
  that a reader decides what it takes them for.

  Key definitions include:
    * `Json`
    * `Json.ofInt`
    * `Json.ofFloat`
    * `Json.compact`
    * `Json.pretty`
-/

namespace DynScript

------------------------------------------------------------
-- Data
------------------------------------------------------------

/-
  A JSON value. Members of an object keep their order and may
  repeat a name. The value `broken` stands for what is written
  correctly and denotes nothing, because a string has one half
  of a surrogate pair.
-/
inductive Json where
  | null
  | bool (b : Bool)
  | num (literal : String)
  | str (s : String)
  | arr (elements : List Json)
  | obj (members : List (String × Json))
  | broken

namespace Json

/- An integer. -/
def ofInt
    (n : Int) : Json :=
  .num (toString n)

/-
  Floating point numbers keep a zero after the point, and have
  an exponent with a sign when they are below 10^-5 or from
  10^16 on. Of two equally near decimals the even one is
  written.
-/
def floatLayout : Decimal.Layout where
  positional := some (-5, 15)
  wholePoint := true
  plusSign := true
  tie := .toEven

/- A floating point number; one that is not finite is null. -/
def ofFloat
    (x : Float) : Json :=
  if Decimal.isFinite x then .num (floatLayout.write x) else .null

------------------------------------------------------------
-- Strings
------------------------------------------------------------

/- A character inside a JSON string. -/
def escapeChar
    (c : Char) : List Char :=
  match c with
  | '"' => ['\\', '"']
  | '\\' => ['\\', '\\']
  | '\x08' => ['\\', 'b']
  | '\x0c' => ['\\', 'f']
  | '\n' => ['\\', 'n']
  | '\r' => ['\\', 'r']
  | '\t' => ['\\', 't']
  | c =>
    if c.toNat < 0x20 then
      ['\\', 'u', '0', '0', Nat.digitChar (c.toNat / 16),
        Nat.digitChar (c.toNat % 16)]
    else
      [c]

/- A JSON string. -/
def quoteString
    (s : String) : String :=
  String.ofList ('"' :: s.toList.flatMap escapeChar ++ ['"'])

------------------------------------------------------------
-- Writing
------------------------------------------------------------

mutual

/- A value on one line without blanks. -/
def compact : Json → String
  | null => "null"
  | bool b => if b then "true" else "false"
  | num literal => literal
  | str s => quoteString s
  | arr es => "[" ++ compactElements es ++ "]"
  | obj ms => "\x7b" ++ compactMembers ms ++ "\x7d"
  | broken => "null"

/- The elements of an array, separated by commas. -/
def compactElements : List Json → String
  | [] => ""
  | [e] => e.compact
  | e :: es => e.compact ++ "," ++ compactElements es

/- The members of an object, separated by commas. -/
def compactMembers : List (String × Json) → String
  | [] => ""
  | [(k, v)] => quoteString k ++ ":" ++ v.compact
  | (k, v) :: ms =>
    quoteString k ++ ":" ++ v.compact ++ "," ++ compactMembers ms

end

/- The beginning of a line at a depth, two blanks for each level. -/
def newLine
    (depth : Nat) : String :=
  String.ofList ('\n' :: List.replicate (2 * depth) ' ')

mutual

/- A value over several lines, an element or member a line. -/
def prettyAt
    (depth : Nat) : Json → String
  | arr [] => "[]"
  | arr es => "[" ++ prettyElements (depth + 1) es ++ newLine depth ++ "]"
  | obj [] => "\x7b\x7d"
  | obj ms =>
    "\x7b" ++ prettyMembers (depth + 1) ms ++ newLine depth ++ "\x7d"
  | null => "null"
  | bool b => if b then "true" else "false"
  | num literal => literal
  | str s => quoteString s
  | broken => "null"

/- The elements of an array, each on a line of its own. -/
def prettyElements
    (depth : Nat) : List Json → String
  | [] => ""
  | [e] => newLine depth ++ e.prettyAt depth
  | e :: es =>
    newLine depth ++ e.prettyAt depth ++ "," ++ prettyElements depth es

/- The members of an object, each on a line of its own. -/
def prettyMembers
    (depth : Nat) : List (String × Json) → String
  | [] => ""
  | [(k, v)] => newLine depth ++ quoteString k ++ ": " ++ v.prettyAt depth
  | (k, v) :: ms =>
    newLine depth ++ quoteString k ++ ": " ++ v.prettyAt depth ++ ","
      ++ prettyMembers depth ms

end

/- A value over several lines. -/
def pretty
    (j : Json) : String :=
  j.prettyAt 0

end Json

end DynScript
