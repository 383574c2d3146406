import DynScript.Token.Stream

/-
  This file defines the lexical grammar as rules for the front
  of a text. The rules for a token are tried in their order,
  and the first one that matches is taken for good. A text that
  no rule matches is malformed, and so is a text that has been
  taken by a rule and has no value. The scanner does not try
  rules; that it finds the same tokens is a theorem.

  Key definitions include:
    * `Grammar.Rule`
    * `Grammar.TokenRule`
    * `Grammar.TokenRule.front`
    * `Grammar.TokenRule.value`
    * `Grammar.token?`
-/

namespace DynScript

namespace Grammar

------------------------------------------------------------
-- Rules
------------------------------------------------------------

/- What a rule takes from a text and what it leaves, if it matches. -/
abbrev Rule :=
  List Char → Option (List Char × List Char)

/- One character of a sort. -/
def one
    (p : Char → Bool) : Rule
  | [] => none
  | c :: cs => if p c then some ([c], cs) else none

/- Characters of a sort, all that there are. -/
def many
    (p : Char → Bool) : Rule :=
  fun cs => some (cs.takeWhile p, cs.dropWhile p)

/- A rule and another one for what it leaves. -/
def andThen
    (first second : Rule) : Rule := fun cs => do
  let (taken, left) ← first cs
  let (more, rest) ← second left
  return (taken ++ more, rest)

/- The first rule that matches. -/
def firstOf
    (rules : List Rule) : Rule :=
  fun cs => rules.findSome? (· cs)

/- A fixed text. -/
def literal
    (text : List Char) : Rule :=
  fun cs =>
    if text.isPrefixOf cs then
      some (text, cs.drop text.length)
    else
      none

/- Nothing, where no character of a sort comes next. -/
def notBefore
    (p : Char → Bool) : Rule :=
  fun cs => if cs.head?.any p then none else some ([], cs)

------------------------------------------------------------
-- Tokens
------------------------------------------------------------

/- At least one digit. -/
def digits : Rule :=
  andThen (one Char.isDigit) (many Char.isDigit)

/-
  What stands between quote marks, escapes taken with what
  they escape.
-/
def stringBody
    (mark : Char) : List Char → List Char × List Char
  | [] => ([], [])
  | ['\\'] => ([], ['\\'])
  | '\\' :: c :: cs =>
    let (body, rest) := stringBody mark cs
    ('\\' :: c :: body, rest)
  | c :: cs =>
    if c = mark then
      ([], c :: cs)
    else
      let (body, rest) := stringBody mark cs
      (c :: body, rest)

/- A string in quote marks of one sort. -/
def quoted
    (mark : Char) : Rule :=
  andThen (one (· == mark))
    (andThen (fun cs => some (stringBody mark cs)) (one (· == mark)))

/- Keywords, operators and punctuation by their spelling. -/
def symbolIn
    (symbols : List Symbol) : Rule :=
  firstOf (symbols.map fun s => literal s.text.toList)

/- Operators of two characters. -/
def longOperators : List Symbol :=
  [.eqEq, .notEq, .le, .ge, .andAnd, .orOr]

/- Operators of one character. -/
def shortOperators : List Symbol :=
  [.plus, .minus, .star, .slash, .percent, .lt, .gt, .assign, .bang]

/- Operators, longer ones first. -/
def operators : List Symbol :=
  longOperators ++ shortOperators

/- Punctuation. -/
def punctuation : List Symbol :=
  [.parenL, .parenR, .braceL, .braceR, .comma, .semicolon]

/- The rules for a token. -/
inductive TokenRule where
  | float
  | int
  | string
  | unterminated
  | keyword
  | ident
  | operator
  | punct
  | unknown
deriving DecidableEq

namespace TokenRule

/- The order in which the rules are tried. -/
def all : List TokenRule :=
  [float, int, string, unterminated, keyword, ident, operator, punct,
    unknown]

/- What a rule for a token takes. -/
def front : TokenRule → Rule
  | float => andThen digits (andThen (one (· == '.')) digits)
  | int => digits
  | string => firstOf [quoted '"', quoted '\'']
  | unterminated =>
    andThen (one fun c => c == '"' || c == '\'') (many fun _ => true)
  | keyword => andThen (symbolIn Symbol.keywords) (notBefore isWordChar)
  | ident => andThen (one isWordStart) (many isWordChar)
  | operator => symbolIn operators
  | punct => symbolIn punctuation
  | unknown => one fun _ => true

end TokenRule

/- The rule that matches a text first, with what it takes and leaves. -/
def token?
    (cs : List Char) : Option (TokenRule × List Char × List Char) :=
  TokenRule.all.findSome? fun r => (r.front cs).map (r, ·)

------------------------------------------------------------
-- Values
------------------------------------------------------------

/-
  What can be wrong with a text: what the scanner knows of, or
  that the rules and the values do not fit together.
-/
inductive Fault where
  | lexical (e : LexError)
  | malformed (reason : String) (pos : Position)
deriving DecidableEq

/- The symbol of a spelling, if it is one. -/
def symbolOf?
    (text : List Char) : Option Symbol :=
  (Symbol.keywords ++ operators ++ punctuation).find?
    (·.text.toList == text)

/- The number written by digits, a point and digits. -/
def floatOf?
    (text : List Char) : Option Float :=
  let whole := text.takeWhile Char.isDigit
  match text.dropWhile Char.isDigit with
  | '.' :: fraction =>
    if whole.isEmpty || fraction.isEmpty ||
        !fraction.all Char.isDigit then
      none
    else
      some (Decimal.nearest whole fraction)
  | _ => none

/- The token denoted by what a rule has taken. -/
def TokenRule.value
    (r : TokenRule)
    (text : List Char)
    (pos : Position) : Except Fault TokenKind :=
  match r with
  | .float =>
    match floatOf? text with
    | none =>
      .error (.malformed
        ("bad float literal `" ++ String.ofList text ++ "`") pos)
    | some x =>
      if Decimal.isFinite x then
        .ok (.float x)
      else
        .error (.lexical (.floatOverflow (String.ofList text) pos))
  | .int =>
    let n := Decimal.natOfDigits text
    if n ≤ maxInt then
      .ok (.int (Int64.ofNat n))
    else
      .error (.lexical (.integerOverflow (String.ofList text) pos))
  | .string =>
    match unescape text.tail.dropLast with
    | .ok value => .ok (.str (String.ofList value))
    | .error (.unknown c) => .error (.lexical (.invalidEscape c pos))
    | .error .unfinished => .error (.lexical (.unterminatedString pos))
  | .unterminated => .error (.lexical (.unterminatedString pos))
  | .ident => .ok (.ident (String.ofList text))
  | .keyword | .operator | .punct =>
    match symbolOf? text with
    | some s => .ok (.symbol s)
    | none =>
      .error (.malformed
        ("unknown symbol `" ++ String.ofList text ++ "`") pos)
  | .unknown =>
    .error (.lexical (.unexpectedChar (text.headD '\x00') pos))

end Grammar

end DynScript
