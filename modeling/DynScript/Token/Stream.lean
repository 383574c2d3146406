import DynScript.Decimal.Nearest
import DynScript.Token.Error
import DynScript.Token.Lexeme

/-
  This file turns a source text into its tokens. Reading stops
  at the end of the text or at the first lexeme that is not a
  token, and the stream keeps which of the two it was.

  Key definitions include:
    * `Ending`
    * `TokenStream`
    * `Lexeme.kind`
    * `TokenStream.scan`
    * `TokenStream.ofSource`
    * `tokenize`
-/

namespace DynScript

------------------------------------------------------------
-- Streams
------------------------------------------------------------

/- How a stream of tokens ends. -/
inductive Ending where
  | endOfInput (pos : Position)
  | failed (e : LexError)
deriving DecidableEq

/- The tokens of a text, and what stands behind the last one. -/
structure TokenStream where
  tokens : List Token
  ending : Ending
deriving DecidableEq

------------------------------------------------------------
-- From lexemes to tokens
------------------------------------------------------------

/- The largest integer that a literal can denote. -/
def maxInt : Nat :=
  9223372036854775807

/- The token denoted by a lexeme that begins at `pos`. -/
def Lexeme.kind
    (l : Lexeme)
    (pos : Position) : Except LexError TokenKind :=
  match l.cls with
  | .float whole fraction =>
    let x := Decimal.nearest whole fraction
    if Decimal.isFinite x then
      .ok (.float x)
    else
      .error (.floatOverflow (String.ofList l.text) pos)
  | .int digits =>
    let n := Decimal.natOfDigits digits
    if n ≤ maxInt then
      .ok (.int (Int64.ofNat n))
    else
      .error (.integerOverflow (String.ofList l.text) pos)
  | .str body =>
    match unescape body with
    | .ok cs => .ok (.str (String.ofList cs))
    | .error (.unknown c) => .error (.invalidEscape c pos)
    | .error .unfinished => .error (.unterminatedString pos)
  | .unclosed => .error (.unterminatedString pos)
  | .word =>
    let word := String.ofList l.text
    match Symbol.keyword? word with
    | some s => .ok (.symbol s)
    | none => .ok (.ident word)
  | .symbol s => .ok (.symbol s)
  | .unknown => .error (.unexpectedChar (l.text.headD '\x00') pos)

------------------------------------------------------------
-- Scanning
------------------------------------------------------------

/- The tokens of the text `cs`, which begins at `pos`. -/
def TokenStream.scan
    (pos : Position)
    (cs : List Char) : TokenStream :=
  match _h : splitGap false cs with
  | (gap, []) => ⟨[], .endOfInput (pos.after gap)⟩
  | (gap, c :: rest) =>
    let start := pos.after gap
    let l := firstLexeme c rest
    match l.kind start with
    | .error e => ⟨[], .failed e⟩
    | .ok kind =>
      let s := scan (start.after l.text) l.rest
      ⟨⟨kind, String.ofList l.text, start⟩ :: s.tokens, s.ending⟩
termination_by cs.length
decreasing_by
  have h₁ := length_rest_firstLexeme c rest
  have h₂ := length_splitGap_snd false cs
  simp only [_h] at h₂
  exact Nat.lt_of_lt_of_le h₁ h₂

/- The tokens of a whole source text. -/
def TokenStream.ofSource
    (source : String) : TokenStream :=
  scan .start source.toList

/-
  All tokens of a source text and the place of its end, or the
  first fault.
-/
def tokenize
    (source : String) : Except LexError (List Token × Position) :=
  let s := TokenStream.ofSource source
  match s.ending with
  | .endOfInput pos => .ok (s.tokens, pos)
  | .failed e => .error e

end DynScript
