import DynScript.Token.Basic

/-
  This file cuts a source text at its first lexeme. Nothing is
  lost: a text is its gap followed by the rest, and the rest is
  its first lexeme followed by what remains.

  Key definitions include:
    * `splitGap`
    * `closeQuote?`
    * `unescape`
    * `LexemeClass`
    * `Lexeme`
    * `firstLexeme`

  Main statements include:
    * `splitGap_append`
    * `firstLexeme_append`
    * `length_rest_firstLexeme`
-/

namespace DynScript

------------------------------------------------------------
-- Gaps
------------------------------------------------------------

/- The characters that may stand between tokens. -/
def isGapChar
    (c : Char) : Bool :=
  c == ' ' || c == '\t' || c == '\r' || c == '\n'

/-
  Cut a text after the gap that it begins with: white space
  and comments, which run up to the next line feed. With
  `inComment`, the text begins inside a comment.
-/
def splitGap : (inComment : Bool) → List Char → List Char × List Char
  | _, [] => ([], [])
  | true, c :: cs =>
    let (gap, rest) := splitGap (c != '\n') cs
    (c :: gap, rest)
  | false, '/' :: '/' :: cs =>
    let (gap, rest) := splitGap true cs
    ('/' :: '/' :: gap, rest)
  | false, c :: cs =>
    if isGapChar c then
      let (gap, rest) := splitGap false cs
      (c :: gap, rest)
    else
      ([], c :: cs)

/- The gap and the rest make up the text. -/
theorem splitGap_append
    (inComment : Bool)
    (cs : List Char) :
    (splitGap inComment cs).1 ++ (splitGap inComment cs).2 = cs := by
  fun_induction splitGap inComment cs with
  | case1 => rfl
  | case2 c cs gap rest h ih => simpa [h] using ih
  | case3 cs gap rest h ih => simpa [h] using ih
  | case4 c cs _ _ gap rest h ih => simpa [h] using ih
  | case5 => rfl

/- What follows a gap is no longer than the text. -/
theorem length_splitGap_snd
    (inComment : Bool)
    (cs : List Char) :
    (splitGap inComment cs).2.length ≤ cs.length := by
  have h := congrArg List.length (splitGap_append inComment cs)
  simp only [List.length_append] at h
  omega

------------------------------------------------------------
-- Words
------------------------------------------------------------

/- The characters a word begins with. -/
def isWordStart
    (c : Char) : Bool :=
  c.isAlpha || c == '_'

/- The characters a word goes on with. -/
def isWordChar
    (c : Char) : Bool :=
  c.isAlphanum || c == '_'

------------------------------------------------------------
-- Strings
------------------------------------------------------------

/-
  Cut a text at the first quote mark that no backslash
  escapes; the mark itself is dropped. A backslash escapes
  whatever character follows it.
-/
def closeQuote?
    (mark : Char) : List Char → Option (List Char × List Char)
  | [] => none
  | ['\\'] => none
  | '\\' :: c :: cs =>
    (closeQuote? mark cs).map fun (body, rest) =>
      ('\\' :: c :: body, rest)
  | c :: cs =>
    if c = mark then
      some ([], cs)
    else
      (closeQuote? mark cs).map fun (body, rest) => (c :: body, rest)

/- A character of a string that escapes nothing. -/
theorem closeQuote?_cons
    {mark c : Char}
    (cs : List Char)
    (h : c ≠ '\\') :
    closeQuote? mark (c :: cs) =
      if c = mark then some ([], cs)
      else (closeQuote? mark cs).map fun p => (c :: p.1, p.2) := by
  rw [closeQuote?]
  · exact fun hEscape => absurd hEscape h
  · exact fun _ _ hEscape => absurd hEscape h

/- Body, mark and rest make up the text. -/
theorem closeQuote?_append
    {mark : Char}
    {cs body rest : List Char}
    (h : closeQuote? mark cs = some (body, rest)) :
    body ++ mark :: rest = cs := by
  fun_induction closeQuote? mark cs generalizing body rest with
  | case1 => simp at h
  | case2 => simp at h
  | case3 c cs ih =>
    obtain ⟨⟨b, r⟩, hb, hp⟩ := Option.map_eq_some_iff.1 h
    obtain ⟨rfl, rfl⟩ := Prod.mk.inj hp
    simp [ih hb]
  | case4 cs _ _ => simp_all
  | case5 c cs _ _ hc ih =>
    obtain ⟨⟨b, r⟩, hb, hp⟩ := Option.map_eq_some_iff.1 h
    obtain ⟨rfl, rfl⟩ := Prod.mk.inj hp
    simp [ih hb]

/- Why the body of a string has no value. -/
inductive EscapeError where
  | unknown (c : Char)
  | unfinished
deriving DecidableEq

/- The character meant by an escape sequence. -/
def escaped? : Char → Option Char
  | 'n' => some '\n'
  | 't' => some '\t'
  | 'r' => some '\r'
  | '0' => some '\x00'
  | '\\' => some '\\'
  | '\'' => some '\''
  | '"' => some '"'
  | _ => none

/- The text written by the body of a string. -/
def unescape : List Char → Except EscapeError (List Char)
  | [] => .ok []
  | ['\\'] => .error .unfinished
  | '\\' :: c :: cs =>
    match escaped? c with
    | some d => (unescape cs).map (d :: ·)
    | none => .error (.unknown c)
  | c :: cs => (unescape cs).map (c :: ·)

/- A character that escapes nothing stands for itself. -/
theorem unescape_cons
    {c : Char}
    (cs : List Char)
    (h : c ≠ '\\') :
    unescape (c :: cs) = (unescape cs).map (c :: ·) := by
  rw [unescape]
  · exact fun hEscape => absurd hEscape h
  · exact fun _ _ hEscape => absurd hEscape h

------------------------------------------------------------
-- Operators and punctuation
------------------------------------------------------------

/- The operator of two characters, if they are one. -/
def twoCharSymbol? : Char → Char → Option Symbol
  | '=', '=' => some .eqEq
  | '!', '=' => some .notEq
  | '<', '=' => some .le
  | '>', '=' => some .ge
  | '&', '&' => some .andAnd
  | '|', '|' => some .orOr
  | _, _ => none

/- The operator or punctuation of one character, if it is one. -/
def oneCharSymbol? : Char → Option Symbol
  | '+' => some .plus
  | '-' => some .minus
  | '*' => some .star
  | '/' => some .slash
  | '%' => some .percent
  | '<' => some .lt
  | '>' => some .gt
  | '=' => some .assign
  | '!' => some .bang
  | '(' => some .parenL
  | ')' => some .parenR
  | '{' => some .braceL
  | '}' => some .braceR
  | ',' => some .comma
  | ';' => some .semicolon
  | _ => none

------------------------------------------------------------
-- The first lexeme
------------------------------------------------------------

/- The class of a lexeme, with the parts its value is made of. -/
inductive LexemeClass where
  | float (whole fraction : List Char)
  | int (digits : List Char)
  | str (body : List Char)
  | unclosed
  | word
  | symbol (s : Symbol)
  | unknown
deriving DecidableEq

/- A lexeme and the text behind it. -/
structure Lexeme where
  cls : LexemeClass
  text : List Char
  rest : List Char

/-
  A number: digits, and when a point and a digit follow, a
  fraction.
-/
def numberLexeme
    (cs : List Char) : Lexeme :=
  let whole := cs.takeWhile Char.isDigit
  match cs.dropWhile Char.isDigit with
  | '.' :: d :: ds =>
    if d.isDigit then
      let fraction := (d :: ds).takeWhile Char.isDigit
      ⟨.float whole fraction, whole ++ '.' :: fraction,
        (d :: ds).dropWhile Char.isDigit⟩
    else
      ⟨.int whole, whole, '.' :: d :: ds⟩
  | rest => ⟨.int whole, whole, rest⟩

/- A string, or a mark that is never closed and takes everything. -/
def stringLexeme
    (mark : Char)
    (cs : List Char) : Lexeme :=
  match closeQuote? mark cs with
  | some (body, rest) => ⟨.str body, mark :: body ++ [mark], rest⟩
  | none => ⟨.unclosed, mark :: cs, []⟩

/- An operator or punctuation of one character, or nothing known. -/
def oneCharLexeme
    (c : Char)
    (cs : List Char) : Lexeme :=
  match oneCharSymbol? c with
  | some s => ⟨.symbol s, [c], cs⟩
  | none => ⟨.unknown, [c], cs⟩

/- An operator or punctuation, the longer one first. -/
def symbolLexeme
    (c : Char) : List Char → Lexeme
  | [] => oneCharLexeme c []
  | d :: ds =>
    match twoCharSymbol? c d with
    | some s => ⟨.symbol s, [c, d], ds⟩
    | none => oneCharLexeme c (d :: ds)

/- The lexeme at the beginning of the text `c :: cs`. -/
def firstLexeme
    (c : Char)
    (cs : List Char) : Lexeme :=
  if c.isDigit then
    numberLexeme (c :: cs)
  else if c = '"' || c = '\'' then
    stringLexeme c cs
  else if isWordStart c then
    ⟨.word, c :: cs.takeWhile isWordChar, cs.dropWhile isWordChar⟩
  else
    symbolLexeme c cs

------------------------------------------------------------
-- Nothing is lost
------------------------------------------------------------

/- A number and what follows it make up the text. -/
theorem numberLexeme_append
    (cs : List Char) :
    (numberLexeme cs).text ++ (numberLexeme cs).rest = cs := by
  have h := List.takeWhile_append_dropWhile (p := Char.isDigit) (l := cs)
  unfold numberLexeme
  split
  · next d ds hd =>
    split
    · simp only [List.append_assoc, List.cons_append]
      rw [List.takeWhile_append_dropWhile, ← hd, h]
    · rw [← hd]
      exact h
  · exact h

/- A number has at least its first digit. -/
theorem numberLexeme_text_ne_nil
    {c : Char}
    (cs : List Char)
    (h : c.isDigit = true) :
    (numberLexeme (c :: cs)).text ≠ [] := by
  unfold numberLexeme
  split
  · split <;> simp [h]
  · simp [h]

/- A string and what follows it make up the text. -/
theorem stringLexeme_append
    (mark : Char)
    (cs : List Char) :
    (stringLexeme mark cs).text ++ (stringLexeme mark cs).rest =
      mark :: cs := by
  unfold stringLexeme
  split
  · next body rest h => simp [← closeQuote?_append h]
  · simp

/- A single character and what follows it make up the text. -/
theorem oneCharLexeme_text
    (c : Char)
    (cs : List Char) :
    (oneCharLexeme c cs).text = [c] ∧ (oneCharLexeme c cs).rest = cs := by
  unfold oneCharLexeme
  split <;> exact ⟨rfl, rfl⟩

/- A symbol and what follows it make up the text. -/
theorem symbolLexeme_append
    (c : Char)
    (cs : List Char) :
    (symbolLexeme c cs).text ++ (symbolLexeme c cs).rest = c :: cs := by
  unfold symbolLexeme
  split
  · simp [oneCharLexeme_text]
  · split
    · rfl
    · simp [oneCharLexeme_text]

/- A symbol has at least one character. -/
theorem symbolLexeme_text_ne_nil
    (c : Char)
    (cs : List Char) :
    (symbolLexeme c cs).text ≠ [] := by
  unfold symbolLexeme
  split
  · simp [oneCharLexeme_text]
  · split
    · simp
    · simp [oneCharLexeme_text]

/- The first lexeme and what follows it make up the text. -/
theorem firstLexeme_append
    (c : Char)
    (cs : List Char) :
    (firstLexeme c cs).text ++ (firstLexeme c cs).rest = c :: cs := by
  unfold firstLexeme
  split
  · exact numberLexeme_append _
  · split
    · exact stringLexeme_append c cs
    · split
      · simp
      · exact symbolLexeme_append c cs

/- A lexeme has at least one character. -/
theorem firstLexeme_text_ne_nil
    (c : Char)
    (cs : List Char) :
    (firstLexeme c cs).text ≠ [] := by
  unfold firstLexeme
  split
  · next h => exact numberLexeme_text_ne_nil cs h
  · split
    · unfold stringLexeme
      split <;> simp
    · split
      · simp
      · exact symbolLexeme_text_ne_nil c cs

/- Taking a lexeme makes the text shorter. -/
theorem length_rest_firstLexeme
    (c : Char)
    (cs : List Char) :
    (firstLexeme c cs).rest.length < (c :: cs).length := by
  have h := congrArg List.length (firstLexeme_append c cs)
  have hne := List.length_pos_iff.2 (firstLexeme_text_ne_nil c cs)
  simp only [List.length_append] at h
  omega

end DynScript
