import DynScript.Json.Basic
import DynScript.Json.Numeral

/-
  This file reads JSON texts. As everywhere, that less of the
  text is left is part of a result, which is why reading ends.

  Key definitions include:
    * `Json.Rest`
    * `Json.string?`
    * `Json.value?`
    * `Json.read?`
-/

namespace DynScript.Json

------------------------------------------------------------
-- Blanks and strings
------------------------------------------------------------

/- What is left of a text, fewer than `bound` characters. -/
abbrev Rest
    (bound : Nat) :=
  { cs : List Char // cs.length < bound }

/- The characters that may stand between the parts of a text. -/
def isSpace
    (c : Char) : Bool :=
  c == ' ' || c == '\n' || c == '\t' || c == '\r'

/- Skip blanks. -/
def skipSpace
    (cs : List Char) : List Char :=
  cs.dropWhile isSpace

/- Skipping blanks makes no text longer. -/
theorem length_skipSpace
    (cs : List Char) :
    (skipSpace cs).length ≤ cs.length :=
  (List.dropWhile_sublist _).length_le

/- The value of a hexadecimal digit. -/
def hexDigit?
    (c : Char) : Option Nat :=
  if c.isDigit then some (c.toNat - '0'.toNat)
  else if 'a' ≤ c && c ≤ 'f' then some (c.toNat - 'a'.toNat + 10)
  else if 'A' ≤ c && c ≤ 'F' then some (c.toNat - 'A'.toNat + 10)
  else none

/- The value of four hexadecimal digits. -/
def hex4?
    (a b c d : Char) : Option Nat := do
  let a ← hexDigit? a
  let b ← hexDigit? b
  let c ← hexDigit? c
  let d ← hexDigit? d
  return ((a * 16 + b) * 16 + c) * 16 + d

/-
  A unit of a string: a code unit of 16 bits, or a character
  written as it is.
-/
inductive StringUnit where
  | unit (n : Nat)
  | char (c : Char)

/- The character meant by an escape sequence of one letter. -/
def shortEscape? : Char → Option Char
  | '"' => some '"'
  | '\\' => some '\\'
  | '/' => some '/'
  | 'b' => some '\x08'
  | 'f' => some '\x0c'
  | 'n' => some '\n'
  | 'r' => some '\r'
  | 't' => some '\t'
  | _ => none

/- The units of a string up to behind its closing quote, in reverse. -/
def units?
    (seen : List StringUnit) :
    (cs : List Char) → Option (List StringUnit × Rest (cs.length + 1))
  | [] => none
  | '"' :: rest =>
    some (seen, ⟨rest, by simp only [List.length_cons]; omega⟩)
  | '\\' :: 'u' :: a :: b :: c :: d :: rest =>
    match hex4? a b c d with
    | none => none
    | some n =>
      (units? (.unit n :: seen) rest).map fun (us, r) =>
        (us, ⟨r.1, by have := r.2; simp only [List.length_cons]; omega⟩)
  | '\\' :: e :: rest =>
    match shortEscape? e with
    | none => none
    | some c =>
      (units? (.char c :: seen) rest).map fun (us, r) =>
        (us, ⟨r.1, by have := r.2; simp only [List.length_cons]; omega⟩)
  | c :: rest =>
    if c = '\\' || c.toNat < 0x20 then
      none
    else
      (units? (.char c :: seen) rest).map fun (us, r) =>
        (us, ⟨r.1, by have := r.2; simp only [List.length_cons]; omega⟩)

/- The characters of units, where surrogates come in pairs. -/
def join? : List StringUnit → Option (List Char)
  | [] => some []
  | .char c :: us => (join? us).map (c :: ·)
  | .unit n :: us =>
    if 0xD800 ≤ n && n ≤ 0xDBFF then
      match us with
      | .unit m :: us =>
        if 0xDC00 ≤ m && m ≤ 0xDFFF then
          let c :=
            Char.ofNat (0x10000 + (n - 0xD800) * 0x400 + (m - 0xDC00))
          (join? us).map (c :: ·)
        else
          none
      | _ => none
    else if 0xDC00 ≤ n && n ≤ 0xDFFF then
      none
    else
      (join? us).map (Char.ofNat n :: ·)

/-
  A string from behind its opening quote: its text, if it
  denotes one, and what follows.
-/
def string?
    (cs : List Char) : Option (Option String × Rest (cs.length + 1)) :=
  (units? [] cs).map fun (us, r) =>
    ((join? us.reverse).map String.ofList, r)

------------------------------------------------------------
-- Values
------------------------------------------------------------

/- What is left behind a word that must come next. -/
def keyword? : (word : List Char) → List Char → Option (List Char)
  | [], cs => some cs
  | w :: ws, c :: cs => if w = c then keyword? ws cs else none
  | _ :: _, [] => none

/- A value without parts, and what is left behind it. -/
def scalar?
    (cs : List Char) : Option (Json × List Char) :=
  match cs with
  | 'n' :: rest => (keyword? "ull".toList rest).map (null, ·)
  | 't' :: rest => (keyword? "rue".toList rest).map (bool true, ·)
  | 'f' :: rest => (keyword? "alse".toList rest).map (bool false, ·)
  | cs =>
    (Numeral.split? cs).map fun (_, rest) =>
      (num (String.ofList (cs.take (cs.length - rest.length))), rest)

/- An object, unless one of its names denotes no text. -/
def objectOf
    (members : List (Option String × Json)) : Json :=
  match members.mapM fun (k, v) => k.map (·, v) with
  | some ms => obj ms
  | none => broken

mutual

/- A value, from its first character on. -/
def value?
    (cs : List Char) : Option (Json × Rest cs.length) :=
  match cs with
  | [] => none
  | '"' :: inner => do
    let (s, ⟨rest, h⟩) ← string? inner
    return ((s.map str).getD broken, ⟨rest, h⟩)
  | '[' :: inner =>
    have := length_skipSpace inner
    match hs : skipSpace inner with
    | ']' :: rest => some (arr [], ⟨rest, by
        simp only [hs, List.length_cons] at *; omega⟩)
    | _ => do
      let (es, ⟨rest, h⟩) ← elements? inner
      return (arr es, ⟨rest, by simp only [List.length_cons]; omega⟩)
  | '{' :: inner =>
    have := length_skipSpace inner
    match hs : skipSpace inner with
    | '}' :: rest => some (obj [], ⟨rest, by
        simp only [hs, List.length_cons] at *; omega⟩)
    | _ => do
      let (ms, ⟨rest, h⟩) ← members? inner
      return (objectOf ms, ⟨rest, by simp only [List.length_cons]; omega⟩)
  | c :: inner => do
    let (j, rest) ← scalar? (c :: inner)
    if h : rest.length < (c :: inner).length then
      return (j, ⟨rest, h⟩)
    else
      none
termination_by 2 * cs.length

/- At least one element, up to behind the closing bracket. -/
def elements?
    (cs : List Char) : Option (List Json × Rest cs.length) := do
  have := length_skipSpace cs
  let (e, ⟨rest, _⟩) ← value? (skipSpace cs)
  have := length_skipSpace rest
  match hs : skipSpace rest with
  | ',' :: more =>
    have : more.length < rest.length := by
      simp only [hs, List.length_cons] at *; omega
    let (es, ⟨behind, _⟩) ← elements? more
    return (e :: es, ⟨behind, by omega⟩)
  | ']' :: behind =>
    return ([e],
      ⟨behind, by simp only [hs, List.length_cons] at *; omega⟩)
  | _ => none
termination_by 2 * cs.length + 1

/- At least one member, up to behind the closing brace. -/
def members?
    (cs : List Char) :
    Option (List (Option String × Json) × Rest cs.length) := do
  have := length_skipSpace cs
  match hq : skipSpace cs with
  | '"' :: inner =>
    have : inner.length < cs.length := by
      simp only [hq, List.length_cons] at *; omega
    let (k, ⟨rest, _⟩) ← string? inner
    have := length_skipSpace rest
    match hc : skipSpace rest with
    | ':' :: after =>
      have : after.length < rest.length := by
        simp only [hc, List.length_cons] at *; omega
      have := length_skipSpace after
      let (v, ⟨next, _⟩) ← value? (skipSpace after)
      have := length_skipSpace next
      match hs : skipSpace next with
      | ',' :: more =>
        have : more.length < next.length := by
          simp only [hs, List.length_cons] at *; omega
        let (ms, ⟨behind, _⟩) ← members? more
        return ((k, v) :: ms, ⟨behind, by omega⟩)
      | '}' :: behind =>
        return ([(k, v)],
          ⟨behind, by simp only [hs, List.length_cons] at *; omega⟩)
      | _ => none
    | _ => none
  | _ => none
termination_by 2 * cs.length + 1

end

/- The value of a text that holds nothing else. -/
def read?
    (text : String) : Option Json := do
  let (j, ⟨rest, _⟩) ← value? (skipSpace text.toList)
  if (skipSpace rest).isEmpty then
    return j
  else
    none

end DynScript.Json
