import DynScript.Proofs.Json.Numeral

/-
  Writing a JSON value and reading it again. A value in which
  all numbers are numerals and all strings denote texts is
  written as a text that denotes it, whatever stands behind it,
  as long as this does not go on with a number. Where a writer
  puts its blanks makes no difference.

  Key definitions include:
    * `Json.found`
    * `Json.Legible`
    * `Json.Spacing`

  Main statements include:
    * `Json.found_string?_quoted`
    * `Json.found_value?_value`
    * `Json.read?_compact`
    * `Json.read?_pretty`
-/

namespace DynScript.Json

------------------------------------------------------------
-- What is found
------------------------------------------------------------

/- What is found in a text and what is left of it, without its bound. -/
def found
    {α : Type}
    {bound : Nat}
    (r : Option (α × Rest bound)) : Option (α × List Char) :=
  r.map fun p => (p.1, p.2.1)

------------------------------------------------------------
-- Strings
------------------------------------------------------------

/-
  The unit that a character of a string is read as: control
  characters without an escape sequence of their own are
  written by their number.
-/
def unitOf
    (c : Char) : StringUnit :=
  if c.toNat < 0x20 ∧ c ∉ ['\x08', '\x0c', '\n', '\r', '\t'] then
    .unit c.toNat
  else .char c

/- The number of a control character in four hexadecimal digits. -/
theorem hex4?_control
    {n : Nat}
    (h : n < 0x20) :
    hex4? '0' '0' (Nat.digitChar (n / 16)) (Nat.digitChar (n % 16)) =
      some n := by
  have hDigit : ∀ d < 16, hexDigit? (Nat.digitChar d) = some d := by
    decide
  have hZero : hexDigit? '0' = some 0 := rfl
  rw [hex4?, hZero, hDigit _ (by omega), hDigit _ (by omega)]
  change some (((0 * 16 + 0) * 16 + n / 16) * 16 + n % 16) = some n
  congr 1
  omega

/-
  A character is written with an escape sequence of its own, by
  its number, or as it is.
-/
theorem escapeChar_cases
    (c : Char) :
    (∃ e, shortEscape? e = some c ∧ escapeChar c = ['\\', e] ∧
        unitOf c = .char c) ∨
      (c.toNat < 0x20 ∧
        escapeChar c = ['\\', 'u', '0', '0', Nat.digitChar (c.toNat / 16),
          Nat.digitChar (c.toNat % 16)] ∧
        unitOf c = .unit c.toNat) ∨
      (c ≠ '"' ∧ c ≠ '\\' ∧ ¬ c.toNat < 0x20 ∧ escapeChar c = [c] ∧
        unitOf c = .char c) := by
  by_cases hOwn : c ∈ ['"', '\\', '\x08', '\x0c', '\n', '\r', '\t']
  · simp only [List.mem_cons, List.not_mem_nil, or_false] at hOwn
    rcases hOwn with rfl | rfl | rfl | rfl | rfl | rfl | rfl
    all_goals exact .inl ⟨_, rfl, rfl, rfl⟩
  · simp only [List.mem_cons, List.not_mem_nil, or_false, not_or] at hOwn
    rcases hOwn with
      ⟨hQuote, hBackslash, hBack, hForm, hFeed, hReturn, hTab⟩
    have hText : escapeChar c =
        if c.toNat < 0x20 then
          ['\\', 'u', '0', '0', Nat.digitChar (c.toNat / 16),
            Nat.digitChar (c.toNat % 16)]
        else [c] := by
      unfold escapeChar
      split
      all_goals first
        | contradiction
        | rfl
    by_cases hControl : c.toNat < 0x20
    · refine .inr (.inl ⟨hControl, ?_, ?_⟩)
      · rw [hText, if_pos hControl]
      · simp [unitOf, hControl, hBack, hForm, hFeed, hReturn, hTab]
    · refine .inr (.inr ⟨hQuote, hBackslash, hControl, ?_, ?_⟩)
      · rw [hText, if_neg hControl]
      · simp [unitOf, hControl]

section Units

variable {seen : List StringUnit}
variable {rest : List Char}

theorem found_units?_end :
    found (units? seen ('"' :: rest)) = some (seen, rest) := by
  rw [units?]
  rfl

theorem found_units?_unit
    {a b c d : Char}
    {n : Nat}
    (h : hex4? a b c d = some n) :
    found (units? seen ('\\' :: 'u' :: a :: b :: c :: d :: rest)) =
      found (units? (.unit n :: seen) rest) := by
  rw [units?]
  simp only [h]
  cases units? (.unit n :: seen) rest <;> rfl

theorem found_units?_short
    {e c : Char}
    (h : shortEscape? e = some c) :
    found (units? seen ('\\' :: e :: rest)) =
      found (units? (.char c :: seen) rest) := by
  rw [units?]
  · simp only [h]
    cases units? (.char c :: seen) rest <;> rfl
  · rintro _ _ _ _ _ rfl
    cases h

theorem found_units?_plain
    {c : Char}
    (hQuote : c ≠ '"')
    (hBackslash : c ≠ '\\')
    (hControl : ¬ c.toNat < 0x20) :
    found (units? seen (c :: rest)) =
      found (units? (.char c :: seen) rest) := by
  rw [units?]
  · simp only [hBackslash, hControl, decide_false, Bool.or_self]
    cases units? (.char c :: seen) rest <;> rfl
  · exact hQuote
  · exact fun _ _ _ _ _ hEq => absurd hEq hBackslash
  · exact fun _ _ hEq => absurd hEq hBackslash

/- A written character is read as its unit. -/
theorem found_units?_escapeChar
    (c : Char) :
    found (units? seen (escapeChar c ++ rest)) =
      found (units? (unitOf c :: seen) rest) := by
  rcases escapeChar_cases c with
    ⟨e, hShort, hText, hUnit⟩ | ⟨hControl, hText, hUnit⟩ |
      ⟨hQuote, hBackslash, hControl, hText, hUnit⟩
  · rw [hText, hUnit]
    exact found_units?_short hShort
  · rw [hText, hUnit]
    exact found_units?_unit (hex4?_control hControl)
  · rw [hText, hUnit]
    exact found_units?_plain hQuote hBackslash hControl

/- All written characters are read as their units. -/
theorem found_units?_escaped
    (cs : List Char) :
    found (units? seen (cs.flatMap escapeChar ++ '"' :: rest)) =
      some ((cs.map unitOf).reverse ++ seen, rest) := by
  induction cs generalizing seen with
  | nil => exact found_units?_end
  | cons c cs ih =>
      rw [List.flatMap_cons, List.append_assoc, found_units?_escapeChar,
        ih]
      simp

end Units

/- A unit that is no surrogate is a character. -/
theorem join?_unit
    {n : Nat}
    (h : n < 0xD800)
    (us : List StringUnit) :
    join? (.unit n :: us) = (join? us).map (Char.ofNat n :: ·) := by
  have hHigh : ¬ (0xD800 ≤ n ∧ n ≤ 0xDBFF) := by omega
  have hLow : ¬ (0xDC00 ≤ n ∧ n ≤ 0xDFFF) := by omega
  rw [join?.eq_def]
  simp [hHigh, hLow]

/- The units of characters denote the characters. -/
theorem join?_map_unitOf
    (cs : List Char) :
    join? (cs.map unitOf) = some cs := by
  induction cs with
  | nil => rfl
  | cons c cs ih =>
      rw [List.map_cons, unitOf]
      split
      · next hControl =>
        rw [join?_unit (by omega), ih, Char.ofNat_toNat]
        rfl
      · rw [join?, ih]
        rfl

/- A string is the text of its units. -/
theorem found_string?
    (cs : List Char) :
    found (string? cs) =
      (found (units? [] cs)).map fun p =>
        ((join? p.1.reverse).map String.ofList, p.2) := by
  unfold string?
  cases units? [] cs <;> rfl

/- A written string denotes its text. -/
theorem found_string?_quoted
    (s : String)
    (rest : List Char) :
    found (string? (s.toList.flatMap escapeChar ++ '"' :: rest)) =
      some (some s, rest) := by
  rw [found_string?, found_units?_escaped]
  simp [join?_map_unitOf]

------------------------------------------------------------
-- Equations of the readers
------------------------------------------------------------

section Readers

variable {inner rest cs : List Char}

theorem found_value?_string :
    found (value? ('"' :: inner)) =
      (found (string? inner)).map fun p =>
        ((p.1.map str).getD broken, p.2) := by
  rw [value?]
  cases string? inner <;> rfl

theorem found_value?_noElements
    (h : skipSpace inner = ']' :: rest) :
    found (value? ('[' :: inner)) = some (arr [], rest) := by
  rw [value?]
  split
  · next hEmpty =>
    rw [h] at hEmpty
    cases hEmpty
    rfl
  · next hNot => exact absurd h (hNot rest)

theorem found_value?_elements
    (h : ∀ rest, skipSpace inner ≠ ']' :: rest) :
    found (value? ('[' :: inner)) =
      (found (elements? inner)).map fun p => (arr p.1, p.2) := by
  rw [value?]
  split
  · next hEmpty => exact absurd hEmpty (h _)
  · cases elements? inner <;> rfl

theorem found_value?_noMembers
    (h : skipSpace inner = '\x7d' :: rest) :
    found (value? ('\x7b' :: inner)) = some (obj [], rest) := by
  rw [value?]
  split
  · next hEmpty =>
    rw [h] at hEmpty
    cases hEmpty
    rfl
  · next hNot => exact absurd h (hNot rest)

theorem found_value?_members
    (h : ∀ rest, skipSpace inner ≠ '\x7d' :: rest) :
    found (value? ('\x7b' :: inner)) =
      (found (members? inner)).map fun p => (objectOf p.1, p.2) := by
  rw [value?]
  split
  · next hEmpty => exact absurd hEmpty (h _)
  · cases members? inner <;> rfl

/- A value without parts. -/
theorem found_value?_scalar
    {c : Char}
    {j : Json}
    (hOther : c ∉ ['"', '[', '\x7b'])
    (hScalar : scalar? (c :: inner) = some (j, rest))
    (hShorter : rest.length < (c :: inner).length) :
    found (value? (c :: inner)) = some (j, rest) := by
  simp only [List.mem_cons, List.not_mem_nil, or_false, not_or] at hOther
  rw [value?]
  · rw [hScalar]
    simp only [Option.bind_eq_bind, Option.bind_some, dif_pos hShorter]
    rfl
  · exact hOther.1
  · exact hOther.2.1
  · exact hOther.2.2

/- The elements from one of them on, by what stands behind it. -/
theorem found_elements?
    {e : Json}
    (hFirst : found (value? (skipSpace cs)) = some (e, rest)) :
    found (elements? cs) =
      match skipSpace rest with
      | ',' :: more =>
        (found (elements? more)).map fun p => (e :: p.1, p.2)
      | ']' :: behind => some ([e], behind)
      | _ => none := by
  rcases hValue : value? (skipSpace cs) with _ | ⟨e', rest', hRest⟩
  · rw [hValue] at hFirst
    cases hFirst
  rw [hValue] at hFirst
  cases hFirst
  rw [elements?, hValue]
  simp only [Option.bind_eq_bind, Option.bind_some]
  split
  · next more hMore =>
    simp only [hMore]
    cases elements? more <;> rfl
  · next behind hBehind => simp [hBehind, found]
  · next hNoComma hNoClose =>
    split
    · next hMore => exact absurd hMore (hNoComma _)
    · next hBehind => exact absurd hBehind (hNoClose _)
    · rfl

/- The text begins with a member: a name, a colon and a value. -/
def MemberAt
    (cs : List Char)
    (k : Option String)
    (v : Json)
    (rest : List Char) : Prop :=
  ∃ inner behind after,
    skipSpace cs = '"' :: inner ∧
    found (string? inner) = some (k, behind) ∧
    skipSpace behind = ':' :: after ∧
    found (value? (skipSpace after)) = some (v, rest)

/- The members from one of them on, by what stands behind it. -/
theorem found_members?
    {k : Option String}
    {v : Json}
    (hFirst : MemberAt cs k v rest) :
    found (members? cs) =
      match skipSpace rest with
      | ',' :: more =>
        (found (members? more)).map fun p => ((k, v) :: p.1, p.2)
      | '\x7d' :: behind => some ([(k, v)], behind)
      | _ => none := by
  rcases hFirst with ⟨inner, behind, after, hQuote, hName, hColon, hValue⟩
  rcases hString : string? inner with _ | ⟨k', behind', hBehind⟩
  · rw [hString] at hName
    cases hName
  rw [hString] at hName
  cases hName
  rcases hRead : value? (skipSpace after) with _ | ⟨v', rest', hRest⟩
  · rw [hRead] at hValue
    cases hValue
  rw [hRead] at hValue
  cases hValue
  rw [members?]
  split
  · next hName =>
    rw [hQuote] at hName
    cases hName
    rw [hString]
    simp only [Option.bind_eq_bind, Option.bind_some]
    split
    · next hAfter =>
      rw [hColon] at hAfter
      cases hAfter
      rw [hRead]
      simp only [Option.bind_some]
      split
      · next more hMore =>
        simp only [hMore]
        cases members? more <;> rfl
      · next hClose => simp [hClose, found]
      · next hNoComma hNoClose =>
        split
        · next hMore => exact absurd hMore (hNoComma _)
        · next hClose => exact absurd hClose (hNoClose _)
        · rfl
    · next hNot => exact absurd hColon (hNot _)
  · next hNot => exact absurd hQuote (hNot _)

end Readers

------------------------------------------------------------
-- Legible values
------------------------------------------------------------

mutual

/- All numbers are numerals, and everything denotes something. -/
def Legible : Json → Prop
  | .null => True
  | .bool _ => True
  | .num literal => IsNumeral literal
  | .str _ => True
  | .arr es => LegibleAll es
  | .obj ms => LegibleMembers ms
  | .broken => False

/- The same of all elements. -/
def LegibleAll : List Json → Prop
  | [] => True
  | e :: es => e.Legible ∧ LegibleAll es

/- The same of the values of all members. -/
def LegibleMembers : List (String × Json) → Prop
  | [] => True
  | (_, v) :: ms => v.Legible ∧ LegibleMembers ms

end

/- A text that begins a value; it is no blank and closes nothing. -/
def Begins
    (cs : List Char) : Prop :=
  ∃ c rest, cs = c :: rest ∧ isSpace c = false ∧ c ≠ ']' ∧ c ≠ '\x7d'

theorem Begins.append
    {cs : List Char}
    (h : Begins cs)
    (more : List Char) :
    Begins (cs ++ more) := by
  rcases h with ⟨c, rest, rfl, hSpace, hArray, hObject⟩
  exact ⟨c, rest ++ more, rfl, hSpace, hArray, hObject⟩

/- Nothing is skipped before a value. -/
theorem Begins.skipSpace_eq
    {cs : List Char}
    (h : Begins cs) :
    skipSpace cs = cs := by
  rcases h with ⟨c, rest, rfl, hSpace, _⟩
  exact List.dropWhile_cons_of_neg (by simp [hSpace])

/- What begins a value closes no array and no object. -/
theorem Begins.skipSpace_ne_close
    {cs : List Char}
    (h : Begins cs) :
    (∀ rest, skipSpace cs ≠ ']' :: rest) ∧
      ∀ rest, skipSpace cs ≠ '\x7d' :: rest := by
  rw [h.skipSpace_eq]
  rcases h with ⟨c, rest, rfl, _, hArray, hObject⟩
  exact ⟨fun _ hEq => hArray (List.cons.inj hEq).1,
    fun _ hEq => hObject (List.cons.inj hEq).1⟩

/- Nothing is skipped before a character that is no blank. -/
theorem skipSpace_cons
    {c : Char}
    (hSpace : isSpace c = false)
    (rest : List Char) :
    skipSpace (c :: rest) = c :: rest :=
  List.dropWhile_cons_of_neg (by simp [hSpace])

/- A numeral begins with no other character. -/
theorem numeral_head_ne
    {c d : Char}
    (h : c = '-' ∨ c.isDigit = true)
    (hMinus : d ≠ '-')
    (hDigit : d.isDigit = false) :
    c ≠ d := by
  rintro rfl
  rcases h with rfl | hHead
  · exact hMinus rfl
  · rw [hHead] at hDigit
    cases hDigit

/- A numeral begins with no blank. -/
theorem isSpace_numeral_head
    {c : Char}
    (h : c = '-' ∨ c.isDigit = true) :
    isSpace c = false := by
  simp [isSpace, numeral_head_ne h (d := ' ') (by decide) rfl,
    numeral_head_ne h (d := '\n') (by decide) rfl,
    numeral_head_ne h (d := '\t') (by decide) rfl,
    numeral_head_ne h (d := '\r') (by decide) rfl]

theorem begins_quoteString
    (s : String) :
    Begins (quoteString s).toList := by
  rw [quoteString, String.toList_ofList]
  exact ⟨_, _, rfl, rfl, by decide, by decide⟩

/- Nothing is skipped but the blanks before a text. -/
theorem skipSpace_append
    {blanks : List Char}
    (h : ∀ c ∈ blanks, isSpace c = true)
    (rest : List Char) :
    skipSpace (blanks ++ rest) = skipSpace rest :=
  List.dropWhile_append_of_pos h

------------------------------------------------------------
-- Texts with blanks
------------------------------------------------------------

/-
  Where a writer puts blanks: before the elements and members
  at a depth and before what closes them, and behind a colon.
-/
structure Spacing where
  before : Nat → List Char
  colon : List Char
  blank_before : ∀ depth, ∀ c ∈ before depth, isSpace c = true
  blank_colon : ∀ c ∈ colon, isSpace c = true

namespace Spacing

/- No blanks. -/
def tight : Spacing where
  before _ := []
  colon := []
  blank_before := by simp
  blank_colon := by simp

/- A line for each element and member. -/
def lines : Spacing where
  before depth := '\n' :: List.replicate (2 * depth) ' '
  colon := [' ']
  blank_before := by simp [isSpace]
  blank_colon := by simp [isSpace]

mutual

/- The text of a value with blanks. -/
def value
    (s : Spacing)
    (depth : Nat) : Json → List Char
  | arr [] => ['[', ']']
  | arr es =>
    '[' :: (s.elements (depth + 1) es ++ s.before depth ++ [']'])
  | obj [] => ['\x7b', '\x7d']
  | obj ms =>
    '\x7b' :: (s.members (depth + 1) ms ++ s.before depth ++ ['\x7d'])
  | j => j.compact.toList

/- The texts of the elements of an array. -/
def elements
    (s : Spacing)
    (depth : Nat) : List Json → List Char
  | [] => []
  | [e] => s.before depth ++ s.value depth e
  | e :: es =>
    s.before depth ++ s.value depth e ++ ',' :: s.elements depth es

/- The texts of the members of an object. -/
def members
    (s : Spacing)
    (depth : Nat) : List (String × Json) → List Char
  | [] => []
  | [(k, v)] =>
    s.before depth ++ (quoteString k).toList ++ ':' ::
      (s.colon ++ s.value depth v)
  | (k, v) :: ms =>
    s.before depth ++ (quoteString k).toList ++ ':' ::
      (s.colon ++ s.value depth v) ++
      ',' :: s.members depth ms

end

end Spacing

mutual

/- The text on one line has no blanks. -/
theorem toList_compact
    (depth : Nat) :
    (j : Json) → j.compact.toList = Spacing.tight.value depth j
  | .null => rfl
  | .bool _ => rfl
  | .num _ => rfl
  | .str _ => rfl
  | .arr [] => rfl
  | .arr (e :: es) => by
      have hElements := toList_compactElements (depth + 1) (e :: es)
      rw [compact, String.toList_append, String.toList_append, hElements,
        Spacing.value]
      · simp [Spacing.tight]
      · simp
  | .obj [] => rfl
  | .obj (m :: ms) => by
      have hMembers := toList_compactMembers (depth + 1) (m :: ms)
      rw [compact, String.toList_append, String.toList_append, hMembers,
        Spacing.value]
      · simp [Spacing.tight]
      · simp
  | .broken => rfl

theorem toList_compactElements
    (depth : Nat) :
    (es : List Json) →
      (compactElements es).toList = Spacing.tight.elements depth es
  | [] => rfl
  | [e] => toList_compact depth e
  | e :: e' :: es => by
      have hElement := toList_compact depth e
      have hElements := toList_compactElements depth (e' :: es)
      rw [compactElements, Spacing.elements, String.toList_append,
        String.toList_append, hElement, hElements]
      all_goals simp [Spacing.tight]

theorem toList_compactMembers
    (depth : Nat) :
    (ms : List (String × Json)) →
      (compactMembers ms).toList = Spacing.tight.members depth ms
  | [] => rfl
  | [(k, v)] => by
      have hValue := toList_compact depth v
      rw [compactMembers, Spacing.members, String.toList_append,
        String.toList_append, hValue]
      simp [Spacing.tight]
  | (k, v) :: m :: ms => by
      have hValue := toList_compact depth v
      have hMembers := toList_compactMembers depth (m :: ms)
      rw [compactMembers, Spacing.members, String.toList_append,
        String.toList_append, String.toList_append, String.toList_append,
        hValue, hMembers]
      all_goals simp [Spacing.tight]

end

mutual

/- The text over several lines has its blanks at their beginnings. -/
theorem toList_prettyAt
    (depth : Nat) :
    (j : Json) → (j.prettyAt depth).toList = Spacing.lines.value depth j
  | .null => rfl
  | .bool _ => rfl
  | .num _ => rfl
  | .str _ => rfl
  | .arr [] => by
      rw [prettyAt, Spacing.value]
      rfl
  | .arr (e :: es) => by
      have hElements := toList_prettyElements (depth + 1) (e :: es)
      rw [prettyAt, Spacing.value, String.toList_append,
        String.toList_append, String.toList_append, hElements]
      all_goals simp [Spacing.lines, newLine]
  | .obj [] => by
      rw [prettyAt, Spacing.value]
      rfl
  | .obj (m :: ms) => by
      have hMembers := toList_prettyMembers (depth + 1) (m :: ms)
      rw [prettyAt, Spacing.value, String.toList_append,
        String.toList_append, String.toList_append, hMembers]
      all_goals simp [Spacing.lines, newLine]
  | .broken => rfl

theorem toList_prettyElements
    (depth : Nat) :
    (es : List Json) →
      (prettyElements depth es).toList = Spacing.lines.elements depth es
  | [] => rfl
  | [e] => by
      have hElement := toList_prettyAt depth e
      rw [prettyElements, Spacing.elements, String.toList_append,
        hElement]
      simp [Spacing.lines, newLine]
  | e :: e' :: es => by
      have hElement := toList_prettyAt depth e
      have hElements := toList_prettyElements depth (e' :: es)
      rw [prettyElements, Spacing.elements, String.toList_append,
        String.toList_append, String.toList_append, hElement, hElements]
      all_goals simp [Spacing.lines, newLine]

theorem toList_prettyMembers
    (depth : Nat) :
    (ms : List (String × Json)) →
      (prettyMembers depth ms).toList = Spacing.lines.members depth ms
  | [] => rfl
  | [(k, v)] => by
      have hValue := toList_prettyAt depth v
      rw [prettyMembers, Spacing.members, String.toList_append,
        String.toList_append, String.toList_append, hValue]
      simp [Spacing.lines, newLine]
  | (k, v) :: m :: ms => by
      have hValue := toList_prettyAt depth v
      have hMembers := toList_prettyMembers depth (m :: ms)
      rw [prettyMembers, Spacing.members, String.toList_append,
        String.toList_append, String.toList_append, String.toList_append,
        String.toList_append, hValue, hMembers]
      all_goals simp [Spacing.lines, newLine]

end

------------------------------------------------------------
-- Writing and reading
------------------------------------------------------------

/- A written string is read where a value begins. -/
theorem found_value?_quoteString
    (s : String)
    (rest : List Char) :
    found (value? ((quoteString s).toList ++ rest)) =
      some (str s, rest) := by
  have hText : (quoteString s).toList ++ rest =
      '"' :: (s.toList.flatMap escapeChar ++ '"' :: rest) := by
    rw [quoteString, String.toList_ofList]
    simp
  rw [hText, found_value?_string, found_string?_quoted]
  rfl

/- A numeral is read as a number with its literal. -/
theorem found_value?_numeral
    {literal : String}
    {rest : List Char}
    (h : IsNumeral literal)
    (hRest : Numeral.StopsAt rest) :
    found (value? (literal.toList ++ rest)) =
      some (num literal, rest) := by
  rcases h with ⟨n, hValid, hText⟩
  have hSplit := Numeral.split?_spelling hValid hRest
  rcases Numeral.head_spelling hValid with ⟨c, cs, hSpelling, hHead⟩
  have hLiteral : String.ofList (c :: cs) = literal := by
    rw [← hSpelling, ← hText, String.ofList_toList]
  rw [hText, hSpelling, List.cons_append]
  rw [hSpelling, List.cons_append] at hSplit
  apply found_value?_scalar
  · simp only [List.mem_cons, List.not_mem_nil, or_false, not_or]
    exact ⟨numeral_head_ne hHead (by decide) rfl,
      numeral_head_ne hHead (by decide) rfl,
      numeral_head_ne hHead (by decide) rfl⟩
  · have hTake : (c :: (cs ++ rest)).take
        ((c :: (cs ++ rest)).length - rest.length) = c :: cs := by
      rw [← List.cons_append, List.length_append, Nat.add_sub_cancel,
        List.take_left]
    unfold scalar?
    split
    · next hEq =>
      exact absurd (List.cons.inj hEq).1
        (numeral_head_ne hHead (by decide) rfl)
    · next hEq =>
      exact absurd (List.cons.inj hEq).1
        (numeral_head_ne hHead (by decide) rfl)
    · next hEq =>
      exact absurd (List.cons.inj hEq).1
        (numeral_head_ne hHead (by decide) rfl)
    · rw [hSplit]
      simp only [Option.map_some, hTake, hLiteral]
  · simp only [List.length_cons, List.length_append]
    omega

/- Members whose names denote texts are the members of an object. -/
theorem objectOf_some
    (ms : List (String × Json)) :
    objectOf (ms.map fun p => (some p.1, p.2)) = obj ms := by
  have hNames : (ms.map fun p => (some p.1, p.2)).mapM
      (fun p : Option String × Json => p.1.map (·, p.2)) = some ms := by
    induction ms with
    | nil => rfl
    | cons m ms ih => simp [ih]
  unfold objectOf
  rw [hNames]

/- What stands behind blanks does not go on with a numeral. -/
theorem stopsAt_append
    {blanks rest : List Char}
    (hBlank : ∀ c ∈ blanks, isSpace c = true)
    (hRest : Numeral.StopsAt rest) :
    Numeral.StopsAt (blanks ++ rest) := by
  cases blanks with
  | nil => exact hRest
  | cons c blanks =>
      have hSpace : isSpace c = true := hBlank c List.mem_cons_self
      have hCases : c = ' ' ∨ c = '\n' ∨ c = '\t' ∨ c = '\r' := by
        simpa [isSpace, or_assoc] using hSpace
      intro c' hHead
      cases hHead
      rcases hCases with rfl | rfl | rfl | rfl
      all_goals decide

section Spacing

variable {s : Spacing}
variable {depth : Nat}
variable {rest : List Char}

theorem stopsAt_cons
    {c : Char}
    (h : c.isDigit = false ∧ c ≠ '.' ∧ c ≠ 'e' ∧ c ≠ 'E') :
    Numeral.StopsAt (c :: rest) := by
  intro c' hHead
  cases hHead
  exact h

theorem Spacing.value_arr
    (e : Json)
    (es : List Json) :
    s.value depth (arr (e :: es)) ++ rest =
      '[' :: (s.elements (depth + 1) (e :: es) ++
        (s.before depth ++ ']' :: rest)) := by
  rw [Spacing.value]
  · simp
  · simp

theorem Spacing.value_obj
    (m : String × Json)
    (ms : List (String × Json)) :
    s.value depth (obj (m :: ms)) ++ rest =
      '\x7b' :: (s.members (depth + 1) (m :: ms) ++
        (s.before depth ++ '\x7d' :: rest)) := by
  rw [Spacing.value]
  · simp
  · simp

/- The text of a legible value begins one. -/
theorem begins_value
    {j : Json}
    (h : j.Legible) :
    Begins (s.value depth j) := by
  cases j with
  | null => exact ⟨_, _, rfl, rfl, by decide, by decide⟩
  | bool b => cases b <;> exact ⟨_, _, rfl, rfl, by decide, by decide⟩
  | num literal =>
      rcases h with ⟨n, hValid, hText⟩
      rcases Numeral.head_spelling hValid with ⟨c, cs, hSpelling, hHead⟩
      refine ⟨c, cs, ?_, isSpace_numeral_head hHead,
        numeral_head_ne hHead (by decide) rfl,
        numeral_head_ne hHead (by decide) rfl⟩
      exact hText.trans hSpelling
  | str t => exact begins_quoteString t
  | arr es =>
      cases es with
      | nil => exact ⟨_, _, rfl, rfl, by decide, by decide⟩
      | cons e es =>
          rw [← List.append_nil (s.value _ _), Spacing.value_arr]
          exact ⟨'[', _, rfl, rfl, by decide, by decide⟩
  | obj ms =>
      cases ms with
      | nil =>
          exact ⟨_, _, by rw [Spacing.value], rfl, by decide, by decide⟩
      | cons m ms =>
          rw [← List.append_nil (s.value _ _), Spacing.value_obj]
          exact ⟨'\x7b', _, rfl, rfl, by decide, by decide⟩
  | broken => exact h.elim

/- One element. -/
theorem Spacing.elements_one
    (e : Json) :
    s.elements depth [e] ++ rest =
      s.before depth ++ (s.value depth e ++ rest) :=
  List.append_assoc ..

/- An element and others, behind a comma. -/
theorem Spacing.elements_more
    (e e' : Json)
    (es : List Json) :
    s.elements depth (e :: e' :: es) ++ rest =
      s.before depth ++ (s.value depth e ++
        ',' :: (s.elements depth (e' :: es) ++ rest)) := by
  rw [Spacing.elements]
  · simp
  · simp

/- The text of a member. -/
def Spacing.member
    (s : Spacing)
    (depth : Nat)
    (k : String)
    (v : Json)
    (rest : List Char) : List Char :=
  s.before depth ++ ((quoteString k).toList ++
    ':' :: (s.colon ++ (s.value depth v ++ rest)))

/- One member. -/
theorem Spacing.members_one
    (k : String)
    (v : Json) :
    s.members depth [(k, v)] ++ rest = s.member depth k v rest := by
  rw [Spacing.members, Spacing.member]
  simp

/- A member and others, behind a comma. -/
theorem Spacing.members_more
    (k : String)
    (v : Json)
    (m : String × Json)
    (ms : List (String × Json)) :
    s.members depth ((k, v) :: m :: ms) ++ rest =
      s.member depth k v
        (',' :: (s.members depth (m :: ms) ++ rest)) := by
  rw [Spacing.members, Spacing.member]
  · simp
  · simp

/- Behind blanks, elements begin with a value. -/
theorem begins_elements
    {e : Json}
    (es : List Json)
    (h : e.Legible) :
    ∃ cs, Begins cs ∧
      s.elements depth (e :: es) ++ rest = s.before depth ++ cs := by
  cases es with
  | nil => exact ⟨_, (begins_value h).append _, Spacing.elements_one e⟩
  | cons e' es =>
      exact ⟨_, (begins_value h).append _, Spacing.elements_more e e' es⟩

/- Behind blanks, members begin with a name. -/
theorem begins_members
    (m : String × Json)
    (ms : List (String × Json)) :
    ∃ cs, Begins cs ∧
      s.members depth (m :: ms) ++ rest = s.before depth ++ cs := by
  rcases m with ⟨k, v⟩
  cases ms with
  | nil =>
      exact ⟨_, (begins_quoteString k).append _, Spacing.members_one k v⟩
  | cons m ms =>
      exact ⟨_, (begins_quoteString k).append _,
        Spacing.members_more k v m ms⟩

/- A name and a value, whatever stands behind the value. -/
theorem memberAt_member
    {v : Json}
    (k : String)
    (hLegible : v.Legible)
    (hValue : found (value? (s.value depth v ++ rest)) = some (v, rest)) :
    MemberAt (s.member depth k v rest) (some k) v rest := by
  refine ⟨k.toList.flatMap escapeChar ++
      '"' :: (':' :: (s.colon ++ (s.value depth v ++ rest))),
    _, _, ?_, found_string?_quoted k _, skipSpace_cons rfl _, ?_⟩
  · rw [Spacing.member, skipSpace_append (s.blank_before depth),
      ((begins_quoteString k).append _).skipSpace_eq, quoteString,
      String.toList_ofList]
    simp
  · rw [skipSpace_append s.blank_colon,
      ((begins_value hLegible).append rest).skipSpace_eq]
    exact hValue

mutual

/- A legible value is read where it was written. -/
theorem found_value?_value
    (depth : Nat)
    (rest : List Char) :
    (j : Json) → j.Legible → Numeral.StopsAt rest →
      found (value? (s.value depth j ++ rest)) = some (j, rest)
  | .null, _, _ =>
      found_value?_scalar (by decide) rfl (by simp +arith)
  | .bool true, _, _ =>
      found_value?_scalar (by decide) rfl (by simp +arith)
  | .bool false, _, _ =>
      found_value?_scalar (by decide) rfl (by simp +arith)
  | .num _, h, hRest => found_value?_numeral h hRest
  | .str t, _, _ => found_value?_quoteString t rest
  | .arr [], _, _ => found_value?_noElements (skipSpace_cons rfl rest)
  | .arr (e :: es), h, _ => by
      have hElements :=
        found_elements?_elements depth rest (e :: es) (by simp) h
      rw [Spacing.value_arr, found_value?_elements, hElements]
      · rfl
      · rcases begins_elements es h.1 with ⟨cs, hBegins, hText⟩
        rw [hText, skipSpace_append (s.blank_before _)]
        exact hBegins.skipSpace_ne_close.1
  | .obj [], _, _ => by
      rw [Spacing.value]
      exact found_value?_noMembers (skipSpace_cons rfl rest)
  | .obj (m :: ms), h, _ => by
      have hMembers :=
        found_members?_members depth rest (m :: ms) (by simp) h
      rw [Spacing.value_obj, found_value?_members, hMembers]
      · simp only [Option.map_some, objectOf_some]
      · rcases begins_members m ms with ⟨cs, hBegins, hText⟩
        rw [hText, skipSpace_append (s.blank_before _)]
        exact hBegins.skipSpace_ne_close.2
  | .broken, h, _ => h.elim

/- Elements are read up to behind the closing bracket. -/
theorem found_elements?_elements
    (depth : Nat)
    (rest : List Char) :
    (es : List Json) → es ≠ [] → LegibleAll es →
      found (elements?
          (s.elements (depth + 1) es ++
            (s.before depth ++ ']' :: rest))) =
        some (es, rest)
  | [], hSome, _ => absurd rfl hSome
  | [e], _, h => by
      have hFirst := found_value?_value (depth + 1)
        (s.before depth ++ ']' :: rest) e h.1
        (stopsAt_append (s.blank_before depth) (stopsAt_cons (by decide)))
      rw [← ((begins_value h.1).append _).skipSpace_eq,
        ← skipSpace_append (s.blank_before (depth + 1))] at hFirst
      rw [Spacing.elements_one, found_elements? hFirst,
        skipSpace_append (s.blank_before depth), skipSpace_cons rfl]
      rfl
  | e :: e' :: es, _, h => by
      have hFirst := found_value?_value (depth + 1)
        (',' :: (s.elements (depth + 1) (e' :: es) ++
          (s.before depth ++ ']' :: rest)))
        e h.1 (stopsAt_cons (by decide))
      have hOthers :=
        found_elements?_elements depth rest (e' :: es) (by simp) h.2
      rw [← ((begins_value h.1).append _).skipSpace_eq,
        ← skipSpace_append (s.blank_before (depth + 1))] at hFirst
      rw [Spacing.elements_more, found_elements? hFirst,
        skipSpace_cons rfl]
      simp only [hOthers, Option.map_some]

/- Members are read up to behind the closing brace. -/
theorem found_members?_members
    (depth : Nat)
    (rest : List Char) :
    (ms : List (String × Json)) → ms ≠ [] → LegibleMembers ms →
      found (members?
          (s.members (depth + 1) ms ++
            (s.before depth ++ '\x7d' :: rest))) =
        some (ms.map fun p => (some p.1, p.2), rest)
  | [], hSome, _ => absurd rfl hSome
  | [(k, v)], _, h => by
      have hValue := found_value?_value (depth + 1)
        (s.before depth ++ '\x7d' :: rest) v h.1
        (stopsAt_append (s.blank_before depth) (stopsAt_cons (by decide)))
      rw [Spacing.members_one,
        found_members? (memberAt_member k h.1 hValue),
        skipSpace_append (s.blank_before depth), skipSpace_cons rfl]
      rfl
  | (k, v) :: m :: ms, _, h => by
      have hValue := found_value?_value (depth + 1)
        (',' :: (s.members (depth + 1) (m :: ms) ++
          (s.before depth ++ '\x7d' :: rest)))
        v h.1 (stopsAt_cons (by decide))
      have hOthers :=
        found_members?_members depth rest (m :: ms) (by simp) h.2
      rw [Spacing.members_more,
        found_members? (memberAt_member k h.1 hValue), skipSpace_cons rfl]
      simp only [hOthers, Option.map_some, List.map_cons]

end

/- A legible value is what its text is read as. -/
theorem read?_value
    {j : Json}
    {text : String}
    (h : j.Legible)
    (hText : text.toList = s.value depth j) :
    read? text = some j := by
  have hFound := found_value?_value (s := s) depth [] j h
    (by simp [Numeral.StopsAt])
  rw [List.append_nil, ← hText] at hFound
  have hBegins : Begins text.toList := hText ▸ begins_value h
  rw [← hBegins.skipSpace_eq] at hFound
  unfold read?
  rcases hValue : value? (skipSpace text.toList) with
    _ | ⟨j', rest, hRest⟩
  · rw [hValue] at hFound
    cases hFound
  · rw [hValue] at hFound
    have hSame : j' = j ∧ rest = [] := by
      simpa [found] using hFound
    rcases hSame with ⟨rfl, rfl⟩
    rfl

end Spacing

/- A legible value is what its text on one line is read as. -/
theorem read?_compact
    {j : Json}
    (h : j.Legible) :
    read? j.compact = some j :=
  read?_value h (toList_compact 0 j)

/- A legible value is what its text over several lines is read as. -/
theorem read?_pretty
    {j : Json}
    (h : j.Legible) :
    read? j.pretty = some j :=
  read?_value h (toList_prettyAt 0 j)

end DynScript.Json
