import DynScript.Proofs.Token.Concatenation
import DynScript.Proofs.Token.Literal

/-
  The first lexeme of a text is the longest one. The texts of
  each class of lexemes are described apart from the scanner;
  what the scanner takes is one of them, and no longer
  beginning of the text is one.

  Key definitions include:
    * `EscapesPaired`
    * `StringBody`
    * `OfClass`
    * `IsLexeme`

  Main statements include:
    * `closeQuote?_eq_some_iff`
    * `closeQuote?_eq_none_iff`
    * `ofClass_firstLexeme`
    * `firstLexeme_longest`
    * `firstLexeme_of_ofClass`
-/

namespace DynScript

------------------------------------------------------------
-- Text between quote marks
------------------------------------------------------------

/-
  A text in which each backslash escapes the character behind
  it, and the characters that are not part of such a pair are
  `plain` ones.
-/
inductive Escaping
    (plain : Char → Prop) : List Char → Prop where
  | nil :
      Escaping plain []
  | plain {c : Char} {cs : List Char}
      (hPlain : plain c)
      (hBackslash : c ≠ '\\')
      (hRest : Escaping plain cs) :
      Escaping plain (c :: cs)
  | pair {cs : List Char} (c : Char)
      (hRest : Escaping plain cs) :
      Escaping plain ('\\' :: c :: cs)

/- A text behind which nothing is escaped: its escapes are paired off. -/
def EscapesPaired : List Char → Prop :=
  Escaping fun _ => True

/- What may stand between two quote marks: no mark that is not escaped. -/
def StringBody
    (mark : Char) : List Char → Prop :=
  Escaping (· ≠ mark)

/- A string ends at the first mark that is not escaped. -/
theorem closeQuote?_of_stringBody
    {mark : Char}
    {body : List Char}
    (rest : List Char)
    (hMark : mark ≠ '\\')
    (hBody : StringBody mark body) :
    closeQuote? mark (body ++ mark :: rest) = some (body, rest) := by
  induction hBody with
  | nil =>
      rw [List.nil_append, closeQuote?_cons rest hMark, if_pos rfl]
  | plain hPlain hBackslash hRest ih =>
      rw [List.cons_append, closeQuote?_cons _ hBackslash, if_neg hPlain,
        ih]
      rfl
  | pair c hRest ih =>
      rw [List.cons_append, List.cons_append, closeQuote?, ih]
      rfl

/- What stands before that mark has no other such mark. -/
theorem stringBody_of_closeQuote?
    {mark : Char}
    {cs body rest : List Char}
    (h : closeQuote? mark cs = some (body, rest)) :
    StringBody mark body := by
  fun_induction closeQuote? mark cs generalizing body rest with
  | case1 => cases h
  | case2 => cases h
  | case3 c cs ih =>
      rcases Option.map_eq_some_iff.mp h with ⟨⟨inner, left⟩, hInner, hEq⟩
      cases hEq
      exact .pair c (ih hInner)
  | case4 cs hLast hEscape =>
      cases h
      exact .nil
  | case5 c cs hLast hEscape hMark ih =>
      rcases Option.map_eq_some_iff.mp h with ⟨⟨inner, left⟩, hInner, hEq⟩
      cases hEq
      exact .plain hMark (ne_backslash hLast hEscape) (ih hInner)

/- A string is closed by the first mark that is not escaped. -/
theorem closeQuote?_eq_some_iff
    {mark : Char}
    {cs body rest : List Char}
    (hMark : mark ≠ '\\') :
    closeQuote? mark cs = some (body, rest) ↔
      cs = body ++ mark :: rest ∧ StringBody mark body := by
  constructor
  · intro h
    exact ⟨(closeQuote?_append h).symm, stringBody_of_closeQuote? h⟩
  · rintro ⟨rfl, hBody⟩
    exact closeQuote?_of_stringBody rest hMark hBody

/-
  A mark that is not escaped closes the string, or an earlier
  one does.
-/
theorem isSome_closeQuote?
    {mark : Char}
    {body : List Char}
    (rest : List Char)
    (hMark : mark ≠ '\\')
    (hBody : EscapesPaired body) :
    (closeQuote? mark (body ++ mark :: rest)).isSome = true := by
  induction hBody with
  | nil =>
      rw [List.nil_append, closeQuote?_cons rest hMark, if_pos rfl]
      rfl
  | plain _ hBackslash hRest ih =>
      rw [List.cons_append, closeQuote?_cons _ hBackslash]
      split
      · rfl
      · rwa [Option.isSome_map]
  | pair c hRest ih =>
      rw [List.cons_append, List.cons_append, closeQuote?,
        Option.isSome_map]
      exact ih

theorem Escaping.weaken
    {plain : Char → Prop}
    {cs : List Char}
    (h : Escaping plain cs) :
    EscapesPaired cs := by
  induction h with
  | nil => exact .nil
  | plain _ hBackslash _ ih => exact .plain trivial hBackslash ih
  | pair c _ ih => exact .pair c ih

/-
  A string is never closed exactly when every later mark is
  escaped, escapes being paired off from the beginning.
-/
theorem closeQuote?_eq_none_iff
    {mark : Char}
    {cs : List Char}
    (hMark : mark ≠ '\\') :
    closeQuote? mark cs = none ↔
      ∀ body rest, cs = body ++ mark :: rest →
        ¬ EscapesPaired body := by
  constructor
  · rintro hNone body rest rfl hBody
    have hSome := isSome_closeQuote? rest hMark hBody
    rw [hNone] at hSome
    cases hSome
  · intro hNever
    cases hClose : closeQuote? mark cs with
    | none => rfl
    | some p =>
        rcases p with ⟨body, rest⟩
        rcases (closeQuote?_eq_some_iff hMark).mp hClose with
          ⟨hText, hBody⟩
        exact absurd hBody.weaken (hNever body rest hText)

theorem eq_error_of_map
    {ε α β : Type}
    {f : α → β}
    {result : Except ε α}
    {e : ε}
    (h : result.map f = .error e) :
    result = .error e := by
  cases result with
  | ok x => cases h
  | error e' => rw [Except.error.inj h]

/- The body of a string never ends within an escape sequence. -/
theorem unescape_ne_unfinished
    {plain : Char → Prop}
    {body : List Char}
    (h : Escaping plain body) :
    unescape body ≠ .error .unfinished := by
  intro hUnfinished
  induction h with
  | nil => cases hUnfinished
  | @plain c cs _ hBackslash _ ih =>
      rw [unescape_cons cs hBackslash] at hUnfinished
      exact ih (eq_error_of_map hUnfinished)
  | @pair cs c _ ih =>
      rw [unescape] at hUnfinished
      cases hKnown : escaped? c with
      | none =>
          rw [hKnown] at hUnfinished
          cases hUnfinished
      | some d =>
          rw [hKnown] at hUnfinished
          exact ih (eq_error_of_map hUnfinished)

------------------------------------------------------------
-- Classes of lexemes
------------------------------------------------------------

/- At least one digit and nothing else. -/
def Digits
    (ds : List Char) : Prop :=
  ds ≠ [] ∧ ∀ d ∈ ds, d.isDigit = true

/- The characters that a string is enclosed in. -/
def IsMark
    (c : Char) : Prop :=
  c = '"' ∨ c = '\''

/-
  The texts of each class: names and keywords, numbers, strings
  up to the first mark that is not escaped, operators and
  punctuation.
-/
inductive OfClass : LexemeClass → List Char → Prop where
  | float {whole fraction : List Char}
      (hWhole : Digits whole)
      (hFraction : Digits fraction) :
      OfClass (.float whole fraction) (whole ++ '.' :: fraction)
  | int {ds : List Char}
      (hDigits : Digits ds) :
      OfClass (.int ds) ds
  | str {mark : Char} {body : List Char}
      (hMark : IsMark mark)
      (hBody : StringBody mark body) :
      OfClass (.str body) (mark :: (body ++ [mark]))
  | word {w : List Char}
      (hWord : IsWord w) :
      OfClass .word w
  | symbol {s : Symbol}
      (hSymbol : s ∉ Symbol.keywords) :
      OfClass (.symbol s) s.text.toList

/- The texts that are one lexeme. -/
def IsLexeme
    (text : List Char) : Prop :=
  ∃ cls, OfClass cls text

theorem IsMark.ne_backslash
    {mark : Char}
    (h : IsMark mark) :
    mark ≠ '\\' := by
  rcases h with rfl | rfl <;> decide

/- No keyword is spelled with one or two symbol characters. -/
theorem ofClass_oneChar
    {c : Char}
    {s : Symbol}
    (h : oneCharSymbol? c = some s) :
    OfClass (.symbol s) [c] := by
  have hText : s ∉ Symbol.keywords ∧ s.text.toList = [c] := by
    unfold oneCharSymbol? at h
    split at h <;> cases h <;> decide
  rw [← hText.2]
  exact .symbol hText.1

theorem ofClass_twoChar
    {c d : Char}
    {s : Symbol}
    (h : twoCharSymbol? c d = some s) :
    OfClass (.symbol s) [c, d] := by
  have hText : s ∉ Symbol.keywords ∧ s.text.toList = [c, d] := by
    unfold twoCharSymbol? at h
    split at h <;> cases h <;> decide
  rw [← hText.2]
  exact .symbol hText.1

/- All operators and punctuation are found by their characters. -/
theorem symbol_cases
    {s : Symbol}
    (h : s ∉ Symbol.keywords) :
    (∃ c, s.text.toList = [c] ∧ oneCharSymbol? c = some s) ∨
      ∃ c d, s.text.toList = [c, d] ∧ twoCharSymbol? c d = some s := by
  cases s
  case kwIf | kwElse | kwReturn | kwTrue | kwFalse | kwNil =>
    exact absurd (by decide) h
  case eqEq | notEq | le | ge | andAnd | orOr =>
    exact .inr ⟨_, _, rfl, rfl⟩
  all_goals exact .inl ⟨_, rfl, rfl⟩

------------------------------------------------------------
-- What is taken is a lexeme
------------------------------------------------------------

/- A class that the scanner finds a token of, if it has a value. -/
def LexemeClass.Known : LexemeClass → Prop
  | .unclosed => False
  | .unknown => False
  | _ => True

/- The digits that a text begins with. -/
theorem digits_takeWhile
    {c : Char}
    (cs : List Char)
    (hDigit : c.isDigit = true) :
    Digits ((c :: cs).takeWhile Char.isDigit) := by
  refine ⟨by simp [hDigit], ?_⟩
  exact fun d hd => List.mem_takeWhile_imp hd

theorem ofClass_numberLexeme
    {c : Char}
    (cs : List Char)
    (hDigit : c.isDigit = true) :
    OfClass (numberLexeme (c :: cs)).cls
      (numberLexeme (c :: cs)).text := by
  have hWhole := digits_takeWhile cs hDigit
  unfold numberLexeme
  dsimp only
  split
  · next d ds hRest =>
    split
    · next hFirst => exact .float hWhole (digits_takeWhile ds hFirst)
    · exact .int hWhole
  · exact .int hWhole

theorem ofClass_symbolLexeme
    {c : Char}
    {cs : List Char}
    (hKnown : (symbolLexeme c cs).cls.Known) :
    OfClass (symbolLexeme c cs).cls (symbolLexeme c cs).text := by
  have hOne : ∀ cs, (oneCharLexeme c cs).cls.Known →
      OfClass (oneCharLexeme c cs).cls (oneCharLexeme c cs).text := by
    intro cs hKnown
    unfold oneCharLexeme at *
    cases hSymbol : oneCharSymbol? c with
    | none =>
        rw [hSymbol] at hKnown
        exact absurd hKnown id
    | some s => exact ofClass_oneChar hSymbol
  cases cs with
  | nil => exact hOne [] hKnown
  | cons d ds =>
      rw [symbolLexeme] at hKnown ⊢
      cases hSymbol : twoCharSymbol? c d with
      | none =>
          rw [hSymbol] at hKnown
          exact hOne (d :: ds) hKnown
      | some s => exact ofClass_twoChar hSymbol

/-
  The first lexeme of a text is one of its class, unless it is
  a fault.
-/
theorem ofClass_firstLexeme
    {c : Char}
    {cs : List Char}
    (hKnown : (firstLexeme c cs).cls.Known) :
    OfClass (firstLexeme c cs).cls (firstLexeme c cs).text := by
  unfold firstLexeme at *
  by_cases hDigit : c.isDigit = true
  · rw [if_pos hDigit]
    exact ofClass_numberLexeme cs hDigit
  rw [if_neg hDigit] at hKnown ⊢
  by_cases hQuote : (c = '"' || c = '\'') = true
  · rw [if_pos hQuote] at hKnown ⊢
    unfold stringLexeme at *
    cases hClose : closeQuote? c cs with
    | none =>
        rw [hClose] at hKnown
        exact absurd hKnown id
    | some p =>
        have hMark : IsMark c := by simpa [IsMark] using hQuote
        exact .str hMark (stringBody_of_closeQuote? hClose)
  rw [if_neg hQuote] at hKnown ⊢
  by_cases hWord : isWordStart c = true
  · rw [if_pos hWord]
    exact .word ⟨hWord, List.all_takeWhile⟩
  rw [if_neg hWord] at hKnown ⊢
  exact ofClass_symbolLexeme hKnown

------------------------------------------------------------
-- No longer text is a lexeme
------------------------------------------------------------

/-
  A lexeme covers a text of a class if it is a token or has no
  value, takes that text or more, and is of that class where it
  takes no more.
-/
structure Lexeme.Covers
    (l : Lexeme)
    (cls : LexemeClass)
    (text : List Char) : Prop where
  known : l.cls.Known
  takes : text <+: l.text
  same : text = l.text → l.cls = cls

/- A lexeme that takes a text of a class covers it. -/
theorem Lexeme.covers_self
    {cls : LexemeClass}
    {text rest : List Char}
    (hKnown : cls.Known) :
    Covers ⟨cls, text, rest⟩ cls text :=
  ⟨hKnown, List.prefix_rfl, fun _ => rfl⟩

section Longest

variable {c : Char}
variable {cs more : List Char}

theorem firstLexeme_of_isDigit
    (h : c.isDigit = true) :
    firstLexeme c cs = numberLexeme (c :: cs) :=
  if_pos h

theorem firstLexeme_of_isMark
    (h : IsMark c) :
    firstLexeme c cs = stringLexeme c cs := by
  rcases h with rfl | rfl <;> rfl

theorem firstLexeme_of_isWordStart
    (h : isWordStart c = true) :
    firstLexeme c cs =
      ⟨.word, c :: cs.takeWhile isWordChar, cs.dropWhile isWordChar⟩ := by
  rcases wordStart_class h with ⟨_, _, hDigit, hQuote⟩
  unfold firstLexeme
  rw [hDigit, hQuote, h]
  rfl

/- A longer beginning of a text has more of what is taken from it. -/
theorem prefix_takeWhile
    {p : Char → Bool}
    {ds : List Char}
    (h : ∀ d ∈ ds, p d = true)
    (more : List Char) :
    ds <+: (ds ++ more).takeWhile p := by
  rw [List.takeWhile_append_of_pos h]
  exact List.prefix_append ds _

/- A number takes all digits, and may take a fraction. -/
theorem numberLexeme_cases
    (cs : List Char) :
    ((numberLexeme cs).cls = .int (cs.takeWhile Char.isDigit) ∧
        (numberLexeme cs).text = cs.takeWhile Char.isDigit) ∨
      ∃ fraction,
        (numberLexeme cs).cls =
          .float (cs.takeWhile Char.isDigit) fraction ∧
        (numberLexeme cs).text =
          cs.takeWhile Char.isDigit ++ '.' :: fraction := by
  unfold numberLexeme
  dsimp only
  split
  · split
    · exact .inr ⟨_, rfl, rfl⟩
    · exact .inl ⟨rfl, rfl⟩
  · exact .inl ⟨rfl, rfl⟩

theorem covers_int
    {ds : List Char}
    (hDigits : ∀ d ∈ ds, d.isDigit = true)
    (more : List Char) :
    (numberLexeme (ds ++ more)).Covers (.int ds) ds := by
  have hAll := prefix_takeWhile hDigits more
  rcases numberLexeme_cases (ds ++ more) with
    ⟨hCls, hText⟩ | ⟨fraction, hCls, hText⟩
  · refine ⟨by rw [hCls]; trivial, by rwa [hText], ?_⟩
    intro hSame
    rw [hCls, ← hText, ← hSame]
  · refine ⟨by rw [hCls]; trivial, ?_, ?_⟩
    · rw [hText]
      exact hAll.trans (List.prefix_append _ _)
    · intro hSame
      have hPoint : '.' ∈ ds := by
        rw [hSame, hText]
        exact List.mem_append_right _ List.mem_cons_self
      exact absurd (hDigits '.' hPoint) (by decide)

theorem covers_float
    {whole fraction : List Char}
    (hWhole : ∀ d ∈ whole, d.isDigit = true)
    (hFraction : Digits fraction)
    (more : List Char) :
    (numberLexeme (whole ++ '.' :: fraction ++ more)).Covers
      (.float whole fraction) (whole ++ '.' :: fraction) := by
  rcases hFraction with ⟨hNe, hFraction⟩
  rcases List.exists_cons_of_ne_nil hNe with ⟨d, ds, rfl⟩
  have hStop : ∀ c ∈ ('.' :: (d :: ds ++ more)).head?,
      c.isDigit = false := by
    intro c hc
    rcases Option.some.inj hc with rfl
    rfl
  rcases takeWhile_append_stop hWhole hStop with ⟨hTake, hDrop⟩
  have hLexeme : numberLexeme (whole ++ '.' :: (d :: ds) ++ more) =
      ⟨.float whole ((d :: ds ++ more).takeWhile Char.isDigit),
        whole ++ '.' :: (d :: ds ++ more).takeWhile Char.isDigit,
        (d :: ds ++ more).dropWhile Char.isDigit⟩ := by
    unfold numberLexeme
    rw [List.append_assoc, List.cons_append, hTake, hDrop,
      List.cons_append]
    simp only [hFraction d List.mem_cons_self, if_true]
  rw [hLexeme]
  refine ⟨trivial, ?_, ?_⟩
  · rw [List.prefix_append_right_inj, List.prefix_cons_inj]
    exact prefix_takeWhile hFraction more
  · intro hSame
    have hDigits := List.append_cancel_left hSame
    rw [← (List.cons.inj hDigits).2]

theorem covers_symbol
    {s : Symbol}
    (hSymbol : oneCharSymbol? c = some s)
    (cs : List Char) :
    (symbolLexeme c cs).Covers (.symbol s) [c] := by
  have hOne : ∀ cs, oneCharLexeme c cs = ⟨.symbol s, [c], cs⟩ := by
    intro cs
    rw [oneCharLexeme, hSymbol]
  cases cs with
  | nil =>
      rw [symbolLexeme, hOne]
      exact Lexeme.covers_self trivial
  | cons d ds =>
      rw [symbolLexeme]
      cases hLonger : twoCharSymbol? c d with
      | none =>
          rw [hOne]
          exact Lexeme.covers_self trivial
      | some t =>
          refine ⟨trivial, ⟨[d], rfl⟩, fun hSame => ?_⟩
          cases hSame

/-
  The first lexeme covers every lexeme that the text begins
  with, so it is the longest of them.
-/
theorem firstLexeme_longest
    {cls : LexemeClass}
    {text : List Char}
    (hClass : OfClass cls text)
    (hText : c :: cs = text ++ more) :
    (firstLexeme c cs).Covers cls text := by
  cases hClass with
  | @float whole fraction hWhole hFraction =>
      rcases hWhole with ⟨hNe, hWhole⟩
      rcases List.exists_cons_of_ne_nil hNe with ⟨d, ds, rfl⟩
      rcases List.cons.inj hText with ⟨rfl, _⟩
      rw [firstLexeme_of_isDigit (hWhole c List.mem_cons_self), hText]
      exact covers_float hWhole hFraction more
  | int hDigits =>
      rcases hDigits with ⟨hNe, hDigits⟩
      rcases List.exists_cons_of_ne_nil hNe with ⟨d, ds, rfl⟩
      rcases List.cons.inj hText with ⟨rfl, _⟩
      rw [firstLexeme_of_isDigit (hDigits c List.mem_cons_self), hText]
      exact covers_int hDigits more
  | @str mark body hMark hBody =>
      rcases List.cons.inj hText with ⟨rfl, hRest⟩
      have hBehind : cs = body ++ c :: more := by
        rw [hRest]
        exact List.append_assoc body [c] more
      have hClose :=
        closeQuote?_of_stringBody more hMark.ne_backslash hBody
      rw [firstLexeme_of_isMark hMark, stringLexeme, hBehind, hClose]
      exact Lexeme.covers_self trivial
  | word hWord =>
      cases text with
      | nil => exact absurd hWord id
      | cons d w =>
          rcases List.cons.inj hText with ⟨rfl, rfl⟩
          rcases hWord with ⟨hStart, hChars⟩
          rw [firstLexeme_of_isWordStart hStart]
          refine ⟨trivial, ?_, fun _ => rfl⟩
          rw [List.prefix_cons_inj]
          exact prefix_takeWhile (List.all_eq_true.mp hChars) more
  | @symbol s hSymbol =>
      rcases symbol_cases hSymbol with
        ⟨d, hChars, hOne⟩ | ⟨d, e, hChars, hTwo⟩
      · rw [hChars] at hText ⊢
        rcases List.cons.inj hText with ⟨rfl, _⟩
        rcases symbolChar_class hOne with ⟨_, hDigit, hQuote, hWord⟩
        rw [firstLexeme_eq_symbolLexeme cs hDigit hQuote hWord]
        exact covers_symbol hOne cs
      · rw [hChars] at hText ⊢
        rcases List.cons.inj hText with ⟨rfl, hRest⟩
        have hBehind : cs = e :: more := hRest
        rcases longSymbolChar_class hTwo with
          ⟨_, _, hDigit, hQuote, hWord⟩
        rw [firstLexeme_eq_symbolLexeme cs hDigit hQuote hWord, hBehind,
          symbolLexeme, hTwo]
        exact Lexeme.covers_self trivial

/- A text that is one lexeme is its own first lexeme. -/
theorem firstLexeme_of_ofClass
    {cls : LexemeClass}
    (hClass : OfClass cls (c :: cs)) :
    firstLexeme c cs = ⟨cls, c :: cs, []⟩ := by
  have hCovers := firstLexeme_longest hClass (List.append_nil _).symm
  have hAppend := firstLexeme_append c cs
  have hText : (firstLexeme c cs).text = c :: cs := by
    apply (hCovers.takes.eq_of_length_le _).symm
    rw [← hAppend, List.length_append]
    omega
  have hRest : (firstLexeme c cs).rest = [] := by
    rw [hText] at hAppend
    exact List.append_right_eq_self.mp hAppend
  calc firstLexeme c cs
      = ⟨(firstLexeme c cs).cls, (firstLexeme c cs).text,
          (firstLexeme c cs).rest⟩ := rfl
    _ = ⟨cls, c :: cs, []⟩ := by
        rw [hCovers.same hText.symm, hText, hRest]

end Longest

end DynScript
