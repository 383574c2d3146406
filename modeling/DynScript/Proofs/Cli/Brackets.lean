import DynScript.Cli.Repl
import DynScript.Proofs.Parse.Brackets
import DynScript.Proofs.Token.Lossless

/-
  The brackets that a dialogue counts and the brackets among
  the tokens of what was typed. The counter reads characters
  and knows strings but no comments: what it counts are the
  brackets among the tokens and those in comments, as long as
  no comment has a quote mark in it and no string ends with a
  backslash.

  Key definitions include:
    * `openChars`
    * `betweenLexemes`
    * `Cli.Counts`

  Main statements include:
    * `Cli.counts_string`
    * `Cli.counts_lexeme`
    * `Cli.counts_scan`
    * `Cli.bracketDepth_of_tokenize`
-/

namespace DynScript

------------------------------------------------------------
-- Brackets among characters
------------------------------------------------------------

/- How many more brackets characters open than they close. -/
def openChars
    (cs : List Char) : Int :=
  surplus ['{', '('] ['}', ')'] cs

theorem openChars_append
    (cs ds : List Char) :
    openChars (cs ++ ds) = openChars cs + openChars ds :=
  surplus_append cs ds

------------------------------------------------------------
-- Between the lexemes
------------------------------------------------------------

/- The white space and the comments of a text. -/
def betweenLexemes
    (cs : List Char) : List Char :=
  match _hSplit : splitGap false cs with
  | (gap, []) => gap
  | (gap, c :: rest) =>
    gap ++ betweenLexemes (firstLexeme c rest).rest
termination_by cs.length
decreasing_by
  have hShorter := length_rest_firstLexeme c rest
  have hGap := length_splitGap_snd false cs
  rw [_hSplit] at hGap
  exact Nat.lt_of_lt_of_le hShorter hGap

theorem betweenLexemes_of_end
    {cs gap : List Char}
    (h : splitGap false cs = (gap, [])) :
    betweenLexemes cs = gap := by
  rw [betweenLexemes]
  split
  · next hGap =>
    rw [h] at hGap
    cases hGap
    rfl
  · next hGap =>
    rw [h] at hGap
    cases hGap

theorem betweenLexemes_of_lexeme
    {cs gap rest : List Char}
    {c : Char}
    (h : splitGap false cs = (gap, c :: rest)) :
    betweenLexemes cs =
      gap ++ betweenLexemes (firstLexeme c rest).rest := by
  rw [betweenLexemes]
  split
  · next hGap =>
    rw [h] at hGap
    cases hGap
  · next hGap =>
    rw [h] at hGap
    cases hGap
    rfl

namespace Cli

------------------------------------------------------------
-- The counter
------------------------------------------------------------

/-
  The characters `cs`, read outside of strings, are left
  outside of strings, and the counter has counted `n`.
-/
def Counts
    (cs : List Char)
    (n : Int) : Prop :=
  ∀ b : BracketCount, b.quote = none →
    (cs.foldl BracketCount.next b).quote = none ∧
      (cs.foldl BracketCount.next b).depth = b.depth + n

theorem Counts.append
    {cs ds : List Char}
    {m n : Int}
    (hFirst : Counts cs m)
    (hSecond : Counts ds n) :
    Counts (cs ++ ds) (m + n) := by
  intro b hb
  rcases hFirst b hb with ⟨hQuote, hDepth⟩
  rcases hSecond _ hQuote with ⟨hQuote', hDepth'⟩
  rw [List.foldl_append]
  refine ⟨hQuote', ?_⟩
  rw [hDepth', hDepth, Int.add_assoc]

/- Characters that are no quote marks. -/
theorem counts_plain
    {cs : List Char}
    (h : ∀ c ∈ cs, c ≠ '"' ∧ c ≠ '\'') :
    Counts cs (openChars cs) := by
  induction cs with
  | nil =>
      intro b hb
      exact ⟨hb, (Int.add_zero b.depth).symm⟩
  | cons c cs ih =>
      have hFirst : Counts [c] (openChars [c]) := by
        rcases h c List.mem_cons_self with ⟨hDouble, hSingle⟩
        intro b hb
        by_cases hOpen : c = '{' ∨ c = '('
        · rcases hOpen with rfl | rfl <;>
            exact ⟨by simp [BracketCount.next, hb],
              by simp [BracketCount.next, hb, openChars, surplus]⟩
        by_cases hClose : c = '}' ∨ c = ')'
        · rcases hClose with rfl | rfl <;>
            exact ⟨by simp [BracketCount.next, hb],
              by simp [BracketCount.next, hb, openChars, surplus]; omega⟩
        simp only [not_or] at hOpen hClose
        simp [BracketCount.next, hb, hDouble, hSingle, hOpen, hClose,
          openChars, surplus]
      rw [← List.singleton_append, openChars_append]
      exact hFirst.append
        (ih fun d hd => h d (List.mem_cons_of_mem c hd))

/- The characters that the counter does not pass over. -/
def markChars : List Char :=
  ['"', '\'', '{', '(', '}', ')']

/- All other characters count nothing. -/
theorem counts_zero
    {cs : List Char}
    (h : ∀ c ∈ cs, c ∉ markChars) :
    Counts cs 0 := by
  have hNone : openChars cs = 0 := by
    apply surplus_eq_zero
    intro c hc
    have hOther := h c hc
    simp only [markChars, List.mem_cons, List.not_mem_nil, or_false,
      not_or] at hOther ⊢
    tauto
  rw [← hNone]
  apply counts_plain
  intro c hc
  have hOther := h c hc
  simp only [markChars, List.mem_cons, not_or] at hOther
  exact ⟨hOther.1, hOther.2.1⟩

------------------------------------------------------------
-- Strings
------------------------------------------------------------

/- A character that does not close a string is only remembered. -/
theorem next_of_quote
    {mark c previous : Char}
    (depth : Int)
    (h : c = mark → previous = '\\') :
    BracketCount.next ⟨depth, some mark, previous⟩ c =
      ⟨depth, some mark, c⟩ := by
  by_cases hMark : c = mark
  · simp [BracketCount.next, h hMark]
  · simp [BracketCount.next, hMark]

/-
  Inside of a string the counter counts nothing and finds no
  end of it: a quote mark in the body has a backslash before
  it.
-/
theorem foldl_next_body
    {mark : Char}
    {cs body rest : List Char}
    (hMark : mark ≠ '\\')
    (h : closeQuote? mark cs = some (body, rest))
    (depth : Int)
    (previous : Char) :
    body.foldl BracketCount.next ⟨depth, some mark, previous⟩ =
      ⟨depth, some mark, body.getLast?.getD previous⟩ := by
  fun_induction closeQuote? mark cs generalizing body rest previous with
  | case1 => cases h
  | case2 => cases h
  | case3 c cs ih =>
      rcases Option.map_eq_some_iff.mp h with ⟨⟨inner, left⟩, hInner, hEq⟩
      cases hEq
      -- The backslash is remembered when the next character is read.
      rw [List.foldl_cons,
        next_of_quote depth fun hEq => absurd hEq.symm hMark,
        List.foldl_cons, next_of_quote depth fun _ => rfl, ih hInner c]
      simp [List.getLast?_cons]
  | case4 cs hLast hEscape =>
      cases h
      rfl
  | case5 c cs hLast hEscape hOther ih =>
      rcases Option.map_eq_some_iff.mp h with ⟨⟨inner, left⟩, hInner, hEq⟩
      cases hEq
      rw [List.foldl_cons,
        next_of_quote depth fun hEq => absurd hEq hOther, ih hInner c]
      simp [List.getLast?_cons]

/- A string whose body does not end with a backslash. -/
theorem counts_string
    {mark : Char}
    {cs body rest : List Char}
    (hMark : mark = '"' ∨ mark = '\'')
    (h : closeQuote? mark cs = some (body, rest))
    (hBody : body.getLast? ≠ some '\\') :
    Counts (mark :: body ++ [mark]) 0 := by
  intro b hb
  have hOpened : b.next mark = ⟨b.depth, some mark, mark⟩ := by
    rcases hMark with rfl | rfl <;> simp [BracketCount.next, hb]
  have hNot : mark ≠ '\\' := by
    rcases hMark with rfl | rfl <;> decide
  have hPrevious : body.getLast?.getD mark ≠ '\\' := by
    cases hLast : body.getLast? with
    | none => exact hNot
    | some c =>
        rintro rfl
        exact hBody hLast
  rw [List.cons_append, List.foldl_cons, hOpened, List.foldl_append,
    foldl_next_body hNot h]
  simp [BracketCount.next, hPrevious]

/- What a body is that is written behind its first character. -/
theorem unescape_map_eq_ok
    {d : Char}
    {body cs : List Char}
    (h : (unescape body).map (d :: ·) = .ok cs) :
    ∃ ds, unescape body = .ok ds ∧ cs = d :: ds := by
  cases hBody : unescape body with
  | error e =>
      rw [hBody] at h
      cases h
  | ok ds =>
      rw [hBody] at h
      exact ⟨ds, rfl, (Except.ok.inj h).symm⟩

/- A body that ends with a backslash writes one at its end. -/
theorem getLast?_of_unescape
    {body cs : List Char}
    (h : unescape body = .ok cs)
    (hBody : body.getLast? = some '\\') :
    cs.getLast? = some '\\' := by
  fun_induction unescape body generalizing cs with
  | case1 => cases hBody
  | case2 => cases h
  | case3 c rest d hEscaped ih =>
      rcases unescape_map_eq_ok h with ⟨ds, hRest, rfl⟩
      cases rest with
      | nil =>
          cases hRest
          rcases Option.some.inj hBody with rfl
          rcases Option.some.inj hEscaped with rfl
          rfl
      | cons x xs =>
          have hLast : ds.getLast? = some '\\' :=
            ih hRest (by simpa using hBody)
          rw [List.getLast?_cons, hLast]
          rfl
  | case4 c rest hEscaped => cases h
  | case5 c rest hAlone hEscape ih =>
      rcases unescape_map_eq_ok h with ⟨ds, hRest, rfl⟩
      cases rest with
      | nil => exact absurd rfl (hAlone (Option.some.inj hBody))
      | cons x xs =>
          have hLast : ds.getLast? = some '\\' :=
            ih hRest (by simpa using hBody)
          rw [List.getLast?_cons, hLast]
          rfl

------------------------------------------------------------
-- Lexemes
------------------------------------------------------------

/- The characters of a number. -/
theorem mem_numberLexeme
    {cs : List Char}
    {c : Char}
    (h : c ∈ (numberLexeme cs).text) :
    c.isDigit = true ∨ c = '.' := by
  unfold numberLexeme at h
  split at h
  · split at h
    · rcases List.mem_append.mp h with hWhole | hOther
      · exact .inl (List.mem_takeWhile_imp hWhole)
      · rcases List.mem_cons.mp hOther with hPoint | hFraction
        · exact .inr hPoint
        · exact .inl (List.mem_takeWhile_imp hFraction)
    · exact .inl (List.mem_takeWhile_imp h)
  · exact .inl (List.mem_takeWhile_imp h)

/- A symbol counts as its character does. -/
theorem oneCharSymbol?_bracket
    {c : Char}
    {s : Symbol}
    (h : oneCharSymbol? c = some s) :
    (c ≠ '"' ∧ c ≠ '\'') ∧ openChars [c] = openTokens [.symbol s] := by
  unfold oneCharSymbol? at h
  split at h <;> cases h <;> exact ⟨by decide, rfl⟩

/- A symbol of two characters has no bracket in it. -/
theorem twoCharSymbol?_bracket
    {c d : Char}
    {s : Symbol}
    (h : twoCharSymbol? c d = some s) :
    (∀ x ∈ [c, d], x ∉ markChars) ∧
      openTokens [.symbol s] = 0 := by
  unfold twoCharSymbol? at h
  split at h <;> cases h <;> exact ⟨by simp [markChars], rfl⟩

/- Characters of words and numbers are neither marks nor brackets. -/
theorem not_mem_marks
    {c : Char}
    (h : isWordChar c = true ∨ c = '.') :
    c ∉ markChars := by
  intro hMark
  simp only [markChars, List.mem_cons, List.not_mem_nil, or_false]
    at hMark
  rcases hMark with rfl | rfl | rfl | rfl | rfl | rfl <;>
    rcases h with h | h <;> exact absurd h (by decide)

/- A keyword is no bracket. -/
theorem openTokens_keyword
    {word : String}
    {s : Symbol}
    (h : Symbol.keyword? word = some s) :
    openTokens [.symbol s] = 0 := by
  have hKeyword : s ∈ Symbol.keywords := List.mem_of_find?_eq_some h
  have hOther :
      ∀ s ∈ Symbol.keywords, .symbol s ∉ bracketKinds := by
    decide
  exact openTokens_other (hOther s hKeyword)

section Lexemes

variable {c : Char}
variable {rest : List Char}
variable {pos : Position}
variable {k : TokenKind}

/- What a number is the lexeme of. -/
theorem cls_numberLexeme
    (cs : List Char) :
    (∃ whole fraction,
        (numberLexeme cs).cls = .float whole fraction) ∨
      ∃ digits, (numberLexeme cs).cls = .int digits := by
  unfold numberLexeme
  split
  · split
    · exact .inl ⟨_, _, rfl⟩
    · exact .inr ⟨_, rfl⟩
  · exact .inr ⟨_, rfl⟩

/- A number has no brackets. -/
theorem counts_number
    {cs : List Char}
    (hKind : (numberLexeme cs).kind pos = .ok k) :
    Counts (numberLexeme cs).text (openTokens [k]) := by
  have hValue : k ∉ bracketKinds := by
    unfold Lexeme.kind at hKind
    rcases cls_numberLexeme cs with
      ⟨whole, fraction, hCls⟩ | ⟨digits, hCls⟩
    · rw [hCls] at hKind
      dsimp only at hKind
      split at hKind
      · rcases Except.ok.inj hKind with rfl
        simp [bracketKinds]
      · cases hKind
    · rw [hCls] at hKind
      dsimp only at hKind
      split at hKind
      · rcases Except.ok.inj hKind with rfl
        simp [bracketKinds]
      · cases hKind
  rw [openTokens_other hValue]
  apply counts_zero
  intro d hd
  apply not_mem_marks
  rcases mem_numberLexeme hd with hDigit | hPoint
  · exact .inl (by simp [isWordChar, Char.isAlphanum, hDigit])
  · exact .inr hPoint

/- A string counts nothing. -/
theorem counts_stringLexeme
    {mark : Char}
    (hMark : mark = '"' ∨ mark = '\'')
    (hKind : (stringLexeme mark rest).kind pos = .ok k)
    (hString : ∀ s, k = .str s → s.toList.getLast? ≠ some '\\') :
    Counts (stringLexeme mark rest).text (openTokens [k]) := by
  unfold stringLexeme at *
  cases hClose : closeQuote? mark rest with
  | none =>
      rw [hClose] at hKind
      cases hKind
  | some p =>
      rcases p with ⟨body, behind⟩
      rw [hClose] at hKind
      unfold Lexeme.kind at hKind
      dsimp only at hKind ⊢
      split at hKind
      · next cs hBody =>
        rcases Except.ok.inj hKind with rfl
        rw [openTokens_other (by simp [bracketKinds])]
        apply counts_string hMark hClose
        intro hLast
        apply hString _ rfl
        rw [String.toList_ofList]
        exact getLast?_of_unescape hBody hLast
      · cases hKind
      · cases hKind

/- A word has no brackets. -/
theorem counts_word
    (hStart : isWordStart c = true)
    (hKind : Lexeme.kind ⟨.word, c :: rest.takeWhile isWordChar,
      rest.dropWhile isWordChar⟩ pos = .ok k) :
    Counts (c :: rest.takeWhile isWordChar) (openTokens [k]) := by
  have hNone : openTokens [k] = 0 := by
    unfold Lexeme.kind at hKind
    dsimp only at hKind
    split at hKind
    · next s hKeyword =>
      rcases Except.ok.inj hKind with rfl
      exact openTokens_keyword hKeyword
    · rcases Except.ok.inj hKind with rfl
      exact openTokens_other (by simp [bracketKinds])
  rw [hNone]
  apply counts_zero
  intro d hd
  apply not_mem_marks
  rcases List.mem_cons.mp hd with rfl | hOthers
  · left
    unfold isWordStart at hStart
    unfold isWordChar Char.isAlphanum
    rcases (Bool.or_eq_true _ _).mp hStart with hAlpha | hLine
    · simp [hAlpha]
    · simp [hLine]
  · exact .inl (List.mem_takeWhile_imp hOthers)

/- A symbol counts as its characters do. -/
theorem counts_symbol
    (hKind : (symbolLexeme c rest).kind pos = .ok k) :
    Counts (symbolLexeme c rest).text (openTokens [k]) := by
  have hOne : ∀ rest, (oneCharLexeme c rest).kind pos = .ok k →
      Counts (oneCharLexeme c rest).text (openTokens [k]) := by
    intro rest hKind
    unfold oneCharLexeme at *
    cases hSymbol : oneCharSymbol? c with
    | none =>
        rw [hSymbol] at hKind
        cases hKind
    | some s =>
        rw [hSymbol] at hKind
        rcases Except.ok.inj hKind with rfl
        rcases oneCharSymbol?_bracket hSymbol with ⟨hPlain, hSame⟩
        rw [← hSame]
        exact counts_plain (by simpa using hPlain)
  cases rest with
  | nil => exact hOne [] hKind
  | cons d ds =>
      unfold symbolLexeme at *
      dsimp only at *
      cases hSymbol : twoCharSymbol? c d with
      | none =>
          rw [hSymbol] at hKind
          exact hOne (d :: ds) hKind
      | some s =>
          rw [hSymbol] at hKind
          rcases Except.ok.inj hKind with rfl
          rcases twoCharSymbol?_bracket hSymbol with ⟨hPlain, hNone⟩
          rw [hNone]
          exact counts_zero hPlain

/-
  A lexeme that is a token counts as the token does, unless it
  is a string that ends with a backslash.
-/
theorem counts_lexeme
    (hKind : (firstLexeme c rest).kind pos = .ok k)
    (hString : ∀ s, k = .str s → s.toList.getLast? ≠ some '\\') :
    Counts (firstLexeme c rest).text (openTokens [k]) := by
  unfold firstLexeme at *
  by_cases hDigit : c.isDigit = true
  · rw [if_pos hDigit] at *
    exact counts_number hKind
  rw [if_neg hDigit] at *
  by_cases hQuote : (c = '"' || c = '\'') = true
  · rw [if_pos hQuote] at *
    exact counts_stringLexeme (by simpa using hQuote) hKind hString
  rw [if_neg hQuote] at *
  by_cases hWord : isWordStart c = true
  · rw [if_pos hWord] at *
    exact counts_word hWord hKind
  rw [if_neg hWord] at *
  exact counts_symbol hKind

end Lexemes

------------------------------------------------------------
-- Scanning
------------------------------------------------------------

/-
  A text that is scanned up to its end counts as its tokens and
  the characters between them do.
-/
theorem counts_scan
    {p : Position}
    (pos : Position)
    (cs : List Char)
    (hEnd : (TokenStream.scan pos cs).ending = .endOfInput p)
    (hBetween : ∀ c ∈ betweenLexemes cs, c ≠ '"' ∧ c ≠ '\'')
    (hStrings : ∀ s, .str s ∈ kinds (TokenStream.scan pos cs).tokens →
      s.toList.getLast? ≠ some '\\') :
    Counts cs
      (openTokens (kinds (TokenStream.scan pos cs).tokens) +
        openChars (betweenLexemes cs)) := by
  rcases hSplit : splitGap false cs with ⟨gap, rest⟩
  have hText : gap ++ rest = cs := by
    have hAppend := splitGap_append false cs
    rw [hSplit] at hAppend
    exact hAppend
  cases rest with
  | nil =>
      rw [List.append_nil] at hText
      rw [betweenLexemes_of_end hSplit] at *
      rw [scan_of_end pos hSplit, ← hText]
      have hNone : openTokens (kinds []) = 0 := rfl
      rw [hNone, Int.zero_add]
      exact counts_plain hBetween
  | cons c rest =>
      cases hKind : (firstLexeme c rest).kind (pos.after gap) with
      | error e =>
          rw [scan_of_fault pos hSplit hKind] at hEnd
          cases hEnd
      | ok k =>
          have hShorter := length_rest_firstLexeme c rest
          have hLength : cs.length = gap.length + (c :: rest).length := by
            rw [← hText, List.length_append]
          rw [scan_of_token pos hSplit hKind] at *
          rw [betweenLexemes_of_lexeme hSplit] at *
          rw [kinds_cons] at *
          have hGap := counts_plain fun d hd =>
            hBetween d (List.mem_append_left _ hd)
          have hLexeme := counts_lexeme hKind fun s hs =>
            hStrings s (by rw [hs]; exact List.mem_cons_self)
          have hRest := counts_scan _ (firstLexeme c rest).rest hEnd
            (fun d hd => hBetween d (List.mem_append_right _ hd))
            (fun s hs => hStrings s (List.mem_cons_of_mem _ hs))
          have hAll := hGap.append (hLexeme.append hRest)
          rw [firstLexeme_append, hText] at hAll
          rw [openTokens_cons, openChars_append]
          convert hAll using 1
          dsimp only
          omega
termination_by cs.length

------------------------------------------------------------
-- Typed texts
------------------------------------------------------------

/- A typed text has to be continued when the count is positive. -/
theorem pending_submit
    (d : Dialogue)
    (text : String) :
    (d.submit text).2.pending =
      if 0 < bracketDepth text then some text else none := by
  unfold Dialogue.submit
  split <;> rfl

/-
  The count of a text without lexical faults is the one of its
  tokens and, besides, of its comments, unless a comment has a
  quote mark in it or a string ends with a backslash. If the
  comments close what they open, a continuation is asked for
  exactly when the tokens leave brackets open, and never when
  the text is a program.
-/
theorem bracketDepth_of_tokenize
    {source : String}
    {toks : List Token}
    {pos : Position}
    (h : tokenize source = .ok (toks, pos))
    (hComments : ∀ c ∈ betweenLexemes source.toList,
      c ≠ '"' ∧ c ≠ '\'')
    (hStrings : ∀ s, .str s ∈ kinds toks →
      s.toList.getLast? ≠ some '\\') :
    bracketDepth source =
        openTokens (kinds toks) +
          openChars (betweenLexemes source.toList) ∧
      (openChars (betweenLexemes source.toList) = 0 →
        ∀ d : Dialogue,
          ((d.submit source).2.pending = some source ↔
            0 < openTokens (kinds toks)) ∧
          ∀ b, parse source = .ok b →
            (d.submit source).2.pending = none) := by
  rcases tokenize_eq_ok.mp h with ⟨rfl, hEnd⟩
  have hDepth : bracketDepth source =
      openTokens (kinds (TokenStream.ofSource source).tokens) +
        openChars (betweenLexemes source.toList) := by
    have hCounts :=
      counts_scan .start source.toList hEnd hComments hStrings
    rw [bracketDepth, (hCounts ⟨0, none, ' '⟩ rfl).2]
    exact Int.zero_add _
  refine ⟨hDepth, ?_⟩
  intro hClosed d
  rw [hClosed, Int.add_zero] at hDepth
  rw [pending_submit, hDepth]
  constructor
  · simp
  · intro b hParse
    have hForms := Parse.forms_of_statements (by simp [maxNesting]) hParse
    rw [hForms.openTokens_eq_zero]
    rfl

/- An open block, with brackets in a string and in a comment. -/
theorem bracketDepth_of_open_block :
    bracketDepth "\x7b'(' // ()" = 1 ∧
      ∀ d : Dialogue,
        (d.submit "\x7b'(' // ()").2.pending =
          some "\x7b'(' // ()" := by
  have hTokens : tokenize "\x7b'(' // ()" =
      .ok ([⟨.symbol .braceL, "\x7b", ⟨1, 1, 0⟩⟩,
        ⟨.str "(", "'('", ⟨1, 2, 1⟩⟩], ⟨1, 11, 10⟩) := by
    cbv
  have hBetween : betweenLexemes "\x7b'(' // ()".toList =
      [' ', '/', '/', ' ', '(', ')'] := by
    cbv
  have hComments : ∀ c ∈ betweenLexemes "\x7b'(' // ()".toList,
      c ≠ '"' ∧ c ≠ '\'' := by
    rw [hBetween]
    simp
  rcases bracketDepth_of_tokenize hTokens hComments (by simp [kinds])
    with ⟨hDepth, hPending⟩
  rw [hBetween] at hDepth hPending
  exact ⟨hDepth, fun d => (hPending rfl d).1.mpr (by decide)⟩

/-
  A string with an escaped backslash at its end is taken to go
  on behind its mark, so that the bracket there is not counted;
  and a bracket in a comment is.
-/
theorem bracketDepth_disagrees :
    (∃ toks pos, tokenize "('\\\\')" = .ok (toks, pos) ∧
        openTokens (kinds toks) = 0 ∧ bracketDepth "('\\\\')" = 1) ∧
      ∃ toks pos, tokenize "// (" = .ok (toks, pos) ∧
        openTokens (kinds toks) = 0 ∧ bracketDepth "// (" = 1 := by
  constructor
  · refine ⟨[⟨.symbol .parenL, "(", ⟨1, 1, 0⟩⟩,
      ⟨.str "\\", "'\\\\'", ⟨1, 2, 1⟩⟩,
      ⟨.symbol .parenR, ")", ⟨1, 6, 5⟩⟩], ⟨1, 7, 6⟩, ?_, rfl, ?_⟩
    · cbv
    · cbv
  · refine ⟨[], ⟨1, 5, 4⟩, ?_, rfl, ?_⟩
    · cbv
    · cbv

end Cli

end DynScript
