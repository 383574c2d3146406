import DynScript.Proofs.Parse.Trimming
import DynScript.Proofs.Token.LongestMatch

/-
  White space and comments mean nothing. Whatever gaps stand
  before, between and behind the lexemes of a text, as long as
  the gaps between them are not empty and begin with a white
  space, the text is scanned to just these lexemes, and it is
  the same program.

  Key definitions include:
    * `TokenKind.SpelledBy`
    * `ClosedGap`
    * `LastGap`
    * `Gaps`
    * `Gaps.text`

  Main statements include:
    * `scan_lexeme`
    * `scan_closedGap`
    * `scan_spaced`
    * `gaps_insignificant`
-/

namespace DynScript

------------------------------------------------------------
-- Lexemes with a value
------------------------------------------------------------

/-
  The text between two quote marks and the text that it stands
  for. All escape sequences in it are known ones.
-/
inductive BodyOf
    (mark : Char) : (body value : List Char) → Prop where
  | nil :
      BodyOf mark [] []
  | plain {c : Char} {body value : List Char}
      (hMark : c ≠ mark)
      (hBackslash : c ≠ '\\')
      (hRest : BodyOf mark body value) :
      BodyOf mark (c :: body) (c :: value)
  | escape {c d : Char} {body value : List Char}
      (hKnown : escaped? c = some d)
      (hRest : BodyOf mark body value) :
      BodyOf mark ('\\' :: c :: body) (d :: value)

/-
  The texts that are a token of a kind: names, integers of 64
  bits, finite floating point numbers, strings without unknown
  escape sequences, and all keywords, operators and punctuation.
-/
inductive TokenKind.SpelledBy : TokenKind → List Char → Prop where
  | ident {name : String}
      (hName : IsName name) :
      SpelledBy (.ident name) name.toList
  | int {ds : List Char}
      (hDigits : Digits ds)
      (hRange : Decimal.natOfDigits ds ≤ 2 ^ 63 - 1) :
      SpelledBy (.int (.ofNat (Decimal.natOfDigits ds))) ds
  | float {whole fraction : List Char}
      (hWhole : Digits whole)
      (hFraction : Digits fraction)
      (hFinite :
        Decimal.isFinite (Decimal.nearest whole fraction) = true) :
      SpelledBy (.float (Decimal.nearest whole fraction))
        (whole ++ '.' :: fraction)
  | str {mark : Char} {body value : List Char}
      (hMark : IsMark mark)
      (hBody : BodyOf mark body value) :
      SpelledBy (.str (String.ofList value)) (mark :: (body ++ [mark]))
  | symbol (s : Symbol) :
      SpelledBy (.symbol s) s.text.toList

theorem BodyOf.stringBody
    {mark : Char}
    {body value : List Char}
    (h : BodyOf mark body value) :
    StringBody mark body := by
  induction h with
  | nil => exact .nil
  | plain hMark hBackslash _ ih => exact .plain hMark hBackslash ih
  | @escape c d body value _ _ ih => exact .pair c ih

theorem BodyOf.unescape_eq
    {mark : Char}
    {body value : List Char}
    (h : BodyOf mark body value) :
    unescape body = .ok value := by
  induction h with
  | nil => rfl
  | plain hMark hBackslash hRest ih =>
      rw [unescape_cons _ hBackslash, ih]
      rfl
  | escape hKnown hRest ih =>
      rw [unescape, hKnown, ih]
      rfl

/- A text that is a token is a lexeme, and the token is its value. -/
theorem TokenKind.SpelledBy.ofClass
    {k : TokenKind}
    {text : List Char}
    (h : SpelledBy k text) :
    ∃ cls, OfClass cls text ∧
      ∀ rest pos, Lexeme.kind ⟨cls, text, rest⟩ pos = .ok k := by
  cases h with
  | ident hName =>
      refine ⟨.word, .word hName.1, fun rest pos => ?_⟩
      simp [Lexeme.kind, keyword?_of_isName hName]
  | int hDigits hRange =>
      exact ⟨_, .int hDigits, fun rest pos => if_pos hRange⟩
  | float hWhole hFraction hFinite =>
      exact ⟨_, .float hWhole hFraction, fun rest pos => if_pos hFinite⟩
  | str hMark hBody =>
      refine ⟨_, .str hMark hBody.stringBody, fun rest pos => ?_⟩
      rw [Lexeme.kind]
      dsimp only
      rw [hBody.unescape_eq]
  | symbol s =>
      by_cases hKeyword : s ∈ Symbol.keywords
      · rcases keyword_isWord hKeyword with ⟨hWord, hSelf⟩
        refine ⟨.word, .word hWord, fun rest pos => ?_⟩
        simp [Lexeme.kind, hSelf]
      · exact ⟨_, .symbol hKeyword, fun rest pos => rfl⟩

/-
  A lexeme begins with no gap: with no white space, and with a
  slash only if it is nothing else.
-/
theorem OfClass.begins
    {cls : LexemeClass}
    {text : List Char}
    (h : OfClass cls text) :
    ∃ c cs, text = c :: cs ∧ isGapChar c = false ∧
      (c = '/' → cs = []) := by
  cases h with
  | @float whole fraction hWhole hFraction =>
      rcases hWhole with ⟨hNe, hDigits⟩
      rcases List.exists_cons_of_ne_nil hNe with ⟨d, ds, rfl⟩
      rcases digit_class (hDigits d List.mem_cons_self) with
        ⟨hGap, hSlash, _⟩
      exact ⟨d, _, rfl, hGap, fun hEq => absurd hEq hSlash⟩
  | int hDigits =>
      rcases hDigits with ⟨hNe, hDigits⟩
      rcases List.exists_cons_of_ne_nil hNe with ⟨d, ds, rfl⟩
      rcases digit_class (hDigits d List.mem_cons_self) with
        ⟨hGap, hSlash, _⟩
      exact ⟨d, _, rfl, hGap, fun hEq => absurd hEq hSlash⟩
  | str hMark hBody =>
      refine ⟨_, _, rfl, ?_, ?_⟩
      · rcases hMark with rfl | rfl <;> rfl
      · rcases hMark with rfl | rfl <;> exact nofun
  | word hWord =>
      cases text with
      | nil => exact absurd hWord id
      | cons c cs =>
          rcases wordStart_class hWord.1 with ⟨hGap, hSlash, _⟩
          exact ⟨c, cs, rfl, hGap, fun hEq => absurd hEq hSlash⟩
  | symbol hSymbol =>
      rcases symbol_cases hSymbol with
        ⟨c, hChars, hOne⟩ | ⟨c, d, hChars, hTwo⟩
      · exact ⟨c, [], hChars, (symbolChar_class hOne).1, fun _ => rfl⟩
      · rcases longSymbolChar_class hTwo with ⟨hGap, hSlash, _⟩
        exact ⟨c, [d], hChars, hGap, fun hEq => absurd hEq hSlash⟩

------------------------------------------------------------
-- Gaps
------------------------------------------------------------

/- A gap of white space and comments that are closed by a line feed. -/
inductive ClosedGap : List Char → Prop where
  | nil :
      ClosedGap []
  | blank {c : Char} {gap : List Char}
      (hBlank : c ∈ [' ', '\t', '\r', '\n'])
      (hGap : ClosedGap gap) :
      ClosedGap (c :: gap)
  | comment {body gap : List Char}
      (hBody : '\n' ∉ body)
      (hGap : ClosedGap gap) :
      ClosedGap ('/' :: '/' :: (body ++ '\n' :: gap))

/- The gap at the end of a text may end with a comment left open. -/
def LastGap
    (gap : List Char) : Prop :=
  ClosedGap gap ∨
    ∃ front body, ClosedGap front ∧ '\n' ∉ body ∧
      gap = front ++ '/' :: '/' :: body

/- A text that begins with white space, if with anything. -/
def BeginsBlank
    (text : List Char) : Prop :=
  ∀ c ∈ text.head?, c ∈ [' ', '\t', '\r', '\n']

theorem beginsBlank_cons
    {c : Char}
    {cs : List Char}
    (h : c ∈ [' ', '\t', '\r', '\n']) :
    BeginsBlank (c :: cs) := by
  intro d hd
  rcases Option.some.inj hd with rfl
  exact h

/- The gaps behind lexemes: only the last one may be empty. -/
inductive GapsBehind : List (List Char) → Prop where
  | none :
      GapsBehind []
  | last {gap : List Char}
      (hGap : LastGap gap)
      (hBlank : BeginsBlank gap) :
      GapsBehind [gap]
  | more {gap next : List Char} {gaps : List (List Char)}
      (hGap : ClosedGap gap)
      (hNe : gap ≠ [])
      (hBlank : BeginsBlank gap)
      (hRest : GapsBehind (next :: gaps)) :
      GapsBehind (gap :: next :: gaps)

/-
  The gaps of a text with `n` lexemes: one before the first of
  them, which is the last gap if there are none, and one behind
  each.
-/
structure Gaps
    (n : Nat) where
  front : List Char
  behind : List (List Char)
  length_behind : behind.length = n
  front_gap : if n = 0 then LastGap front else ClosedGap front
  behind_gaps : GapsBehind behind

/- Lexemes with a gap behind each of them. -/
def spaced
    (words gaps : List (List Char)) : List Char :=
  (List.zipWith (· ++ ·) words gaps).flatten

/- The text of lexemes with gaps. -/
def Gaps.text
    {n : Nat}
    (gaps : Gaps n)
    (words : List (List Char)) : List Char :=
  gaps.front ++ spaced words gaps.behind

/- A character of a comment before its end. -/
theorem splitGap_comment
    {body : List Char}
    (rest : List Char)
    (hBody : '\n' ∉ body) :
    splitGap true (body ++ rest) =
      (body ++ (splitGap true rest).1, (splitGap true rest).2) := by
  induction body with
  | nil => rfl
  | cons c body ih =>
      rcases List.ne_and_not_mem_of_not_mem_cons hBody with ⟨hLine, hRest⟩
      rw [List.cons_append, splitGap, bne_iff_ne.mpr hLine.symm, ih hRest]
      rfl

/- A gap that is closed is part of a longer one. -/
theorem splitGap_closedGap
    {gap : List Char}
    (h : ClosedGap gap)
    (rest : List Char) :
    splitGap false (gap ++ rest) =
      (gap ++ (splitGap false rest).1, (splitGap false rest).2) := by
  induction h with
  | nil => rfl
  | blank hBlank hGap ih =>
      rw [List.cons_append,
        splitGap_blank _ (isGapChar_iff.mpr (by simpa using hBlank)), ih]
      rfl
  | comment hBody hGap ih =>
      rw [List.cons_append, List.cons_append, List.append_assoc,
        List.cons_append, splitGap, splitGap_comment _ hBody, splitGap,
        bne_self_eq_false, ih]
      simp

theorem splitGap_lastGap
    {gap : List Char}
    (h : LastGap gap) :
    (splitGap false gap).2 = [] := by
  rcases h with hClosed | ⟨front, body, hFront, hBody, rfl⟩
  · have hSplit := splitGap_closedGap hClosed []
    rw [List.append_nil] at hSplit
    rw [hSplit]
    rfl
  · have hSplit := splitGap_comment [] hBody
    rw [List.append_nil] at hSplit
    rw [splitGap_closedGap hFront, splitGap, hSplit]
    rfl

/- A closed gap is skipped. -/
theorem scan_closedGap
    {gap : List Char}
    (pos : Position)
    (h : ClosedGap gap)
    (rest : List Char) :
    TokenStream.scan pos (gap ++ rest) =
      TokenStream.scan (pos.after gap) rest :=
  scan_skip gap pos (splitGap_closedGap h rest) rfl

/- With the last gap a text is over. -/
theorem scan_lastGap
    {gap : List Char}
    (pos : Position)
    (h : LastGap gap) :
    ∃ p, TokenStream.scan pos gap = ⟨[], .endOfInput p⟩ := by
  rcases hSplit : splitGap false gap with ⟨all, rest⟩
  have hRest := splitGap_lastGap h
  rw [hSplit] at hRest
  rcases hRest with rfl
  exact ⟨_, scan_of_end pos hSplit⟩

------------------------------------------------------------
-- Lexemes with gaps
------------------------------------------------------------

/- The first lexeme of a text is one that white space follows. -/
theorem firstLexeme_before_blank
    {cls : LexemeClass}
    {c : Char}
    {cs rest : List Char}
    (hClass : OfClass cls (c :: cs))
    (hKnown : cls ≠ .unclosed)
    (hRest : BeginsBlank rest) :
    firstLexeme c (cs ++ rest) = ⟨cls, c :: cs, rest⟩ := by
  have hSelf := firstLexeme_of_ofClass hClass
  cases rest with
  | nil => rw [List.append_nil, hSelf]
  | cons e more =>
      have hBlank : Text.isBlank e = true := by
        have hCases : e = ' ' ∨ e = '\t' ∨ e = '\r' ∨ e = '\n' := by
          simpa using hRest e rfl
        rcases hCases with rfl | rfl | rfl | rfl <;> decide
      have hClosed : (firstLexeme c cs).cls ≠ .unclosed := by
        rwa [hSelf]
      rw [firstLexeme_append_blank more hBlank hClosed, hSelf]
      rfl

/- A lexeme before white space is the token that it spells. -/
theorem scan_lexeme
    {k : TokenKind}
    {text rest : List Char}
    (pos : Position)
    (hText : k.SpelledBy text)
    (hRest : BeginsBlank rest) :
    TokenStream.scan pos (text ++ rest) =
      let s := TokenStream.scan (pos.after text) rest
      ⟨⟨k, String.ofList text, pos⟩ :: s.tokens, s.ending⟩ := by
  rcases hText.ofClass with ⟨cls, hClass, hKind⟩
  rcases hClass.begins with ⟨c, cs, rfl, hGap, hSlash⟩
  have hLexeme : firstLexeme c (cs ++ rest) = ⟨cls, c :: cs, rest⟩ :=
    firstLexeme_before_blank hClass
      (cls_ne_unclosed_of_kind (hKind rest pos)) hRest
  have hSplit : splitGap false (c :: (cs ++ rest)) =
      ([], c :: (cs ++ rest)) := by
    apply splitGap_lexeme hGap
    intro hEq d hd
    rw [hSlash hEq, List.nil_append] at hd
    have hBlank := hRest d hd
    rintro rfl
    revert hBlank
    decide
  have hToken :
      (firstLexeme c (cs ++ rest)).kind (pos.after []) = .ok k := by
    rw [hLexeme]
    exact hKind rest pos
  rw [List.cons_append, scan_of_token pos hSplit hToken, hLexeme]
  rfl

/- A gap that is not empty begins the text that it is part of. -/
theorem BeginsBlank.append
    {gap : List Char}
    (hNe : gap ≠ [])
    (h : BeginsBlank gap)
    (rest : List Char) :
    BeginsBlank (gap ++ rest) := by
  rcases List.exists_cons_of_ne_nil hNe with ⟨c, cs, rfl⟩
  exact h

/- The text of tokens. -/
def texts
    (toks : List Token) : List (List Char) :=
  toks.map (·.text.toList)

/-
  Lexemes with gaps are scanned to what they spell. By
  induction on the gaps: each lexeme is followed by white space
  or by nothing.
-/
theorem scan_spaced
    {gaps words : List (List Char)}
    {ks : List TokenKind}
    (pos : Position)
    (hGaps : GapsBehind gaps)
    (hLength : gaps.length = words.length)
    (hWords : List.Forall₂ TokenKind.SpelledBy ks words) :
    ∃ toks p,
      TokenStream.scan pos (spaced words gaps) =
        ⟨toks, .endOfInput p⟩ ∧
      kinds toks = ks ∧ texts toks = words := by
  induction hGaps generalizing pos words ks with
  | none =>
      rcases List.length_eq_zero_iff.mp hLength.symm with rfl
      cases hWords
      exact ⟨[], _, scan_of_end pos rfl, rfl, rfl⟩
  | @last gap hGap hBlank =>
      rcases List.length_eq_one_iff.mp hLength.symm with ⟨word, rfl⟩
      rcases List.forall₂_cons_right_iff.mp hWords with
        ⟨k, _, hWord, hNone, rfl⟩
      cases hNone
      rcases scan_lastGap (pos.after word) hGap with ⟨p, hEnd⟩
      refine ⟨[⟨k, String.ofList word, pos⟩], p, ?_, rfl, ?_⟩
      · change TokenStream.scan pos (word ++ gap ++ []) = _
        rw [List.append_nil, scan_lexeme pos hWord hBlank, hEnd]
      · exact congrArg (fun text => [text]) String.toList_ofList
  | @more gap next gaps hGap hNe hBlank hRest ih =>
      rcases List.exists_cons_of_length_eq_add_one hLength.symm with
        ⟨word, words, rfl⟩
      rcases List.forall₂_cons_right_iff.mp hWords with
        ⟨k, ks, hWord, hOthers, rfl⟩
      rcases ih ((pos.after word).after gap) (Nat.succ.inj hLength)
        hOthers
        with ⟨toks, p, hScan, hKinds, hTexts⟩
      refine ⟨⟨k, String.ofList word, pos⟩ :: toks, p, ?_, ?_, ?_⟩
      · change TokenStream.scan pos
          (word ++ gap ++ spaced words (next :: gaps)) = _
        rw [List.append_assoc,
          scan_lexeme pos hWord (hBlank.append hNe _),
          scan_closedGap _ hGap, hScan]
      · rw [kinds_cons, hKinds]
      · rw [texts, List.map_cons, String.toList_ofList]
        exact congrArg _ hTexts

/- So is a text with a gap in front of them. -/
theorem scan_text
    {words : List (List Char)}
    {ks : List TokenKind}
    (gaps : Gaps words.length)
    (hWords : List.Forall₂ TokenKind.SpelledBy ks words) :
    ∃ toks p,
      TokenStream.ofSource (String.ofList (gaps.text words)) =
        ⟨toks, .endOfInput p⟩ ∧
      kinds toks = ks ∧ texts toks = words := by
  rw [TokenStream.ofSource, String.toList_ofList, Gaps.text]
  have hFront := gaps.front_gap
  cases words with
  | nil =>
      rcases scan_lastGap .start hFront with ⟨p, hEnd⟩
      cases hWords
      refine ⟨[], p, ?_, rfl, rfl⟩
      change TokenStream.scan .start (gaps.front ++ []) = _
      rw [List.append_nil, hEnd]
  | cons word words =>
      rw [scan_closedGap .start hFront]
      exact scan_spaced _ gaps.behind_gaps gaps.length_behind hWords

/- Tokens of the same kinds and texts differ in their places alone. -/
theorem unplaced_eq
    {toks toks' : List Token}
    {p p' : Position}
    (hKinds : kinds toks = kinds toks')
    (hTexts : texts toks = texts toks') :
    (TokenStream.mk toks (.endOfInput p)).unplaced =
      (TokenStream.mk toks' (.endOfInput p')).unplaced := by
  have hTokens : toks.map (Token.mapPos fun _ => .start) =
      toks'.map (Token.mapPos fun _ => .start) := by
    induction toks generalizing toks' with
    | nil => rw [List.map_eq_nil_iff.mp hKinds.symm]
    | cons t toks ih =>
        rcases kinds_eq_cons hKinds.symm with ⟨u, rest, rfl, hKind, hRest⟩
        rcases List.cons.inj hTexts with ⟨hText, hOthers⟩
        rw [List.map_cons, List.map_cons, ih hRest.symm hOthers]
        unfold Token.mapPos
        rw [hKind, String.toList_inj.mp hText]
  exact congrArg (TokenStream.mk · (.endOfInput .start)) hTokens

------------------------------------------------------------
-- Programs
------------------------------------------------------------

/-
  Lexemes with gaps are read to just these lexemes as tokens.
  With other gaps the tokens are of the same kinds, and the
  text is the same program, or none.
-/
theorem gaps_insignificant
    {words : List (List Char)}
    {ks : List TokenKind}
    (gaps : Gaps words.length)
    (hWords : List.Forall₂ TokenKind.SpelledBy ks words) :
    (∃ toks p,
      tokenize (String.ofList (gaps.text words)) = .ok (toks, p) ∧
      texts toks = words ∧ kinds toks = ks) ∧
    ∀ (other : Gaps words.length) (b : Block),
      parse (String.ofList (gaps.text words)) = .ok b ↔
        parse (String.ofList (other.text words)) = .ok b := by
  rcases scan_text gaps hWords with ⟨toks, p, hSource, hKinds, hTexts⟩
  constructor
  · refine ⟨toks, p, tokenize_eq_ok.mpr ?_, hTexts, hKinds⟩
    rw [hSource]
    exact ⟨rfl, rfl⟩
  · intro other b
    rcases scan_text other hWords with
      ⟨toks', p', hSource', hKinds', hTexts'⟩
    have hSame : (TokenStream.mk toks (.endOfInput p)).unplaced =
        (TokenStream.mk toks' (.endOfInput p')).unplaced :=
      unplaced_eq (hKinds.trans hKinds'.symm) (hTexts.trans hTexts'.symm)
    unfold parse parseWithin
    rw [hSource, hSource']
    exact ⟨Parse.statements_of_unplaced hSame,
      Parse.statements_of_unplaced hSame.symm⟩

/-
  A string with the beginning of a comment in it, divided by a
  number: a comment stands in front, one with a quote mark in
  it before the operator, and one that is left open at the end.
-/
theorem commented_quotient :
    let words := [['x'], ['='], ['\'', '/', '/', '\''], ['/'], ['0', '7']]
    let ks := [.ident "x", .symbol .assign, .str "//", .symbol .slash,
      .int 7]
    let gaps : Gaps words.length :=
      { front := '/' :: '/' :: (['a'] ++ '\n' :: [])
        behind :=
          [[' '], ['\t'], '\n' :: '/' :: '/' :: (['\''] ++ '\n' :: []),
            ['\r'], [' '] ++ '/' :: '/' :: ['/']]
        length_behind := rfl
        front_gap := .comment (by decide) .nil
        behind_gaps :=
          .more (.blank (by decide) .nil) nofun
            (beginsBlank_cons (by decide)) <|
          .more (.blank (by decide) .nil) nofun
            (beginsBlank_cons (by decide)) <|
          .more (.blank (by decide) (.comment (by decide) .nil)) nofun
            (beginsBlank_cons (by decide)) <|
          .more (.blank (by decide) .nil) nofun
            (beginsBlank_cons (by decide)) <|
          .last (.inr ⟨_, _, .blank (by decide) .nil, by decide, rfl⟩)
            (beginsBlank_cons (by decide)) }
    List.Forall₂ TokenKind.SpelledBy ks words ∧
      ∃ toks p,
        tokenize (String.ofList (gaps.text words)) = .ok (toks, p) ∧
        texts toks = words ∧ kinds toks = ks := by
  intro words ks gaps
  have hDigits : Digits ['0', '7'] := ⟨nofun, List.all_eq_true.mp rfl⟩
  have hBody : BodyOf '\'' ['/', '/'] ['/', '/'] :=
    .plain (by decide) (by decide) (.plain (by decide) (by decide) .nil)
  have hWords : List.Forall₂ TokenKind.SpelledBy ks words :=
    .cons (.ident (by decide)) <| .cons (.symbol .assign) <|
    .cons (.str (.inr rfl) hBody) <| .cons (.symbol .slash) <|
    .cons (.int hDigits (by decide)) .nil
  exact ⟨hWords, (gaps_insignificant gaps hWords).1⟩

end DynScript
