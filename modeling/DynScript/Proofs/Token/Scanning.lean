import DynScript.Token.Stream

/-
  Scanning a text piece by piece. A piece of text is scanned
  to certain tokens before a rest when the rest takes no part
  in it; pieces can be put together, and each class of lexemes
  says before which rests it is a piece.

  Key definitions include:
    * `kinds`
    * `Scans`
    * `Boundary`
    * `IsName`

  Main statements include:
    * `Scans.append`
    * `scans_symbol`
    * `scans_name`
    * `scans_keyword`
-/

namespace DynScript

------------------------------------------------------------
-- Kinds of tokens
------------------------------------------------------------

/- The kinds of a sequence of tokens. -/
def kinds
    (toks : List Token) : List TokenKind :=
  toks.map Token.kind

@[simp]
theorem kinds_nil :
    kinds [] = [] :=
  rfl

@[simp]
theorem kinds_cons
    (t : Token)
    (toks : List Token) :
    kinds (t :: toks) = t.kind :: kinds toks :=
  rfl

@[simp]
theorem kinds_append
    (toks more : List Token) :
    kinds (toks ++ more) = kinds toks ++ kinds more :=
  List.map_append

/- Tokens whose kinds begin with `k`. -/
theorem kinds_eq_cons
    {toks : List Token}
    {k : TokenKind}
    {w : List TokenKind}
    (h : kinds toks = k :: w) :
    ∃ t rest, toks = t :: rest ∧ t.kind = k ∧ kinds rest = w :=
  List.map_eq_cons_iff.mp h

/- Tokens whose kinds fall into two parts. -/
theorem kinds_eq_append
    {toks : List Token}
    {u v : List TokenKind}
    (h : kinds toks = u ++ v) :
    ∃ us vs, toks = us ++ vs ∧ kinds us = u ∧ kinds vs = v :=
  List.map_eq_append_iff.mp h

------------------------------------------------------------
-- One step of scanning
------------------------------------------------------------

/- A text that is all gap has no tokens. -/
theorem scan_of_end
    {cs gap : List Char}
    (pos : Position)
    (h : splitGap false cs = (gap, [])) :
    TokenStream.scan pos cs = ⟨[], .endOfInput (pos.after gap)⟩ := by
  rw [TokenStream.scan]
  split
  · next hGap =>
    rw [h] at hGap
    cases hGap
    rfl
  · next hGap =>
    rw [h] at hGap
    cases hGap

/- A lexeme that is a token comes before the tokens behind it. -/
theorem scan_of_token
    {cs gap rest : List Char}
    {c : Char}
    {k : TokenKind}
    (pos : Position)
    (h : splitGap false cs = (gap, c :: rest))
    (hKind : (firstLexeme c rest).kind (pos.after gap) = .ok k) :
    TokenStream.scan pos cs =
      let l := firstLexeme c rest
      let start := pos.after gap
      let s := TokenStream.scan (start.after l.text) l.rest
      ⟨⟨k, String.ofList l.text, start⟩ :: s.tokens, s.ending⟩ := by
  rw [TokenStream.scan]
  split
  · next hGap =>
    rw [h] at hGap
    cases hGap
  · next hGap =>
    rw [h] at hGap
    cases hGap
    simp only [hKind]

/- A lexeme that is no token ends the stream. -/
theorem scan_of_fault
    {cs gap rest : List Char}
    {c : Char}
    {e : LexError}
    (pos : Position)
    (h : splitGap false cs = (gap, c :: rest))
    (hKind : (firstLexeme c rest).kind (pos.after gap) = .error e) :
    TokenStream.scan pos cs = ⟨[], .failed e⟩ := by
  rw [TokenStream.scan]
  split
  · next hGap =>
    rw [h] at hGap
    cases hGap
  · next hGap =>
    rw [h] at hGap
    cases hGap
    simp only [hKind]

------------------------------------------------------------
-- Pieces of text
------------------------------------------------------------

/-
  Before `rest`, the text `cs` is scanned to tokens of the
  kinds `ks`, and scanning goes on with `rest`.
-/
def Scans
    (cs : List Char)
    (ks : List TokenKind)
    (rest : List Char) : Prop :=
  ∀ pos, ∃ toks, kinds toks = ks ∧
    TokenStream.scan pos (cs ++ rest) =
      let s := TokenStream.scan (pos.after cs) rest
      ⟨toks ++ s.tokens, s.ending⟩

theorem scans_nil
    (rest : List Char) :
    Scans [] [] rest := by
  intro pos
  exact ⟨[], rfl, rfl⟩

/- Two pieces, the second of which is part of the first one's rest. -/
theorem Scans.append
    {cs ds rest : List Char}
    {ks ls : List TokenKind}
    (hFirst : Scans cs ks (ds ++ rest))
    (hSecond : Scans ds ls rest) :
    Scans (cs ++ ds) (ks ++ ls) rest := by
  intro pos
  rcases hFirst pos with ⟨toks, hToks, hScan⟩
  rcases hSecond (pos.after cs) with ⟨more, hMore, hScanMore⟩
  refine ⟨toks ++ more, ?_, ?_⟩
  · rw [kinds_append, hToks, hMore]
  · rw [List.append_assoc, hScan, hScanMore, Position.after_append]
    simp only [List.append_assoc]

/- A whole text that is one piece has its tokens and no fault. -/
theorem Scans.ofSource
    {source : String}
    {ks : List TokenKind}
    (h : Scans source.toList ks []) :
    ∃ pos toks, kinds toks = ks ∧
      TokenStream.ofSource source = ⟨toks, .endOfInput pos⟩ := by
  rcases h .start with ⟨toks, hKinds, hScan⟩
  refine ⟨Position.start.after source.toList, toks, hKinds, ?_⟩
  rw [List.append_nil] at hScan
  rw [TokenStream.ofSource, hScan, scan_of_end _ rfl]
  simp

/- The characters of a gap. -/
theorem isGapChar_iff
    {c : Char} :
    isGapChar c = true ↔
      c = ' ' ∨ c = '\t' ∨ c = '\r' ∨ c = '\n' := by
  simp [isGapChar, or_assoc]

/- A white-space character belongs to the gap. -/
theorem splitGap_blank
    {c : Char}
    (rest : List Char)
    (h : isGapChar c = true) :
    splitGap false (c :: rest) =
      (c :: (splitGap false rest).1, (splitGap false rest).2) := by
  have hSlash : c ≠ '/' := by
    rintro rfl
    exact absurd h (by decide)
  rw [splitGap]
  · simp [h]
  · intro cs hEq
    exact absurd hEq hSlash

/-
  A text that begins with part of its gap has the tokens of the
  text without that part.
-/
theorem scan_skip
    {gap cs ds behind : List Char}
    (front : List Char)
    (pos : Position)
    (hSplit : splitGap false cs = (front ++ gap, behind))
    (hRest : splitGap false ds = (gap, behind)) :
    TokenStream.scan pos cs = TokenStream.scan (pos.after front) ds := by
  have hPlace : pos.after (front ++ gap) = (pos.after front).after gap :=
    Position.after_append pos front gap
  cases behind with
  | nil => rw [scan_of_end pos hSplit, scan_of_end _ hRest, hPlace]
  | cons c rest =>
      cases hKind :
          (firstLexeme c rest).kind (pos.after (front ++ gap)) with
      | error e =>
          rw [scan_of_fault pos hSplit hKind,
            scan_of_fault _ hRest (hPlace ▸ hKind)]
      | ok k =>
          rw [scan_of_token pos hSplit hKind,
            scan_of_token _ hRest (hPlace ▸ hKind), hPlace]

/- A white-space character is skipped. -/
theorem scans_gap
    {c : Char}
    (rest : List Char)
    (h : isGapChar c = true) :
    Scans [c] [] rest := by
  intro pos
  refine ⟨[], rfl, ?_⟩
  exact scan_skip [c] pos (splitGap_blank rest h) rfl

/- Nothing is skipped before a lexeme. -/
theorem splitGap_lexeme
    {c : Char}
    {cs : List Char}
    (hGap : isGapChar c = false)
    (hComment : c = '/' → ∀ d ∈ cs.head?, d ≠ '/') :
    splitGap false (c :: cs) = ([], c :: cs) := by
  rw [splitGap]
  · simp [hGap]
  · rintro ds rfl rfl
    exact absurd rfl (hComment rfl '/' rfl)

/- A lexeme that is a token, whatever stands behind it. -/
theorem scans_lexeme
    {c : Char}
    {cs rest : List Char}
    {k : TokenKind}
    (hGap : isGapChar c = false)
    (hComment : c = '/' → ∀ d ∈ (cs ++ rest).head?, d ≠ '/')
    (hText : (firstLexeme c (cs ++ rest)).text = c :: cs)
    (hKind : ∀ pos, (firstLexeme c (cs ++ rest)).kind pos = .ok k) :
    Scans (c :: cs) [k] rest := by
  intro pos
  have hSplit := splitGap_lexeme hGap hComment
  have hRest : (firstLexeme c (cs ++ rest)).rest = rest := by
    have hAppend := firstLexeme_append c (cs ++ rest)
    rw [hText, List.cons_append] at hAppend
    exact List.append_cancel_left (List.cons.inj hAppend).2
  refine ⟨[⟨k, String.ofList (c :: cs), pos⟩], rfl, ?_⟩
  rw [List.cons_append, scan_of_token pos hSplit (hKind _)]
  simp only [hText, hRest, Position.after_nil, List.singleton_append]

------------------------------------------------------------
-- Symbols
------------------------------------------------------------

/-
  The characters that are symbols begin no other lexeme and
  no gap.
-/
theorem symbolChar_class
    {c : Char}
    {s : Symbol}
    (h : oneCharSymbol? c = some s) :
    isGapChar c = false ∧ c.isDigit = false ∧
      (c = '"' || c = '\'') = false ∧ isWordStart c = false := by
  unfold oneCharSymbol? at h
  split at h <;> cases h <;> decide

/- Nor does the first character of a symbol of two. -/
theorem longSymbolChar_class
    {c d : Char}
    {s : Symbol}
    (h : twoCharSymbol? c d = some s) :
    isGapChar c = false ∧ c ≠ '/' ∧ c.isDigit = false ∧
      (c = '"' || c = '\'') = false ∧ isWordStart c = false := by
  unfold twoCharSymbol? at h
  split at h <;> cases h <;> decide

/- A character that begins no other lexeme begins a symbol, if any. -/
theorem firstLexeme_eq_symbolLexeme
    {c : Char}
    (cs : List Char)
    (hDigit : c.isDigit = false)
    (hQuote : (c = '"' || c = '\'') = false)
    (hWord : isWordStart c = false) :
    firstLexeme c cs = symbolLexeme c cs := by
  unfold firstLexeme
  rw [hDigit, hQuote, hWord]
  rfl

/-
  A symbol of one character, unless it makes a longer symbol
  or a comment with the next one.
-/
theorem scans_symbol
    {c : Char}
    {s : Symbol}
    {rest : List Char}
    (hSymbol : oneCharSymbol? c = some s)
    (hLonger : ∀ d ∈ rest.head?, twoCharSymbol? c d = none)
    (hComment : c = '/' → ∀ d ∈ rest.head?, d ≠ '/') :
    Scans [c] [.symbol s] rest := by
  rcases symbolChar_class hSymbol with ⟨hGap, hDigit, hQuote, hWord⟩
  have hLexeme :
      firstLexeme c ([] ++ rest) = ⟨.symbol s, [c], rest⟩ := by
    rw [firstLexeme_eq_symbolLexeme _ hDigit hQuote hWord,
      List.nil_append]
    unfold symbolLexeme
    cases rest with
    | nil => simp [oneCharLexeme, hSymbol]
    | cons d ds => simp [hLonger d rfl, oneCharLexeme, hSymbol]
  refine @scans_lexeme c [] rest _ hGap hComment ?_ ?_
  · rw [hLexeme]
  · intro pos
    rw [hLexeme]
    rfl

/- A symbol of two characters. -/
theorem scans_longSymbol
    {c d : Char}
    {s : Symbol}
    (rest : List Char)
    (hSymbol : twoCharSymbol? c d = some s) :
    Scans [c, d] [.symbol s] rest := by
  rcases longSymbolChar_class hSymbol with
    ⟨hGap, hSlash, hDigit, hQuote, hWord⟩
  have hLexeme :
      firstLexeme c ([d] ++ rest) = ⟨.symbol s, [c, d], rest⟩ := by
    rw [firstLexeme_eq_symbolLexeme _ hDigit hQuote hWord]
    simp [symbolLexeme, hSymbol]
  apply scans_lexeme hGap
  · intro hEq
    exact absurd hEq hSlash
  · rw [hLexeme]
  · intro pos
    rw [hLexeme]
    rfl

------------------------------------------------------------
-- Words
------------------------------------------------------------

/- What may stand directly behind a word or a number. -/
def Boundary
    (rest : List Char) : Prop :=
  ∀ c ∈ rest.head?, isWordChar c = false ∧ c ≠ '.'

/- The texts that are a word. -/
def IsWord : List Char → Prop
  | [] => False
  | c :: cs => isWordStart c = true ∧ cs.all isWordChar = true

instance : DecidablePred IsWord
  | [] => inferInstanceAs (Decidable False)
  | _ :: _ => inferInstanceAs (Decidable (_ ∧ _))

/- A word goes on with what it may begin with. -/
theorem isWordChar_of_isWordStart
    {c : Char}
    (h : isWordStart c = true) :
    isWordChar c = true := by
  simp only [isWordStart, isWordChar, Char.isAlphanum,
    Bool.or_eq_true] at *
  rcases h with h | h
  · exact .inl (.inl h)
  · exact .inr h

theorem isWordChar_of_isWord
    {w : List Char}
    (h : IsWord w) :
    ∀ c ∈ w, isWordChar c = true := by
  cases w with
  | nil => exact absurd h id
  | cons d ds =>
      intro c hc
      rcases List.mem_cons.mp hc with rfl | hRest
      · exact isWordChar_of_isWordStart h.1
      · exact List.all_eq_true.mp h.2 c hRest

/- The words that can be names: no keywords. -/
def IsName
    (s : String) : Prop :=
  IsWord s.toList ∧ ∀ k ∈ Symbol.keywords, k.text ≠ s

instance : DecidablePred IsName :=
  fun _ => inferInstanceAs (Decidable (_ ∧ _))

/-
  A character that begins a word begins no other lexeme and
  no gap.
-/
theorem wordStart_class
    {c : Char}
    (h : isWordStart c = true) :
    isGapChar c = false ∧ c ≠ '/' ∧ c.isDigit = false ∧
      (c = '"' || c = '\'') = false := by
  have hNot : ∀ d : Char, isWordStart d = false → c ≠ d := by
    rintro d hd rfl
    rw [h] at hd
    cases hd
  refine ⟨?_, hNot '/' (by decide), ?_, ?_⟩
  · apply Bool.eq_false_iff.mpr
    intro hGap
    rcases isGapChar_iff.mp hGap with rfl | rfl | rfl | rfl <;>
      exact absurd h (by decide)
  · apply Bool.eq_false_iff.mpr
    intro hDigit
    have hLow : c.toNat ≤ 57 := (Char.isDigit_iff_toNat.mp hDigit).2
    rcases (Bool.or_eq_true _ _).mp h with hAlpha | hUnderscore
    · rcases (Bool.or_eq_true c.isUpper c.isLower).mp hAlpha with
        hUpper | hLower
      · have hHigh : 65 ≤ c.toNat := (of_decide_eq_true hUpper).1
        omega
      · have hHigh : 97 ≤ c.toNat :=
          of_decide_eq_true ((Bool.and_eq_true _ _).mp hLower).1
        omega
    · rw [eq_of_beq hUnderscore] at hDigit
      exact absurd hDigit (by decide)
  · simp [hNot '"' (by decide), hNot '\'' (by decide)]

/- What is taken from a text stops where the rest begins. -/
theorem takeWhile_append_stop
    {p : Char → Bool}
    {cs rest : List Char}
    (hInside : ∀ c ∈ cs, p c = true)
    (hRest : ∀ c ∈ rest.head?, p c = false) :
    (cs ++ rest).takeWhile p = cs ∧
      (cs ++ rest).dropWhile p = rest := by
  have hStop : rest.takeWhile p = [] := by
    cases rest with
    | nil => rfl
    | cons c ds => simp [hRest c rfl]
  have hTake : (cs ++ rest).takeWhile p = cs := by
    rw [List.takeWhile_append_of_pos hInside, hStop, List.append_nil]
  refine ⟨hTake, ?_⟩
  have hBoth := List.takeWhile_append_dropWhile (p := p) (l := cs ++ rest)
  rw [hTake] at hBoth
  exact List.append_cancel_left hBoth

/- A word, when the character behind it does not go on with it. -/
theorem scans_word
    {w rest : List Char}
    {k : TokenKind}
    (hWord : IsWord w)
    (hRest : Boundary rest)
    (hKind : ∀ pos, Lexeme.kind ⟨.word, w, rest⟩ pos = .ok k) :
    Scans w [k] rest := by
  cases w with
  | nil => exact absurd hWord id
  | cons c cs =>
      rcases hWord with ⟨hStart, hChars⟩
      rcases wordStart_class hStart with
        ⟨hGap, hSlash, hDigit, hQuote⟩
      rcases takeWhile_append_stop (List.all_eq_true.mp hChars)
          (fun d hd => (hRest d hd).1) with ⟨hTake, hDrop⟩
      have hLexeme :
          firstLexeme c (cs ++ rest) = ⟨.word, c :: cs, rest⟩ := by
        unfold firstLexeme
        rw [hDigit, hQuote, hStart, hTake, hDrop]
        rfl
      apply scans_lexeme hGap
      · intro hEq
        exact absurd hEq hSlash
      · rw [hLexeme]
      · intro pos
        rw [hLexeme]
        exact hKind pos

/- No keyword is spelled like a name. -/
theorem keyword?_of_isName
    {s : String}
    (h : IsName s) :
    Symbol.keyword? s = none := by
  apply List.find?_eq_none.mpr
  intro k hk hEq
  exact h.2 k hk (beq_iff_eq.mp hEq)

/- A name. -/
theorem scans_name
    {s : String}
    {rest : List Char}
    (hName : IsName s)
    (hRest : Boundary rest) :
    Scans s.toList [.ident s] rest := by
  apply scans_word hName.1 hRest
  intro pos
  simp [Lexeme.kind, keyword?_of_isName hName]

/- Keywords are words, and are found by their spelling. -/
theorem keyword_isWord
    {s : Symbol}
    (h : s ∈ Symbol.keywords) :
    IsWord s.text.toList ∧ Symbol.keyword? s.text = some s := by
  have hAll : ∀ k ∈ Symbol.keywords,
      IsWord k.text.toList ∧ Symbol.keyword? k.text = some k := by
    decide
  exact hAll s h

/- A keyword. -/
theorem scans_keyword
    {s : Symbol}
    {rest : List Char}
    (hKeyword : s ∈ Symbol.keywords)
    (hRest : Boundary rest) :
    Scans s.text.toList [.symbol s] rest := by
  rcases keyword_isWord hKeyword with ⟨hWord, hSelf⟩
  apply scans_word hWord hRest
  intro pos
  simp [Lexeme.kind, hSelf]

end DynScript
