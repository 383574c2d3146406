import DynScript.Proofs.Token.Lossless
import DynScript.Text.Blank

/-
  Texts one after the other. What a text that is scanned
  without a fault is scanned to does not depend on what follows
  in the next line, and where a text begins only moves the
  places of its tokens.

  Key definitions include:
    * `Position.shift`
    * `Token.mapPos`
    * `TokenStream.mapPos`

  Main statements include:
    * `scan_shift`
    * `firstLexeme_append_blank`
    * `scan_append_line`
    * `ofSource_append`
-/

namespace DynScript

------------------------------------------------------------
-- Moving places
------------------------------------------------------------

/- A place so many lines and bytes further on, in the same column. -/
def Position.shift
    (lines bytes : Nat)
    (p : Position) : Position :=
  ⟨p.line + lines, p.column, p.offset + bytes⟩

/- A fault at another place. -/
def LexError.mapPos
    (f : Position → Position) : LexError → LexError
  | .unexpectedChar c p => .unexpectedChar c (f p)
  | .unterminatedString p => .unterminatedString (f p)
  | .invalidEscape c p => .invalidEscape c (f p)
  | .integerOverflow text p => .integerOverflow text (f p)
  | .floatOverflow text p => .floatOverflow text (f p)

/- A token at another place. -/
def Token.mapPos
    (f : Position → Position)
    (t : Token) : Token :=
  { t with pos := f t.pos }

/- An end at another place. -/
def Ending.mapPos
    (f : Position → Position) : Ending → Ending
  | .endOfInput p => .endOfInput (f p)
  | .failed e => .failed (e.mapPos f)

/- Tokens and their end at other places. -/
def TokenStream.mapPos
    (f : Position → Position)
    (s : TokenStream) : TokenStream :=
  ⟨s.tokens.map (Token.mapPos f), s.ending.mapPos f⟩

theorem Token.mapPos_id :
    Token.mapPos id = id :=
  rfl

/- A text that begins further on ends further on. -/
theorem Position.after_shift
    (lines bytes : Nat)
    (p : Position)
    (cs : List Char) :
    (p.shift lines bytes).after cs = (p.after cs).shift lines bytes := by
  induction cs generalizing p with
  | nil => rfl
  | cons c cs ih =>
      have hStep : (p.shift lines bytes).advance c =
          (p.advance c).shift lines bytes := by
        unfold advance shift
        split
        · simp [Nat.add_right_comm]
        · simp [Nat.add_right_comm]
      rw [after_cons, after_cons, hStep, ih]

/- Behind whole lines a text begins in the first column. -/
theorem Position.behind_line
    (text : List Char) :
    behind (text ++ ['\n']) =
      start.shift (text.count '\n' + 1)
        ((String.ofList text).utf8ByteSize + 1) := by
  have hOffset : (String.ofList (text ++ ['\n'])).utf8ByteSize =
      (String.ofList text).utf8ByteSize + 1 := by
    rw [String.ofList_append, String.utf8ByteSize_append]
    rfl
  unfold behind shift start
  rw [hOffset, List.count_append, List.reverse_append]
  simp [Nat.add_comm]

------------------------------------------------------------
-- Scanning at another place
------------------------------------------------------------

/- The kind of a lexeme does not depend on its place. -/
theorem kind_mapPos
    (f : Position → Position)
    (l : Lexeme)
    (pos : Position) :
    l.kind (f pos) =
      match l.kind pos with
      | .ok k => .ok k
      | .error e => .error (e.mapPos f) := by
  unfold Lexeme.kind
  dsimp only
  split
  · split <;> rfl
  · split <;> rfl
  · split <;> rfl
  · rfl
  · split <;> rfl
  · rfl
  · rfl

/- A text that begins further on has the same tokens further on. -/
theorem scan_shift
    (lines bytes : Nat)
    (pos : Position)
    (cs : List Char) :
    TokenStream.scan (pos.shift lines bytes) cs =
      (TokenStream.scan pos cs).mapPos (Position.shift lines bytes) := by
  rcases hSplit : splitGap false cs with ⟨gap, rest⟩
  have hLength : rest.length ≤ cs.length := by
    have hLe := length_splitGap_snd false cs
    rw [hSplit] at hLe
    exact hLe
  cases rest with
  | nil =>
      rw [scan_of_end _ hSplit, scan_of_end _ hSplit,
        Position.after_shift]
      rfl
  | cons c rest =>
      have hMoved := kind_mapPos (Position.shift lines bytes)
        (firstLexeme c rest) (pos.after gap)
      rw [← Position.after_shift] at hMoved
      cases hKind : (firstLexeme c rest).kind (pos.after gap) with
      | error e =>
          rw [hKind] at hMoved
          rw [scan_of_fault _ hSplit hMoved, scan_of_fault _ hSplit hKind]
          rfl
      | ok k =>
          have hShorter := length_rest_firstLexeme c rest
          rw [hKind] at hMoved
          rw [scan_of_token _ hSplit hMoved, scan_of_token _ hSplit hKind]
          dsimp only
          rw [Position.after_shift, Position.after_shift,
            scan_shift lines bytes _ (firstLexeme c rest).rest]
          rfl
termination_by cs.length

------------------------------------------------------------
-- Blanks
------------------------------------------------------------

/- A blank is none of the characters that are no blanks. -/
theorem ne_of_isBlank
    {e c : Char}
    (hBlank : Text.isBlank e = true)
    (hOther : Text.isBlank c = false) :
    e ≠ c := by
  rintro rfl
  rw [hBlank] at hOther
  cases hOther

/- No word goes on with a blank. -/
theorem isWordChar_of_isBlank
    {e : Char}
    (hBlank : Text.isBlank e = true) :
    isWordChar e = false := by
  have hUnderscore : (e == '_') = false :=
    beq_false_of_ne (ne_of_isBlank hBlank (by decide))
  rw [isWordChar, hUnderscore, Bool.or_false]
  apply Bool.eq_false_iff.mpr
  intro hAlphanum
  simp only [Text.isBlank, Bool.or_eq_true, Bool.and_eq_true,
    decide_eq_true_eq, beq_iff_eq] at hBlank
  rcases (Bool.or_eq_true e.isAlpha e.isDigit).mp hAlphanum with
    hAlpha | hDigit
  · rcases (Bool.or_eq_true e.isUpper e.isLower).mp hAlpha with
      hUpper | hLower
    · have hRange : 65 ≤ e.toNat ∧ e.toNat ≤ 90 :=
        of_decide_eq_true hUpper
      omega
    · have hRange := (Bool.and_eq_true _ _).mp hLower
      have hLow : 97 ≤ e.toNat := of_decide_eq_true hRange.1
      have hHigh : e.toNat ≤ 122 := of_decide_eq_true hRange.2
      omega
  · have hRange := Char.isDigit_iff_toNat.mp hDigit
    change 48 ≤ e.toNat ∧ e.toNat ≤ 57 at hRange
    omega

/- No number begins or goes on with a blank. -/
theorem isDigit_of_isBlank
    {e : Char}
    (hBlank : Text.isBlank e = true) :
    e.isDigit = false := by
  have hWord := isWordChar_of_isBlank hBlank
  simp only [isWordChar, Char.isAlphanum, Bool.or_eq_false_iff] at hWord
  exact hWord.1.2

------------------------------------------------------------
-- A blank behind a text
------------------------------------------------------------

section Blank

variable {cs gap rest : List Char}
variable {e : Char}
variable (ds : List Char)

/- What is taken from a text is taken before what stops it. -/
theorem takeWhile_append_cons
    {p : Char → Bool}
    (hStop : p e = false)
    (cs : List Char) :
    (cs ++ e :: ds).takeWhile p = cs.takeWhile p ∧
      (cs ++ e :: ds).dropWhile p = cs.dropWhile p ++ e :: ds := by
  induction cs with
  | nil => simp [hStop]
  | cons c cs ih =>
      by_cases hChar : p c = true
      · simp [hChar, ih]
      · simp [hChar]

/- A character with which no escape sequence begins. -/
theorem ne_backslash
    {c : Char}
    (hLast : c = '\\' → cs = [] → False)
    (hEscape : ∀ d ds, c = '\\' → cs = d :: ds → False) :
    c ≠ '\\' := by
  intro hBackslash
  cases cs with
  | nil => exact hLast hBackslash rfl
  | cons d ds => exact hEscape d ds hBackslash rfl

/- A string that is closed does not depend on what follows. -/
theorem closeQuote?_append_of_some
    {mark : Char}
    {body : List Char}
    (more : List Char)
    (h : closeQuote? mark cs = some (body, rest)) :
    closeQuote? mark (cs ++ more) = some (body, rest ++ more) := by
  fun_induction closeQuote? mark cs generalizing body rest with
  | case1 => cases h
  | case2 => cases h
  | case3 c cs ih =>
      rcases Option.map_eq_some_iff.mp h with ⟨⟨inner, left⟩, hInner, hEq⟩
      cases hEq
      simp [closeQuote?, ih hInner]
  | case4 cs hLast hEscape =>
      cases h
      rw [List.cons_append,
        closeQuote?_cons _ (ne_backslash hLast hEscape), if_pos rfl]
  | case5 c cs hLast hEscape hMark ih =>
      rcases Option.map_eq_some_iff.mp h with ⟨⟨inner, left⟩, hInner, hEq⟩
      cases hEq
      rw [List.cons_append,
        closeQuote?_cons _ (ne_backslash hLast hEscape),
        if_neg hMark, ih hInner]
      rfl

variable (hBlank : Text.isBlank e = true)
include hBlank

/- The gap before a lexeme does not depend on a blank behind it. -/
theorem splitGap_append_blank
    {inComment : Bool}
    {c : Char}
    (h : splitGap inComment cs = (gap, c :: rest)) :
    splitGap inComment (cs ++ e :: ds) =
      (gap, c :: (rest ++ e :: ds)) := by
  fun_induction splitGap inComment cs generalizing gap with
  | case1 => cases h
  | case2 d cs gap' rest' hSplit ih =>
      cases h
      rw [List.cons_append, splitGap, ih hSplit]
  | case3 cs gap' rest' hSplit ih =>
      cases h
      rw [List.cons_append, List.cons_append, splitGap, ih hSplit]
  | case4 d cs hComment hGap gap' rest' hSplit ih =>
      cases h
      rw [List.cons_append, splitGap_blank _ hGap, ih hSplit]
  | case5 d cs hComment hGap =>
      cases h
      rw [List.cons_append]
      apply splitGap_lexeme (by simpa using hGap)
      intro hSlash x hHead
      cases rest with
      | nil =>
          rcases Option.some.inj hHead with rfl
          exact ne_of_isBlank hBlank (by decide)
      | cons x xs =>
          rcases Option.some.inj hHead with rfl
          rintro rfl
          exact hComment xs hSlash rfl

/- The same lexeme with more text behind it. -/
def Lexeme.before
    (l : Lexeme)
    (more : List Char) : Lexeme :=
  ⟨l.cls, l.text, l.rest ++ more⟩

/- A number ends before a blank. -/
theorem numberLexeme_append_blank
    (cs : List Char) :
    numberLexeme (cs ++ e :: ds) =
      (numberLexeme cs).before (e :: ds) := by
  have hDigit := isDigit_of_isBlank hBlank
  have hPoint : e ≠ '.' := ne_of_isBlank hBlank (by decide)
  rcases takeWhile_append_cons ds hDigit cs with ⟨hTake, hDrop⟩
  unfold numberLexeme
  rw [hTake, hDrop]
  rcases hRest : cs.dropWhile Char.isDigit with _ | ⟨c, _ | ⟨d, rest⟩⟩
  · simp [hPoint, Lexeme.before]
  · by_cases hPoint : c = '.'
    · subst hPoint
      simp [hDigit, Lexeme.before]
    · simp [hPoint, Lexeme.before]
  · by_cases hPoint : c = '.'
    · subst hPoint
      by_cases hDigit : d.isDigit = true
      · rcases takeWhile_append_cons ds (isDigit_of_isBlank hBlank)
          (d :: rest) with ⟨hMore, hBehind⟩
        rw [List.cons_append] at hMore hBehind
        simp only [List.cons_append, hDigit, if_true, hMore, hBehind,
          Lexeme.before]
      · simp [hDigit, Lexeme.before]
    · simp [hPoint, Lexeme.before]

/- A symbol ends before a blank. -/
theorem symbolLexeme_append_blank
    (c : Char)
    (cs : List Char) :
    symbolLexeme c (cs ++ e :: ds) =
      (symbolLexeme c cs).before (e :: ds) := by
  have hOne : ∀ cs, oneCharLexeme c (cs ++ e :: ds) =
      (oneCharLexeme c cs).before (e :: ds) := by
    intro cs
    unfold oneCharLexeme
    cases oneCharSymbol? c with
    | some s => rfl
    | none => rfl
  cases cs with
  | nil =>
      have hTwo : twoCharSymbol? c e = none := by
        unfold twoCharSymbol?
        split
        all_goals first
          | rfl
          | exact absurd rfl (ne_of_isBlank hBlank (by decide))
      rw [List.nil_append, symbolLexeme, symbolLexeme, hTwo]
      exact hOne []
  | cons d rest =>
      rw [List.cons_append, symbolLexeme, symbolLexeme]
      cases twoCharSymbol? c d with
      | some s => rfl
      | none => exact hOne (d :: rest)

/- A lexeme that is not left open ends before a blank. -/
theorem firstLexeme_append_blank
    {c : Char}
    (hClosed : (firstLexeme c cs).cls ≠ .unclosed) :
    firstLexeme c (cs ++ e :: ds) =
      (firstLexeme c cs).before (e :: ds) := by
  unfold firstLexeme at *
  by_cases hDigit : c.isDigit = true
  · rw [if_pos hDigit, if_pos hDigit]
    exact numberLexeme_append_blank ds hBlank (c :: cs)
  rw [if_neg hDigit] at hClosed
  rw [if_neg hDigit, if_neg hDigit]
  by_cases hQuote : (c = '"' || c = '\'') = true
  · rw [if_pos hQuote] at hClosed
    rw [if_pos hQuote, if_pos hQuote]
    unfold stringLexeme at *
    cases hBody : closeQuote? c cs with
    | none =>
        rw [hBody] at hClosed
        exact absurd rfl hClosed
    | some p => rw [closeQuote?_append_of_some _ hBody]; rfl
  rw [if_neg hQuote, if_neg hQuote]
  by_cases hWord : isWordStart c = true
  · rcases takeWhile_append_cons ds (isWordChar_of_isBlank hBlank) cs with
      ⟨hTake, hDrop⟩
    rw [if_pos hWord, if_pos hWord, hTake, hDrop]
    rfl
  rw [if_neg hWord, if_neg hWord]
  exact symbolLexeme_append_blank ds hBlank c cs

end Blank

/- A token is never left open. -/
theorem cls_ne_unclosed_of_kind
    {l : Lexeme}
    {pos : Position}
    {k : TokenKind}
    (h : l.kind pos = .ok k) :
    l.cls ≠ .unclosed := by
  intro hCls
  rw [Lexeme.kind, hCls] at h
  cases h

------------------------------------------------------------
-- Another line behind a text
------------------------------------------------------------

section Line

variable {cs gap rest : List Char}
variable (ds : List Char)

/- A text that is all gap goes on with the gap of the next line. -/
theorem splitGap_line_of_end
    {inComment : Bool}
    (h : splitGap inComment cs = (gap, [])) :
    splitGap inComment (cs ++ '\n' :: ds) =
      (cs ++ (splitGap false ('\n' :: ds)).1,
        (splitGap false ('\n' :: ds)).2) := by
  fun_induction splitGap inComment cs generalizing gap with
  | case1 inComment =>
      -- A line feed ends a comment and belongs to the gap either way.
      rw [List.nil_append, List.nil_append, splitGap_blank ds rfl]
      cases inComment with
      | false => rw [splitGap_blank ds rfl]
      | true => rfl
  | case2 d cs gap' rest' hSplit ih =>
      cases h
      rw [List.cons_append, splitGap, ih hSplit]
      rfl
  | case3 cs gap' rest' hSplit ih =>
      cases h
      rw [List.cons_append, List.cons_append, splitGap, ih hSplit]
      rfl
  | case4 d cs hComment hBlank gap' rest' hSplit ih =>
      cases h
      rw [List.cons_append, splitGap_blank _ hBlank, ih hSplit]
      rfl
  | case5 d cs hComment hBlank => cases h

/-
  A text that is scanned up to its end has the same tokens when
  a line feed and more text follow.
-/
theorem scan_append_line
    {p : Position}
    (pos : Position)
    (cs : List Char)
    (h : (TokenStream.scan pos cs).ending = .endOfInput p) :
    TokenStream.scan pos (cs ++ '\n' :: ds) =
      let s := TokenStream.scan (pos.after cs) ('\n' :: ds)
      ⟨(TokenStream.scan pos cs).tokens ++ s.tokens, s.ending⟩ := by
  rcases hSplit : splitGap false cs with ⟨gap, rest⟩
  have hText : gap ++ rest = cs := by
    have hAppend := splitGap_append false cs
    rw [hSplit] at hAppend
    exact hAppend
  cases rest with
  | nil =>
      rw [scan_skip _ pos (splitGap_line_of_end ds hSplit) rfl,
        scan_of_end pos hSplit]
      rfl
  | cons c rest =>
      cases hKind : (firstLexeme c rest).kind (pos.after gap) with
      | error e =>
          rw [scan_of_fault pos hSplit hKind] at h
          cases h
      | ok k =>
          have hShorter := length_rest_firstLexeme c rest
          have hLength : cs.length = gap.length + (c :: rest).length := by
            rw [← hText, List.length_append]
          have hBlank : Text.isBlank '\n' = true := by decide
          have hLexeme := firstLexeme_append_blank ds hBlank
            (cls_ne_unclosed_of_kind hKind)
          have hLonger :
              (firstLexeme c (rest ++ '\n' :: ds)).kind (pos.after gap) =
                .ok k := by
            rw [hLexeme]
            exact hKind
          have hPlace : pos.after cs =
              ((pos.after gap).after (firstLexeme c rest).text).after
                (firstLexeme c rest).rest := by
            rw [← Position.after_append, ← Position.after_append,
              firstLexeme_append, hText]
          rw [scan_of_token pos hSplit hKind] at h
          have hBehind := scan_append_line _ (firstLexeme c rest).rest h
          rw [scan_of_token pos (splitGap_append_blank ds hBlank hSplit)
            hLonger, scan_of_token pos hSplit hKind, hLexeme, hPlace]
          dsimp only [Lexeme.before]
          rw [hBehind]
          rfl
termination_by cs.length

end Line

------------------------------------------------------------
-- Whole texts
------------------------------------------------------------

/- A line with a semicolon, whatever stands behind it. -/
theorem scans_semicolonLine
    (rest : List Char) :
    Scans ['\n', ';', '\n'] [.symbol .semicolon] rest := by
  have hSemicolon : Scans [';'] [.symbol .semicolon] ('\n' :: rest) := by
    apply scans_symbol rfl
    · intro d hd
      rcases Option.some.inj hd with rfl
      rfl
    · intro hSlash
      cases hSlash
  exact (scans_gap _ rfl).append
    (hSemicolon.append (scans_gap rest rfl))

/-
  The tokens of two texts with a semicolon on a line between
  them: those of the first one, the semicolon, and those of the
  second one further on.
-/
theorem ofSource_append
    {first : String}
    {toks : List Token}
    {p : Position}
    (h : TokenStream.ofSource first = ⟨toks, .endOfInput p⟩)
    (second : String) :
    ∃ t : Token, t.kind = .symbol .semicolon ∧
      TokenStream.ofSource (first ++ "\n;\n" ++ second) =
        let s := (TokenStream.ofSource second).mapPos
          (Position.shift (first.toList.count '\n' + 2)
            (first.utf8ByteSize + 3))
        ⟨toks ++ t :: s.tokens, s.ending⟩ := by
  have hText : (first ++ "\n;\n" ++ second).toList =
      first.toList ++ '\n' :: ([';', '\n'] ++ second.toList) := by
    rw [String.toList_append, String.toList_append, List.append_assoc]
    rfl
  have hPlace : (Position.start.after first.toList).after
      ['\n', ';', '\n'] =
        Position.start.shift (first.toList.count '\n' + 2)
          (first.utf8ByteSize + 3) := by
    have hBehind := Position.behind_line (first.toList ++ ['\n', ';'])
    rw [String.ofList_append, String.utf8ByteSize_append,
      String.ofList_toList, List.count_append] at hBehind
    rw [← Position.after_append]
    exact (Position.after_behind [] _).trans
      ((congrArg Position.behind (by simp)).trans hBehind)
  have hFirst : TokenStream.scan .start first.toList =
      ⟨toks, .endOfInput p⟩ := h
  rcases scans_semicolonLine second.toList
      (Position.start.after first.toList) with ⟨semicolons, hKinds, hLine⟩
  rcases kinds_eq_cons hKinds with ⟨t, none, rfl, hKind, hNone⟩
  rcases List.map_eq_nil_iff.mp hNone with rfl
  rw [hPlace, scan_shift] at hLine
  refine ⟨t, hKind, ?_⟩
  have hBoth := scan_append_line ([';', '\n'] ++ second.toList)
    .start first.toList (by rw [hFirst])
  rw [← hText, hFirst] at hBoth
  refine hBoth.trans ?_
  exact congrArg
    (fun s : TokenStream => TokenStream.mk (toks ++ s.tokens) s.ending)
    hLine

end DynScript
