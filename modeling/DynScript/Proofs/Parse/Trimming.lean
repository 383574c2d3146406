import Mathlib.Data.List.DropRight
import DynScript.Proofs.Parse.Concatenation

/-
  Blanks around a program. The white space of a trimmed text
  is wider than the one that may stand between tokens, and the
  end of a text may be inside a comment; but a text that is
  scanned without a fault has the same tokens when the blanks
  on both ends are taken away, and is the same program.

  Key definitions include:
    * `TokenStream.unplaced`

  Main statements include:
    * `scan_dropWhile_blank`
    * `scan_of_append_blanks`
    * `scan_trimChars`
    * `parse_trim`
-/

namespace DynScript

------------------------------------------------------------
-- Blanks in front
------------------------------------------------------------

/- No lexeme that is a token begins with a blank. -/
theorem cls_of_isBlank
    {c : Char}
    (hBlank : Text.isBlank c = true)
    (cs : List Char) :
    (firstLexeme c cs).cls = .unknown := by
  have hNot : ∀ {d : Char}, Text.isBlank d = false → c ≠ d :=
    ne_of_isBlank hBlank
  have hQuote : (c = '"' || c = '\'') = false := by
    simp [hNot (d := '"') (by decide), hNot (d := '\'') (by decide)]
  have hWord : isWordStart c = false := by
    have hChar := isWordChar_of_isBlank hBlank
    simp only [isWordChar, Char.isAlphanum, Bool.or_eq_false_iff] at hChar
    rw [isWordStart, hChar.1.1, hChar.2]
    rfl
  have hOne : oneCharSymbol? c = none := by
    unfold oneCharSymbol?
    split
    all_goals first
      | rfl
      | exact absurd rfl (hNot (by decide))
  have hTwo : ∀ d, twoCharSymbol? c d = none := by
    intro d
    unfold twoCharSymbol?
    split
    all_goals first
      | rfl
      | exact absurd rfl (hNot (by decide))
  unfold firstLexeme
  rw [isDigit_of_isBlank hBlank, hQuote, hWord]
  cases cs with
  | nil => simp [symbolLexeme, oneCharLexeme, hOne]
  | cons d cs => simp [symbolLexeme, oneCharLexeme, hOne, hTwo]

/- A blank where a lexeme should begin is a fault. -/
theorem kind_of_isBlank
    {c : Char}
    (hBlank : Text.isBlank c = true)
    (cs : List Char)
    (pos : Position) :
    ∃ e, (firstLexeme c cs).kind pos = .error e := by
  rw [Lexeme.kind, cls_of_isBlank hBlank]
  exact ⟨_, rfl⟩

/- A blank in front of a text without faults is skipped. -/
theorem scan_blank
    {c : Char}
    {cs : List Char}
    {pos p : Position}
    (hBlank : Text.isBlank c = true)
    (h : (TokenStream.scan pos (c :: cs)).ending = .endOfInput p) :
    TokenStream.scan pos (c :: cs) =
      TokenStream.scan (pos.advance c) cs := by
  cases hGap : isGapChar c with
  | true => exact scan_skip [c] pos (splitGap_blank cs hGap) rfl
  | false =>
      have hSplit : splitGap false (c :: cs) = ([], c :: cs) := by
        apply splitGap_lexeme hGap
        intro hSlash
        exact absurd hSlash (ne_of_isBlank hBlank (by decide))
      rcases kind_of_isBlank hBlank cs pos with ⟨e, hKind⟩
      rw [scan_of_fault pos hSplit hKind] at h
      cases h

/- All blanks in front of a text without faults are skipped. -/
theorem scan_dropWhile_blank
    {cs : List Char}
    {pos p : Position}
    (h : (TokenStream.scan pos cs).ending = .endOfInput p) :
    TokenStream.scan pos cs =
      TokenStream.scan (pos.after (cs.takeWhile Text.isBlank))
        (cs.dropWhile Text.isBlank) := by
  induction cs generalizing pos with
  | nil => rfl
  | cons c cs ih =>
      by_cases hBlank : Text.isBlank c = true
      · have hSkip := scan_blank hBlank h
        rw [hSkip] at h
        rw [List.takeWhile_cons_of_pos hBlank,
          List.dropWhile_cons_of_pos hBlank, hSkip]
        exact ih h
      · rw [List.takeWhile_cons_of_neg hBlank,
          List.dropWhile_cons_of_neg hBlank]
        rfl

------------------------------------------------------------
-- Blanks behind
------------------------------------------------------------

section Behind

variable {cs ds gap rest : List Char}

/- Behind a text that is all gap, the gap goes on or ends. -/
theorem splitGap_suffix_of_end
    {inComment : Bool}
    (h : splitGap inComment cs = (gap, [])) :
    (splitGap inComment (cs ++ ds)).2 <:+ ds := by
  fun_induction splitGap inComment cs generalizing gap with
  | case1 inComment => exact ⟨_, splitGap_append inComment ds⟩
  | case2 d cs gap' rest' hSplit ih =>
      cases h
      rw [List.cons_append, splitGap]
      exact ih hSplit
  | case3 cs gap' rest' hSplit ih =>
      cases h
      rw [List.cons_append, List.cons_append, splitGap]
      exact ih hSplit
  | case4 d cs hComment hGap gap' rest' hSplit ih =>
      cases h
      rw [List.cons_append, splitGap_blank _ hGap]
      exact ih hSplit
  | case5 d cs hComment hGap => cases h

/- A string that is left open stays so until its mark comes. -/
theorem closeQuote?_append_of_none
    {mark : Char}
    (h : closeQuote? mark cs = none)
    (hMark : mark ∉ ds) :
    closeQuote? mark (cs ++ ds) = none := by
  have hNever :
      ∀ {es : List Char}, mark ∉ es → closeQuote? mark es = none := by
    intro es hNot
    cases hClose : closeQuote? mark es with
    | none => rfl
    | some p =>
        have hText := closeQuote?_append hClose
        exact absurd (hText ▸ List.mem_append_right _ List.mem_cons_self)
          hNot
  fun_induction closeQuote? mark cs with
  | case1 => exact hNever hMark
  | case2 =>
      cases ds with
      | nil => rfl
      | cons d ds =>
          rw [List.singleton_append, closeQuote?,
            hNever fun hMem => hMark (List.mem_cons_of_mem d hMem)]
          rfl
  | case3 c cs ih =>
      rw [List.cons_append, List.cons_append, closeQuote?,
        ih (Option.map_eq_none_iff.mp h)]
      rfl
  | case4 cs hLast hEscape => cases h
  | case5 c cs hLast hEscape hOther ih =>
      rw [List.cons_append,
        closeQuote?_cons _ (ne_backslash hLast hEscape),
        if_neg hOther, ih (Option.map_eq_none_iff.mp h)]
      rfl

/- A lexeme that is left open is a string without its mark. -/
theorem unclosed_iff
    {c : Char} :
    (firstLexeme c cs).cls = .unclosed ↔
      (c = '"' ∨ c = '\'') ∧ closeQuote? c cs = none := by
  have hNumber : ∀ es, (numberLexeme es).cls ≠ .unclosed := by
    intro es
    unfold numberLexeme
    split
    · split <;> simp
    · simp
  have hOne : ∀ es, (oneCharLexeme c es).cls ≠ .unclosed := by
    intro es
    unfold oneCharLexeme
    split <;> simp
  have hSymbol : (symbolLexeme c cs).cls ≠ .unclosed := by
    unfold symbolLexeme
    split
    · exact hOne _
    · split
      · simp
      · exact hOne _
  by_cases hQuote : c = '"' ∨ c = '\''
  · have hLexeme : firstLexeme c cs = stringLexeme c cs := by
      rcases hQuote with rfl | rfl <;> rfl
    rw [hLexeme, stringLexeme]
    cases hClose : closeQuote? c cs with
    | none => simp [hQuote]
    | some p => simp
  · have hOther : (firstLexeme c cs).cls ≠ .unclosed := by
      unfold firstLexeme
      split
      · exact hNumber _
      · simp only [hQuote, Bool.or_eq_true, decide_eq_true_eq, if_false]
        split
        · simp
        · exact hSymbol
    simp [hOther, hQuote]

/- A lexeme that is left open stays so before blanks. -/
theorem unclosed_append_blanks
    {c : Char}
    (h : (firstLexeme c cs).cls = .unclosed)
    (hBlanks : ∀ d ∈ ds, Text.isBlank d = true) :
    (firstLexeme c (cs ++ ds)).cls = .unclosed := by
  rcases unclosed_iff.mp h with ⟨hQuote, hOpen⟩
  refine unclosed_iff.mpr ⟨hQuote, closeQuote?_append_of_none hOpen ?_⟩
  intro hMem
  have hBlank := hBlanks c hMem
  rcases hQuote with rfl | rfl
  · exact absurd hBlank (by decide)
  · exact absurd hBlank (by decide)

/-
  If a text with blanks behind it has no faults, the text has
  none either, and the same tokens. By recursion on the text:
  a lexeme ends before a blank, and what is left of the blanks
  behind the last one is the end of the gap.
-/
theorem scan_of_append_blanks
    {p : Position}
    (pos : Position)
    (cs : List Char)
    (hBlanks : ∀ d ∈ ds, Text.isBlank d = true)
    (h : (TokenStream.scan pos (cs ++ ds)).ending = .endOfInput p) :
    ∃ q, TokenStream.scan pos cs =
      ⟨(TokenStream.scan pos (cs ++ ds)).tokens, .endOfInput q⟩ := by
  rcases hSplit : splitGap false cs with ⟨gap, rest⟩
  have hText : gap ++ rest = cs := by
    have hAppend := splitGap_append false cs
    rw [hSplit] at hAppend
    exact hAppend
  cases rest with
  | nil =>
      rcases hLonger : splitGap false (cs ++ ds) with ⟨gap', rest'⟩
      have hSuffix : rest' <:+ ds := by
        have hEnd : (splitGap false (cs ++ ds)).2 <:+ ds :=
          splitGap_suffix_of_end hSplit
        rw [hLonger] at hEnd
        exact hEnd
      cases rest' with
      | nil =>
          rw [scan_of_end pos hLonger, scan_of_end pos hSplit]
          exact ⟨_, rfl⟩
      | cons d rest' =>
          have hBlank := hBlanks d (hSuffix.subset List.mem_cons_self)
          rcases kind_of_isBlank hBlank rest' (pos.after gap') with
            ⟨e, hKind⟩
          rw [scan_of_fault pos hLonger hKind] at h
          cases h
  | cons c rest =>
      cases hDs : ds with
      | nil =>
          rw [hDs, List.append_nil] at h
          rw [List.append_nil]
          exact ⟨p, congrArg (TokenStream.mk _) h⟩
      | cons d more =>
          have hBlank := hBlanks d (hDs ▸ List.mem_cons_self)
          have hLonger := splitGap_append_blank more hBlank hSplit
          rw [← hDs] at hLonger ⊢
          cases hKind :
            (firstLexeme c (rest ++ ds)).kind (pos.after gap) with
          | error e =>
              rw [scan_of_fault pos hLonger hKind] at h
              cases h
          | ok k =>
              have hClosed : (firstLexeme c rest).cls ≠ .unclosed :=
                fun hOpen => cls_ne_unclosed_of_kind hKind
                  (unclosed_append_blanks hOpen hBlanks)
              have hLexeme : firstLexeme c (rest ++ ds) =
                  (firstLexeme c rest).before ds := by
                rw [hDs]
                exact firstLexeme_append_blank more hBlank hClosed
              have hShort : (firstLexeme c rest).kind (pos.after gap) =
                  .ok k := by
                rw [hLexeme] at hKind
                exact hKind
              have hShorter := length_rest_firstLexeme c rest
              have hLength :
                  cs.length = gap.length + (c :: rest).length := by
                rw [← hText, List.length_append]
              rw [scan_of_token pos hLonger hKind, hLexeme] at h
              rcases scan_of_append_blanks _ (firstLexeme c rest).rest
                hBlanks h with ⟨q, hRest⟩
              rw [scan_of_token pos hSplit hShort,
                scan_of_token pos hLonger hKind, hLexeme]
              exact ⟨q, congrArg (fun s : TokenStream =>
                TokenStream.mk (_ :: s.tokens) s.ending) hRest⟩
termination_by cs.length

end Behind

/- A text without faults has the same tokens without its outer blanks. -/
theorem scan_trimChars
    {cs : List Char}
    {pos p : Position}
    (h : (TokenStream.scan pos cs).ending = .endOfInput p) :
    ∃ q, TokenStream.scan (pos.after (cs.takeWhile Text.isBlank))
        (Text.trimChars cs) =
      ⟨(TokenStream.scan pos cs).tokens, .endOfInput q⟩ := by
  have hText : Text.trimChars cs ++
      (cs.dropWhile Text.isBlank).rtakeWhile Text.isBlank =
        cs.dropWhile Text.isBlank :=
    List.rdropWhile_append_rtakeWhile
  have hFront := scan_dropWhile_blank h
  rw [hFront, ← hText] at h
  rw [hFront, ← hText]
  exact scan_of_append_blanks _ _
    (fun d hd => List.mem_rtakeWhile_imp hd) h

------------------------------------------------------------
-- Programs
------------------------------------------------------------

/- Tokens and their end without their places. -/
def TokenStream.unplaced
    (s : TokenStream) : TokenStream :=
  s.mapPos fun _ => .start

/- A lexeme is the same token wherever it stands, or none anywhere. -/
theorem kind_unplaced
    (l : Lexeme)
    (pos pos' : Position) :
    (l.kind pos).mapError (LexError.mapPos fun _ => .start) =
      (l.kind pos').mapError (LexError.mapPos fun _ => .start) := by
  have hStart : ∀ pos, l.kind .start =
      (l.kind pos).mapError (LexError.mapPos fun _ => .start) := by
    intro pos
    rw [kind_mapPos (fun _ => .start) l pos]
    cases l.kind pos <;> rfl
  rw [← hStart pos, hStart pos']

/- Where a text begins changes nothing but the places. -/
theorem scan_unplaced
    (pos pos' : Position)
    (cs : List Char) :
    (TokenStream.scan pos cs).unplaced =
      (TokenStream.scan pos' cs).unplaced := by
  rcases hSplit : splitGap false cs with ⟨gap, rest⟩
  cases rest with
  | nil =>
      rw [scan_of_end pos hSplit, scan_of_end pos' hSplit]
      rfl
  | cons c rest =>
      have hSame := kind_unplaced (firstLexeme c rest)
        (pos.after gap) (pos'.after gap)
      rcases hKind :
        (firstLexeme c rest).kind (pos.after gap) with e | k <;>
        rcases hKind' : (firstLexeme c rest).kind (pos'.after gap) with
          e' | k' <;>
        rw [hKind, hKind'] at hSame
      · rw [scan_of_fault pos hSplit hKind,
          scan_of_fault pos' hSplit hKind']
        exact congrArg (fun e => TokenStream.mk [] (.failed e))
          (Except.error.inj hSame)
      · cases hSame
      · cases hSame
      · rcases Except.ok.inj hSame with rfl
        have hLength := length_splitGap_snd false cs
        rw [hSplit] at hLength
        have hShorter : (firstLexeme c rest).rest.length < cs.length :=
          Nat.lt_of_lt_of_le (length_rest_firstLexeme c rest) hLength
        rw [scan_of_token pos hSplit hKind,
          scan_of_token pos' hSplit hKind']
        exact congrArg
          (fun s : TokenStream => TokenStream.mk
            (⟨k, String.ofList (firstLexeme c rest).text, .start⟩ ::
              s.tokens) s.ending)
          (scan_unplaced _ _ (firstLexeme c rest).rest)
termination_by cs.length

/- The program of tokens does not depend on their places. -/
theorem Parse.statements_of_unplaced
    {limit : Option Nat}
    {s t : TokenStream}
    {b : Block}
    (hSame : s.unplaced = t.unplaced)
    (h : statements limit s.ending s.tokens = .ok b) :
    statements limit t.ending t.tokens = .ok b := by
  have hCarried : ∀ s : TokenStream,
      Carried (fun _ => .start) [] id (statements limit s.ending s.tokens)
        (statements limit (s.ending.mapPos fun _ => .start)
          (carry (fun _ => .start) [] s.tokens)) :=
    fun s => carried_statements (fun _ => .start) s.tokens
  have hFirst := hCarried s
  have hSecond := hCarried t
  have hTokens : carry (fun _ => .start) [] s.tokens =
      carry (fun _ => .start) [] t.tokens :=
    congrArg (fun s : TokenStream => s.tokens ++ []) hSame
  have hEnding : s.ending.mapPos (fun _ => .start) =
      t.ending.mapPos fun _ => .start :=
    congrArg TokenStream.ending hSame
  have hMoved := hFirst.ok b h
  rw [hTokens, hEnding] at hMoved
  cases hOther : statements limit t.ending t.tokens with
  | ok b' =>
      rw [hSecond.ok b' hOther] at hMoved
      exact hMoved
  | error e =>
      rw [hSecond.fault e hOther rfl] at hMoved
      cases hMoved

/- A program is the same program without its outer blanks. -/
theorem parse_trim
    {text : String}
    {b : Block}
    (h : parse text = .ok b) :
    parse (Text.trim text) = .ok b := by
  rcases tokenize_of_look (Parse.look_of_statements h) with ⟨p, hTokens⟩
  have hEnd := (tokenize_eq_ok.mp hTokens).2
  rcases scan_trimChars hEnd with ⟨q, hTrim⟩
  have hSame : (TokenStream.ofSource text).unplaced =
      (TokenStream.ofSource (Text.trim text)).unplaced := by
    calc (TokenStream.ofSource text).unplaced
        = (TokenStream.scan _ (Text.trimChars text.toList)).unplaced := by
          rw [hTrim, TokenStream.unplaced, TokenStream.unplaced,
            TokenStream.mapPos, hEnd]
          rfl
      _ = (TokenStream.ofSource (Text.trim text)).unplaced := by
          rw [TokenStream.ofSource, Text.trim, String.toList_ofList]
          exact scan_unplaced _ _ _
  exact Parse.statements_of_unplaced hSame h

end DynScript
