import DynScript.Proofs.Token.Lossless
import DynScript.Proofs.Token.OrderedChoice

/-
  Every token that a lexer hands out is the longest lexeme that
  stands at its place. Names are never keywords, and keywords
  are never the beginning of a longer word. A string is without
  an end exactly where no later mark closes it, and nothing that
  the grammar takes from a text is malformed.

  Key definitions include:
    * `LongestLexeme`

  Main statements include:
    * `longestLexeme_of_kind`
    * `firstLexeme_of_scan`
    * `unterminated_iff`
    * `maximal_munch`
-/

namespace DynScript

------------------------------------------------------------
-- One token
------------------------------------------------------------

/- A lexeme in front of a text that no longer lexeme reaches into. -/
def LongestLexeme
    (text rest : List Char) : Prop :=
  IsLexeme text ∧
    ∀ other, IsLexeme other → other <+: text ++ rest →
      other.length ≤ text.length

section Token

variable {c : Char}
variable {cs : List Char}
variable {pos : Position}
variable {k : TokenKind}

theorem known_of_kind
    {l : Lexeme}
    (h : l.kind pos = .ok k) :
    l.cls.Known := by
  unfold Lexeme.kind at h
  cases hClass : l.cls with
  | unclosed =>
      rw [hClass] at h
      cases h
  | unknown =>
      rw [hClass] at h
      cases h
  | float | int | str | word | symbol => exact trivial

/- A token is the longest lexeme that its text begins with. -/
theorem longestLexeme_of_kind
    (h : (firstLexeme c cs).kind pos = .ok k) :
    LongestLexeme (firstLexeme c cs).text (firstLexeme c cs).rest := by
  refine ⟨⟨_, ofClass_firstLexeme (known_of_kind h)⟩, ?_⟩
  rintro other ⟨cls, hClass⟩ hPrefix
  rw [firstLexeme_append] at hPrefix
  rcases hPrefix with ⟨more, hText⟩
  exact (firstLexeme_longest hClass hText.symm).takes.length_le

theorem OfClass.not_keyword
    {s : Symbol}
    {text : List Char}
    (h : OfClass (.symbol s) text) :
    s ∉ Symbol.keywords := by
  cases h with
  | symbol hNot => exact hNot

/- A keyword is found as a word. -/
theorem isWord_of_keyword
    {s : Symbol}
    (hKeyword : s ∈ Symbol.keywords)
    (h : (firstLexeme c cs).kind pos = .ok (.symbol s)) :
    IsWord (firstLexeme c cs).text := by
  have hClass := ofClass_firstLexeme (known_of_kind h)
  unfold Lexeme.kind at h
  dsimp only at h
  split at h
  · split at h <;> cases h
  · split at h <;> cases h
  · split at h <;> cases h
  · cases h
  · next hWord =>
    rw [hWord] at hClass
    cases hClass with
    | word hText => exact hText
  · next hSymbol =>
    cases h
    rw [hSymbol] at hClass
    exact absurd hKeyword hClass.not_keyword
  · cases h

/- One more character makes a longer word. -/
theorem IsWord.concat
    {w : List Char}
    {d : Char}
    (hWord : IsWord w)
    (hChar : isWordChar d = true) :
    IsWord (w ++ [d]) := by
  cases w with
  | nil => exact absurd hWord id
  | cons c cs =>
      refine ⟨hWord.1, ?_⟩
      simp [hWord.2, hChar]

/- A word that is the longest lexeme is not part of a longer word. -/
theorem LongestLexeme.not_wordChar
    {text rest : List Char}
    (hLongest : LongestLexeme text rest)
    (hWord : IsWord text) :
    ∀ d ∈ rest.head?, isWordChar d = false := by
  intro d hd
  apply Bool.eq_false_iff.mpr
  intro hChar
  have hPrefix : text ++ [d] <+: text ++ rest := by
    rw [List.prefix_append_right_inj]
    rcases List.head?_eq_some_iff.mp hd with ⟨more, rfl⟩
    exact ⟨more, rfl⟩
  have hLength :=
    hLongest.2 _ ⟨_, .word (hWord.concat hChar)⟩ hPrefix
  rw [List.length_append, List.length_singleton] at hLength
  omega

theorem OfClass.ne_unfinished
    {body text : List Char}
    (h : OfClass (.str body) text) :
    unescape body ≠ .error .unfinished := by
  cases h with
  | str hMark hBody => exact unescape_ne_unfinished hBody

/- A string without an end is one that no mark closes. -/
theorem unterminated_iff
    {mark : Char}
    (hMark : IsMark mark) :
    (firstLexeme mark cs).kind pos = .error (.unterminatedString pos) ↔
      closeQuote? mark cs = none := by
  rw [firstLexeme_of_isMark hMark, stringLexeme]
  cases hClose : closeQuote? mark cs with
  | none => exact ⟨fun _ => rfl, fun _ => rfl⟩
  | some p =>
      rcases p with ⟨body, rest⟩
      have hBody :=
        unescape_ne_unfinished (stringBody_of_closeQuote? hClose)
      simp only [Lexeme.kind]
      cases hValue : unescape body with
      | ok value => simp
      | error e =>
          cases e with
          | unknown d => simp
          | unfinished => exact absurd hValue hBody

end Token

------------------------------------------------------------
-- All tokens
------------------------------------------------------------

/-
  Each token of a text is the first lexeme behind its place. By
  induction on the scan, with what stands before the text.
-/
theorem firstLexeme_of_scan
    (pos : Position)
    (cs : List Char) :
    ∀ before, pos = .behind before →
      ∀ t ∈ (TokenStream.scan pos cs).tokens, ∃ front c rest,
        before ++ cs = front ++ c :: rest ∧
        t.pos = .behind front ∧
        t.text.toList = (firstLexeme c rest).text ∧
        (firstLexeme c rest).kind t.pos = .ok t.kind := by
  fun_induction TokenStream.scan pos cs with
  | case1 => simp
  | case2 => simp
  | case3 pos cs gap c rest hGap start l k hKind s ih =>
      intro before hPos t hMem
      have hText : gap ++ c :: rest = cs := by
        have hAppend := splitGap_append false cs
        rw [hGap] at hAppend
        exact hAppend
      have hStart : start = .behind (before ++ gap) := by
        rw [← Position.after_behind, ← hPos]
      rcases List.mem_cons.mp hMem with rfl | hLater
      · refine ⟨before ++ gap, c, rest, ?_, hStart, ?_, hKind⟩
        · rw [← hText, List.append_assoc]
        · exact String.toList_ofList
      · have hNext : start.after l.text =
            .behind (before ++ gap ++ l.text) := by
          rw [hStart, Position.after_behind]
        rcases ih _ hNext t hLater with ⟨front, d, more, hPlace, hToken⟩
        refine ⟨front, d, more, ?_, hToken⟩
        rw [← hPlace, ← hText, List.append_assoc, List.append_assoc,
          firstLexeme_append]

/- What a lexer answers with is a token of its text. -/
theorem Lexer.mem_scan_of_answer
    {source : String}
    {n : Nat}
    {t : Token}
    (h : some (.token t) ∈ (ofSource source).answers n) :
    t ∈ (TokenStream.ofSource source).tokens := by
  have hHands := handsOut_scan .start source.toList n
  rw [ofSource, hHands] at h
  rcases List.mem_map.mp h with ⟨i, _, hItem⟩
  have hMem := List.mem_of_getElem? hItem
  rcases List.mem_append.mp hMem with hToken | hLast
  · rcases List.mem_map.mp hToken with ⟨u, hu, hEq⟩
    rcases Item.token.inj hEq with rfl
    exact hu
  · cases List.mem_singleton.mp hLast

/- A lexer that reaches a lexeme hands out its token or its fault. -/
theorem Lexer.next_eq_failed_iff
    {l : Lexer}
    {gap rest : List Char}
    {c : Char}
    {e : LexError}
    (hDone : l.done = false)
    (hGap : splitGap false l.rest = (gap, c :: rest)) :
    l.next.1 = some (.last (.failed e)) ↔
      (firstLexeme c rest).kind (l.pos.after gap) = .error e := by
  unfold next
  rw [hDone, if_neg Bool.false_ne_true, hGap]
  dsimp only
  cases (firstLexeme c rest).kind (l.pos.after gap) <;> simp

------------------------------------------------------------
-- Whole sources
------------------------------------------------------------

/-
  Each token of a source is the longest lexeme from its place
  on, a name is not a keyword, and no part of a word is one. A
  lexer that reaches a quote mark reports that the string has no
  end exactly if there is no later mark that is not escaped, so
  that no body of a string ends within an escape sequence. The
  rules of the grammar take the first lexeme of every text and
  give it the value that it has, so nothing is malformed.
-/
theorem maximal_munch
    (source : String) :
    (∀ n t, some (.token t) ∈ (Lexer.ofSource source).answers n →
      ∃ before rest,
        source.toList = before ++ (t.text.toList ++ rest) ∧
        t.pos = .behind before ∧
        LongestLexeme t.text.toList rest ∧
        (∀ name, t.kind = .ident name →
          ∀ s ∈ Symbol.keywords, s.text ≠ name) ∧
        (∀ s ∈ Symbol.keywords, t.kind = .symbol s →
          ∀ c ∈ rest.head?, isWordChar c = false)) ∧
    (∀ (l : Lexer) gap mark cs, l.done = false →
      splitGap false l.rest = (gap, mark :: cs) → IsMark mark →
      (l.next.1 = some (.last (.failed
          (.unterminatedString (l.pos.after gap)))) ↔
        ∀ body rest, cs = body ++ mark :: rest → ¬ EscapesPaired body)) ∧
    (∀ c cs body, (firstLexeme c cs).cls = .str body →
      unescape body ≠ .error .unfinished) ∧
    ∀ c cs, ∃ r : Grammar.TokenRule,
      r.Finds (c :: cs) (firstLexeme c cs) ∧
      ∀ pos reason place, r.value (firstLexeme c cs).text pos ≠
        .error (.malformed reason place) := by
  refine ⟨?_, ?_, ?_, ?_⟩
  · intro n t hAnswer
    rcases firstLexeme_of_scan .start source.toList [] rfl t
        (Lexer.mem_scan_of_answer hAnswer) with
      ⟨front, c, rest, hSource, hPos, hText, hKind⟩
    have hLongest := longestLexeme_of_kind hKind
    refine ⟨front, (firstLexeme c rest).rest, ?_, hPos, hText ▸ hLongest,
      ?_, ?_⟩
    · rw [hText, firstLexeme_append]
      exact hSource
    · intro name hName
      rw [hName] at hKind
      have hIsName : IsName name := writable_of_kind hKind
      exact hIsName.2
    · intro s hs hSymbol
      rw [hSymbol] at hKind
      exact hLongest.not_wordChar (isWord_of_keyword hs hKind)
  · intro l gap mark cs hDone hGap hMark
    rw [Lexer.next_eq_failed_iff hDone hGap, unterminated_iff hMark]
    exact closeQuote?_eq_none_iff hMark.ne_backslash
  · intro c cs body hClass
    have hBody := @ofClass_firstLexeme c cs
    rw [hClass] at hBody
    exact (hBody trivial).ne_unfinished
  · intro c cs
    rcases Grammar.exists_finds_firstLexeme c cs with ⟨r, hFinds⟩
    refine ⟨r, hFinds, fun pos reason place hValue => ?_⟩
    rw [hFinds.value] at hValue
    cases hKind : (firstLexeme c cs).kind pos with
    | ok k =>
        rw [hKind] at hValue
        cases hValue
    | error e =>
        rw [hKind] at hValue
        cases hValue

/-
  The keyword is the second word, not the beginning of the
  first one. The mark in the string is escaped, and there is no
  other.
-/
theorem longest_words :
    let source := "iffy if('it\\'s"
    (∃ before rest,
      source.toList = before ++ ("if".toList ++ rest) ∧
      Position.mk 1 6 5 = .behind before ∧
      LongestLexeme "if".toList rest ∧
      ∀ c ∈ rest.head?, isWordChar c = false) ∧
    some (.last (.failed (.unterminatedString ⟨1, 9, 8⟩))) ∈
      (Lexer.ofSource source).answers 4 ∧
    ¬ EscapesPaired "it\\".toList := by
  intro source
  have hMunch := maximal_munch source
  rcases hMunch.1 2 ⟨.symbol .kwIf, "if", ⟨1, 6, 5⟩⟩ (by decide) with
    ⟨before, rest, hSource, hPos, hLongest, _, hBehind⟩
  refine ⟨⟨before, rest, hSource, hPos, hLongest, ?_⟩, by decide, ?_⟩
  · exact hBehind .kwIf (by decide) rfl
  · have hString := hMunch.2.1 ⟨⟨1, 9, 8⟩, "'it\\'s".toList, false⟩ []
      '\'' _ rfl rfl (.inr rfl)
    exact hString.mp (by decide) _ _ rfl

end DynScript
