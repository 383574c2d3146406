import DynScript.Proofs.Token.Scanning
import DynScript.Token.Lexer

/-
  Nothing of a source text is lost, and every place is right.
  A text is made up of the texts of its tokens, with gaps of
  white space and comments between them; each token, the first
  fault and the end of the input are placed where the lines,
  columns and bytes before them say.

  Key definitions include:
    * `Position.behind`
    * `Gap`
    * `LaidOut`
    * `Lexer.HandsOut`

  Main statements include:
    * `Position.after_behind`
    * `gap_splitGap`
    * `laidOut_scan`
    * `Lexer.handsOut_scan`
    * `lexing_is_lossless`
-/

namespace DynScript

------------------------------------------------------------
-- Places
------------------------------------------------------------

/-
  The place behind a text: its line feeds count lines, the code
  points behind the last one count columns, and its bytes in
  UTF-8 are the offset.
-/
def Position.behind
    (text : List Char) : Position where
  line := 1 + text.count '\n'
  column := 1 + (text.reverse.takeWhile (· ≠ '\n')).length
  offset := (String.ofList text).utf8ByteSize

/- One more character behind a text. -/
theorem Position.advance_behind
    (text : List Char)
    (c : Char) :
    (behind text).advance c = behind (text ++ [c]) := by
  have hOffset : (String.ofList (text ++ [c])).utf8ByteSize =
      (String.ofList text).utf8ByteSize + c.utf8Size := by
    rw [String.ofList_append, String.utf8ByteSize_append]
    simp
  unfold advance behind
  rw [hOffset, List.count_append, List.reverse_append]
  by_cases hLine : c = '\n'
  · subst hLine
    rfl
  · simp [hLine, Nat.add_assoc]

theorem Position.after_behind
    (text more : List Char) :
    (behind text).after more = behind (text ++ more) := by
  induction more generalizing text with
  | nil => rw [after_nil, List.append_nil]
  | cons c more ih =>
      rw [after_cons, advance_behind, ih, List.append_assoc]
      rfl

------------------------------------------------------------
-- Gaps
------------------------------------------------------------

/-
  A text of white space and comments that stands before `rest`.
  A comment runs up to the next line feed, which is not part of
  it, or to the end of the source.
-/
inductive Gap
    (rest : List Char) : List Char → Prop where
  | nil :
      Gap rest []
  | blank {c : Char} {gap : List Char}
      (hBlank : c ∈ [' ', '\t', '\r', '\n'])
      (hGap : Gap rest gap) :
      Gap rest (c :: gap)
  | comment {body gap : List Char}
      (hBody : '\n' ∉ body)
      (hEnd : ∀ c ∈ (gap ++ rest).head?, c = '\n')
      (hGap : Gap rest gap) :
      Gap rest ('/' :: '/' :: (body ++ gap))

/- The end of a comment and the gap behind it. -/
def CommentEnd
    (rest gap : List Char) : Prop :=
  ∃ body behind, gap = body ++ behind ∧ '\n' ∉ body ∧
    (∀ c ∈ (behind ++ rest).head?, c = '\n') ∧ Gap rest behind

/- A character of a comment before its end. -/
theorem CommentEnd.cons
    {rest gap : List Char}
    {c : Char}
    (hLine : c ≠ '\n')
    (h : CommentEnd rest gap) :
    CommentEnd rest (c :: gap) := by
  rcases h with ⟨body, behind, rfl, hBody, hEnd, hGap⟩
  refine ⟨c :: body, behind, rfl, ?_, hEnd, hGap⟩
  exact List.not_mem_cons_of_ne_of_not_mem hLine.symm hBody

/- The line feed that a comment ends before. -/
theorem Gap.commentEnd
    {rest gap : List Char}
    (h : Gap rest gap) :
    CommentEnd rest ('\n' :: gap) := by
  refine ⟨[], '\n' :: gap, rfl, List.not_mem_nil, ?_, .blank ?_ h⟩
  · intro c hc
    exact (Option.some.inj hc).symm
  · decide

/-
  What is cut off in front of a text is a gap; inside of a
  comment it begins with the end of the comment.
-/
theorem gap_splitGap
    (inComment : Bool)
    (cs : List Char) :
    if inComment then
      CommentEnd (splitGap inComment cs).2 (splitGap inComment cs).1
    else
      Gap (splitGap inComment cs).2 (splitGap inComment cs).1 := by
  fun_induction splitGap inComment cs with
  | case1 inComment =>
      cases inComment with
      | false => exact .nil
      | true =>
          refine ⟨[], [], rfl, List.not_mem_nil, ?_, .nil⟩
          intro c hc
          cases hc
  | case2 c cs gap rest hSplit ih =>
      rw [hSplit] at ih
      by_cases hLine : c = '\n'
      · subst hLine
        exact Gap.commentEnd ih
      · rw [if_pos (bne_iff_ne.mpr hLine)] at ih
        exact ih.cons hLine
  | case3 cs gap rest hSplit ih =>
      rw [hSplit] at ih
      rcases ih with ⟨body, behind, rfl, hBody, hEnd, hGap⟩
      exact .comment hBody hEnd hGap
  | case4 c cs _ hBlank gap rest hSplit ih =>
      rw [hSplit] at ih
      refine .blank ?_ ih
      simpa using isGapChar_iff.mp hBlank
  | case5 c cs _ hBlank => exact .nil

theorem gap_of_splitGap
    {cs gap rest : List Char}
    (h : splitGap false cs = (gap, rest)) :
    Gap rest gap := by
  have hGap := gap_splitGap false cs
  rw [h] at hGap
  exact hGap

------------------------------------------------------------
-- Tokens between gaps
------------------------------------------------------------

/-
  How the text behind `before` is laid out: a gap, a token, a
  gap, a token and so on, up to a last gap with which the text
  is over or behind which the fault begins. All of them stand
  where they say.
-/
inductive LaidOut :
    (before text : List Char) → List Token → Ending → Prop where
  | endOfInput {before gap : List Char}
      (hGap : Gap [] gap) :
      LaidOut before gap []
        (.endOfInput (.behind (before ++ gap)))
  | failed {before gap rest : List Char} {e : LexError}
      (hGap : Gap rest gap)
      (hRest : rest ≠ [])
      (hPos : e.pos = .behind (before ++ gap)) :
      LaidOut before (gap ++ rest) [] (.failed e)
  | token {before gap rest : List Char} {t : Token}
      {toks : List Token} {ending : Ending}
      (hGap : Gap (t.text.toList ++ rest) gap)
      (hPos : t.pos = .behind (before ++ gap))
      (hRest :
        LaidOut (before ++ gap ++ t.text.toList) rest toks ending) :
      LaidOut before (gap ++ t.text.toList ++ rest) (t :: toks) ending

/- A fault is placed where its lexeme begins. -/
theorem pos_of_kind_error
    {l : Lexeme}
    {pos : Position}
    {e : LexError}
    (h : l.kind pos = .error e) :
    e.pos = pos := by
  unfold Lexeme.kind at h
  dsimp only at h
  split at h
  · split at h
    · cases h
    · rcases Except.error.inj h with rfl
      rfl
  · split at h
    · cases h
    · rcases Except.error.inj h with rfl
      rfl
  · split at h
    · cases h
    · rcases Except.error.inj h with rfl
      rfl
    · rcases Except.error.inj h with rfl
      rfl
  · rcases Except.error.inj h with rfl
    rfl
  · split at h
    · cases h
    · cases h
  · cases h
  · rcases Except.error.inj h with rfl
    rfl

/- A lexeme behind a gap is laid out as a token. -/
theorem LaidOut.lexeme
    {before gap text rest : List Char}
    {toks : List Token}
    {ending : Ending}
    (k : TokenKind)
    (hGap : Gap (text ++ rest) gap)
    (hRest : LaidOut (before ++ gap ++ text) rest toks ending) :
    LaidOut before (gap ++ text ++ rest)
      (⟨k, String.ofList text, .behind (before ++ gap)⟩ :: toks)
      ending := by
  have hText : (String.ofList text).toList = text :=
    String.toList_ofList
  have hToken := @LaidOut.token before gap rest
    ⟨k, String.ofList text, .behind (before ++ gap)⟩ toks ending
  dsimp only at hToken
  rw [hText] at hToken
  exact hToken hGap rfl hRest

/- Scanning finds tokens that are laid out in the text. -/
theorem laidOut_scan
    (before cs : List Char) :
    LaidOut before cs
      (TokenStream.scan (.behind before) cs).tokens
      (TokenStream.scan (.behind before) cs).ending := by
  rcases hSplit : splitGap false cs with ⟨gap, rest⟩
  have hGap := gap_of_splitGap hSplit
  have hText : gap ++ rest = cs := by
    have hAppend := splitGap_append false cs
    rw [hSplit] at hAppend
    exact hAppend
  cases rest with
  | nil =>
      rw [scan_of_end _ hSplit, Position.after_behind]
      rw [List.append_nil] at hText
      rw [← hText]
      exact .endOfInput hGap
  | cons c rest =>
      cases hKind :
          (firstLexeme c rest).kind (.behind (before ++ gap)) with
      | error e =>
          rw [← Position.after_behind] at hKind
          rw [scan_of_fault _ hSplit hKind, ← hText]
          refine .failed hGap (List.cons_ne_nil c rest) ?_
          rw [pos_of_kind_error hKind, Position.after_behind]
      | ok k =>
          have hShorter := length_rest_firstLexeme c rest
          have hLength : cs.length = gap.length + (c :: rest).length := by
            rw [← hText, List.length_append]
          have hRest := laidOut_scan
            (before ++ gap ++ (firstLexeme c rest).text)
            (firstLexeme c rest).rest
          rw [← Position.after_behind] at hKind
          rw [scan_of_token _ hSplit hKind, ← hText,
            ← firstLexeme_append c rest, ← List.append_assoc]
          simp only [Position.after_behind]
          apply LaidOut.lexeme k
          · rw [firstLexeme_append]
            exact hGap
          · exact hRest
termination_by cs.length

------------------------------------------------------------
-- One token at a time
------------------------------------------------------------

namespace Lexer

/- What is handed out for tokens: each of them, and what ends them. -/
def items
    (toks : List Token)
    (ending : Ending) : List Item :=
  toks.map .token ++ [.last ending]

/-
  Each answer is the thing at its place in a list, if the list
  goes that far.
-/
def HandsOut
    (l : Lexer)
    (xs : List Item) : Prop :=
  ∀ n, l.answers n = (List.range n).map fun i => xs[i]?

/- The end and the first fault are the last thing handed out. -/
theorem handsOut_done
    {l : Lexer}
    (h : l.done = true) :
    l.HandsOut [] := by
  have hNext : l.next = (none, l) := if_pos h
  intro n
  induction n with
  | zero => rfl
  | succ n ih =>
      rw [answers_succ, hNext, ih, List.range_succ_eq_map, List.map_cons,
        List.map_map]
      rfl

/- What is handed out first, and then. -/
theorem HandsOut.cons
    {l l' : Lexer}
    {x : Item}
    {xs : List Item}
    (hNext : l.next = (some x, l'))
    (h : l'.HandsOut xs) :
    l.HandsOut (x :: xs) := by
  intro n
  cases n with
  | zero => rfl
  | succ n =>
      rw [answers_succ, hNext, h n, List.range_succ_eq_map, List.map_cons,
        List.map_map]
      rfl

/- A lexer hands out the tokens of its text and what ends them. -/
theorem handsOut_scan
    (pos : Position)
    (cs : List Char) :
    HandsOut ⟨pos, cs, false⟩
      (items (TokenStream.scan pos cs).tokens
        (TokenStream.scan pos cs).ending) := by
  rcases hSplit : splitGap false cs with ⟨gap, rest⟩
  have hLength : rest.length ≤ cs.length := by
    have hLe := length_splitGap_snd false cs
    rw [hSplit] at hLe
    exact hLe
  cases rest with
  | nil =>
      have hNext : next ⟨pos, cs, false⟩ =
          (some (.last (.endOfInput (pos.after gap))),
            ⟨pos, cs, true⟩) := by
        simp [next, hSplit]
      rw [scan_of_end pos hSplit]
      exact .cons hNext (handsOut_done rfl)
  | cons c rest =>
      cases hKind : (firstLexeme c rest).kind (pos.after gap) with
      | error e =>
          have hNext : next ⟨pos, cs, false⟩ =
              (some (.last (.failed e)), ⟨pos, cs, true⟩) := by
            simp [next, hSplit, hKind]
          rw [scan_of_fault pos hSplit hKind]
          exact .cons hNext (handsOut_done rfl)
      | ok k =>
          have hShorter := length_rest_firstLexeme c rest
          have hNext : next ⟨pos, cs, false⟩ =
              (some (.token ⟨k, String.ofList (firstLexeme c rest).text,
                  pos.after gap⟩),
                ⟨(pos.after gap).after (firstLexeme c rest).text,
                  (firstLexeme c rest).rest, false⟩) := by
            simp [next, hSplit, hKind]
          rw [scan_of_token pos hSplit hKind]
          exact .cons hNext (handsOut_scan _ _)
termination_by cs.length

end Lexer

------------------------------------------------------------
-- Whole sources
------------------------------------------------------------

/-
  All tokens are given at once where the end of the input
  follows them.
-/
theorem tokenize_eq_ok
    {source : String}
    {toks : List Token}
    {pos : Position} :
    tokenize source = .ok (toks, pos) ↔
      toks = (TokenStream.ofSource source).tokens ∧
        (TokenStream.ofSource source).ending = .endOfInput pos := by
  unfold tokenize
  rcases TokenStream.ofSource source with ⟨tokens, ending⟩
  cases ending with
  | endOfInput place => simp [eq_comm]
  | failed e => simp

/- A fault behind the last token is given instead of them. -/
theorem tokenize_eq_error
    {source : String}
    {e : LexError} :
    tokenize source = .error e ↔
      (TokenStream.ofSource source).ending = .failed e := by
  unfold tokenize
  rcases TokenStream.ofSource source with ⟨tokens, ending⟩
  cases ending with
  | endOfInput place => simp
  | failed fault => simp

/-
  A lexer hands out the tokens of a source, then the end of the
  input or the first fault, and then nothing. With gaps between
  them the tokens make up the source, each at its place, and
  they are given all at once exactly when no fault ends them.
-/
theorem lexing_is_lossless
    (source : String) :
    ∃ tokens ending,
      (Lexer.ofSource source).HandsOut (Lexer.items tokens ending) ∧
      LaidOut [] source.toList tokens ending ∧
      (∀ toks pos, tokenize source = .ok (toks, pos) ↔
        toks = tokens ∧ ending = .endOfInput pos) ∧
      ∀ e, tokenize source = .error e ↔ ending = .failed e := by
  refine ⟨(TokenStream.ofSource source).tokens,
    (TokenStream.ofSource source).ending, ?_, ?_, ?_, ?_⟩
  · exact Lexer.handsOut_scan .start source.toList
  · exact laidOut_scan [] source.toList
  · intro toks pos
    exact tokenize_eq_ok
  · intro e
    exact tokenize_eq_error

end DynScript
