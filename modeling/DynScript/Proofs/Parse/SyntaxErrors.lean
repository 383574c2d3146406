import DynScript.Proofs.Parse.Lookahead
import DynScript.Proofs.Parse.Yield
import DynScript.Proofs.Token.Lossless

/-
  Where syntax errors come from. The things that a lexer hands
  out stand at places of their own, so the place of an error
  says which of them is blamed. Exactly the things up to that
  one were asked for, and whatever else follows them in another
  source, the error is the same.

  Key definitions include:
    * `Lexer.Item.pos?`
    * `TokenStream.items`
    * `TokenStream.Places`
    * `TokenStream.program`
    * `TokenStream.cut`
    * `TokenStream.Pulls`

  Main statements include:
    * `TokenStream.places_unique`
    * `TokenStream.pulls_of_unexpected`
    * `syntax_error_is_settled`
-/

namespace DynScript

------------------------------------------------------------
-- Places of what is handed out
------------------------------------------------------------

/- The place of a token or of the end of the input. -/
def Lexer.Item.pos? : Lexer.Item → Option Position
  | .token t => some t.pos
  | .last (.endOfInput pos) => some pos
  | .last (.failed _) => none

namespace TokenStream

/- What is handed out of a stream. -/
def items
    (s : TokenStream) : List Lexer.Item :=
  Lexer.items s.tokens s.ending

/- The thing number `i`, a token or the end of the input, is at `pos`. -/
def Places
    (s : TokenStream)
    (i : Nat)
    (pos : Position) : Prop :=
  s.items[i]?.bind Lexer.Item.pos? = some pos

end TokenStream

/- A text does not take back what was read. -/
theorem Position.offset_le_after
    (p : Position)
    (cs : List Char) :
    p.offset ≤ (p.after cs).offset := by
  induction cs generalizing p with
  | nil => exact Nat.le_refl _
  | cons c cs ih =>
      have hStep : p.offset ≤ (p.advance c).offset := by
        unfold Position.advance
        split <;> simp
      exact Nat.le_trans hStep (ih _)

/- A text that is not empty leads further on. -/
theorem Position.offset_lt_after
    {cs : List Char}
    (p : Position)
    (h : cs ≠ []) :
    p.offset < (p.after cs).offset := by
  cases cs with
  | nil => exact absurd rfl h
  | cons c cs =>
      have hSize := c.utf8Size_pos
      have hStep : p.offset < (p.advance c).offset := by
        unfold Position.advance
        split <;> simp [hSize]
      exact Nat.lt_of_lt_of_le hStep (offset_le_after _ cs)

namespace TokenStream

/- Everything stands behind the place where scanning began. -/
theorem offset_le_of_scan
    {pos place : Position}
    {cs : List Char}
    {i : Nat}
    (h : (scan pos cs).Places i place) :
    pos.offset ≤ place.offset := by
  rcases hSplit : splitGap false cs with ⟨gap, rest⟩
  have hGap := pos.offset_le_after gap
  cases rest with
  | nil =>
      rw [scan_of_end _ hSplit] at h
      cases i with
      | zero => cases h; exact hGap
      | succ i => cases h
  | cons c rest =>
      cases hKind : (firstLexeme c rest).kind (pos.after gap) with
      | error e =>
          rw [scan_of_fault _ hSplit hKind] at h
          cases i with
          | zero => cases h
          | succ i => cases h
      | ok k =>
          have hShorter :
              (firstLexeme c rest).rest.length < cs.length := by
            have hLe := length_splitGap_snd false cs
            rw [hSplit] at hLe
            exact Nat.lt_of_lt_of_le (length_rest_firstLexeme c rest) hLe
          rw [scan_of_token _ hSplit hKind] at h
          cases i with
          | zero => cases h; exact hGap
          | succ i =>
              have hBehind := offset_le_of_scan (i := i) h
              have hText := (pos.after gap).offset_le_after
                (firstLexeme c rest).text
              omega
termination_by cs.length

/- What is handed out later stands further on. -/
theorem offset_lt_of_scan
    {pos place place' : Position}
    {cs : List Char}
    {i j : Nat}
    (hFirst : (scan pos cs).Places i place)
    (hSecond : (scan pos cs).Places j place')
    (hLt : i < j) :
    place.offset < place'.offset := by
  rcases hSplit : splitGap false cs with ⟨gap, rest⟩
  cases rest with
  | nil =>
      rw [scan_of_end _ hSplit] at hSecond
      cases j with
      | zero => cases hLt
      | succ j => cases hSecond
  | cons c rest =>
      cases hKind : (firstLexeme c rest).kind (pos.after gap) with
      | error e =>
          rw [scan_of_fault _ hSplit hKind] at hSecond
          cases j with
          | zero => cases hLt
          | succ j => cases hSecond
      | ok k =>
          have hShorter :
              (firstLexeme c rest).rest.length < cs.length := by
            have hLe := length_splitGap_snd false cs
            rw [hSplit] at hLe
            exact Nat.lt_of_lt_of_le (length_rest_firstLexeme c rest) hLe
          rw [scan_of_token _ hSplit hKind] at hFirst hSecond
          cases j with
          | zero => cases hLt
          | succ j =>
              cases i with
              | zero =>
                  cases hFirst
                  have hBehind := offset_le_of_scan (i := j) hSecond
                  have hText := (pos.after gap).offset_lt_after
                    (firstLexeme_text_ne_nil c rest)
                  exact Nat.lt_of_lt_of_le hText hBehind
              | succ i =>
                  exact offset_lt_of_scan (i := i) (j := j) hFirst hSecond
                    (Nat.lt_of_succ_lt_succ hLt)
termination_by cs.length

/- So one thing at most stands at a place. -/
theorem places_unique
    {source : String}
    {i j : Nat}
    {pos : Position}
    (hFirst : (ofSource source).Places i pos)
    (hSecond : (ofSource source).Places j pos) :
    i = j := by
  rcases Nat.lt_trichotomy i j with hLt | hEq | hLt
  · exact absurd (offset_lt_of_scan hFirst hSecond hLt) (Nat.lt_irrefl _)
  · exact hEq
  · exact absurd (offset_lt_of_scan hSecond hFirst hLt) (Nat.lt_irrefl _)

/- A token among others is at its place. -/
theorem places_token
    {taken rest : List Token}
    {t : Token}
    {ending : Ending} :
    Places ⟨taken ++ t :: rest, ending⟩ taken.length t.pos := by
  simp [Places, items, Lexer.items, Lexer.Item.pos?]

/- The end of the input is behind all tokens. -/
theorem places_end
    {toks : List Token}
    {pos : Position} :
    Places ⟨toks, .endOfInput pos⟩ toks.length pos := by
  simp [Places, items, Lexer.items, Lexer.Item.pos?]

------------------------------------------------------------
-- What is asked for
------------------------------------------------------------

/- The program of a stream of tokens. -/
def program
    (s : TokenStream) : Except ParseError Block :=
  Parse.statements (some maxNesting) s.ending s.tokens

/-
  A stream of which the first `k` things are handed out, and
  then, if that was not all, a fault.
-/
def cut
    (s : TokenStream)
    (k : Nat)
    (e : LexError) : TokenStream :=
  if k ≤ s.tokens.length then ⟨s.tokens.take k, .failed e⟩ else s

/-
  Exactly the first `n` things are asked for when the program
  of a stream is read: a fault in the place of one of them is
  met, and a fault in the place of a later one is not. For
  parsers that pull one thing after the other this is the
  number of things pulled (`Descent.pulls_iff_of_program`).
-/
def Pulls
    (s : TokenStream)
    (n : Nat) : Prop :=
  ∀ k e, (s.cut k e).program =
    if k < n then .error (.lex e) else s.program

/-
  A syntax error and the tokens it depends on. The error is
  placed at the first token that may not be exchanged with
  those behind it, or at the end of the input.
-/
theorem settled_of_unexpected
    {s : TokenStream}
    {expected : Expected}
    {found : Found}
    {pos : Position}
    (h : s.program = .error (.unexpected expected found pos)) :
    ∃ taken rest, s.tokens = taken ++ rest ∧
      s.Places taken.length pos ∧
      (rest = [] → s.ending = .endOfInput pos) ∧
      ∀ ending' rest', Parse.Keeps s.ending rest rest' →
        program ⟨taken ++ rest', ending'⟩ =
          .error (.unexpected expected found pos) := by
  have hSettled : Parse.Settled (fun ending toks =>
      Parse.statements (some maxNesting) ending toks >>= fun b =>
        .ok (b, [])) s.ending s.tokens :=
    Parse.settled_statements s.tokens
  rcases hSettled.fault _ (by rw [program] at h; rw [h]; rfl)
    (by simp) with ⟨taken, rest, hSplit, hBlames, hSame⟩
  have hPlace := hBlames _ _ _ rfl
  refine ⟨taken, rest, hSplit, ?_, ?_, ?_⟩
  · rcases s with ⟨toks, ending⟩
    rcases hSplit with rfl
    cases rest with
    | nil =>
        rcases hPlace with rfl
        simpa using places_end
    | cons t rest =>
        rcases hPlace with rfl
        exact places_token
  · rintro rfl
    exact hPlace
  · intro ending' rest' hKeeps
    have hResult := hSame ending' rest' hKeeps
    unfold program
    cases hRead : Parse.statements (some maxNesting) ending'
        (taken ++ rest') with
    | ok b =>
        rw [hRead] at hResult
        cases hResult
    | error e =>
        rw [hRead] at hResult
        cases hResult
        rfl

/- A fault before the place of a syntax error is met. -/
theorem program_cut_of_lt
    {source : String}
    {expected : Expected}
    {found : Found}
    {pos : Position}
    {i k : Nat}
    (h : (ofSource source).program =
      .error (.unexpected expected found pos))
    (hPlace : (ofSource source).Places i pos)
    (hLe : k ≤ i)
    (hLength : k ≤ (ofSource source).tokens.length)
    (e : LexError) :
    program ⟨(ofSource source).tokens.take k, .failed e⟩ =
      .error (.lex e) := by
  have hSettled : Parse.Settled (fun ending toks =>
      Parse.statements (some maxNesting) ending toks >>= fun b =>
        .ok (b, [])) (.failed e) ((ofSource source).tokens.take k) :=
    Parse.settled_statements _
  unfold program
  cases hRead : Parse.statements (some maxNesting) (.failed e)
      ((ofSource source).tokens.take k) with
  | ok b =>
      have hLook := Parse.look_of_statements hRead
      cases hLook
  | error fault =>
      by_cases hLex : ∃ e', fault = .lex e'
      · rcases hLex with ⟨e', rfl⟩
        rcases Ending.failed.inj (hSettled.lex e' (by rw [hRead]; rfl))
          with rfl
        rfl
      -- Another fault would be the one of the whole stream, too early.
      exfalso
      rcases hSettled.fault fault (by rw [hRead]; rfl)
        (fun e' hEq => hLex ⟨e', hEq⟩) with
        ⟨taken, rest, hSplit, hBlames, hSame⟩
      have hKeeps : Parse.Keeps (.failed e) rest
          (rest ++ (ofSource source).tokens.drop k) := by
        cases rest with
        | nil => exact ⟨e, rfl⟩
        | cons t rest => rfl
      have hWhole := hSame (ofSource source).ending _ hKeeps
      rw [← List.append_assoc, ← hSplit, List.take_append_drop] at hWhole
      rw [program] at h
      rw [h] at hWhole
      rcases Except.error.inj hWhole with rfl
      have hBlamed := hBlames _ _ _ rfl
      cases rest with
      | nil => cases hBlamed
      | cons t rest =>
          have hTokens : (ofSource source).tokens =
              taken ++ t ::
                (rest ++ (ofSource source).tokens.drop k) := by
            rw [← List.cons_append, ← List.append_assoc, ← hSplit,
              List.take_append_drop]
          have hEarly : (ofSource source).Places taken.length pos := by
            rw [← hBlamed]
            have hPlaces :
                Places ⟨taken ++ t ::
                  (rest ++ (ofSource source).tokens.drop k),
                  (ofSource source).ending⟩ taken.length t.pos :=
              places_token
            rw [← hTokens] at hPlaces
            exact hPlaces
          have hIndex := places_unique hEarly hPlace
          have hTaken : taken.length < k := by
            have hLengths := congrArg List.length hSplit
            simp only [List.length_take, List.length_append,
              List.length_cons] at hLengths
            omega
          omega

/-
  Up to the place of a syntax error everything is asked for,
  and no more.
-/
theorem pulls_of_unexpected
    {source : String}
    {expected : Expected}
    {found : Found}
    {pos : Position}
    {i : Nat}
    (h : (ofSource source).program =
      .error (.unexpected expected found pos))
    (hPlace : (ofSource source).Places i pos) :
    (ofSource source).Pulls (i + 1) := by
  rcases settled_of_unexpected h with
    ⟨taken, rest, hSplit, hTaken, hEnd, hSame⟩
  rcases places_unique hTaken hPlace with rfl
  intro k e
  unfold cut
  split
  · next hLength =>
    split
    · next hLt =>
      exact program_cut_of_lt h hPlace (Nat.le_of_lt_succ hLt) hLength e
    · next hGe =>
      cases rest with
      | nil =>
          rw [hSplit, List.append_nil] at hLength
          omega
      | cons t rest =>
          have hTake : (ofSource source).tokens.take k =
              taken ++ t :: rest.take (k - taken.length - 1) := by
            rw [hSplit, List.take_append,
              List.take_of_length_le (by omega)]
            congr 1
            rw [List.take_cons (by omega)]
          rw [hTake, h]
          exact hSame (.failed e) _ rfl
  · next hLength =>
    have hLast : taken.length ≤ (ofSource source).tokens.length := by
      rw [hSplit, List.length_append]
      omega
    rw [if_neg (by omega)]

end TokenStream

------------------------------------------------------------
-- Other sources
------------------------------------------------------------

/- Lexers that answer alike hand out the same things. -/
theorem take_items_of_answers
    {source other : String}
    {n : Nat}
    (h : (Lexer.ofSource other).answers n =
      (Lexer.ofSource source).answers n) :
    (TokenStream.ofSource other).items.take n =
      (TokenStream.ofSource source).items.take n := by
  have hOther := Lexer.handsOut_scan .start other.toList n
  have hSource := Lexer.handsOut_scan .start source.toList n
  rw [Lexer.ofSource, Lexer.ofSource, hOther, hSource] at h
  apply List.ext_getElem?
  intro i
  rw [List.getElem?_take, List.getElem?_take]
  split
  · next hLt =>
    exact List.map_eq_map_iff.mp h i (List.mem_range.mpr hLt)
  · rfl

/- Tokens at the beginning of what is handed out come first. -/
theorem exists_append_of_items
    {taken toks : List Token}
    {ending : Ending}
    (h : taken.map Lexer.Item.token <+: Lexer.items toks ending) :
    ∃ rest, toks = taken ++ rest := by
  induction taken generalizing toks with
  | nil => exact ⟨toks, rfl⟩
  | cons t taken ih =>
      cases toks with
      | nil =>
          rcases h with ⟨more, hMore⟩
          cases hMore
      | cons u toks =>
          rw [List.map_cons, Lexer.items, List.map_cons, List.cons_append,
            List.cons_prefix_cons] at h
          rcases h with ⟨hFirst, hOthers⟩
          rcases Lexer.Item.token.inj hFirst with rfl
          rcases ih hOthers with ⟨rest, rfl⟩
          exact ⟨rest, rfl⟩

/- What is handed out to its end says what the stream is. -/
theorem eq_of_items_prefix
    {toks toks' : List Token}
    {ending ending' : Ending}
    (h : Lexer.items toks ending <+: Lexer.items toks' ending') :
    toks' = toks ∧ ending' = ending := by
  have hTokens : toks.map Lexer.Item.token <+:
      Lexer.items toks' ending' :=
    (List.prefix_append _ _).trans h
  rcases exists_append_of_items hTokens with ⟨rest, rfl⟩
  simp only [Lexer.items, List.map_append, List.append_assoc,
    List.prefix_append_right_inj] at h
  cases rest with
  | nil =>
      rcases h with ⟨more, hMore⟩
      cases hMore
      exact ⟨List.append_nil toks, rfl⟩
  | cons t rest =>
      rcases h with ⟨more, hMore⟩
      cases hMore

/-
  A syntax error is placed at one of the things that a lexer
  hands out, a token or the end of the input. Exactly the
  things up to that one are asked for, and a source of which a
  lexer hands out the same things up to that one has the same
  error, whatever follows.
-/
theorem syntax_error_is_settled
    {source : String}
    {expected : Expected}
    {found : Found}
    {pos : Position}
    (h : parse source = .error (.unexpected expected found pos)) :
    (∃ i, (TokenStream.ofSource source).Places i pos) ∧
      ∀ i, (TokenStream.ofSource source).Places i pos →
        (TokenStream.ofSource source).Pulls (i + 1) ∧
        ∀ other,
          (Lexer.ofSource other).answers (i + 1) =
              (Lexer.ofSource source).answers (i + 1) →
            parse other = .error (.unexpected expected found pos) := by
  have hProgram : (TokenStream.ofSource source).program =
      .error (.unexpected expected found pos) := h
  rcases TokenStream.settled_of_unexpected hProgram with
    ⟨taken, rest, hSplit, hTaken, hEnd, hSame⟩
  refine ⟨⟨taken.length, hTaken⟩, ?_⟩
  intro i hPlace
  refine ⟨TokenStream.pulls_of_unexpected hProgram hPlace, ?_⟩
  intro other hAnswers
  rcases TokenStream.places_unique hTaken hPlace with rfl
  have hItems := take_items_of_answers hAnswers
  have hPrefix : (TokenStream.ofSource source).items.take
      (taken.length + 1) <+: (TokenStream.ofSource other).items := by
    rw [← hItems]
    exact List.take_prefix _ _
  rw [TokenStream.items, TokenStream.items, Lexer.items, hSplit]
    at hPrefix
  cases rest with
  | cons t rest =>
      have hTake : ((taken ++ t :: rest).map Lexer.Item.token ++
          [Lexer.Item.last (TokenStream.ofSource source).ending]).take
            (taken.length + 1) = (taken ++ [t]).map .token := by
        simp [List.take_append]
      rw [hTake] at hPrefix
      rcases exists_append_of_items hPrefix with ⟨rest', hOther⟩
      have hResult := hSame (TokenStream.ofSource other).ending
        (t :: rest') rfl
      rw [← List.singleton_append, ← List.append_assoc, ← hOther]
        at hResult
      exact hResult
  | nil =>
      rw [List.append_nil, List.take_of_length_le (by simp)] at hPrefix
      rcases eq_of_items_prefix hPrefix with ⟨hTokens, hEnding⟩
      have hStream : (TokenStream.ofSource other).program =
          (TokenStream.ofSource source).program := by
        unfold TokenStream.program
        rw [hTokens, hEnding, hSplit, List.append_nil]
      exact hStream.trans hProgram

/-
  A brace in the place of a parenthesis is the error, with the
  source over behind it or with a string that is never closed.
-/
theorem unclosed_group_is_settled :
    parse "y = (x \x7d" = .error (.unexpected (.symbol .parenR)
        (.token (.symbol .braceR)) ⟨1, 8, 7⟩) ∧
      (TokenStream.ofSource "y = (x \x7d").Pulls 5 ∧
      parse "y = (x \x7d 'open" = .error (.unexpected (.symbol .parenR)
        (.token (.symbol .braceR)) ⟨1, 8, 7⟩) := by
  have hStream : TokenStream.ofSource "y = (x \x7d" =
      ⟨[⟨.ident "y", "y", ⟨1, 1, 0⟩⟩, ⟨.symbol .assign, "=", ⟨1, 3, 2⟩⟩,
        ⟨.symbol .parenL, "(", ⟨1, 5, 4⟩⟩, ⟨.ident "x", "x", ⟨1, 6, 5⟩⟩,
        ⟨.symbol .braceR, "\x7d", ⟨1, 8, 7⟩⟩],
        .endOfInput ⟨1, 9, 8⟩⟩ := by
    cbv
  have hError :
      parse "y = (x \x7d" = .error (.unexpected (.symbol .parenR)
      (.token (.symbol .braceR)) ⟨1, 8, 7⟩) := by
    unfold parse parseWithin
    rw [hStream, Parse.statements_bare _ (by simp),
      Parse.outcome_bareStatement_assign _ rfl rfl,
      Parse.expression_eq_climb,
      Parse.outcome_climb, Parse.outcome_operand_group _ rfl,
      Parse.outcome_climb, Parse.outcome_operand_var rfl (by simp),
      Parse.peek, ok_bind, ok_bind,
      Parse.outcome_extend_stop _ _ (by simp [Parse.binaryOp?])]
    rfl
  have hPlace :
      (TokenStream.ofSource "y = (x \x7d").Places 4 ⟨1, 8, 7⟩ := by
    unfold TokenStream.Places
    cbv
  have hAnswers : (Lexer.ofSource "y = (x \x7d 'open").answers 5 =
      (Lexer.ofSource "y = (x \x7d").answers 5 := by
    cbv
  rcases (syntax_error_is_settled hError).2 4 hPlace with ⟨hPulls, hOther⟩
  exact ⟨hError, hPulls, hOther _ hAnswers⟩

end DynScript
