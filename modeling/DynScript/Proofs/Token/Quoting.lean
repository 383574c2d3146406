import DynScript.Proofs.Token.MaximalMunch

/-
  Writing a text as a literal and scanning it are inverse in
  every context. The literal is the first lexeme of any text
  that it begins, so that nothing behind it is drawn into it,
  and a value that was scanned from a string of either sort is
  scanned again from its literal.

  Main statements include:
    * `finds_quoteLiteral`
    * `next_quoteLiteral`
    * `tokenize_quoteLiteral`
    * `closed_of_kind_str`
    * `quoting_inverts_scanning`
-/

namespace DynScript

------------------------------------------------------------
-- From texts to literals
------------------------------------------------------------

section Literals

variable (s : String)
variable (pos : Position)

/- The rule for strings takes the literal and gives the text back. -/
theorem finds_quoteLiteral
    (rest : List Char) :
    Grammar.token? ((quoteLiteral s).toList ++ rest) =
        some (.string, (quoteLiteral s).toList, rest) ∧
      Grammar.TokenRule.string.value (quoteLiteral s).toList pos =
        .ok (.str s) := by
  have hClose := (string_reads_back s.toList rest).1
  have hFinds := Grammar.finds_string (.inl rfl) hClose
  have hText :
      '"' :: s.toList.flatMap escapeLiteral ++ ['"'] =
        (quoteLiteral s).toList := by
    rw [toList_quoteLiteral, List.cons_append]
  rw [hText] at hFinds
  constructor
  · rw [← hFinds.takes, toList_quoteLiteral, List.cons_append,
      List.append_assoc, List.singleton_append]
  · rw [hFinds.value, kind_quoteLiteral s _ rest]
    rfl

/-
  A lexer that stands before the literal hands it out and
  stops behind it.
-/
theorem next_quoteLiteral
    (rest : List Char) :
    Lexer.next ⟨pos, (quoteLiteral s).toList ++ rest, false⟩ =
      (some (.token ⟨.str s, quoteLiteral s, pos⟩),
        ⟨pos.after (quoteLiteral s).toList, rest, false⟩) := by
  have hText :
      (quoteLiteral s).toList ++ rest =
        '"' :: (s.toList.flatMap escapeLiteral ++ '"' :: rest) := by
    rw [toList_quoteLiteral, List.cons_append, List.append_assoc,
      List.singleton_append]
  have hGap : splitGap false ((quoteLiteral s).toList ++ rest) =
      ([], '"' :: (s.toList.flatMap escapeLiteral ++ '"' :: rest)) := by
    rw [hText]
    exact splitGap_lexeme (by decide)
      (fun hEq => absurd hEq (by decide))
  simp only [Lexer.next, Bool.false_eq_true, if_false, hGap,
    firstLexeme_quoteLiteral, kind_quoteLiteral s _ rest,
    Position.after_nil, String.ofList_toList]

/- The literal alone is one token. -/
theorem tokenize_quoteLiteral :
    ∃ last, tokenize (quoteLiteral s) =
      .ok ([⟨.str s, quoteLiteral s, .start⟩], last) := by
  refine ⟨Position.start.after (quoteLiteral s).toList, ?_⟩
  have hGap : splitGap false (quoteLiteral s).toList =
      ([], '"' :: (s.toList.flatMap escapeLiteral ++ ['"'])) := by
    rw [toList_quoteLiteral]
    exact splitGap_lexeme (by decide)
      (fun hEq => absurd hEq (by decide))
  have hLexeme := firstLexeme_quoteLiteral s []
  have hKind := kind_quoteLiteral s (quoteLiteral s).toList [] .start
  have hScan := scan_of_token .start hGap (k := .str s)
    (by rw [hLexeme]; exact hKind)
  rw [hLexeme] at hScan
  rw [tokenize_eq_ok, TokenStream.ofSource, hScan]
  dsimp only
  rw [scan_of_end _ (show splitGap false [] = ([], []) from rfl),
    String.ofList_toList]
  simp only [Position.after_nil, and_self]

end Literals

------------------------------------------------------------
-- From strings to texts
------------------------------------------------------------

/-
  A token that is a string stands between two marks of one
  sort, and its body denotes its value.
-/
theorem closed_of_kind_str
    {c : Char}
    {cs : List Char}
    {pos : Position}
    {v : String}
    (h : (firstLexeme c cs).kind pos = .ok (.str v)) :
    ∃ mark body, IsMark mark ∧ StringBody mark body ∧
      (firstLexeme c cs).text = mark :: (body ++ [mark]) ∧
      unescape body = .ok v.toList := by
  have hClass := @ofClass_firstLexeme c cs (known_of_kind h)
  generalize (firstLexeme c cs).text = text at hClass
  unfold Lexeme.kind at h
  cases hSort : (firstLexeme c cs).cls with
  | str body =>
      rw [hSort] at h hClass
      cases hClass with
      | @str mark _ hMark hBody =>
        refine ⟨mark, body, hMark, hBody, rfl, ?_⟩
        dsimp only at h
        cases hValue : unescape body with
        | ok cs =>
            rw [hValue] at h
            cases h
            rw [String.toList_ofList]
        | error e =>
            rw [hValue] at h
            cases e <;> cases h
  | float | int | word | symbol | unclosed | unknown =>
      rw [hSort] at h
      dsimp only at h
      repeat' split at h
      all_goals cases h

------------------------------------------------------------
-- Both ways
------------------------------------------------------------

/-
  Wherever a lexer stands before the literal of a text, whatever
  comes behind it, the next token is the text, its lexeme is
  exactly the literal, and the lexer goes on right behind it; the
  grammar takes the same lexeme by its rule for strings. And each
  string that a lexer hands out, of either sort, stands between
  two marks with a body that denotes its value, and the literal
  of that value is one token with the same value.
-/
theorem quoting_inverts_scanning :
    (∀ (s r : String) pos,
      Lexer.next ⟨pos, (quoteLiteral s ++ r).toList, false⟩ =
        (some (.token ⟨.str s, quoteLiteral s, pos⟩),
          ⟨pos.after (quoteLiteral s).toList, r.toList, false⟩) ∧
      Grammar.token? (quoteLiteral s ++ r).toList =
        some (.string, (quoteLiteral s).toList, r.toList) ∧
      Grammar.TokenRule.string.value (quoteLiteral s).toList pos =
        .ok (.str s)) ∧
    ∀ source n t v,
      some (.token t) ∈ (Lexer.ofSource source).answers n →
      t.kind = .str v →
      (∃ mark body, IsMark mark ∧ StringBody mark body ∧
        t.text.toList = mark :: (body ++ [mark]) ∧
        unescape body = .ok v.toList) ∧
      ∃ last, tokenize (quoteLiteral v) =
        .ok ([⟨.str v, quoteLiteral v, .start⟩], last) := by
  constructor
  · intro s r pos
    rw [String.toList_append]
    exact ⟨next_quoteLiteral s pos r.toList,
      finds_quoteLiteral s pos r.toList⟩
  · intro source n t v hAnswer hString
    rcases firstLexeme_of_scan .start source.toList [] rfl t
        (Lexer.mem_scan_of_answer hAnswer) with
      ⟨_, c, rest, _, _, hText, hKind⟩
    rw [hString] at hKind
    rw [hText]
    exact ⟨closed_of_kind_str hKind, tokenize_quoteLiteral v⟩

/-
  A string in single marks with a plain double mark, an escaped
  single one and a backslash at its end. Its literal escapes the
  double mark instead of the single one.
-/
theorem requoted_string :
    let source := "x = '\"it\\'s\\\\'"
    let v := "\"it's\\"
    some (.token ⟨.str v, "'\"it\\'s\\\\'", ⟨1, 5, 4⟩⟩) ∈
        (Lexer.ofSource source).answers 3 ∧
      quoteLiteral v = "\"\\\"it's\\\\\"" ∧
      ∃ last, tokenize (quoteLiteral v) =
        .ok ([⟨.str v, quoteLiteral v, .start⟩], last) := by
  intro source v
  have hAnswer :
      some (.token ⟨.str v, "'\"it\\'s\\\\'", ⟨1, 5, 4⟩⟩) ∈
        (Lexer.ofSource source).answers 3 := by
    decide
  refine ⟨hAnswer, by decide, ?_⟩
  have hQuoted := quoting_inverts_scanning.2 source 3 _ v hAnswer rfl
  exact hQuoted.2

end DynScript
