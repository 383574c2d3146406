import DynScript.Proofs.Token.LongestMatch
import DynScript.Token.Grammar

/-
  The rules of the lexical grammar, tried in their order, find
  the first lexeme of a text. Some rule matches every text that
  is not empty, and what it takes has a value or is a fault that
  the scanner knows of.

  Key definitions include:
    * `Grammar.NoneMatches`
    * `Grammar.TokenRule.Finds`

  Main statements include:
    * `Grammar.token?_of_first`
    * `Grammar.quoted_of_closed`
    * `Grammar.symbolIn_eq`
    * `Grammar.exists_finds_firstLexeme`
-/

namespace DynScript

namespace Grammar

------------------------------------------------------------
-- Rules in general
------------------------------------------------------------

section Rules

variable {cs : List Char}

@[simp]
theorem one_cons
    (p : Char → Bool)
    (c : Char)
    (cs : List Char) :
    one p (c :: cs) = if p c then some ([c], cs) else none :=
  rfl

theorem andThen_eq_none
    {first : Rule}
    (second : Rule)
    (h : first cs = none) :
    andThen first second cs = none := by
  simp [andThen, h]

theorem andThen_eq
    {first : Rule}
    {taken left : List Char}
    (second : Rule)
    (h : first cs = some (taken, left)) :
    andThen first second cs =
      (second left).map fun p => (taken ++ p.1, p.2) := by
  unfold andThen
  rw [h]
  cases hSecond : second left <;> simp [hSecond]

/- None of a number of rules matches. -/
def NoneMatches
    (rules : List TokenRule)
    (cs : List Char) : Prop :=
  ∀ r ∈ rules, r.front cs = none

theorem noneMatches_one
    {r : TokenRule}
    (h : r.front cs = none) :
    NoneMatches [r] cs := by
  intro q hq
  rw [List.mem_singleton.mp hq, h]

theorem NoneMatches.append
    {rules more : List TokenRule}
    (hRules : NoneMatches rules cs)
    (hMore : NoneMatches more cs) :
    NoneMatches (rules ++ more) cs := by
  intro q hq
  rcases List.mem_append.mp hq with hFirst | hSecond
  · exact hRules q hFirst
  · exact hMore q hSecond

/- The rule for a token is the first one in their order that matches. -/
theorem token?_of_first
    {r : TokenRule}
    {text rest : List Char}
    (before after : List TokenRule)
    (hAll : TokenRule.all = before ++ r :: after)
    (hBefore : NoneMatches before cs)
    (hTake : r.front cs = some (text, rest)) :
    token? cs = some (r, text, rest) := by
  have hNone :
      before.findSome? (fun q => (q.front cs).map (q, ·)) = none := by
    apply List.findSome?_eq_none_iff.mpr
    intro q hq
    rw [hBefore q hq]
    rfl
  rw [token?, hAll, List.findSome?_append, hNone, Option.none_or,
    List.findSome?_cons, hTake]
  rfl

/-
  A rule finds a lexeme if it is the first one that matches,
  takes the lexeme's text and gives it the same value.
-/
structure TokenRule.Finds
    (r : TokenRule)
    (cs : List Char)
    (l : Lexeme) : Prop where
  takes : token? cs = some (r, l.text, l.rest)
  value : ∀ pos, r.value l.text pos = (l.kind pos).mapError .lexical

end Rules

------------------------------------------------------------
-- Numbers
------------------------------------------------------------

section Numbers

variable {c : Char}
variable {cs : List Char}

/- Digits are taken as far as they go. -/
theorem digits_of_isDigit
    (h : c.isDigit = true) :
    digits (c :: cs) =
      some ((c :: cs).takeWhile Char.isDigit,
        (c :: cs).dropWhile Char.isDigit) := by
  have hOne : one Char.isDigit (c :: cs) = some ([c], cs) := by
    rw [one_cons, if_pos h]
  rw [digits, andThen_eq _ hOne]
  simp [many, h]

theorem digits_eq_none
    (h : c.isDigit = false) :
    digits (c :: cs) = none := by
  apply andThen_eq_none
  rw [one_cons, h]
  rfl

/- No number begins with another character. -/
theorem noneMatches_number
    (h : c.isDigit = false) :
    NoneMatches [.float, .int] (c :: cs) := by
  have hFloat : TokenRule.float.front (c :: cs) = none :=
    andThen_eq_none _ (digits_eq_none h)
  have hInt : TokenRule.int.front (c :: cs) = none :=
    digits_eq_none h
  exact (noneMatches_one hFloat).append (noneMatches_one hInt)

/- A fraction needs a digit behind the point. -/
theorem float_front_of_fraction
    {d : Char}
    {ds : List Char}
    (hDigit : c.isDigit = true)
    (hLeft : (c :: cs).dropWhile Char.isDigit = '.' :: d :: ds)
    (hFirst : d.isDigit = true) :
    TokenRule.float.front (c :: cs) =
      some ((c :: cs).takeWhile Char.isDigit ++
          '.' :: (d :: ds).takeWhile Char.isDigit,
        (d :: ds).dropWhile Char.isDigit) := by
  have hWhole : digits (c :: cs) = _ := digits_of_isDigit hDigit
  have hPoint : one (· == '.') ('.' :: d :: ds) = some (['.'], d :: ds) :=
    rfl
  rw [hLeft] at hWhole
  rw [TokenRule.front, andThen_eq _ hWhole, andThen_eq _ hPoint,
    digits_of_isDigit hFirst]
  rfl

theorem float_front_eq_none
    (hDigit : c.isDigit = true)
    (hLeft : ∀ d ds, (c :: cs).dropWhile Char.isDigit = '.' :: d :: ds →
      d.isDigit = false) :
    TokenRule.float.front (c :: cs) = none := by
  rw [TokenRule.front, andThen_eq _ (digits_of_isDigit hDigit)]
  cases hRest : (c :: cs).dropWhile Char.isDigit with
  | nil => rfl
  | cons e left =>
      by_cases hPoint : e = '.'
      · subst hPoint
        have hOne :
            one (· == '.') ('.' :: left) = some (['.'], left) :=
          rfl
        rw [andThen_eq _ hOne]
        cases left with
        | nil => rfl
        | cons d ds =>
            rw [digits_eq_none (hLeft d ds hRest)]
            rfl
      · rw [andThen_eq_none]
        · rfl
        · rw [one_cons, if_neg]
          simpa using hPoint

/- Digits, a point and digits are a number. -/
theorem floatOf?_eq
    {whole fraction : List Char}
    (hWhole : Digits whole)
    (hFraction : Digits fraction) :
    floatOf? (whole ++ '.' :: fraction) =
      some (Decimal.nearest whole fraction) := by
  have hStop : ∀ d ∈ ('.' :: fraction).head?, d.isDigit = false := by
    intro d hd
    rcases Option.some.inj hd with rfl
    rfl
  rcases takeWhile_append_stop hWhole.2 hStop with ⟨hTake, hDrop⟩
  have hAll : fraction.all Char.isDigit = true :=
    List.all_eq_true.mpr hFraction.2
  unfold floatOf?
  rw [hTake, hDrop]
  simp [hWhole.1, hFraction.1, hAll]

/- An integer, where no fraction makes it a float. -/
theorem finds_int
    (hDigit : c.isDigit = true)
    (hFloat : TokenRule.float.front (c :: cs) = none) :
    TokenRule.int.Finds (c :: cs)
      ⟨.int ((c :: cs).takeWhile Char.isDigit),
        (c :: cs).takeWhile Char.isDigit,
        (c :: cs).dropWhile Char.isDigit⟩ where
  takes := by
    exact token?_of_first [.float] _ rfl (noneMatches_one hFloat)
      (digits_of_isDigit hDigit)
  value pos := by
    unfold TokenRule.value Lexeme.kind
    dsimp only
    split <;> rfl

theorem exists_finds_number
    (hDigit : c.isDigit = true) :
    ∃ r : TokenRule, r.Finds (c :: cs) (numberLexeme (c :: cs)) := by
  unfold numberLexeme
  dsimp only
  split
  · next d ds hLeft =>
    split
    · next hFirst =>
      refine ⟨.float, ?_, fun pos => ?_⟩
      · exact token?_of_first [] _ rfl nofun
          (float_front_of_fraction hDigit hLeft hFirst)
      · have hFloat := floatOf?_eq (digits_takeWhile cs hDigit)
          (digits_takeWhile ds hFirst)
        simp only [TokenRule.value, hFloat, Lexeme.kind]
        split <;> rfl
    · next hFirst =>
      refine ⟨.int,
        hLeft ▸ finds_int hDigit (float_front_eq_none hDigit ?_)⟩
      intro e es hEq
      rw [hLeft] at hEq
      cases hEq
      exact Bool.eq_false_iff.mpr hFirst
  · next hLeft =>
    refine ⟨.int, finds_int hDigit (float_front_eq_none hDigit ?_)⟩
    intro d ds hEq
    exact absurd hEq (hLeft d ds)

end Numbers

------------------------------------------------------------
-- Strings
------------------------------------------------------------

section Strings

variable {mark c : Char}
variable {cs body rest : List Char}

theorem stringBody_cons
    (cs : List Char)
    (h : c ≠ '\\') :
    stringBody mark (c :: cs) =
      if c = mark then
        ([], c :: cs)
      else
        (c :: (stringBody mark cs).1, (stringBody mark cs).2) := by
  rw [stringBody]
  · exact fun hEscape _ => absurd hEscape h
  · exact fun _ _ hEscape _ => absurd hEscape h

/- Up to the mark that closes a string all is taken. -/
theorem stringBody_of_closed
    (h : closeQuote? mark cs = some (body, rest)) :
    stringBody mark cs = (body, mark :: rest) := by
  fun_induction closeQuote? mark cs generalizing body rest with
  | case1 => cases h
  | case2 => cases h
  | case3 c cs ih =>
      rcases Option.map_eq_some_iff.mp h with ⟨⟨inner, left⟩, hInner, hEq⟩
      cases hEq
      rw [stringBody, ih hInner]
  | case4 cs hLast hEscape =>
      cases h
      rw [stringBody_cons cs (ne_backslash hLast hEscape), if_pos rfl]
  | case5 c cs hLast hEscape hMark ih =>
      rcases Option.map_eq_some_iff.mp h with ⟨⟨inner, left⟩, hInner, hEq⟩
      cases hEq
      rw [stringBody_cons cs (ne_backslash hLast hEscape), if_neg hMark,
        ih hInner]

/- Where a string is not closed no mark is left. -/
theorem no_mark_of_unclosed
    (hMark : mark ≠ '\\')
    (h : closeQuote? mark cs = none) :
    one (· == mark) (stringBody mark cs).2 = none := by
  fun_induction closeQuote? mark cs with
  | case1 => rfl
  | case2 =>
      rw [stringBody, one_cons, if_neg]
      simpa using hMark.symm
  | case3 c cs ih =>
      rw [stringBody]
      exact ih (Option.map_eq_none_iff.mp h)
  | case4 cs hLast hEscape => cases h
  | case5 c cs hLast hEscape hOther ih =>
      rw [stringBody_cons cs (ne_backslash hLast hEscape), if_neg hOther]
      exact ih (Option.map_eq_none_iff.mp h)

theorem quoted_of_ne
    (cs : List Char)
    (h : c ≠ mark) :
    quoted mark (c :: cs) = none := by
  apply andThen_eq_none
  rw [one_cons, if_neg]
  simpa using h

theorem quoted_of_closed
    (h : closeQuote? mark cs = some (body, rest)) :
    quoted mark (mark :: cs) = some (mark :: body ++ [mark], rest) := by
  have hOpen : one (· == mark) (mark :: cs) = some ([mark], cs) := by
    rw [one_cons, beq_self_eq_true, if_pos rfl]
  have hClose : one (· == mark) (mark :: rest) = some ([mark], rest) := by
    rw [one_cons, beq_self_eq_true, if_pos rfl]
  have hBody : some (stringBody mark cs) = some (body, mark :: rest) :=
    congrArg some (stringBody_of_closed h)
  rw [quoted, andThen_eq _ hOpen, andThen_eq _ hBody, hClose]
  rfl

theorem quoted_of_unclosed
    (hMark : mark ≠ '\\')
    (h : closeQuote? mark cs = none) :
    quoted mark (mark :: cs) = none := by
  have hOpen : one (· == mark) (mark :: cs) = some ([mark], cs) := by
    rw [one_cons, beq_self_eq_true, if_pos rfl]
  rw [quoted, andThen_eq _ hOpen, andThen_eq _ rfl,
    no_mark_of_unclosed hMark h]
  rfl

/- Only one of the two sorts of strings begins with a mark. -/
theorem string_front_of_isMark
    (hMark : IsMark mark) :
    TokenRule.string.front (mark :: cs) = quoted mark (mark :: cs) := by
  have hEither : TokenRule.string.front (mark :: cs) =
      (quoted '"' (mark :: cs)).or (quoted '\'' (mark :: cs)) := by
    rw [TokenRule.front, firstOf, List.findSome?_cons]
    cases hFirst : quoted '"' (mark :: cs) <;> simp
  rw [hEither]
  rcases hMark with rfl | rfl
  · rw [quoted_of_ne cs (show '"' ≠ '\'' by decide), Option.or_none]
  · rw [quoted_of_ne cs (show '\'' ≠ '"' by decide), Option.none_or]

/- A mark that nothing closes takes the rest of the text. -/
theorem unterminated_front_of_isMark
    (hMark : IsMark mark) :
    TokenRule.unterminated.front (mark :: cs) =
      some (mark :: cs, []) := by
  have hOpen : one (fun c => c == '"' || c == '\'') (mark :: cs) =
      some ([mark], cs) := by
    rcases hMark with rfl | rfl <;> rfl
  rw [TokenRule.front, andThen_eq _ hOpen]
  simp [many]

/- A string that is closed is found by the rule for strings. -/
theorem finds_string
    (hMark : IsMark mark)
    (hClose : closeQuote? mark cs = some (body, rest)) :
    TokenRule.string.Finds (mark :: cs)
      ⟨.str body, mark :: body ++ [mark], rest⟩ := by
  have hDigit : mark.isDigit = false := by
    rcases hMark with rfl | rfl <;> rfl
  have hString : TokenRule.string.front (mark :: cs) =
      quoted mark (mark :: cs) :=
    string_front_of_isMark hMark
  rw [quoted_of_closed hClose] at hString
  refine ⟨token?_of_first [.float, .int] _ rfl (noneMatches_number hDigit)
    hString, fun pos => ?_⟩
  have hBody : (mark :: body ++ [mark]).tail.dropLast = body := by
    rw [List.cons_append, List.tail_cons, List.dropLast_concat]
  simp only [TokenRule.value, hBody, Lexeme.kind]
  cases unescape body with
  | ok value => rfl
  | error e => cases e <;> rfl

theorem exists_finds_string
    (hMark : IsMark mark) :
    ∃ r : TokenRule, r.Finds (mark :: cs) (stringLexeme mark cs) := by
  unfold stringLexeme
  cases hClose : closeQuote? mark cs with
  | some p => exact ⟨.string, finds_string hMark hClose⟩
  | none =>
      have hDigit : mark.isDigit = false := by
        rcases hMark with rfl | rfl <;> rfl
      have hString : TokenRule.string.front (mark :: cs) =
          quoted mark (mark :: cs) :=
        string_front_of_isMark hMark
      rw [quoted_of_unclosed hMark.ne_backslash hClose] at hString
      refine ⟨.unterminated, ?_, fun pos => rfl⟩
      exact token?_of_first [.float, .int, .string] _ rfl
        ((noneMatches_number hDigit).append (noneMatches_one hString))
        (unterminated_front_of_isMark hMark)

/- No string begins with another character. -/
theorem noneMatches_string
    (hMark : ¬ IsMark c) :
    NoneMatches [.string, .unterminated] (c :: cs) := by
  rcases not_or.mp hMark with ⟨hDouble, hSingle⟩
  have hString : TokenRule.string.front (c :: cs) = none := by
    rw [TokenRule.front, firstOf, List.findSome?_cons,
      quoted_of_ne cs hDouble, List.findSome?_cons,
      quoted_of_ne cs hSingle]
    rfl
  have hUnterminated : TokenRule.unterminated.front (c :: cs) = none := by
    apply andThen_eq_none
    rw [one_cons, if_neg]
    simp [hDouble, hSingle]
  exact (noneMatches_one hString).append (noneMatches_one hUnterminated)

end Strings

------------------------------------------------------------
-- Symbols by their spelling
------------------------------------------------------------

section Symbols

variable {c : Char}
variable {cs rest : List Char}
variable {symbols : List Symbol}
variable {s : Symbol}

/- The first symbol whose spelling a text begins with. -/
theorem symbolIn_eq
    (symbols : List Symbol)
    (cs : List Char) :
    symbolIn symbols cs =
      (symbols.find? (·.text.toList.isPrefixOf cs)).map fun s =>
        (s.text.toList, cs.drop s.text.toList.length) := by
  unfold symbolIn firstOf
  rw [List.findSome?_map]
  induction symbols with
  | nil => rfl
  | cons s symbols ih =>
      rw [List.findSome?_cons, List.find?_cons, ih]
      dsimp only [Function.comp_apply, literal]
      cases s.text.toList.isPrefixOf cs <;> rfl

theorem symbolIn_eq_none
    (h : ∀ s ∈ symbols, ¬ s.text.toList <+: cs) :
    symbolIn symbols cs = none := by
  have hNone : symbols.find? (·.text.toList.isPrefixOf cs) = none := by
    apply List.find?_eq_none.mpr
    intro s hs hPrefix
    exact h s hs (List.isPrefixOf_iff_prefix.mp hPrefix)
  rw [symbolIn_eq, hNone]
  rfl

/- The only symbol whose spelling a text begins with is taken. -/
theorem symbolIn_eq_some
    (hMem : s ∈ symbols)
    (hText : cs = s.text.toList ++ rest)
    (hOnly : ∀ t ∈ symbols, t.text.toList <+: cs → t = s) :
    symbolIn symbols cs = some (s.text.toList, rest) := by
  cases hFind : symbols.find? (·.text.toList.isPrefixOf cs) with
  | none =>
      have hNot := List.find?_eq_none.mp hFind s hMem
      rw [hText] at hNot
      exact absurd
        (List.isPrefixOf_iff_prefix.mpr (List.prefix_append _ _))
        hNot
  | some t =>
      have hPrefix : t.text.toList <+: cs := by
        simpa using List.find?_some hFind
      rcases hOnly t (List.mem_of_find?_eq_some hFind) hPrefix with rfl
      rw [symbolIn_eq, hFind, hText]
      simp

theorem symbolIn_inv
    {text : List Char}
    (h : symbolIn symbols cs = some (text, rest)) :
    ∃ s ∈ symbols, s.text.toList = text ∧ cs = text ++ rest := by
  rw [symbolIn_eq] at h
  rcases Option.map_eq_some_iff.mp h with ⟨s, hFind, hEq⟩
  rcases Prod.mk.inj hEq with ⟨rfl, rfl⟩
  refine ⟨s, List.mem_of_find?_eq_some hFind, rfl, ?_⟩
  have hPrefix : s.text.toList <+: cs := by
    simpa using List.find?_some hFind
  exact (List.prefix_iff_eq_append.mp hPrefix).symm

/- No two symbols are spelled alike. -/
theorem symbolOf?_text
    (s : Symbol) :
    symbolOf? s.text.toList = some s := by
  cases s <;> rfl

/- A symbol that is found by a rule has its value. -/
theorem value_symbol
    {r : TokenRule}
    (hRule : r ∈ [TokenRule.keyword, .operator, .punct])
    (s : Symbol)
    (pos : Position) :
    r.value s.text.toList pos = .ok (.symbol s) := by
  simp only [List.mem_cons, List.not_mem_nil, or_false] at hRule
  rcases hRule with rfl | rfl | rfl
  all_goals simp only [TokenRule.value, symbolOf?_text]

/- A symbol that is taken is found. -/
theorem finds_of_takes
    {r : TokenRule}
    {text : List Char}
    (hRule : r ∈ [TokenRule.keyword, .operator, .punct])
    (hText : s.text.toList = text)
    (hTake : token? cs = some (r, text, rest)) :
    r.Finds cs ⟨.symbol s, text, rest⟩ where
  takes := hTake
  value pos := by
    rw [← hText, value_symbol hRule]
    rfl

end Symbols

------------------------------------------------------------
-- Words
------------------------------------------------------------

section Words

variable {c : Char}
variable {cs rest : List Char}

/- No keyword begins with another one. -/
theorem keyword_eq_of_begins
    {s t : Symbol}
    (hs : s ∈ Symbol.keywords)
    (ht : t ∈ Symbol.keywords)
    (h : s.text.toList <+: t.text.toList) :
    s = t := by
  have hAll : ∀ s ∈ Symbol.keywords, ∀ t ∈ Symbol.keywords,
      s.text.toList <+: t.text.toList → s = t := by
    decide
  exact hAll s hs t ht h

/- Neither keywords nor names begin with another character. -/
theorem noneMatches_word
    (hWord : isWordStart c = false) :
    NoneMatches [.keyword, .ident] (c :: cs) := by
  have hTaken : symbolIn Symbol.keywords (c :: cs) = none := by
    apply symbolIn_eq_none
    rintro s hs ⟨rest, hText⟩
    have hIsWord := (keyword_isWord hs).1
    cases hChars : s.text.toList with
    | nil =>
        rw [hChars] at hIsWord
        exact hIsWord
    | cons d ds =>
        rw [hChars] at hIsWord hText
        rcases List.cons.inj hText with ⟨rfl, _⟩
        rw [hIsWord.1] at hWord
        cases hWord
  have hStart : one isWordStart (c :: cs) = none := by
    rw [one_cons, hWord]
    rfl
  have hKeyword : TokenRule.keyword.front (c :: cs) = none :=
    andThen_eq_none _ hTaken
  have hIdent : TokenRule.ident.front (c :: cs) = none :=
    andThen_eq_none _ hStart
  exact (noneMatches_one hKeyword).append (noneMatches_one hIdent)

theorem of_keyword?
    {w : List Char}
    {s : Symbol}
    (h : Symbol.keyword? (String.ofList w) = some s) :
    s ∈ Symbol.keywords ∧ s.text.toList = w := by
  have hText : s.text = String.ofList w := by
    simpa using List.find?_some h
  rw [hText, String.toList_ofList]
  exact ⟨List.mem_of_find?_eq_some h, rfl⟩

/- A keyword that a text begins with is part of its first word. -/
theorem keyword_begins_word
    {t : Symbol}
    (ht : t ∈ Symbol.keywords)
    (hPrefix : t.text.toList <+: cs) :
    t.text.toList <+: cs.takeWhile isWordChar := by
  rcases hPrefix with ⟨more, rfl⟩
  exact prefix_takeWhile (isWordChar_of_isWord (keyword_isWord ht).1) more

/- A word that is a keyword is taken as one. -/
theorem keyword_front_of_keyword?
    {s : Symbol}
    (h : Symbol.keyword? (String.ofList (cs.takeWhile isWordChar)) =
      some s) :
    TokenRule.keyword.front cs =
      some (cs.takeWhile isWordChar, cs.dropWhile isWordChar) := by
  rcases of_keyword? h with ⟨hMem, hText⟩
  have hTaken : symbolIn Symbol.keywords cs =
      some (s.text.toList, cs.dropWhile isWordChar) := by
    apply symbolIn_eq_some hMem
    · rw [hText, List.takeWhile_append_dropWhile]
    · intro t ht hPrefix
      apply keyword_eq_of_begins ht hMem
      rw [hText]
      exact keyword_begins_word ht hPrefix
  have hBehind :
      (cs.dropWhile isWordChar).head?.any isWordChar = false := by
    have hNot := List.head?_dropWhile_not isWordChar cs
    cases hHead : (cs.dropWhile isWordChar).head? with
    | none => rfl
    | some d => simpa [hHead] using hNot
  rw [TokenRule.front, andThen_eq _ hTaken, notBefore, hBehind, hText]
  simp

/- A word that is none is not taken as one, whatever it begins with. -/
theorem keyword_front_eq_none
    (h :
      Symbol.keyword? (String.ofList (cs.takeWhile isWordChar)) = none) :
    TokenRule.keyword.front cs = none := by
  cases hTaken : symbolIn Symbol.keywords cs with
  | none => exact andThen_eq_none _ hTaken
  | some p =>
      rcases p with ⟨text, left⟩
      rcases symbolIn_inv hTaken with ⟨s, hs, rfl, hText⟩
      rw [TokenRule.front, andThen_eq _ hTaken, notBefore]
      split
      · rfl
      · next hBehind =>
        rcases keyword_isWord hs with ⟨hWord, hSelf⟩
        have hStop : ∀ d ∈ left.head?, isWordChar d = false := by
          intro d hd
          rw [Option.mem_def.mp hd] at hBehind
          simpa using hBehind
        have hAll := (takeWhile_append_stop
          (isWordChar_of_isWord hWord) hStop).1
        rw [hText, hAll, String.ofList_toList, hSelf] at h
        cases h

theorem finds_keyword
    {s : Symbol}
    (hFront : NoneMatches [.float, .int, .string, .unterminated] cs)
    (h : Symbol.keyword? (String.ofList (cs.takeWhile isWordChar)) =
      some s) :
    TokenRule.keyword.Finds cs
      ⟨.word, cs.takeWhile isWordChar, cs.dropWhile isWordChar⟩ where
  takes := token?_of_first _ _ rfl hFront (keyword_front_of_keyword? h)
  value pos := by
    have hText := (of_keyword? h).2
    rw [← hText] at h ⊢
    rw [value_symbol (by decide)]
    simp only [Lexeme.kind, h]
    rfl

theorem finds_ident
    (hFront :
      NoneMatches [.float, .int, .string, .unterminated] (c :: cs))
    (hStart : isWordStart c = true)
    (h : Symbol.keyword?
      (String.ofList (c :: cs.takeWhile isWordChar)) = none)
    (hTake :
      (c :: cs).takeWhile isWordChar = c :: cs.takeWhile isWordChar) :
    TokenRule.ident.Finds (c :: cs)
      ⟨.word, c :: cs.takeWhile isWordChar, cs.dropWhile isWordChar⟩ where
  takes := by
    have hNot : TokenRule.keyword.front (c :: cs) = none := by
      apply keyword_front_eq_none
      rwa [hTake]
    have hOne : one isWordStart (c :: cs) = some ([c], cs) := by
      rw [one_cons, if_pos hStart]
    have hIdent : TokenRule.ident.front (c :: cs) =
        some (c :: cs.takeWhile isWordChar, cs.dropWhile isWordChar) := by
      rw [TokenRule.front, andThen_eq _ hOne]
      rfl
    exact token?_of_first [.float, .int, .string, .unterminated, .keyword]
      _ rfl (hFront.append (noneMatches_one hNot)) hIdent
  value pos := by
    simp only [Lexeme.kind, h]
    rfl

theorem exists_finds_word
    (hStart : isWordStart c = true) :
    ∃ r : TokenRule, r.Finds (c :: cs)
      ⟨.word, c :: cs.takeWhile isWordChar, cs.dropWhile isWordChar⟩ := by
  rcases wordStart_class hStart with ⟨_, _, hDigit, hQuote⟩
  have hMark : ¬ IsMark c := by simpa [IsMark] using hQuote
  have hFront : NoneMatches [.float, .int, .string, .unterminated]
      (c :: cs) :=
    (noneMatches_number hDigit).append (noneMatches_string hMark)
  have hChar := isWordChar_of_isWordStart hStart
  have hTake : (c :: cs).takeWhile isWordChar =
      c :: cs.takeWhile isWordChar := by
    rw [List.takeWhile_cons, if_pos hChar]
  have hDrop :
      (c :: cs).dropWhile isWordChar = cs.dropWhile isWordChar := by
    rw [List.dropWhile_cons, if_pos hChar]
  cases hKeyword :
      Symbol.keyword? (String.ofList (c :: cs.takeWhile isWordChar)) with
  | some s =>
      rw [← hTake] at hKeyword
      rw [← hTake, ← hDrop]
      exact ⟨.keyword, finds_keyword hFront hKeyword⟩
  | none => exact ⟨.ident, finds_ident hFront hStart hKeyword hTake⟩

end Words

------------------------------------------------------------
-- Operators and punctuation
------------------------------------------------------------

section Operators

variable {c : Char}
variable {cs : List Char}
variable {s : Symbol}

/-
  The operators and punctuation that a text begins with: the
  one of one character and the one of two, if there are such.
-/
theorem symbol_of_begins
    (hSymbol : s ∉ Symbol.keywords)
    (hPrefix : s.text.toList <+: c :: cs) :
    oneCharSymbol? c = some s ∨
      ∃ d ∈ cs.head?, twoCharSymbol? c d = some s := by
  rcases hPrefix with ⟨rest, hText⟩
  rcases symbol_cases hSymbol with
    ⟨d, hChars, hOne⟩ | ⟨d, e, hChars, hTwo⟩
  · rw [hChars] at hText
    rcases List.cons.inj hText with ⟨rfl, _⟩
    exact .inl hOne
  · rw [hChars] at hText
    rcases List.cons.inj hText with ⟨rfl, rfl⟩
    exact .inr ⟨e, rfl, hTwo⟩

/- Where the grammar has the symbols of two characters. -/
theorem twoCharSymbol?_place
    {d : Char}
    (h : twoCharSymbol? c d = some s) :
    s.text.toList = [c, d] ∧ s ∈ longOperators := by
  unfold twoCharSymbol? at h
  split at h <;> cases h <;> decide

/- Where the grammar has those of one. -/
theorem oneCharSymbol?_place
    (h : oneCharSymbol? c = some s) :
    s.text.toList = [c] ∧ s ∉ longOperators ∧
      (s ∈ shortOperators ∨ s ∉ shortOperators ∧ s ∈ punctuation) := by
  unfold oneCharSymbol? at h
  split at h <;> cases h <;> decide

theorem not_keyword
    (h : s ∈ longOperators ++ shortOperators ++ punctuation) :
    s ∉ Symbol.keywords := by
  have hAll : ∀ s ∈ longOperators ++ shortOperators ++ punctuation,
      s ∉ Symbol.keywords := by
    decide
  exact hAll s h

/- Longer operators are tried first. -/
theorem operator_front
    (cs : List Char) :
    TokenRule.operator.front cs =
      (symbolIn longOperators cs).or (symbolIn shortOperators cs) := by
  rw [TokenRule.front, operators, symbolIn, firstOf, List.map_append,
    List.findSome?_append]
  rfl

/- An operator of two characters is the only one of its length. -/
theorem long_front
    {d : Char}
    {ds : List Char}
    (h : twoCharSymbol? c d = some s) :
    TokenRule.operator.front (c :: d :: ds) = some ([c, d], ds) := by
  rcases twoCharSymbol?_place h with ⟨hText, hMem⟩
  have hTaken : symbolIn longOperators (c :: d :: ds) =
      some (s.text.toList, ds) := by
    apply symbolIn_eq_some hMem
    · rw [hText]
      rfl
    · intro t ht hPrefix
      have hKeyword : t ∉ Symbol.keywords := by
        apply not_keyword
        simp [ht]
      rcases symbol_of_begins hKeyword hPrefix with hOne | ⟨e, he, hTwo⟩
      · exact absurd ht (oneCharSymbol?_place hOne).2.1
      · rcases Option.some.inj he with rfl
        rw [h] at hTwo
        exact (Option.some.inj hTwo).symm
  rw [operator_front, hTaken, hText]
  rfl

section OneChar

/-
  No number, string or word begins here, and no operator of two
  characters.
-/
variable (hOther : NoneMatches
  [.float, .int, .string, .unterminated, .keyword, .ident] (c :: cs))
variable (hLonger : ∀ d ∈ cs.head?, twoCharSymbol? c d = none)

include hLonger in
theorem oneCharSymbol?_of_begins
    (hMem : s ∈ longOperators ++ shortOperators ++ punctuation)
    (hPrefix : s.text.toList <+: c :: cs) :
    oneCharSymbol? c = some s := by
  rcases symbol_of_begins (not_keyword hMem) hPrefix with
    hOne | ⟨d, hd, hTwo⟩
  · exact hOne
  · rw [hLonger d hd] at hTwo
    cases hTwo

include hLonger in
/- Symbols that are not the one of this character are not there. -/
theorem symbolIn_of_not_oneChar
    {symbols : List Symbol}
    (hSub : ∀ t ∈ symbols,
      t ∈ longOperators ++ shortOperators ++ punctuation)
    (hNot : ∀ t ∈ symbols, oneCharSymbol? c ≠ some t) :
    symbolIn symbols (c :: cs) = none := by
  apply symbolIn_eq_none
  intro t ht hPrefix
  exact hNot t ht (oneCharSymbol?_of_begins hLonger (hSub t ht) hPrefix)

include hLonger in
/- The symbol of this character is the only one that is there. -/
theorem symbolIn_of_oneChar
    {symbols : List Symbol}
    (hSub : ∀ t ∈ symbols,
      t ∈ longOperators ++ shortOperators ++ punctuation)
    (hOne : oneCharSymbol? c = some s)
    (hMem : s ∈ symbols) :
    symbolIn symbols (c :: cs) = some ([c], cs) := by
  have hText := (oneCharSymbol?_place hOne).1
  rw [← hText]
  apply symbolIn_eq_some hMem
  · rw [hText]
    rfl
  · intro t ht hPrefix
    have hOther := oneCharSymbol?_of_begins hLonger (hSub t ht) hPrefix
    rw [hOne] at hOther
    exact (Option.some.inj hOther).symm

include hLonger in
theorem operator_front_short :
    TokenRule.operator.front (c :: cs) =
      symbolIn shortOperators (c :: cs) := by
  have hLong : symbolIn longOperators (c :: cs) = none := by
    apply symbolIn_of_not_oneChar hLonger
    · simp +contextual
    · intro t ht hOne
      exact (oneCharSymbol?_place hOne).2.1 ht
  rw [operator_front, hLong, Option.none_or]

include hOther hLonger in
theorem exists_finds_oneChar :
    ∃ r : TokenRule, r.Finds (c :: cs) (oneCharLexeme c cs) := by
  have hOperator := operator_front_short hLonger
  have hShortSub : ∀ t ∈ shortOperators,
      t ∈ longOperators ++ shortOperators ++ punctuation := by
    simp +contextual
  have hPunctSub : ∀ t ∈ punctuation,
      t ∈ longOperators ++ shortOperators ++ punctuation := by
    simp +contextual
  unfold oneCharLexeme
  cases hOne : oneCharSymbol? c with
  | some s =>
      rcases oneCharSymbol?_place hOne with
        ⟨hText, _, hShort | ⟨hNotShort, hPunct⟩⟩
      · rw [symbolIn_of_oneChar hLonger hShortSub hOne hShort]
          at hOperator
        exact ⟨.operator, finds_of_takes (by decide) hText
          (token?_of_first _ _ rfl hOther hOperator)⟩
      · have hTaken : TokenRule.punct.front (c :: cs) = some ([c], cs) :=
          symbolIn_of_oneChar hLonger hPunctSub hOne hPunct
        have hNot : ∀ t ∈ shortOperators, oneCharSymbol? c ≠ some t := by
          intro t ht hSame
          rw [hOne] at hSame
          exact hNotShort (Option.some.inj hSame ▸ ht)
        rw [symbolIn_of_not_oneChar hLonger hShortSub hNot] at hOperator
        exact ⟨.punct, finds_of_takes (by decide) hText
          (token?_of_first _ _ rfl
            (hOther.append (noneMatches_one hOperator)) hTaken)⟩
  | none =>
      have hNot : ∀ t, oneCharSymbol? c ≠ some t := by simp [hOne]
      rw [symbolIn_of_not_oneChar hLonger hShortSub fun t _ => hNot t]
        at hOperator
      have hPunct : TokenRule.punct.front (c :: cs) = none :=
        symbolIn_of_not_oneChar hLonger hPunctSub fun t _ => hNot t
      exact ⟨.unknown, token?_of_first _ _ rfl
        ((hOther.append (noneMatches_one hOperator)).append
          (noneMatches_one hPunct)) rfl, fun pos => rfl⟩

end OneChar

theorem exists_finds_symbol
    (hOther : NoneMatches
      [.float, .int, .string, .unterminated, .keyword, .ident]
        (c :: cs)) :
    ∃ r : TokenRule, r.Finds (c :: cs) (symbolLexeme c cs) := by
  cases cs with
  | nil => exact exists_finds_oneChar hOther nofun
  | cons d ds =>
      rw [symbolLexeme]
      cases hTwo : twoCharSymbol? c d with
      | none =>
          apply exists_finds_oneChar hOther
          intro e he
          rcases Option.some.inj he with rfl
          exact hTwo
      | some s =>
          exact ⟨.operator,
            finds_of_takes (by decide) (twoCharSymbol?_place hTwo).1
              (token?_of_first _ _ rfl hOther (long_front hTwo))⟩

end Operators

------------------------------------------------------------
-- The first lexeme
------------------------------------------------------------

/-
  The rules for a token, the first of which that matches is
  taken for good, find the first lexeme of a text. So some rule
  always matches, and nothing that is taken is malformed.
-/
theorem exists_finds_firstLexeme
    (c : Char)
    (cs : List Char) :
    ∃ r : TokenRule, r.Finds (c :: cs) (firstLexeme c cs) := by
  cases hDigit : c.isDigit with
  | true =>
      rw [firstLexeme_of_isDigit hDigit]
      exact exists_finds_number hDigit
  | false =>
      by_cases hMark : IsMark c
      · rw [firstLexeme_of_isMark hMark]
        exact exists_finds_string hMark
      cases hWord : isWordStart c with
      | true =>
          rw [firstLexeme_of_isWordStart hWord]
          exact exists_finds_word hWord
      | false =>
          have hQuote : (c = '"' || c = '\'') = false := by
            simpa [IsMark] using hMark
          rw [firstLexeme_eq_symbolLexeme cs hDigit hQuote hWord]
          exact exists_finds_symbol
            (((noneMatches_number hDigit).append
              (noneMatches_string hMark)).append (noneMatches_word hWord))

end Grammar

end DynScript
