import DynScript.Proofs.Decimal.ReadsBack
import DynScript.Proofs.Token.Scanning
import DynScript.Syntax.Printer

/-
  The literals of the printer are scanned to the values they
  were written for, and only values that can be written come
  out of scanning.

  Key definitions include:
    * `TokenKind.Writable`

  Main statements include:
    * `scans_int`
    * `scans_float`
    * `scans_string`
    * `writable_of_scan`
-/

namespace DynScript

------------------------------------------------------------
-- Numbers
------------------------------------------------------------

/- A digit begins no other lexeme and no gap. -/
theorem digit_class
    {c : Char}
    (h : c.isDigit = true) :
    isGapChar c = false ∧ c ≠ '/' ∧ isWordChar c = true := by
  have hNot : ∀ d : Char, d.isDigit = false → c ≠ d := by
    rintro d hd rfl
    rw [h] at hd
    cases hd
  refine ⟨?_, hNot '/' (by decide), ?_⟩
  · apply Bool.eq_false_iff.mpr
    intro hGap
    rcases isGapChar_iff.mp hGap with rfl | rfl | rfl | rfl <;>
      exact absurd h (by decide)
  · simp [isWordChar, Char.isAlphanum, h]

/- No digit stands at a boundary. -/
theorem Boundary.not_digit
    {rest : List Char}
    (h : Boundary rest) :
    ∀ c ∈ rest.head?, c.isDigit = false := by
  intro c hc
  apply Bool.eq_false_iff.mpr
  intro hDigit
  have hWord := (digit_class hDigit).2.2
  rw [(h c hc).1] at hWord
  cases hWord

/- Digits that no point follows. -/
theorem numberLexeme_int
    {ds rest : List Char}
    (hDigits : ∀ d ∈ ds, d.isDigit = true)
    (hRest : Boundary rest) :
    numberLexeme (ds ++ rest) = ⟨.int ds, ds, rest⟩ := by
  rcases takeWhile_append_stop hDigits hRest.not_digit with
    ⟨hTake, hDrop⟩
  unfold numberLexeme
  rw [hTake, hDrop]
  cases rest with
  | nil => rfl
  | cons c cs =>
      have hPoint := (hRest c rfl).2
      split
      · next hEq => exact absurd (List.cons.inj hEq).1 hPoint
      · rfl

/- Digits with a point and digits behind it. -/
theorem numberLexeme_float
    {whole fraction rest : List Char}
    (hWhole : ∀ d ∈ whole, d.isDigit = true)
    (hFraction : ∀ d ∈ fraction, d.isDigit = true)
    (hNe : fraction ≠ [])
    (hRest : Boundary rest) :
    numberLexeme (whole ++ '.' :: fraction ++ rest) =
      ⟨.float whole fraction, whole ++ '.' :: fraction, rest⟩ := by
  rcases @takeWhile_append_stop _ _ ('.' :: (fraction ++ rest))
      hWhole (by simp) with ⟨hTake, hDrop⟩
  rcases takeWhile_append_stop hFraction hRest.not_digit with
    ⟨hTakePlaces, hDropPlaces⟩
  rcases List.exists_cons_of_ne_nil hNe with ⟨d, ds, rfl⟩
  unfold numberLexeme
  rw [List.append_assoc, List.cons_append, hTake, hDrop,
    List.cons_append]
  simp only [hFraction d (List.mem_cons_self ..), if_true]
  rw [← List.cons_append, hTakePlaces, hDropPlaces]

/- A number is a token when its lexeme ends with it. -/
theorem scans_number
    {cls : LexemeClass}
    {text rest : List Char}
    {k : TokenKind}
    (hFirst : ∃ c cs, text = c :: cs ∧ c.isDigit = true)
    (hLexeme : numberLexeme (text ++ rest) = ⟨cls, text, rest⟩)
    (hKind : ∀ pos, Lexeme.kind ⟨cls, text, rest⟩ pos = .ok k) :
    Scans text [k] rest := by
  rcases hFirst with ⟨c, cs, rfl, hDigit⟩
  rcases digit_class hDigit with ⟨hGap, hSlash, _⟩
  have hWhole :
      firstLexeme c (cs ++ rest) = ⟨cls, c :: cs, rest⟩ := by
    unfold firstLexeme
    rw [hDigit]
    exact hLexeme
  apply scans_lexeme hGap
  · intro hEq
    exact absurd hEq hSlash
  · rw [hWhole]
  · intro pos
    rw [hWhole]
    exact hKind pos

/- The text of an integer without a sign. -/
theorem int_digits
    {i : Int64}
    (hSign : 0 ≤ i.toInt) :
    (toString i.toInt).toList = Nat.toDigits 10 i.toInt.toNat := by
  rw [Int.toString_eq_repr, Int.repr_eq_if, if_pos hSign,
    Nat.toList_repr]

/- It begins with a digit. -/
theorem int_begins
    {i : Int64}
    (hSign : 0 ≤ i.toInt) :
    ∃ c cs, (toString i.toInt).toList = c :: cs ∧
      c.isDigit = true := by
  rw [int_digits hSign]
  rcases List.exists_cons_of_ne_nil
    (@Nat.toDigits_ne_nil i.toInt.toNat 10) with ⟨c, cs, hCons⟩
  have hMem : c ∈ Nat.toDigits 10 i.toInt.toNat := by
    rw [hCons]
    exact List.mem_cons_self ..
  exact ⟨c, cs, hCons, Decimal.isDigit_toDigits hMem⟩

/- An integer without a sign. -/
theorem scans_int
    {i : Int64}
    {rest : List Char}
    (hSign : 0 ≤ i.toInt)
    (hRest : Boundary rest) :
    Scans (toString i.toInt).toList [.int i] rest := by
  have hRange : i.toInt.toNat ≤ maxInt := by
    have hLt := i.toInt_lt
    unfold maxInt
    omega
  have hValue : Int64.ofNat i.toInt.toNat = i := by
    apply Int64.toInt_inj.mp
    rw [Int64.toInt_ofNat_of_lt (by unfold maxInt at hRange; omega)]
    omega
  apply scans_number (int_begins hSign)
  · rw [int_digits hSign]
    exact numberLexeme_int (fun _ => Decimal.isDigit_toDigits) hRest
  · intro pos
    simp only [Lexeme.kind, Decimal.natOfDigits_toDigits, hRange,
      if_true, hValue]

/- The text of a floating point number begins with a digit. -/
theorem float_begins
    {x : Float}
    (hFinite : Decimal.isFinite x = true)
    (hSign : Decimal.isNegative x = false) :
    ∃ c cs, (floatLiteral x).toList = c :: cs ∧ c.isDigit = true := by
  rcases Decimal.floatLiteral_reads_back hFinite hSign with
    ⟨whole, fraction, hText, hLiteral⟩
  rcases List.exists_cons_of_ne_nil hLiteral.whole_ne_nil with
    ⟨c, cs, rfl⟩
  exact ⟨c, cs ++ '.' :: fraction, hText,
    hLiteral.isDigit_of_mem c (List.mem_cons_self ..)⟩

/- A floating point number without a sign. -/
theorem scans_float
    {x : Float}
    {rest : List Char}
    (hFinite : Decimal.isFinite x = true)
    (hSign : Decimal.isNegative x = false)
    (hRest : Boundary rest) :
    Scans (floatLiteral x).toList [.float x] rest := by
  rcases Decimal.floatLiteral_reads_back hFinite hSign with
    ⟨whole, fraction, hText, hLiteral⟩
  have hWhole : ∀ d ∈ whole, d.isDigit = true :=
    fun d hd => hLiteral.isDigit_of_mem d (List.mem_append_left _ hd)
  have hFraction : ∀ d ∈ fraction, d.isDigit = true :=
    fun d hd => hLiteral.isDigit_of_mem d (List.mem_append_right _ hd)
  apply scans_number (float_begins hFinite hSign)
  · rw [hText]
    exact numberLexeme_float hWhole hFraction
      hLiteral.fraction_ne_nil hRest
  · intro pos
    simp [Lexeme.kind, hLiteral.nearest_eq, hFinite]

------------------------------------------------------------
-- Strings
------------------------------------------------------------

/- A character of a literal does not close it. -/
theorem closeQuote?_escapeLiteral
    {cs body rest : List Char}
    (c : Char)
    (h : closeQuote? '"' cs = some (body, rest)) :
    closeQuote? '"' (escapeLiteral c ++ cs) =
      some (escapeLiteral c ++ body, rest) := by
  unfold escapeLiteral
  split
  case h_7 hQuote hBackslash _ _ _ _ =>
    -- A plain character is neither a mark nor a backslash.
    rw [List.singleton_append, closeQuote?_cons _ hBackslash,
      if_neg hQuote, h]
    rfl
  all_goals simp [closeQuote?, h]

/- A character of a literal is read as itself. -/
theorem unescape_escapeLiteral
    {cs text : List Char}
    (c : Char)
    (h : unescape cs = .ok text) :
    unescape (escapeLiteral c ++ cs) = .ok (c :: text) := by
  unfold escapeLiteral
  split
  case h_7 _ hBackslash _ _ _ _ =>
    rw [List.singleton_append, unescape_cons _ hBackslash, h]
    rfl
  all_goals simp [unescape, escaped?, h, Except.map]

/-
  The body of a literal ends at its quote mark and denotes
  its text.
-/
theorem string_reads_back
    (text rest : List Char) :
    closeQuote? '"' (text.flatMap escapeLiteral ++ '"' :: rest) =
        some (text.flatMap escapeLiteral, rest) ∧
      unescape (text.flatMap escapeLiteral) = .ok text := by
  induction text with
  | nil =>
      constructor
      · simp [closeQuote?]
      · rfl
  | cons c cs ih =>
      rw [List.flatMap_cons, List.append_assoc]
      exact ⟨closeQuote?_escapeLiteral c ih.1,
        unescape_escapeLiteral c ih.2⟩

/- A literal is its body between two marks. -/
theorem toList_quoteLiteral
    (s : String) :
    (quoteLiteral s).toList =
      '"' :: (s.toList.flatMap escapeLiteral ++ ['"']) := by
  simp [quoteLiteral]

/-
  The first lexeme of a text that begins with a literal is the
  literal.
-/
theorem firstLexeme_quoteLiteral
    (s : String)
    (rest : List Char) :
    firstLexeme '"' (s.toList.flatMap escapeLiteral ++ '"' :: rest) =
      ⟨.str (s.toList.flatMap escapeLiteral), (quoteLiteral s).toList,
        rest⟩ := by
  rcases string_reads_back s.toList rest with ⟨hClose, _⟩
  rw [toList_quoteLiteral]
  simp [firstLexeme, stringLexeme, hClose]

/- Its token has the text as its value. -/
theorem kind_quoteLiteral
    (s : String)
    (text rest : List Char)
    (pos : Position) :
    Lexeme.kind ⟨.str (s.toList.flatMap escapeLiteral), text, rest⟩ pos =
      .ok (.str s) := by
  rcases string_reads_back s.toList rest with ⟨_, hText⟩
  simp [Lexeme.kind, hText]

/- A string, whatever stands behind it. -/
theorem scans_string
    (s : String)
    (rest : List Char) :
    Scans (quoteLiteral s).toList [.str s] rest := by
  have hLexeme :
      firstLexeme '"'
          (s.toList.flatMap escapeLiteral ++ ['"'] ++ rest) =
        ⟨.str (s.toList.flatMap escapeLiteral),
          (quoteLiteral s).toList, rest⟩ := by
    rw [List.append_assoc, List.singleton_append]
    exact firstLexeme_quoteLiteral s rest
  rw [toList_quoteLiteral] at hLexeme ⊢
  apply scans_lexeme (by decide)
  · intro hEq
    exact absurd hEq (by decide)
  · rw [hLexeme]
  · intro pos
    rw [hLexeme]
    exact kind_quoteLiteral s _ _ pos

------------------------------------------------------------
-- What is scanned can be written
------------------------------------------------------------

/- The tokens that have a literal or are a name. -/
def TokenKind.Writable : TokenKind → Prop
  | .ident name => IsName name
  | .int i => 0 ≤ i.toInt
  | .float x =>
    Decimal.isFinite x = true ∧ Decimal.isNegative x = false
  | .str _ => True
  | .symbol _ => True

/- A lexeme that is a word has the text of one. -/
theorem isWord_of_firstLexeme
    {c : Char}
    {cs : List Char}
    (h : (firstLexeme c cs).cls = .word) :
    IsWord (firstLexeme c cs).text := by
  unfold firstLexeme at *
  split at h
  · unfold numberLexeme at h
    split at h
    · split at h <;> cases h
    · cases h
  · split at h
    · unfold stringLexeme at h
      split at h <;> cases h
    · split at h
      · next hDigit hQuote hStart =>
        rw [if_neg hDigit, if_neg hQuote, if_pos hStart]
        exact ⟨hStart, List.all_takeWhile⟩
      · unfold symbolLexeme oneCharLexeme at h
        repeat' split at h
        all_goals cases h

/- The token of a lexeme can be written. -/
theorem writable_of_kind
    {c : Char}
    {cs : List Char}
    {pos : Position}
    {k : TokenKind}
    (h : (firstLexeme c cs).kind pos = .ok k) :
    k.Writable := by
  unfold Lexeme.kind at h
  dsimp only at h
  split at h
  · -- A floating point number.
    split at h <;> cases h
    next hFinite =>
    exact ⟨hFinite, Decimal.isNegative_nearest hFinite⟩
  · -- An integer.
    split at h <;> cases h
    next hRange =>
    unfold maxInt at hRange
    change 0 ≤ (Int64.ofNat _).toInt
    rw [Int64.toInt_ofNat_of_lt (by omega)]
    exact Int.natCast_nonneg _
  · -- A string.
    split at h <;> cases h
    exact trivial
  · cases h
  · -- A word.
    next hWord =>
    split at h <;> cases h
    · exact trivial
    · next hName =>
      refine ⟨?_, ?_⟩
      · rw [String.toList_ofList]
        exact isWord_of_firstLexeme hWord
      · intro s hs hEq
        have hNot := List.find?_eq_none.mp hName s hs
        rw [hEq] at hNot
        exact hNot (beq_self_eq_true _)
  · cases h
    exact trivial
  · cases h

/- All tokens of a text can be written. -/
theorem writable_of_scan
    (pos : Position)
    (cs : List Char) :
    ∀ k ∈ kinds (TokenStream.scan pos cs).tokens, k.Writable := by
  fun_induction TokenStream.scan pos cs with
  | case1 => simp
  | case2 => simp
  | case3 pos cs gap c rest hGap start l k hKind s ih =>
      rw [kinds_cons]
      intro kind hMem
      rcases List.mem_cons.mp hMem with rfl | hMem
      · exact writable_of_kind hKind
      · exact ih kind hMem

end DynScript
