import DynScript.Json.Numeral
import DynScript.Proofs.Decimal.ReadsBack
import DynScript.Proofs.Token.Scanning
import DynScript.Syntax.Dump

/-
  The numbers in JSON texts. A numeral is spelled from its
  parts, and its parts are found again wherever the text behind
  it does not go on with it. Whole numbers are written as
  numerals, and read back from them.

  Key definitions include:
    * `Json.Numeral.spelling`
    * `Json.Numeral.Valid`
    * `Json.Numeral.StopsAt`
    * `Json.IsNumeral`

  Main statements include:
    * `Json.Numeral.split?_spelling`
    * `Json.isNumeral_toString`
    * `Json.number?_toString`
-/

namespace DynScript

namespace Json

namespace Numeral

------------------------------------------------------------
-- Spelling
------------------------------------------------------------

/- The characters of an exponent; it always has a sign. -/
def exponentSpelling : Option (Bool × List Char) → List Char
  | none => []
  | some (negative, ds) => 'e' :: (if negative then '-' else '+') :: ds

/- The characters of a fraction, which may be missing. -/
def fractionSpelling
    (fraction : List Char) : List Char :=
  if fraction = [] then [] else '.' :: fraction

/- The characters that a numeral is written with. -/
def spelling
    (n : Numeral) : List Char :=
  (if n.negative then ['-'] else []) ++
    (n.whole ++
      (fractionSpelling n.fraction ++ exponentSpelling n.exponent))

/- Digits only. -/
def AllDigits
    (cs : List Char) : Prop :=
  ∀ c ∈ cs, c.isDigit = true

/-
  The numerals that JSON has: there are digits before the
  point, without a zero in front of others, and digits in an
  exponent.
-/
structure Valid
    (n : Numeral) : Prop where
  some_whole : n.whole ≠ []
  whole : AllDigits n.whole
  leading : ∀ c cs, n.whole ≠ '0' :: c :: cs
  fraction : AllDigits n.fraction
  exponent : ∀ p ∈ n.exponent, p.2 ≠ [] ∧ AllDigits p.2

/- A text that does not go on with a numeral. -/
def StopsAt
    (rest : List Char) : Prop :=
  ∀ c ∈ rest.head?, c.isDigit = false ∧ c ≠ '.' ∧ c ≠ 'e' ∧ c ≠ 'E'

------------------------------------------------------------
-- The parts of a numeral
------------------------------------------------------------

section Parts

variable {ds rest : List Char}

/- Digits are cut off before what is none. -/
theorem digits?_append
    (hSome : ds ≠ [])
    (hDigits : AllDigits ds)
    (hRest : ∀ c ∈ rest.head?, c.isDigit = false) :
    digits? (ds ++ rest) = some (ds, rest) := by
  rcases takeWhile_append_stop hDigits hRest with ⟨hTake, hDrop⟩
  unfold digits?
  rw [hTake, hDrop]
  simp [hSome]

theorem whole?_append
    (hSome : ds ≠ [])
    (hDigits : AllDigits ds)
    (hLeading : ∀ c cs, ds ≠ '0' :: c :: cs)
    (hRest : ∀ c ∈ rest.head?, c.isDigit = false) :
    whole? (ds ++ rest) = some (ds, rest) := by
  unfold whole?
  rw [digits?_append hSome hDigits hRest]
  split
  · next c cs _ hEq =>
    exact absurd (congrArg Prod.fst (Option.some.inj hEq)) (hLeading c cs)
  · rfl

theorem fraction?_append
    (hDigits : AllDigits ds)
    (hRest : ∀ c ∈ rest.head?, c.isDigit = false ∧ c ≠ '.') :
    fraction? (fractionSpelling ds ++ rest) = some (ds, rest) := by
  unfold fractionSpelling
  split
  · next hNone =>
    subst hNone
    cases rest with
    | nil => rfl
    | cons c rest =>
        rw [List.nil_append]
        unfold fraction?
        split
        · next hEq =>
          exact absurd (List.cons.inj hEq).1 (hRest c rfl).2
        · rfl
  · next hSome =>
    exact digits?_append hSome hDigits fun c hc => (hRest c hc).1

theorem exponent?_append
    {e : Option (Bool × List Char)}
    (hDigits : ∀ p ∈ e, p.2 ≠ [] ∧ AllDigits p.2)
    (hRest : StopsAt rest) :
    exponent? (exponentSpelling e ++ rest) = some (e, rest) := by
  cases e with
  | none =>
      cases rest with
      | nil => rfl
      | cons c rest =>
          rcases hRest c rfl with ⟨_, _, hLower, hUpper⟩
          simp [exponentSpelling, exponent?, hLower, hUpper]
  | some p =>
      rcases p with ⟨negative, ds⟩
      rcases hDigits _ rfl with ⟨hSome, hAll⟩
      have hFound := digits?_append hSome hAll fun c hc => (hRest c hc).1
      cases negative with
      | true => simp [exponentSpelling, exponent?, hFound]
      | false => simp [exponentSpelling, exponent?, hFound]

end Parts

/- What stands behind the whole part goes on with no digit. -/
theorem head_behind_whole
    {rest : List Char}
    (fraction : List Char)
    (e : Option (Bool × List Char))
    (hRest : StopsAt rest) :
    ∀ c ∈ (fractionSpelling fraction ++
        (exponentSpelling e ++ rest)).head?, c.isDigit = false := by
  intro c hc
  unfold fractionSpelling at hc
  split at hc
  · rcases e with _ | ⟨negative, ds⟩
    · exact (hRest c hc).1
    · rcases Option.some.inj hc with rfl
      rfl
  · rcases Option.some.inj hc with rfl
    rfl

/- What stands behind the fraction goes on with no digit and no point. -/
theorem head_behind_fraction
    {rest : List Char}
    (e : Option (Bool × List Char))
    (hRest : StopsAt rest) :
    ∀ c ∈ (exponentSpelling e ++ rest).head?,
      c.isDigit = false ∧ c ≠ '.' := by
  intro c hc
  rcases e with _ | ⟨negative, ds⟩
  · exact ⟨(hRest c hc).1, (hRest c hc).2.1⟩
  · rcases Option.some.inj hc with rfl
    exact ⟨rfl, by decide⟩

/- A numeral is cut off as it is spelled. -/
theorem split?_spelling
    {n : Numeral}
    {rest : List Char}
    (h : n.Valid)
    (hRest : StopsAt rest) :
    split? (n.spelling ++ rest) = some (n, rest) := by
  rcases n with ⟨negative, whole, fraction, e⟩
  have hWhole := whole?_append h.some_whole h.whole h.leading
    (head_behind_whole fraction e hRest)
  have hFraction := fraction?_append h.fraction
    (head_behind_fraction e hRest)
  have hExponent := exponent?_append h.exponent hRest
  rcases List.exists_cons_of_ne_nil h.some_whole with ⟨d, ds, rfl⟩
  have hMinus : d ≠ '-' := by
    rintro rfl
    exact absurd (h.whole '-' List.mem_cons_self) (by decide)
  rw [List.cons_append] at hWhole
  cases negative with
  | true =>
      simp [split?, spelling, hWhole, hFraction, hExponent]
  | false =>
      simp [split?, spelling, hMinus, hWhole, hFraction, hExponent]

/- The first character of a numeral. -/
theorem head_spelling
    {n : Numeral}
    (h : n.Valid) :
    ∃ c cs, n.spelling = c :: cs ∧ (c = '-' ∨ c.isDigit = true) := by
  rcases List.exists_cons_of_ne_nil h.some_whole with ⟨d, ds, hWhole⟩
  unfold spelling
  rw [hWhole]
  cases n.negative with
  | true => exact ⟨_, _, rfl, .inl rfl⟩
  | false =>
      refine ⟨_, _, rfl, .inr (h.whole d ?_)⟩
      rw [hWhole]
      exact List.mem_cons_self

end Numeral

/- A text that is a numeral, all of it. -/
def IsNumeral
    (literal : String) : Prop :=
  ∃ n : Numeral, n.Valid ∧ literal.toList = n.spelling

------------------------------------------------------------
-- Whole numbers
------------------------------------------------------------

/- No number but zero begins with a zero. -/
theorem head_toDigits
    {n : Nat}
    (hPos : 0 < n)
    (cs : List Char) :
    Nat.toDigits 10 n ≠ '0' :: cs := by
  induction n using Nat.strongRecOn generalizing cs with
  | ind n ih =>
      by_cases hOne : n < 10
      · rw [Nat.toDigits_of_lt_base hOne]
        intro hEq
        have hDigit := (List.cons.inj hEq).1
        interval_cases n <;> exact absurd hDigit (by decide)
      · rw [Nat.toDigits_of_base_le (by decide) (by omega)]
        intro hEq
        rcases List.exists_cons_of_ne_nil
          (Nat.toDigits_ne_nil (b := 10) (n := n / 10)) with
        ⟨d, ds, hDigits⟩
        rw [hDigits, List.cons_append] at hEq
        rcases (List.cons.inj hEq).1 with rfl
        exact ih (n / 10) (by omega) (by omega) ds hDigits

/- No zero stands in front of other digits. -/
theorem leading_toDigits
    (n : Nat)
    (c : Char)
    (cs : List Char) :
    Nat.toDigits 10 n ≠ '0' :: c :: cs := by
  rcases Nat.eq_zero_or_pos n with rfl | hPos
  · intro hEq
    cases hEq
  · exact head_toDigits hPos (c :: cs)

/- The numeral of a whole number. -/
def Numeral.ofInt
    (i : Int) : Numeral :=
  ⟨decide (i < 0), Nat.toDigits 10 i.natAbs, [], none⟩

theorem Numeral.valid_ofInt
    (i : Int) :
    (Numeral.ofInt i).Valid where
  some_whole := Nat.toDigits_ne_nil
  whole := fun _ hc => Decimal.isDigit_toDigits hc
  leading := leading_toDigits i.natAbs
  fraction := fun _ hc => by cases hc
  exponent := fun _ hp => by cases hp

/- A whole number is written as its numeral. -/
theorem toList_toString
    (i : Int) :
    (toString i).toList = (Numeral.ofInt i).spelling := by
  cases i with
  | ofNat n =>
      change (String.ofList (Nat.toDigits 10 n)).toList = _
      rw [String.toList_ofList]
      simp [Numeral.ofInt, Numeral.spelling, Numeral.fractionSpelling,
        Numeral.exponentSpelling]
  | negSucc n =>
      change ("-" ++ String.ofList (Nat.toDigits 10 (n + 1))).toList = _
      rw [String.toList_append, String.toList_ofList]
      simp [Numeral.ofInt, Numeral.spelling, Numeral.fractionSpelling,
        Numeral.exponentSpelling]

theorem isNumeral_toString
    (i : Int) :
    IsNumeral (toString i) :=
  ⟨.ofInt i, Numeral.valid_ofInt i, toList_toString i⟩

/- More digits make no number smaller. -/
theorem le_ofDigitChars
    (ds : List Char)
    (n : Nat) :
    n ≤ Nat.ofDigitChars 10 ds n := by
  induction ds generalizing n with
  | nil => exact Nat.le_refl n
  | cons d ds ih =>
      rw [Nat.ofDigitChars_cons]
      exact Nat.le_trans (by omega) (ih _)

/- Digits are taken over while their number is small enough. -/
theorem Numeral.accumulate_eq
    {significand : Nat}
    {ds : List Char}
    (h : Nat.ofDigitChars 10 ds significand ≤ maxDigits) :
    accumulate significand ds =
      (Nat.ofDigitChars 10 ds significand, []) := by
  induction ds generalizing significand with
  | nil => rfl
  | cons d ds ih =>
      rw [Nat.ofDigitChars_cons] at h ⊢
      have hNext : 10 * significand + Decimal.digitValue d ≤ maxDigits :=
        Nat.le_trans (le_ofDigitChars ds _) h
      rw [accumulate, if_pos hNext]
      exact ih h

/- What is read for a whole number of 64 bits is that number. -/
theorem number?_toString
    {i : Int}
    (h : fits i = true) :
    Dump.number? (toString i) = some (.whole i) := by
  have hSplit : Numeral.split? ((Numeral.ofInt i).spelling ++ []) =
      some (Numeral.ofInt i, []) :=
    Numeral.split?_spelling (Numeral.valid_ofInt i) nofun
  rw [List.append_nil] at hSplit
  rw [Dump.number?, toList_toString, hSplit]
  change (Numeral.ofInt i).value? = _
  have hFits : -9223372036854775808 ≤ i ∧ i ≤ 9223372036854775807 := by
    have hHigh : Int64.maxValue.toInt = 9223372036854775807 := by decide
    simpa [fits, hHigh] using h
  have hSmall : i.natAbs ≤ Numeral.maxDigits := by
    unfold Numeral.maxDigits
    omega
  have hDigits : Numeral.accumulate 0 (Nat.toDigits 10 i.natAbs) =
      (i.natAbs, []) := by
    have hNumber := Nat.ofDigitChars_ten_toDigits (n := i.natAbs)
    rw [Numeral.accumulate_eq (by rw [hNumber]; exact hSmall), hNumber]
  have hSign : Decimal.signBit = 9223372036854775808 := by decide
  unfold Numeral.value? Numeral.ofInt
  simp only [hDigits, List.isEmpty_nil, Option.isNone_none, Bool.and_self,
    if_true]
  by_cases hNegative : i < 0
  · have hBound : 0 < i.natAbs ∧ i.natAbs ≤ Decimal.signBit := by
      omega
    have hValue : (-(i.natAbs : Int)) = i := by omega
    rw [decide_eq_true hNegative, if_neg (by simp),
      if_pos (by simpa using hBound), hValue]
  · have hValue : (i.natAbs : Int) = i := by omega
    rw [decide_eq_false hNegative, if_pos (by rfl), hValue]

end Json

end DynScript
