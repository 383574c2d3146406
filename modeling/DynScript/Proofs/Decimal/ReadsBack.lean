import DynScript.Proofs.Decimal.Pattern
import DynScript.Syntax.Printer

/-
  A floating point literal denotes the number it was written
  for: the shortest decimal lies between the midpoints around
  its pattern, wherever the point is put, and reading it back
  rounds to the pattern.

  Key definitions include:
    * `Decimal.LiteralOf`

  Main statements include:
    * `Decimal.shortest_surrounds`
    * `Decimal.nearestBits_eq`
    * `Decimal.floatLiteral_reads_back`
-/

namespace DynScript.Decimal

------------------------------------------------------------
-- Digits
------------------------------------------------------------

/- The number of a list of digits is the one of the library. -/
theorem natOfDigits_eq
    (cs : List Char) :
    natOfDigits cs = Nat.ofDigitChars 10 cs 0 := by
  rw [Nat.ofDigitChars_eq_foldl]
  rfl

@[simp]
theorem natOfDigits_toDigits
    (n : Nat) :
    natOfDigits (Nat.toDigits 10 n) = n := by
  rw [natOfDigits_eq]
  exact Nat.ofDigitChars_ten_toDigits

/- Zeros behind a number are powers of ten. -/
theorem natOfDigits_append_zeros
    (cs : List Char)
    (n : Nat) :
    natOfDigits (cs ++ List.replicate n '0') =
      natOfDigits cs * 10 ^ n := by
  rw [natOfDigits_eq, natOfDigits_eq, Nat.ofDigitChars_append,
    Nat.ofDigitChars_replicate_zero, Nat.mul_comm]

/- Zeros before a number change nothing. -/
theorem natOfDigits_zeros_append
    (n : Nat)
    (cs : List Char) :
    natOfDigits (List.replicate n '0' ++ cs) = natOfDigits cs := by
  rw [natOfDigits_eq, natOfDigits_eq, Nat.ofDigitChars_append,
    Nat.ofDigitChars_replicate_zero, Nat.mul_zero]

------------------------------------------------------------
-- Between the midpoints
------------------------------------------------------------

/- Consecutive patterns are consecutive magnitudes. -/
theorem unitsOfBits_lt_succ
    (b : Nat) :
    unitsOfBits b < unitsOfBits (b + 1) := by
  rcases exists_shift b with ⟨s, m, rfl, hFull, hPlaces⟩
  have hSelf : unitsOfBits (s * binade + m) = m * 2 ^ s :=
    unitsOfBits_shift hFull (by omega)
  have hNext :
      unitsOfBits (s * binade + m + 1) = (m + 1) * 2 ^ s := by
    rw [Nat.add_assoc]
    exact unitsOfBits_shift (by omega) (by omega)
  rw [hSelf, hNext]
  exact Nat.mul_lt_mul_of_pos_right (Nat.lt_succ_self m)
    (Nat.two_pow_pos s)

/- Lying between the midpoints is a matter of the quotient alone. -/
theorem Surrounds.of_ratio
    {b num den num' den' : Nat}
    (h : Surrounds b num den)
    (hDen : 0 < den)
    (hDen' : 0 < den')
    (hRatio : num * den' = num' * den) :
    Surrounds b num' den' := by
  rcases h with ⟨hLow, hHigh, hTie⟩
  have hTwice : 2 * num * den' = 2 * num' * den := by
    rw [Nat.mul_assoc, Nat.mul_assoc, hRatio]
  have hSwap : ∀ u : Nat, u * den * den' = u * den' * den := by
    intro u
    ring
  refine ⟨?_, ?_, ?_⟩
  · apply Nat.le_of_mul_le_mul_right _ hDen
    rw [← hTwice, ← hSwap]
    exact Nat.mul_le_mul_right den' hLow
  · apply Nat.le_of_mul_le_mul_right _ hDen
    rw [← hTwice, ← hSwap]
    exact Nat.mul_le_mul_right den' hHigh
  · intro hMid
    apply hTie
    rcases hMid with hMid | hMid
    · left
      apply Nat.eq_of_mul_eq_mul_right hDen'
      rw [hSwap, hMid, hTwice]
    · right
      apply Nat.eq_of_mul_eq_mul_right hDen'
      rw [hSwap, ← hMid, hTwice]

/- A pattern lies between its own midpoints. -/
theorem surrounds_self
    {b : Nat}
    (hPos : 0 < b)
    (den : Nat)
    (hDen : 0 < den) :
    Surrounds b (unitsOfBits b * den) den := by
  have hPrev := unitsOfBits_lt_succ (b - 1)
  have hNext := unitsOfBits_lt_succ b
  rw [Nat.sub_add_cancel hPos] at hPrev
  have hLow := Nat.mul_lt_mul_of_pos_right hPrev hDen
  have hHigh := Nat.mul_lt_mul_of_pos_right hNext hDen
  unfold Surrounds
  rw [Nat.add_mul, Nat.add_mul]
  omega

/- A power of ten, in fives and twos. -/
theorem pow_ten_eq
    (n : Nat) :
    10 ^ n = Nat.pow 5 n * twoTo n :=
  Nat.mul_pow 5 2 n

/-
  The same decimal with its units in fives and with one
  place more.
-/
theorem ratio_whole
    (d e : Nat) :
    d * 10 ^ (e + 1074) * 10 ^ 1 =
      d * 10 ^ (e + 1) * twoTo 1074 * scale := by
  unfold scale
  generalize 1074 = n
  rw [pow_add, pow_ten_eq n, pow_add]
  ring

/-
  The same decimal with its units in fives and with all its
  places.
-/
theorem ratio_places
    (d : Nat)
    {g places : Nat}
    (h : g + places = 1074) :
    d * 10 ^ g * 10 ^ places = d * twoTo 1074 * scale := by
  unfold scale
  generalize 1074 = n at *
  rw [Nat.mul_assoc, ← pow_add, h, pow_ten_eq n]
  ring

theorem scale_pos :
    0 < scale := by
  decide +kernel

/-
  The test of the search is that a decimal lies between the
  midpoints.
-/
theorem readsBack_iff
    (b g d : Nat) :
    readsBack b g d = true ↔ Surrounds b (d * 10 ^ g) scale := by
  have hLow :
      scaled (b - 1) + scaled b =
        (unitsOfBits (b - 1) + unitsOfBits b) * scale :=
    (Nat.add_mul _ _ scale).symm
  have hHigh :
      scaled b + scaled (b + 1) =
        (unitsOfBits b + unitsOfBits (b + 1)) * scale :=
    (Nat.add_mul _ _ scale).symm
  unfold readsBack Surrounds
  simp only [hLow, hHigh, tenTo_eq, Nat.mul_assoc 2]
  generalize (unitsOfBits (b - 1) + unitsOfBits b) * scale = low
  generalize (unitsOfBits b + unitsOfBits (b + 1)) * scale = high
  generalize 2 * (d * 10 ^ g) = x
  split
  · next hEven =>
    simp only [Bool.and_eq_true, decide_eq_true_eq, hEven, implies_true,
      and_true]
  · next hOdd =>
    simp only [Bool.and_eq_true, decide_eq_true_eq, hOdd]
    constructor
    · rintro ⟨hAbove, hBelow⟩
      exact ⟨Nat.le_of_lt hAbove, Nat.le_of_lt hBelow, by omega⟩
    · rintro ⟨hAbove, hBelow, hTie⟩
      have hNeLow : low ≠ x := fun hEq => hTie (.inl hEq)
      have hNeHigh : x ≠ high := fun hEq => hTie (.inr hEq)
      omega

/- Whatever is found on a grid lies between the midpoints. -/
theorem surrounds_of_onGrid?
    {tie : Tie}
    {b g d : Nat}
    (h : onGrid? tie b g = some d) :
    Surrounds b (d * 10 ^ g) scale := by
  rw [← readsBack_iff]
  unfold onGrid? at h
  simp only at h
  split at h
  · cases h
  · next hBelow _ =>
    cases h
    exact hBelow
  · next _ hAbove =>
    cases h
    exact hAbove
  · next hBelow hAbove =>
    split at h
    · cases h
      exact hBelow
    · split at h
      · cases h
        exact hAbove
      · split at h
        · -- The even one of the two neighbours is one of them.
          cases h
          rcases Nat.mod_two_eq_zero_or_one (scaled b / tenTo g) with
            hEven | hOdd
          · rw [hEven]
            exact hBelow
          · rw [hOdd]
            exact hAbove
        · cases h
          exact hAbove

/- The search ends on a grid, on a decimal between the midpoints. -/
theorem surrounds_of_searchFrom
    {b : Nat}
    (hPos : 0 < b)
    (tie : Tie)
    (n : Nat) :
    ∃ g : Nat,
      (searchFrom tie b n).exponent = (g : Int) - 1074 ∧
        Surrounds b ((searchFrom tie b n).digits * 10 ^ g) scale := by
  induction n with
  | zero =>
      refine ⟨0, rfl, ?_⟩
      rw [pow_zero, Nat.mul_one]
      exact surrounds_self hPos scale scale_pos
  | succ n ih =>
      unfold searchFrom
      split
      · next d hGrid =>
        exact ⟨n + 1, rfl, surrounds_of_onGrid? hGrid⟩
      · exact ih

/-
  The shortest decimal lies between the midpoints around its
  pattern.
-/
theorem shortest_surrounds
    {b : Nat}
    (hPos : 0 < b)
    (tie : Tie) :
    ∃ g : Nat,
      (shortest tie b).exponent = (g : Int) - 1074 ∧
        Surrounds b ((shortest tie b).digits * 10 ^ g) scale := by
  unfold shortest
  rw [if_neg (by omega)]
  exact surrounds_of_searchFrom hPos tie (coarsest b)

------------------------------------------------------------
-- Reading decimals
------------------------------------------------------------

/- A pattern other than zero has a magnitude. -/
theorem unitsOfBits_pos
    {b : Nat}
    (hPos : 0 < b) :
    0 < unitsOfBits b := by
  have hPrev := unitsOfBits_lt_succ (b - 1)
  rw [Nat.sub_add_cancel hPos] at hPrev
  omega

/-
  A decimal between the midpoints around a pattern is not so
  small that it would be taken for zero without computing.
-/
theorem not_tiny
    {b digits places k : Nat}
    (hPos : 0 < b)
    (hUnit : k ≤ 1074)
    (h : Surrounds b (digits * twoTo k) (10 ^ places)) :
    places ≤ digits.log2 + 1 + 400 := by
  by_contra hTiny
  have hUnits := unitsOfBits_pos hPos
  have hDigits : digits < 2 ^ (digits.log2 + 1) := Nat.lt_log2_self
  have hPow : 2 ^ (3 * places) < 2 ^ (1 + (digits.log2 + 1 + k)) := by
    calc 2 ^ (3 * places) = (2 ^ 3) ^ places := pow_mul 2 3 places
      _ ≤ 10 ^ places := Nat.pow_le_pow_left (by decide) places
      _ = 1 * 10 ^ places := (Nat.one_mul _).symm
      _ ≤ (unitsOfBits (b - 1) + unitsOfBits b) * 10 ^ places :=
        Nat.mul_le_mul_right _ (by omega)
      _ ≤ 2 * (digits * twoTo k) := h.1
      _ < 2 * (2 ^ (digits.log2 + 1) * 2 ^ k) := by
        apply Nat.mul_lt_mul_of_pos_left _ (by decide)
        exact Nat.mul_lt_mul_of_pos_right hDigits (Nat.two_pow_pos k)
      _ = 2 ^ (1 + (digits.log2 + 1 + k)) := by
        rw [pow_add 2 1, pow_add 2 (digits.log2 + 1), pow_one]
  have hExponents := (Nat.pow_lt_pow_iff_right (by decide)).mp hPow
  omega

/- A decimal between the midpoints around a pattern is read as it. -/
theorem nearestBits_eq
    {b digits places : Nat}
    (hPos : 0 < b)
    (hFinite : b < infiniteBits)
    (hPlaces : 0 < places)
    (h : Surrounds b (digits * twoTo 1074) (10 ^ places)) :
    nearestBits digits (-(places : Int)) = b := by
  have hTiny := not_tiny hPos (Nat.le_refl 1074) h
  have hSome : digits ≠ 0 := by
    rintro rfl
    have hLow := h.1
    rw [Nat.zero_mul, Nat.mul_zero, Nat.le_zero, Nat.mul_eq_zero] at hLow
    have hUnits := unitsOfBits_pos hPos
    rcases hLow with hUnitsZero | hTenZero
    · omega
    · exact absurd hTenZero (Nat.ne_of_gt (Nat.pow_pos (by decide)))
  unfold nearestBits
  rw [if_neg hSome, if_neg (by omega), if_neg (by omega),
    if_neg (by omega)]
  simp only [Int.neg_neg, Int.toNat_natCast, tenTo_eq]
  exact bitsOfUnits_eq (Nat.pow_pos (by decide)) hPos hFinite h

------------------------------------------------------------
-- Literals
------------------------------------------------------------

/-
  Digits before and behind a point that make up a literal of
  the number `x`.
-/
structure LiteralOf
    (x : Float)
    (whole fraction : List Char) : Prop where
  whole_ne_nil : whole ≠ []
  fraction_ne_nil : fraction ≠ []
  isDigit_of_mem : ∀ c ∈ whole ++ fraction, c.isDigit = true
  nearest_eq : nearest whole fraction = x

/- Reading digits that stand for the pattern of a number. -/
theorem nearest_eq_of_bits
    {x : Float}
    {whole fraction : List Char}
    (hSign : isNegative x = false)
    (hBits :
      nearestBits (natOfDigits (whole ++ fraction))
        (-(fraction.length : Int)) = magnitude x) :
    nearest whole fraction = x := by
  unfold nearest
  rw [hBits]
  exact ofMagnitude_magnitude hSign

theorem isDigit_toDigits
    {n : Nat}
    {c : Char}
    (h : c ∈ Nat.toDigits 10 n) :
    c.isDigit = true :=
  Nat.isDigit_of_mem_toDigits (by decide) (by decide) h

theorem isDigit_zeros
    {n : Nat}
    {c : Char}
    (h : c ∈ List.replicate n '0') :
    c.isDigit = true := by
  rw [List.eq_of_mem_replicate h]
  rfl

/- A decimal without places behind the point gets one. -/
theorem literalOf_whole
    {x : Float}
    {d e : Nat}
    (hFinite : isFinite x = true)
    (hSign : isNegative x = false)
    (h : 0 < magnitude x →
      Surrounds (magnitude x) (d * 10 ^ (e + 1074)) scale)
    (hZero : magnitude x = 0 → d = 0) :
    LiteralOf x (Nat.toDigits 10 d ++ List.replicate e '0') ['0'] := by
  have hDigits :
      natOfDigits
          (Nat.toDigits 10 d ++ List.replicate e '0' ++ ['0']) =
        d * 10 ^ (e + 1) := by
    rw [List.append_assoc,
      show List.replicate e '0' ++ ['0'] = List.replicate (e + 1) '0'
        from List.replicate_succ'.symm,
      natOfDigits_append_zeros, natOfDigits_toDigits]
  refine ⟨?_, by simp, ?_, ?_⟩
  · simp
  · intro c hc
    simp only [List.mem_append, List.mem_singleton] at hc
    rcases hc with (hc | hc) | rfl
    · exact isDigit_toDigits hc
    · exact isDigit_zeros hc
    · rfl
  · apply nearest_eq_of_bits hSign
    rw [hDigits]
    rcases Nat.eq_zero_or_pos (magnitude x) with hNone | hPos
    · rw [hZero hNone, hNone, Nat.zero_mul]
      rfl
    · apply nearestBits_eq hPos (of_decide_eq_true hFinite) (by simp)
      apply (h hPos).of_ratio scale_pos (Nat.pow_pos (by decide))
      exact ratio_whole d e

/- A decimal with places behind the point. -/
theorem literalOf_places
    {x : Float}
    {d g places : Nat}
    (hFinite : isFinite x = true)
    (hSign : isNegative x = false)
    (hPos : 0 < magnitude x)
    (hPlaces : 0 < places)
    (hGrid : g + places = 1074)
    (h : Surrounds (magnitude x) (d * 10 ^ g) scale)
    {padded : List Char}
    (hPadded :
      padded =
        List.replicate (places + 1 - (Nat.toDigits 10 d).length) '0' ++
          Nat.toDigits 10 d) :
    LiteralOf x
      (padded.take (padded.length - places))
      (padded.drop (padded.length - places)) := by
  have hLong : places + 1 ≤ padded.length := by
    rw [hPadded, List.length_append, List.length_replicate]
    omega
  have hFraction :
      (padded.drop (padded.length - places)).length = places := by
    rw [List.length_drop]
    omega
  have hDigits : natOfDigits padded = d := by
    rw [hPadded, natOfDigits_zeros_append, natOfDigits_toDigits]
  refine ⟨?_, ?_, ?_, ?_⟩
  · apply List.ne_nil_of_length_pos
    rw [List.length_take]
    omega
  · apply List.ne_nil_of_length_pos
    rw [hFraction]
    exact hPlaces
  · intro c hc
    rw [List.take_append_drop, hPadded, List.mem_append] at hc
    rcases hc with hc | hc
    · exact isDigit_zeros hc
    · exact isDigit_toDigits hc
  · apply nearest_eq_of_bits hSign
    rw [List.take_append_drop, hFraction, hDigits]
    apply nearestBits_eq hPos (of_decide_eq_true hFinite) hPlaces
    apply h.of_ratio scale_pos (Nat.pow_pos (by decide))
    exact ratio_places d hGrid

/- The plain text of a finite number without a sign. -/
theorem plain_write
    {x : Float}
    (hFinite : isFinite x = true)
    (hSign : isNegative x = false) :
    Layout.plain.write x =
      Layout.plain.positionalText (shortest .away (magnitude x)) := by
  have hLt : magnitude x < infiniteBits := of_decide_eq_true hFinite
  unfold Layout.write
  simp only
  rw [if_neg (by omega), if_neg (by omega), hSign]
  exact String.empty_append

/- A literal denotes the number it was written for. -/
theorem floatLiteral_reads_back
    {x : Float}
    (hFinite : isFinite x = true)
    (hSign : isNegative x = false) :
    ∃ whole fraction,
      (floatLiteral x).toList = whole ++ '.' :: fraction ∧
        LiteralOf x whole fraction := by
  have hGrid :
      ∃ g : Nat,
        (shortest .away (magnitude x)).exponent = (g : Int) - 1074 ∧
          (0 < magnitude x →
            Surrounds (magnitude x)
              ((shortest .away (magnitude x)).digits * 10 ^ g) scale) ∧
          (magnitude x = 0 →
            (shortest .away (magnitude x)).digits = 0 ∧ g = 1074) := by
    rcases Nat.eq_zero_or_pos (magnitude x) with hZero | hPos
    · refine ⟨1074, ?_, by omega, ?_⟩
      · rw [hZero]
        rfl
      · intro _
        rw [hZero]
        exact ⟨rfl, rfl⟩
    · rcases shortest_surrounds hPos .away with ⟨g, hExponent, h⟩
      exact ⟨g, hExponent, fun _ => h, by omega⟩
  rcases hGrid with ⟨g, hExponent, hSurrounds, hZero⟩
  have hPlain := plain_write hFinite hSign
  unfold floatLiteral
  simp only [hFinite, hPlain, Bool.true_and]
  generalize shortest .away (magnitude x) = s at *
  by_cases hWhole : 0 ≤ s.exponent
  · -- No place behind the point: one is added.
    have hText :
        Layout.plain.positionalText s =
          String.ofList (Nat.toDigits 10 s.digits ++
            List.replicate s.exponent.toNat '0') := by
      unfold Layout.positionalText
      simp only [if_pos hWhole]
      rfl
    have hNoPoint :
        (Layout.plain.positionalText s).contains '.' = false := by
      rw [hText, String.contains_char_eq, String.toList_ofList]
      apply decide_eq_false
      intro hPoint
      rcases List.mem_append.mp hPoint with hPoint | hPoint
      · exact absurd (isDigit_toDigits hPoint) (by decide)
      · exact absurd (isDigit_zeros hPoint) (by decide)
    have hPower : g = s.exponent.toNat + 1074 := by omega
    refine ⟨Nat.toDigits 10 s.digits ++
      List.replicate s.exponent.toNat '0', ['0'], ?_, ?_⟩
    · rw [hNoPoint]
      simp [hText]
    · rw [hPower] at hSurrounds
      exact literalOf_whole hFinite hSign hSurrounds
        (fun hNone => (hZero hNone).1)
  · have hPos : 0 < magnitude x := by
      apply Nat.pos_of_ne_zero
      intro hNone
      have hLarge := (hZero hNone).2
      omega
    have hText :
        ∃ padded : List Char,
          padded =
            List.replicate ((-s.exponent).toNat + 1 -
                (Nat.toDigits 10 s.digits).length) '0' ++
              Nat.toDigits 10 s.digits ∧
          Layout.plain.positionalText s =
            String.ofList
              (padded.take (padded.length - (-s.exponent).toNat) ++
                '.' :: padded.drop
                  (padded.length - (-s.exponent).toNat)) := by
      refine ⟨_, rfl, ?_⟩
      unfold Layout.positionalText
      simp only [if_neg hWhole]
    rcases hText with ⟨padded, hPadded, hText⟩
    have hPoint :
        (Layout.plain.positionalText s).contains '.' = true := by
      rw [hText, String.contains_char_eq, String.toList_ofList]
      simp
    refine ⟨_, _, ?_, literalOf_places hFinite hSign hPos
      (by omega) (by omega) (hSurrounds hPos) hPadded⟩
    rw [hPoint, hText]
    simp

end DynScript.Decimal
