import DynScript.Proofs.Json.Numeral

/-
  How finite floating point numbers are written in JSON texts.
  The text is a numeral for the shortest decimal of the number,
  with its sign, and no other number has the same text.

  Key definitions include:
    * `Json.Numeral.amount`
    * `Json.Spells`

  Main statements include:
    * `Json.spells_write`
    * `Json.write_injective`
-/

namespace DynScript.Json

open Decimal

------------------------------------------------------------
-- The number of a numeral
------------------------------------------------------------

/- The number that a decimal stands for. -/
def amountOf
    (s : Scientific) : ℚ :=
  s.digits * 10 ^ s.exponent

/- The power of ten that the exponent of a numeral stands for. -/
def Numeral.power
    (n : Numeral) : Int :=
  match n.exponent with
  | none => 0
  | some (true, ds) => -(natOfDigits ds : Int)
  | some (false, ds) => natOfDigits ds

/- The number that a numeral stands for, without its sign. -/
def Numeral.amount
    (n : Numeral) : ℚ :=
  natOfDigits (n.whole ++ n.fraction) * 10 ^ (n.power - n.fraction.length)

/- A text is a numeral with a sign or without one for a number. -/
def Spells
    (text : String)
    (negative : Bool)
    (amount : ℚ) : Prop :=
  ∃ n : Numeral, n.Valid ∧ text.toList = n.spelling ∧
    n.negative = negative ∧ n.amount = amount

theorem Spells.isNumeral
    {text : String}
    {negative : Bool}
    {amount : ℚ}
    (h : Spells text negative amount) :
    IsNumeral text := by
  rcases h with ⟨n, hValid, hText, _⟩
  exact ⟨n, hValid, hText⟩

/- A text is a numeral for one number only. -/
theorem Spells.unique
    {text : String}
    {negative negative' : Bool}
    {amount amount' : ℚ}
    (h : Spells text negative amount)
    (h' : Spells text negative' amount') :
    negative = negative' ∧ amount = amount' := by
  rcases h with ⟨n, hValid, hText, rfl, rfl⟩
  rcases h' with ⟨n', hValid', hText', rfl, rfl⟩
  have hSplit : Numeral.split? (n.spelling ++ []) = some (n, []) :=
    Numeral.split?_spelling hValid nofun
  have hSplit' : Numeral.split? (n'.spelling ++ []) = some (n', []) :=
    Numeral.split?_spelling hValid' nofun
  rw [← hText, hText', hSplit'] at hSplit
  have hSame : n' = n := congrArg Prod.fst (Option.some.inj hSplit)
  rw [hSame]
  exact ⟨rfl, rfl⟩

------------------------------------------------------------
-- Writing with a point
------------------------------------------------------------

/- The digits of a number that is not zero are no zero. -/
theorem digits_shortest_pos
    {b : Nat}
    (hPos : 0 < b)
    (tie : Tie) :
    0 < (shortest tie b).digits := by
  rcases shortest_surrounds hPos tie with ⟨g, _, hLow, _⟩
  have hUnits := unitsOfBits_pos hPos
  apply Nat.pos_of_ne_zero
  intro hNone
  rw [hNone, Nat.zero_mul, Nat.mul_zero] at hLow
  have hNothing := Nat.eq_zero_of_le_zero hLow
  rcases Nat.mul_eq_zero.mp hNothing with hSum | hScale
  · omega
  · exact absurd hScale (Nat.ne_of_gt scale_pos)

/- Digits with a point between them. -/
theorem spells_point
    {ds : List Char}
    (hSome : ds ≠ [])
    (hDigits : Numeral.AllDigits ds)
    (hLeading : ∀ c cs, ds ≠ '0' :: c :: cs)
    {fraction : List Char}
    (hFraction : fraction ≠ [])
    (hPlaces : Numeral.AllDigits fraction)
    (negative : Bool) :
    Spells ((if negative then "-" else "") ++
      String.ofList (ds ++ '.' :: fraction)) negative
      (natOfDigits (ds ++ fraction) *
        10 ^ (-(fraction.length : Int))) := by
  refine ⟨⟨negative, ds, fraction, none⟩,
    ⟨hSome, hDigits, hLeading, hPlaces, fun _ hp => by cases hp⟩, ?_,
    rfl, ?_⟩
  · rw [String.toList_append, String.toList_ofList]
    cases negative <;>
      simp [Numeral.spelling, Numeral.fractionSpelling,
        Numeral.exponentSpelling, hFraction]
  · simp [Numeral.amount, Numeral.power]

/-
  A number with places behind the point, which is filled up
  with zeros to at least one digit before it.
-/
theorem spells_places
    {d places : Nat}
    (hPos : 0 < d)
    (hPlaces : 0 < places)
    {padded : List Char}
    (hPadded :
      padded =
        List.replicate (places + 1 - (Nat.toDigits 10 d).length) '0' ++
          Nat.toDigits 10 d)
    (negative : Bool) :
    Spells ((if negative then "-" else "") ++
      String.ofList (padded.take (padded.length - places) ++
        '.' :: padded.drop (padded.length - places))) negative
      (d * 10 ^ (-(places : Int))) := by
  have hAll : Numeral.AllDigits padded := by
    intro c hc
    rw [hPadded] at hc
    rcases List.mem_append.mp hc with hc | hc
    · exact isDigit_zeros hc
    · exact isDigit_toDigits hc
  have hLength : padded.length =
      max (places + 1) (Nat.toDigits 10 d).length := by
    rw [hPadded, List.length_append, List.length_replicate]
    omega
  have hFraction :
      (padded.drop (padded.length - places)).length = places := by
    rw [List.length_drop]
    omega
  have hDigits : natOfDigits padded = d := by
    rw [hPadded, natOfDigits_zeros_append, natOfDigits_toDigits]
  have hAmount :
      natOfDigits (padded.take (padded.length - places) ++
          padded.drop (padded.length - places)) *
        10 ^ (-((padded.drop (padded.length - places)).length : Int)) =
      (d * 10 ^ (-(places : Int)) : ℚ) := by
    rw [List.take_append_drop, hDigits, hFraction]
  rw [← hAmount]
  apply spells_point
  · apply List.ne_nil_of_length_pos
    rw [List.length_take]
    omega
  · exact fun c hc => hAll c (List.mem_of_mem_take hc)
  · -- Two digits before the point are none of those filled up.
    intro c cs hEq
    have hLong := congrArg List.length hEq
    rw [List.length_take, List.length_cons, List.length_cons] at hLong
    have hFull : padded = Nat.toDigits 10 d := by
      rw [hPadded, Nat.sub_eq_zero_of_le (by omega), List.replicate_zero,
        List.nil_append]
    have hHead := List.take_append_drop (padded.length - places) padded
    rw [hEq, hFull, List.cons_append] at hHead
    exact head_toDigits hPos _ hHead.symm
  · apply List.ne_nil_of_length_pos
    rw [hFraction]
    exact hPlaces
  · exact fun c hc => hAll c (List.mem_of_mem_drop hc)

/- A whole number, with a zero behind the point. -/
theorem spells_whole
    {d e : Nat}
    (hZero : d = 0 → e = 0)
    (negative : Bool) :
    Spells ((if negative then "-" else "") ++
      String.ofList
        ((Nat.toDigits 10 d ++ List.replicate e '0') ++ '.' :: ['0']))
      negative (d * 10 ^ e) := by
  have hSome := Nat.toDigits_ne_nil (b := 10) (n := d)
  have hDigits :
      natOfDigits (Nat.toDigits 10 d ++ List.replicate e '0' ++ ['0']) =
        d * 10 ^ (e + 1) := by
    rw [List.append_assoc, ← List.replicate_succ',
      natOfDigits_append_zeros, natOfDigits_toDigits]
  have hAmount :
      natOfDigits (Nat.toDigits 10 d ++ List.replicate e '0' ++ ['0']) *
        10 ^ (-((['0'] : List Char).length : Int)) =
          (d * 10 ^ e : ℚ) := by
    rw [hDigits, List.length_singleton, Nat.cast_one, zpow_neg_one]
    push_cast
    rw [pow_succ, ← mul_assoc]
    exact mul_inv_cancel_right₀ (by norm_num) _
  rw [← hAmount]
  apply spells_point
  · simp [hSome]
  · intro c hc
    rcases List.mem_append.mp hc with hc | hc
    · exact isDigit_toDigits hc
    · exact isDigit_zeros hc
  · intro c cs hEq
    rcases Nat.eq_zero_or_pos d with hNone | hPos
    · rw [hZero hNone, hNone] at hEq
      cases hEq
    · rcases List.exists_cons_of_ne_nil hSome with ⟨c', ds, hCons⟩
      rw [hCons, List.cons_append] at hEq
      rcases (List.cons.inj hEq).1 with rfl
      exact head_toDigits hPos ds hCons
  · simp
  · intro c hc
    rw [List.mem_singleton.mp hc]
    rfl

/- A number without exponent mark. -/
theorem spells_positionalText
    (b : Nat)
    (tie : Tie)
    (negative : Bool) :
    Spells ((if negative then "-" else "") ++
      floatLayout.positionalText (shortest tie b)) negative
      (amountOf (shortest tie b)) := by
  have hDigits : (shortest tie b).digits = 0 →
      (shortest tie b).exponent = 0 := by
    intro hNone
    rcases Nat.eq_zero_or_pos b with rfl | hPos
    · rfl
    · exact absurd hNone (Nat.ne_of_gt (digits_shortest_pos hPos tie))
  generalize shortest tie b = s at *
  unfold Layout.positionalText amountOf
  by_cases hWhole : 0 ≤ s.exponent
  · rcases Int.eq_ofNat_of_zero_le hWhole with ⟨e, hExponent⟩
    have hText :
        String.ofList
          (Nat.toDigits 10 s.digits ++ List.replicate e '0') ++
            ".0" =
          String.ofList ((Nat.toDigits 10 s.digits ++
            List.replicate e '0') ++ '.' :: ['0']) :=
      String.ofList_append.symm
    have hZero : s.digits = 0 → e = 0 := by
      intro hNone
      have hNothing := hDigits hNone
      omega
    simp only [if_pos hWhole]
    rw [hExponent, Int.toNat_natCast, zpow_natCast]
    change Spells (_ ++ (_ ++ ".0")) _ _
    rw [hText]
    exact spells_whole hZero negative
  · have hPos : 0 < s.digits := by
      apply Nat.pos_of_ne_zero
      intro hNone
      rw [hDigits hNone] at hWhole
      exact hWhole (Int.le_refl 0)
    have hPlaces : -((-s.exponent).toNat : Int) = s.exponent := by
      omega
    have hSpells := spells_places hPos
      (show 0 < (-s.exponent).toNat by omega) rfl negative
    rw [hPlaces] at hSpells
    simp only [if_neg hWhole]
    exact hSpells

------------------------------------------------------------
-- Writing with an exponent
------------------------------------------------------------

/- An exponent always has a sign. -/
theorem toList_signed
    (leading : Int) :
    (if floatLayout.plusSign && decide (0 ≤ leading) then "+"
      else "").toList ++
        (toString leading).toList =
      (if decide (leading < 0) then '-' else '+') ::
        Nat.toDigits 10 leading.natAbs := by
  rw [toList_toString]
  by_cases hSign : leading < 0
  · have hMinus : ¬ 0 ≤ leading := by omega
    simp [Numeral.ofInt, Numeral.spelling, Numeral.fractionSpelling,
      Numeral.exponentSpelling, hSign, hMinus]
  · have hPlus : 0 ≤ leading := by omega
    simp [Numeral.ofInt, Numeral.spelling, Numeral.fractionSpelling,
      Numeral.exponentSpelling, floatLayout, hSign, hPlus]

/- The power of an exponent that is written with its sign. -/
theorem power_signed
    {negative : Bool}
    {whole fraction : List Char}
    (leading : Int) :
    Numeral.power ⟨negative, whole, fraction,
      some (decide (leading < 0), Nat.toDigits 10 leading.natAbs)⟩ =
      leading := by
  unfold Numeral.power
  by_cases hSign : leading < 0
  · simp only [decide_eq_true hSign, natOfDigits_toDigits]
    omega
  · simp only [decide_eq_false hSign, natOfDigits_toDigits]
    omega

/- A number with an exponent, which is that of its first digit. -/
theorem spells_exponentText
    (s : Scientific)
    (negative : Bool) :
    Spells ((if negative then "-" else "") ++
      floatLayout.exponentText s
        (s.exponent + ((Nat.toDigits 10 s.digits).length - 1 : Nat)))
      negative (amountOf s) := by
  rcases List.exists_cons_of_ne_nil
    (Nat.toDigits_ne_nil (b := 10) (n := s.digits)) with ⟨d, ds, hCons⟩
  have hAll : Numeral.AllDigits (d :: ds) := by
    rw [← hCons]
    exact fun _ hc => isDigit_toDigits hc
  have hLength : (Nat.toDigits 10 s.digits).length - 1 = ds.length := by
    rw [hCons]
    rfl
  rw [hLength]
  generalize hLeading : s.exponent + (ds.length : Int) = leading
  refine ⟨⟨negative, [d], ds,
    some (decide (leading < 0), Nat.toDigits 10 leading.natAbs)⟩,
    ?_, ?_, rfl, ?_⟩
  · constructor
    · simp
    · exact fun c hc =>
        hAll c (List.mem_cons.mpr (.inl (List.mem_singleton.mp hc)))
    · intro c cs hEq
      cases hEq
    · exact fun c hc => hAll c (List.mem_cons_of_mem d hc)
    · intro p hp
      rcases Option.some.inj hp with rfl
      exact ⟨Nat.toDigits_ne_nil, fun _ hc => isDigit_toDigits hc⟩
  · have hSigned := toList_signed leading
    unfold Layout.exponentText
    rw [hCons]
    simp only [String.toList_append, List.append_assoc, hSigned]
    cases ds with
    | nil =>
        cases negative <;>
          simp [Numeral.spelling, Numeral.fractionSpelling,
            Numeral.exponentSpelling]
    | cons e es =>
        cases negative <;>
          simp [Numeral.spelling, Numeral.fractionSpelling,
            Numeral.exponentSpelling]
  · have hDigits : natOfDigits ([d] ++ ds) = s.digits := by
      rw [List.singleton_append, ← hCons, natOfDigits_toDigits]
    have hPower : leading - ds.length = s.exponent := by
      omega
    rw [Numeral.amount, power_signed, hDigits, hPower]
    rfl

/- The magnitude of a finite number with or without a sign. -/
theorem spells_magnitudeText
    (b : Nat)
    (negative : Bool) :
    Spells ((if negative then "-" else "") ++ floatLayout.magnitudeText b)
      negative (amountOf (shortest .toEven b)) := by
  have hBounds : floatLayout.positional = some (-5, 15) := rfl
  unfold Layout.magnitudeText
  simp only [hBounds]
  generalize (decide (b = 0) || _) = positional
  cases positional with
  | true => exact spells_positionalText b _ negative
  | false => exact spells_exponentText _ negative

/- A finite number is written as its sign and its shortest decimal. -/
theorem spells_write
    {x : Float}
    (hFinite : isFinite x = true) :
    Spells (floatLayout.write x) (isNegative x)
      (amountOf (shortest .toEven (magnitude x))) := by
  have hLt : magnitude x < infiniteBits := of_decide_eq_true hFinite
  unfold Layout.write
  simp only
  rw [if_neg (by omega), if_neg (by omega)]
  exact spells_magnitudeText _ _

------------------------------------------------------------
-- The number of a text
------------------------------------------------------------

theorem amountOf_shortest_zero
    (tie : Tie) :
    amountOf (shortest tie 0) = 0 := by
  simp [amountOf, shortest]

theorem amountOf_shortest_pos
    {b : Nat}
    (hPos : 0 < b)
    (tie : Tie) :
    0 < amountOf (shortest tie b) := by
  have hDigits := digits_shortest_pos hPos tie
  unfold amountOf
  positivity

/- Equal decimals are equally many units of 10^-1074. -/
theorem eq_of_amountOf
    {s s' : Scientific}
    {g g' : Nat}
    (hGrid : s.exponent = (g : Int) - 1074)
    (hGrid' : s'.exponent = (g' : Int) - 1074)
    (h : amountOf s = amountOf s') :
    s.digits * 10 ^ g = s'.digits * 10 ^ g' := by
  have hUnit : (10 : ℚ) ^ (1074 : Int) ≠ 0 := zpow_ne_zero _ (by norm_num)
  unfold amountOf at h
  rw [hGrid, hGrid', zpow_sub₀ (by norm_num), zpow_sub₀ (by norm_num),
    zpow_natCast, zpow_natCast, ← mul_div_assoc, ← mul_div_assoc,
    div_left_inj' hUnit] at h
  exact_mod_cast h

/- A magnitude is known from its shortest decimal. -/
theorem eq_of_amountOf_shortest
    {b b' : Nat}
    (tie : Tie)
    (hFinite : b < infiniteBits)
    (hFinite' : b' < infiniteBits)
    (h : amountOf (shortest tie b) = amountOf (shortest tie b')) :
    b = b' := by
  rcases Nat.eq_zero_or_pos b with rfl | hPos
  · rcases Nat.eq_zero_or_pos b' with rfl | hPos'
    · rfl
    · rw [amountOf_shortest_zero] at h
      exact absurd h (ne_of_lt (amountOf_shortest_pos hPos' tie))
  · rcases Nat.eq_zero_or_pos b' with rfl | hPos'
    · rw [amountOf_shortest_zero] at h
      exact absurd h (ne_of_gt (amountOf_shortest_pos hPos tie))
    · rcases shortest_surrounds hPos tie with ⟨g, hGrid, hAround⟩
      rcases shortest_surrounds hPos' tie with ⟨g', hGrid', hAround'⟩
      have hSame := eq_of_amountOf hGrid hGrid' h
      rw [hSame] at hAround
      rw [← bitsOfUnits_eq scale_pos hPos hFinite hAround,
        bitsOfUnits_eq scale_pos hPos' hFinite' hAround']

/- No two finite numbers are written as the same text. -/
theorem write_injective
    {x y : Float}
    (hFinite : isFinite x = true)
    (hFinite' : isFinite y = true)
    (h : floatLayout.write x = floatLayout.write y) :
    x = y := by
  have hSpells := spells_write hFinite
  rw [h] at hSpells
  rcases hSpells.unique (spells_write hFinite') with ⟨hSign, hAmount⟩
  have hMagnitude := eq_of_amountOf_shortest .toEven
    (of_decide_eq_true hFinite) (of_decide_eq_true hFinite') hAmount
  exact eq_of_magnitude hSign hMagnitude

end DynScript.Json
