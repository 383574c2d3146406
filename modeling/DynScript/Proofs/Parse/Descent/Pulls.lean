import DynScript.Proofs.Parse.Descent.Progress
import DynScript.Proofs.Parse.SyntaxErrors

/-
  What a stream is asked for, counted by a parser. A reader of
  a supply pulls one item after the other, and the items that
  it has pulled in the end are exactly those whose exchange for
  a fault would be noticed.

  Main statements include:
    * `TokenStream.Pulls.unique`
    * `Descent.pulls_of_program`
    * `Descent.pulls_iff_of_program`
    * `Descent.pulled_of_unexpected`
-/

namespace DynScript

namespace TokenStream

variable {s : TokenStream}
variable {n m : Nat}

/- Behind the end of the stream there is nothing to ask for. -/
theorem Pulls.le_length
    (h : s.Pulls n) :
    n ≤ s.tokens.length + 1 := by
  by_contra hBeyond
  have hFault (e : LexError) : s.program = .error (.lex e) := by
    have hCut := h (s.tokens.length + 1) e
    rw [cut, if_neg (by omega), if_pos (by omega)] at hCut
    exact hCut
  -- A program has one result, and no two faults are its only one.
  have hSame := (hFault (.unterminatedString ⟨1, 1, 0⟩)).symm.trans
    (hFault (.unterminatedString ⟨1, 1, 1⟩))
  cases hSame

/- Nobody asks for less than was asked for. -/
theorem Pulls.le
    (h : s.Pulls n)
    (h' : s.Pulls m) :
    m ≤ n := by
  by_contra hMore
  have hLength := h'.le_length
  have hFault (e : LexError) : s.program = .error (.lex e) := by
    have hMissed := h n e
    have hMet := h' n e
    rw [if_neg (Nat.lt_irrefl n)] at hMissed
    rw [if_pos (by omega)] at hMet
    exact hMissed.symm.trans hMet
  have hSame := (hFault (.unterminatedString ⟨1, 1, 0⟩)).symm.trans
    (hFault (.unterminatedString ⟨1, 1, 1⟩))
  cases hSame

/- So one number at most is the number of things asked for. -/
theorem Pulls.unique
    (h : s.Pulls n)
    (h' : s.Pulls m) :
    n = m :=
  Nat.le_antisymm (h'.le h) (h.le h')

end TokenStream

/- A stream has no more items than its tokens and their end. -/
theorem Supply.pulled_le_length
    (s : TokenStream)
    (b : Supply) :
    b.pulled s ≤ s.tokens.length + 1 := by
  rcases b with ⟨ahead, coming, ending?, eof, taken⟩
  cases ending? with
  | none => exact Nat.le_refl _
  | some ending =>
      exact Nat.le_trans (Nat.sub_le _ _) (Nat.le_succ _)

/- Parsers at the beginning of a stream and of a part of it. -/
theorem Parser.cut_ofStream
    {s : TokenStream}
    {k : Nat}
    (h : k ≤ s.tokens.length)
    (e : LexError) :
    (ofStream s).Cut s k e (ofStream (s.cut k e)) := by
  rw [TokenStream.cut, if_pos h]
  exact ⟨.mk [] 0 _ [] (Nat.zero_le k) h, rfl, rfl⟩

namespace Descent

variable {s : TokenStream}
variable {r : Except ParseError Block}
variable {p : Parser}

/- The result that a parser has at the end of a program. -/
theorem program_eq_of_answer
    (h : standard.program [] (.ofStream s) = some (r, p)) :
    r = s.program := by
  rcases standard.exists_program s with ⟨p', hProgram, _⟩
  cases h.symm.trans hProgram
  rfl

/-
  What a parser has pulled when a program is read is what the
  program asks for.
-/
theorem pulls_of_program
    (h : standard.program [] (.ofStream s) = some (r, p)) :
    s.Pulls (p.pulled s) := by
  intro k e
  rw [← program_eq_of_answer h]
  by_cases hLength : k ≤ s.tokens.length
  · have hLocal :=
      (follows_program (d := standard) []
        (Parser.stands_ofStream s)).local
    rcases (hLocal _ _ h).2 k e _ (Parser.cut_ofStream hLength e) with
      ⟨hWithin, q, hSame, _⟩ | ⟨hBeyond, q, hFault⟩
    · rw [if_neg (Nat.not_lt.mpr hWithin)]
      exact (program_eq_of_answer hSame).symm
    · rw [if_pos hBeyond]
      exact (program_eq_of_answer hFault).symm
  · have hPulled := p.supply.pulled_le_length s
    rw [TokenStream.cut, if_neg hLength, if_neg (by
      rw [Parser.pulled]
      omega)]
    exact (program_eq_of_answer h).symm

/- Asking for things is pulling them. -/
theorem pulls_iff_of_program
    (h : standard.program [] (.ofStream s) = some (r, p))
    (n : Nat) :
    s.Pulls n ↔ p.pulled s = n := by
  constructor
  · intro hPulls
    exact (pulls_of_program h).unique hPulls
  · rintro rfl
    exact pulls_of_program h

/-
  At a syntax error a parser has pulled what stands at its
  place, and nothing behind it.
-/
theorem pulled_of_unexpected
    {source : String}
    {expected : Expected}
    {found : Found}
    {pos : Position}
    {i : Nat}
    (h : parse source = .error (.unexpected expected found pos))
    (hPlace : (TokenStream.ofSource source).Places i pos) :
    ∃ p, standard.program [] (.ofStream (.ofSource source)) =
        some (.error (.unexpected expected found pos), p) ∧
      p.pulled (.ofSource source) = i + 1 := by
  rcases standard.parseWithin_eq_program source with
    ⟨p, hProgram, _⟩
  rw [show parseWithin standard.limit source = _ from h] at hProgram
  refine ⟨p, hProgram, ?_⟩
  exact (pulls_iff_of_program hProgram (i + 1)).mp
    (TokenStream.pulls_of_unexpected h hPlace)

end Descent

end DynScript
