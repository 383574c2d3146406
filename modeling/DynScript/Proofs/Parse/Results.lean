import DynScript.Parse.Expr

/-
  What a reader of tokens gives back, apart from the proof
  that it leaves fewer of them, and properties that all values
  have that it gives back.

  Key definitions include:
    * `outcome`
    * `Gives`

  Main statements include:
    * `outcome_bind`
    * `Gives.bind`
    * `Gives.outcome_bind`
-/

namespace DynScript

/- The value and the tokens behind it, or the fault. -/
def outcome
    {α : Type}
    {bound : Nat}
    (r : Except ParseError (Parsed α bound)) :
    Except ParseError (α × List Token) :=
  r.map fun p => (p.value, p.rest)

/- Whatever value is given back, it has the property. -/
def Gives
    {α : Type}
    {bound : Nat}
    (P : α → Prop)
    (r : Except ParseError (Parsed α bound)) : Prop :=
  ∀ p, r = .ok p → P p.value

section Sequences

variable {α β γ δ ε : Type}
variable {m n : Nat}

------------------------------------------------------------
-- Steps one after the other
------------------------------------------------------------

/- A step that succeeds hands on its result. -/
@[simp]
theorem ok_bind
    (a : α)
    (next : α → Except ε β) :
    (Except.ok a >>= next) = next a :=
  rfl

/- A step that fails ends the sequence. -/
@[simp]
theorem error_bind
    (fault : ε)
    (next : α → Except ε β) :
    (Except.error fault >>= next) = Except.error fault :=
  rfl

/- A sequence of two steps succeeds when both do. -/
theorem bind_succeeds_iff
    {first : Except ε α}
    {next : α → Except ε β}
    {b : β} :
    first >>= next = .ok b ↔
      ∃ a, first = .ok a ∧ next a = .ok b := by
  rcases first with fault | a
  · simp
  · simp

------------------------------------------------------------
-- Outcomes
------------------------------------------------------------

@[simp]
theorem outcome_ok
    (p : Parsed α n) :
    outcome (.ok p) = .ok (p.value, p.rest) :=
  rfl

/- An outcome is a success when the reader's result is one. -/
theorem outcome_eq_ok
    {r : Except ParseError (Parsed α n)}
    {a : α}
    {rest : List Token} :
    outcome r = .ok (a, rest) ↔ ∃ h, r = .ok ⟨a, rest, h⟩ := by
  cases r with
  | error e => simp [outcome, Except.map]
  | ok p =>
      rcases p with ⟨b, behind, hLt⟩
      constructor
      · intro h
        simp only [outcome_ok, Except.ok.injEq, Prod.mk.injEq] at h
        rcases h with ⟨rfl, rfl⟩
        exact ⟨hLt, rfl⟩
      · rintro ⟨hLt', h⟩
        simp only [Except.ok.injEq, Parsed.mk.injEq] at h
        rcases h with ⟨rfl, rfl⟩
        rfl

/- The outcome of a reader that goes on behind another one. -/
theorem outcome_bind
    {r : Except ParseError (Parsed α m)}
    {f : Parsed α m → Except ParseError (Parsed β n)}
    {g : α × List Token → Except ParseError (β × List Token)}
    (h : ∀ p, outcome (f p) = g (p.value, p.rest)) :
    outcome (r >>= f) = outcome r >>= g := by
  cases r with
  | error e => rfl
  | ok p => exact h p

/- The outcome of a reader behind a test that reads nothing. -/
theorem outcome_test_bind
    {x : Except ParseError γ}
    {f : γ → Except ParseError (Parsed β n)}
    {g : γ → Except ParseError (β × List Token)}
    (h : ∀ c, outcome (f c) = g c) :
    outcome (x >>= f) = x >>= g := by
  cases x with
  | error e => rfl
  | ok c => exact h c

------------------------------------------------------------
-- Properties of what is given back
------------------------------------------------------------

theorem gives_ok
    {P : α → Prop}
    {p : Parsed α n}
    (h : P p.value) :
    Gives P (.ok p) := by
  rintro _ ⟨⟩
  exact h

theorem gives_error
    {P : α → Prop}
    (e : ParseError) :
    Gives P (.error e : Except ParseError (Parsed α n)) := by
  rintro p ⟨⟩

/- What the first reader gives back may be used for the second. -/
theorem Gives.bind
    {P : α → Prop}
    {Q : β → Prop}
    {r : Except ParseError (Parsed α m)}
    {f : Parsed α m → Except ParseError (Parsed β n)}
    (h : Gives P r)
    (hNext : ∀ p, P p.value → Gives Q (f p)) :
    Gives Q (r >>= f) := by
  intro q hRead
  rcases bind_succeeds_iff.mp hRead with ⟨p, hFirst, hSecond⟩
  exact hNext p (h p hFirst) q hSecond

/- Where nothing is known of the first. -/
theorem gives_bind
    {Q : β → Prop}
    {x : Except ParseError γ}
    {f : γ → Except ParseError (Parsed β n)}
    (hNext : ∀ c, x = .ok c → Gives Q (f c)) :
    Gives Q (x >>= f) := by
  intro q hRead
  rcases bind_succeeds_iff.mp hRead with ⟨c, hTest, hSecond⟩
  exact hNext c hTest q hSecond

/-
  The outcome of a reader behind another one, where of both
  results only a part is kept.
-/
theorem Gives.outcome_bind
    {P : α → Prop}
    {r : Except ParseError (Parsed α m)}
    {f : Parsed α m → Except ParseError (Parsed β n)}
    {u : α → γ}
    {v : β → δ}
    {g : γ × List Token → Except ParseError (δ × List Token)}
    (hGives : Gives P r)
    (h : ∀ p, P p.value →
      outcome ((f p).map (Parsed.map v)) = g (u p.value, p.rest)) :
    outcome ((r >>= f).map (Parsed.map v)) =
      outcome (r.map (Parsed.map u)) >>= g := by
  cases r with
  | error e => rfl
  | ok p => exact h p (hGives p rfl)

/- The same behind a test that reads nothing. -/
theorem outcome_map_test_bind
    {x : Except ParseError γ}
    {f : γ → Except ParseError (Parsed β n)}
    {v : β → δ}
    {g : γ → Except ParseError (δ × List Token)}
    (h : ∀ c, x = .ok c →
      outcome ((f c).map (Parsed.map v)) = g c) :
    outcome ((x >>= f).map (Parsed.map v)) = x >>= g := by
  cases x with
  | error e => rfl
  | ok c => exact h c rfl

/- And behind a reader of which all is kept. -/
theorem outcome_map_bind
    {r : Except ParseError (Parsed α m)}
    {f : Parsed α m → Except ParseError (Parsed β n)}
    {v : β → δ}
    {g : α × List Token → Except ParseError (δ × List Token)}
    (h : ∀ p, outcome ((f p).map (Parsed.map v)) =
      g (p.value, p.rest)) :
    outcome ((r >>= f).map (Parsed.map v)) = outcome r >>= g := by
  cases r with
  | error e => rfl
  | ok p => exact h p

/- Taking a result for one with a larger bound leaves the outcome. -/
theorem outcome_widen
    {r : Except ParseError (Parsed α m)}
    {v : α → δ}
    (h : Parsed α m → m ≤ n) :
    outcome ((r >>= fun p => pure (p.widen (h p))).map (Parsed.map v)) =
      outcome (r.map (Parsed.map v)) := by
  cases r with
  | error e => rfl
  | ok p => rfl

end Sequences

end DynScript
