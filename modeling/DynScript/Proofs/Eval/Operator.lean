import DynScript.Eval.Operator

/-
  What operators give. An operator computes a number, a text or
  a truth value from its operands; it never gives a function,
  so that functions come from definitions alone.

  Main statements include:
    * `kind_of_evalUnary`
    * `kind_of_evalBinary`
    * `kind_of_shortCircuit?`
-/

namespace DynScript

variable {op : BinaryOp}
variable {v : Value}

theorem kind_of_checkedInt
    {text : String}
    {n : Int}
    (h : checkedInt text n = .ok v) :
    v.kind = .int := by
  unfold checkedInt at h
  split at h
  · rcases Except.ok.inj h with rfl
    rfl
  · cases h

theorem kind_of_intArith
    {i j : Int64}
    (h : intArith op i j = .ok v) :
    v.kind = .int := by
  unfold intArith at h
  dsimp only at h
  split at h
  · exact kind_of_checkedInt h
  · exact kind_of_checkedInt h
  · exact kind_of_checkedInt h
  · split at h
    · cases h
    · exact kind_of_checkedInt h
  · split at h
    · cases h
    · split at h
      · exact kind_of_checkedInt h
      · cases h

theorem kind_of_floatArith
    {x y : Float}
    (h : floatArith op x y = .ok v) :
    v.kind = .float := by
  unfold floatArith at h
  split at h
  · rcases Except.ok.inj h with rfl
    rfl
  · rcases Except.ok.inj h with rfl
    rfl
  · rcases Except.ok.inj h with rfl
    rfl
  · split at h
    · cases h
    · rcases Except.ok.inj h with rfl
      rfl
  · split at h
    · cases h
    · rcases Except.ok.inj h with rfl
      rfl

/- Arithmetic gives numbers. -/
theorem kind_of_arith
    {a b : Value}
    (h : arith op a b = .ok v) :
    v.kind = .int ∨ v.kind = .float := by
  unfold arith at h
  split at h
  · exact .inl (kind_of_intArith h)
  · split at h
    · exact .inr (kind_of_floatArith h)
    · cases h

theorem kind_of_ordered
    {α : Type}
    [LT α]
    [LE α]
    [DecidableLT α]
    [DecidableLE α]
    (a b : α) :
    (ordered op a b).kind = .bool := by
  unfold ordered
  split <;> rfl

/- Comparison gives truth values. -/
theorem kind_of_order
    {a b : Value}
    (h : order op a b = .ok v) :
    v.kind = .bool := by
  unfold order at h
  split at h
  · rcases Except.ok.inj h with rfl
    exact kind_of_ordered _ _
  · rcases Except.ok.inj h with rfl
    exact kind_of_ordered _ _
  · split at h
    · rcases Except.ok.inj h with rfl
      exact kind_of_ordered _ _
    · cases h

/- An operator with two operands gives a number or a truth value. -/
theorem kind_of_evalBinary
    {a b : Value}
    (h : evalBinary op a b = .ok v) :
    v.kind = .int ∨ v.kind = .float ∨ v.kind = .bool := by
  cases op
  case eq | ne =>
    rcases Except.ok.inj h with rfl
    exact .inr (.inr rfl)
  case add | sub | mul | div | mod =>
    exact (kind_of_arith h).imp_right .inl
  case lt | le | gt | ge =>
    exact .inr (.inr (kind_of_order h))
  case and | or =>
    unfold evalBinary at h
    dsimp only at h
    split at h
    · rcases Except.ok.inj h with rfl
      exact .inr (.inr rfl)
    · cases h

/- An operator with one operand does, too. -/
theorem kind_of_evalUnary
    {op : UnaryOp}
    {a : Value}
    (h : evalUnary op a = .ok v) :
    v.kind = .int ∨ v.kind = .float ∨ v.kind = .bool := by
  unfold evalUnary at h
  split at h
  · exact .inl (kind_of_checkedInt h)
  · rcases Except.ok.inj h with rfl
    exact .inr (.inl rfl)
  · rcases Except.ok.inj h with rfl
    exact .inr (.inr rfl)
  · cases h

/- What the left operand decides alone is a truth value. -/
theorem kind_of_shortCircuit?
    {a : Value}
    (h : shortCircuit? op a = some v) :
    v.kind = .bool := by
  unfold shortCircuit? at h
  split at h
  · rcases Option.some.inj h with rfl
    rfl
  · rcases Option.some.inj h with rfl
    rfl
  · cases h

end DynScript
