import DynScript.Proofs.Value.Stack

/-
  What a host does inside of a scope, seen from outside. An
  assignment changes one binding, the one that the name is
  looked up to. When scopes are stacked on an environment and
  all of them are taken away again, the environment is as if
  only those assignments had been made that met no scope above
  it which bound their name.

  Key definitions include:
    * `bindingAt`
    * `IsHome`
    * `ScopeOp`
    * `ScopeOp.Paired`
    * `Environment.performOps`
    * `Environment.escaping`
    * `rebindAll`

  Main statements include:
    * `bindingAt_rebind`
    * `stack_paired`
    * `bindingAt_rebindAll`
    * `scope_stack_law`
-/

namespace DynScript

------------------------------------------------------------
-- Single bindings
------------------------------------------------------------

/-
  The value of a name in one of several scopes, given by the
  number of scopes in front of it.
-/
def bindingAt
    (ss : List Scope)
    (i : Nat)
    (name : String) : Option Value :=
  ss[i]?.bind (·.get? name)

/- The scope is the first one that binds the name. -/
def IsHome
    (ss : List Scope)
    (name : String)
    (i : Nat) : Prop :=
  (bindingAt ss i name).isSome = true ∧
    ∀ j < i, bindingAt ss j name = none

section Bindings

variable {s : Scope}
variable {ss : List Scope}
variable {name other : String}
variable {value : Value}
variable {i : Nat}

@[simp]
theorem bindingAt_zero :
    bindingAt (s :: ss) 0 name = s.get? name :=
  rfl

@[simp]
theorem bindingAt_succ :
    bindingAt (s :: ss) (i + 1) name = bindingAt ss i name :=
  rfl

/- A bound name is in one of the scopes. -/
theorem lt_of_bindingAt
    (h : (bindingAt ss i name).isSome = true) :
    i < ss.length := by
  apply Decidable.byContradiction
  intro hOutside
  rw [bindingAt, List.getElem?_eq_none (Nat.le_of_not_lt hOutside)] at h
  cases h

theorem isHome_zero_iff :
    IsHome (s :: ss) name 0 ↔ s.contains name = true := by
  simp [IsHome, Scope.contains]

/- Behind a scope that does not bind the name its home is the same. -/
theorem isHome_succ_iff :
    IsHome (s :: ss) name (i + 1) ↔
      s.contains name = false ∧ IsHome ss name i := by
  constructor
  · rintro ⟨hBound, hFirst⟩
    have hHead : s.get? name = none := hFirst 0 (Nat.succ_pos i)
    refine ⟨by simp [Scope.contains, hHead], hBound, ?_⟩
    intro j hj
    exact hFirst (j + 1) (Nat.succ_lt_succ hj)
  · rintro ⟨hHead, hBound, hFirst⟩
    refine ⟨hBound, ?_⟩
    intro j hj
    cases j with
    | zero => simpa [Scope.contains] using hHead
    | succ j => exact hFirst j (Nat.lt_of_succ_lt_succ hj)

/- A name that some scope binds has a home. -/
theorem exists_isHome
    (h : ss.any (·.contains name) = true) :
    ∃ i, IsHome ss name i := by
  induction ss with
  | nil => cases h
  | cons s ss ih =>
      cases hHead : s.contains name with
      | true => exact ⟨0, isHome_zero_iff.mpr hHead⟩
      | false =>
          rw [List.any_cons, hHead, Bool.false_or] at h
          rcases ih h with ⟨i, hHome⟩
          exact ⟨i + 1, isHome_succ_iff.mpr ⟨hHead, hHome⟩⟩

/- A name that no scope binds has no binding. -/
theorem bindingAt_of_not_any
    (h : ss.any (·.contains name) = false)
    (i : Nat) :
    bindingAt ss i name = none := by
  induction ss generalizing i with
  | nil => rfl
  | cons s ss ih =>
      rw [List.any_cons, Bool.or_eq_false_iff] at h
      cases i with
      | zero => simpa [Scope.contains] using h.1
      | succ i => exact ih h.2 i

/- The home of a name is where it is looked up. -/
theorem findSome?_of_isHome
    (h : IsHome ss name i) :
    ss.findSome? (·.get? name) = bindingAt ss i name := by
  induction ss generalizing i with
  | nil => cases h.1
  | cons s ss ih =>
      cases i with
      | zero =>
          rcases Option.isSome_iff_exists.mp h.1 with ⟨v, hv⟩
          rw [bindingAt_zero] at hv
          rw [List.findSome?_cons, bindingAt_zero, hv]
      | succ i =>
          rcases isHome_succ_iff.mp h with ⟨hHead, hHome⟩
          have hNone : s.get? name = none := by
            simpa [Scope.contains] using hHead
          rw [List.findSome?_cons, hNone, bindingAt_succ]
          exact ih hHome

/- A name without bindings is not found. -/
theorem findSome?_of_bindingAt
    (h : ∀ i, bindingAt ss i name = none) :
    ss.findSome? (·.get? name) = none := by
  induction ss with
  | nil => rfl
  | cons s ss ih =>
      have hHead : s.get? name = none := h 0
      rw [List.findSome?_cons, hHead]
      exact ih fun i => h (i + 1)

/- What a name is looked up to depends on its bindings alone. -/
theorem findSome?_congr_bindingAt
    {ts : List Scope}
    (h : ∀ i, bindingAt ss i name = bindingAt ts i name) :
    ss.findSome? (·.get? name) = ts.findSome? (·.get? name) := by
  cases hAny : ss.any (·.contains name) with
  | true =>
      rcases exists_isHome hAny with ⟨i, hHome⟩
      have hSame : IsHome ts name i := by
        refine ⟨?_, ?_⟩
        · rw [← h i]
          exact hHome.1
        · intro j hj
          rw [← h j]
          exact hHome.2 j hj
      rw [findSome?_of_isHome hHome, findSome?_of_isHome hSame, h i]
  | false =>
      have hNone := bindingAt_of_not_any hAny
      rw [findSome?_of_bindingAt hNone, findSome?_of_bindingAt]
      intro i
      rw [← h i]
      exact hNone i

/- Binding a name in the first scope changes one binding there. -/
theorem bindingAt_bindFirst
    (i : Nat)
    (other : String) :
    bindingAt (bindFirst name value (s :: ss)) i other =
      if i = 0 ∧ other = name then some value
      else bindingAt (s :: ss) i other := by
  cases i with
  | zero =>
      rw [bindFirst, bindingAt_zero, bindingAt_zero, Scope.get?_insert]
      simp [eq_comm]
  | succ i => simp [bindFirst]

/- A name has one home. -/
theorem IsHome.unique
    {j : Nat}
    (hFirst : IsHome ss name i)
    (hSecond : IsHome ss name j) :
    i = j := by
  have hNotBefore : ∀ {i j}, IsHome ss name i → IsHome ss name j →
      ¬ i < j := by
    intro i j hi hj hLt
    have hBound := hi.1
    rw [hj.2 i hLt] at hBound
    cases hBound
  have hLe := hNotBefore hFirst hSecond
  have hGe := hNotBefore hSecond hFirst
  omega

/- Binding a name anew changes its binding at home. -/
theorem bindingAt_rebind_of_isHome
    (h : IsHome ss name i) :
    bindingAt (rebind name value ss) i name = some value := by
  induction ss generalizing i with
  | nil => cases h.1
  | cons s ss ih =>
      cases i with
      | zero =>
          rw [rebind, if_pos (isHome_zero_iff.mp h), bindingAt_zero,
            Scope.get?_insert, if_pos rfl]
      | succ i =>
          rcases isHome_succ_iff.mp h with ⟨hHead, hHome⟩
          rw [rebind, if_neg (by simp [hHead]), bindingAt_succ]
          exact ih hHome

/- All other bindings stay. -/
theorem bindingAt_rebind_of_not
    (h : ¬ (IsHome ss name i ∧ other = name)) :
    bindingAt (rebind name value ss) i other = bindingAt ss i other := by
  induction ss generalizing i with
  | nil => rfl
  | cons s ss ih =>
      rw [rebind]
      cases hHead : s.contains name with
      | true =>
          rw [if_pos rfl]
          cases i with
          | zero =>
              have hOther : name ≠ other := fun hSame =>
                h ⟨isHome_zero_iff.mpr hHead, hSame.symm⟩
              rw [bindingAt_zero, bindingAt_zero, Scope.get?_insert,
                if_neg hOther]
          | succ i => rfl
      | false =>
          rw [if_neg (by decide)]
          cases i with
          | zero => rfl
          | succ i =>
              rw [bindingAt_succ, bindingAt_succ]
              apply ih
              rintro ⟨hHome, hSame⟩
              exact h ⟨isHome_succ_iff.mpr ⟨hHead, hHome⟩, hSame⟩

/- Binding a name anew binds no other ones in any scope. -/
theorem isSome_bindingAt_rebind
    (i : Nat)
    (other : String) :
    (bindingAt (rebind name value ss) i other).isSome =
      (bindingAt ss i other).isSome := by
  by_cases hChanged : IsHome ss name i ∧ other = name
  · rcases hChanged with ⟨hHome, rfl⟩
    rw [bindingAt_rebind_of_isHome hHome, hHome.1]
    rfl
  · rw [bindingAt_rebind_of_not hChanged]

/- So all names stay at home where they were. -/
theorem isHome_rebind :
    IsHome (rebind name value ss) other i ↔ IsHome ss other i := by
  have hNone : ∀ j, bindingAt (rebind name value ss) j other = none ↔
      bindingAt ss j other = none := by
    intro j
    rw [← Option.isNone_iff_eq_none, ← Option.isNone_iff_eq_none,
      ← Option.not_isSome, ← Option.not_isSome, isSome_bindingAt_rebind]
  simp only [IsHome, isSome_bindingAt_rebind, hNone]

/- Nothing is bound anew where nothing is bound. -/
theorem rebind_of_not_any
    (h : ss.any (·.contains name) = false) :
    rebind name value ss = ss := by
  have hAppend : rebind name value (ss ++ []) =
      ss ++ rebind name value [] :=
    rebind_append_of_not_any [] h
  rwa [List.append_nil, rebind, List.append_nil] at hAppend

end Bindings

------------------------------------------------------------
-- One assignment
------------------------------------------------------------

namespace Environment

variable {name : String}
variable {env : Environment}

/-
  The scope that an assignment binds a name in: its home, or
  the innermost scope where it has none.
-/
def AssignedIn
    (env : Environment)
    (name : String)
    (i : Nat) : Prop :=
  IsHome env.stack name i ∨
    (∀ j, bindingAt env.stack j name = none) ∧ i = 0

/- An assignment changes the binding of its name in one scope. -/
theorem exists_assignedIn
    (env : Environment)
    (name : String)
    (value : Value) :
    ∃ i, env.AssignedIn name i ∧ i < env.depth ∧
      ∀ j other, bindingAt (env.assign name value).stack j other =
        if j = i ∧ other = name then some value
        else bindingAt env.stack j other := by
  have hDepth : env.stack.length = env.depth := by
    simp [stack, depth]
  rw [stack_assign]
  cases hAny : env.stack.any (·.contains name) with
  | true =>
      rcases exists_isHome hAny with ⟨i, hHome⟩
      refine ⟨i, .inl hHome, hDepth ▸ lt_of_bindingAt hHome.1, ?_⟩
      rw [if_pos rfl]
      intro j other
      split
      · next hChanged =>
        rcases hChanged with ⟨rfl, rfl⟩
        exact bindingAt_rebind_of_isHome hHome
      · next hOther =>
        apply bindingAt_rebind_of_not
        rintro ⟨hSame, rfl⟩
        exact hOther ⟨hSame.unique hHome, rfl⟩
  | false =>
      refine ⟨0, .inr ⟨bindingAt_of_not_any hAny, rfl⟩, Nat.succ_pos _,
        ?_⟩
      rw [if_neg (by decide)]
      rcases List.exists_cons_of_ne_nil env.stack_ne_nil with
        ⟨s, ss, hStack⟩
      rw [hStack]
      exact bindingAt_bindFirst

/- A name that is at home somewhere is looked up there. -/
theorem get?_of_isHome
    {i : Nat}
    (h : IsHome env.stack name i) :
    env.get? name = bindingAt env.stack i name := by
  rw [get?_eq_findSome?, findSome?_of_isHome h]

/- The name of an assignment is looked up to its value then. -/
theorem get?_assign_self
    (env : Environment)
    (name : String)
    (value : Value) :
    (env.assign name value).get? name = some value := by
  rcases exists_assignedIn env name value with
    ⟨i, hPlace, _, hBindings⟩
  have hBound : bindingAt (env.assign name value).stack i name =
      some value := by
    rw [hBindings, if_pos ⟨rfl, rfl⟩]
  have hHome : IsHome (env.assign name value).stack name i := by
    refine ⟨by rw [hBound]; rfl, ?_⟩
    intro j hj
    rw [hBindings, if_neg fun hSame => Nat.ne_of_lt hj hSame.1]
    rcases hPlace with hHome | ⟨hNone, _⟩
    · exact hHome.2 j hj
    · exact hNone j
  rw [get?_of_isHome hHome, hBound]

/- All other names are looked up to what they were. -/
theorem get?_assign_of_ne
    (env : Environment)
    {name other : String}
    (value : Value)
    (h : other ≠ name) :
    (env.assign name value).get? other = env.get? other := by
  rcases exists_assignedIn env name value with ⟨_, _, _, hBindings⟩
  rw [get?_eq_findSome?, get?_eq_findSome?]
  apply findSome?_congr_bindingAt
  intro j
  rw [hBindings, if_neg fun hSame => h hSame.2]

end Environment

------------------------------------------------------------
-- Operations of a host
------------------------------------------------------------

/- What a host can do with the scopes of an environment. -/
inductive ScopeOp where
  | push (s : Scope)
  | pop
  | assign (name : String) (value : Value)
  | define (name : String) (value : Value)

/-
  Operations that take away the scopes that they stack, and no
  others.
-/
inductive ScopeOp.Paired : List ScopeOp → Prop where
  | nil :
      Paired []
  | assign {ops : List ScopeOp} (name : String) (value : Value)
      (hRest : Paired ops) :
      Paired (.assign name value :: ops)
  | define {ops : List ScopeOp} (name : String) (value : Value)
      (hRest : Paired ops) :
      Paired (.define name value :: ops)
  | nested {inner ops : List ScopeOp} (s : Scope)
      (hInner : Paired inner)
      (hRest : Paired ops) :
      Paired (.push s :: (inner ++ .pop :: ops))

namespace Environment

/- The environment after an operation. -/
def performOp
    (env : Environment) : ScopeOp → Environment
  | .push s => env.push s
  | .pop => env.pop
  | .assign name value => env.assign name value
  | .define name value => env.define name value

/- The environment after one operation after the other. -/
def performOps
    (env : Environment)
    (ops : List ScopeOp) : Environment :=
  ops.foldl performOp env

/- Whether a scope above the lowest ones binds a name. -/
def bindsAbove
    (lowest : Nat)
    (env : Environment)
    (name : String) : Bool :=
  (env.stack.take (env.depth - lowest)).any (·.contains name)

/-
  The assignments among operations that are made at a moment
  when no scope above the lowest ones binds their name.
-/
def escaping
    (lowest : Nat) : Environment → List ScopeOp → List (String × Value)
  | _, [] => []
  | env, .assign name value :: ops =>
    let later := escaping lowest (env.assign name value) ops
    if env.bindsAbove lowest name then later else (name, value) :: later
  | env, op :: ops => escaping lowest (env.performOp op) ops

end Environment

/- Scopes with several names bound anew, one after the other. -/
def rebindAll
    (assigned : List (String × Value))
    (ss : List Scope) : List Scope :=
  assigned.foldl (fun ss (name, value) => rebind name value ss) ss

section Operations

variable {ss : List Scope}
variable {name : String}
variable {i : Nat}

/- No names are bound and none unbound by it in any scope. -/
theorem isSome_bindingAt_rebindAll
    (assigned : List (String × Value))
    (ss : List Scope)
    (i : Nat)
    (name : String) :
    (bindingAt (rebindAll assigned ss) i name).isSome =
      (bindingAt ss i name).isSome := by
  induction assigned generalizing ss with
  | nil => rfl
  | cons entry assigned ih =>
      exact (ih _).trans (isSome_bindingAt_rebind i name)

/- Where a name is not at home its binding stays. -/
theorem bindingAt_rebindAll_of_not_isHome
    (assigned : List (String × Value))
    (h : ¬ IsHome ss name i) :
    bindingAt (rebindAll assigned ss) i name = bindingAt ss i name := by
  induction assigned generalizing ss with
  | nil => rfl
  | cons entry assigned ih =>
      rcases entry with ⟨other, value⟩
      have hKept : ¬ IsHome (rebind other value ss) name i := by
        rwa [isHome_rebind]
      refine (ih hKept).trans (bindingAt_rebind_of_not ?_)
      rintro ⟨hHome, rfl⟩
      exact h hHome

/- At home it is the last one of those that the name was given. -/
theorem bindingAt_rebindAll_of_isHome
    (assigned : List (String × Value))
    (h : IsHome ss name i) :
    bindingAt (rebindAll assigned ss) i name =
      (assigned.reverse.lookup name).or (bindingAt ss i name) := by
  induction assigned generalizing ss with
  | nil => rfl
  | cons entry assigned ih =>
      rcases entry with ⟨other, value⟩
      have hKept : IsHome (rebind other value ss) name i := by
        rwa [isHome_rebind]
      refine (ih hKept).trans ?_
      rw [List.reverse_cons, List.lookup_append, Option.or_assoc]
      congr 1
      by_cases hSame : name = other
      · subst hSame
        rw [bindingAt_rebind_of_isHome h, List.lookup_cons_self]
        rfl
      · rw [bindingAt_rebind_of_not fun hChanged => hSame hChanged.2,
          List.lookup_cons, beq_false_of_ne hSame]
        rfl

theorem length_rebind
    (name : String)
    (value : Value)
    (ss : List Scope) :
    (rebind name value ss).length = ss.length := by
  induction ss with
  | nil => rfl
  | cons s ss ih =>
      rw [rebind]
      split
      · rfl
      · rw [List.length_cons, ih, List.length_cons]

theorem length_rebindAll
    (assigned : List (String × Value))
    (ss : List Scope) :
    (rebindAll assigned ss).length = ss.length := by
  induction assigned generalizing ss with
  | nil => rfl
  | cons entry assigned ih =>
      exact (ih _).trans (length_rebind entry.1 entry.2 ss)

theorem rebindAll_append
    (first second : List (String × Value))
    (ss : List Scope) :
    rebindAll (first ++ second) ss =
      rebindAll second (rebindAll first ss) :=
  List.foldl_append

end Operations

namespace Environment

variable {env : Environment}
variable {above below : List Scope}

theorem length_stack
    (env : Environment) :
    env.stack.length = env.depth := by
  simp [stack, depth]

theorem performOps_append
    (env : Environment)
    (ops more : List ScopeOp) :
    env.performOps (ops ++ more) = (env.performOps ops).performOps more :=
  List.foldl_append

/- What escapes from operations one after the other. -/
theorem escaping_append
    (lowest : Nat)
    (env : Environment)
    (ops more : List ScopeOp) :
    escaping lowest env (ops ++ more) =
      escaping lowest env ops ++
        escaping lowest (env.performOps ops) more := by
  induction ops generalizing env with
  | nil => rfl
  | cons op ops ih =>
      have hRest := ih (env.performOp op)
      cases op with
      | assign name value =>
          rw [List.cons_append, escaping, escaping]
          split
          · exact hRest
          · exact congrArg _ hRest
      | push s => exact hRest
      | pop => exact hRest
      | define name value => exact hRest

/- The scopes above the lowest ones are those in front of them. -/
theorem bindsAbove_eq
    (hStack : env.stack = above ++ below)
    (name : String) :
    env.bindsAbove below.length name = above.any (·.contains name) := by
  have hDepth : env.depth = above.length + below.length := by
    rw [← length_stack, hStack, List.length_append]
  rw [bindsAbove, hStack, hDepth, Nat.add_sub_cancel, List.take_left]

/-
  An assignment with scopes above the lowest ones: the name is
  bound anew in the lowest scopes unless one of those above
  binds it.
-/
theorem stack_assign_above
    (name : String)
    (value : Value)
    (hStack : env.stack = above ++ below)
    (hAbove : above ≠ []) :
    ∃ above', above'.length = above.length ∧
      (env.assign name value).stack =
        above' ++ if above.any (·.contains name) then below
          else rebind name value below := by
  rw [stack_assign, hStack, List.any_append]
  cases hInner : above.any (·.contains name) with
  | true =>
      refine ⟨rebind name value above, length_rebind _ _ _, ?_⟩
      rw [Bool.true_or, if_pos rfl, if_pos rfl]
      exact rebind_append_of_any below hInner
  | false =>
      rw [Bool.false_or]
      cases hOuter : below.any (·.contains name) with
      | true =>
          refine ⟨above, rfl, ?_⟩
          rw [if_pos rfl, if_neg Bool.false_ne_true]
          exact rebind_append_of_not_any below hInner
      | false =>
          rcases List.exists_cons_of_ne_nil hAbove with ⟨s, ss, rfl⟩
          refine ⟨s.insert name value :: ss, rfl, ?_⟩
          rw [if_neg Bool.false_ne_true, if_neg Bool.false_ne_true,
            rebind_of_not_any hOuter]
          rfl

/-
  Behind paired operations the scopes above the lowest ones are
  as many as before, and in the lowest ones those names are
  bound anew that escaped. By induction on how the operations
  are paired, with a scope above the lowest ones throughout.
-/
theorem stack_paired
    {ops : List ScopeOp}
    (hOps : ScopeOp.Paired ops)
    (hStack : env.stack = above ++ below)
    (hAbove : above ≠ []) :
    ∃ above', above'.length = above.length ∧
      (env.performOps ops).stack =
        above' ++ rebindAll (escaping below.length env ops) below := by
  induction hOps generalizing env above below with
  | nil => exact ⟨above, rfl, hStack⟩
  | @assign ops name value hRest ih =>
      rcases stack_assign_above name value hStack hAbove with
        ⟨above₁, hLength₁, hStack₁⟩
      have hAbove₁ : above₁ ≠ [] := by
        rwa [ne_eq, ← List.length_eq_zero_iff, hLength₁,
          List.length_eq_zero_iff]
      rcases ih hStack₁ hAbove₁ with ⟨above₂, hLength₂, hStack₂⟩
      refine ⟨above₂, hLength₂.trans hLength₁, hStack₂.trans ?_⟩
      rw [escaping, bindsAbove_eq hStack]
      split
      · rfl
      · rw [length_rebind]
        rfl
  | @define ops name value hRest ih =>
      rcases List.exists_cons_of_ne_nil hAbove with ⟨s, ss, rfl⟩
      have hStack₁ : (env.define name value).stack =
          (s.insert name value :: ss) ++ below := by
        rw [stack_define, hStack]
        rfl
      rcases ih hStack₁ (List.cons_ne_nil _ _) with
        ⟨above', hLength, hStack'⟩
      exact ⟨above', hLength, hStack'⟩
  | @nested inner ops s hInner hRest ihInner ihRest =>
      have hPushed : (env.push s).stack = (s :: above) ++ below := by
        rw [stack_push, hStack]
        rfl
      rcases ihInner hPushed (List.cons_ne_nil _ _) with
        ⟨above₁, hLength₁, hStack₁⟩
      rcases List.exists_cons_of_length_eq_add_one hLength₁ with
        ⟨t, above₂, rfl⟩
      have hLength₂ : above₂.length = above.length :=
        Nat.succ.inj hLength₁
      have hAbove₂ : above₂ ≠ [] := by
        rwa [ne_eq, ← List.length_eq_zero_iff, hLength₂,
          List.length_eq_zero_iff]
      have hPopped := stack_pop hStack₁
        (List.append_ne_nil_of_left_ne_nil hAbove₂ _)
      rcases ihRest hPopped hAbove₂ with ⟨above₃, hLength₃, hStack₃⟩
      refine ⟨above₃, hLength₃.trans hLength₂, ?_⟩
      have hOps : env.performOps (.push s :: (inner ++ .pop :: ops)) =
          ((env.push s).performOps inner).pop.performOps ops :=
        performOps_append (env.push s) inner (.pop :: ops)
      have hEscaping :
          escaping below.length env (.push s :: (inner ++ .pop :: ops)) =
            escaping below.length (env.push s) inner ++
              escaping below.length
                ((env.push s).performOps inner).pop ops :=
        escaping_append below.length (env.push s) inner (.pop :: ops)
      rw [hOps, hEscaping, rebindAll_append, hStack₃, length_rebindAll]

/-
  With a scope stacked on an environment and taken away again,
  what escaped from the operations in between is all that was
  done to the environment.
-/
theorem stack_within
    {inner : List ScopeOp}
    (env : Environment)
    (s : Scope)
    (hInner : ScopeOp.Paired inner) :
    (env.performOps (.push s :: (inner ++ [.pop]))).stack =
      rebindAll (escaping env.depth env (.push s :: (inner ++ [.pop])))
        env.stack := by
  have hPushed : (env.push s).stack = [s] ++ env.stack := rfl
  rcases stack_paired hInner hPushed (List.cons_ne_nil _ _) with
    ⟨above, hLength, hStack⟩
  rcases List.length_eq_one_iff.mp hLength with ⟨t, rfl⟩
  have hKept : rebindAll (escaping env.stack.length (env.push s) inner)
      env.stack ≠ [] := by
    rw [ne_eq, ← List.length_eq_zero_iff, length_rebindAll, length_stack]
    exact Nat.succ_ne_zero _
  have hOps : env.performOps (.push s :: (inner ++ [.pop])) =
      ((env.push s).performOps inner).pop :=
    performOps_append (env.push s) inner [.pop]
  have hEscaping : escaping env.depth env (.push s :: (inner ++ [.pop])) =
      escaping env.depth (env.push s) inner := by
    refine (escaping_append env.depth (env.push s) inner [.pop]).trans ?_
    exact List.append_nil _
  rw [hOps, hEscaping, ← length_stack]
  exact stack_pop hStack hKept

/-
  An assignment changes one binding: the one that its name is
  looked up to, or a new one in the innermost scope. Behind a
  scope that was stacked and taken away, with other scopes
  stacked and taken away in between, the environment has the
  same scopes with the same names; the only values that differ
  are those that names were looked up to, and they are the last
  ones that the names were given when no scope above the
  environment bound them.
-/
theorem scope_stack_law
    (env : Environment) :
    (∀ name value, ∃ i, env.AssignedIn name i ∧ i < env.depth ∧
      (env.assign name value).depth = env.depth ∧
      (∀ j other, bindingAt (env.assign name value).stack j other =
        if j = i ∧ other = name then some value
        else bindingAt env.stack j other) ∧
      (env.assign name value).get? name = some value ∧
      ∀ other, other ≠ name →
        (env.assign name value).get? other = env.get? other) ∧
    (∀ name i, IsHome env.stack name i →
      env.get? name = bindingAt env.stack i name) ∧
    ∀ s inner, ScopeOp.Paired inner →
      let ops := .push s :: (inner ++ [.pop])
      let after := env.performOps ops
      after.depth = env.depth ∧
      (∀ i name, (bindingAt after.stack i name).isSome =
        (bindingAt env.stack i name).isSome) ∧
      (∀ i name, ¬ IsHome env.stack name i →
        bindingAt after.stack i name = bindingAt env.stack i name) ∧
      ∀ i name, IsHome env.stack name i →
        bindingAt after.stack i name =
          ((escaping env.depth env ops).reverse.lookup name).or
            (bindingAt env.stack i name) := by
  refine ⟨?_, ?_, ?_⟩
  · intro name value
    rcases exists_assignedIn env name value with
      ⟨i, hPlace, hInside, hBindings⟩
    refine ⟨i, hPlace, hInside, depth_assign env name value, hBindings,
      get?_assign_self env name value, ?_⟩
    intro other hOther
    exact get?_assign_of_ne env value hOther
  · intro name i hHome
    exact get?_of_isHome hHome
  · intro s inner hInner ops after
    have hStack : after.stack =
        rebindAll (escaping env.depth env ops) env.stack :=
      stack_within env s hInner
    refine ⟨?_, ?_, ?_, ?_⟩
    · rw [← length_stack, hStack, length_rebindAll, length_stack]
    · intro i name
      rw [hStack, isSome_bindingAt_rebindAll]
    · intro i name hOther
      rw [hStack, bindingAt_rebindAll_of_not_isHome _ hOther]
    · intro i name hHome
      rw [hStack, bindingAt_rebindAll_of_isHome _ hHome]

/-
  Of four assignments to a global name, the first and the third
  are made while no scope above the global one binds it.
-/
theorem escaping_assignment_stays :
    let env : Environment := .ofGlobals ⟨[("x", .int 1)], by decide⟩
    let inner : List ScopeOp :=
      [.assign "x" (.int 2),
        .push .empty, .define "x" (.int 3), .assign "x" (.int 4), .pop,
        .assign "x" (.int 5), .define "x" (.int 6), .assign "x" (.int 7)]
    ScopeOp.Paired inner ∧ IsHome env.stack "x" 0 ∧
      bindingAt
        (env.performOps (.push .empty :: (inner ++ [.pop]))).stack 0 "x" =
          some (.int 5) := by
  intro env inner
  have hInner : ScopeOp.Paired inner :=
    .assign _ _ (.nested _ (.define _ _ (.assign _ _ .nil))
      (.assign _ _ (.define _ _ (.assign _ _ .nil))))
  have hHome : IsHome env.stack "x" 0 := isHome_zero_iff.mpr rfl
  have hLaw := (scope_stack_law env).2.2 .empty inner hInner
  refine ⟨hInner, hHome, ?_⟩
  exact (hLaw.2.2.2 0 "x" hHome).trans rfl

end Environment

end DynScript
