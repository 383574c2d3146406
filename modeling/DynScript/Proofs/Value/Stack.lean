import Mathlib.Data.List.Forall2
import DynScript.Value.Scope

/-
  The scopes of an environment as one list, the innermost
  first and the global one last. In this list a name is looked
  up from the front, defined in front and bound anew where it
  is found first.

  Key definitions include:
    * `Environment.stack`
    * `bindFirst`
    * `rebind`

  Main statements include:
    * `Environment.get?_eq_findSome?`
    * `Environment.stack_define`
    * `Environment.stack_assign`
    * `Environment.forall₂_assign`
-/

namespace DynScript

------------------------------------------------------------
-- Bound names
------------------------------------------------------------

/- Binding a name makes it bound and leaves the other names. -/
theorem Scope.contains_insert
    (s : Scope)
    (name other : String)
    (value : Value) :
    (s.insert name value).contains other =
      (decide (name = other) || s.contains other) := by
  unfold Scope.contains
  rw [Scope.get?_insert]
  by_cases hName : name = other
  · simp [hName]
  · simp [hName]

------------------------------------------------------------
-- Bindings in a list of scopes
------------------------------------------------------------

/- The scopes with a name bound in the first of them. -/
def bindFirst
    (name : String)
    (value : Value) : List Scope → List Scope
  | [] => []
  | s :: ss => s.insert name value :: ss

/- The scopes with a name bound anew in the first that binds it. -/
def rebind
    (name : String)
    (value : Value) : List Scope → List Scope
  | [] => []
  | s :: ss =>
    if s.contains name then
      s.insert name value :: ss
    else
      s :: rebind name value ss

section Lists

variable {name : String}
variable {value : Value}

/- A scope that binds the name is found before the ones behind it. -/
theorem rebind_append_of_any
    {ss : List Scope}
    (ts : List Scope)
    (h : ss.any (·.contains name) = true) :
    rebind name value (ss ++ ts) = rebind name value ss ++ ts := by
  induction ss with
  | nil => cases h
  | cons s ss ih =>
      rw [List.cons_append, rebind, rebind]
      by_cases hBound : s.contains name
      · rw [if_pos hBound, if_pos hBound]
        rfl
      · have hLater : ss.any (·.contains name) = true := by
          simpa [hBound] using h
        rw [if_neg hBound, if_neg hBound, ih hLater]
        rfl

/- Scopes that do not bind the name are passed by. -/
theorem rebind_append_of_not_any
    {ss : List Scope}
    (ts : List Scope)
    (h : ss.any (·.contains name) = false) :
    rebind name value (ss ++ ts) = ss ++ rebind name value ts := by
  induction ss with
  | nil => rfl
  | cons s ss ih =>
      rw [List.any_cons, Bool.or_eq_false_iff] at h
      rw [List.cons_append, rebind, if_neg (by simp [h.1]), ih h.2]
      rfl

/- Changing the scope at the first place that binds the name. -/
theorem modify_findIdx?
    {ss : List Scope}
    {i : Nat}
    (h : ss.findIdx? (·.contains name) = some i) :
    ss.modify i (·.insert name value) = rebind name value ss := by
  induction ss generalizing i with
  | nil => cases h
  | cons s ss ih =>
      rw [List.findIdx?_cons] at h
      rw [rebind]
      by_cases hBound : s.contains name
      · rw [if_pos hBound] at h
        rcases Option.some.inj h with rfl
        rw [if_pos hBound]
        rfl
      · rw [if_neg hBound] at h
        rcases Option.map_eq_some_iff.mp h with ⟨j, hj, rfl⟩
        rw [if_neg hBound, ← ih hj]
        rfl

------------------------------------------------------------
-- Relations scope by scope
------------------------------------------------------------

variable {R : Scope → Scope → Prop}

/- Related scopes stay related when both first ones change alike. -/
theorem forall₂_bindFirst
    {ss ts : List Scope}
    (hInsert : ∀ s t, R s t →
      R (s.insert name value) (t.insert name value))
    (h : List.Forall₂ R ss ts) :
    List.Forall₂ R (bindFirst name value ss)
      (bindFirst name value ts) := by
  cases h with
  | nil => exact .nil
  | cons hFirst hOthers => exact .cons (hInsert _ _ hFirst) hOthers

/- So they do when the name is bound anew in the same place. -/
theorem forall₂_rebind
    {ss ts : List Scope}
    (hContains : ∀ s t, R s t → s.contains name = t.contains name)
    (hInsert : ∀ s t, R s t →
      R (s.insert name value) (t.insert name value))
    (h : List.Forall₂ R ss ts) :
    List.Forall₂ R (rebind name value ss) (rebind name value ts) := by
  induction h with
  | nil => exact .nil
  | @cons s t ss ts hFirst hOthers ih =>
      rw [rebind, rebind, ← hContains s t hFirst]
      split
      · exact .cons (hInsert s t hFirst) hOthers
      · exact .cons hFirst ih

/- Related scopes bind the name in the same places. -/
theorem any_contains_eq
    {ss ts : List Scope}
    (hContains : ∀ s t, R s t → s.contains name = t.contains name)
    (h : List.Forall₂ R ss ts) :
    ss.any (·.contains name) = ts.any (·.contains name) := by
  induction h with
  | nil => rfl
  | cons hFirst _ ih =>
      rw [List.any_cons, List.any_cons, hContains _ _ hFirst, ih]

/- Scopes are related to the same ones with a name bound first. -/
theorem forall₂_self_bindFirst
    (hRefl : ∀ s, R s s)
    (hInsert : ∀ s, R s (s.insert name value))
    (ss : List Scope) :
    List.Forall₂ R ss (bindFirst name value ss) := by
  cases ss with
  | nil => exact .nil
  | cons s ss =>
      exact .cons (hInsert s) (List.forall₂_same.mpr fun s _ => hRefl s)

/- And to the same ones with a name bound anew. -/
theorem forall₂_self_rebind
    (hRefl : ∀ s, R s s)
    (hInsert : ∀ s, s.contains name → R s (s.insert name value))
    (ss : List Scope) :
    List.Forall₂ R ss (rebind name value ss) := by
  induction ss with
  | nil => exact .nil
  | cons s ss ih =>
      rw [rebind]
      split
      · next hBound =>
        exact .cons (hInsert s hBound)
          (List.forall₂_same.mpr fun s _ => hRefl s)
      · exact .cons (hRefl s) ih

end Lists

------------------------------------------------------------
-- Environments
------------------------------------------------------------

namespace Environment

/- All scopes, the innermost first and the global one last. -/
def stack
    (env : Environment) : List Scope :=
  env.locals ++ [env.globals]

theorem stack_ne_nil
    (env : Environment) :
    env.stack ≠ [] := by
  simp [stack]

@[simp]
theorem stack_push
    (env : Environment)
    (s : Scope) :
    (env.push s).stack = s :: env.stack :=
  rfl

/- Behind the innermost of several scopes are those that stay. -/
theorem stack_pop
    {env : Environment}
    {s : Scope}
    {ss : List Scope}
    (h : env.stack = s :: ss)
    (hMore : ss ≠ []) :
    env.pop.stack = ss := by
  rcases env with ⟨globals, locals⟩
  cases locals with
  | nil =>
      rcases List.cons.inj h with ⟨_, rfl⟩
      exact absurd rfl hMore
  | cons t ts => exact (List.cons.inj h).2

/- A name has the value that it is found with first. -/
theorem get?_eq_findSome?
    (env : Environment)
    (name : String) :
    env.get? name = env.stack.findSome? (·.get? name) := by
  unfold get? stack
  rw [List.findSome?_append]
  cases env.locals.findSome? (·.get? name) with
  | some v => rfl
  | none => simp

/- A definition binds the name in the innermost scope. -/
theorem stack_define
    (env : Environment)
    (name : String)
    (value : Value) :
    (env.define name value).stack = bindFirst name value env.stack := by
  rcases env with ⟨globals, locals⟩
  cases locals with
  | nil => rfl
  | cons s ss => rfl

/-
  An assignment binds the name anew where it is found first.
  Where it is not found, the assignment is a definition.
-/
theorem stack_assign
    (env : Environment)
    (name : String)
    (value : Value) :
    (env.assign name value).stack =
      if env.stack.any (·.contains name) then
        rebind name value env.stack
      else
        bindFirst name value env.stack := by
  rcases env with ⟨globals, locals⟩
  have hStack : stack ⟨globals, locals⟩ = locals ++ [globals] := rfl
  unfold assign
  cases hFound : locals.findIdx? (·.contains name) with
  | some i =>
      have hAny : locals.any (·.contains name) = true := by
        rw [← List.findIdx?_isSome, hFound]
        rfl
      rw [hStack, List.any_append, hAny, Bool.true_or, if_pos rfl,
        rebind_append_of_any _ hAny, ← modify_findIdx? hFound]
      rfl
  | none =>
      have hAny : locals.any (·.contains name) = false := by
        rw [← List.findIdx?_isSome, hFound]
        rfl
      rw [hStack, List.any_append, hAny, Bool.false_or,
        List.any_cons, List.any_nil, Bool.or_false]
      dsimp only
      by_cases hGlobal : globals.contains name
      · rw [if_pos hGlobal, if_pos hGlobal,
          rebind_append_of_not_any _ hAny, rebind, if_pos hGlobal]
        rfl
      · rw [if_neg hGlobal, if_neg hGlobal, stack_define, hStack]

section Related

variable {R : Scope → Scope → Prop}
variable {name : String}
variable {value : Value}

/- Environments stay related when both lose their innermost scope. -/
theorem forall₂_pop
    {env env' : Environment}
    (h : List.Forall₂ R env.stack env'.stack) :
    List.Forall₂ R env.pop.stack env'.pop.stack := by
  rcases env with ⟨globals, locals⟩
  rcases env' with ⟨globals', locals'⟩
  have hLength : locals.length = locals'.length := by
    simpa [stack] using h.length_eq
  cases locals with
  | nil =>
      rcases List.eq_nil_of_length_eq_zero hLength.symm with rfl
      exact h
  | cons s ss =>
      rcases List.exists_cons_of_length_eq_add_one hLength.symm with
        ⟨t, ts, rfl⟩
      exact (List.forall₂_cons.mp h).2

/- The same definition keeps environments related. -/
theorem forall₂_define
    {env env' : Environment}
    (hInsert : ∀ s t, R s t →
      R (s.insert name value) (t.insert name value))
    (h : List.Forall₂ R env.stack env'.stack) :
    List.Forall₂ R (env.define name value).stack
      (env'.define name value).stack := by
  rw [stack_define, stack_define]
  exact forall₂_bindFirst hInsert h

/- The same assignment does when the name is bound in the same scopes. -/
theorem forall₂_assign
    {env env' : Environment}
    (hContains : ∀ s t, R s t → s.contains name = t.contains name)
    (hInsert : ∀ s t, R s t →
      R (s.insert name value) (t.insert name value))
    (h : List.Forall₂ R env.stack env'.stack) :
    List.Forall₂ R (env.assign name value).stack
      (env'.assign name value).stack := by
  rw [stack_assign, stack_assign, any_contains_eq hContains h]
  split
  · exact forall₂_rebind hContains hInsert h
  · exact forall₂_bindFirst hInsert h

/- What a definition does to the scopes of an environment. -/
theorem forall₂_self_define
    (hRefl : ∀ s, R s s)
    (hInsert : ∀ s, R s (s.insert name value))
    (env : Environment) :
    List.Forall₂ R env.stack (env.define name value).stack := by
  rw [stack_define]
  exact forall₂_self_bindFirst hRefl hInsert env.stack

/- What an assignment does to the scopes of an environment. -/
theorem forall₂_self_assign
    (hRefl : ∀ s, R s s)
    (hInsert : ∀ s, R s (s.insert name value))
    (env : Environment) :
    List.Forall₂ R env.stack (env.assign name value).stack := by
  rw [stack_assign]
  split
  · exact forall₂_self_rebind hRefl (fun s _ => hInsert s) env.stack
  · exact forall₂_self_bindFirst hRefl hInsert env.stack

end Related

end Environment

end DynScript
