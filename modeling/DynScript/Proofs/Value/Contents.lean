import Mathlib.Data.Set.Basic
import DynScript.Proofs.Value.Stack

/-
  The values that scopes hold. Binding a name brings one value
  in, stacking a scope brings in what that scope holds, and
  nothing else ever gets into an environment.

  Key definitions include:
    * `Scope.values`
    * `Environment.values`

  Main statements include:
    * `Scope.values_insert_subset`
    * `Scope.values_ofPairs_subset`
    * `Scope.get?_ofPairs`
    * `Environment.values_push`
    * `Environment.get?_push`
    * `Environment.values_pop_subset`
    * `Environment.values_define_subset`
    * `Environment.values_assign_subset`
-/

namespace DynScript

------------------------------------------------------------
-- One scope
------------------------------------------------------------

namespace Scope

/- The values that the names of a scope are bound to. -/
def values
    (s : Scope) : Set Value :=
  {v | ∃ name, s.get? name = some v}

@[simp]
theorem values_empty :
    Scope.empty.values = ∅ := by
  apply Set.eq_empty_of_forall_notMem
  rintro v ⟨name, hBound⟩
  cases hBound

theorem values_insert_subset
    (s : Scope)
    (name : String)
    (value : Value) :
    (s.insert name value).values ⊆ {value} ∪ s.values := by
  rintro v ⟨other, hBound⟩
  rw [get?_insert] at hBound
  split at hBound
  · rcases Option.some.inj hBound with rfl
    exact .inl rfl
  · exact .inr ⟨other, hBound⟩

/- Parameters are bound to arguments. -/
theorem values_ofPairs_subset
    (pairs : List (String × Value)) :
    (ofPairs pairs).values ⊆ {v | v ∈ pairs.map Prod.snd} := by
  have hFold : ∀ (pairs : List (String × Value)) (s : Scope),
      (pairs.foldl (fun s p => s.insert p.1 p.2) s).values ⊆
        s.values ∪ {v | v ∈ pairs.map Prod.snd} := by
    intro pairs
    induction pairs with
    | nil => exact fun s => Set.subset_union_left
    | cons p ps ih =>
        intro s v hv
        rcases ih _ hv with hFront | hLater
        · rcases s.values_insert_subset p.1 p.2 hFront with rfl | hOld
          · exact .inr (List.mem_cons_self ..)
          · exact .inl hOld
        · exact .inr (List.mem_cons_of_mem _ hLater)
  intro v hv
  rcases hFold pairs .empty hv with hNone | hPair
  · rw [values_empty] at hNone
    exact absurd hNone (Set.notMem_empty v)
  · exact hPair

/- Binding other names leaves what a name is looked up to. -/
theorem get?_foldl_insert_of_ne
    {name : String}
    {pairs : List (String × Value)}
    (hOther : ∀ p ∈ pairs, p.1 ≠ name)
    (s : Scope) :
    (pairs.foldl (fun s p => s.insert p.1 p.2) s).get? name =
      s.get? name := by
  induction pairs generalizing s with
  | nil => rfl
  | cons p ps ih =>
      rw [List.foldl_cons,
        ih fun q hq => hOther q (List.mem_cons_of_mem p hq),
        get?_insert, if_neg (hOther p (List.mem_cons_self ..))]

/- A name has the value that it is listed with last. -/
theorem get?_ofPairs
    (front : List (String × Value))
    (name : String)
    (value : Value)
    {back : List (String × Value)}
    (hLast : ∀ p ∈ back, p.1 ≠ name) :
    (ofPairs (front ++ (name, value) :: back)).get? name =
      some value := by
  unfold ofPairs
  rw [List.foldl_append, List.foldl_cons]
  exact (get?_foldl_insert_of_ne hLast _).trans
    (by rw [get?_insert, if_pos rfl])

/- A name that is not listed has no value. -/
theorem get?_ofPairs_of_ne
    {name : String}
    {pairs : List (String × Value)}
    (hOther : ∀ p ∈ pairs, p.1 ≠ name) :
    (ofPairs pairs).get? name = none :=
  get?_foldl_insert_of_ne hOther .empty

end Scope

------------------------------------------------------------
-- All scopes
------------------------------------------------------------

namespace Environment

/- The values that are bound in some scope, hidden ones too. -/
def values
    (env : Environment) : Set Value :=
  {v | ∃ s ∈ env.stack, v ∈ s.values}

theorem values_ofGlobals
    (globals : Scope) :
    (ofGlobals globals).values = globals.values := by
  ext v
  constructor
  · rintro ⟨s, hScope, hv⟩
    rcases List.mem_singleton.mp hScope with rfl
    exact hv
  · intro hv
    exact ⟨globals, List.mem_singleton_self _, hv⟩

/- The value of a name is one of them. -/
theorem mem_values_of_get?
    {env : Environment}
    {name : String}
    {v : Value}
    (h : env.get? name = some v) :
    v ∈ env.values := by
  rw [get?_eq_findSome?] at h
  rcases List.exists_of_findSome?_eq_some h with ⟨s, hScope, hBound⟩
  exact ⟨s, hScope, name, hBound⟩

/- The innermost scope is one of the scopes. -/
theorem values_innermost?_subset
    {env : Environment}
    {s : Scope}
    (h : env.innermost? = some s) :
    s.values ⊆ env.values := by
  intro v hv
  refine ⟨s, ?_, hv⟩
  exact List.mem_append_left _ (List.mem_of_mem_head? h)

theorem values_push
    (env : Environment)
    (s : Scope) :
    (env.push s).values = s.values ∪ env.values := by
  ext v
  constructor
  · rintro ⟨t, hScope, hv⟩
    rcases List.mem_cons.mp hScope with rfl | hOther
    · exact .inl hv
    · exact .inr ⟨t, hOther, hv⟩
  · rintro (hv | ⟨t, hOther, hv⟩)
    · exact ⟨s, List.mem_cons_self .., hv⟩
    · exact ⟨t, List.mem_cons_of_mem _ hOther, hv⟩

theorem values_pop_subset
    (env : Environment) :
    env.pop.values ⊆ env.values := by
  rintro v ⟨s, hScope, hv⟩
  rcases env with ⟨globals, locals⟩
  refine ⟨s, ?_, hv⟩
  rcases List.mem_append.mp hScope with hLocal | hGlobal
  · exact List.mem_append_left _ (List.mem_of_mem_tail hLocal)
  · exact List.mem_append_right _ hGlobal

/- Binding a name in some scope brings in its value at most. -/
theorem values_subset_of_stack
    {env env' : Environment}
    {name : String}
    {value : Value}
    (h : ∀ s ∈ env'.stack,
      s ∈ env.stack ∨ ∃ t ∈ env.stack, s = t.insert name value) :
    env'.values ⊆ {value} ∪ env.values := by
  rintro v ⟨s, hScope, hv⟩
  rcases h s hScope with hSame | ⟨t, hOld, rfl⟩
  · exact .inr ⟨s, hSame, hv⟩
  · rcases t.values_insert_subset name value hv with rfl | hOther
    · exact .inl rfl
    · exact .inr ⟨t, hOld, hOther⟩

/- A scope of a list in which a name was bound first. -/
theorem mem_bindFirst
    {name : String}
    {value : Value}
    {ss : List Scope}
    {s : Scope}
    (h : s ∈ bindFirst name value ss) :
    s ∈ ss ∨ ∃ t ∈ ss, s = t.insert name value := by
  cases ss with
  | nil => cases h
  | cons t ts =>
      rcases List.mem_cons.mp h with rfl | hOther
      · exact .inr ⟨t, List.mem_cons_self .., rfl⟩
      · exact .inl (List.mem_cons_of_mem _ hOther)

/- A scope of a list in which a name was bound anew. -/
theorem mem_rebind
    {name : String}
    {value : Value}
    {ss : List Scope}
    {s : Scope}
    (h : s ∈ rebind name value ss) :
    s ∈ ss ∨ ∃ t ∈ ss, s = t.insert name value := by
  induction ss with
  | nil => cases h
  | cons t ts ih =>
      rw [rebind] at h
      split at h
      · rcases List.mem_cons.mp h with rfl | hOther
        · exact .inr ⟨t, List.mem_cons_self .., rfl⟩
        · exact .inl (List.mem_cons_of_mem _ hOther)
      · rcases List.mem_cons.mp h with rfl | hLater
        · exact .inl (List.mem_cons_self ..)
        · rcases ih hLater with hSame | ⟨u, hOld, rfl⟩
          · exact .inl (List.mem_cons_of_mem _ hSame)
          · exact .inr ⟨u, List.mem_cons_of_mem _ hOld, rfl⟩

/- A stacked scope is looked into first. -/
theorem get?_push
    (env : Environment)
    (s : Scope)
    (name : String) :
    (env.push s).get? name = (s.get? name).or (env.get? name) := by
  rw [get?_eq_findSome?, get?_eq_findSome?, stack_push,
    List.findSome?_cons]
  cases s.get? name with
  | some v => rfl
  | none => rfl

/- A name of a stacked scope has its value in that scope. -/
theorem get?_push_of_get?
    {s : Scope}
    {name : String}
    {value : Value}
    (env : Environment)
    (h : s.get? name = some value) :
    (env.push s).get? name = some value := by
  rw [get?_push, h, Option.some_or]

section Binding

variable (env : Environment)
variable (name : String)
variable (value : Value)

theorem values_define_subset :
    (env.define name value).values ⊆ {value} ∪ env.values := by
  apply values_subset_of_stack
  intro s hScope
  rw [stack_define] at hScope
  exact mem_bindFirst hScope

theorem values_assign_subset :
    (env.assign name value).values ⊆ {value} ∪ env.values := by
  apply values_subset_of_stack
  intro s hScope
  rw [stack_assign] at hScope
  split at hScope
  · exact mem_rebind hScope
  · exact mem_bindFirst hScope

/- A name that was just defined has the value. -/
theorem get?_define_self :
    (env.define name value).get? name = some value := by
  rcases env with ⟨globals, locals⟩
  rw [get?_eq_findSome?, stack_define]
  cases locals with
  | nil => simp [stack, bindFirst, Scope.get?_insert]
  | cons s ss => simp [stack, bindFirst, Scope.get?_insert]

end Binding

end Environment

end DynScript
