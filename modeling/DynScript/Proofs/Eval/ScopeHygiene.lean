import Mathlib.Data.Set.Insert
import DynScript.Proofs.Eval.StackDiscipline
import DynScript.Proofs.Value.Stack

/-
  Which names are bound where. A name is bound only in the
  scope that is innermost at that moment, and the scope of a
  branch or of a call is taken away at its end. So expressions,
  conditionals and calls bind nothing that is still bound
  behind them, and a block binds names in one scope only.

  Key definitions include:
    * `Scope.names`
    * `Environment.names`
    * `Environment.GainsInnermost`

  Main statements include:
    * `Environment.names_assign_of_bound`
    * `hygiene_compositional`
    * `scope_hygiene`
-/

namespace DynScript

------------------------------------------------------------
-- The names of a scope
------------------------------------------------------------

/- The names that a scope binds. -/
def Scope.names
    (s : Scope) : Set String :=
  {name | s.contains name = true}

/- Binding a name adds it to them. -/
theorem Scope.names_insert
    (s : Scope)
    (name : String)
    (value : Value) :
    (s.insert name value).names = Insert.insert name s.names := by
  ext other
  change (s.insert name value).contains other = true ↔
    other = name ∨ s.contains other = true
  rw [Scope.contains_insert, Bool.or_eq_true, decide_eq_true_iff,
    eq_comm]

/- Binding a bound name anew adds none. -/
theorem Scope.names_insert_of_contains
    {s : Scope}
    {name : String}
    (value : Value)
    (h : s.contains name = true) :
    (s.insert name value).names = s.names := by
  rw [Scope.names_insert]
  exact Set.insert_eq_of_mem h

/- So binding it anew where it is bound adds none to any scope. -/
theorem map_names_rebind
    (name : String)
    (value : Value)
    (ss : List Scope) :
    (rebind name value ss).map Scope.names = ss.map Scope.names := by
  induction ss with
  | nil => rfl
  | cons s ss ih =>
      rw [rebind]
      split
      · next hBound =>
        rw [List.map_cons, List.map_cons,
          Scope.names_insert_of_contains value hBound]
      · rw [List.map_cons, List.map_cons, ih]

------------------------------------------------------------
-- The names of all scopes
------------------------------------------------------------

namespace Environment

/- The names that each scope binds, the innermost scope first. -/
def names
    (env : Environment) : List (Set String) :=
  env.stack.map Scope.names

/-
  The innermost scope binds the same names or more, and every
  other scope the same ones.
-/
def GainsInnermost
    (env env' : Environment) : Prop :=
  ∃ inner inner' outer,
    env.names = inner :: outer ∧ env'.names = inner' :: outer ∧
      inner ⊆ inner'

theorem names_ne_nil
    (env : Environment) :
    env.names ≠ [] := by
  intro hEmpty
  exact env.stack_ne_nil (List.map_eq_nil_iff.mp hEmpty)

@[simp]
theorem names_push
    (env : Environment)
    (s : Scope) :
    (env.push s).names = s.names :: env.names :=
  rfl

theorem names_pop
    {env : Environment}
    {inner : Set String}
    {outer : List (Set String)}
    (h : env.names = inner :: outer)
    (hMore : outer ≠ []) :
    env.pop.names = outer := by
  rcases List.map_eq_cons_iff.mp h with ⟨s, ss, hStack, _, rfl⟩
  have hScopes : ss ≠ [] := by
    rintro rfl
    exact hMore rfl
  rw [names, stack_pop hStack hScopes]

theorem GainsInnermost.of_names_eq
    {env env' : Environment}
    (h : env'.names = env.names) :
    env.GainsInnermost env' := by
  rcases List.exists_cons_of_ne_nil env.names_ne_nil with
    ⟨inner, outer, hNames⟩
  exact ⟨inner, inner, outer, hNames, h.trans hNames, Set.Subset.rfl⟩

theorem GainsInnermost.trans
    {env₁ env₂ env₃ : Environment}
    (h₁ : env₁.GainsInnermost env₂)
    (h₂ : env₂.GainsInnermost env₃) :
    env₁.GainsInnermost env₃ := by
  rcases h₁ with ⟨a, b, outer, hFirst, hSecond, hSub⟩
  rcases h₂ with ⟨b', c, outer', hSecond', hThird, hSub'⟩
  rcases List.cons.inj (hSecond.symm.trans hSecond') with ⟨rfl, rfl⟩
  exact ⟨a, c, outer, hFirst, hThird, hSub.trans hSub'⟩

/- A definition binds its name in the innermost scope. -/
theorem gainsInnermost_define
    (env : Environment)
    (name : String)
    (value : Value) :
    env.GainsInnermost (env.define name value) := by
  rcases List.exists_cons_of_ne_nil env.stack_ne_nil with
    ⟨s, ss, hStack⟩
  refine ⟨s.names, insert name s.names, ss.map Scope.names, ?_, ?_,
    Set.subset_insert name s.names⟩
  · rw [names, hStack, List.map_cons]
  · rw [names, stack_define, hStack, bindFirst, List.map_cons,
      Scope.names_insert]

/- An assignment to a bound name binds nothing. -/
theorem names_assign_of_bound
    {env : Environment}
    {name : String}
    (value : Value)
    (h : env.stack.any (·.contains name) = true) :
    (env.assign name value).names = env.names := by
  rw [names, stack_assign, if_pos h, map_names_rebind, names]

/- Otherwise it does what a definition does. -/
theorem gainsInnermost_assign
    (env : Environment)
    (name : String)
    (value : Value) :
    env.GainsInnermost (env.assign name value) := by
  by_cases hBound : env.stack.any (·.contains name) = true
  · exact .of_names_eq (names_assign_of_bound value hBound)
  · have hSame : (env.assign name value).names =
        (env.define name value).names := by
      rw [names, stack_assign, if_neg hBound, names, stack_define]
    exact (env.gainsInnermost_define name value).trans
      (.of_names_eq hSame)

/-
  What was stacked on scopes is taken away, whatever names it
  has gained.
-/
theorem GainsInnermost.names_pop_push
    {env env' : Environment}
    {s : Scope}
    (h : (env.push s).GainsInnermost env') :
    env'.pop.names = env.names := by
  rcases h with ⟨inner, inner', outer, hBefore, hBehind, _⟩
  rw [names_push] at hBefore
  rcases List.cons.inj hBefore with ⟨_, rfl⟩
  exact names_pop hBehind env.names_ne_nil

end Environment

------------------------------------------------------------
-- Programs
------------------------------------------------------------

/- A step that leaves the names of every scope. -/
def KeepsNames : StepProperty :=
  Leads fun m m' => m'.env.names = m.env.names

/- A step that may bind names in the innermost scope. -/
def BindsInnermost : StepProperty :=
  Leads fun m m' => m.env.GainsInnermost m'.env

/- A scope around a step hides the names that it binds. -/
theorem keepsNames_inScope
    {α : Type}
    {body : Eval α}
    (s : Scope)
    (h : BindsInnermost α body) :
    KeepsNames α (Eval.inScope s body) := by
  intro m
  have hBody := h { m with env := m.env.push s }
  unfold Eval.after Eval.inScope at *
  cases hx : body { m with env := m.env.push s } with
  | ok a m' =>
      rw [hx] at hBody
      exact hBody.names_pop_push
  | error e m' =>
      rw [hx] at hBody
      exact hBody.names_pop_push

/- An open call makes no difference to names. -/
theorem keepsNames_deeper
    {α : Type}
    {body : Eval α}
    (h : KeepsNames α body) :
    KeepsNames α (Eval.deeper body) := by
  intro m
  have hBody := h { m with depth := m.depth + 1 }
  unfold Eval.after Eval.deeper at *
  cases hx : body { m with depth := m.depth + 1 } with
  | ok a m' =>
      rw [hx] at hBody
      exact hBody
  | error e m' =>
      rw [hx] at hBody
      exact hBody

/- Every step keeps names, or binds them in the innermost scope. -/
theorem hygiene_compositional :
    Pointwise KeepsNames BindsInnermost where
  outerSeq := leads_sequential (fun _ => rfl)
    fun hFirst hNext => hNext.trans hFirst
  innerSeq := leads_sequential (fun _ => .of_names_eq rfl)
    Environment.GainsInnermost.trans
  weaken := fun h m => .of_names_eq (h m)
  lookup := by
    intro name m
    unfold Eval.after Eval.lookup
    cases m.env.get? name with
    | none => rfl
    | some v => rfl
  newFunction := fun _ _ => rfl
  print := by
    intro text m
    unfold Eval.after Eval.print
    rcases m.sink.write text with ⟨written, sink⟩
    cases written with
    | true => rfl
    | false => rfl
  assign := fun name value m => m.env.gainsInnermost_assign name value
  define := fun name value m => m.env.gainsInnermost_define name value
  inScope := keepsNames_inScope
  deeper := keepsNames_deeper
  outerChoose := leads_choose
  innerChoose := leads_choose

/-
  Expressions, conditionals and calls leave the names that each
  scope binds, however they end. Blocks and programs leave
  those of every scope but the innermost one, which only gains
  names.
-/
theorem scope_hygiene
    (m : Machine) :
    (∀ room,
      (∀ e, ((evalExpr (callFunction room) e).after m).env.names =
        m.env.names) ∧
      (∀ test yes no,
        ((execStmt (callFunction room) (.branch test yes no)).after
          m).env.names = m.env.names) ∧
      (∀ f args, ((callFunction room f args).after m).env.names =
        m.env.names) ∧
      ∀ b, m.env.GainsInnermost
        ((execBlock (callFunction room) b).after m).env) ∧
    (∀ f args, (m.call f args).2.env.names = m.env.names) ∧
    ∀ b, m.env.GainsInnermost (m.run b).2.env := by
  refine ⟨?_, ?_, ?_⟩
  · intro room
    have hCall := hygiene_compositional.callFunction room
    refine ⟨?_, ?_, ?_, ?_⟩
    · intro e
      exact hygiene_compositional.evalExpr hCall e m
    · intro test yes no
      have hBlock := fun b => hygiene_compositional.execBlock hCall b
      exact hygiene_compositional.branch hCall test (hBlock yes)
        (fun b _ => hBlock b) m
    · intro f args
      exact hCall f args m
    · intro b
      exact hygiene_compositional.execBlock hCall b m
  · intro f args
    rw [Machine.call, Machine.step_snd]
    exact hygiene_compositional.invoke f args m
  · intro b
    rw [Machine.run, Machine.step_snd]
    exact hygiene_compositional.runBlock b m

end DynScript
