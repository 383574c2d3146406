import DynScript.Proofs.Eval.Rules
import DynScript.Proofs.Value.Contents

/-
  What a function sees when its body starts. A parameter has
  the value of the argument at the place where its name is
  listed last, and every other name has the value that it has
  for the caller. A call with too few or too many arguments
  changes nothing.

  Key definitions include:
    * `LastListed`
    * `Environment.Binds`

  Main statements include:
    * `exists_lastListed`
    * `Machine.binds_enter`
    * `call_binds_parameters`
-/

namespace DynScript

------------------------------------------------------------
-- Where a name is listed last
------------------------------------------------------------

/- A place of a name in a list, with the name at no later place. -/
def LastListed
    (names : List String)
    (name : String)
    (i : Nat) : Prop :=
  names[i]? = some name ∧ ∀ j, i < j → names[j]? ≠ some name

/- A name that is listed is listed last somewhere. -/
theorem exists_lastListed
    {names : List String}
    {name : String}
    (h : name ∈ names) :
    ∃ i, LastListed names name i := by
  induction names with
  | nil => cases h
  | cons first others ih =>
      by_cases hLater : name ∈ others
      · rcases ih hLater with ⟨i, hPlace, hLast⟩
        refine ⟨i + 1, hPlace, ?_⟩
        intro j hj
        cases j with
        | zero => exact absurd hj (Nat.not_lt_zero _)
        | succ j => exact hLast j (Nat.lt_of_succ_lt_succ hj)
      · rcases List.mem_cons.mp h with rfl | hOther
        · refine ⟨0, rfl, ?_⟩
          intro j hj hPlace
          cases j with
          | zero => exact Nat.lt_irrefl 0 hj
          | succ j => exact hLater (List.mem_of_getElem? hPlace)
        · exact absurd hOther hLater

------------------------------------------------------------
-- Scopes of parameters
------------------------------------------------------------

namespace Scope

variable {params : List String}
variable {args : List Value}

/- A parameter has the argument at the place where it is listed last. -/
theorem get?_parameter
    {name : String}
    {i : Nat}
    (hLength : params.length = args.length)
    (h : LastListed params name i) :
    ∃ v, args[i]? = some v ∧
      (ofPairs (params.zip args)).get? name = some v := by
  rcases h with ⟨hPlace, hLast⟩
  rcases List.getElem?_eq_some_iff.mp hPlace with ⟨hi, hName⟩
  have hArg : i < args.length := hLength ▸ hi
  have hPair : i < (params.zip args).length := by
    rw [List.length_zip]
    omega
  have hSplit :
      (params.zip args).take i ++
        (name, args[i]) :: (params.zip args).drop (i + 1) =
          params.zip args := by
    rw [← hName, ← List.getElem_zip (h := hPair), List.getElem_cons_drop,
      List.take_append_drop]
  refine ⟨args[i], List.getElem?_eq_getElem hArg, ?_⟩
  rw [← hSplit]
  apply get?_ofPairs
  intro p hBack hSame
  rcases List.mem_iff_getElem?.mp hBack with ⟨k, hk⟩
  rw [List.getElem?_drop] at hk
  have hLater : params[i + 1 + k]? = some p.1 :=
    (List.getElem?_zip_eq_some.mp hk).1
  exact hLast (i + 1 + k) (by omega) (hSame ▸ hLater)

/- A name that is no parameter has no argument. -/
theorem get?_no_parameter
    {name : String}
    (h : name ∉ params) :
    (ofPairs (params.zip args)).get? name = none := by
  apply get?_ofPairs_of_ne
  rintro p hPair rfl
  exact h (List.of_mem_zip hPair).1

end Scope

------------------------------------------------------------
-- Calls
------------------------------------------------------------

/-
  The environment `inner` binds parameters to arguments in
  front of all that the environment `caller` binds. Of a name
  that is listed more than once, the last place counts.
-/
structure Environment.Binds
    (caller : Environment)
    (params : List String)
    (args : List Value)
    (inner : Environment) : Prop where
  listed :
    ∀ name ∈ params, ∃ i v, LastListed params name i ∧
      args[i]? = some v ∧ inner.get? name = some v
  other :
    ∀ name, name ∉ params → inner.get? name = caller.get? name

/- The body of a function starts with its parameters bound. -/
theorem Machine.binds_enter
    {f : Function}
    {args : List Value}
    (hLength : f.params.length = args.length)
    (m : Machine) :
    m.env.Binds f.params args (m.enter f args).env where
  listed name hListed := by
    rcases exists_lastListed hListed with ⟨i, hLast⟩
    rcases Scope.get?_parameter hLength hLast with ⟨v, hArg, hBound⟩
    exact ⟨i, v, hLast, hArg,
      Environment.get?_push_of_get? m.env hBound⟩
  other name hOther := by
    unfold Machine.enter
    dsimp only
    rw [Environment.get?_push, Scope.get?_no_parameter hOther,
      Option.none_or]

/-
  A call with an argument for each parameter runs the body with
  the parameters bound, and with nothing else changed for it. A
  call with more or fewer arguments fails, however many calls
  are open, and leaves the machine as it is.
-/
theorem call_binds_parameters
    (f : Function)
    (args : List Value)
    (m : Machine) :
    (f.params.length = args.length →
      m.env.Binds f.params args (m.enter f args).env ∧
      (m.depth < m.maxDepth → ∀ room,
        callFunction (room + 1) f args m =
          End.andThen
            (End.leaveCall (End.popScope
              (execBlock (callFunction room) f.body (m.enter f args))))
            fun flow => pure flow.returned)) ∧
    (f.params.length ≠ args.length →
      (∀ room, callFunction room f args m =
        .error (.arity f.name f.params.length args.length) m) ∧
      m.call f args =
        (.error (.arity f.name f.params.length args.length), m)) := by
  constructor
  · intro hLength
    refine ⟨m.binds_enter hLength, ?_⟩
    intro hDepth room
    rw [callFunction_succ room hLength hDepth, runBody_apply]
    rfl
  · intro hLength
    have hFails : ∀ room, callFunction room f args m =
        .error (.arity f.name f.params.length args.length) m :=
      fun room => callFunction_arity room hLength m
    refine ⟨hFails, ?_⟩
    unfold Machine.call Machine.step invoke
    rw [hFails]

/-
  Of two parameters of one name the last one counts, and a
  missing argument is told even where no call may be open.
-/
theorem repeated_parameter_bound :
    (Machine.fresh .empty 1 none 0).env.Binds
      ["a", "b", "a"] [.int 1, .int 2, .int 3]
      ((Machine.fresh .empty 1 none 0).enter
        ⟨"pick", ["a", "b", "a"], []⟩ [.int 1, .int 2, .int 3]).env ∧
    (Machine.fresh .empty 0 none 0).call
        ⟨"pick", ["a", "b", "a"], []⟩ [.int 1, .int 2] =
      (.error (.arity "pick" 3 2), Machine.fresh .empty 0 none 0) := by
  have hThree := call_binds_parameters ⟨"pick", ["a", "b", "a"], []⟩
    [.int 1, .int 2, .int 3] (.fresh .empty 1 none 0)
  have hTwo := call_binds_parameters ⟨"pick", ["a", "b", "a"], []⟩
    [.int 1, .int 2] (.fresh .empty 0 none 0)
  exact ⟨(hThree.1 rfl).1, (hTwo.2 (by decide)).2⟩

end DynScript
