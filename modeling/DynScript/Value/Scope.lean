import DynScript.Value.Basic

/-
  This file defines scopes and the stack of scopes that names
  are looked up in, from the innermost scope outwards.

  Key definitions include:
    * `Scope`
    * `Scope.get?`
    * `Scope.insert`
    * `Environment`
    * `Environment.get?`
    * `Environment.assign`
    * `Environment.define`
    * `Environment.push`
    * `Environment.pop`

  Main statements include:
    * `Scope.nodup_put`
    * `Scope.get?_insert`
    * `Environment.depth_assign`
-/

namespace DynScript

------------------------------------------------------------
-- One scope
------------------------------------------------------------

/- The bindings of one level, each name at most once. -/
structure Scope where
  entries : List (String × Value)
  unique : (entries.map Prod.fst).Nodup

namespace Scope

/- A scope without bindings. -/
def empty : Scope where
  entries := []
  unique := .nil

/- The value of a name in a list of bindings. -/
def find
    (name : String) : List (String × Value) → Option Value
  | [] => none
  | (n, v) :: rest => if n = name then some v else find name rest

/-
  The bindings with one name bound anew, in its old place if it
  had one.
-/
def put
    (name : String)
    (value : Value) : List (String × Value) → List (String × Value)
  | [] => [(name, value)]
  | (n, v) :: rest =>
    if n = name then
      (name, value) :: rest
    else
      (n, v) :: put name value rest

/- One name more is bound, unless it was. -/
theorem mem_names_put
    (name other : String)
    (value : Value)
    (entries : List (String × Value)) :
    other ∈ (put name value entries).map Prod.fst ↔
      other = name ∨ other ∈ entries.map Prod.fst := by
  induction entries with
  | nil => simp [put]
  | cons entry rest ih =>
    obtain ⟨n, v⟩ := entry
    by_cases hn : n = name
    · subst hn
      simp [put]
    · rw [put, if_neg hn, List.map_cons, List.map_cons, List.mem_cons,
        List.mem_cons, ih]
      exact or_left_comm

/- And so no name is bound twice. -/
theorem nodup_put
    (name : String)
    (value : Value)
    {entries : List (String × Value)}
    (h : (entries.map Prod.fst).Nodup) :
    ((put name value entries).map Prod.fst).Nodup := by
  induction entries with
  | nil => simp [put]
  | cons entry rest ih =>
    obtain ⟨n, v⟩ := entry
    obtain ⟨hFirst, hOthers⟩ := List.nodup_cons.mp h
    by_cases hn : n = name
    · subst hn
      simpa [put] using h
    · rw [put, if_neg hn, List.map_cons]
      refine List.nodup_cons.mpr ⟨?_, ih hOthers⟩
      rw [mem_names_put]
      exact fun hAgain => hAgain.elim hn hFirst

/- The value of a name, if the scope binds it. -/
def get?
    (s : Scope)
    (name : String) : Option Value :=
  find name s.entries

/- Whether the scope binds a name. -/
def contains
    (s : Scope)
    (name : String) : Bool :=
  (s.get? name).isSome

/- The scope with a name bound to a value. -/
def insert
    (s : Scope)
    (name : String)
    (value : Value) : Scope where
  entries := put name value s.entries
  unique := nodup_put name value s.unique

/- Looking a name up after another binding of one of them. -/
theorem find_put
    (name other : String)
    (value : Value)
    (entries : List (String × Value)) :
    find other (put name value entries) =
      if name = other then some value else find other entries := by
  induction entries with
  | nil => rfl
  | cons entry rest ih =>
    obtain ⟨n, v⟩ := entry
    by_cases hn : n = name
    · subst hn
      by_cases ho : n = other <;> simp [put, find, ho]
    · by_cases ho : n = other
      · subst ho
        simp [put, find, hn, Ne.symm hn]
      · simp [put, find, hn, ho, ih]

/-
  Binding a name changes what that name is looked up to, and no
  other.
-/
theorem get?_insert
    (s : Scope)
    (name other : String)
    (value : Value) :
    (s.insert name value).get? other =
      if name = other then some value else s.get? other :=
  find_put name other value s.entries

/-
  The scope that binds each name of a list to the value at the
  same place. Of a name listed twice, the last place counts.
-/
def ofPairs
    (pairs : List (String × Value)) : Scope :=
  pairs.foldl (fun s (n, v) => s.insert n v) empty

end Scope

------------------------------------------------------------
-- The stack of scopes
------------------------------------------------------------

/-
  A global scope, which always stays, and the scopes stacked on
  it, the innermost first.
-/
structure Environment where
  globals : Scope
  locals : List Scope

namespace Environment

/- The environment with nothing stacked on the global scope. -/
def ofGlobals
    (globals : Scope) : Environment :=
  ⟨globals, []⟩

/- The number of scopes, the global one included. -/
def depth
    (env : Environment) : Nat :=
  env.locals.length + 1

/- The scopes from the global one to the innermost. -/
def scopes
    (env : Environment) : List Scope :=
  env.globals :: env.locals.reverse

/- Stack a scope on the others. -/
def push
    (env : Environment)
    (s : Scope) : Environment :=
  { env with locals := s :: env.locals }

/- The innermost scope, unless only the global one is left. -/
def innermost?
    (env : Environment) : Option Scope :=
  env.locals.head?

/- Take the innermost scope away; the global one stays. -/
def pop
    (env : Environment) : Environment :=
  { env with locals := env.locals.tail }

/- The value that a name has in the innermost scope that binds it. -/
def get?
    (env : Environment)
    (name : String) : Option Value :=
  match env.locals.findSome? (·.get? name) with
  | some v => some v
  | none => env.globals.get? name

/- Bind a name in the innermost scope. -/
def define
    (env : Environment)
    (name : String)
    (value : Value) : Environment :=
  match env.locals with
  | [] => { env with globals := env.globals.insert name value }
  | s :: rest => { env with locals := s.insert name value :: rest }

/- Binding a name leaves the number of scopes. -/
@[simp]
theorem depth_define
    (env : Environment)
    (name : String)
    (value : Value) :
    (env.define name value).depth = env.depth := by
  unfold define depth
  split <;> simp_all

/-
  Bind a name anew in the innermost scope that binds it, or in
  the innermost scope when none does.
-/
def assign
    (env : Environment)
    (name : String)
    (value : Value) : Environment :=
  match env.locals.findIdx? (·.contains name) with
  | some i =>
    { env with locals := env.locals.modify i (·.insert name value) }
  | none =>
    if env.globals.contains name then
      { env with globals := env.globals.insert name value }
    else
      env.define name value

/- Binding a name anew leaves the number of scopes. -/
@[simp]
theorem depth_assign
    (env : Environment)
    (name : String)
    (value : Value) :
    (env.assign name value).depth = env.depth := by
  unfold assign
  split
  · simp [depth]
  · split
    · rfl
    · exact depth_define env name value

end Environment

end DynScript
