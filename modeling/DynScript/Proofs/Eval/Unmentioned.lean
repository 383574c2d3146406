import Mathlib.Data.Set.Basic
import DynScript.Proofs.Eval.Operator
import DynScript.Proofs.Eval.Rules
import DynScript.Proofs.Value.Stack

/-
  Names that nothing mentions. A program reads and binds only
  the names that occur in it and in the functions it can get
  hold of. When a set of names holds all of these, two runs
  that start from the same bindings of these names are the
  same, and neither of them touches any other name.

  Key definitions include:
    * `Stmt.names`
    * `Function.names`
    * `Environment.Closed`
    * `Environment.AgreeOn`
    * `Unaware`

  Main statements include:
    * `Unaware.bind`
    * `unaware_inScope`
    * `unaware_evalExpr`
    * `unaware_execStmt`
    * `unaware_callFunction`
    * `unmentioned_names`
-/

namespace DynScript

------------------------------------------------------------
-- The names in a program
------------------------------------------------------------

mutual

/- The names that occur in an expression. -/
def Expr.names : Expr → List String
  | .var name => [name]
  | .unary _ e => e.names
  | .binary _ l r => l.names ++ r.names
  | .call name args => name :: Expr.namesArgs args
  | _ => []

/- The names that occur in a list of expressions. -/
def Expr.namesArgs : List Expr → List String
  | [] => []
  | e :: es => e.names ++ Expr.namesArgs es

end

mutual

/- The names that occur in a statement, those that it binds included. -/
def Stmt.names : Stmt → List String
  | .assign name e => name :: e.names
  | .branch test yes none => test.names ++ Stmt.namesSeq yes
  | .branch test yes (some no) =>
    test.names ++ (Stmt.namesSeq yes ++ Stmt.namesSeq no)
  | .function name params body =>
    name :: (params ++ Stmt.namesSeq body)
  | .ret none => []
  | .ret (some e) => e.names
  | .expr e => e.names

/- The names that occur in a block. -/
def Stmt.namesSeq : List Stmt → List String
  | [] => []
  | s :: ss => s.names ++ Stmt.namesSeq ss

end

/-
  The names that occur in a function: its own, its parameters
  and those of its body.
-/
def Function.names
    (f : Function) : List String :=
  f.name :: (f.params ++ Stmt.namesSeq f.body)

------------------------------------------------------------
-- Values and scopes that mention certain names only
------------------------------------------------------------

section Closed

variable (M : Set String)

/- A function mentions names of `M` only; other values mention none. -/
def Value.Closed : Value → Prop
  | .function _ f => ∀ x ∈ f.names, x ∈ M
  | _ => True

/- Functions bound to names of `M` mention names of `M` only. -/
def Scope.Closed
    (s : Scope) : Prop :=
  ∀ name ∈ M, ∀ v ∈ s.get? name, v.Closed M

/- This holds of all scopes. -/
def Environment.Closed
    (env : Environment) : Prop :=
  ∀ s ∈ env.stack, s.Closed M

/- The names of `M` are bound to the same values or not at all. -/
def Scope.AgreeOn
    (s t : Scope) : Prop :=
  ∀ name ∈ M, t.get? name = s.get? name

/- There are as many scopes, and they agree scope by scope. -/
def Environment.AgreeOn
    (env env' : Environment) : Prop :=
  List.Forall₂ (Scope.AgreeOn M) env.stack env'.stack

end Closed

variable {M : Set String}

theorem Value.closed_of_kind
    {v : Value}
    (h : v.kind ≠ .function) :
    v.Closed M := by
  cases v with
  | function i f => exact absurd rfl h
  | _ => trivial

theorem Value.closed_of_data
    {v : Value}
    (h : v.kind = .int ∨ v.kind = .float ∨ v.kind = .bool) :
    v.Closed M := by
  apply Value.closed_of_kind
  intro hFunction
  rw [hFunction] at h
  rcases h with h | h | h <;> cases h

namespace Scope

theorem closed_empty :
    Scope.empty.Closed M := by
  intro name _ v hv
  cases hv

theorem Closed.insert
    {s : Scope}
    {value : Value}
    (name : String)
    (h : s.Closed M)
    (hValue : value.Closed M) :
    (s.insert name value).Closed M := by
  intro other hOther v hv
  rw [get?_insert] at hv
  split at hv
  · rcases Option.some.inj hv with rfl
    exact hValue
  · exact h other hOther v hv

/- Parameters are bound to arguments. -/
theorem closed_ofPairs
    {pairs : List (String × Value)}
    (h : ∀ p ∈ pairs, p.2.Closed M) :
    (ofPairs pairs).Closed M := by
  have hFold : ∀ s : Scope, s.Closed M →
      (pairs.foldl (fun s p => s.insert p.1 p.2) s).Closed M := by
    induction pairs with
    | nil => exact fun s hs => hs
    | cons p ps ih =>
        intro s hs
        rcases List.forall_mem_cons.mp h with ⟨hFirst, hOthers⟩
        exact ih hOthers _ (hs.insert p.1 hFirst)
  exact hFold .empty closed_empty

theorem AgreeOn.refl
    (s : Scope) :
    s.AgreeOn M s :=
  fun _ _ => rfl

theorem AgreeOn.contains_eq
    {s t : Scope}
    {name : String}
    (h : s.AgreeOn M t)
    (hName : name ∈ M) :
    s.contains name = t.contains name := by
  unfold contains
  rw [h name hName]

/- The same binding leaves scopes in agreement. -/
theorem AgreeOn.insert
    {s t : Scope}
    (name : String)
    (value : Value)
    (h : s.AgreeOn M t) :
    (s.insert name value).AgreeOn M (t.insert name value) := by
  intro other hOther
  rw [get?_insert, get?_insert, h other hOther]

/- A binding of a name of `M` changes no other name. -/
theorem agreeOn_compl_insert
    {name : String}
    (value : Value)
    (hName : name ∈ M)
    (s : Scope) :
    s.AgreeOn Mᶜ (s.insert name value) := by
  intro other hOther
  have hNe : name ≠ other := by
    rintro rfl
    exact hOther hName
  rw [get?_insert, if_neg hNe]

end Scope

namespace Environment

theorem AgreeOn.refl
    (env : Environment) :
    env.AgreeOn M env :=
  List.forall₂_same.mpr fun s _ => Scope.AgreeOn.refl s

theorem AgreeOn.trans
    {env₁ env₂ env₃ : Environment}
    (h₁ : env₁.AgreeOn M env₂)
    (h₂ : env₂.AgreeOn M env₃) :
    env₁.AgreeOn M env₃ := by
  have hTrans : ∀ {ss ts us : List Scope},
      List.Forall₂ (Scope.AgreeOn M) ss ts →
      List.Forall₂ (Scope.AgreeOn M) ts us →
      List.Forall₂ (Scope.AgreeOn M) ss us := by
    intro ss ts us hFirst
    induction hFirst generalizing us with
    | nil => exact fun hSecond => hSecond
    | cons hs _ ih =>
        intro hSecond
        cases hSecond with
        | cons ht hts =>
            exact .cons
              (fun name hName => (ht name hName).trans (hs name hName))
              (ih hts)
  exact hTrans h₁ h₂

end Environment

------------------------------------------------------------
-- Machines that are alike
------------------------------------------------------------

/-
  Two machines that differ in names outside of `M` at most, and
  whose functions mention names of `M` only.
-/
structure Alike
    (M : Set String)
    (m n : Machine) : Prop where
  scopes :
    List.Forall₂ (fun s t => s.Closed M ∧ s.AgreeOn M t)
      m.env.stack n.env.stack
  others : n = { m with env := n.env }

theorem alike_of_agreeOn
    {m n : Machine}
    (hClosed : m.env.Closed M)
    (hAgree : m.env.AgreeOn M n.env)
    (hOthers : n = { m with env := n.env }) :
    Alike M m n :=
  ⟨(List.forall₂_and_left _ _).mpr ⟨hClosed, hAgree⟩, hOthers⟩

namespace Alike

variable {m n : Machine}

theorem closed
    (h : Alike M m n) :
    m.env.Closed M :=
  ((List.forall₂_and_left _ _).mp h.scopes).1

theorem agreeOn
    (h : Alike M m n) :
    m.env.AgreeOn M n.env :=
  ((List.forall₂_and_left _ _).mp h.scopes).2

/- Each of the two machines is like itself. -/
theorem left
    (h : Alike M m n) :
    Alike M m m :=
  alike_of_agreeOn h.closed (.refl _) rfl

theorem right
    (h : Alike M m n) :
    Alike M n n := by
  refine alike_of_agreeOn ?_ (.refl _) rfl
  have hFlip : List.Forall₂ (fun t s => t.Closed M ∧ s.AgreeOn M t)
      n.env.stack m.env.stack := by
    refine (h.scopes.imp ?_).flip
    intro s t hBoth
    refine ⟨?_, hBoth.2⟩
    intro name hName v hv
    rw [hBoth.2 name hName] at hv
    exact hBoth.1 name hName v hv
  exact ((List.forall₂_and_left _ _).mp hFlip).1

theorem sink_eq
    (h : Alike M m n) :
    n.sink = m.sink := by
  rw [h.others]

/- A name of `M` has the same value, which mentions names of `M` only. -/
theorem get?_eq
    {name : String}
    (h : Alike M m n)
    (hName : name ∈ M) :
    n.env.get? name = m.env.get? name ∧
      ∀ v ∈ m.env.get? name, v.Closed M := by
  rw [Environment.get?_eq_findSome?, Environment.get?_eq_findSome?]
  have hScopes := h.scopes
  generalize m.env.stack = ss at hScopes
  generalize n.env.stack = ts at hScopes
  induction hScopes with
  | nil => exact ⟨rfl, fun v hv => by cases hv⟩
  | @cons s t ss ts hFirst _ ih =>
      rw [List.findSome?_cons, List.findSome?_cons,
        hFirst.2 name hName]
      cases hValue : s.get? name with
      | none => exact ih
      | some v =>
          refine ⟨rfl, ?_⟩
          intro w hw
          rcases Option.some.inj hw with rfl
          exact hFirst.1 name hName v hValue

/- The same change of the scopes of both machines. -/
theorem mapEnv
    {env env' : Environment}
    (h : Alike M m n)
    (hScopes :
      List.Forall₂ (fun s t => s.Closed M ∧ s.AgreeOn M t)
        env.stack env'.stack) :
    Alike M { m with env := env } { n with env := env' } := by
  refine ⟨hScopes, ?_⟩
  rw [h.others]

theorem push
    {s : Scope}
    (h : Alike M m n)
    (hScope : s.Closed M) :
    Alike M (m.push s) (n.push s) :=
  h.mapEnv (.cons ⟨hScope, .refl s⟩ h.scopes)

theorem define
    {value : Value}
    (name : String)
    (h : Alike M m n)
    (hValue : value.Closed M) :
    Alike M { m with env := m.env.define name value }
      { n with env := n.env.define name value } := by
  apply h.mapEnv
  apply Environment.forall₂_define
  · rintro s t ⟨hClosed, hAgree⟩
    exact ⟨hClosed.insert name hValue, hAgree.insert name value⟩
  · exact h.scopes

theorem assign
    {name : String}
    {value : Value}
    (h : Alike M m n)
    (hName : name ∈ M)
    (hValue : value.Closed M) :
    Alike M { m with env := m.env.assign name value }
      { n with env := n.env.assign name value } := by
  apply h.mapEnv
  apply Environment.forall₂_assign
  · rintro s t ⟨_, hAgree⟩
    exact hAgree.contains_eq hName
  · rintro s t ⟨hClosed, hAgree⟩
    exact ⟨hClosed.insert name hValue, hAgree.insert name value⟩
  · exact h.scopes

end Alike

/-
  Two runs end alike: with the same answer, of which `good`
  holds, or with the same error, on machines that are alike.
-/
inductive EndsAlike
    {α : Type}
    (M : Set String)
    (good : α → Prop) : End α → End α → Prop where
  | ok {a : α} {m n : Machine}
      (hGood : good a) (hAlike : Alike M m n) :
      EndsAlike M good (.ok a m) (.ok a n)
  | error (x : RuntimeError) {m n : Machine}
      (hAlike : Alike M m n) :
      EndsAlike M good (.error x m) (.error x n)

namespace EndsAlike

variable {α : Type}
variable {good : α → Prop}
variable {r r' : End α}

theorem state
    (h : EndsAlike M good r r') :
    Alike M r.state r'.state := by
  cases h with
  | ok hGood hAlike => exact hAlike
  | error x hAlike => exact hAlike

theorem popScope
    (h : EndsAlike M good r r') :
    EndsAlike M good r.popScope r'.popScope := by
  cases h with
  | ok hGood hAlike =>
      exact .ok hGood
        (hAlike.mapEnv (Environment.forall₂_pop hAlike.scopes))
  | error x hAlike =>
      exact .error x
        (hAlike.mapEnv (Environment.forall₂_pop hAlike.scopes))

theorem leaveCall
    (h : EndsAlike M good r r') :
    EndsAlike M good r.leaveCall r'.leaveCall := by
  cases h with
  | ok hGood hAlike =>
      refine .ok hGood ⟨hAlike.scopes, ?_⟩
      rw [hAlike.others]
  | error x hAlike =>
      refine .error x ⟨hAlike.scopes, ?_⟩
      rw [hAlike.others]

end EndsAlike

------------------------------------------------------------
-- Steps that are unaware of other names
------------------------------------------------------------

/-
  A step that does the same on machines that are alike, gives
  an answer of which `good` holds, and leaves every binding of
  a name outside of `M`.
-/
structure Unaware
    {α : Type}
    (M : Set String)
    (good : α → Prop)
    (x : Eval α) : Prop where
  same : ∀ m n, Alike M m n → EndsAlike M good (x m) (x n)
  keeps : ∀ m, Alike M m m →
    m.env.AgreeOn Mᶜ (End.state (x m)).env

section Steps

variable {α β : Type}
variable {good : α → Prop}
variable {good' : β → Prop}

theorem unaware_pure
    {a : α}
    (h : good a) :
    Unaware M good (pure a) where
  same := fun _ _ hAlike => .ok h hAlike
  keeps := fun _ _ => .refl _

theorem unaware_throw
    (x : RuntimeError) :
    Unaware M good (throw x) where
  same := fun _ _ hAlike => .error x hAlike
  keeps := fun _ _ => .refl _

/- What comes second may rely on what holds of the first answer. -/
theorem Unaware.bind
    {x : Eval α}
    {next : α → Eval β}
    (hFirst : Unaware M good x)
    (hNext : ∀ a, good a → Unaware M good' (next a)) :
    Unaware M good' (x >>= next) where
  same := by
    intro m n hAlike
    have hSame := hFirst.same m n hAlike
    rw [Eval.bind_apply, Eval.bind_apply]
    generalize x m = r at hSame
    generalize x n = r' at hSame
    cases hSame with
    | ok hGood hAlike' => exact (hNext _ hGood).same _ _ hAlike'
    | error e hAlike' => exact .error e hAlike'
  keeps := by
    intro m hAlike
    have hSame := hFirst.same m m hAlike
    have hKeeps := hFirst.keeps m hAlike
    rw [Eval.bind_apply]
    generalize x m = r at hSame hKeeps
    cases r with
    | ok a m' =>
        cases hSame with
        | ok hGood hAlike' =>
            exact hKeeps.trans ((hNext a hGood).keeps m' hAlike')
    | error e m' => exact hKeeps

theorem unaware_ofExcept
    {r : Except RuntimeError α}
    (h : ∀ a, r = .ok a → good a) :
    Unaware M good (Eval.ofExcept r) := by
  cases r with
  | ok a => exact unaware_pure (h a rfl)
  | error x => exact unaware_throw x

theorem unaware_lookup
    {name : String}
    (h : name ∈ M) :
    Unaware M (Value.Closed M) (Eval.lookup name) where
  same := by
    intro m n hAlike
    rcases hAlike.get?_eq h with ⟨hEq, hClosed⟩
    unfold Eval.lookup
    rw [hEq]
    cases hValue : m.env.get? name with
    | none => exact .error _ hAlike
    | some v => exact .ok (hClosed v hValue) hAlike
  keeps := by
    intro m _
    unfold Eval.lookup
    cases m.env.get? name with
    | none => exact .refl _
    | some v => exact .refl _

theorem unaware_newFunction
    {f : Function}
    (h : ∀ x ∈ f.names, x ∈ M) :
    Unaware M (Value.Closed M) (Eval.newFunction f) where
  same := by
    intro m n hAlike
    rw [hAlike.others]
    exact .ok h ⟨hAlike.scopes, rfl⟩
  keeps := fun _ _ => .refl _

theorem unaware_define
    {name : String}
    {value : Value}
    (hName : name ∈ M)
    (hValue : value.Closed M) :
    Unaware M (fun _ => True) (Eval.define name value) where
  same := fun _ _ hAlike => .ok trivial (hAlike.define name hValue)
  keeps := fun m _ =>
    Environment.forall₂_self_define Scope.AgreeOn.refl
      (Scope.agreeOn_compl_insert value hName) m.env

theorem unaware_assign
    {name : String}
    {value : Value}
    (hName : name ∈ M)
    (hValue : value.Closed M) :
    Unaware M (fun _ => True) (Eval.assign name value) where
  same := fun _ _ hAlike => .ok trivial (hAlike.assign hName hValue)
  keeps := fun m _ =>
    Environment.forall₂_self_assign Scope.AgreeOn.refl
      (Scope.agreeOn_compl_insert value hName) m.env

theorem unaware_print
    (text : String) :
    Unaware M (fun _ => True) (Eval.print text) where
  same := by
    intro m n hAlike
    unfold Eval.print
    rw [hAlike.sink_eq]
    rcases m.sink.write text with ⟨written, sink⟩
    have hAlike' : Alike M { m with sink } { n with sink } := by
      refine ⟨hAlike.scopes, ?_⟩
      rw [hAlike.others]
    cases written with
    | true => exact .ok trivial hAlike'
    | false => exact .error _ hAlike'
  keeps := by
    intro m _
    unfold Eval.print
    rcases m.sink.write text with ⟨written, sink⟩
    cases written with
    | true => exact .refl _
    | false => exact .refl _

/- The scope around a step is the same for both machines. -/
theorem unaware_inScope
    {s : Scope}
    {body : Eval α}
    (hScope : s.Closed M)
    (hBody : Unaware M good body) :
    Unaware M good (Eval.inScope s body) where
  same := by
    intro m n hAlike
    rw [Eval.inScope_apply, Eval.inScope_apply]
    exact (hBody.same _ _ (hAlike.push hScope)).popScope
  keeps := by
    intro m hAlike
    have hKeeps := Environment.forall₂_pop
      (hBody.keeps (m.push s) (hAlike.push hScope))
    rw [Eval.inScope_apply]
    cases hx : body (m.push s) with
    | ok a m' =>
        rw [hx] at hKeeps
        exact hKeeps
    | error e m' =>
        rw [hx] at hKeeps
        exact hKeeps

theorem unaware_deeper
    {body : Eval α}
    (hBody : Unaware M good body) :
    Unaware M good (Eval.deeper body) where
  same := by
    intro m n hAlike
    have hInside : Alike M { m with depth := m.depth + 1 }
        { n with depth := n.depth + 1 } := by
      refine ⟨hAlike.scopes, ?_⟩
      rw [hAlike.others]
    rw [Eval.deeper_apply, Eval.deeper_apply]
    exact (hBody.same _ _ hInside).leaveCall
  keeps := by
    intro m hAlike
    have hKeeps := hBody.keeps { m with depth := m.depth + 1 }
      ⟨hAlike.scopes, rfl⟩
    rw [Eval.deeper_apply]
    cases hx : body { m with depth := m.depth + 1 } with
    | ok a m' =>
        rw [hx] at hKeeps
        exact hKeeps
    | error e m' =>
        rw [hx] at hKeeps
        exact hKeeps

end Steps

------------------------------------------------------------
-- Expressions
------------------------------------------------------------

theorem unaware_printAll
    (texts : List String) :
    Unaware M (fun _ => True) (Eval.printAll texts) := by
  induction texts with
  | nil => exact unaware_pure trivial
  | cons text texts ih =>
      exact (unaware_print text).bind fun _ _ => ih

theorem unaware_builtin
    (b : Builtin)
    (args : List Value) :
    Unaware M (Value.Closed M) (b.call args) :=
  (unaware_printAll _).bind fun _ _ => unaware_pure trivial

section Handler

variable {call : CallHandler}

/- Calls of functions that mention names of `M` only. -/
def UnawareCalls
    (M : Set String)
    (call : CallHandler) : Prop :=
  ∀ f args, (∀ x ∈ f.names, x ∈ M) → (∀ v ∈ args, v.Closed M) →
    Unaware M (Value.Closed M) (call f args)

mutual

theorem unaware_evalExpr
    (hCall : UnawareCalls M call)
    (e : Expr)
    (hNames : ∀ x ∈ e.names, x ∈ M) :
    Unaware M (Value.Closed M) (evalExpr call e) := by
  cases e with
  | int i => exact unaware_pure trivial
  | float x => exact unaware_pure trivial
  | str s => exact unaware_pure trivial
  | bool b => exact unaware_pure trivial
  | nil => exact unaware_pure trivial
  | var name => exact unaware_lookup (hNames name (.head _))
  | unary op e =>
      refine (unaware_evalExpr hCall e hNames).bind fun v _ => ?_
      exact unaware_ofExcept fun w hw =>
        Value.closed_of_data (kind_of_evalUnary hw)
  | binary op l r =>
      rw [Expr.names, List.forall_mem_append] at hNames
      rw [evalExpr]
      refine (unaware_evalExpr hCall l hNames.1).bind fun a _ => ?_
      cases hShort : shortCircuit? op a with
      | some v =>
          exact unaware_pure
            (Value.closed_of_data
              (.inr (.inr (kind_of_shortCircuit? hShort))))
      | none =>
          refine (unaware_evalExpr hCall r hNames.2).bind fun b _ => ?_
          exact unaware_ofExcept fun w hw =>
            Value.closed_of_data (kind_of_evalBinary hw)
  | call name args =>
      rw [Expr.names, List.forall_mem_cons] at hNames
      have hArgs := unaware_evalArgs hCall args hNames.2
      rw [evalExpr]
      cases Builtin.ofName? name with
      | some b => exact hArgs.bind fun vs _ => unaware_builtin b vs
      | none =>
          refine (unaware_lookup hNames.1).bind fun v hv => ?_
          cases v with
          | function _ f =>
              exact hArgs.bind fun vs hvs => hCall f vs hv hvs
          | _ => exact unaware_throw _

theorem unaware_evalArgs
    (hCall : UnawareCalls M call)
    (es : List Expr)
    (hNames : ∀ x ∈ Expr.namesArgs es, x ∈ M) :
    Unaware M (fun vs => ∀ v ∈ vs, v.Closed M)
      (evalArgs call es) := by
  cases es with
  | nil => exact unaware_pure (fun v hv => by cases hv)
  | cons e es =>
      rw [Expr.namesArgs, List.forall_mem_append] at hNames
      refine (unaware_evalExpr hCall e hNames.1).bind fun v hv => ?_
      refine (unaware_evalArgs hCall es hNames.2).bind fun vs hvs => ?_
      exact unaware_pure (List.forall_mem_cons.mpr ⟨hv, hvs⟩)

end

------------------------------------------------------------
-- Statements
------------------------------------------------------------

/- The value of a flow mentions names of `M` only. -/
def Flow.Closed
    (M : Set String)
    (flow : Flow) : Prop :=
  flow.value.Closed M

/- What a conditional does behind its test. -/
theorem unaware_branchOn
    {yes : Block}
    {no : Option Block}
    (hYes : Unaware M (Flow.Closed M) (execFrom call .nil yes))
    (hNo : ∀ b ∈ no,
      Unaware M (Flow.Closed M) (execFrom call .nil b))
    (v : Value) :
    Unaware M (Flow.Closed M) (branchOn call yes no v) := by
  cases v with
  | bool b =>
      cases b with
      | true => exact unaware_inScope Scope.closed_empty hYes
      | false =>
          cases no with
          | none => exact unaware_pure trivial
          | some no =>
              exact unaware_inScope Scope.closed_empty (hNo no rfl)
  | _ => exact unaware_throw _

theorem unaware_branch
    {test : Expr}
    {yes : Block}
    {no : Option Block}
    (hTest : Unaware M (Value.Closed M) (evalExpr call test))
    (hYes : Unaware M (Flow.Closed M) (execFrom call .nil yes))
    (hNo : ∀ b ∈ no,
      Unaware M (Flow.Closed M) (execFrom call .nil b)) :
    Unaware M (Flow.Closed M)
      (execStmt call (.branch test yes no)) := by
  have hStep : execStmt call (.branch test yes no) =
      evalExpr call test >>= branchOn call yes no := by
    funext m
    rw [execStmt_branch, Eval.bind_apply]
  rw [hStep]
  exact hTest.bind fun v _ => unaware_branchOn hYes hNo v

mutual

theorem unaware_execStmt
    (hCall : UnawareCalls M call)
    (s : Stmt)
    (hNames : ∀ x ∈ s.names, x ∈ M) :
    Unaware M (Flow.Closed M) (execStmt call s) := by
  match s with
  | .assign name e =>
      rw [Stmt.names, List.forall_mem_cons] at hNames
      refine (unaware_evalExpr hCall e hNames.2).bind fun v hv => ?_
      refine (unaware_assign hNames.1 hv).bind fun _ _ => ?_
      exact unaware_pure trivial
  | .branch test yes none =>
      rw [Stmt.names, List.forall_mem_append] at hNames
      apply unaware_branch (unaware_evalExpr hCall test hNames.1)
      · exact unaware_execFrom hCall .nil trivial yes hNames.2
      · intro b hb
        cases hb
  | .branch test yes (some no) =>
      rw [Stmt.names, List.forall_mem_append,
        List.forall_mem_append] at hNames
      apply unaware_branch (unaware_evalExpr hCall test hNames.1)
      · exact unaware_execFrom hCall .nil trivial yes hNames.2.1
      · intro b hb
        rcases Option.some.inj hb with hEq
        rw [← hEq]
        exact unaware_execFrom hCall .nil trivial no hNames.2.2
  | .function name params body =>
      -- A new function has the names of its definition.
      refine (unaware_newFunction (f := ⟨name, params, body⟩)
        hNames).bind fun v hv => ?_
      refine (unaware_define (hNames name (.head _)) hv).bind
        fun _ _ => ?_
      exact unaware_pure trivial
  | .ret none => exact unaware_pure trivial
  | .ret (some e) =>
      refine (unaware_evalExpr hCall e hNames).bind fun v hv => ?_
      exact unaware_pure hv
  | .expr e =>
      refine (unaware_evalExpr hCall e hNames).bind fun v hv => ?_
      exact unaware_pure hv

theorem unaware_execFrom
    (hCall : UnawareCalls M call)
    (last : Value)
    (hLast : last.Closed M)
    (ss : List Stmt)
    (hNames : ∀ x ∈ Stmt.namesSeq ss, x ∈ M) :
    Unaware M (Flow.Closed M) (execFrom call last ss) := by
  match ss with
  | [] => exact unaware_pure hLast
  | s :: ss =>
      rw [Stmt.namesSeq, List.forall_mem_append] at hNames
      rw [execFrom]
      refine (unaware_execStmt hCall s hNames.1).bind
        fun flow hFlow => ?_
      cases flow with
      | next v => exact unaware_execFrom hCall v hFlow ss hNames.2
      | ret v => exact unaware_pure hFlow

end

------------------------------------------------------------
-- Calls
------------------------------------------------------------

/- The body of a function runs on a scope with its arguments. -/
theorem unaware_runBody
    (hCall : UnawareCalls M call) :
    UnawareCalls M (runBody call) := by
  intro f args hNames hArgs
  have hFrame : (Scope.ofPairs (f.params.zip args)).Closed M := by
    apply Scope.closed_ofPairs
    rintro ⟨x, v⟩ hPair
    exact hArgs v (List.of_mem_zip hPair).2
  have hBody : ∀ x ∈ Stmt.namesSeq f.body, x ∈ M := by
    intro x hx
    exact hNames x (.tail _ (List.mem_append_right f.params hx))
  have hFlow := unaware_deeper (unaware_inScope hFrame
    (unaware_execFrom hCall .nil trivial f.body hBody))
  rw [runBody]
  refine hFlow.bind fun flow hClosed => ?_
  cases flow with
  | next v => exact unaware_pure trivial
  | ret v => exact unaware_pure hClosed

end Handler

/- A step that is an unaware one in all alike states. -/
theorem unaware_choose
    {α : Type}
    {good : α → Prop}
    {y : Eval α}
    (h : ∀ m n, Alike M m n →
      ∃ x, Unaware M good x ∧ y m = x m ∧ y n = x n) :
    Unaware M good y where
  same := by
    intro m n hAlike
    rcases h m n hAlike with ⟨x, hUnaware, hm, hn⟩
    rw [hm, hn]
    exact hUnaware.same m n hAlike
  keeps := by
    intro m hAlike
    rcases h m m hAlike with ⟨x, hUnaware, hm, _⟩
    rw [hm]
    exact hUnaware.keeps m hAlike

/- Calls, by how many may still be inside one another. -/
theorem unaware_callFunction
    (room : Nat) :
    UnawareCalls M (callFunction room) := by
  induction room with
  | zero =>
      intro f args _ _
      apply unaware_choose
      intro m n hAlike
      by_cases hArity : f.params.length = args.length
      · refine ⟨_, unaware_throw _, callFunction_zero hArity m, ?_⟩
        rw [hAlike.others]
        exact callFunction_zero hArity _
      · exact ⟨_, unaware_throw _, callFunction_arity 0 hArity m,
          callFunction_arity 0 hArity n⟩
  | succ room ih =>
      intro f args hNames hArgs
      apply unaware_choose
      intro m n hAlike
      by_cases hArity : f.params.length = args.length
      · by_cases hDeep : m.maxDepth ≤ m.depth
        · refine ⟨_, unaware_throw _,
            callFunction_overflow _ hArity hDeep, ?_⟩
          rw [hAlike.others]
          exact callFunction_overflow _ hArity hDeep
        · have hOpen := Nat.lt_of_not_le hDeep
          refine ⟨_, unaware_runBody ih f args hNames hArgs,
            callFunction_succ room hArity hOpen, ?_⟩
          rw [hAlike.others]
          exact callFunction_succ room hArity hOpen
      · exact ⟨_, unaware_throw _, callFunction_arity _ hArity m,
          callFunction_arity _ hArity n⟩

/- Whole programs. -/
theorem unaware_runBlock
    {b : Block}
    (hNames : ∀ x ∈ Stmt.namesSeq b, x ∈ M) :
    Unaware M (Value.Closed M) (runBlock b) := by
  apply unaware_choose
  intro m n hAlike
  have hBlock := unaware_execFrom
    (unaware_callFunction (m.maxDepth - m.depth)) .nil trivial b hNames
  refine ⟨_, hBlock.bind fun flow hFlow =>
    unaware_pure (a := flow.value) hFlow, rfl, ?_⟩
  rw [hAlike.others]
  rfl

------------------------------------------------------------
-- Runs
------------------------------------------------------------

/-
  Let `M` hold all names of a program and all names of the
  functions that names of `M` are bound to. Then the program
  does the same on two machines that differ in other names
  only, and leaves these names as they are.
-/
theorem unmentioned_names
    (M : Set String)
    {m n : Machine}
    {b : Block}
    (hProgram : ∀ x ∈ Stmt.namesSeq b, x ∈ M)
    (hFunctions : m.env.Closed M)
    (hAgree : m.env.AgreeOn M n.env)
    (hOthers : n = { m with env := n.env }) :
    (n.run b).1 = (m.run b).1 ∧
      (n.run b).2.sink = (m.run b).2.sink ∧
      (m.run b).2.env.AgreeOn M (n.run b).2.env ∧
      m.env.AgreeOn Mᶜ (m.run b).2.env ∧
      n.env.AgreeOn Mᶜ (n.run b).2.env := by
  have hAlike := alike_of_agreeOn hFunctions hAgree hOthers
  have hRun := unaware_runBlock hProgram
  have hSame := hRun.same m n hAlike
  have hKeeps := hRun.keeps m hAlike.left
  have hKeeps' := hRun.keeps n hAlike.right
  unfold Machine.run Machine.step
  generalize runBlock b m = r at hSame hKeeps
  generalize runBlock b n = r' at hSame hKeeps'
  cases hSame with
  | ok _ hEnd =>
      exact ⟨rfl, hEnd.sink_eq, hEnd.agreeOn, hKeeps, hKeeps'⟩
  | error _ hEnd =>
      exact ⟨rfl, hEnd.sink_eq, hEnd.agreeOn, hKeeps, hKeeps'⟩

/- A function that binds a name of its caller anew. -/
def remember : Function :=
  ⟨"remember", ["v"],
    [.assign "kept" (.var "v"), .ret (some (.var "kept"))]⟩

/- A machine with this function and one name that it does not mention. -/
def rememberStart
    (other : Value) : Machine :=
  .fresh
    ⟨[("remember", .function 0 remember), ("kept", .nil),
      ("other", other)], by simp⟩
    10 none 1

/- A program that calls the function. -/
def rememberProgram : Block :=
  [.expr (.call "echo" [.call "remember" [.int 3]])]

/- The names of both. -/
def rememberNames : Set String :=
  {x | x ∈ ["echo", "remember", "kept", "v"]}

/- What `other` is bound to makes no difference. -/
theorem remember_unaware_of_other :
    let m := rememberStart (.int 1)
    let n := rememberStart (.function 0 remember)
    let b := rememberProgram
    m.env.Closed rememberNames ∧
      (n.run b).1 = (m.run b).1 ∧
      (n.run b).2.sink = (m.run b).2.sink ∧
      (m.run b).2.env.AgreeOn rememberNames (n.run b).2.env ∧
      m.env.AgreeOn rememberNamesᶜ (m.run b).2.env ∧
      n.env.AgreeOn rememberNamesᶜ (n.run b).2.env := by
  intro m n b
  have hProgram : ∀ x ∈ Stmt.namesSeq b, x ∈ rememberNames := by
    change ∀ x ∈ Stmt.namesSeq b, x ∈ ["echo", "remember", "kept", "v"]
    decide
  have hFunctions : m.env.Closed rememberNames := by
    intro s hs name hName v hv
    rcases List.mem_singleton.mp hs with rfl
    change name ∈ ["echo", "remember", "kept", "v"] at hName
    have hNames : ∀ x ∈ remember.names, x ∈ rememberNames := by
      change ∀ x ∈ remember.names, x ∈ ["echo", "remember", "kept", "v"]
      decide
    simp only [List.mem_cons, List.not_mem_nil, or_false] at hName
    rcases hName with rfl | rfl | rfl | rfl
    · cases hv
    · rcases Option.some.inj hv with rfl
      exact hNames
    · rcases Option.some.inj hv with rfl
      trivial
    · cases hv
  have hAgree : m.env.AgreeOn rememberNames n.env := by
    refine .cons ?_ .nil
    intro name hName
    change name ∈ ["echo", "remember", "kept", "v"] at hName
    simp only [List.mem_cons, List.not_mem_nil, or_false] at hName
    rcases hName with rfl | rfl | rfl | rfl <;> rfl
  exact ⟨hFunctions,
    unmentioned_names rememberNames hProgram hFunctions hAgree rfl⟩

end DynScript
