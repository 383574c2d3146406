import DynScript.Proofs.Parse.Yield
import DynScript.Proofs.Token.Lossless

/-
  What stands before the block of a definition. It is a call of
  the function with its parameters, and around the call and
  around each parameter there may be parentheses, which leave
  no trace in the tree. Without them it is the name and, in
  parentheses, the parameters with commas between them.

  Key definitions include:
    * `grouped`
    * `plainHead`
    * `groupedHead`
    * `Headed`

  Main statements include:
    * `Derives.eq_grouped_of_var`
    * `derives_heading_iff`
    * `groupedHead_eq_plainHead`
    * `Forms.headed`
    * `parse_headed`
-/

namespace DynScript

------------------------------------------------------------
-- Heads of definitions
------------------------------------------------------------

/- Tokens inside of so many pairs of parentheses. -/
def grouped
    (w : List TokenKind) : Nat → List TokenKind
  | 0 => w
  | n + 1 => .symbol .parenL :: (grouped w n ++ [.symbol .parenR])

/- A name and, in parentheses, parts with commas between them. -/
def headOf
    (name : String)
    (parts : List (List TokenKind)) : List TokenKind :=
  .ident name :: .symbol .parenL ::
    ([.symbol .comma].intercalate parts ++ [.symbol .parenR])

/- A name and, in parentheses, the names of the parameters. -/
def plainHead
    (name : String)
    (params : List String) : List TokenKind :=
  headOf name (params.map fun x => [.ident x])

/-
  The same inside of pairs of parentheses, with each of the
  parameters inside of pairs of its own.
-/
def groupedHead
    (outer : Nat)
    (name : String)
    (params : List (String × Nat)) : List TokenKind :=
  grouped (headOf name (params.map fun x => grouped [.ident x.1] x.2))
    outer

/- How many parentheses are opened by tokens in parentheses. -/
theorem count_grouped
    (w : List TokenKind)
    (n : Nat) :
    (grouped w n).count (.symbol .parenL) =
      n + w.count (.symbol .parenL) := by
  induction n with
  | zero => simp [grouped]
  | succ n ih =>
      simp only [grouped, List.count_cons_self, List.count_append, ih]
      simp
      omega

/- What is put between parts with commas stands in one of them. -/
theorem count_commas
    (parts : List (List TokenKind)) :
    ([.symbol .comma].intercalate parts).count (.symbol .parenL) =
      (parts.map (·.count (.symbol .parenL))).sum := by
  induction parts with
  | nil => rfl
  | cons w parts ih =>
      cases parts with
      | nil => simp
      | cons v parts =>
          rw [List.intercalate_cons_cons, List.count_append,
            List.count_append, ih]
          simp

/- How many parentheses are opened in a head. -/
theorem count_groupedHead
    (outer : Nat)
    (name : String)
    (params : List (String × Nat)) :
    (groupedHead outer name params).count (.symbol .parenL) =
      outer + 1 + (params.map Prod.snd).sum := by
  have hPart : ∀ x : String × Nat,
      (grouped [.ident x.1] x.2).count (.symbol .parenL) = x.2 := by
    intro x
    rw [count_grouped]
    simp
  rw [groupedHead, count_grouped, headOf, List.count_cons_of_ne (by simp),
    List.count_cons_self, List.count_append, count_commas, List.map_map]
  have hSums : (params.map fun x => x.2) = params.map Prod.snd := rfl
  simp only [Function.comp_def, hPart, hSums]
  simp
  omega

/- A head without other parentheses is the plain one. -/
theorem groupedHead_eq_plainHead
    {outer : Nat}
    {name : String}
    {params : List (String × Nat)} :
    groupedHead outer name params = plainHead name (params.map Prod.fst) ↔
      (groupedHead outer name params).count (.symbol .parenL) = 1 := by
  have hPlain : groupedHead 0 name (params.map fun x => (x.1, 0)) =
      plainHead name (params.map Prod.fst) := by
    rw [groupedHead, plainHead, List.map_map, List.map_map]
    rfl
  constructor
  · intro h
    rw [h, ← hPlain, count_groupedHead, List.map_map]
    simp [Function.comp_def]
  · intro h
    rw [count_groupedHead] at h
    have hOuter : outer = 0 := by omega
    have hSum : (params.map Prod.snd).sum = 0 := by omega
    have hSame : (params.map fun x => (x.1, 0)) = params := by
      conv_rhs => rw [← List.map_id params]
      apply List.map_congr_left
      rintro ⟨x, n⟩ hMem
      have hZero := List.sum_eq_zero_iff.mp hSum n
        (List.mem_map_of_mem (f := Prod.snd) hMem)
      rw [id, hZero]
    rw [← hPlain, hSame, hOuter]

------------------------------------------------------------
-- What derives a head
------------------------------------------------------------

/- A variable is derived by its name in parentheses. -/
theorem Derives.eq_grouped_of_var
    {layer : Layer}
    {w : List TokenKind}
    {x : String}
    (h : Derives layer w (.var x)) :
    ∃ n, w = grouped [.ident x] n := by
  generalize hVar : Expr.var x = e at h
  induction h with
  | descend _ _ ih => exact ih hVar
  | group _ ih =>
      rcases ih hVar with ⟨n, rfl⟩
      exact ⟨n + 1, rfl⟩
  | var name =>
      cases hVar
      exact ⟨0, rfl⟩
  | _ => cases hVar

/- A call is derived by its name and its arguments, in parentheses. -/
theorem Derives.eq_grouped_of_call
    {layer : Layer}
    {w : List TokenKind}
    {name : String}
    {args : List Expr}
    (h : Derives layer w (.call name args)) :
    ∃ n, ∃ parts : List (List TokenKind × Expr),
      w = grouped (headOf name (parts.map Prod.fst)) n ∧
        args = parts.map Prod.snd ∧
        ∀ part ∈ parts, Derives .or part.1 part.2 := by
  generalize hCall : Expr.call name args = e at h
  induction h with
  | descend _ _ ih => exact ih hCall
  | group _ ih =>
      rcases ih hCall with ⟨n, parts, rfl, hArgs, hParts⟩
      exact ⟨n + 1, parts, rfl, hArgs, hParts⟩
  | call name' parts hParts =>
      cases hCall
      exact ⟨0, parts, rfl, rfl, hParts⟩
  | _ => cases hCall

/- Parentheses around tokens derive what the tokens derive. -/
theorem derives_grouped
    {w : List TokenKind}
    {e : Expr}
    (h : Derives .primary w e)
    (n : Nat) :
    Derives .or (grouped w n) e := by
  have hLower : ∀ {w}, Derives .primary w e → Derives .or w e := by
    intro w hPrimary
    exact Derives.lower (i := 0) (j := 6) (Nat.zero_le 6)
      (.descend rfl hPrimary)
  induction n with
  | zero => exact hLower h
  | succ n ih => exact hLower (.group ih)

/-
  Which tokens stand for the heading of a definition: the plain
  head with parentheses around it and around its parameters.
-/
theorem derives_heading_iff
    {w : List TokenKind}
    {name : String}
    {params : List String} :
    Derives .or w (heading name params) ↔
      ∃ outer, ∃ inner : List (String × Nat),
        inner.map Prod.fst = params ∧
          w = groupedHead outer name inner := by
  constructor
  · intro h
    rcases h.eq_grouped_of_call with ⟨outer, parts, rfl, hArgs, hParts⟩
    refine ⟨outer, ?_⟩
    -- Each part derives the parameter in its place.
    have hInner : ∃ inner : List (String × Nat),
        inner.map Prod.fst = params ∧
          parts.map Prod.fst =
            inner.map fun x => grouped [.ident x.1] x.2 := by
      clear h
      induction parts generalizing params with
      | nil =>
          rcases List.map_eq_nil_iff.mp hArgs with rfl
          exact ⟨[], rfl, rfl⟩
      | cons part parts ih =>
          rcases List.map_eq_cons_iff.mp hArgs with
            ⟨x, others, rfl, hVar, hOthers⟩
          rcases ih hOthers fun p hp => hParts p (by simp [hp]) with
            ⟨inner, rfl, hRest⟩
          have hFirst := hParts part (by simp)
          rw [← hVar] at hFirst
          rcases hFirst.eq_grouped_of_var with ⟨n, hTokens⟩
          refine ⟨(x, n) :: inner, rfl, ?_⟩
          rw [List.map_cons, List.map_cons, hTokens, hRest]
    rcases hInner with ⟨inner, rfl, hTokens⟩
    exact ⟨inner, rfl, by rw [groupedHead, hTokens]⟩
  · rintro ⟨outer, inner, rfl, rfl⟩
    apply derives_grouped
    have hCall := Derives.call name
      (inner.map fun x => (grouped [.ident x.1] x.2, Expr.var x.1))
      (by
        intro arg hArg
        rcases List.mem_map.mp hArg with ⟨x, _, rfl⟩
        exact derives_grouped (.var x.1) x.2)
    simp only [List.map_map] at hCall
    rw [heading, List.map_map]
    exact hCall

------------------------------------------------------------
-- Programs with their definitions
------------------------------------------------------------

/- A statement without blocks in it. -/
def Stmt.isSimple : Stmt → Bool
  | .assign _ _ => true
  | .ret _ => true
  | .expr _ => true
  | .branch _ _ _ => false
  | .function _ _ _ => false

/-
  Tokens that form a piece of a program in which every
  definition is read from a head, as `head` describes it, and
  the block behind it, with nothing between them.
-/
inductive Headed
    (head : List TokenKind → String → List String → Prop) :
    List TokenKind → Piece → Prop where
  | simple
      {w : List TokenKind}
      {s : Stmt}
      (hSimple : s.isSimple)
      (hForms : Forms none w (.stmt s)) :
      Headed head w (.stmt s)
  | function
      {u v : List TokenKind}
      {name : String}
      {params : List String}
      {body : Block}
      (hHead : head u name params)
      (hBody : Headed head v (.block body)) :
      Headed head (u ++ v) (.stmt (.function name params body))
  | branch
      {w : List TokenKind}
      {s : Stmt}
      (hBranch : Headed head w (.conditional s)) :
      Headed head (.symbol .kwIf :: w) (.stmt s)
  | ifOnly
      {u v : List TokenKind}
      {test : Expr}
      {yes : Block}
      (hTest : Derives .or u test)
      (hYes : Headed head v (.block yes)) :
      Headed head (u ++ v) (.conditional (.branch test yes none))
  | ifElse
      {u v w : List TokenKind}
      {test : Expr}
      {yes no : Block}
      (hTest : Derives .or u test)
      (hYes : Headed head v (.block yes))
      (hNo : Headed head w (.block no)) :
      Headed head (u ++ v ++ .symbol .kwElse :: w)
        (.conditional (.branch test yes (some no)))
  | elseIf
      {u v w : List TokenKind}
      {test : Expr}
      {yes : Block}
      {s : Stmt}
      (hTest : Derives .or u test)
      (hYes : Headed head v (.block yes))
      (hChain : Headed head w (.conditional s)) :
      Headed head (u ++ v ++ .symbol .kwElse :: .symbol .kwIf :: w)
        (.conditional (.branch test yes (some [s])))
  | block
      {w : List TokenKind}
      {b : Block}
      (hBody : Headed head w (.seq b)) :
      Headed head (.symbol .braceL :: (w ++ [.symbol .braceR])) (.block b)
  | nil :
      Headed head [] (.seq [])
  | semicolon
      {w : List TokenKind}
      {b : Block}
      (hOthers : Headed head w (.seq b)) :
      Headed head (.symbol .semicolon :: w) (.seq b)
  | cons
      {u v : List TokenKind}
      {s : Stmt}
      {b : Block}
      (hFirst : Headed head u (.stmt s))
      (hOthers : Headed head v (.seq b)) :
      Headed head (u ++ v) (.seq (s :: b))

/-
  What is formed has heads that derive the headings of its
  definitions.
-/
theorem Forms.headed
    {limit : Option Nat}
    {head : List TokenKind → String → List String → Prop}
    {w : List TokenKind}
    {p : Piece}
    (h : Forms limit w p)
    (hHead : ∀ u name params,
      Derives .or u (heading name params) → head u name params) :
    Headed head w p := by
  have hNone : ∀ e : Expr, e.Within none := by
    intro e n hn
    cases hn
  induction h with
  | assign name hValue _ =>
      exact .simple rfl (.assign name hValue (hNone _))
  | branch _ ih => exact .branch ih
  | retNone => exact .simple rfl .retNone
  | retSome hValue _ => exact .simple rfl (.retSome hValue (hNone _))
  | expr hExpr _ => exact .simple rfl (.expr hExpr (hNone _))
  | function hHeading _ ih => exact .function (hHead _ _ _ hHeading) ih
  | ifOnly hTest _ _ ih => exact .ifOnly hTest ih
  | ifElse hTest _ _ _ ihYes ihNo => exact .ifElse hTest ihYes ihNo
  | elseIf hTest _ _ _ ihYes ihChain => exact .elseIf hTest ihYes ihChain
  | block _ ih => exact .block ih
  | nil => exact .nil
  | semicolon _ ih => exact .semicolon ih
  | cons _ _ ihFirst ihOthers => exact .cons ihFirst ihOthers

/-
  Every definition of a program was read from a head, the plain
  one with parentheses around it and around its parameters, and
  its block. It is the plain head itself exactly when only the
  parentheses of the parameters are opened in it.
-/
theorem parse_headed
    {source : String}
    {b : Block}
    (h : parse source = .ok b) :
    ∃ toks pos, tokenize source = .ok (toks, pos) ∧
      Headed (fun w name params =>
          (∃ outer, ∃ inner : List (String × Nat),
            inner.map Prod.fst = params ∧
              w = groupedHead outer name inner) ∧
          (w = plainHead name params ↔ w.count (.symbol .parenL) = 1))
        (kinds toks) (.seq b) := by
  rcases tokenize_of_look (Parse.look_of_statements h) with
    ⟨pos, hTokens⟩
  refine ⟨_, pos, hTokens, ?_⟩
  have hForms := Parse.forms_of_statements (by simp [maxNesting]) h
  apply hForms.headed
  intro w name params hHeading
  rcases derives_heading_iff.mp hHeading with ⟨outer, inner, rfl, rfl⟩
  exact ⟨⟨outer, inner, rfl, rfl⟩, groupedHead_eq_plainHead⟩

/- A head is not the beginning of another statement. -/
theorem groupedHead_begins
    (outer : Nat)
    (name : String)
    (params : List (String × Nat)) :
    ∃ rest, groupedHead outer name params = .symbol .parenL :: rest ∨
      groupedHead outer name params =
        .ident name :: .symbol .parenL :: rest := by
  cases outer with
  | zero => exact ⟨_, .inr rfl⟩
  | succ n => exact ⟨_, .inl rfl⟩

/- Any head with a block behind it is read as a definition. -/
theorem Parse.outcome_bareStatement_head
    {limit : Option Nat}
    {ending : Ending}
    {depth : Nat}
    {w rest : List Token}
    {t : Token}
    (outer : Nat)
    (name : String)
    (inner : List (String × Nat))
    (hHead : kinds w = groupedHead outer name inner)
    (hOpen : t.kind = .symbol .braceL)
    (hWithin : (heading name (inner.map Prod.fst)).Within limit) :
    outcome (bareStatement limit ending depth (w ++ t :: rest)) =
      outcome (block limit ending depth (t :: rest)) >>= fun p =>
        .ok (.function name (inner.map Prod.fst) p.1, p.2) := by
  have hDerives : Derives .or (kinds w)
      (heading name (inner.map Prod.fst)) :=
    derives_heading_iff.mpr ⟨outer, inner, rfl, hHead⟩
  have hExpr : outcome (expression limit ending (w ++ t :: rest)) =
      .ok (heading name (inner.map Prod.fst), t :: rest) := by
    apply outcome_expression_of_derives hDerives hWithin
    · intro u hu op hOp
      rcases Option.some.inj hu with rfl
      rw [hOpen] at hOp
      cases hOp
    · intro x _ u hu
      rcases Option.some.inj hu with rfl
      simp [hOpen]
    · exact .inl (by simp)
  have hParams : parameters t.pos ((inner.map Prod.fst).map .var) =
      .ok (inner.map Prod.fst) :=
    parameters_eq_ok.mpr rfl
  have hOther :
      outcome (bareStatement limit ending depth (w ++ t :: rest)) =
      outcome (callOrDefinition limit ending depth (w ++ t :: rest)) := by
    rcases groupedHead_begins outer name inner with ⟨v, hGroup | hPlain⟩
    · rw [hGroup] at hHead
      rcases kinds_eq_cons hHead with ⟨u, us, rfl, hKind, _⟩
      apply outcome_bareStatement_other
      · intro x others hKinds
        rw [List.cons_append, kinds_cons, hKind] at hKinds
        cases hKinds
      · simp [hKind]
      · simp [hKind]
    · rw [hPlain] at hHead
      rcases kinds_eq_cons hHead with ⟨u, us, rfl, hKind, hRest⟩
      rcases kinds_eq_cons hRest with ⟨x, xs, rfl, hNext, _⟩
      apply outcome_bareStatement_other
      · intro y others hKinds
        rw [List.cons_append, List.cons_append, kinds_cons, kinds_cons,
          hKind, hNext] at hKinds
        cases hKinds
      · simp [hKind]
      · simp [hKind]
  rw [hOther, outcome_callOrDefinition, hExpr, ok_bind]
  simp only [definition, heading, heading?, hOpen, if_true, hParams,
    ok_bind]

/-
  A definition inside of parentheses is read as a definition,
  and not from the plain head.
-/
theorem grouped_definition_read :
    parse "(f((a))) \x7b\x7d" = .ok [.function "f" ["a"] []] ∧
      (∃ toks pos, tokenize "(f((a))) \x7b\x7d" = .ok (toks, pos) ∧
        Headed (fun w name params =>
            (∃ outer, ∃ inner : List (String × Nat),
              inner.map Prod.fst = params ∧
                w = groupedHead outer name inner) ∧
            (w = plainHead name params ↔
              w.count (.symbol .parenL) = 1))
          (kinds toks) (.seq [.function "f" ["a"] []])) ∧
      ∀ toks pos, tokenize "(f((a))) \x7b\x7d" = .ok (toks, pos) →
        ¬ Headed (fun w name params => w = plainHead name params)
          (kinds toks) (.seq [.function "f" ["a"] []]) := by
  have hStream : TokenStream.ofSource "(f((a))) \x7b\x7d" =
      ⟨[⟨.symbol .parenL, "(", ⟨1, 1, 0⟩⟩, ⟨.ident "f", "f", ⟨1, 2, 1⟩⟩,
        ⟨.symbol .parenL, "(", ⟨1, 3, 2⟩⟩,
        ⟨.symbol .parenL, "(", ⟨1, 4, 3⟩⟩,
        ⟨.ident "a", "a", ⟨1, 5, 4⟩⟩, ⟨.symbol .parenR, ")", ⟨1, 6, 5⟩⟩,
        ⟨.symbol .parenR, ")", ⟨1, 7, 6⟩⟩,
        ⟨.symbol .parenR, ")", ⟨1, 8, 7⟩⟩] ++
        [⟨.symbol .braceL, "\x7b", ⟨1, 10, 9⟩⟩,
        ⟨.symbol .braceR, "\x7d", ⟨1, 11, 10⟩⟩],
        .endOfInput ⟨1, 12, 11⟩⟩ := by
    cbv
  have hWithin : (heading "f" ["a"]).Within (some maxNesting) := by
    intro n hn
    rcases Option.some.inj hn with rfl
    decide
  have hParse : parse "(f((a))) \x7b\x7d" =
      .ok [.function "f" ["a"] []] := by
    unfold parse parseWithin
    rw [hStream, List.cons_append, Parse.statements_bare _ (by simp),
      ← List.cons_append,
      Parse.outcome_bareStatement_head 1 "f" [("a", 1)] rfl rfl hWithin,
      Parse.outcome_block_open _ rfl, Parse.mayOpen_eq_ok.mpr (by decide),
      ok_bind, Parse.outcome_blockBody_close _ rfl]
    simp [Parse.statements_nil, Ending.look]
  refine ⟨hParse, parse_headed hParse, ?_⟩
  intro toks pos hTokens hHeaded
  rcases tokenize_eq_ok.mp hTokens with ⟨rfl, _⟩
  rw [hStream] at hHeaded
  -- The only statement begins with a parenthesis, and not with the name.
  generalize hKinds : kinds _ = w at hHeaded
  cases hHeaded with
  | semicolon _ => cases hKinds
  | cons hFirst hOthers =>
      cases hFirst with
      | simple hSimple _ => cases hSimple
      | branch hBranch => cases hBranch
      | function hHead _ =>
          rcases hHead with rfl
          cases hKinds

end DynScript
