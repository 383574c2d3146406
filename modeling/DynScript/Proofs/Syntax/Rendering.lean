import DynScript.Proofs.Syntax.WellFormed

/-
  The tokens of a tree written as source text. They follow the
  printer piece by piece, and scanning the text of a tree that
  can be written gives just these tokens.

  Key definitions include:
    * `Expr.tokens`
    * `Stmt.tokens`
    * `Stmt.tokensSeq`

  Main statements include:
    * `Expr.scans_render`
    * `Expr.derives_tokens`
    * `Stmt.scans_render`
    * `Block.scans_render`
-/

namespace DynScript

------------------------------------------------------------
-- Operators
------------------------------------------------------------

/- The symbol of an operator before its operand. -/
def UnaryOp.symbol : UnaryOp → Symbol
  | .neg => .minus
  | .not => .bang

/- The symbol of an operator between its operands. -/
def BinaryOp.symbol : BinaryOp → Symbol
  | .add => .plus
  | .sub => .minus
  | .mul => .star
  | .div => .slash
  | .mod => .percent
  | .eq => .eqEq
  | .ne => .notEq
  | .lt => .lt
  | .le => .le
  | .gt => .gt
  | .ge => .ge
  | .and => .andAnd
  | .or => .orOr

theorem binaryOp?_symbol
    (op : BinaryOp) :
    Parse.binaryOp? (.symbol op.symbol) = some op := by
  cases op <;> rfl

theorem mem_signs
    (op : UnaryOp) :
    (op.symbol, op) ∈ Layer.signs := by
  cases op <;> decide

/- An operator with a space behind it. -/
theorem scans_operator
    (op : BinaryOp)
    (rest : List Char) :
    Scans op.text.toList [.symbol op.symbol] (' ' :: rest) := by
  have hSpace : ∀ c s, oneCharSymbol? c = some s →
      Scans [c] [.symbol s] (' ' :: rest) := by
    intro c s hSymbol
    apply scans_symbol hSymbol
    · intro d hd
      rcases Option.some.inj hd with rfl
      unfold twoCharSymbol?
      split <;> simp_all
    · intro _ d hd
      rcases Option.some.inj hd with rfl
      decide
  cases op
  case eq => exact scans_longSymbol _ rfl
  case ne => exact scans_longSymbol _ rfl
  case le => exact scans_longSymbol _ rfl
  case ge => exact scans_longSymbol _ rfl
  case and => exact scans_longSymbol _ rfl
  case or => exact scans_longSymbol _ rfl
  all_goals exact hSpace _ _ rfl

/- A sign that makes no longer symbol with what follows. -/
theorem scans_sign
    (op : UnaryOp)
    {rest : List Char}
    (hRest : ∀ c ∈ rest.head?, c ≠ '=') :
    Scans op.text.toList [.symbol op.symbol] rest := by
  cases op with
  | neg =>
      apply scans_symbol (c := '-') rfl
      · intro d _
        rfl
      · intro hEq
        exact absurd hEq (by decide)
  | not =>
      apply scans_symbol (c := '!') rfl
      · intro d hd
        unfold twoCharSymbol?
        split <;> simp_all
      · intro hEq
        exact absurd hEq (by decide)

------------------------------------------------------------
-- Punctuation
------------------------------------------------------------

/- The symbols that never are a part of a longer one. -/
def Symbol.punctuation : List Symbol :=
  [parenL, parenR, braceL, braceR, comma, semicolon]

/- Punctuation, whatever stands behind it. -/
theorem scans_punctuation
    {s : Symbol}
    (rest : List Char)
    (h : s ∈ Symbol.punctuation) :
    Scans s.text.toList [.symbol s] rest := by
  have hAlone : ∀ c, oneCharSymbol? c = some s →
      (∀ d, twoCharSymbol? c d = none) → c ≠ '/' →
        Scans [c] [.symbol s] rest := by
    intro c hSymbol hLonger hSlash
    apply scans_symbol hSymbol
    · intro d _
      exact hLonger d
    · intro hEq
      exact absurd hEq hSlash
  simp only [Symbol.punctuation, List.mem_cons, List.not_mem_nil,
    or_false] at h
  rcases h with rfl | rfl | rfl | rfl | rfl | rfl <;>
    exact hAlone _ rfl (fun _ => rfl) (by decide)

theorem scans_parenL
    (rest : List Char) :
    Scans "(".toList [.symbol .parenL] rest :=
  scans_punctuation rest (by decide)

theorem scans_parenR
    (rest : List Char) :
    Scans ")".toList [.symbol .parenR] rest :=
  scans_punctuation rest (by decide)

/- Punctuation with white space behind it. -/
theorem scans_separator
    {s : Symbol}
    {c : Char}
    (rest : List Char)
    (h : s ∈ Symbol.punctuation)
    (hGap : isGapChar c = true) :
    Scans (s.text.toList ++ [c]) [.symbol s] rest :=
  (scans_punctuation _ h).append (scans_gap rest hGap)

/- A space. -/
theorem scans_space
    (rest : List Char) :
    Scans " ".toList [] rest :=
  scans_gap rest (by decide)

/- What stands behind a word in the text of a tree. -/
theorem boundary_cons
    {c : Char}
    (cs : List Char)
    (h : c ∈ [' ', '(', ')', ',', ';']) :
    Boundary (c :: cs) := by
  intro d hd
  rcases Option.some.inj hd with rfl
  simp only [List.mem_cons, List.not_mem_nil, or_false] at h
  rcases h with rfl | rfl | rfl | rfl | rfl <;> decide

------------------------------------------------------------
-- Expressions
------------------------------------------------------------

mutual

/- The tokens of an expression's text. -/
def Expr.tokens : Expr → List TokenKind
  | .int i => [.int i]
  | .float x => [.float x]
  | .str s => [.str s]
  | .bool b => [.symbol (if b then .kwTrue else .kwFalse)]
  | .nil => [.symbol .kwNil]
  | .var name => [.ident name]
  | .unary op e =>
    [.symbol .parenL] ++ [.symbol op.symbol] ++ e.tokens
      ++ [.symbol .parenR]
  | .binary op l r =>
    [.symbol .parenL] ++ l.tokens ++ [.symbol op.symbol] ++ r.tokens
      ++ [.symbol .parenR]
  | .call name args =>
    [.ident name] ++ [.symbol .parenL] ++ Expr.tokensArgs args
      ++ [.symbol .parenR]

/- The tokens of arguments. -/
def Expr.tokensArgs : List Expr → List TokenKind
  | [] => []
  | [e] => e.tokens
  | e :: es => e.tokens ++ [.symbol .comma] ++ Expr.tokensArgs es

end

/- The first character of a word or a number. -/
theorem ne_assign_of_isWordChar
    {c : Char}
    (h : isWordChar c = true) :
    c ≠ '=' := by
  rintro rfl
  exact absurd h (by decide)

theorem IsName.begins
    {s : String}
    (h : IsName s) :
    ∃ c cs, s.toList = c :: cs ∧ c ≠ '=' := by
  have hWord := h.1
  cases hText : s.toList with
  | nil =>
      rw [hText] at hWord
      exact absurd hWord id
  | cons c cs =>
      rw [hText] at hWord
      exact ⟨c, cs, rfl,
        ne_assign_of_isWordChar (isWordChar_of_isWordStart hWord.1)⟩

/- No expression begins like an operator does. -/
theorem Expr.render_begins
    {e : Expr}
    (h : e.Writable) :
    ∃ c cs, e.render.toList = c :: cs ∧ c ≠ '=' := by
  cases e with
  | int i =>
      rcases int_begins h with ⟨c, cs, hText, hDigit⟩
      exact ⟨c, cs, hText,
        ne_assign_of_isWordChar (digit_class hDigit).2.2⟩
  | float x =>
      rcases float_begins h.1 h.2 with ⟨c, cs, hText, hDigit⟩
      exact ⟨c, cs, hText,
        ne_assign_of_isWordChar (digit_class hDigit).2.2⟩
  | str s =>
      refine ⟨'"', s.toList.flatMap escapeLiteral ++ ['"'], ?_,
        by decide⟩
      rw [Expr.render, quoteLiteral, String.toList_ofList]
      rfl
  | bool b =>
      cases b with
      | true => exact ⟨'t', _, rfl, by decide⟩
      | false => exact ⟨'f', _, rfl, by decide⟩
  | nil => exact ⟨'n', _, rfl, by decide⟩
  | var name => exact h.begins
  | unary op e =>
      refine ⟨'(', (op.text ++ e.render ++ ")").toList, ?_, by decide⟩
      simp only [Expr.render, String.toList_append, List.append_assoc]
      rfl
  | binary op l r =>
      refine ⟨'(', (l.render ++ " " ++ op.text ++ " " ++ r.render
        ++ ")").toList, ?_, by decide⟩
      simp only [Expr.render, String.toList_append, List.append_assoc]
      rfl
  | call name args =>
      rcases h.1.begins with ⟨c, cs, hText, hNe⟩
      refine ⟨c, cs ++ ("(" ++ Expr.renderArgs args ++ ")").toList,
        ?_, hNe⟩
      simp only [Expr.render, String.toList_append, List.append_assoc,
        hText, List.cons_append]

mutual

/- The text of an expression is scanned to its tokens. -/
theorem Expr.scans_render
    {e : Expr}
    {rest : List Char}
    (h : e.Writable)
    (hRest : Boundary rest) :
    Scans e.render.toList e.tokens rest := by
  cases e with
  | int i => exact scans_int h hRest
  | float x => exact scans_float h.1 h.2 hRest
  | str s => exact scans_string s rest
  | bool b =>
      cases b with
      | true => exact scans_keyword (s := .kwTrue) (by decide) hRest
      | false => exact scans_keyword (s := .kwFalse) (by decide) hRest
  | nil => exact scans_keyword (s := .kwNil) (by decide) hRest
  | var name => exact scans_name h hRest
  | unary op e =>
      rcases @Expr.render_begins e h with ⟨c, cs, hText, hNe⟩
      have hOperand : Scans e.render.toList e.tokens
          (")".toList ++ rest) :=
        Expr.scans_render h (boundary_cons _ (by decide))
      have hSign : Scans op.text.toList [.symbol op.symbol]
          (e.render.toList ++ (")".toList ++ rest)) := by
        apply scans_sign
        intro d hd
        rw [hText] at hd
        rcases Option.some.inj hd with rfl
        exact hNe
      simp only [Expr.render, Expr.tokens, String.toList_append]
      exact (((scans_parenL _).append hSign).append hOperand).append
        (scans_parenR rest)
  | binary op l r =>
      have hLeft : ∀ more, Scans l.render.toList l.tokens
          (" ".toList ++ more) :=
        fun _ => Expr.scans_render h.1 (boundary_cons _ (by decide))
      have hRight : Scans r.render.toList r.tokens
          (")".toList ++ rest) :=
        Expr.scans_render h.2 (boundary_cons _ (by decide))
      simp only [Expr.render, Expr.tokens, String.toList_append]
      have hAll :=
        ((((((scans_parenL _).append (hLeft _)).append
          (scans_space _)).append (scans_operator op _)).append
            (scans_space _)).append hRight).append (scans_parenR rest)
      simpa only [List.append_nil] using hAll
  | call name args =>
      have hArgs : Scans (Expr.renderArgs args).toList
          (Expr.tokensArgs args) (")".toList ++ rest) :=
        Expr.scans_renderArgs h.2 (boundary_cons _ (by decide))
      have hName : Scans name.toList [.ident name]
          ("(".toList ++
            ((Expr.renderArgs args).toList ++ (")".toList ++ rest))) :=
        scans_name h.1 (boundary_cons _ (by decide))
      simp only [Expr.render, Expr.tokens, String.toList_append]
      exact ((hName.append (scans_parenL _)).append hArgs).append
        (scans_parenR rest)

/- So is the text of arguments. -/
theorem Expr.scans_renderArgs
    {es : List Expr}
    {rest : List Char}
    (h : Expr.AllWritable es)
    (hRest : Boundary rest) :
    Scans (Expr.renderArgs es).toList (Expr.tokensArgs es) rest := by
  match es, h with
  | [], _ => exact scans_nil rest
  | [e], h => exact Expr.scans_render h.1 hRest
  | e :: e' :: es, h =>
      have hFirst : ∀ more, Scans e.render.toList e.tokens
          (", ".toList ++ more) :=
        fun _ => Expr.scans_render h.1 (boundary_cons _ (by decide))
      have hOthers := Expr.scans_renderArgs h.2 hRest
      simp only [Expr.renderArgs, Expr.tokensArgs,
        String.toList_append]
      exact ((hFirst _).append
        (scans_separator (s := .comma) (c := ' ') _ (by decide)
          (by decide))).append hOthers

end

/- The tokens of arguments, with commas between them. -/
theorem Expr.tokensArgs_eq
    (es : List Expr) :
    Expr.tokensArgs es =
      [.symbol .comma].intercalate (es.map Expr.tokens) := by
  match es with
  | [] => rfl
  | [e] => simp [Expr.tokensArgs]
  | e :: e' :: es =>
      rw [Expr.tokensArgs, Expr.tokensArgs_eq (e' :: es)]
      · simp [List.intercalate_cons_cons]
      · simp

/- What derives without an operator derives in every layer. -/
theorem Derives.of_primary
    {i : Nat}
    {w : List TokenKind}
    {e : Expr}
    (hLayer : i ≤ 6)
    (h : Derives .primary w e) :
    Derives (Layer.above i) w e :=
  Derives.lower hLayer (.descend rfl h)

mutual

/- The tokens of an expression derive it. -/
theorem Expr.derives_tokens
    (e : Expr) :
    Derives .primary e.tokens e := by
  cases e with
  | int i => exact .int i
  | float x => exact .float x
  | str s => exact .str s
  | bool b =>
      cases b with
      | true => exact .true
      | false => exact .false
  | nil => exact .nil
  | var name => exact .var name
  | unary op e =>
      have hOperand := (Expr.derives_tokens e).of_primary
        (Nat.le_refl 6)
      have hSign := Derives.sign (mem_signs op) hOperand
      exact .group (Derives.lower (i := 0) (j := 6) (by decide) hSign)
  | binary op l r =>
      rcases Layer.exists_of_binaryOp? (binaryOp?_symbol op) with
        ⟨s, hSymbol, hMem, hNext, hPos⟩
      rcases TokenKind.symbol.inj hSymbol with rfl
      have hLe := op.precedence_le
      have hLeft := (Expr.derives_tokens l).of_primary
        (show op.precedence - 1 ≤ 6 by omega)
      have hRight := (Expr.derives_tokens r).of_primary hLe
      have hBinary := Derives.operator hNext hMem hLeft hRight
      have hGroup := Derives.group
        (Derives.lower (Nat.zero_le _) hBinary)
      simpa [Expr.tokens] using hGroup
  | call name args =>
      have hCall := Derives.call name
        (args.map fun e => (e.tokens, e)) ?_
      · simpa [Expr.tokens, Expr.tokensArgs_eq, Function.comp_def]
          using hCall
      · intro arg hArg
        rcases List.mem_map.mp hArg with ⟨e, hMem, rfl⟩
        exact (Expr.derives_tokensArgs args e hMem).of_primary
          (Nat.zero_le 6)

/- So do the tokens of each argument. -/
theorem Expr.derives_tokensArgs
    (es : List Expr) :
    ∀ e ∈ es, Derives .primary e.tokens e := by
  cases es with
  | nil => simp
  | cons e es =>
      intro e' hMem
      rcases List.mem_cons.mp hMem with hEq | hMem
      · rw [hEq]
        exact Expr.derives_tokens e
      · exact Expr.derives_tokensArgs es e' hMem

end

------------------------------------------------------------
-- Statements
------------------------------------------------------------

/- The call that the heading of a function looks like. -/
def heading
    (name : String)
    (params : List String) : Expr :=
  .call name (params.map .var)

/- The tokens of a block between braces. -/
def tokensBraced
    (w : List TokenKind) : List TokenKind :=
  [.symbol .braceL] ++ w ++ [.symbol .braceR]

mutual

/- The tokens of a statement's text. -/
def Stmt.tokens : Stmt → List TokenKind
  | .assign name value =>
    [.ident name] ++ [.symbol .assign] ++ value.tokens
  | .branch test yes none =>
    [.symbol .kwIf] ++ test.tokens ++ tokensBraced (Stmt.tokensSeq yes)
  | .branch test yes (some no) =>
    [.symbol .kwIf] ++ test.tokens ++ tokensBraced (Stmt.tokensSeq yes)
      ++ [.symbol .kwElse] ++ tokensBraced (Stmt.tokensSeq no)
  | .function name params body =>
    (heading name params).tokens ++ tokensBraced (Stmt.tokensSeq body)
  | .ret (some e) => [.symbol .kwReturn] ++ e.tokens
  | .ret none => [.symbol .kwReturn]
  | .expr e => e.tokens

/- The tokens of the statements of a block. -/
def Stmt.tokensSeq : List Stmt → List TokenKind
  | [] => []
  | [s] => s.tokens
  | s :: ss =>
    s.tokens ++ [.symbol .semicolon] ++ Stmt.tokensSeq ss

end

/- The text of names with commas is the text of variables. -/
theorem renderArgs_vars
    (params : List String) :
    Expr.renderArgs (params.map .var) = ", ".intercalate params := by
  match params with
  | [] => rfl
  | [x] => simp [Expr.renderArgs, Expr.render]
  | x :: y :: xs =>
      rw [String.intercalate_cons_cons, ← renderArgs_vars (y :: xs)]
      simp [Expr.renderArgs, Expr.render]

/- The names of a heading make up a call that can be written. -/
theorem writable_heading
    {name : String}
    {params : List String}
    (hName : IsName name)
    (hParams : ∀ x ∈ params, IsName x) :
    (heading name params).Writable := by
  refine ⟨hName, Expr.allWritable_iff.mpr ?_⟩
  intro e he
  rcases List.mem_map.mp he with ⟨x, hMem, rfl⟩
  exact hParams x hMem

/- A block between braces, whatever stands behind it. -/
theorem scans_braced
    {ss : List Stmt}
    {w : List TokenKind}
    (rest : List Char)
    (hEmpty : ss = [] → w = [])
    (hBody : ∀ more, Boundary more →
      Scans (Stmt.renderSeq ss).toList w more) :
    Scans (braced ss.isEmpty (Stmt.renderSeq ss)).toList
      (tokensBraced w) rest := by
  cases ss with
  | nil =>
      rw [hEmpty rfl]
      exact (scans_separator (s := .braceL) (c := ' ') _ (by decide)
        (by decide)).append
          (scans_punctuation (s := .braceR) rest (by decide))
  | cons s ss =>
      have hInner := hBody (" \x7d".toList ++ rest)
        (boundary_cons _ (by decide))
      have hClose : Scans " \x7d".toList [.symbol .braceR] rest :=
        (scans_space _).append
          (scans_punctuation (s := .braceR) rest (by decide))
      simp only [braced, List.isEmpty_cons, Bool.false_eq_true,
        if_false, String.toList_append]
      exact ((scans_separator (s := .braceL) (c := ' ') _ (by decide)
        (by decide)).append hInner).append hClose

/- A keyword with a space behind it. -/
theorem scans_keyword_space
    {s : Symbol}
    (rest : List Char)
    (h : s ∈ Symbol.keywords) :
    Scans (s.text.toList ++ [' ']) [.symbol s] rest :=
  (scans_keyword h (boundary_cons _ (by decide))).append
    (scans_space rest)

section Statements

variable {limit : Option Nat}

/- An expression of a statement with a space behind it. -/
theorem scans_expr_space
    {e : Expr}
    (rest : List Char)
    (h : e.WritableWithin limit) :
    Scans (e.render.toList ++ " ".toList) e.tokens rest := by
  have hExpr : Scans e.render.toList e.tokens (" ".toList ++ rest) :=
    Expr.scans_render h.1 (boundary_cons _ (by decide))
  simpa only [List.append_nil] using hExpr.append (scans_space rest)

mutual

/- The text of a statement is scanned to its tokens. -/
theorem Stmt.scans_render
    {s : Stmt}
    {rest : List Char}
    (h : s.Holds IsName (Expr.WritableWithin limit))
    (hRest : Boundary rest) :
    Scans s.render.toList s.tokens rest := by
  match s, h with
  | .assign name value, h =>
      have hName : Scans name.toList [.ident name]
          (" = ".toList ++ (value.render.toList ++ rest)) :=
        scans_name h.1 (boundary_cons _ (by decide))
      have hAssign : ∀ more,
          Scans " = ".toList [.symbol .assign] more := by
        intro more
        have hSign : Scans "=".toList [.symbol .assign]
            (" ".toList ++ more) := by
          apply scans_symbol (c := '=') rfl
          · intro d hd
            rcases Option.some.inj hd with rfl
            rfl
          · intro hEq
            exact absurd hEq (by decide)
        exact ((scans_space _).append hSign).append (scans_space more)
      simp only [Stmt.render, Stmt.tokens, String.toList_append]
      exact (hName.append (hAssign _)).append
        (Expr.scans_render h.2.1 hRest)
  | .branch test yes none, h =>
      simp only [Stmt.render, Stmt.tokens, String.toList_append]
      rw [List.append_assoc "if ".toList]
      exact ((scans_keyword_space (s := .kwIf) _ (by decide)).append
        (scans_expr_space _ h.1)).append
          (scans_braced rest (by rintro rfl; rfl)
            (fun _ => Stmt.scans_renderSeq h.2))
  | .branch test yes (some no), h =>
      have hElse : ∀ more,
          Scans " else ".toList [.symbol .kwElse] more :=
        fun more => (scans_space _).append
          (scans_keyword_space (s := .kwElse) more (by decide))
      simp only [Stmt.render, Stmt.tokens, String.toList_append]
      rw [List.append_assoc "if ".toList]
      exact ((((scans_keyword_space (s := .kwIf) _ (by decide)).append
        (scans_expr_space _ h.1)).append
          (scans_braced _ (by rintro rfl; rfl)
            (fun _ => Stmt.scans_renderSeq h.2.1))).append
              (hElse _)).append
                (scans_braced rest (by rintro rfl; rfl)
                  (fun _ => Stmt.scans_renderSeq h.2.2))
  | .function name params body, h =>
      have hText :
          (Stmt.function name params body).render =
            (heading name params).render ++ " " ++
              braced body.isEmpty (Stmt.renderSeq body) := by
        rw [Stmt.render, heading, Expr.render, renderArgs_vars]
        simp only [String.append_assoc]
        rfl
      simp only [hText, Stmt.tokens, String.toList_append]
      have hHeading : (heading name params).WritableWithin none :=
        ⟨writable_heading h.1 h.2.1, by simp [Expr.Within, Fits]⟩
      exact (scans_expr_space _ hHeading).append
        (scans_braced rest (by rintro rfl; rfl)
          (fun _ => Stmt.scans_renderSeq h.2.2))
  | .ret (some e), h =>
      simp only [Stmt.render, Stmt.tokens, String.toList_append]
      exact (scans_keyword_space (s := .kwReturn) _ (by decide)).append
        (Expr.scans_render (h e rfl).1 hRest)
  | .ret none, _ =>
      exact scans_keyword (s := .kwReturn) (by decide) hRest
  | .expr e, h => exact Expr.scans_render h.1 hRest

/- So is the text of the statements of a block. -/
theorem Stmt.scans_renderSeq
    {ss : List Stmt}
    {rest : List Char}
    (h : Stmt.HoldsSeq IsName (Expr.WritableWithin limit) ss)
    (hRest : Boundary rest) :
    Scans (Stmt.renderSeq ss).toList (Stmt.tokensSeq ss) rest := by
  match ss, h with
  | [], _ => exact scans_nil rest
  | [s], h => exact Stmt.scans_render h.1 hRest
  | s :: s' :: ss, h =>
      have hFirst : ∀ more, Scans s.render.toList s.tokens
          ("; ".toList ++ more) :=
        fun _ => Stmt.scans_render h.1 (boundary_cons _ (by decide))
      simp only [Stmt.renderSeq, Stmt.tokensSeq,
        String.toList_append]
      exact ((hFirst _).append
        (scans_separator (s := .semicolon) (c := ' ') _ (by decide)
          (by decide))).append (Stmt.scans_renderSeq h.2 hRest)

end

/- The text of a program has the same tokens as that of a block. -/
theorem Block.scans_render
    {b : Block}
    (h : b.WritableWithin limit) :
    Scans b.render.toList (Stmt.tokensSeq b) [] := by
  have hEnd : Boundary [] := by
    intro c hc
    cases hc
  induction b with
  | nil => exact scans_nil []
  | cons s ss ih =>
      cases ss with
      | nil =>
          have hText : Block.render [s] = s.render := by
            simp [Block.render]
          rw [hText]
          exact Stmt.scans_render h.1 hEnd
      | cons s' ss =>
          have hText :
              Block.render (s :: s' :: ss) =
                s.render ++ ";\n" ++ Block.render (s' :: ss) := by
            simp [Block.render, String.intercalate_cons_cons]
          have hFirst : ∀ more, Scans s.render.toList s.tokens
              (";\n".toList ++ more) :=
            fun _ => Stmt.scans_render h.1 (boundary_cons _ (by decide))
          rw [hText]
          simp only [Stmt.tokensSeq, String.toList_append]
          exact ((hFirst _).append
            (scans_separator (s := .semicolon) (c := '\n') _
              (by decide) (by decide))).append (ih h.2)

end Statements

end DynScript
