import DynScript.Proofs.Json.FloatText
import DynScript.Proofs.Json.ReadsBack
import DynScript.Syntax.Dump

/-
  Programs as JSON texts. A program is read back from its text
  with every detail, as long as its numbers are and as the text
  is not nested deeper than the reader follows. Read back or
  not, no two programs with finite numbers have the same text.

  Key definitions include:
    * `Json.nesting`
    * `Block.floats`
    * `Block.Dumpable`
    * `Dump.ReadsBack`

  Main statements include:
    * `Block.legible_toJson`
    * `Dump.expr?_toJson`
    * `Dump.stmt?_toJson`
    * `Block.toJson_inj`
    * `dump_reads_back`
-/

namespace DynScript

------------------------------------------------------------
-- Nesting of values
------------------------------------------------------------

namespace Json

mutual

/- How many arrays and objects of a value stand inside one another. -/
def nesting : Json → Nat
  | arr es => nestingAll es + 1
  | obj ms => nestingMembers ms + 1
  | _ => 0

/- The same for the elements of an array. -/
def nestingAll : List Json → Nat
  | [] => 0
  | e :: es => max e.nesting (nestingAll es)

/- The same for the values of members. -/
def nestingMembers : List (String × Json) → Nat
  | [] => 0
  | (_, v) :: ms => max v.nesting (nestingMembers ms)

end

@[simp]
theorem nesting_node
    (kind : String)
    (v : Json) :
    (node kind v).nesting = v.nesting + 1 := by
  simp [node, nesting, nestingMembers]

end Json

------------------------------------------------------------
-- Every dump is legible
------------------------------------------------------------

namespace Json

theorem legible_node
    {v : Json}
    (kind : String)
    (h : v.Legible) :
    (node kind v).Legible :=
  ⟨trivial, h, trivial⟩

theorem legible_ofInt
    (i : Int) :
    (ofInt i).Legible :=
  isNumeral_toString i

/- Numbers that are not finite are written as null. -/
theorem legible_ofFloat
    (x : Float) :
    (ofFloat x).Legible := by
  unfold ofFloat
  split
  · next hFinite => exact (spells_write hFinite).isNumeral
  · trivial

theorem legible_strings
    (names : List String) :
    LegibleAll (names.map str) := by
  induction names with
  | nil => trivial
  | cons name names ih => exact ⟨trivial, ih⟩

end Json

mutual

theorem Expr.legible_toJson :
    (e : Expr) → e.toJson.Legible
  | .int i => Json.legible_node _ (Json.legible_ofInt i.toInt)
  | .float x => Json.legible_node _ (Json.legible_ofFloat x)
  | .str _ => Json.legible_node _ trivial
  | .bool _ => Json.legible_node _ trivial
  | .nil => ⟨trivial, trivial⟩
  | .var _ => Json.legible_node _ trivial
  | .unary _ e =>
      Json.legible_node _ ⟨trivial, e.legible_toJson, trivial⟩
  | .binary _ l r =>
      Json.legible_node _
        ⟨trivial, l.legible_toJson, r.legible_toJson, trivial⟩
  | .call _ args =>
      Json.legible_node _ ⟨trivial, Expr.legible_listToJson args, trivial⟩

theorem Expr.legible_listToJson :
    (es : List Expr) → Json.LegibleAll (Expr.listToJson es)
  | [] => trivial
  | e :: es => ⟨e.legible_toJson, Expr.legible_listToJson es⟩

end

mutual

theorem Stmt.legible_toJson :
    (s : Stmt) → s.toJson.Legible
  | .assign _ e =>
      Json.legible_node _ ⟨trivial, e.legible_toJson, trivial⟩
  | .branch test yes none =>
      Json.legible_node _ ⟨test.legible_toJson,
        Stmt.legible_listToJson yes, trivial, trivial⟩
  | .branch test yes (some no) =>
      Json.legible_node _ ⟨test.legible_toJson,
        Stmt.legible_listToJson yes, Stmt.legible_listToJson no, trivial⟩
  | .function _ params body =>
      Json.legible_node _ ⟨trivial, Json.legible_strings params,
        Stmt.legible_listToJson body, trivial⟩
  | .ret none => Json.legible_node _ trivial
  | .ret (some e) => Json.legible_node _ e.legible_toJson
  | .expr e => Json.legible_node _ e.legible_toJson

theorem Stmt.legible_listToJson :
    (ss : List Stmt) → Json.LegibleAll (Stmt.listToJson ss)
  | [] => trivial
  | s :: ss => ⟨s.legible_toJson, Stmt.legible_listToJson ss⟩

end

/- A program is written as a legible value, whatever its numbers are. -/
theorem Block.legible_toJson
    (b : Block) :
    b.toJson.Legible :=
  Stmt.legible_listToJson b

------------------------------------------------------------
-- Floating point literals
------------------------------------------------------------

mutual

/- The floating point literals of an expression, in order. -/
def Expr.floats : Expr → List Float
  | .float x => [x]
  | .unary _ e => e.floats
  | .binary _ l r => l.floats ++ r.floats
  | .call _ args => Expr.listFloats args
  | _ => []

/- The floating point literals of a list of expressions. -/
def Expr.listFloats : List Expr → List Float
  | [] => []
  | e :: es => e.floats ++ Expr.listFloats es

end

mutual

/- The floating point literals of a statement, in order. -/
def Stmt.floats : Stmt → List Float
  | .assign _ e => e.floats
  | .branch test yes none => test.floats ++ Stmt.listFloats yes
  | .branch test yes (some no) =>
    test.floats ++ (Stmt.listFloats yes ++ Stmt.listFloats no)
  | .function _ _ body => Stmt.listFloats body
  | .ret none => []
  | .ret (some e) => e.floats
  | .expr e => e.floats

/- The floating point literals of a list of statements. -/
def Stmt.listFloats : List Stmt → List Float
  | [] => []
  | s :: ss => s.floats ++ Stmt.listFloats ss

end

/- The floating point literals of a program. -/
def Block.floats
    (b : Block) : List Float :=
  Stmt.listFloats b

------------------------------------------------------------
-- Reading nodes
------------------------------------------------------------

namespace Dump

/- A finite number is the value of the digits written for it. -/
def ReadsBack
    (x : Float) : Prop :=
  Decimal.isFinite x = true →
    float? (.num (Json.floatLayout.write x)) = some x

instance : DecidablePred ReadsBack :=
  fun x =>
    inferInstanceAs
      (Decidable (Decimal.isFinite x = true →
        float? (.num (Json.floatLayout.write x)) = some x))

-- The reader rounds twice, and so this is not so for all numbers.
example : ¬ ReadsBack 31.245270191439438 := by
  decide +kernel

@[simp]
theorem int?_ofInt
    (i : Int64) :
    int? (.ofInt i.toInt) = some i := by
  have hFits : fits i.toInt = true := by
    have hLow := Int64.minValue_le_toInt i
    have hHigh := Int64.toInt_le i
    simp only [fits, Bool.and_eq_true, decide_eq_true_eq]
    omega
  unfold int? Json.ofInt
  simp only [Json.number?_toString hFits]
  rw [if_pos hFits, Int64.ofInt_toInt]

theorem float?_ofFloat
    {x : Float}
    (hFinite : Decimal.isFinite x = true)
    (hReads : ReadsBack x) :
    float? (.ofFloat x) = some x := by
  rw [Json.ofFloat, if_pos hFinite]
  exact hReads hFinite

@[simp]
theorem unaryOp?_name
    (op : UnaryOp) :
    unaryOp? op.name = some op := by
  cases op <;> rfl

@[simp]
theorem binaryOp?_name
    (op : BinaryOp) :
    binaryOp? op.name = some op := by
  cases op <;> rfl

/- An object has room for its members when one level is taken off. -/
theorem exists_room
    {ms : List (String × Json)}
    {room : Nat}
    (h : (Json.obj ms).nesting ≤ room) :
    ∃ inner, room = inner + 1 ∧ Json.nestingMembers ms ≤ inner := by
  rw [Json.nesting] at h
  exact ⟨room - 1, by omega, by omega⟩

/- The same for an array. -/
theorem exists_room_arr
    {es : List Json}
    {room : Nat}
    (h : (Json.arr es).nesting ≤ room) :
    ∃ inner, room = inner + 1 ∧ Json.nestingAll es ≤ inner := by
  rw [Json.nesting] at h
  exact ⟨room - 1, by omega, by omega⟩

/- The same for a node, of which only the parts are nested. -/
theorem exists_room_node
    {kind : String}
    {v : Json}
    {room : Nat}
    (h : (Json.node kind v).nesting ≤ room) :
    ∃ inner, room = inner + 1 ∧ v.nesting ≤ inner := by
  rw [Json.nesting_node] at h
  exact ⟨room - 1, by omega, by omega⟩

/- The same for a node whose parts are members. -/
theorem exists_room_parts
    {kind : String}
    {ms : List (String × Json)}
    {room : Nat}
    (h : (Json.node kind (.obj ms)).nesting ≤ room) :
    ∃ inner, room = inner + 2 ∧ Json.nestingMembers ms ≤ inner := by
  rcases exists_room_node h with ⟨outer, rfl, hObject⟩
  rcases exists_room hObject with ⟨inner, rfl, hMembers⟩
  exact ⟨inner, rfl, hMembers⟩

------------------------------------------------------------
-- Reading expressions
------------------------------------------------------------

section Nodes

variable (room : Nat)
variable (origin : Origin)

theorem expr?_unary
    (op : String)
    (e : Json) :
    expr? (room + 2) origin
        (.node "Unary" (.obj [("op", .str op), ("expr", e)])) = (do
      let op ← unaryOp? op
      let e ← expr? room origin e
      return .unary op e) :=
  rfl

theorem expr?_binary
    (op : String)
    (l r : Json) :
    expr? (room + 2) origin
        (.node "Binary"
          (.obj [("op", .str op), ("lhs", l), ("rhs", r)])) = (do
      let op ← binaryOp? op
      let l ← expr? room origin l
      let r ← expr? room origin r
      return .binary op l r) :=
  rfl

/- The array of the arguments takes a level of its own. -/
theorem expr?_call
    (name : String)
    (args : List Json) :
    expr? (room + 3) origin
        (.node "Call"
          (.obj [("name", .str name), ("args", .arr args)])) = (do
      let args ← args.mapM (expr? room origin)
      return .call name args) :=
  rfl

theorem stmt?_assign
    (name : String)
    (e : Json) :
    stmt? (room + 2) origin
        (.node "Assignment"
          (.obj [("name", .str name), ("value", e)])) = (do
      let e ← expr? room origin e
      return .assign name e) :=
  rfl

theorem stmt?_branch
    (test yes : Json) :
    stmt? (room + 2) origin
        (.node "If"
          (.obj [("cond", test), ("then", yes), ("else", .null)])) = (do
      let test ← expr? room origin test
      let yes ← block? room origin yes
      return .branch test yes none) :=
  rfl

theorem stmt?_branch_else
    (test yes : Json)
    (no : List Json) :
    stmt? (room + 2) origin
        (.node "If"
          (.obj [("cond", test), ("then", yes), ("else", .arr no)])) = (do
      let test ← expr? room origin test
      let yes ← block? room origin yes
      let no ← block? room origin (.arr no)
      return .branch test yes (some no)) :=
  rfl

theorem stmt?_function
    (name : String)
    (params body : Json) :
    stmt? (room + 2) origin
        (.node "Function"
          (.obj [("name", .str name), ("params", params),
            ("body", body)])) = (do
      let params ← strings? room params
      let body ← block? room origin body
      return .function name params body) :=
  rfl

/-
  An expression is an object, and so it is not taken for a
  missing one.
-/
theorem stmt?_ret
    (ms : List (String × Json)) :
    stmt? (room + 1) origin (.node "Return" (.obj ms)) = (do
      let e ← expr? room origin (.obj ms)
      return .ret (some e)) :=
  rfl

theorem stmt?_expr
    (e : Json) :
    stmt? (room + 1) origin (.node "Expr" e) = (do
      let e ← expr? room origin e
      return .expr e) :=
  rfl

end Nodes

variable {origin : Origin}

/- A number that is finite and read back. -/
def Faithful
    (x : Float) : Prop :=
  Decimal.isFinite x = true ∧ ReadsBack x

mutual

/- An expression is read back where there is room for it. -/
theorem expr?_toJson
    (room : Nat) :
    (e : Expr) → (∀ x ∈ e.floats, Faithful x) → e.toJson.nesting ≤ room →
      expr? room origin e.toJson = some e
  | .int i, _, hRoom => by
      rcases exists_room_node hRoom with ⟨room, rfl, _⟩
      change (do return Expr.int (← int? (.ofInt i.toInt))) = _
      rw [int?_ofInt]
      rfl
  | .float x, hFloats, hRoom => by
      rcases exists_room_node hRoom with ⟨room, rfl, _⟩
      change (do return Expr.float (← float? (.ofFloat x))) = _
      rcases hFloats x List.mem_cons_self with ⟨hFinite, hReads⟩
      rw [float?_ofFloat hFinite hReads]
      rfl
  | .str s, _, hRoom => by
      rcases exists_room_node hRoom with ⟨room, rfl, _⟩
      rfl
  | .bool b, _, hRoom => by
      rcases exists_room_node hRoom with ⟨room, rfl, _⟩
      rfl
  | .nil, _, hRoom => by
      rcases exists_room hRoom with ⟨room, rfl, _⟩
      rfl
  | .var name, _, hRoom => by
      rcases exists_room_node hRoom with ⟨room, rfl, _⟩
      rfl
  | .unary op e, hFloats, hRoom => by
      rcases exists_room_parts hRoom with ⟨room, rfl, hParts⟩
      simp only [Json.nestingMembers] at hParts
      have hOperand := expr?_toJson room e hFloats (by omega)
      rw [Expr.toJson, expr?_unary, unaryOp?_name, hOperand]
      rfl
  | .binary op l r, hFloats, hRoom => by
      rcases exists_room_parts hRoom with ⟨room, rfl, hParts⟩
      simp only [Json.nestingMembers] at hParts
      rw [Expr.floats, List.forall_mem_append] at hFloats
      have hLeft := expr?_toJson room l hFloats.1 (by omega)
      have hRight := expr?_toJson room r hFloats.2 (by omega)
      rw [Expr.toJson, expr?_binary, binaryOp?_name, hLeft, hRight]
      rfl
  | .call name args, hFloats, hRoom => by
      rcases exists_room_parts hRoom with ⟨room, rfl, hParts⟩
      simp only [Json.nestingMembers] at hParts
      have hArray : (Json.arr (Expr.listToJson args)).nesting ≤ room := by
        omega
      rcases exists_room_arr hArray with ⟨room, rfl, hInner⟩
      have hArgs := mapM_expr?_listToJson room args hFloats hInner
      rw [Expr.toJson, expr?_call, hArgs]
      rfl

/- The same for the elements of an array. -/
theorem mapM_expr?_listToJson
    (room : Nat) :
    (es : List Expr) → (∀ x ∈ Expr.listFloats es, Faithful x) →
      Json.nestingAll (Expr.listToJson es) ≤ room →
      (Expr.listToJson es).mapM (expr? room origin) = some es
  | [], _, _ => rfl
  | e :: es, hFloats, hRoom => by
      rw [Expr.listToJson, Json.nestingAll] at hRoom
      rw [Expr.listFloats, List.forall_mem_append] at hFloats
      have hFirst := expr?_toJson room e hFloats.1 (by omega)
      have hOthers :=
        mapM_expr?_listToJson room es hFloats.2 (by omega)
      rw [Expr.listToJson, List.mapM_cons, hFirst, hOthers]
      rfl

end

------------------------------------------------------------
-- Reading statements
------------------------------------------------------------

/- Names are read back from an array of them. -/
theorem strings?_map_str
    (room : Nat)
    (names : List String)
    (hRoom : 0 < room) :
    strings? room (.arr (names.map .str)) = some names := by
  rw [strings?, if_pos hRoom]
  induction names with
  | nil => rfl
  | cons name names ih =>
      rw [List.map_cons, List.mapM_cons, ih]
      rfl

/- A block is read back if its statements are, one level further in. -/
theorem block?_listToJson
    {b : Block}
    (room : Nat)
    (hStmts : ∀ inner, Json.nestingAll (Stmt.listToJson b) ≤ inner →
      (Stmt.listToJson b).mapM (stmt? inner origin) = some b)
    (hRoom : (Json.arr (Stmt.listToJson b)).nesting ≤ room) :
    block? room origin (.arr (Stmt.listToJson b)) = some b := by
  rcases exists_room_arr hRoom with ⟨inner, rfl, hInner⟩
  exact hStmts inner hInner

/- Every expression is written as an object. -/
theorem toJson_eq_obj
    (e : Expr) :
    ∃ ms, e.toJson = .obj ms := by
  cases e <;> exact ⟨_, rfl⟩

mutual

/- A statement is read back where there is room for it. -/
theorem stmt?_toJson
    (room : Nat) :
    (s : Stmt) → (∀ x ∈ s.floats, Faithful x) → s.toJson.nesting ≤ room →
      stmt? room origin s.toJson = some s
  | .assign name e, hFloats, hRoom => by
      rcases exists_room_parts hRoom with ⟨room, rfl, hParts⟩
      simp only [Json.nestingMembers] at hParts
      have hValue : expr? room origin e.toJson = some e :=
        expr?_toJson room e hFloats (by omega)
      rw [Stmt.toJson, stmt?_assign, hValue]
      rfl
  | .branch test yes none, hFloats, hRoom => by
      rcases exists_room_parts hRoom with ⟨room, rfl, hParts⟩
      simp only [Json.nestingMembers] at hParts
      simp only [Stmt.floats, List.forall_mem_append] at hFloats
      have hTest : expr? room origin test.toJson = some test :=
        expr?_toJson room test hFloats.1 (by omega)
      have hYes := block?_listToJson room
        (fun inner => mapM_stmt?_listToJson inner yes hFloats.2)
        (by omega)
      rw [Stmt.toJson, stmt?_branch, hTest, hYes]
      rfl
  | .branch test yes (some no), hFloats, hRoom => by
      rcases exists_room_parts hRoom with ⟨room, rfl, hParts⟩
      simp only [Json.nestingMembers] at hParts
      simp only [Stmt.floats, List.forall_mem_append] at hFloats
      have hTest : expr? room origin test.toJson = some test :=
        expr?_toJson room test hFloats.1 (by omega)
      have hYes := block?_listToJson room
        (fun inner => mapM_stmt?_listToJson inner yes hFloats.2.1)
        (by omega)
      have hNo := block?_listToJson room
        (fun inner => mapM_stmt?_listToJson inner no hFloats.2.2)
        (by omega)
      rw [Stmt.toJson, stmt?_branch_else, hTest, hYes, hNo]
      rfl
  | .function name params body, hFloats, hRoom => by
      rcases exists_room_parts hRoom with ⟨room, rfl, hParts⟩
      simp only [Json.nestingMembers] at hParts
      have hArray : 0 < (Json.arr (params.map .str)).nesting :=
        Nat.succ_pos _
      have hParams := strings?_map_str room params (by omega)
      have hBody := block?_listToJson room
        (fun inner => mapM_stmt?_listToJson inner body hFloats) (by omega)
      rw [Stmt.toJson, stmt?_function, hParams, hBody]
      rfl
  | .ret none, _, hRoom => by
      rcases exists_room_node hRoom with ⟨room, rfl, _⟩
      rfl
  | .ret (some e), hFloats, hRoom => by
      rcases exists_room_node hRoom with ⟨room, rfl, hParts⟩
      have hValue : expr? room origin e.toJson = some e :=
        expr?_toJson room e hFloats hParts
      rcases toJson_eq_obj e with ⟨ms, hObject⟩
      rw [hObject] at hValue
      rw [Stmt.toJson, hObject, stmt?_ret, hValue]
      rfl
  | .expr e, hFloats, hRoom => by
      rcases exists_room_node hRoom with ⟨room, rfl, hParts⟩
      have hValue : expr? room origin e.toJson = some e :=
        expr?_toJson room e hFloats hParts
      rw [Stmt.toJson, stmt?_expr, hValue]
      rfl

/- The same for the statements of a block. -/
theorem mapM_stmt?_listToJson
    (room : Nat) :
    (ss : List Stmt) → (∀ x ∈ Stmt.listFloats ss, Faithful x) →
      Json.nestingAll (Stmt.listToJson ss) ≤ room →
      (Stmt.listToJson ss).mapM (stmt? room origin) = some ss
  | [], _, _ => rfl
  | s :: ss, hFloats, hRoom => by
      rw [Stmt.listToJson, Json.nestingAll] at hRoom
      rw [Stmt.listFloats, List.forall_mem_append] at hFloats
      have hFirst := stmt?_toJson room s hFloats.1 (by omega)
      have hOthers :=
        mapM_stmt?_listToJson room ss hFloats.2 (by omega)
      rw [Stmt.listToJson, List.mapM_cons, hFirst, hOthers]
      rfl

end

end Dump

------------------------------------------------------------
-- No two trees are written alike
------------------------------------------------------------

@[simp]
theorem Json.node_inj
    {kind kind' : String}
    {v v' : Json} :
    node kind v = node kind' v' ↔ kind = kind' ∧ v = v' := by
  simp [node]

/- Nodes with parts are no nodes without parts. -/
@[simp]
theorem Json.node_ne_nil
    {kind kind' : String}
    {v : Json} :
    node kind v ≠ .obj [("type", .str kind')] := by
  simp [node]

theorem Json.ofInt_inj
    {i j : Int64}
    (h : ofInt i.toInt = ofInt j.toInt) :
    i = j := by
  have hRead := congrArg Dump.int? h
  rw [Dump.int?_ofInt, Dump.int?_ofInt] at hRead
  exact Option.some.inj hRead

theorem Json.ofFloat_inj
    {x y : Float}
    (hFinite : Decimal.isFinite x = true)
    (hFinite' : Decimal.isFinite y = true)
    (h : ofFloat x = ofFloat y) :
    x = y := by
  rw [ofFloat, ofFloat, if_pos hFinite, if_pos hFinite'] at h
  exact write_injective hFinite hFinite' (Json.num.inj h)

theorem UnaryOp.name_inj
    {op op' : UnaryOp}
    (h : op.name = op'.name) :
    op = op' := by
  have hRead := congrArg Dump.unaryOp? h
  rw [Dump.unaryOp?_name, Dump.unaryOp?_name] at hRead
  exact Option.some.inj hRead

theorem BinaryOp.name_inj
    {op op' : BinaryOp}
    (h : op.name = op'.name) :
    op = op' := by
  have hRead := congrArg Dump.binaryOp? h
  rw [Dump.binaryOp?_name, Dump.binaryOp?_name] at hRead
  exact Option.some.inj hRead

/- All numbers of a list are finite. -/
abbrev AllFinite
    (xs : List Float) : Prop :=
  ∀ x ∈ xs, Decimal.isFinite x = true

mutual

theorem Expr.toJson_inj :
    (e e' : Expr) → AllFinite e.floats → AllFinite e'.floats →
      e.toJson = e'.toJson → e = e'
  | .int i, e', _, _, h => by
      cases e' with
      | int j => rw [Json.ofInt_inj (Json.node_inj.mp h).2]
      | _ => simp [Expr.toJson] at h
  | .float x, e', hFinite, hFinite', h => by
      cases e' with
      | float y =>
          rw [Json.ofFloat_inj (hFinite x List.mem_cons_self)
            (hFinite' y List.mem_cons_self) (Json.node_inj.mp h).2]
      | _ => simp [Expr.toJson] at h
  | .str s, e', _, _, h => by
      cases e' with
      | str t => simpa [Expr.toJson] using h
      | _ => simp [Expr.toJson] at h
  | .bool b, e', _, _, h => by
      cases e' with
      | bool c => simpa [Expr.toJson] using h
      | _ => simp [Expr.toJson] at h
  | .nil, e', _, _, h => by
      cases e' with
      | nil => rfl
      | _ => exact absurd h.symm Json.node_ne_nil
  | .var name, e', _, _, h => by
      cases e' with
      | var name' => simpa [Expr.toJson] using h
      | _ => simp [Expr.toJson] at h
  | .unary op e, e', hFinite, hFinite', h => by
      cases e' with
      | unary op' f =>
          simp only [Expr.toJson, Json.node_inj, Json.obj.injEq,
            List.cons.injEq, Prod.mk.injEq, Json.str.injEq, true_and,
            and_true] at h
          rw [UnaryOp.name_inj h.1,
            Expr.toJson_inj e f hFinite hFinite' h.2]
      | _ => simp [Expr.toJson] at h
  | .binary op l r, e', hFinite, hFinite', h => by
      cases e' with
      | binary op' m t =>
          simp only [Expr.floats, List.forall_mem_append]
            at hFinite hFinite'
          simp only [Expr.toJson, Json.node_inj, Json.obj.injEq,
            List.cons.injEq, Prod.mk.injEq, Json.str.injEq, true_and,
            and_true] at h
          rw [BinaryOp.name_inj h.1,
            Expr.toJson_inj l m hFinite.1 hFinite'.1 h.2.1,
            Expr.toJson_inj r t hFinite.2 hFinite'.2 h.2.2]
      | _ => simp [Expr.toJson] at h
  | .call name args, e', hFinite, hFinite', h => by
      cases e' with
      | call name' args' =>
          simp only [Expr.toJson, Json.node_inj, Json.obj.injEq,
            List.cons.injEq, Prod.mk.injEq, Json.str.injEq,
            Json.arr.injEq,
            true_and, and_true] at h
          rw [h.1, Expr.listToJson_inj args args' hFinite hFinite' h.2]
      | _ => simp [Expr.toJson] at h

theorem Expr.listToJson_inj :
    (es es' : List Expr) →
      AllFinite (Expr.listFloats es) → AllFinite (Expr.listFloats es') →
      Expr.listToJson es = Expr.listToJson es' → es = es'
  | [], es', _, _, h => by
      cases es' with
      | nil => rfl
      | cons e' es' => cases h
  | e :: es, es', hFinite, hFinite', h => by
      cases es' with
      | nil => cases h
      | cons e' es' =>
          rw [Expr.listFloats, AllFinite, List.forall_mem_append]
            at hFinite hFinite'
          rcases List.cons.inj h with ⟨hFirst, hOthers⟩
          rw [Expr.toJson_inj e e' hFinite.1 hFinite'.1 hFirst,
            Expr.listToJson_inj es es' hFinite.2 hFinite'.2 hOthers]

end

/- A statement is written as a node of its kind. -/
theorem Stmt.exists_node
    (s : Stmt) :
    ∃ v, s.toJson = .node s.kindName v := by
  cases s with
  | branch _ _ no => cases no <;> exact ⟨_, rfl⟩
  | ret value => cases value <;> exact ⟨_, rfl⟩
  | _ => exact ⟨_, rfl⟩

theorem Stmt.toJson_ne
    {s s' : Stmt}
    (hKind : s.kindName ≠ s'.kindName) :
    s.toJson ≠ s'.toJson := by
  intro h
  rcases s.exists_node with ⟨v, hNode⟩
  rcases s'.exists_node with ⟨v', hNode'⟩
  rw [hNode, hNode'] at h
  exact hKind (Json.node_inj.mp h).1

mutual

theorem Stmt.toJson_inj :
    (s s' : Stmt) → AllFinite s.floats → AllFinite s'.floats →
      s.toJson = s'.toJson → s = s'
  | .assign name e, s', hFinite, hFinite', h => by
      cases s' with
      | assign name' e' =>
          simp only [Stmt.toJson, Json.node_inj, Json.obj.injEq,
            List.cons.injEq, Prod.mk.injEq, Json.str.injEq, true_and,
            and_true] at h
          rw [h.1, Expr.toJson_inj e e' hFinite hFinite' h.2]
      | _ => exact absurd h (Stmt.toJson_ne (by simp [Stmt.kindName]))
  | .branch test yes none, s', hFinite, hFinite', h => by
      cases s' with
      | branch test' yes' no =>
          cases no with
          | none =>
              simp only [Stmt.floats, AllFinite, List.forall_mem_append]
                at hFinite hFinite'
              simp only [Stmt.toJson, Json.node_inj, Json.obj.injEq,
                List.cons.injEq, Prod.mk.injEq, Json.arr.injEq, true_and,
                and_true] at h
              rw [Expr.toJson_inj test test' hFinite.1 hFinite'.1 h.1,
                Stmt.listToJson_inj yes yes' hFinite.2 hFinite'.2 h.2]
          | some no => simp [Stmt.toJson] at h
      | _ => exact absurd h (Stmt.toJson_ne (by simp [Stmt.kindName]))
  | .branch test yes (some no), s', hFinite, hFinite', h => by
      cases s' with
      | branch test' yes' no' =>
          cases no' with
          | none => simp [Stmt.toJson] at h
          | some no' =>
              simp only [Stmt.floats, AllFinite, List.forall_mem_append]
                at hFinite hFinite'
              simp only [Stmt.toJson, Json.node_inj, Json.obj.injEq,
                List.cons.injEq, Prod.mk.injEq, Json.arr.injEq, true_and,
                and_true] at h
              rw [Expr.toJson_inj test test' hFinite.1 hFinite'.1 h.1,
                Stmt.listToJson_inj yes yes' hFinite.2.1 hFinite'.2.1
                  h.2.1,
                Stmt.listToJson_inj no no' hFinite.2.2 hFinite'.2.2 h.2.2]
      | _ => exact absurd h (Stmt.toJson_ne (by simp [Stmt.kindName]))
  | .function name params body, s', hFinite, hFinite', h => by
      cases s' with
      | function name' params' body' =>
          simp only [Stmt.toJson, Json.node_inj, Json.obj.injEq,
            List.cons.injEq, Prod.mk.injEq, Json.str.injEq,
            Json.arr.injEq,
            true_and, and_true] at h
          have hParams : params = params' :=
            List.map_injective_iff.mpr (fun _ _ => Json.str.inj) h.2.1
          rw [h.1, hParams,
            Stmt.listToJson_inj body body' hFinite hFinite' h.2.2]
      | _ => exact absurd h (Stmt.toJson_ne (by simp [Stmt.kindName]))
  | .ret none, s', _, _, h => by
      cases s' with
      | ret value =>
          cases value with
          | none => rfl
          | some e' =>
              rcases Dump.toJson_eq_obj e' with ⟨ms, hObject⟩
              simp [Stmt.toJson, hObject] at h
      | _ => exact absurd h (Stmt.toJson_ne (by simp [Stmt.kindName]))
  | .ret (some e), s', hFinite, hFinite', h => by
      cases s' with
      | ret value =>
          cases value with
          | none =>
              rcases Dump.toJson_eq_obj e with ⟨ms, hObject⟩
              simp [Stmt.toJson, hObject] at h
          | some e' =>
              rw [Expr.toJson_inj e e' hFinite hFinite'
                (Json.node_inj.mp h).2]
      | _ => exact absurd h (Stmt.toJson_ne (by simp [Stmt.kindName]))
  | .expr e, s', hFinite, hFinite', h => by
      cases s' with
      | expr e' =>
          rw [Expr.toJson_inj e e' hFinite hFinite'
            (Json.node_inj.mp h).2]
      | _ => exact absurd h (Stmt.toJson_ne (by simp [Stmt.kindName]))

theorem Stmt.listToJson_inj :
    (ss ss' : List Stmt) →
      AllFinite (Stmt.listFloats ss) → AllFinite (Stmt.listFloats ss') →
      Stmt.listToJson ss = Stmt.listToJson ss' → ss = ss'
  | [], ss', _, _, h => by
      cases ss' with
      | nil => rfl
      | cons s' ss' => cases h
  | s :: ss, ss', hFinite, hFinite', h => by
      cases ss' with
      | nil => cases h
      | cons s' ss' =>
          rw [Stmt.listFloats, AllFinite, List.forall_mem_append]
            at hFinite hFinite'
          rcases List.cons.inj h with ⟨hFirst, hOthers⟩
          rw [Stmt.toJson_inj s s' hFinite.1 hFinite'.1 hFirst,
            Stmt.listToJson_inj ss ss' hFinite.2 hFinite'.2 hOthers]

end

------------------------------------------------------------
-- Writing and reading programs
------------------------------------------------------------

/-
  A program that can be dumped: its numbers are finite, and
  its text has fewer than 128 arrays and objects inside one
  another.
-/
structure Block.Dumpable
    (b : Block) : Prop where
  finite : AllFinite b.floats
  nesting_lt : b.toJson.nesting < 128

instance : DecidablePred Block.Dumpable :=
  fun b =>
    decidable_of_iff
      (AllFinite b.floats ∧ b.toJson.nesting < 128)
      ⟨fun h => ⟨h.1, h.2⟩, fun h => ⟨h.finite, h.nesting_lt⟩⟩

/- What is read from a text of a program, however it has its blanks. -/
theorem Dump.read?_of_json
    {b : Block}
    {text : String}
    (hDump : b.Dumpable)
    (hReader : ∀ x ∈ b.floats, Dump.ReadsBack x)
    (hText : Json.read? text = some b.toJson) :
    Dump.read? text = some b := by
  have hFaithful : ∀ x ∈ b.floats, Dump.Faithful x :=
    fun x hx => ⟨hDump.finite x hx, hReader x hx⟩
  have hRoom : b.toJson.nesting ≤ Dump.maxNesting :=
    Nat.le_of_lt_succ hDump.nesting_lt
  have hBlock : Dump.block? Dump.maxNesting .text b.toJson = some b :=
    Dump.block?_listToJson Dump.maxNesting
      (fun inner => Dump.mapM_stmt?_listToJson inner b hFaithful) hRoom
  unfold Dump.read?
  rw [hText]
  exact hBlock

/- No two programs with finite numbers are written as the same value. -/
theorem Block.toJson_inj
    {b b' : Block}
    (hFinite : AllFinite b.floats)
    (hFinite' : AllFinite b'.floats)
    (h : b.toJson = b'.toJson) :
    b = b' :=
  Stmt.listToJson_inj b b' hFinite hFinite' (Json.arr.inj h)

/-
  A program whose numbers are read back is read back from its
  text, on one line and over several lines. No other program
  with finite numbers has the same text, whether its numbers
  are read back or not.
-/
theorem dump_reads_back
    {b : Block}
    (hDump : b.Dumpable) :
    ((∀ x ∈ b.floats, Dump.ReadsBack x) →
      Dump.read? b.toJson.compact = some b ∧
        Dump.read? b.toJson.pretty = some b) ∧
    ∀ b' : Block, AllFinite b'.floats →
      b'.toJson.compact = b.toJson.compact ∨
        b'.toJson.pretty = b.toJson.pretty →
      b' = b := by
  have hCompact :
      ∀ b : Block, Json.read? b.toJson.compact = some b.toJson :=
    fun b => Json.read?_compact b.legible_toJson
  have hPretty :
      ∀ b : Block, Json.read? b.toJson.pretty = some b.toJson :=
    fun b => Json.read?_pretty b.legible_toJson
  constructor
  · intro hReader
    exact ⟨Dump.read?_of_json hDump hReader (hCompact b),
      Dump.read?_of_json hDump hReader (hPretty b)⟩
  · intro b' hFinite' hSame
    apply Block.toJson_inj hFinite' hDump.finite
    apply Option.some.inj
    rcases hSame with hSame | hSame
    · rw [← hCompact b', hSame, hCompact b]
    · rw [← hPretty b', hSame, hPretty b]

/-
  A program with an `if` that has no `else`, a `return` without
  value, the least integer, a negative zero, and quotes and
  control characters in a text.
-/
theorem bare_return_reads_back :
    Dump.read?
        (Block.toJson
          [.branch (.binary .le (.int Int64.minValue) (.float (-0.0)))
              [.ret none] none,
            .function "f" ["x"]
              [.branch .nil [] (some [.ret (some (.var "x"))])],
            .expr (.call "f" [.str "\"\x01\\é", .bool true,
              .unary .neg (.float 1.5e300)])]).compact =
      some
        [.branch (.binary .le (.int Int64.minValue) (.float (-0.0)))
            [.ret none] none,
          .function "f" ["x"]
            [.branch .nil [] (some [.ret (some (.var "x"))])],
          .expr (.call "f" [.str "\"\x01\\é", .bool true,
            .unary .neg (.float 1.5e300)])] :=
  ((dump_reads_back (by decide +kernel)).1 (by decide +kernel)).1

end DynScript
