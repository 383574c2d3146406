import DynScript.Json.Reader
import DynScript.Syntax.Basic
import DynScript.Value.Range

/-
  This file relates syntax trees to JSON. A node is an object
  with its kind under `type` and its parts under `value`.
  Reading is generous: the two members may come in any order,
  other members are ignored, and the pair may also be an array.

  Key definitions include:
    * `Expr.toJson`
    * `Stmt.toJson`
    * `Block.toJson`
    * `Dump.Origin`
    * `Dump.tagged?`
    * `Dump.expr?`
    * `Dump.stmt?`
    * `Dump.block?`
    * `Dump.read?`
-/

namespace DynScript

------------------------------------------------------------
-- Writing
------------------------------------------------------------

/- The name of an operator with one operand. -/
def UnaryOp.name : UnaryOp → String
  | .neg => "Neg"
  | .not => "Not"

/- The name of an operator with two operands. -/
def BinaryOp.name : BinaryOp → String
  | .add => "Add"
  | .sub => "Sub"
  | .mul => "Mul"
  | .div => "Div"
  | .mod => "Mod"
  | .eq => "Eq"
  | .ne => "Ne"
  | .lt => "Lt"
  | .le => "Le"
  | .gt => "Gt"
  | .ge => "Ge"
  | .and => "And"
  | .or => "Or"

/- A node with its kind and its parts. -/
def Json.node
    (kind : String)
    (value : Json) : Json :=
  .obj [("type", .str kind), ("value", value)]

mutual

/- An expression as JSON. -/
def Expr.toJson : Expr → Json
  | .int i => .node "Int" (.ofInt i.toInt)
  | .float x => .node "Float" (.ofFloat x)
  | .str s => .node "Str" (.str s)
  | .bool b => .node "Bool" (.bool b)
  | .nil => .obj [("type", .str "Nil")]
  | .var name => .node "Var" (.str name)
  | .unary op e =>
    .node "Unary" (.obj [("op", .str op.name), ("expr", e.toJson)])
  | .binary op l r =>
    .node "Binary"
      (.obj [("op", .str op.name), ("lhs", l.toJson), ("rhs", r.toJson)])
  | .call name args =>
    .node "Call"
      (.obj [("name", .str name), ("args", .arr (Expr.listToJson args))])

/- Expressions as JSON. -/
def Expr.listToJson : List Expr → List Json
  | [] => []
  | e :: es => e.toJson :: Expr.listToJson es

end

mutual

/- A statement as JSON. -/
def Stmt.toJson : Stmt → Json
  | .assign name e =>
    .node "Assignment" (.obj [("name", .str name), ("value", e.toJson)])
  | .branch test yes none =>
    .node "If"
      (.obj [("cond", test.toJson), ("then", .arr (Stmt.listToJson yes)),
        ("else", .null)])
  | .branch test yes (some no) =>
    .node "If"
      (.obj [("cond", test.toJson), ("then", .arr (Stmt.listToJson yes)),
        ("else", .arr (Stmt.listToJson no))])
  | .function name params body =>
    .node "Function"
      (.obj [("name", .str name), ("params", .arr (params.map .str)),
        ("body", .arr (Stmt.listToJson body))])
  | .ret none => .node "Return" .null
  | .ret (some e) => .node "Return" e.toJson
  | .expr e => .node "Expr" e.toJson

/- Statements as JSON. -/
def Stmt.listToJson : List Stmt → List Json
  | [] => []
  | s :: ss => s.toJson :: Stmt.listToJson ss

end

/- A program as JSON. -/
def Block.toJson
    (b : Block) : Json :=
  .arr (Stmt.listToJson b)

namespace Dump

------------------------------------------------------------
-- Nodes
------------------------------------------------------------

/-
  How many arrays and objects may be inside one another in the
  parts of a text that are looked at.
-/
def maxNesting : Nat :=
  127

/- The value of a number. -/
def number?
    (literal : String) : Option Json.Number := do
  let (n, _) ← Json.Numeral.split? literal.toList
  n.value?

mutual

/- Whether a value can be kept for later: all of it denotes something. -/
def keepable : (room : Nat) → Json → Bool
  | _, .null => true
  | _, .bool _ => true
  | _, .num literal => (number? literal).isSome
  | _, .str _ => true
  | room, .arr es => 0 < room && allKeepable (room - 1) es
  | room, .obj ms => 0 < room && membersKeepable (room - 1) ms
  | _, .broken => false

/- Whether all elements can be kept. -/
def allKeepable : (room : Nat) → List Json → Bool
  | _, [] => true
  | room, e :: es => keepable room e && allKeepable room es

/- Whether the values of all members can be kept. -/
def membersKeepable : (room : Nat) → List (String × Json) → Bool
  | _, [] => true
  | room, (_, v) :: ms => keepable room v && membersKeepable room ms

end

/- The only member with a name; none or one of them, not more. -/
def member?
    (name : String)
    (members : List (String × Json)) : Option (Option Json) :=
  match members.filter (·.1 == name) with
  | [] => some none
  | [(_, v)] => some (some v)
  | _ => none

/- A member that must be there once. -/
def required?
    (name : String)
    (members : List (String × Json)) : Option Json := do
  let v? ← member? name members
  v?

/-
  Where a value is read from: the text itself, or what was
  kept of it because the kind of its node came later.
-/
inductive Origin where
  | text
  | kept
deriving DecidableEq

/-
  A name from a fixed set: a string, or an object with it and
  null. In what was kept, an empty object does for null.
-/
def choice?
    (origin : Origin)
    (room : Nat) : Json → Option String
  | .str s => some s
  | .obj [(s, .null)] => if 0 < room then some s else none
  | .obj [(s, .obj [])] => if origin = .kept then some s else none
  | _ => none

/-
  The kind of a node that is an array: its name. In what was
  kept, its number among all kinds will do.
-/
def kind?
    (origin : Origin)
    (kinds : List String) : Json → Option String
  | .str s => some s
  | .num literal =>
    match origin, number? literal with
    | .kept, some (.whole (.ofNat n)) => kinds[n]?
    | _, _ => none
  | _ => none

/-
  The kind of a node and its parts, which may be missing, and
  where the parts are read from. Parts that come before the
  kind are kept until it is known.
-/
def tagged?
    (origin : Origin)
    (kinds : List String)
    (room : Nat) : Json → Option (String × Option Json × Origin)
  | .obj members => do
    let tag ← required? "type" members
    let kind ← choice? origin room tag
    let content ← member? "value" members
    match content with
    | none => return (kind, none, origin)
    | some v =>
      let first :=
        (members.map Prod.fst).find? fun k => k == "type" || k == "value"
      if first != some "value" then return (kind, some v, origin)
      else if keepable room v then return (kind, some v, .kept)
      else none
  | .arr [tag, content] => do
    let kind ← kind? origin kinds tag
    return (kind, some content, origin)
  | _ => none

------------------------------------------------------------
-- Reading
------------------------------------------------------------

/- A string. -/
def string? : Json → Option String
  | .str s => some s
  | _ => none

/- An integer of 64 bits. -/
def int? : Json → Option Int64
  | .num literal =>
    match number? literal with
    | some (.whole n) => if fits n then some (.ofInt n) else none
    | _ => none
  | _ => none

/- A floating point number, which may be written as an integer. -/
def float? : Json → Option Float
  | .num literal =>
    match number? literal with
    | some (.whole (.ofNat n)) => some (UInt64.ofNat n).toFloat
    | some (.whole n) => some (Int64.ofInt n).toFloat
    | some (.real x) => some x
    | none => none
  | _ => none

/- The operator with one operand that has a name. -/
def unaryOp? : String → Option UnaryOp
  | "Neg" => some .neg
  | "Not" => some .not
  | _ => none

/- The operator with two operands that has a name. -/
def binaryOp? : String → Option BinaryOp
  | "Add" => some .add
  | "Sub" => some .sub
  | "Mul" => some .mul
  | "Div" => some .div
  | "Mod" => some .mod
  | "Eq" => some .eq
  | "Ne" => some .ne
  | "Lt" => some .lt
  | "Le" => some .le
  | "Gt" => some .gt
  | "Ge" => some .ge
  | "And" => some .and
  | "Or" => some .or
  | _ => none

/- The strings of an array. -/
def strings?
    (room : Nat) : Json → Option (List String)
  | .arr es => if 0 < room then es.mapM string? else none
  | _ => none

/- The kinds of expressions, in order. -/
def exprKinds : List String :=
  ["Int", "Float", "Str", "Bool", "Nil", "Var", "Unary", "Binary", "Call"]

/- The kinds of statements, in order. -/
def stmtKinds : List String :=
  ["Assignment", "If", "Function", "Return", "Expr"]

mutual

/-
  An expression, with room for so many arrays and objects
  inside one another.
-/
def expr? : (room : Nat) → Origin → Json → Option Expr
  | 0, _, _ => none
  | room + 1, origin, j => do
    let (kind, content, origin) ← tagged? origin exprKinds room j
    match kind, content with
    | "Int", some c => return .int (← int? c)
    | "Float", some c => return .float (← float? c)
    | "Str", some c => return .str (← string? c)
    | "Bool", some (.bool b) => return .bool b
    | "Nil", none => return .nil
    | "Nil", some .null => return .nil
    | "Var", some c => return .var (← string? c)
    | kind, some (.obj members) => operation? room origin kind members
    | _, _ => none

/- An expression with operands, from the members of its parts. -/
def operation? :
    (room : Nat) → Origin → (kind : String) →
      List (String × Json) → Option Expr
  | 0, _, _, _ => none
  | room + 1, origin, "Unary", members => do
    let op ← unaryOp? (← choice? origin room (← required? "op" members))
    let e ← expr? room origin (← required? "expr" members)
    return .unary op e
  | room + 1, origin, "Binary", members => do
    let op ← binaryOp? (← choice? origin room (← required? "op" members))
    let l ← expr? room origin (← required? "lhs" members)
    let r ← expr? room origin (← required? "rhs" members)
    return .binary op l r
  | room + 1, origin, "Call", members => do
    let name ← string? (← required? "name" members)
    match room, ← required? "args" members with
    | inner + 1, .arr es =>
      return .call name (← es.mapM (expr? inner origin))
    | _, _ => none
  | _, _, _, _ => none

end

mutual

/-
  A statement, with room for so many arrays and objects inside
  one another.
-/
def stmt? : (room : Nat) → Origin → Json → Option Stmt
  | 0, _, _ => none
  | room + 1, origin, j => do
    let (kind, content, origin) ← tagged? origin stmtKinds room j
    match kind, content with
    | "Return", none => return .ret none
    | "Return", some .null => return .ret none
    | "Return", some c => return .ret (some (← expr? room origin c))
    | "Expr", some c => return .expr (← expr? room origin c)
    | kind, some (.obj members) => compound? room origin kind members
    | _, _ => none

/- A statement with parts, from their members. -/
def compound? :
    (room : Nat) → Origin → (kind : String) →
      List (String × Json) → Option Stmt
  | 0, _, _, _ => none
  | room + 1, origin, "Assignment", members => do
    let name ← string? (← required? "name" members)
    let e ← expr? room origin (← required? "value" members)
    return .assign name e
  | room + 1, origin, "If", members => do
    let test ← expr? room origin (← required? "cond" members)
    let yes ← block? room origin (← required? "then" members)
    match ← member? "else" members with
    | none => return .branch test yes none
    | some .null => return .branch test yes none
    | some c => return .branch test yes (some (← block? room origin c))
  | room + 1, origin, "Function", members => do
    let name ← string? (← required? "name" members)
    let params ← strings? room (← required? "params" members)
    let body ← block? room origin (← required? "body" members)
    return .function name params body
  | _, _, _, _ => none

/- Statements in an array. -/
def block? : (room : Nat) → Origin → Json → Option Block
  | room + 1, origin, .arr es => es.mapM (stmt? room origin)
  | _, _, _ => none

end

/- The program written by a JSON text. -/
def read?
    (text : String) : Option Block := do
  let j ← Json.read? text
  block? maxNesting .text j

end Dump

end DynScript
