import StagedFlow.Bindings
import StagedFlow.Json.Parser
import StagedFlow.Program.Source

/-!
The JSON form of functions. An alternative is an object with its name as the only field; in a
record, a field that may be missing counts as `null`, a span that is missing is unknown, and fields
that nobody asks for are skipped. Main definitions: `FunctionDef.toJson`, `FunctionDef.ofJson?`,
`FunctionDef.load?`.
-/
set_option autoImplicit false

namespace StagedFlow

namespace Json

mutual

/-- The number of levels of a value. -/
def height : Json → Nat
  | arr items => itemsHeight items + 1
  | obj fields => fieldsHeight fields + 1
  | _ => 1

def itemsHeight : List Json → Nat
  | [] => 0
  | j :: rest => max j.height (itemsHeight rest)

def fieldsHeight : List (String × Json) → Nat
  | [] => 0
  | (_, j) :: rest => max j.height (fieldsHeight rest)

end

/-- An alternative with content. -/
def tagged (name : String) (content : Json) : Json :=
  obj [(name, content)]

/-- A float; there is no number for one that is not finite. -/
def ofFloat (x : Float) : Json :=
  if x.isFinite then float x else null

/-- A field that has to be there. -/
def get? {α : Type} (fields : List (String × Json)) (name : String) (read : Json → Option α) :
    Option α := do
  required? read (← field? fields name)

/-- A field that may be missing or `null`. -/
def getOptional? {α : Type} (fields : List (String × Json)) (name : String)
    (read : Json → Option α) : Option (Option α) := do
  optional? read (← field? fields name)

/-- A field that has a default where it is missing. -/
def getOr? {α : Type} (fields : List (String × Json)) (name : String) (default : α)
    (read : Json → Option α) : Option α := do
  match ← field? fields name with
  | none => some default
  | some j => read j

end Json

/-- A name from a table. -/
def readName? {α : Type} (table : List (String × α)) (j : Json) : Option α :=
  j.bareVariant?.bind (Bindings.find? table)

/-! ## Spans and names -/

namespace Span

def toJson (s : Span) : Json :=
  .obj
    [("start", .ofNat s.start), ("end", .ofNat s.stop), ("start_line", .ofNat s.startLine),
      ("end_line", .ofNat s.endLine), ("start_column", .ofNat s.startColumn),
      ("end_column", .ofNat s.endColumn)]

def ofJson? (j : Json) : Option Span := do
  let fields ← j.fields?
  return ⟨← Json.get? fields "start" Json.nat?, ← Json.get? fields "end" Json.nat?,
    ← Json.get? fields "start_line" Json.nat?, ← Json.get? fields "end_line" Json.nat?,
    ← Json.get? fields "start_column" Json.nat?, ← Json.get? fields "end_column" Json.nat?⟩

/-- The span of a record. -/
def field? (fields : List (String × Json)) : Option Span :=
  Json.getOr? fields "span" .unknown ofJson?

end Span

def BinaryOp.tag : BinaryOp → String
  | add => "Add"
  | sub => "Sub"
  | mul => "Mul"
  | div => "Div"
  | floorDiv => "FloorDiv"
  | mod => "Mod"
  | pow => "Pow"
  | lt => "Lt"
  | gt => "Gt"
  | le => "Le"
  | ge => "Ge"
  | eq => "Eq"
  | ne => "Ne"

def BinaryOp.tags : List (String × BinaryOp) :=
  [.add, .sub, .mul, .div, .floorDiv, .mod, .pow, .lt, .gt, .le, .ge, .eq, .ne].map
    fun op => (op.tag, op)

def Builtin.tag : Builtin → String
  | range => "Range"
  | enumerate => "Enumerate"
  | len => "Len"
  | int => "Int"
  | float => "Float"
  | array => "Array"
  | kron => "Kron"
  | items => "Items"

def Builtin.tags : List (String × Builtin) :=
  [.range, .enumerate, .len, .int, .float, .array, .kron, .items].map fun b => (b.tag, b)

def ParamType.tag : ParamType → String
  | int => "Int"
  | float => "Float"
  | bool => "Bool"
  | array => "Array"
  | str => "Str"

def ParamType.tags : List (String × ParamType) :=
  [.int, .float, .bool, .array, .str].map fun t => (t.tag, t)

/-! ## Expressions -/

namespace Literal

def toJson : Literal → Json
  | int n => .tagged "Int" (.int n.toInt)
  | float x => .tagged "Float" (.ofFloat x)
  | bool b => .tagged "Bool" (.bool b)
  | str s => .tagged "Str" (.str s)
  | none => .str "None"

def ofJson? (j : Json) : Option Literal :=
  match j.variant? with
  | some ("Int", some content) => content.int64?.map int
  | some ("Float", some content) => content.float?.map float
  | some ("Bool", some content) => content.bool?.map bool
  | some ("Str", some content) => content.str?.map str
  | _ => if j.bareVariant? = some "None" then some none else Option.none

end Literal

namespace Expr

mutual

def toJson : Expr → Json
  | literal l => .tagged "Literal" l.toJson
  | var name => .tagged "Var" (.str name)
  | binary op left right =>
    .tagged "Binary" (.obj [("op", .str op.tag), ("lhs", left.toJson), ("rhs", right.toJson)])
  | neg operand => .tagged "Unary" (.obj [("op", .str "Neg"), ("operand", operand.toJson)])
  | and left right => .tagged "And" (.arr [left.toJson, right.toJson])
  | or left right => .tagged "Or" (.arr [left.toJson, right.toJson])
  | not operand => .tagged "Not" operand.toJson
  | list items => .tagged "List" (.arr (toJsons items))
  | tuple items => .tagged "Tuple" (.arr (toJsons items))
  | dict entries => .tagged "Dict" (.arr (entryJsons entries))
  | index base i => .tagged "Index" (.obj [("base", base.toJson), ("index", i.toJson)])
  | call function args =>
    .tagged "Call" (.obj [("func", .str function.tag), ("args", .arr (toJsons args))])

def toJsons : List Expr → List Json
  | [] => []
  | e :: rest => e.toJson :: toJsons rest

def entryJsons : List (Expr × Expr) → List Json
  | [] => []
  | (k, v) :: rest => .arr [k.toJson, v.toJson] :: entryJsons rest

end

/-- Two values of one form. -/
def pair? {α : Type} (read : Json → Option α) : Json → Option (α × α)
  | .arr [a, b] => do return (← read a, ← read b)
  | _ => none

/-- Read an expression of at most `n` levels. -/
def read? : Nat → Json → Option Expr
  | 0, _ => none
  | n + 1, j =>
    match j.variant? with
    | some ("Literal", some content) => (Literal.ofJson? content).map literal
    | some ("Var", some content) => content.str?.map var
    | some ("Binary", some content) => do
      let fields ← content.fields?
      return binary (← Json.get? fields "op" (readName? BinaryOp.tags))
        (← Json.get? fields "lhs" (read? n)) (← Json.get? fields "rhs" (read? n))
    | some ("Unary", some content) => do
      let fields ← content.fields?
      let () ← Json.get? fields "op" (readName? [("Neg", ())])
      return neg (← Json.get? fields "operand" (read? n))
    | some ("And", some content) => (pair? (read? n) content).map fun p => and p.1 p.2
    | some ("Or", some content) => (pair? (read? n) content).map fun p => or p.1 p.2
    | some ("Not", some content) => (read? n content).map not
    | some ("List", some content) => (content.list? (read? n)).map list
    | some ("Tuple", some content) => (content.list? (read? n)).map tuple
    | some ("Dict", some content) => (content.list? (pair? (read? n))).map dict
    | some ("Index", some content) => do
      let fields ← content.fields?
      return index (← Json.get? fields "base" (read? n)) (← Json.get? fields "index" (read? n))
    | some ("Call", some content) => do
      let fields ← content.fields?
      return call (← Json.get? fields "func" (readName? Builtin.tags))
        (← Json.get? fields "args" (Json.list? (read? n)))
    | _ => none

def ofJson? (j : Json) : Option Expr :=
  read? j.height j

end Expr

namespace Target

mutual

def toJson : Target → Json
  | name n => .tagged "Name" (.str n)
  | tuple items => .tagged "Tuple" (.arr (toJsons items))

def toJsons : List Target → List Json
  | [] => []
  | t :: rest => t.toJson :: toJsons rest

end

/-- Read a target of at most `n` levels. -/
def read? : Nat → Json → Option Target
  | 0, _ => none
  | n + 1, j =>
    match j.variant? with
    | some ("Name", some content) => content.str?.map name
    | some ("Tuple", some content) => (content.list? (read? n)).map tuple
    | _ => none

def ofJson? (j : Json) : Option Target :=
  read? j.height j

end Target

/-! ## Statements -/

/-- The JSON form of a body. -/
def bodyJson (stmts : List Json) : Json :=
  .obj [("stmts", .arr stmts)]

def Action.toJson (span : Json) : Action → Json
  | assign target value =>
    .tagged "Assign" (.obj [("target", target.toJson), ("value", value.toJson), ("span", span)])
  | update name op value =>
    .tagged "AugAssign"
      (.obj [("var", .str name), ("op", .str op.tag), ("value", value.toJson), ("span", span)])
  | eval expr => .tagged "Expr" (.obj [("expr", expr.toJson), ("span", span)])
  | ret value => .tagged "Return" (.obj [("value", .ofOption Expr.toJson value), ("span", span)])
  | raise message => .tagged "Raise" (.obj [("message", .str message), ("span", span)])
  | pass => .tagged "Pass" (.obj [("span", span)])

mutual

def Stmt.toJson : Stmt → Json
  | .act action span => action.toJson span.toJson
  | .choose arms otherwise span =>
    .tagged "If"
      (.obj [("branches", .arr (armJsons arms)),
        ("else_branch", match otherwise with
          | some body => bodyJson (stmtJsons body)
          | none => .null),
        ("span", span.toJson)])
  | .forIn target source body span =>
    .tagged "For"
      (.obj [("target", target.toJson), ("iter", source.toJson),
        ("body", bodyJson (stmtJsons body)), ("span", span.toJson)])
  | .whileDo condition body span =>
    .tagged "While"
      (.obj [("condition", condition.toJson), ("body", bodyJson (stmtJsons body)),
        ("span", span.toJson)])

def armJsons : List Arm → List Json
  | [] => []
  | ⟨condition, body, span⟩ :: rest =>
    .obj [("condition", condition.toJson), ("body", bodyJson (stmtJsons body)),
      ("span", span.toJson)] :: armJsons rest

def stmtJsons : List Stmt → List Json
  | [] => []
  | s :: rest => s.toJson :: stmtJsons rest

end

/-- Read a body, given a reader of statements. -/
def readBody? (read : Json → Option Stmt) (j : Json) : Option (List Stmt) := do
  Json.get? (← j.fields?) "stmts" (Json.list? read)

/-- Read an arm of a chain, given a reader of statements. -/
def readArm? (read : Json → Option Stmt) (j : Json) : Option Arm := do
  let fields ← j.fields?
  return ⟨← Json.get? fields "condition" Expr.ofJson?, ← Json.get? fields "body" (readBody? read),
    ← Span.field? fields⟩

/-- Read the action of a name from its fields. -/
def Action.read? (tag : String) (fields : List (String × Json)) : Option Action :=
  match tag with
  | "Assign" => do
    return assign (← Json.get? fields "target" Target.ofJson?)
      (← Json.get? fields "value" Expr.ofJson?)
  | "AugAssign" => do
    return update (← Json.get? fields "var" Json.str?)
      (← Json.get? fields "op" (readName? BinaryOp.tags)) (← Json.get? fields "value" Expr.ofJson?)
  | "Expr" => do return eval (← Json.get? fields "expr" Expr.ofJson?)
  | "Return" => do return ret (← Json.getOptional? fields "value" Expr.ofJson?)
  | "Raise" => do return raise (← Json.get? fields "message" Json.str?)
  | "Pass" => some pass
  | _ => none

namespace Stmt

/-- Read a statement of at most `n` levels. -/
def read? : Nat → Json → Option Stmt
  | 0, _ => none
  | n + 1, j =>
    match j.variant? with
    | some (tag, some content) => do
      let fields ← content.fields?
      let span ← Span.field? fields
      match tag with
      | "If" =>
        return choose (← Json.get? fields "branches" (Json.list? (readArm? (read? n))))
          (← Json.getOptional? fields "else_branch" (readBody? (read? n))) span
      | "For" =>
        return forIn (← Json.get? fields "target" Target.ofJson?)
          (← Json.get? fields "iter" Expr.ofJson?)
          (← Json.get? fields "body" (readBody? (read? n))) span
      | "While" =>
        return whileDo (← Json.get? fields "condition" Expr.ofJson?)
          (← Json.get? fields "body" (readBody? (read? n))) span
      | _ => return act (← Action.read? tag fields) span
    | _ => none

def ofJson? (j : Json) : Option Stmt :=
  read? j.height j

end Stmt

/-! ## Functions -/

namespace Param

def toJson (p : Param) : Json :=
  .obj [("name", .str p.name), ("annotation", .ofOption (fun t => .str t.tag) p.annotation)]

def ofJson? (j : Json) : Option Param := do
  let fields ← j.fields?
  return ⟨← Json.get? fields "name" Json.str?,
    ← Json.getOptional? fields "annotation" (readName? ParamType.tags)⟩

end Param

namespace FunctionDef

def toJson (f : FunctionDef) : Json :=
  .obj
    [("name", .str f.name), ("params", .arr (f.params.map Param.toJson)),
      ("body", bodyJson (stmtJsons f.body)), ("file", .ofOption .str f.file),
      ("source", .ofOption .str f.source), ("span", f.span.toJson)]

def ofJson? (j : Json) : Option FunctionDef := do
  let fields ← j.fields?
  return ⟨← Json.get? fields "name" Json.str?,
    ← Json.get? fields "params" (Json.list? Param.ofJson?),
    ← Json.get? fields "body" (readBody? Stmt.ofJson?),
    ← Json.getOptional? fields "file" Json.str?,
    ← Json.getOptional? fields "source" Json.str?,
    ← Span.field? fields⟩

/-- The function, with a source made for it if it brings none. -/
def settled (f : FunctionDef) : FunctionDef :=
  if f.source.isNone then f.withSource else f

/-- A function from its JSON form. -/
def load? (j : Json) : Option FunctionDef :=
  (ofJson? j).map settled

/-- A function from a JSON text. -/
def parse? (text : String) : Option FunctionDef :=
  (Json.read text).bind load?

end FunctionDef

end StagedFlow
