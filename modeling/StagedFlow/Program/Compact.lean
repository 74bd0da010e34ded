import StagedFlow.Program.Json
import StagedFlow.Value.Json

/-!
Programs in a compact JSON form: lists that begin with the name of a form, such as
`["assign", "x", ["add", ["var", "x"], ["int", 1]]]`. Nothing has a place in it, so functions read
from it get their source written. Main definitions: `Expr.ofCompact?`, `Stmt.ofCompact?`,
`FunctionDef.ofCompact?`.
-/
set_option autoImplicit false

namespace StagedFlow

namespace Expr

/-- Forms with two operands. -/
def binaryForms : List (String × (Expr → Expr → Expr)) :=
  [("add", binary .add), ("sub", binary .sub), ("mul", binary .mul), ("div", binary .div),
    ("lt", binary .lt), ("gt", binary .gt), ("ge", binary .ge), ("eq", binary .eq), ("and", and),
    ("or", or), ("index", index), ("kron", fun a b => call .kron [a, b]),
    ("range2", fun a b => call .range [a, b])]

/-- Forms with one operand. -/
def unaryForms : List (String × (Expr → Expr)) :=
  [("neg", neg), ("not", not), ("range", fun a => call .range [a]),
    ("enumerate", fun a => call .enumerate [a]), ("len", fun a => call .len [a]),
    ("array", fun a => call .array [a]), ("items", fun a => call .items [a])]

/-- Read an expression of at most `n` levels. -/
def readCompact? : Nat → Json → Option Expr
  | 0, _ => none
  | n + 1, .arr (.str form :: parts) =>
    match form, parts with
    | "int", [k] => k.int64?.map fun k => literal (.int k)
    | "float", [bits] => (bits.str?.bind Json.floatOfBits?).map fun x => literal (.float x)
    | "boolean", [b] => b.bool?.map fun b => literal (.bool b)
    | "string", [s] => s.str?.map fun s => literal (.str s)
    | "none", [] => some (literal .none)
    | "var", [name] => name.str?.map var
    | "binary", [op, a, b] => do
      return binary (← readName? BinaryOp.tags op) (← readCompact? n a) (← readCompact? n b)
    | "range3", parts => (parts.mapM (readCompact? n)).map (call .range)
    | "list", items => (items.mapM (readCompact? n)).map list
    | "tuple", items => (items.mapM (readCompact? n)).map tuple
    | "dict", [entries] => (entries.list? (pair? (readCompact? n))).map dict
    | "call", f :: args => do
      return call (← readName? Builtin.tags f) (← args.mapM (readCompact? n))
    | "enumerate_from", [e, k] => do
      return call .enumerate [← readCompact? n e, literal (.int (← k.int64?))]
    | form, [a, b] => do
      return (← Bindings.find? binaryForms form) (← readCompact? n a) (← readCompact? n b)
    | form, [a] => do return (← Bindings.find? unaryForms form) (← readCompact? n a)
    | _, _ => none
  | _ + 1, _ => none

def ofCompact? (j : Json) : Option Expr :=
  readCompact? j.height j

end Expr

namespace Target

/-- Read a target of at most `n` levels: a name, or a list of targets. -/
def readCompact? : Nat → Json → Option Target
  | 0, _ => none
  | _ + 1, .str n => some (name n)
  | n + 1, .arr items => (items.mapM (readCompact? n)).map tuple
  | _ + 1, _ => none

def ofCompact? (j : Json) : Option Target :=
  readCompact? j.height j

end Target

/-- An arm without a place, given a reader of statements. -/
def readCompactArm? (read : Json → Option Stmt) (condition body : Json) : Option Arm := do
  return ⟨← Expr.ofCompact? condition, ← body.list? read, .unknown⟩

namespace Action

def ofCompact? : String → List Json → Option Action
  | "assign", [t, e] => do return assign (← Target.ofCompact? t) (← Expr.ofCompact? e)
  | "aug", [name, op, e] => do
    return update (← name.str?) (← readName? BinaryOp.tags op) (← Expr.ofCompact? e)
  | "add_assign", [name, e] => do return update (← name.str?) .add (← Expr.ofCompact? e)
  | "expr", [e] => (Expr.ofCompact? e).map eval
  | "ret", [e] => (Expr.ofCompact? e).map fun e => ret (some e)
  | "raise", [text] => text.str?.map raise
  | "pass", [] => some pass
  | _, _ => none

end Action

namespace Stmt

/-- Read a statement of at most `n` levels. -/
def readCompact? : Nat → Json → Option Stmt
  | 0, _ => none
  | n + 1, .arr (.str form :: parts) =>
    let arm := readCompactArm? (readCompact? n)
    match form, parts with
    | "if", [e, body] => do return choose [← arm e body] none .unknown
    | "if_else", [e, body, last] => do
      return choose [← arm e body] (some (← last.list? (readCompact? n))) .unknown
    | "if_chain", [arms, last] => do
      let arms ← arms.list? fun
        | .arr [e, body] => arm e body
        | _ => none
      return choose arms (← Json.optional? (Json.list? (readCompact? n)) (some last)) .unknown
    | "for", [t, e, body] => do
      return forIn (← Target.ofCompact? t) (← Expr.ofCompact? e) (← body.list? (readCompact? n))
        .unknown
    | "while", [e, body] => do
      return whileDo (← Expr.ofCompact? e) (← body.list? (readCompact? n)) .unknown
    | form, parts => (Action.ofCompact? form parts).map fun a => act a .unknown
  | _ + 1, _ => none

def ofCompact? (j : Json) : Option Stmt :=
  readCompact? j.height j

end Stmt

/-- Read a parameter: its name, and its type or `null`. -/
def Param.ofCompact? : Json → Option Param
  | .arr [name, type] => do
    return ⟨← name.str?, ← Json.optional? (readName? ParamType.tags) (some type)⟩
  | _ => none

/-- Read a function from its name, its parameters and its body. -/
def FunctionDef.ofCompact? (name params body : Json) : Option FunctionDef := do
  return .make (← name.str?) (← params.list? Param.ofCompact?) (← body.list? Stmt.ofCompact?)

end StagedFlow
