import StagedFlow.Op.Basic
import StagedFlow.Program.Span
import StagedFlow.Value.Basic

/-!
The source language: functions with structured statements and expressions. Main definitions:
`Expr`, `Target`, `Action`, `Stmt`, `FunctionDef`.
-/
set_option autoImplicit false

namespace StagedFlow

inductive Literal
  | int (n : Int64)
  | float (x : Float)
  | bool (b : Bool)
  | str (s : String)
  | none
  deriving Inhabited

def Literal.value : Literal → Value
  | int n => .int n
  | float x => .float x
  | bool b => .bool b
  | str s => .str s
  | none => .none

/-- The functions that a program can call. -/
inductive Builtin
  | range
  | enumerate
  | len
  | int
  | float
  | array
  | kron
  | items
  deriving Repr, DecidableEq

namespace Builtin

def name : Builtin → String
  | range => "range"
  | enumerate => "enumerate"
  | len => "len"
  | int => "int"
  | float => "float"
  | array => "array"
  | kron => "kron"
  | items => "items"

/-- The numbers of arguments that a function takes. -/
def arities : Builtin → List Nat
  | range => [1, 2, 3]
  | enumerate => [1, 2]
  | kron => [2]
  | _ => [1]

end Builtin

inductive Expr
  | literal (l : Literal)
  | var (name : String)
  | binary (op : BinaryOp) (left right : Expr)
  | neg (operand : Expr)
  | and (left right : Expr)
  | or (left right : Expr)
  | not (operand : Expr)
  | list (items : List Expr)
  | tuple (items : List Expr)
  | dict (entries : List (Expr × Expr))
  | index (base index : Expr)
  | call (function : Builtin) (args : List Expr)
  deriving Inhabited

/-- What an assignment binds: a name, or the parts of a sequence. -/
inductive Target
  | name (n : String)
  | tuple (items : List Target)
  deriving Inhabited

namespace Target

mutual

/-- The names that a target binds, from left to right. -/
def names : Target → List String
  | name n => [n]
  | tuple items => namesOf items

def namesOf : List Target → List String
  | [] => []
  | t :: rest => t.names ++ namesOf rest

end

/-- The number of values that a target takes apart at the outermost level. -/
def arity : Target → Nat
  | name _ => 1
  | tuple items => items.length

end Target

/-- A statement without control flow: `update` is an assignment such as `x += 1`, and `eval` an
expression whose value is dropped. -/
inductive Action
  | assign (target : Target) (value : Expr)
  | update (name : String) (op : BinaryOp) (value : Expr)
  | eval (expr : Expr)
  | ret (value : Option Expr)
  | raise (message : String)
  | pass
  deriving Inhabited

mutual

/-- A statement: an action, an `if` chain or a loop. -/
inductive Stmt
  | act (action : Action) (span : Span)
  | choose (arms : List Arm) (otherwise : Option (List Stmt)) (span : Span)
  | forIn (target : Target) (source : Expr) (body : List Stmt) (span : Span)
  | whileDo (condition : Expr) (body : List Stmt) (span : Span)

/-- An `if` or `elif` with its body. -/
structure Arm where
  condition : Expr
  body : List Stmt
  span : Span

end

namespace Stmt

instance : Inhabited Stmt :=
  ⟨act .pass .unknown⟩

def span : Stmt → Span
  | act _ s => s
  | choose _ _ s => s
  | forIn _ _ _ s => s
  | whileDo _ _ s => s

/-- Whether a statement is a block of control flow. -/
def isControlFlow : Stmt → Bool
  | act .. => false
  | _ => true

end Stmt

/-- The type that a parameter is declared with. -/
inductive ParamType
  | int
  | float
  | bool
  | array
  | str
  deriving Repr, DecidableEq

def ParamType.text : ParamType → String
  | int => "int"
  | float => "float"
  | bool => "bool"
  | array => "array"
  | str => "str"

structure Param where
  name : String
  annotation : Option ParamType
  deriving Repr, DecidableEq, Inhabited

/-- A function. The spans in its body point into `source`. -/
structure FunctionDef where
  name : String
  params : List Param
  body : List Stmt
  file : Option String
  source : Option String
  span : Span
  deriving Inhabited

/-- A line of the source text; the first one has the number 1. -/
def FunctionDef.sourceLine? (f : FunctionDef) (line : Nat) : Option String :=
  if line = 0 then none else f.source.bind fun s => (Text.lines s)[line - 1]?

end StagedFlow
