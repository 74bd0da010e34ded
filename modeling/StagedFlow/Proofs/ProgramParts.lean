import StagedFlow.Flow.Folding

/-!
What occurs in a program: literals in expressions, and expressions and spans in statements, nested
blocks included. Main definitions: `Expr.literals`, `Stmt.exprs`, `Stmt.spans`,
`FunctionDef.exprs`, `FunctionDef.names`, `FunctionDef.spans`.
-/
set_option autoImplicit false

namespace StagedFlow

def Literal.isFloat : Literal → Bool
  | float _ => true
  | _ => false

namespace Expr

mutual

/-- The literals in an expression, from left to right. -/
def literals : Expr → List Literal
  | literal l => [l]
  | var _ => []
  | binary _ left right => left.literals ++ right.literals
  | neg operand => operand.literals
  | and left right => left.literals ++ right.literals
  | or left right => left.literals ++ right.literals
  | not operand => operand.literals
  | list items => literalsOf items
  | tuple items => literalsOf items
  | dict entries => literalsOfEntries entries
  | index base i => base.literals ++ i.literals
  | call _ args => literalsOf args

def literalsOf : List Expr → List Literal
  | [] => []
  | e :: rest => e.literals ++ literalsOf rest

def literalsOfEntries : List (Expr × Expr) → List Literal
  | [] => []
  | (k, v) :: rest => k.literals ++ v.literals ++ literalsOfEntries rest

end

def FloatFree (e : Expr) : Prop :=
  ∀ l ∈ e.literals, l.isFloat = false

instance : DecidablePred FloatFree := fun e =>
  inferInstanceAs (Decidable (∀ l ∈ e.literals, l.isFloat = false))

end Expr

def Action.exprs : Action → List Expr
  | assign _ value => [value]
  | update _ _ value => [value]
  | eval expr => [expr]
  | ret value => value.toList
  | _ => []

mutual

/-- The expressions in a statement. -/
def Stmt.exprs : Stmt → List Expr
  | .act action _ => action.exprs
  | .choose arms otherwise _ => armExprs arms ++ lastExprs otherwise
  | .forIn _ source body _ => source :: exprsIn body
  | .whileDo condition body _ => condition :: exprsIn body

def armExprs : List Arm → List Expr
  | [] => []
  | ⟨condition, body, _⟩ :: rest => condition :: (exprsIn body ++ armExprs rest)

def lastExprs : Option (List Stmt) → List Expr
  | none => []
  | some body => exprsIn body

def exprsIn : List Stmt → List Expr
  | [] => []
  | s :: rest => s.exprs ++ exprsIn rest

end

mutual

/-- The spans in a statement. -/
def Stmt.spans : Stmt → List Span
  | .act _ span => [span]
  | .choose arms otherwise span => span :: (armSpans arms ++ lastSpans otherwise)
  | .forIn _ _ body span => span :: spansIn body
  | .whileDo _ body span => span :: spansIn body

def armSpans : List Arm → List Span
  | [] => []
  | ⟨_, body, span⟩ :: rest => span :: (spansIn body ++ armSpans rest)

def lastSpans : Option (List Stmt) → List Span
  | none => []
  | some body => spansIn body

def spansIn : List Stmt → List Span
  | [] => []
  | s :: rest => s.spans ++ spansIn rest

end

namespace FunctionDef

def exprs (f : FunctionDef) : List Expr :=
  exprsIn f.body

/-- All names in a function: its own, those of its parameters, and those that it binds or reads. -/
def names (f : FunctionDef) : List String :=
  f.name :: (f.params.map Param.name ++ boundIn f.body ++ f.exprs.flatMap Expr.uses)

def spans (f : FunctionDef) : List Span :=
  f.span :: spansIn f.body

end FunctionDef

end StagedFlow
