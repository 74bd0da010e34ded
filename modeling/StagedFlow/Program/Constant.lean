import StagedFlow.Op.Arithmetic
import StagedFlow.Program.Syntax
import StagedFlow.Value.Counting

/-!
What can be said of an expression without running the program. Main definitions:
`Expr.constantTruth?`, `Expr.isConstant`, `Expr.constantValue?`, `Expr.uses`.
-/
set_option autoImplicit false

namespace StagedFlow.Expr

/-- The truth of a predicate that is written out. -/
def constantTruth? : Expr → Option Bool
  | literal (.bool b) => some b
  | literal .none => some false
  | not operand => operand.constantTruth?.map (!·)
  | _ => none

mutual

/-- Whether an expression is made of literals only. -/
def isConstant : Expr → Bool
  | literal _ => true
  | neg operand => operand.isConstant
  | list items => allConstant items
  | tuple items => allConstant items
  | dict entries => allConstantEntries entries
  | _ => false

def allConstant : List Expr → Bool
  | [] => true
  | e :: rest => e.isConstant && allConstant rest

def allConstantEntries : List (Expr × Expr) → Bool
  | [] => true
  | (k, v) :: rest => k.isConstant && v.isConstant && allConstantEntries rest

end

/-- The number with the other sign; the smallest integer has none. -/
def negated? : Value → Search Value
  | .int n => (Search.ofOutcome (checkedInt64 (-n.toInt))).map .int
  | .float x => .ok (.float (-x))
  | _ => .missing

/-- The range with the given bounds. -/
def rangeOf? : List Int64 → Search Value
  | [stop] => .ok (.range (.int 0) (.int stop) (.int 1))
  | [start, stop] => .ok (.range (.int start) (.int stop) (.int 1))
  | [start, stop, step] => .ok (.range (.int start) (.int stop) (.int step))
  | _ => .missing

mutual

/-- The value of an expression made of literals and ranges. -/
def constantValue? : Expr → Search Value
  | literal l => .ok l.value
  | neg operand => do negated? (← operand.constantValue?)
  | list items => do return .list (← constantValues? items)
  | tuple items => do return .tuple (← constantValues? items)
  | dict entries => do return .dict (← constantEntries? entries)
  | call .range args => do rangeOf? (← constantBounds? args)
  | _ => .missing

def constantValues? : List Expr → Search (List Value)
  | [] => .ok []
  | e :: rest => do
    let v ← e.constantValue?
    return v :: (← constantValues? rest)

def constantEntries? : List (Expr × Expr) → Search (List (Value × Value))
  | [] => .ok []
  | (k, v) :: rest => do
    let key ← k.constantValue?
    let value ← v.constantValue?
    return (key, value) :: (← constantEntries? rest)

/-- The bounds of a range, each of which has to be an integer before the next is looked at. -/
def constantBounds? : List Expr → Search (List Int64)
  | [] => .ok []
  | e :: rest => do
    let n ← .ofOption (← e.constantValue?).toInt?
    return n :: (← constantBounds? rest)

end

mutual

/-- The variables that an expression reads, from left to right. -/
def uses : Expr → List String
  | literal _ => []
  | var name => [name]
  | binary _ left right => left.uses ++ right.uses
  | neg operand => operand.uses
  | and left right => left.uses ++ right.uses
  | or left right => left.uses ++ right.uses
  | not operand => operand.uses
  | list items => usesOf items
  | tuple items => usesOf items
  | dict entries => usesOfEntries entries
  | index base i => base.uses ++ i.uses
  | call _ args => usesOf args

def usesOf : List Expr → List String
  | [] => []
  | e :: rest => e.uses ++ usesOf rest

def usesOfEntries : List (Expr × Expr) → List String
  | [] => []
  | (k, v) :: rest => k.uses ++ v.uses ++ usesOfEntries rest

end

end StagedFlow.Expr
