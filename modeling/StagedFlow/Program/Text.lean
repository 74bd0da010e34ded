import StagedFlow.Program.Syntax
import StagedFlow.Text.Decimal
import StagedFlow.Text.Basic

/-!
The text of expressions, targets, actions and the lines that open a block. Parentheses stand only
where the precedence of an operand asks for them. Main definitions: `Expr.precedence`,
`Expr.text`, `Target.text`, `Action.text`.
-/
set_option autoImplicit false

namespace StagedFlow

def Literal.text : Literal → String
  | int n => toString n.toInt
  | float x => Text.floatText x
  | bool b => if b then "True" else "False"
  | str s => Text.quote s
  | none => "None"

def BinaryOp.precedence : BinaryOp → Nat
  | add => 5
  | sub => 5
  | mul => 6
  | div => 6
  | floorDiv => 6
  | mod => 6
  | pow => 8
  | _ => 4

/-- The least precedence of the two operands: chains group to the left, and powers to the right. -/
def BinaryOp.operandPrecedence (op : BinaryOp) : Nat × Nat :=
  let p := op.precedence
  if op = .pow then (p + 1, p) else (p, p + 1)

namespace Expr

/-- How tightly an expression holds together; a negative number counts as a negation. -/
def precedence : Expr → Nat
  | or _ _ => 1
  | and _ _ => 2
  | not _ => 3
  | binary op _ _ => op.precedence
  | neg _ => 7
  | literal (.int n) => if n < 0 then 7 else 9
  | literal (.float x) => if x < 0.0 then 7 else 9
  | _ => 9

/-- The text of an operand, in parentheses unless it holds together tightly enough. -/
def guarded (least : Nat) (e : Expr) (text : String) : String :=
  if e.precedence < least then "(" ++ text ++ ")" else text

mutual

def text : Expr → String
  | literal l => l.text
  | var name => name
  | binary op left right =>
    let (p, q) := op.operandPrecedence
    guarded p left left.text ++ " " ++ op.symbol ++ " " ++ guarded q right right.text
  | neg operand => "-" ++ guarded 7 operand operand.text
  | and left right => guarded 2 left left.text ++ " and " ++ guarded 3 right right.text
  | or left right => guarded 1 left left.text ++ " or " ++ guarded 2 right right.text
  | not operand => "not " ++ guarded 3 operand operand.text
  | list items => "[" ++ Text.commaList (texts items) ++ "]"
  | tuple [item] => "(" ++ item.text ++ ",)"
  | tuple items => "(" ++ Text.commaList (texts items) ++ ")"
  | dict entries => "\x7b" ++ Text.commaList (entryTexts entries) ++ "\x7d"
  | index base i => guarded 9 base base.text ++ "[" ++ i.text ++ "]"
  | call .items [arg] => guarded 9 arg arg.text ++ ".items()"
  | call function args => function.name ++ "(" ++ Text.commaList (texts args) ++ ")"

def texts : List Expr → List String
  | [] => []
  | e :: rest => e.text :: texts rest

def entryTexts : List (Expr × Expr) → List String
  | [] => []
  | (k, v) :: rest => (k.text ++ ": " ++ v.text) :: entryTexts rest

end

end Expr

namespace Target

/-- Items one after the other; a single one keeps its comma. -/
def listText : List String → String
  | [item] => item ++ ","
  | items => Text.commaList items

mutual

/-- A target inside another one. -/
def innerText : Target → String
  | name n => n
  | tuple items => "(" ++ listText (innerTexts items) ++ ")"

def innerTexts : List Target → List String
  | [] => []
  | t :: rest => t.innerText :: innerTexts rest

end

def text : Target → String
  | name n => n
  | tuple items => listText (innerTexts items)

end Target

/-- The line that opens a counted loop. -/
def forHeader (target : Target) (source : Expr) : String :=
  s!"for {target.text} in {source.text}:"

def whileHeader (condition : Expr) : String :=
  s!"while {condition.text}:"

/-- The line that opens an arm of an `if` chain. -/
def Arm.header (first : Bool) (arm : Arm) : String :=
  (if first then "if " else "elif ") ++ arm.condition.text ++ ":"

def Action.text : Action → String
  | assign target value => target.text ++ " = " ++ value.text
  | update name op value => name ++ " " ++ op.symbol ++ "= " ++ value.text
  | eval expr => expr.text
  | ret (some value) => "return " ++ value.text
  | ret none => "return"
  | raise message => "raise RuntimeError(" ++ Text.quote message ++ ")"
  | pass => "pass"

def Param.text (p : Param) : String :=
  match p.annotation with
  | some type => p.name ++ ": " ++ type.text
  | none => p.name

/-- The line that opens a function. -/
def functionHeader (name : String) (params : List Param) : String :=
  s!"def {name}({Text.commaList (params.map Param.text)}):"

end StagedFlow
