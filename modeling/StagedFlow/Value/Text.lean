import StagedFlow.NDArray.Basic
import StagedFlow.Text.Basic

/-!
The text of values: `[1, 2.0]`, `(True,)`, `range(0, 3, 1)`, `array([[1, 2], [3, 4]])`,
`Traced<int64[]>%3`.
-/
set_option autoImplicit false

namespace StagedFlow

namespace NDArray

/-- The elements from a row-major position on, nested by axes. -/
def axisText? (a : NDArray) : List Nat → Nat → Option String
  | [], offset => a.scalars[offset]?.map Scalar.text
  | n :: inner, offset => do
    let items ← (List.range n).mapM fun k => axisText? a inner (offset + k * shapeSize inner)
    return "[" ++ Text.commaList items ++ "]"

def text (a : NDArray) : String :=
  "array(" ++ (a.axisText? a.shape 0).getD "" ++ ")"

end NDArray

namespace Value

/-- A tuple of one item keeps a comma. -/
def tupleText : List String → String
  | [item] => "(" ++ item ++ ",)"
  | items => "(" ++ Text.commaList items ++ ")"

mutual

def text : Value → String
  | scalar s => s.text
  | none => "None"
  | str s => Text.quote s
  | list items => "[" ++ Text.commaList (texts items) ++ "]"
  | tuple items => tupleText (texts items)
  | dict entries => "\x7b" ++ Text.commaList (entryTexts entries) ++ "\x7d"
  | range start stop step => s!"range({start.text}, {stop.text}, {step.text})"
  | enumerate inner start => s!"enumerate({inner.text}, start={start.toInt})"
  | array a => a.text
  | traced id type => s!"Traced<{type.text}>%{id}"

def texts : List Value → List String
  | [] => []
  | v :: vs => v.text :: texts vs

def entryTexts : List (Value × Value) → List String
  | [] => []
  | (k, v) :: rest => (k.text ++ ": " ++ v.text) :: entryTexts rest

end

end Value

end StagedFlow
