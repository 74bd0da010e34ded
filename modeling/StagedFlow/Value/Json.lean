import StagedFlow.Json.Basic
import StagedFlow.Value.Basic

/-!
The JSON form of values. A float is written as the sixteen hexadecimal digits of its bits, so that
nothing is lost; all that are not a number are one. Main definitions: `Json.ofBits`,
`Json.floatOfBits?`, `Value.toJson`.
-/
set_option autoImplicit false

namespace StagedFlow

namespace Json

/-- The bits of a float as a text. -/
def bitsText (x : Float) : String :=
  if x.isNaN then "nan"
  else
    let digits := Text.hexDigits x.toBits.toNat
    String.ofList (List.replicate (16 - digits.length) '0' ++ digits)

def ofBits (x : Float) : Json :=
  str (bitsText x)

def hexDigit? (c : Char) : Option Nat :=
  if c.isDigit then some (c.toNat - '0'.toNat)
  else if 'a' ≤ c ∧ c ≤ 'f' then some (c.toNat - 'a'.toNat + 10)
  else none

/-- The float with the given bits. -/
def floatOfBits? (s : String) : Option Float :=
  if s = "nan" then some (0.0 / 0.0)
  else do
    let digits ← s.toList.mapM hexDigit?
    return Float.ofBits (UInt64.ofNat (digits.foldl (fun n d => n * 16 + d) 0))

mutual

/-- A value with its floats written as bits. -/
def withBits : Json → Json
  | float x => obj [("float", ofBits x)]
  | arr items => arr (withBitsAll items)
  | obj fields => obj (withBitsFields fields)
  | j => j

def withBitsAll : List Json → List Json
  | [] => []
  | j :: rest => j.withBits :: withBitsAll rest

def withBitsFields : List (String × Json) → List (String × Json)
  | [] => []
  | (name, j) :: rest => (name, j.withBits) :: withBitsFields rest

end

end Json

namespace ArrayType

def fields (t : ArrayType) : List (String × Json) :=
  [("dtype", .str t.elem.text), ("shape", .arr (t.shape.map .ofNat))]

def toJson (t : ArrayType) : Json :=
  .obj t.fields

end ArrayType

def Cells.toJson : Cells → Json
  | bools xs => .arr (xs.map .bool)
  | ints xs => .arr (xs.map fun n => .int n.toInt)
  | floats xs => .arr (xs.map .ofBits)

def NDArray.toJson (a : NDArray) : Json :=
  .obj (a.type.fields ++ [("data", a.cells.toJson)])

def Scalar.toJson : Scalar → Json
  | bool b => .obj [("bool", .bool b)]
  | int n => .obj [("int", .int n.toInt)]
  | float x => .obj [("float", .ofBits x)]

namespace Value

mutual

def toJson : Value → Json
  | scalar s => s.toJson
  | none => .str "none"
  | str s => .obj [("str", .str s)]
  | list items => .obj [("list", .arr (toJsons items))]
  | tuple items => .obj [("tuple", .arr (toJsons items))]
  | dict entries => .obj [("dict", .arr (entryJsons entries))]
  | range start stop step => .obj [("range", .arr [start.toJson, stop.toJson, step.toJson])]
  | enumerate inner start => .obj [("enumerate", .arr [inner.toJson, .int start.toInt])]
  | array a => .obj [("array", a.toJson)]
  | traced id type => .obj [("traced", .obj (("id", .ofNat id) :: type.fields))]

def toJsons : List Value → List Json
  | [] => []
  | v :: rest => v.toJson :: toJsons rest

def entryJsons : List (Value × Value) → List Json
  | [] => []
  | (k, v) :: rest => .arr [k.toJson, v.toJson] :: entryJsons rest

end

end Value

end StagedFlow
