import StagedFlow.Report.Location

/-!
Rules that a program breaks and that keep it from being converted. Main definitions: `Violation`,
`Violation.text`, `Violation.textOf`.
-/
set_option autoImplicit false

namespace StagedFlow

inductive ViolationKind
  | uninitialized (name reason : String)
  | unrepresentable (name typeName : String)
  | wrongType (name initial inside : String)
  | branchTypes (name : String) (types : List String)
  | iteration (reason : String)
  | statement (word : String)
  deriving Repr, DecidableEq

namespace ViolationKind

/-- The variable that a violation is about. -/
def about? : ViolationKind → Option String
  | uninitialized name _ => some name
  | unrepresentable name _ => some name
  | wrongType name _ _ => some name
  | branchTypes name _ => some name
  | iteration _ => none
  | statement _ => none

def text : ViolationKind → String
  | uninitialized name reason => s!"'{name}' is potentially uninitialized: {reason}"
  | unrepresentable name typeName =>
    s!"'{name}' was initialized with an unrepresentable type ({typeName}); carried values must " ++
      "be numeric scalars, booleans or fixed-shape arrays"
  | wrongType name initial inside =>
    s!"'{name}' was initialized with the wrong type ({initial}) for the values it takes inside " ++
      s!"the block ({inside})"
  | branchTypes name types =>
    s!"'{name}' is produced with different types by different branches ({Text.commaList types})"
  | iteration reason => s!"Could not convert the iteration target: {reason}"
  | statement word => s!"'{word}' is not supported inside a converted block"

def toJson : ViolationKind → Json
  | uninitialized name reason =>
    .tagged "Uninitialized" (.obj [("name", .str name), ("reason", .str reason)])
  | unrepresentable name typeName =>
    .tagged "UnrepresentableType" (.obj [("name", .str name), ("type_name", .str typeName)])
  | wrongType name initial inside =>
    .tagged "WrongType"
      (.obj [("name", .str name), ("initial", .str initial), ("inside", .str inside)])
  | branchTypes name types =>
    .tagged "BranchTypeMismatch" (.obj [("name", .str name), ("types", .ofStrings types)])
  | iteration reason => .tagged "UnconvertibleIteration" (.obj [("reason", .str reason)])
  | statement word => .tagged "UnsupportedStatement" (.obj [("statement", .str word)])

def ofJson? (j : Json) : Option ViolationKind :=
  match j.variant? with
  | some (tag, some content) => do
    let fields ← content.fields?
    let text := fun name => Json.get? fields name Json.str?
    match tag with
    | "Uninitialized" => return uninitialized (← text "name") (← text "reason")
    | "UnrepresentableType" => return unrepresentable (← text "name") (← text "type_name")
    | "WrongType" => return wrongType (← text "name") (← text "initial") (← text "inside")
    | "BranchTypeMismatch" =>
      return branchTypes (← text "name") (← Json.get? fields "types" (Json.list? Json.str?))
    | "UnconvertibleIteration" => return iteration (← text "reason")
    | "UnsupportedStatement" => return statement (← text "statement")
    | _ => none
  | _ => none

end ViolationKind

/-- A violation in a block. -/
structure Violation where
  kind : ViolationKind
  block : BlockKind
  location : Location
  deriving Repr, DecidableEq

namespace Violation

def text (v : Violation) : String :=
  s!"AutoGraphError: {v.kind.text} (in {v.block.text})\n{v.location.text}"

/-- Several violations, one below the other. -/
def textOf (vs : List Violation) : String :=
  String.intercalate "\n" (vs.map text)

/-- Whether some violation is about a variable. -/
def mentions (vs : List Violation) (name : String) : Bool :=
  vs.any fun v => v.kind.about? = some name

def toJson (v : Violation) : Json :=
  .obj
    [("kind", v.kind.toJson), ("block", v.block.toJson), ("location", v.location.toJson)]

def ofJson? (j : Json) : Option Violation := do
  let fields ← j.fields?
  return ⟨← Json.get? fields "kind" ViolationKind.ofJson?,
    ← Json.get? fields "block" BlockKind.ofJson?, ← Json.get? fields "location" Location.ofJson?⟩

end Violation

end StagedFlow
