import StagedFlow.Program.Json

/-!
Places in source files, as reports name them. Main definitions: `BlockKind`, `Location`,
`Location.text`.
-/
set_option autoImplicit false

namespace StagedFlow

/-- The kinds of control-flow blocks. -/
inductive BlockKind
  | conditional
  | countedLoop
  | conditionalLoop
  deriving Repr, DecidableEq

namespace BlockKind

def text : BlockKind → String
  | conditional => "if statement"
  | countedLoop => "for loop"
  | conditionalLoop => "while loop"

def tag : BlockKind → String
  | conditional => "Conditional"
  | countedLoop => "CountedLoop"
  | conditionalLoop => "ConditionalLoop"

def tags : List (String × BlockKind) :=
  [conditional, countedLoop, conditionalLoop].map fun k => (k.tag, k)

def toJson (k : BlockKind) : Json :=
  .str k.tag

def ofJson? (j : Json) : Option BlockKind :=
  readName? tags j

end BlockKind

/-- Where a block stands, with the text of its line if it is known. -/
structure Location where
  file : Option String
  function : String
  line : Nat
  snippet : Option String
  deriving Repr, DecidableEq, Inhabited

namespace Location

def text (l : Location) : String :=
  let file := l.file.getD "<unknown>"
  let place := s!"  File \"{file}\", line {l.line}, in {l.function}"
  match l.snippet with
  | some line => place ++ "\n    " ++ Text.trim line
  | none => place

def toJson (l : Location) : Json :=
  .obj
    [("file", .ofOption .str l.file), ("function", .str l.function), ("line", .ofNat l.line),
      ("snippet", .ofOption .str l.snippet)]

def ofJson? (j : Json) : Option Location := do
  let fields ← j.fields?
  return ⟨← Json.getOptional? fields "file" Json.str?, ← Json.get? fields "function" Json.str?,
    ← Json.get? fields "line" Json.nat?, ← Json.getOptional? fields "snippet" Json.str?⟩

end Location

end StagedFlow
