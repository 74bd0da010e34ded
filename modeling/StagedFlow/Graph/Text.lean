import StagedFlow.Graph.Basic

/-!
The text of graphs: one line for each node, nested regions indented below it.
-/
set_option autoImplicit false

namespace StagedFlow

def idsText (ids : List Nat) : String :=
  Text.commaList (ids.map fun id => s!"%{id}")

def operandsText (operands : List Operand) : String :=
  Text.commaList (operands.map Operand.text)

mutual

/-- The lines of a region at an indentation counted in steps of two blanks. -/
def Region.lines : Region → Nat → List String
  | ⟨_, nodes, _⟩, indent => nodeLines nodes indent

def nodeLines : List Node → Nat → List String
  | [], _ => []
  | ⟨_, kind, inputs, outputs⟩ :: rest, indent =>
    let pad := Text.copies indent "  "
    s!"{pad}{idsText outputs} = {kind.name}({operandsText inputs})" ::
      (kind.nestedLines indent ++ nodeLines rest indent)

/-- The lines of the regions that a node owns, each with its parameters and results. -/
def NodeKind.nestedLines : NodeKind → Nat → List String
  | .apply _, _ => []
  | .cond ⟨ps, ns, rs⟩ ⟨ps', ns', rs'⟩, indent =>
    labelled "then" ps rs indent (nodeLines ns (indent + 2)) ++
      labelled "else" ps' rs' indent (nodeLines ns' (indent + 2))
  | .forLoop ⟨ps, ns, rs⟩, indent => labelled "body" ps rs indent (nodeLines ns (indent + 2))
  | .whileLoop ⟨ps, ns, rs⟩ ⟨ps', ns', rs'⟩, indent =>
    labelled "cond" ps rs indent (nodeLines ns (indent + 2)) ++
      labelled "body" ps' rs' indent (nodeLines ns' (indent + 2))
where
  labelled (label : String) (params : List Nat) (results : List Operand) (indent : Nat)
      (lines : List String) : List String :=
    let pad := Text.copies indent "  "
    s!"{pad}  {label}({idsText params}):" ::
      (lines ++ [s!"{pad}    yield {operandsText results}"])

end

namespace Graph

/-- An input with its type, if it has one. -/
def inputText (g : Graph) (id : Nat) : String :=
  match Bindings.find? g.types id with
  | some type => s!"%{id}: {type.text}"
  | none => s!"%{id}"

def text (g : Graph) : String :=
  let lines := s!"graph({Text.commaList (g.inputs.map g.inputText)}):" :: g.body.lines 1
  String.join (lines.map (· ++ "\n"))

end Graph

end StagedFlow
