import StagedFlow.Program.Json
import StagedFlow.Toml.Parser

/-!
The options of a conversion, and where they come from: a JSON record, the texts of two environment
variables or a TOML document. Main definitions: `Options`, `Options.ofJson?`,
`Options.ofEnvironment`, `Options.ofToml?`.
-/
set_option autoImplicit false

namespace StagedFlow

/-- How to treat what cannot go into the graph: under `strict` it is an error, otherwise it runs on
the host, and `quiet` leaves out the warnings. -/
structure Options where
  strict : Bool := false
  quiet : Bool := false
  deriving Repr, DecidableEq, Inhabited

namespace Options

def toJson (o : Options) : Json :=
  .obj [("strict_conversion", .bool o.strict), ("ignore_fallbacks", .bool o.quiet)]

/-- The options of a record, in which a missing field is off. -/
def ofFields? (fields : List (String × Json)) : Option Options := do
  return ⟨← Json.getOr? fields "strict_conversion" false Json.bool?,
    ← Json.getOr? fields "ignore_fallbacks" false Json.bool?⟩

def ofJson? (j : Json) : Option Options :=
  j.fields?.bind ofFields?

end Options

/-! ## The environment -/

/-- A switch as people write it, in letters of either case and with blanks around. -/
def parseFlag? (text : String) : Option Bool :=
  let word := (Text.trim text).toLower
  if word ∈ ["1", "true", "yes", "on"] then some true
  else if word ∈ ["", "0", "false", "no", "off"] then some false
  else none

/-- What is wrong with the text of a switch. -/
def flagMessage (name text : String) : String :=
  s!"invalid value {Text.quote text} for {name}: expected a boolean"

/-- A switch from the environment; a text that is none counts as off, with a warning. -/
def environmentFlag : Option String → Bool × Nat
  | none => (false, 0)
  | some text =>
    match parseFlag? text with
    | some b => (b, 0)
    | none => (false, 1)

/-- The options from the texts of two environment variables, and the number of warnings. -/
def Options.ofEnvironment (strict quiet : Option String) : Options × Nat :=
  let (strict, first) := environmentFlag strict
  let (quiet, second) := environmentFlag quiet
  (⟨strict, quiet⟩, first + second)

/-! ## TOML

The options stand in one table of a document; in its place a list may give the two switches in
order, and a date or time counts as a table with neither of them. -/

/-- A switch that is off where it is missing. -/
def Toml.switch? : Option Toml → Option Bool
  | none => some false
  | some (bool b) => some b
  | some _ => none

namespace Options

/-- The options that a value gives. All entries of a table are looked at, but of a list only the
items that are switches. -/
def ofTomlValue? : Toml → Option Options
  | .table _ entries => do
    guard (Toml.readableEntries entries)
    return ⟨← Toml.switch? (Bindings.find? entries "strict_conversion"),
      ← Toml.switch? (Bindings.find? entries "ignore_fallbacks")⟩
  | .list _ items => do return ⟨← Toml.switch? items[0]?, ← Toml.switch? items[1]?⟩
  | .moment => some {}
  | _ => none

/-- The options that a document gives; what else it holds has to be readable. -/
def ofToml? (text : String) : Option Options := do
  let entries ← Toml.parse? text
  guard (Toml.readableEntries (Bindings.erase entries "autograph"))
  match Bindings.find? entries "autograph" with
  | some t => ofTomlValue? t
  | none => some {}

end Options

end StagedFlow
