import StagedFlow.Text.Decimal
import StagedFlow.Text.Basic

/-!
JSON values and their text. An object keeps its fields in order, repeated names included, so that
a reader of a record can refuse a field given twice. Main definitions: `Json`, `Json.cut`,
`Json.render`, `Json.field?`, `Json.variant?`.
-/
set_option autoImplicit false

namespace StagedFlow

/-- A JSON value. Numbers written without point and exponent that fit in 64 bits, signed or
unsigned, are integers. `unreadable` is a number or a text that no program value holds, or what is
nested too deep; it may stand only where a reader looks at nothing. -/
inductive Json
  | null
  | bool (b : Bool)
  | int (n : Int)
  | float (x : Float)
  | str (s : String)
  | arr (items : List Json)
  | obj (fields : List (String × Json))
  | unreadable
  deriving Inhabited

namespace Json

/-! ## Nesting -/

mutual

/-- How many arrays and objects stand inside each other at most. -/
def depth : Json → Nat
  | arr items => itemsDepth items + 1
  | obj fields => fieldsDepth fields + 1
  | _ => 0

def itemsDepth : List Json → Nat
  | [] => 0
  | j :: rest => max j.depth (itemsDepth rest)

def fieldsDepth : List (String × Json) → Nat
  | [] => 0
  | (_, j) :: rest => max j.depth (fieldsDepth rest)

end

mutual

/-- The value as far as it can be looked at: inside `n` arrays and objects there is no further
one. -/
def cut : Json → Nat → Json
  | arr _, 0 => unreadable
  | obj _, 0 => unreadable
  | arr items, n + 1 => arr (cutItems items n)
  | obj fields, n + 1 => obj (cutFields fields n)
  | j, _ => j

def cutItems : List Json → Nat → List Json
  | [], _ => []
  | j :: rest, n => j.cut n :: cutItems rest n

def cutFields : List (String × Json) → Nat → List (String × Json)
  | [], _ => []
  | (name, j) :: rest, n => (name, j.cut n) :: cutFields rest n

end

/-! ## Text -/

/-- Four hexadecimal digits. -/
def hex4 (n : Nat) : List Char :=
  let digits := Text.hexDigits n
  List.replicate (4 - digits.length) '0' ++ digits

/-- One character of a JSON text. -/
def escape (c : Char) : List Char :=
  match c with
  | '"' => ['\\', '"']
  | '\\' => ['\\', '\\']
  | '\n' => ['\\', 'n']
  | '\r' => ['\\', 'r']
  | '\t' => ['\\', 't']
  | '\x08' => ['\\', 'b']
  | '\x0c' => ['\\', 'f']
  | c => if c.toNat < 0x20 then '\\' :: 'u' :: hex4 c.toNat else [c]

def quote (s : String) : String :=
  String.ofList ('"' :: (s.toList.flatMap escape ++ ['"']))

/-- A finite float, positional; there is no number for the others. -/
def floatText (x : Float) : String :=
  if x.isFinite then Text.floatText x else "null"

mutual

/-- The text of a value, without blanks. -/
def render : Json → String
  | null => "null"
  | bool b => if b then "true" else "false"
  | int n => toString n
  | float x => floatText x
  | str s => quote s
  | arr items => "[" ++ String.intercalate "," (renderItems items) ++ "]"
  | obj fields => "\x7b" ++ String.intercalate "," (renderFields fields) ++ "\x7d"
  | unreadable => "null"

def renderItems : List Json → List String
  | [] => []
  | j :: rest => j.render :: renderItems rest

def renderFields : List (String × Json) → List String
  | [] => []
  | (name, j) :: rest => (quote name ++ ":" ++ j.render) :: renderFields rest

end

/-! ## Reading records

A reader answers `none` for a value of the wrong form. -/

def bool? : Json → Option Bool
  | bool b => some b
  | _ => none

def str? : Json → Option String
  | str s => some s
  | _ => none

def arr? : Json → Option (List Json)
  | arr items => some items
  | _ => none

def int64? : Json → Option Int64
  | int n => if -0x8000000000000000 ≤ n ∧ n < 0x8000000000000000 then some (Int64.ofInt n) else none
  | _ => none

/-- A natural number below 2 ^ 64. -/
def nat? : Json → Option Nat
  | int n => if 0 ≤ n ∧ n < 0x10000000000000000 then some n.toNat else none
  | _ => none

/-- A float; an integer is read as one too. -/
def float? : Json → Option Float
  | float x => some x
  | int n => some (Float.ofInt n)
  | _ => none

/-- A value that may be missing, or `null`. -/
def optional? {α : Type} (read : Json → Option α) : Option Json → Option (Option α)
  | none => some none
  | some null => some none
  | some j => (read j).map some

/-- A value that has to be there. -/
def required? {α : Type} (read : Json → Option α) (j : Option Json) : Option α :=
  j.bind read

/-- A list of values of one form. -/
def list? {α : Type} (read : Json → Option α) : Json → Option (List α)
  | arr items => items.mapM read
  | _ => none

def fields? : Json → Option (List (String × Json))
  | obj fields => some fields
  | _ => none

/-- The field of a name, `some none` if there is none; a name given twice is an error. -/
def field? (fields : List (String × Json)) (name : String) : Option (Option Json) :=
  match fields.filter fun f => f.1 == name with
  | [] => some none
  | [f] => some (some f.2)
  | _ => none

/-- The name of an alternative and what belongs to it: an object with one field, or a bare text for
an alternative without content. -/
def variant? : Json → Option (String × Option Json)
  | str name => some (name, none)
  | obj [(name, content)] => some (name, some content)
  | _ => none

/-- The name of an alternative without content, bare or with `null` beside it. -/
def bareVariant? (j : Json) : Option String :=
  match variant? j with
  | some (name, none) => some name
  | some (name, some null) => some name
  | _ => none

/-! ## Writing records -/

def ofNat (n : Nat) : Json :=
  int n

def ofOption {α : Type} (write : α → Json) : Option α → Json
  | none => null
  | some a => write a

def ofStrings (ss : List String) : Json :=
  arr (ss.map str)

end Json

end StagedFlow
