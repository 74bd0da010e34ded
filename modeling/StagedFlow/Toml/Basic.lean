import StagedFlow.Bindings

/-!
TOML documents as trees, and how they grow. A table knows how it came about, for that decides who
may add to it: dotted keys may add to tables made by dotted keys, headers to all but inline ones,
and a table has one header. Main definitions: `Toml`, `Toml.insertKey?`, `Toml.openTable?`,
`Toml.openItem?`, `Toml.readable`.
-/
set_option autoImplicit false

namespace StagedFlow

/-- How a table came about: on the way to a header, by its own header, on the way of a dotted key,
or in one piece. -/
inductive TableOrigin
  | path
  | header
  | dotted
  | inline
  deriving Repr, DecidableEq

/-- A value. Of a number only whether it is in range is kept, and of a date or time nothing; a list
of tables from headers can grow. -/
inductive Toml
  | bool (b : Bool)
  | number (fits : Bool)
  | moment
  | text (s : String)
  | list (growing : Bool) (items : List Toml)
  | table (origin : TableOrigin) (entries : List (String × Toml))

namespace Toml

/-- The entries of a table. -/
abbrev Entries := Bindings String Toml

/-- Put a value under a dotted key, which must be free. The table that takes it is one of dotted
keys; those above it may also lie on the way to a header. -/
def insertKey? (v : Toml) : List String → Entries → Option Entries
  | [], _ => none
  | [k], t =>
    match Bindings.find? t k with
    | none => some (Bindings.insert t k v)
    | some _ => none
  | k :: ks, t =>
    match Bindings.find? t k with
    | none => (insertKey? v ks []).map fun sub => Bindings.insert t k (table .dotted sub)
    | some (table .dotted sub) =>
      (insertKey? v ks sub).map fun sub => Bindings.insert t k (table .dotted sub)
    | some (table .path sub) =>
      if ks.length < 2 then none
      else (insertKey? v ks sub).map fun sub => Bindings.insert t k (table .path sub)
    | some _ => none

/-- Change the table at a path of headers, where a list of tables stands for its last one. -/
def atPath? (change : Entries → Option Entries) : List String → Entries → Option Entries
  | [], t => change t
  | k :: ks, t =>
    match Bindings.find? t k with
    | none => (atPath? change ks []).map fun sub => Bindings.insert t k (table .path sub)
    | some (table .inline _) => none
    | some (table origin sub) =>
      (atPath? change ks sub).map fun sub => Bindings.insert t k (table origin sub)
    | some (list true items) =>
      match items.getLast? with
      | some (table origin sub) =>
        (atPath? change ks sub).map fun sub =>
          Bindings.insert t k (list true (items.dropLast ++ [table origin sub]))
      | _ => none
    | some _ => none

/-- Give a table its header. -/
def openKey? (k : String) (t : Entries) : Option Entries :=
  match Bindings.find? t k with
  | none => some (Bindings.insert t k (table .header []))
  | some (table .path sub) => some (Bindings.insert t k (table .header sub))
  | some _ => none

/-- Begin a new table in a list of tables. -/
def extendKey? (k : String) (t : Entries) : Option Entries :=
  match Bindings.find? t k with
  | none => some (Bindings.insert t k (list true [table .header []]))
  | some (list true items) => some (Bindings.insert t k (list true (items ++ [table .header []])))
  | some _ => none

/-- The header of a table. -/
def openTable? (path : List String) (t : Entries) : Option Entries := do
  atPath? (openKey? (← path.getLast?)) path.dropLast t

/-- The header of a table in a list of tables. -/
def openItem? (path : List String) (t : Entries) : Option Entries := do
  atPath? (extendKey? (← path.getLast?)) path.dropLast t

mutual

/-- Whether all numbers in a value are in range. -/
def readable : Toml → Bool
  | number fits => fits
  | list _ items => readableItems items
  | table _ entries => readableEntries entries
  | _ => true

def readableItems : List Toml → Bool
  | [] => true
  | v :: rest => readable v && readableItems rest

def readableEntries : List (String × Toml) → Bool
  | [] => true
  | (_, v) :: rest => readable v && readableEntries rest

end

end Toml

end StagedFlow
