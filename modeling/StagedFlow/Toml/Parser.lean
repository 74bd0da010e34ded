import StagedFlow.Toml.Scalar
import StagedFlow.Toml.Text

/-!
Reading TOML documents. Lists and inline tables nest to a fixed depth; `room` is how many more may
be opened. Main definition: `Toml.parse?`.
-/
set_option autoImplicit false

namespace StagedFlow.Toml

mutual

/-- A value, and what follows it. -/
def value? : Nat → Nat → List Char → Option (Toml × List Char)
  | 0, _, _ => none
  | _ + 1, 0, '[' :: _ => none
  | _ + 1, 0, '\x7b' :: _ => none
  | fuel + 1, room + 1, '[' :: cs => items? fuel room cs []
  | fuel + 1, room + 1, '\x7b' :: cs => entries? fuel room cs []
  | _ + 1, _, cs =>
    match cs with
    | '"' :: _ => (text? cs).map fun (s, rest) => (text s, rest)
    | '\'' :: _ => (text? cs).map fun (s, rest) => (text s, rest)
    | _ => scalar? cs

/-- The items of a list up to its end; the last may have a comma. -/
def items? : Nat → Nat → List Char → List Toml → Option (Toml × List Char)
  | 0, _, _, _ => none
  | fuel + 1, room, cs, acc => do
    match ← skipLines? (cs.length + 1) cs with
    | ']' :: rest => return (list false acc.reverse, rest)
    | cs =>
      let (v, cs) ← value? fuel room cs
      match ← skipLines? (cs.length + 1) cs with
      | ',' :: rest => items? fuel room rest (v :: acc)
      | ']' :: rest => return (list false (v :: acc).reverse, rest)
      | _ => none

/-- The entries of an inline table up to its end; the last may have a comma. -/
def entries? : Nat → Nat → List Char → Entries → Option (Toml × List Char)
  | 0, _, _, _ => none
  | fuel + 1, room, cs, acc => do
    match ← skipLines? (cs.length + 1) cs with
    | '\x7d' :: rest => return (table .inline acc, rest)
    | cs =>
      let (names, v, cs) ← entry? fuel room cs
      let acc ← insertKey? v names acc
      match ← skipLines? (cs.length + 1) cs with
      | ',' :: rest => entries? fuel room rest acc
      | '\x7d' :: rest => return (table .inline acc, rest)
      | _ => none

/-- A key with its value, and what follows them. -/
def entry? : Nat → Nat → List Char → Option (List String × Toml × List Char)
  | 0, _, _ => none
  | fuel + 1, room, cs => do
    match ← keys? (cs.length + 1) cs with
    | (names, '=' :: rest) =>
      let (v, rest) ← value? fuel room (skipGaps rest)
      return (names, v, rest)
    | _ => none

end

/-- How deep lists and inline tables may nest. -/
def maxDepth : Nat := 80

/-- The path of a header, and what follows it on the line. -/
def header? (close : List Char) (cs : List Char) : Option (List String × List Char) := do
  let (path, rest) ← keys? (cs.length + 1) cs
  return (path, ← Json.strip? close rest)

/-- Read the lines of a document. `path` is the table that the entries go to. -/
def lines? : Nat → List String → Entries → List Char → Option Entries
  | 0, _, _, _ => none
  | fuel + 1, path, root, cs => do
    match ← skipLines? (cs.length + 1) cs with
    | [] => return root
    | '[' :: '[' :: rest =>
      let (path, rest) ← header? [']', ']'] rest
      lines? fuel path (← openItem? path root) (← lineEnd? rest)
    | '[' :: rest =>
      let (path, rest) ← header? [']'] rest
      lines? fuel path (← openTable? path root) (← lineEnd? rest)
    | cs =>
      let (names, v, rest) ← entry? (2 * cs.length + 2) maxDepth cs
      lines? fuel path (← atPath? (insertKey? v names) path root) (← lineEnd? rest)

/-- A mark of the byte order in front is skipped. -/
def dropMark : List Char → List Char
  | '\ufeff' :: cs => cs
  | cs => cs

/-- The entries of a document. -/
def parse? (s : String) : Option Entries :=
  let cs := dropMark s.toList
  lines? (cs.length + 1) [] [] cs

end StagedFlow.Toml
