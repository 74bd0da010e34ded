import StagedFlow.Json.Parser

/-!
Blanks, comments, texts and keys of TOML. Main definitions: `Toml.lineEnd?`, `Toml.skipLines?`,
`Toml.text?`, `Toml.keys?`.
-/
set_option autoImplicit false

namespace StagedFlow.Toml

/-! ## Blanks -/

def isGap (c : Char) : Bool :=
  c == ' ' || c == '\t'

def skipGaps (cs : List Char) : List Char :=
  cs.dropWhile isGap

/-- Whether a character may stand nowhere but at the end of a line. -/
def isControl (c : Char) : Bool :=
  (c.toNat < 0x20 && c != '\t') || c.toNat == 0x7f

/-- What follows a line end. -/
def newline? : List Char → Option (List Char)
  | '\n' :: cs => some cs
  | '\r' :: '\n' :: cs => some cs
  | _ => none

/-- The end of the line, after a comment if there is one. -/
def skipComment? (cs : List Char) : Option (List Char) :=
  match cs with
  | '#' :: cs =>
    let rest := cs.dropWhile fun c => !isControl c
    if rest.isEmpty || (newline? rest).isSome then some rest else none
  | cs => some cs

/-- What follows the end of a line; the text may end there too. -/
def lineEnd? (cs : List Char) : Option (List Char) := do
  match ← skipComment? (skipGaps cs) with
  | [] => some []
  | rest => newline? rest

/-- Skip blanks, comments and line ends. -/
def skipLines? : Nat → List Char → Option (List Char)
  | 0, _ => none
  | fuel + 1, cs => do
    let rest ← skipComment? (skipGaps cs)
    match newline? rest with
    | some rest => skipLines? fuel rest
    | none => some rest

/-! ## Texts -/

def escape? : Char → Option Char
  | '"' => some '"'
  | '\\' => some '\\'
  | 'b' => some '\x08'
  | 't' => some '\t'
  | 'n' => some '\n'
  | 'f' => some '\x0c'
  | 'r' => some '\r'
  | 'e' => some '\x1b'
  | _ => none

/-- The character with a number in hexadecimal digits. -/
def hexChar? (digits : List Char) : Option Char := do
  let n := (← digits.mapM Json.hexValue?).foldl (fun n d => n * 16 + d) 0
  if n < 0xd800 ∨ 0xe000 ≤ n ∧ n < 0x110000 then some (Char.ofNat n) else none

/-- The character that is meant after a backslash, and what follows. -/
def escaped? : List Char → Option (Char × List Char)
  | 'x' :: cs => (hexChar? (cs.take 2)).map fun c => (c, cs.drop 2)
  | 'u' :: cs => (hexChar? (cs.take 4)).map fun c => (c, cs.drop 4)
  | 'U' :: cs => (hexChar? (cs.take 8)).map fun c => (c, cs.drop 8)
  | c :: cs => (escape? c).map fun c => (c, cs)
  | [] => none

/-- A text on one line, after its quote. -/
def basic? : Nat → List Char → List Char → Option (String × List Char)
  | 0, _, _ => none
  | _ + 1, [], _ => none
  | _ + 1, '"' :: cs, acc => some (String.ofList acc.reverse, cs)
  | fuel + 1, '\\' :: cs, acc => do
    let (c, cs) ← escaped? cs
    basic? fuel cs (c :: acc)
  | fuel + 1, c :: cs, acc => if isControl c then none else basic? fuel cs (c :: acc)

/-- A text on one line without escapes, after its quote. -/
def literal? (cs : List Char) : Option (String × List Char) :=
  let body := cs.takeWhile fun c => c != '\'' && !isControl c
  match cs.drop body.length with
  | '\'' :: rest => some (String.ofList body, rest)
  | _ => none

/-- Up to two quotes before the three that end a text. -/
def closing? (quote : Char) (cs : List Char) : Option (List Char × List Char) :=
  let run := cs.takeWhile (· == quote)
  if 3 ≤ run.length then
    let extra := min (run.length - 3) 2
    some (List.replicate extra quote, cs.drop (extra + 3))
  else none

/-- Skip blanks and line ends. -/
def skipBreaks : Nat → List Char → List Char
  | 0, cs => cs
  | fuel + 1, cs =>
    match newline? (skipGaps cs) with
    | some rest => skipBreaks fuel rest
    | none => skipGaps cs

/-- A text on several lines, after its quotes. A backslash at the end of a line takes away all
blanks and line ends up to the next character. -/
def multiBasic? : Nat → List Char → List Char → Option (String × List Char)
  | 0, _, _ => none
  | _ + 1, [], _ => none
  | fuel + 1, '"' :: cs, acc =>
    match closing? '"' ('"' :: cs) with
    | some (extra, rest) => some (String.ofList (extra ++ acc).reverse, rest)
    | none => multiBasic? fuel cs ('"' :: acc)
  | fuel + 1, '\\' :: cs, acc =>
    match newline? (skipGaps cs) with
    | some rest => multiBasic? fuel (skipBreaks (rest.length + 1) rest) acc
    | none => do
      let (c, cs) ← escaped? cs
      multiBasic? fuel cs (c :: acc)
  | fuel + 1, c :: cs, acc =>
    match newline? (c :: cs) with
    | some rest => multiBasic? fuel rest ('\n' :: acc)
    | none => if isControl c then none else multiBasic? fuel cs (c :: acc)

/-- A text on several lines without escapes, after its quotes. -/
def multiLiteral? : Nat → List Char → List Char → Option (String × List Char)
  | 0, _, _ => none
  | _ + 1, [], _ => none
  | fuel + 1, c :: cs, acc =>
    match closing? '\'' (c :: cs), newline? (c :: cs) with
    | some (extra, rest), _ => some (String.ofList (extra ++ acc).reverse, rest)
    | none, some rest => multiLiteral? fuel rest ('\n' :: acc)
    | none, none => if isControl c then none else multiLiteral? fuel cs (c :: acc)

/-- A line end right after the quotes does not belong to the text. -/
def dropNewline (cs : List Char) : List Char :=
  (newline? cs).getD cs

/-- A text on one line, with its quote. -/
def shortText? : List Char → Option (String × List Char)
  | '"' :: cs => basic? (cs.length + 1) cs []
  | '\'' :: cs => literal? cs
  | _ => none

/-- A text, with its quotes. -/
def text? : List Char → Option (String × List Char)
  | '"' :: '"' :: '"' :: cs => multiBasic? (cs.length + 1) (dropNewline cs) []
  | '\'' :: '\'' :: '\'' :: cs => multiLiteral? (cs.length + 1) (dropNewline cs) []
  | cs => shortText? cs

/-! ## Keys -/

def isBareChar (c : Char) : Bool :=
  c.isAlphanum || c == '_' || c == '-'

def key? (cs : List Char) : Option (String × List Char) :=
  match cs.takeWhile isBareChar with
  | [] => shortText? cs
  | name => some (String.ofList name, cs.dropWhile isBareChar)

/-- A dotted key, and what follows it and the blanks after it. -/
def keys? : Nat → List Char → Option (List String × List Char)
  | 0, _ => none
  | fuel + 1, cs => do
    let (name, cs) ← key? (skipGaps cs)
    match skipGaps cs with
    | '.' :: cs =>
      let (names, cs) ← keys? fuel cs
      return (name :: names, cs)
    | cs => return ([name], cs)

end StagedFlow.Toml
