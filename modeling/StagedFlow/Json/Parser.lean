import StagedFlow.Json.Basic
import StagedFlow.Text.Numeral

/-!
Reading JSON text. Main definitions: `Json.parse`, and `Json.read` with its limit on the nesting.
-/
set_option autoImplicit false

namespace StagedFlow.Json

def isSpace (c : Char) : Bool :=
  c == ' ' || c == '\n' || c == '\t' || c == '\r'

def skipSpaces (cs : List Char) : List Char :=
  cs.dropWhile isSpace

/-- Take a fixed text off the front. -/
def strip? (text : List Char) (cs : List Char) : Option (List Char) :=
  if text.isPrefixOf cs then some (cs.drop text.length) else none

/-! ## Texts -/

def hexValue? (c : Char) : Option Nat :=
  if '0' ≤ c ∧ c ≤ '9' then some (c.toNat - '0'.toNat)
  else if 'a' ≤ c ∧ c ≤ 'f' then some (c.toNat - 'a'.toNat + 10)
  else if 'A' ≤ c ∧ c ≤ 'F' then some (c.toNat - 'A'.toNat + 10)
  else none

/-- Four hexadecimal digits. -/
def parseHex4? : List Char → Option (Nat × List Char)
  | a :: b :: c :: d :: rest => do
    let a ← hexValue? a
    let b ← hexValue? b
    let c ← hexValue? c
    let d ← hexValue? d
    return (((a * 16 + b) * 16 + c) * 16 + d, rest)
  | _ => none

def simpleEscape? : Char → Option Char
  | '"' => some '"'
  | '\\' => some '\\'
  | '/' => some '/'
  | 'b' => some '\x08'
  | 'f' => some '\x0c'
  | 'n' => some '\n'
  | 'r' => some '\r'
  | 't' => some '\t'
  | _ => none

/-- One unit of a text: a character, or half of a pair without its other half. -/
inductive Unit16
  | char (c : Char)
  | lone

def isHigh (n : Nat) : Bool :=
  0xd800 ≤ n && n < 0xdc00

def isLow (n : Nat) : Bool :=
  0xdc00 ≤ n && n < 0xe000

/-- What follows `\u`: a code point, or two halves that make one. -/
def parseUnicode? (cs : List Char) : Option (Unit16 × List Char) := do
  let (n, rest) ← parseHex4? cs
  if isLow n then return (.lone, rest)
  if isHigh n then
    match rest with
    | '\\' :: 'u' :: more =>
      let (m, more) ← parseHex4? more
      if isLow m then return (.char (.ofNat (0x10000 + (n - 0xd800) * 0x400 + (m - 0xdc00))), more)
      else return (.lone, more)
    | _ => return (.lone, rest)
  return (.char (.ofNat n), rest)

/-- The characters up to the closing quote, the last first, and whether all were whole; controls
have to be escaped. -/
def parseText? : Nat → List Char → List Char → Bool → Option (List Char × Bool × List Char)
  | 0, _, _, _ => none
  | _ + 1, [], _, _ => none
  | _ + 1, '"' :: rest, acc, whole => some (acc, whole, rest)
  | fuel + 1, '\\' :: 'u' :: rest, acc, whole => do
    match ← parseUnicode? rest with
    | (.char c, rest) => parseText? fuel rest (c :: acc) whole
    | (.lone, rest) => parseText? fuel rest acc false
  | fuel + 1, '\\' :: c :: rest, acc, whole => do
    let c ← simpleEscape? c
    parseText? fuel rest (c :: acc) whole
  | fuel + 1, c :: rest, acc, whole =>
    if c == '\\' || c.toNat < 0x20 then none else parseText? fuel rest (c :: acc) whole

/-- A text after its opening quote; `none` inside for one with half a pair in it. -/
def parseString? (cs : List Char) : Option (Option String × List Char) := do
  let (acc, whole, rest) ← parseText? (cs.length + 1) cs [] true
  return (if whole then some (String.ofList acc.reverse) else none, rest)

/-! ## Numbers -/

/-- An integer as it is kept: beyond 64 bits, and for minus zero, it is a float. -/
def ofInteger (negative : Bool) (n : Nat) : Json :=
  if negative then
    if 0 < n ∧ n ≤ 0x8000000000000000 then int (-n) else ofFloat (-(Text.scaledFloat n 0))
  else if n < 0x10000000000000000 then int n
  else ofFloat (Text.scaledFloat n 0)
where
  ofFloat (x : Float) : Json :=
    if x.isFinite then float x else unreadable

/-- The digits after a point; at least one. -/
def parseFraction? : List Char → Option (List Char × List Char)
  | '.' :: rest =>
    match Text.spanDigits rest with
    | ([], _) => none
    | (digits, rest) => some (digits, rest)
  | cs => some ([], cs)

/-- A number; a leading zero stands alone. -/
def parseNumber? (cs : List Char) : Option (Json × List Char) := do
  let (negative, cs) := match cs with
    | '-' :: rest => (true, rest)
    | cs => (false, cs)
  let (whole, rest) := Text.spanDigits cs
  if whole.isEmpty || (whole.head? == some '0' && 1 < whole.length) then none
  let (fraction, afterFraction) ← parseFraction? rest
  let (exponent, afterExponent) ← Text.spanExponent? afterFraction
  if afterExponent.length == rest.length then
    return (ofInteger negative (Text.digitsValue whole), rest)
  let x := Text.scaledFloat (Text.digitsValue (whole ++ fraction)) (exponent - fraction.length)
  if x.isFinite then return (float (if negative then -x else x), afterExponent)
  return (unreadable, afterExponent)

/-! ## Values -/

mutual

/-- A value after blanks. No more than two calls in a row leave the text as it is, so twice its
length is enough fuel. -/
def parseValue? : Nat → List Char → Option (Json × List Char)
  | 0, _ => none
  | fuel + 1, cs =>
    match skipSpaces cs with
    | [] => none
    | 'n' :: rest => (strip? ['u', 'l', 'l'] rest).map (null, ·)
    | 't' :: rest => (strip? ['r', 'u', 'e'] rest).map (bool true, ·)
    | 'f' :: rest => (strip? ['a', 'l', 's', 'e'] rest).map (bool false, ·)
    | '"' :: rest => do
      let (s, rest) ← parseString? rest
      return ((s.map str).getD unreadable, rest)
    | '[' :: rest =>
      match skipSpaces rest with
      | ']' :: rest => some (arr [], rest)
      | rest => do
        let (items, rest) ← parseItems? fuel rest
        return (arr items, rest)
    | '\x7b' :: rest =>
      match skipSpaces rest with
      | '\x7d' :: rest => some (obj [], rest)
      | rest => do
        let (fields, rest) ← parseFields? fuel rest
        return (obj fields, rest)
    | cs => parseNumber? cs

/-- One or more items and the closing bracket. -/
def parseItems? : Nat → List Char → Option (List Json × List Char)
  | 0, _ => none
  | fuel + 1, cs => do
    let (item, rest) ← parseValue? fuel cs
    match skipSpaces rest with
    | ',' :: rest =>
      let (items, rest) ← parseItems? fuel rest
      return (item :: items, rest)
    | ']' :: rest => return ([item], rest)
    | _ => none

/-- One or more fields and the closing brace. -/
def parseFields? : Nat → List Char → Option (List (String × Json) × List Char)
  | 0, _ => none
  | fuel + 1, cs => do
    let (name, rest) ← match skipSpaces cs with
      | '"' :: rest => parseString? rest
      | _ => none
    let name ← name
    let rest ← strip? [':'] (skipSpaces rest)
    let (value, rest) ← parseValue? fuel rest
    match skipSpaces rest with
    | ',' :: rest =>
      let (fields, rest) ← parseFields? fuel rest
      return ((name, value) :: fields, rest)
    | '\x7d' :: rest => return ([(name, value)], rest)
    | _ => none

end

/-- Read a text that holds one value and blanks around it. -/
def parse (s : String) : Option Json := do
  let cs := s.toList
  let (value, rest) ← parseValue? (2 * cs.length + 2) cs
  if (skipSpaces rest).isEmpty then value else none

/-- How many arrays and objects may stand inside each other where a value is looked at. -/
def maxDepth : Nat := 127

/-- Read a text for a program, which looks at values down to a fixed depth only. -/
def read (s : String) : Option Json :=
  (parse s).map fun j => j.cut maxDepth

end StagedFlow.Json
