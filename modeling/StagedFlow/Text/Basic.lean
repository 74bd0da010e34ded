import StagedFlow.Text.Printable

/-!
Pieces of text: lists written on one line as in `a, b, c` and `[2, 3]`, white space and cutting it
off both ends, and text between double quotes. Main definitions: `commaList`, `trim`, `quote`.
-/
set_option autoImplicit false

namespace StagedFlow.Text

/-! ## Lists -/

/-- The items with a comma and a blank between them. -/
def commaList (items : List String) : String :=
  String.intercalate ", " items

/-- A list of lengths, such as `[2, 3]`. -/
def lengths (ns : List Nat) : String :=
  "[" ++ commaList (ns.map toString) ++ "]"

/-- `n` copies of a text, one after the other. -/
def copies (n : Nat) (s : String) : String :=
  String.join (List.replicate n s)

/-! ## White space -/

/-- The characters of the Unicode property White_Space. -/
def isBlank (c : Char) : Bool :=
  let n := c.toNat
  (0x9 ≤ n && n ≤ 0xd) || n == 0x20 || n == 0x85 || n == 0xa0 || n == 0x1680 ||
    (0x2000 ≤ n && n ≤ 0x200a) || n == 0x2028 || n == 0x2029 || n == 0x202f || n == 0x205f ||
    n == 0x3000

/-- Cut the white space off both ends. -/
def trimChars (cs : List Char) : List Char :=
  ((cs.dropWhile isBlank).reverse.dropWhile isBlank).reverse

def trim (s : String) : String :=
  String.ofList (trimChars s.toList)

/-! ## Quotes -/

/-- The digits of `n` in base 16, lower case. -/
def hexDigits (n : Nat) : List Char :=
  Nat.toDigits 16 n

/-- How one character is written between quotes: a backslash before a quote or a backslash, a
letter for the five common controls and the code point in braces for every other character that is
not shown; an apostrophe needs no escape. -/
def quoteChar (c : Char) : List Char :=
  match c with
  | '"' => ['\\', '"']
  | '\\' => ['\\', '\\']
  | '\n' => ['\\', 'n']
  | '\r' => ['\\', 'r']
  | '\t' => ['\\', 't']
  | '\x00' => ['\\', '0']
  | c => if isShown c then [c] else "\\u\x7b".toList ++ hexDigits c.toNat ++ ['\x7d']

def quote (s : String) : String :=
  String.ofList ('"' :: (s.toList.flatMap quoteChar ++ ['"']))

end StagedFlow.Text
