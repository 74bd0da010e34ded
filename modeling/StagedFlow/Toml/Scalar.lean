import StagedFlow.Json.Parser
import StagedFlow.Text.Numeral
import StagedFlow.Toml.Basic

/-!
TOML values that are written as one word: truth values, numbers, dates and times. Main definition:
`Toml.scalar?`.
-/
set_option autoImplicit false

namespace StagedFlow.Toml

/-! ## Numbers -/

/-- Whether a text consists of digits, with single underscores between them. -/
def isGroup (digit : Char → Bool) : List Char → Bool
  | [] => false
  | [c] => digit c
  | c :: '_' :: rest => digit c && isGroup digit rest
  | c :: rest => digit c && isGroup digit rest

def isHexDigit (c : Char) : Bool :=
  c.isDigit || ('a' ≤ c && c ≤ 'f') || ('A' ≤ c && c ≤ 'F')

def dropSign : List Char → List Char
  | '+' :: cs => cs
  | '-' :: cs => cs
  | cs => cs

/-- Whether a text is a decimal integer; no other one begins with a zero. -/
def isDecimal : List Char → Bool
  | ['0'] => true
  | '0' :: _ => false
  | cs => isGroup Char.isDigit cs

/-- The number that digits in a base write; underscores do not count. -/
def groupValue (base : Nat) (cs : List Char) : Nat :=
  (cs.filterMap Json.hexValue?).foldl (fun n d => n * base + d) 0

def group? (base : Nat) (digit : Char → Bool) (cs : List Char) : Option Int :=
  if isGroup digit cs then some (groupValue base cs) else none

/-- The value of an integer; those in another base than ten have no sign. -/
def integer? : List Char → Option Int
  | '0' :: 'x' :: cs => group? 16 isHexDigit cs
  | '0' :: 'o' :: cs => group? 8 (fun c => '0' ≤ c && c ≤ '7') cs
  | '0' :: 'b' :: cs => group? 2 (fun c => c == '0' || c == '1') cs
  | cs =>
    let digits := dropSign cs
    if isDecimal digits then
      some (Text.signed (cs.head? == some '-') (groupValue 10 digits))
    else none

/-- Integers have at most 128 bits, with or without a sign. -/
def fitsInteger (n : Int) : Bool :=
  -0x80000000000000000000000000000000 ≤ n && n < 0x100000000000000000000000000000000

def isNumberChar (c : Char) : Bool :=
  c.isDigit || c == '_'

/-- Whether a text is the exponent of a float. -/
def isExponent : List Char → Bool
  | 'e' :: cs => isGroup Char.isDigit (dropSign cs)
  | 'E' :: cs => isGroup Char.isDigit (dropSign cs)
  | _ => false

/-- Whether a text is what follows the integer part of a float. -/
def isFraction : List Char → Bool
  | '.' :: cs =>
    let rest := cs.dropWhile isNumberChar
    isGroup Char.isDigit (cs.takeWhile isNumberChar) && (rest.isEmpty || isExponent rest)
  | cs => isExponent cs

def isSpecialFloat (cs : List Char) : Bool :=
  cs == "inf".toList || cs == "nan".toList

/-- Whether a text has the form of a float that is written with digits. -/
def isDigitFloat (cs : List Char) : Bool :=
  isDecimal (cs.takeWhile isNumberChar) && isFraction (cs.dropWhile isNumberChar)

/-- Whether a float that is written with digits stays below infinity. -/
def fitsFloat (cs : List Char) : Bool :=
  match Text.parseMagnitude? (cs.filter (· != '_')) with
  | some x => x.isFinite
  | none => false

/-- Whether a float is in range, if the text is one. -/
def float? (cs : List Char) : Option Bool :=
  let cs := dropSign cs
  if isSpecialFloat cs then some true
  else if isDigitFloat cs then some (fitsFloat cs)
  else none

/-! ## Dates and times -/

/-- A fixed number of digits, and what follows them. -/
def takeDigits? : Nat → Nat → List Char → Option (Nat × List Char)
  | 0, acc, cs => some (acc, cs)
  | n + 1, acc, c :: cs =>
    if c.isDigit then takeDigits? n (acc * 10 + (c.toNat - '0'.toNat)) cs else none
  | _ + 1, _, [] => none

def isLeap (year : Nat) : Bool :=
  year % 4 == 0 && year % 100 != 0 || year % 400 == 0

def monthDays (year month : Nat) : Nat :=
  if month = 2 then (if isLeap year then 29 else 28)
  else if month ∈ [4, 6, 9, 11] then 30
  else 31

/-- What follows a date. -/
def date? (cs : List Char) : Option (List Char) := do
  let (year, cs) ← takeDigits? 4 0 cs
  let '-' :: cs := cs | none
  let (month, cs) ← takeDigits? 2 0 cs
  let '-' :: cs := cs | none
  let (day, cs) ← takeDigits? 2 0 cs
  if 1 ≤ month ∧ month ≤ 12 ∧ 1 ≤ day ∧ day ≤ monthDays year month then some cs else none

/-- What follows hours and minutes. -/
def clock? (cs : List Char) : Option (List Char) := do
  let (hour, cs) ← takeDigits? 2 0 cs
  let ':' :: cs := cs | none
  let (minute, cs) ← takeDigits? 2 0 cs
  if hour < 24 ∧ minute < 60 then some cs else none

/-- What follows a time; seconds and their fraction may be left out. -/
def time? (cs : List Char) : Option (List Char) := do
  match ← clock? cs with
  | ':' :: cs =>
    let (second, cs) ← takeDigits? 2 0 cs
    if 60 < second then none
    else
      match cs with
      | '.' :: cs =>
        let rest := cs.dropWhile Char.isDigit
        if rest.length < cs.length then some rest else none
      | cs => some cs
  | cs => some cs

/-- Whether a text is the distance from universal time, or nothing. -/
def isOffset : List Char → Bool
  | [] => true
  | ['Z'] => true
  | ['z'] => true
  | '+' :: cs => clock? cs == some []
  | '-' :: cs => clock? cs == some []
  | _ => false

/-- Whether a text is a date, a time or both. -/
def isMoment (cs : List Char) : Bool :=
  match date? cs with
  | some [] => true
  | some (mark :: rest) =>
    (mark == 'T' || mark == 't' || mark == ' ') && ((time? rest).map isOffset).getD false
  | none => time? cs == some []

/-! ## Words -/

def isWordChar (c : Char) : Bool :=
  c.isAlphanum || c == '+' || c == '-' || c == '_' || c == '.' || c == ':'

/-- A number, if the text is one. -/
def number? (cs : List Char) : Option Toml :=
  (((integer? cs).map fitsInteger).or (float? cs)).map number

/-- The value of a word. -/
def ofWord? (cs : List Char) : Option Toml :=
  if cs = "true".toList then some (bool true)
  else if cs = "false".toList then some (bool false)
  else (number? cs).or (if isMoment cs then some moment else none)

/-- The word in front, and what follows it; a blank may stand between a date and a time. -/
def splitWord (cs : List Char) : List Char × List Char :=
  let word := cs.takeWhile isWordChar
  let rest := cs.dropWhile isWordChar
  match date? word, rest with
  | some [], ' ' :: c :: more =>
    if c.isDigit then
      (word ++ ' ' :: (c :: more).takeWhile isWordChar, (c :: more).dropWhile isWordChar)
    else (word, rest)
  | _, _ => (word, rest)

/-- The value in front, and what follows it. -/
def scalar? (cs : List Char) : Option (Toml × List Char) :=
  let (word, rest) := splitWord cs
  (ofWord? word).map fun v => (v, rest)

end StagedFlow.Toml
