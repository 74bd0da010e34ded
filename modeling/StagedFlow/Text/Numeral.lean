import StagedFlow.Text.Basic

/-!
Numbers read from text. An integer is an optional sign and decimal digits, and has to fit in 64
bits. A float is an optional sign and either the word `inf`, `infinity` or `nan` in any case, or
digits with an optional point and exponent, at least one digit before the exponent. Main
definitions: `parseInt64?`, `parseFloat?`, `scaledFloat`.
-/
set_option autoImplicit false

namespace StagedFlow.Text

/-- Split off the leading decimal digits. -/
def spanDigits (cs : List Char) : List Char × List Char :=
  (cs.takeWhile Char.isDigit, cs.dropWhile Char.isDigit)

/-- The number that a list of decimal digits writes. -/
def digitsValue (cs : List Char) : Nat :=
  cs.foldl (fun n c => 10 * n + (c.toNat - '0'.toNat)) 0

/-- Split off an optional sign; `true` stands for minus. -/
def spanSign : List Char → Bool × List Char
  | '-' :: cs => (true, cs)
  | '+' :: cs => (false, cs)
  | cs => (false, cs)

def signed (negative : Bool) (n : Nat) : Int :=
  if negative then -(n : Int) else n

/-- The 64-bit integer equal to `n`, if there is one. -/
def int64? (n : Int) : Option Int64 :=
  if -0x8000000000000000 ≤ n ∧ n < 0x8000000000000000 then some (Int64.ofInt n) else none

def parseInt64? (s : String) : Option Int64 :=
  let (negative, cs) := spanSign s.toList
  match spanDigits cs with
  | ([], _) => none
  | (digits, []) => int64? (signed negative (digitsValue digits))
  | (_, _ :: _) => none

/-- The float nearest to `mantissa * 10 ^ exponent`. Beyond the ends of the format the exponent
does not matter any more, and the power of ten is not computed. -/
def scaledFloat (mantissa : Nat) (exponent : Int) : Float :=
  let size : Int := (Nat.toDigits 10 mantissa).length
  if mantissa == 0 then 0
  else if 400 < size + exponent then Float.ofBits 0x7ff0000000000000
  else if size + exponent < -400 then 0
  else match exponent with
    | .ofNat e => Float.ofScientific mantissa false e
    | .negSucc e => Float.ofScientific mantissa true (e + 1)

/-- Read an exponent such as `e-7`; without one the exponent is zero. -/
def spanExponent? : List Char → Option (Int × List Char)
  | c :: cs =>
    if c == 'e' || c == 'E' then
      let (negative, cs) := spanSign cs
      match spanDigits cs with
      | ([], _) => none
      | (digits, rest) => some (signed negative (digitsValue digits), rest)
    else some (0, c :: cs)
  | [] => some (0, [])

/-- Read the digits before the exponent: their value, and how many stand after the point. -/
def spanMantissa? (cs : List Char) : Option (Nat × Nat × List Char) :=
  let (whole, rest) := spanDigits cs
  let (fraction, rest) := match rest with
    | '.' :: rest => spanDigits rest
    | rest => ([], rest)
  if whole.isEmpty && fraction.isEmpty then none
  else some (digitsValue (whole ++ fraction), fraction.length, rest)

/-- Read a magnitude written with digits; all of the text has to be used. -/
def parseMagnitude? (cs : List Char) : Option Float := do
  let (mantissa, places, rest) ← spanMantissa? cs
  let (exponent, rest) ← spanExponent? rest
  if rest.isEmpty then some (scaledFloat mantissa (exponent - places)) else none

def parseFloat? (s : String) : Option Float :=
  let (negative, cs) := spanSign s.toList
  let word := String.ofList (cs.map Char.toLower)
  let magnitude :=
    if word == "inf" || word == "infinity" then some (Float.ofBits 0x7ff0000000000000)
    else if word == "nan" then some (Float.ofBits 0x7ff8000000000000)
    else parseMagnitude? cs
  magnitude.map fun x => if negative then -x else x

end StagedFlow.Text
