import GridStencil.Number.Range

/-!
Reading numbers.

An integer is an optional sign and digits, and has to fit into 64 bits. A decimal has digits before
or after an optional point, an optional power of ten behind `e` or `E`, and an optional sign; in its
place may stand `inf`, `infinity` or `nan` in any case of letters.
-/

namespace GridStencil.Number

/-- Whether a character is a decimal digit. -/
def isDigit (c : Char) : Bool := '0' ≤ c && c ≤ '9'

/-- The number that decimal digits stand for. -/
def ofDigits (digits : List Char) : Nat :=
  digits.foldl (fun n c => 10 * n + (c.toNat - '0'.toNat)) 0

/-- An optional sign and what follows it. -/
def splitSign : List Char → Bool × List Char
  | '+' :: rest => (false, rest)
  | '-' :: rest => (true, rest)
  | rest => (false, rest)

/-- The number with the given sign. -/
def signed (negative : Bool) (n : Nat) : Int := if negative then -n else n

/-- The integer a text stands for, whatever its size. -/
def readInteger? (s : List Char) : Option Int :=
  let (negative, digits) := splitSign s
  if digits ≠ [] ∧ digits.all isDigit then some (signed negative (ofDigits digits)) else none

/-- The integer a text stands for, if it fits into 64 bits. -/
def readInt? (s : List Char) : Option Int := (readInteger? s).bind checked

/-- The double nearest to `± mantissa * 10 ^ exponent`. Exponents that leave no doubt between
zero and infinity are not computed with. -/
def nearest (negative : Bool) (mantissa : Nat) (exponent : Int) : Float :=
  let leading := exponent + (toString mantissa).length
  let magnitude : Float :=
    if mantissa = 0 ∨ leading < -400 then 0.0
    else if 400 < leading then 1.0 / 0.0
    else Float.ofScientific mantissa (decide (exponent < 0)) exponent.natAbs
  if negative then -magnitude else magnitude

/-- The power of ten that stands behind the digits, if it is well formed. -/
def readExponent? : List Char → Option Int
  | [] => some 0
  | c :: rest => if c = 'e' ∨ c = 'E' then readInteger? rest else none

/-- The digits behind a point and what follows them. -/
def splitFraction : List Char → List Char × List Char
  | '.' :: rest => (rest.takeWhile isDigit, rest.dropWhile isDigit)
  | rest => ([], rest)

/-- Texts of values that are not finite, in small letters. -/
def readSpecial? (negative : Bool) (word : List Char) : Option Float :=
  let infinity : Float := 1.0 / 0.0
  match String.ofList (word.map Char.toLower) with
  | "inf" | "infinity" => some (if negative then -infinity else infinity)
  | "nan" => some (0.0 / 0.0)
  | _ => none

/-- The double nearest to the decimal that a text stands for. -/
def readFloat? (s : List Char) : Option Float :=
  let (negative, body) := splitSign s
  match readSpecial? negative body with
  | some x => some x
  | none =>
    let whole := body.takeWhile isDigit
    let (fraction, rest) := splitFraction (body.dropWhile isDigit)
    if whole.isEmpty && fraction.isEmpty then none
    else (readExponent? rest).map fun power =>
      nearest negative (ofDigits (whole ++ fraction)) (power - fraction.length)

end GridStencil.Number
