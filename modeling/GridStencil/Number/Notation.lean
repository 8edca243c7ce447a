import GridStencil.Number.Shortest

/-!
Decimal text of doubles, as it stands in listings and in source text.

The digits are the shortest that read back. From `0.0001` up to and without `10 ^ 16` the text is
positional with at least one digit on each side of the point, so that it never reads as an
integer; beyond, one digit stands before the point and a power of ten behind an `e`.
-/

namespace GridStencil.Number

/-- Where positional text ends: it is used for powers of ten of the first digit from `least` up to
and without `beyond`. -/
structure PositionalRange where
  least : Int
  beyond : Int

/-- Doubles are written positionally from a ten-thousandth on and below `10 ^ 16`. -/
def positional : PositionalRange := ⟨-4, 16⟩

/-- The text of `digits * 10 ^ exponent` with a point and a digit on each side of it. -/
def pointed (digits : Nat) (exponent : Int) : String :=
  let text := toString digits
  match exponent with
  | .ofNat zeros => text ++ String.ofList (List.replicate zeros '0') ++ ".0"
  | .negSucc places =>
    let places := places + 1
    let padded := List.replicate (places + 1 - text.length) '0' ++ text.toList
    let whole := padded.length - places
    String.ofList (padded.take whole) ++ "." ++ String.ofList (padded.drop whole)

/-- The text of `digits * 10 ^ exponent` with one digit before the point and a power of ten. -/
def scientific (digits : Nat) (exponent : Int) : String :=
  let text := (toString digits).toList
  let power := exponent + text.length - 1
  let tail := text.drop 1
  String.ofList (text.take 1) ++ (if tail.isEmpty then "" else "." ++ String.ofList tail) ++
    "e" ++ toString power

/-- The text of a positive decimal. -/
def decimalText (d : Shortest.Decimal) : String :=
  let leading := d.exponent + Shortest.digitCount d.digits - 1
  if positional.least ≤ leading ∧ leading < positional.beyond then pointed d.digits d.exponent
  else scientific d.digits d.exponent

/-- The text of a double. -/
def text (x : Float) : String :=
  match Binary64.form x with
  | .nan => "NaN"
  | .infinite negative => if negative then "-inf" else "inf"
  | .finite negative mantissa exponent =>
    let sign := if negative then "-" else ""
    if mantissa = 0 then sign ++ "0.0"
    else sign ++ decimalText (Shortest.ofDouble mantissa exponent)

end GridStencil.Number
