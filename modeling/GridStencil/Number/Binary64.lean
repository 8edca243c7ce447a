import GridStencil.Number.Power

/-!
Doubles as signs, mantissas and powers of two.

A finite double is exactly `± mantissa * 2 ^ exponent`. Rounding to integers, truncation into a
range of integers and the sign bit are read off this form.
-/

namespace GridStencil.Number.Binary64

/-- What a double stands for. -/
inductive Form
  | nan
  | infinite (negative : Bool)
  | finite (negative : Bool) (mantissa : Nat) (exponent : Int)
deriving DecidableEq

/-- The form of a double, read off its bits. -/
def form (x : Float) : Form :=
  let bits := x.toBits.toNat
  let negative := bits / twoTo 63 = 1
  let biased : Nat := bits / twoTo 52 % twoTo 11
  let fraction : Nat := bits % twoTo 52
  if biased = 2047 then
    if fraction = 0 then .infinite negative else .nan
  else if biased = 0 then .finite negative fraction (-1074)
  else .finite negative (twoTo 52 + fraction) ((biased : Int) - 1075)

/-- Whether the sign bit is set. -/
def isNegative (x : Float) : Bool :=
  match form x with
  | .nan => false
  | .infinite negative => negative
  | .finite negative _ _ => negative

/-- The double with the given sign and a magnitude below 2 ^ 64. -/
def ofMagnitude (negative : Bool) (magnitude : Nat) : Float :=
  let x := magnitude.toUInt64.toFloat
  if negative then -x else x

/-- Which neighbour a number between two integers goes to. -/
inductive Direction
  | down
  | up
deriving DecidableEq

/-- The integer next to `± mantissa / 2 ^ shift` in the given direction, as a magnitude. -/
def neighbour (direction : Direction) (negative : Bool) (mantissa shift : Nat) : Nat :=
  let whole := mantissa / twoTo shift
  let exact := mantissa % twoTo shift = 0
  let away := match direction with
    | .down => negative
    | .up => !negative
  if away && !exact then whole + 1 else whole

/-- The double next to `x` in the given direction among those that are integers. The sign stays,
also on a zero. -/
def toIntegral (direction : Direction) (x : Float) : Float :=
  match form x with
  | .finite negative mantissa (.negSucc n) =>
    ofMagnitude negative (neighbour direction negative mantissa (n + 1))
  | _ => x

/-- The greatest integer that is not above `x`. -/
def floor (x : Float) : Float := toIntegral .down x

/-- The least integer that is not below `x`. -/
def ceil (x : Float) : Float := toIntegral .up x

/-- The integer nearest to zero among those within one of a finite `x`. -/
def truncate? (x : Float) : Option Int :=
  match form x with
  | .finite negative mantissa exponent =>
    let magnitude : Nat := match exponent with
      | .ofNat n => mantissa * twoTo n
      | .negSucc n => mantissa / twoTo (n + 1)
    some (if negative then -magnitude else magnitude)
  | _ => none

/-- The integer that `x` stands for, if it does. -/
def integer? (x : Float) : Option Int :=
  match form x with
  | .finite negative mantissa exponent =>
    match exponent with
    | .ofNat n => let magnitude : Nat := mantissa * twoTo n
                  some (if negative then -magnitude else magnitude)
    | .negSucc n =>
      if mantissa % twoTo (n + 1) = 0 then
        let magnitude : Nat := mantissa / twoTo (n + 1)
        some (if negative then -magnitude else magnitude)
      else none
  | _ => none

/-- `x` truncated into the signed integers of `width` bits. What lies outside goes to the nearest
end of the range, and what is no number to zero. -/
def clampTo (width : Nat) (x : Float) : Int :=
  let least : Int := -twoTo (width - 1)
  let greatest : Int := twoTo (width - 1) - 1
  match form x with
  | .nan => 0
  | .infinite negative => if negative then least else greatest
  | .finite _ _ _ => max least (min greatest ((truncate? x).getD 0))

end GridStencil.Number.Binary64
