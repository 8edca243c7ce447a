import GridStencil.Number.Binary64

/-!
The shortest decimal that reads back as a given double.

Around a positive double lies the interval of the numbers that round to it; its ends belong to it
when the mantissa is even. For one digit, two digits and so on, the two neighbours of the double
on the decimal grid with that many digits are tried. The first grid with a neighbour in the
interval is taken; of two such neighbours the nearer one, and of two equally near ones the larger.
-/

namespace GridStencil.Number.Shortest

/-- A decimal: `digits * 10 ^ exponent`. -/
structure Decimal where
  digits : Nat
  exponent : Int
deriving DecidableEq

/-- A positive rational number around which others round to it: `value`, `low` and `high` are
numerators over `unit`. -/
structure Target where
  unit : Nat
  low : Nat
  value : Nat
  high : Nat
  closed : Bool

/-- The double `mantissa * 2 ^ exponent` with the ends of its rounding interval. Below a power of
two the gap is half as wide as above it, unless the double is among the smallest. -/
def target (mantissa : Nat) (exponent : Int) : Target :=
  let narrow := mantissa = twoTo 52 ∧ -1074 < exponent
  let up := if 0 ≤ exponent then twoTo exponent.toNat else 1
  let unit := if 0 ≤ exponent then 4 else 4 * twoTo (-exponent).toNat
  let value := 4 * mantissa * up
  ⟨unit, value - (if narrow then up else 2 * up), value, value + 2 * up, mantissa % 2 = 0⟩

/-- Whether `count * 10 ^ power` lies in the interval. -/
def Target.holds (t : Target) (count : Nat) (power : Int) : Bool :=
  let scaled := count * t.unit * tenTo power.toNat
  let low := t.low * tenTo (-power).toNat
  let high := t.high * tenTo (-power).toNat
  if t.closed then low ≤ scaled && scaled ≤ high else low < scaled && scaled < high

/-- The greatest `count` with `count * 10 ^ power` not above the value. -/
def Target.below (t : Target) (power : Int) : Nat :=
  t.value * tenTo (-power).toNat / (t.unit * tenTo power.toNat)

/-- Whether the value is nearer to `count * 10 ^ power` than to the next point of the grid. -/
def Target.nearerBelow (t : Target) (count : Nat) (power : Int) : Bool :=
  2 * t.value * tenTo (-power).toNat < (2 * count + 1) * (t.unit * tenTo power.toNat)

/-- The point of the grid of width `10 ^ power` to take, if one lies in the interval. -/
def Target.onGrid? (t : Target) (power : Int) : Option Nat :=
  let count := t.below power
  let lower := t.holds count power
  let upper := t.holds (count + 1) power
  if lower && (!upper || t.nearerBelow count power) then some count
  else if upper then some (count + 1)
  else none

/-- The point of the coarsest of the grids `10 ^ power`, `10 ^ (power - 1)` and so on that has
one; `room` bounds their number. -/
def Target.coarsest (t : Target) : Nat → Int → Decimal
  | 0, power => ⟨t.below power, power⟩
  | room + 1, power =>
    match t.onGrid? power with
    | some count => ⟨count, power⟩
    | none => coarsest t room (power - 1)

/-- A decimal without zeros at its end. -/
def stripZeros : Nat → Decimal → Decimal
  | 0, d => d
  | room + 1, d =>
    if d.digits ≠ 0 ∧ d.digits % 10 = 0 then stripZeros room ⟨d.digits / 10, d.exponent + 1⟩ else d

/-- The number of decimal digits of a number. -/
def digitCount (n : Nat) : Nat := (toString n).length

/-- The power of ten of the first digit of the value. -/
def Target.leading (t : Target) : Int :=
  let whole := t.value / t.unit
  if whole ≠ 0 then digitCount whole - 1
  else
    -- `inverse - 1 < unit / value ≤ inverse`
    let inverse := (t.unit + t.value - 1) / t.value
    let size := digitCount inverse
    if inverse = tenTo (size - 1) then -((size : Int) - 1) else -(size : Int)

/-- The shortest decimal that reads back as the positive double `mantissa * 2 ^ exponent`. -/
def ofDouble (mantissa : Nat) (exponent : Int) : Decimal :=
  let t := target mantissa exponent
  stripZeros 400 (t.coarsest 18 t.leading)

end GridStencil.Number.Shortest
