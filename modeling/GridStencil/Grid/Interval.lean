import GridStencil.Number.Range

/-!
Vertical intervals.

A bound is measured from the bottom or from the top of the domain, so where it lies depends on the
number of planes. Relations between bounds either hold from some number of planes on, fail for
every large number, or concern bounds so far apart that the number does not fit into 64 bits.
-/

namespace GridStencil

/-- The end of the vertical axis that a bound is measured from. -/
inductive Level
  | bottom
  | top
deriving DecidableEq

/-- A height in the domain: an offset from its bottom plane, or from behind its top plane. -/
structure AxisBound where
  level : Level
  offset : Int
deriving DecidableEq

/-- From which number of planes on a relation holds. -/
inductive Threshold
  /-- It holds for `planes` planes and more. -/
  | since (planes : Nat)
  /-- It fails for every large number of planes. -/
  | never
  /-- The number of planes that the two bounds need is out of range. -/
  | tooFarApart (lower upper : AxisBound)
deriving DecidableEq

namespace Threshold

/-- From which number on the relation holds and there are at least `planes` planes. -/
def atLeast (planes : Nat) : Threshold → Threshold
  | .since least => .since (max least planes)
  | never => never
  | tooFarApart lower upper => tooFarApart lower upper

end Threshold

namespace AxisBound

/-- A height measured from the bottom plane. -/
def bottom (offset : Int) : AxisBound := ⟨.bottom, offset⟩

/-- A height measured from behind the top plane. -/
def top (offset : Int) : AxisBound := ⟨.top, offset⟩

/-- The bound that an integer of the source stands for: negative ones count from the top. -/
def ofSource (value : Int) : AxisBound := if 0 ≤ value then bottom value else top value

/-- The plane of the bound in a domain of `planes` planes. -/
def resolve (bound : AxisBound) (planes : Nat) : Int :=
  match bound.level with
  | .bottom => bound.offset
  | .top => Number.wrapped planes + bound.offset

/-- The smallest number of planes for which the bound lies inside the domain. -/
def minPlanes (bound : AxisBound) : Nat :=
  match bound.level with
  | .bottom => bound.offset.toNat
  | .top => (-bound.offset).toNat

/-- From which number of planes on `lower` is at most `upper`, or below it if `strict`. -/
def threshold (lower upper : AxisBound) (strict : Bool) : Threshold :=
  match lower.level, upper.level with
  | .bottom, .bottom | .top, .top =>
    if lower.offset < upper.offset ∨ (strict = false ∧ lower.offset = upper.offset) then .since 0
    else .never
  | .bottom, .top =>
    match Number.addChecked lower.offset (-upper.offset) with
    | none => .tooFarApart lower upper
    | some gap =>
      match Number.addChecked gap (if strict then 1 else 0) with
      | none => .tooFarApart lower upper
      | some planes => .since planes.toNat
  | .top, .bottom => .never

/-- Whether a bound lies below another in every large domain. -/
def below (a b : AxisBound) : Bool :=
  match a.level, b.level with
  | .bottom, .top => true
  | .top, .bottom => false
  | _, _ => a.offset < b.offset

/-- The bound as it is written in source text. -/
def render (bound : AxisBound) : String :=
  if bound = top 0 then "None" else toString bound.offset

end AxisBound

/-- The planes from `start` up to and without `stop`. -/
structure Interval where
  start : AxisBound
  stop : AxisBound
deriving DecidableEq

namespace Interval

/-- All planes of the domain. -/
def full : Interval := ⟨.bottom 0, .top 0⟩

/-- The first plane and the one behind the last, in a domain of `planes` planes. -/
def resolve (interval : Interval) (planes : Nat) : Int × Int :=
  (interval.start.resolve planes, interval.stop.resolve planes)

/-- From which number of planes on the interval is inside the domain and not empty. -/
def threshold (interval : Interval) : Threshold :=
  (interval.start.threshold interval.stop true).atLeast
    (max interval.start.minPlanes interval.stop.minPlanes)

/-- From which number of planes on `lower` ends where `upper` starts, or earlier. -/
def thresholdBefore (lower upper : Interval) : Threshold :=
  lower.stop.threshold upper.start false

/-- Whether an interval comes before another by its start, and by its end for equal starts, in
every large domain. -/
def below (a b : Interval) : Bool :=
  a.start.below b.start || (a.start = b.start && a.stop.below b.stop)

/-- The interval as it is written in source text. -/
def render (interval : Interval) : String :=
  if interval = full then "..." else interval.start.render ++ ", " ++ interval.stop.render

end Interval

end GridStencil
