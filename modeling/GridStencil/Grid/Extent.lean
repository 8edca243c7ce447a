import GridStencil.Grid.Offset
import GridStencil.Number.Range

/-!
Extents: boxes of offsets around a grid point.

An extent has a range of offsets per axis. Zero need not lie in it: a field read one point to the
right only has the range from one to one.
-/

namespace GridStencil

/-- The offsets from `lo` to `hi`, both included. -/
structure OffsetRange where
  lo : Int
  hi : Int
deriving DecidableEq

namespace OffsetRange

/-- The smallest range around two ranges. -/
def hull (a b : OffsetRange) : OffsetRange := ⟨min a.lo b.lo, max a.hi b.hi⟩

/-- The range moved by an offset, unless an end of it leaves the 64-bit range. -/
def shift? (a : OffsetRange) (step : Int) : Option OffsetRange :=
  match Number.addChecked a.lo step, Number.addChecked a.hi step with
  | some lo, some hi => some ⟨lo, hi⟩
  | _, _ => none

/-- The range in brackets. -/
def render (a : OffsetRange) : String := "[" ++ toString a.lo ++ "," ++ toString a.hi ++ "]"

end OffsetRange

/-- How many points a buffer needs on the two sides of one axis. -/
structure Padding where
  below : Nat
  above : Nat
deriving DecidableEq

/-- The padding that reaches all offsets of a range. -/
def OffsetRange.padding (a : OffsetRange) : Padding := ⟨(-a.lo).toNat, a.hi.toNat⟩

/-- The padding of every axis. -/
abbrev Halo := PerAxis Padding

/-- A range of offsets for every axis. -/
structure Extent where
  i : OffsetRange
  j : OffsetRange
  k : OffsetRange
deriving DecidableEq

namespace Extent

/-- The extent that holds one offset. -/
def ofOffset (o : Offset) : Extent := ⟨⟨o.i, o.i⟩, ⟨o.j, o.j⟩, ⟨o.k, o.k⟩⟩

/-- The extent of a point alone. -/
def zero : Extent := ofOffset .zero

/-- The smallest extent around two extents. -/
def hull (a b : Extent) : Extent := ⟨a.i.hull b.i, a.j.hull b.j, a.k.hull b.k⟩

/-- The extent moved by an offset, unless an end of it leaves the 64-bit range. -/
def shift? (a : Extent) (o : Offset) : Option Extent :=
  match a.i.shift? o.i, a.j.shift? o.j, a.k.shift? o.k with
  | some i, some j, some k => some ⟨i, j, k⟩
  | _, _, _ => none

/-- The extent within the plane. -/
def horizontal (a : Extent) : Extent := { a with k := ⟨0, 0⟩ }

/-- The padding that reaches all offsets of an extent. -/
def halo (a : Extent) : Halo := ⟨a.i.padding, a.j.padding, a.k.padding⟩

/-- The extent as listings show it. -/
def render (a : Extent) : String :=
  "i:" ++ a.i.render ++ " j:" ++ a.j.render ++ " k:" ++ a.k.render

end Extent

end GridStencil
