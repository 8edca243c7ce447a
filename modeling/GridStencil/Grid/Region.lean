import GridStencil.Grid.Extent

/-!
Boxes of grid points, measured from the first point of the domain.

The points of a box are listed column by column, with the vertical axis running fastest.
-/

namespace GridStencil

/-- The integers from `start` up to and without `stop`. -/
structure Stretch where
  start : Int
  stop : Int
deriving DecidableEq

namespace Stretch

/-- How many integers there are. -/
def length (s : Stretch) : Nat := (s.stop - s.start).toNat

/-- The integers in increasing order. -/
def toList (s : Stretch) : List Int := (List.range s.length).map fun n : Nat => s.start + n

@[simp] theorem length_toList (s : Stretch) : s.toList.length = s.length := by
  simp [toList]

theorem mem_toList {s : Stretch} {n : Int} : n ∈ s.toList ↔ s.start ≤ n ∧ n < s.stop := by
  simp only [toList, List.mem_map, List.mem_range, length]
  constructor
  · rintro ⟨m, below, rfl⟩
    omega
  · rintro ⟨above, below⟩
    exact ⟨(n - s.start).toNat, by omega, by omega⟩

end Stretch

/-- A box of grid points. -/
structure Region where
  i : Stretch
  j : Stretch
  k : Stretch
deriving DecidableEq

namespace Region

/-- The domain grown by the horizontal part of an extent, on some planes. -/
def grown (extent : Extent) (domain : PerAxis Nat) (planes : Stretch) : Region where
  i := ⟨extent.i.lo, Number.wrapped domain.i + extent.i.hi⟩
  j := ⟨extent.j.lo, Number.wrapped domain.j + extent.j.hi⟩
  k := planes

/-- The part of a box on one plane. -/
def plane (region : Region) (k : Int) : Region := { region with k := ⟨k, k + 1⟩ }

/-- How many points there are. -/
def size (region : Region) : Nat := region.i.length * region.j.length * region.k.length

/-- The columns of a box, each as the point on plane zero. -/
def columns (region : Region) : List Offset :=
  region.i.toList.flatMap fun i => region.j.toList.map fun j => ⟨i, j, 0⟩

/-- The points of a box. -/
def points (region : Region) : List Offset :=
  region.columns.flatMap fun column => region.k.toList.map fun k => { column with k }

theorem mem_points {region : Region} {p : Offset} :
    p ∈ region.points ↔
      p.i ∈ region.i.toList ∧ p.j ∈ region.j.toList ∧ p.k ∈ region.k.toList := by
  obtain ⟨i, j, k⟩ := p
  simp only [points, columns, List.mem_flatMap, List.mem_map, Offset.mk.injEq]
  constructor
  · rintro ⟨_, ⟨i', hi, j', hj, rfl⟩, k', hk, rfl, rfl, rfl⟩
    exact ⟨hi, hj, hk⟩
  · rintro ⟨hi, hj, hk⟩
    exact ⟨_, ⟨i, hi, j, hj, rfl⟩, k, hk, rfl, rfl, rfl⟩

end Region

end GridStencil
