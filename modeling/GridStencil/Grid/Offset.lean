import GridStencil.Text.Phrase

/-!
Triples with one component per axis of the grid, and offsets between grid points.

The axes `i` and `j` are horizontal; `k` counts planes upwards.
-/

namespace GridStencil

/-- One value per axis. -/
structure PerAxis (α : Type) where
  i : α
  j : α
  k : α
deriving DecidableEq

namespace PerAxis

variable {α β : Type}

/-- The same value on every axis. -/
def all (a : α) : PerAxis α := ⟨a, a, a⟩

/-- The values after a function was applied on every axis. -/
def map (f : α → β) (t : PerAxis α) : PerAxis β := ⟨f t.i, f t.j, f t.k⟩

/-- The values in the order of the axes. -/
def toList (t : PerAxis α) : List α := [t.i, t.j, t.k]

/-- The values in brackets. -/
def render (text : α → String) (t : PerAxis α) : String := Text.bracketed (t.map text).toList

end PerAxis

/-- The distance from one grid point to another. -/
structure Offset where
  i : Int
  j : Int
  k : Int
deriving DecidableEq

namespace Offset

/-- From a point to itself. -/
def zero : Offset := ⟨0, 0, 0⟩

/-- One offset after another. -/
def add (a b : Offset) : Offset := ⟨a.i + b.i, a.j + b.j, a.k + b.k⟩

/-- The offset within the plane. -/
def horizontal (o : Offset) : Offset := ⟨o.i, o.j, 0⟩

/-- The offset as it is written behind a field. -/
def render (o : Offset) : String :=
  Text.bracketed [toString o.i, toString o.j, toString o.k]

end Offset

end GridStencil
