import GridStencil.ElementType
import GridStencil.Error
import GridStencil.Number.Size

/-!
Dense buffers of grid points.

The elements lie in one array, with the vertical axis running fastest and the first horizontal
axis slowest. Every store rounds to the element type, so the elements are always values of it.
A buffer is made only if its points can be counted and its elements have room in memory.
-/

namespace GridStencil

/-- How many points a shape has. -/
def PerAxis.volume (shape : PerAxis Nat) : Nat := shape.i * shape.j * shape.k

/-- How many points a shape has, counted in a word. -/
def PerAxis.count (shape : PerAxis Nat) : Except Overflow Nat := do
  Number.times (← Number.times shape.i shape.j) shape.k

/-- A buffer with one element per point of its shape. -/
structure Storage where
  shape : PerAxis Nat
  type : ElementType
  data : Array Float
  size_data : data.size = shape.volume

namespace Storage

/-- The access to a point outside a shape. -/
structure OutOfBounds where
  index : PerAxis Nat
  shape : PerAxis Nat
deriving DecidableEq

/-- A sentence that names the point and the shape. -/
def OutOfBounds.message (fault : OutOfBounds) : String :=
  "index " ++ Cause.shapeText fault.index ++ " out of bounds for shape " ++
    Cause.shapeText fault.shape

/-- A buffer full of one value. -/
def filled (shape : PerAxis Nat) (type : ElementType) (value : Float) : Storage where
  shape
  type
  data := Array.replicate shape.volume (type.cast value)
  size_data := Array.size_replicate

/-- A buffer full of zeros. -/
def zeros (shape : PerAxis Nat) (type : ElementType) : Storage where
  shape
  type
  data := Array.replicate shape.volume 0.0
  size_data := Array.size_replicate

/-- The shape of a single point. -/
def pointShape : PerAxis Nat := .all 1

/-- A buffer for a field without axes. -/
def single (type : ElementType) (value : Float) : Storage := filled pointShape type value

/-- The point that the element at a place of the array belongs to. -/
def pointAt (shape : PerAxis Nat) (place : Nat) : PerAxis Nat :=
  ⟨place / shape.k / shape.j, place / shape.k % shape.j, place % shape.k⟩

/-- A buffer whose elements are given by a function of the point. -/
def ofFunction (shape : PerAxis Nat) (type : ElementType) (f : PerAxis Nat → Float) :
    Storage where
  shape
  type
  data := Array.ofFn fun place : Fin shape.volume => type.cast (f (pointAt shape place))
  size_data := Array.size_ofFn

/-- A buffer with the given elements, if they are as many as its points. -/
def ofList? (shape : PerAxis Nat) (type : ElementType) (values : List Float) :
    Except Cause Storage :=
  if h : values.length = shape.volume then
    .ok ⟨shape, type, (values.map type.cast).toArray, by simpa using h⟩
  else .error (.bufferLength shape shape.volume values.length)

/-- Memory for the elements of a shape, of eight bytes each. -/
def requireRoom (shape : PerAxis Nat) : Except Overflow Unit := do
  Number.requireMemory (8 * (← shape.count))

/-- What a buffer is made of. -/
inductive Making
  | zeros (shape : PerAxis Nat)
  | function (shape : PerAxis Nat) (f : PerAxis Nat → Float)
  | list (shape : PerAxis Nat) (values : List Float)
  | single (value : Float)

/-- Why a buffer is not made. -/
inductive Refusal
  | overflow (overflow : Overflow)
  | mismatch (cause : Cause)

/-- A new buffer. -/
def make? (type : ElementType) : Making → Except Refusal Storage
  | .zeros shape => do
    (requireRoom shape).mapError .overflow
    return zeros shape type
  | .function shape f => do
    (requireRoom shape).mapError .overflow
    return ofFunction shape type f
  | .list shape values => do
    let _ ← shape.count.mapError .overflow
    (ofList? shape type values).mapError .mismatch
  | .single value => return single type value

/-- The elements in the order of the array. -/
def toList (storage : Storage) : List Float := storage.data.toList

/-- Whether a point lies in a shape. -/
def inside (shape : PerAxis Nat) (index : Offset) : Bool :=
  (0 ≤ index.i && index.i < shape.i) && (0 ≤ index.j && index.j < shape.j) &&
    (0 ≤ index.k && index.k < shape.k)

/-- The place of a point in the array of a shape. -/
def placeOf (shape : PerAxis Nat) (index : PerAxis Nat) : Nat :=
  (index.i * shape.j + index.j) * shape.k + index.k

/-- The place of a point in the array, if it lies in the buffer. -/
def place? (storage : Storage) (index : Offset) : Option Nat :=
  if inside storage.shape index then
    some (placeOf storage.shape ⟨index.i.toNat, index.j.toNat, index.k.toNat⟩)
  else none

/-- The place of a point in the array, which has to lie in the buffer. -/
def place (storage : Storage) (index : PerAxis Nat) : Except OutOfBounds Nat :=
  if index.i < storage.shape.i ∧ index.j < storage.shape.j ∧ index.k < storage.shape.k then
    .ok (placeOf storage.shape index)
  else .error ⟨index, storage.shape⟩

/-- A point as an offset from the first point of the buffer. -/
def offsetOf (index : PerAxis Nat) : Offset := ⟨index.i, index.j, index.k⟩

/-- The element at a place of the array. -/
def valueAt (storage : Storage) (place : Nat) : Float := storage.data.getD place 0.0

/-- The element at a point, if it lies in the buffer. -/
def get? (storage : Storage) (index : PerAxis Nat) : Option Float :=
  (storage.place? (offsetOf index)).map storage.valueAt

/-- The element at a point, which has to lie in the buffer. -/
def get (storage : Storage) (index : PerAxis Nat) : Except OutOfBounds Float := do
  return storage.valueAt (← storage.place index)

/-- The buffer after a store to a place of the array. -/
def put (storage : Storage) (place : Nat) (value : Float) : Storage :=
  { storage with
    data := storage.data.setIfInBounds place (storage.type.cast value)
    size_data := by rw [Array.size_setIfInBounds, storage.size_data] }

/-- The buffer after a store to a point, which has to lie in it. -/
def set (storage : Storage) (index : PerAxis Nat) (value : Float) :
    Except OutOfBounds Storage := do
  return storage.put (← storage.place index) value

/-- The buffer after a store to every point. -/
def fill (storage : Storage) (value : Float) : Storage :=
  filled storage.shape storage.type value

/-- Whether two buffers have the same shape and type and equal numbers in all places. -/
def sameAs (a b : Storage) : Bool :=
  a.shape = b.shape && a.type = b.type &&
    (List.zipWith (fun x y => x == y) a.toList b.toList).all id

end Storage

end GridStencil
