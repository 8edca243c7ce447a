import GridStencil.Grid.Region
import GridStencil.Kernel.Call

/-!
The buffers of one run of a kernel.

Every field has a view: its buffer and where the domain starts in it. The buffers of temporaries
start as zeros, and it is recorded which of their planes have been computed; a read of any other
plane fails, as does an access outside a buffer.
-/

namespace GridStencil

/-- A buffer with the place of the domain in it. -/
structure View where
  name : String
  storage : Storage
  /-- The first point of the domain. -/
  origin : Offset
  /-- Whether every access goes to the only element. -/
  zeroDim : Bool
  writable : Bool
  /-- For temporaries, which planes of the buffer have been computed. -/
  computed : Option (List Bool)

namespace View

/-- The point of the buffer that belongs to a point of the grid. -/
def index (view : View) (point : Offset) : Offset :=
  if view.zeroDim then .zero else view.origin.add point

/-- Whether plane `k` belongs to a temporary and has not been computed. What lies outside the buffer
is not judged. -/
def lacks (view : View) (k : Int) : Bool :=
  match view.computed with
  | none => false
  | some planes =>
    let plane := view.origin.k + k
    0 ≤ plane && planes[plane.toNat]? == some false

/-- Some planes have to be computed. -/
def requirePlanes (view : View) (planes : Stretch) : Except Cause Unit :=
  match planes.toList.find? view.lacks with
  | some plane => .error (.planeNotComputed view.name plane)
  | none => .ok ()

/-- The access to a point outside the buffer. -/
def outside (view : View) (point : Offset) : Cause :=
  .readOutside view.name point view.storage.shape

/-- The value at a point. -/
def read (view : View) (point : Offset) : Except Cause Float :=
  match view.storage.place? (view.index point) with
  | none => .error (view.outside point)
  | some place => do
    view.requirePlanes ⟨point.k, point.k + 1⟩
    return view.storage.valueAt place

/-- The values of the column that starts at `first`. -/
def readColumn (view : View) (first : Offset) (length : Nat) : Except Cause (List Float) :=
  let last := first.add ⟨0, 0, length - 1⟩
  match view.storage.place? (view.index first), view.storage.place? (view.index last) with
  | some place, some _ =>
    .ok ((List.range length).map fun n => view.storage.valueAt (place + n))
  | _, _ => .error (view.outside first)

/-- The values at all points of a region moved by an offset. -/
def gather (view : View) (offset : Offset) (region : Region) : Except Cause (List Float) :=
  if view.zeroDim then .ok (List.replicate region.size (view.storage.valueAt 0))
  else if region.k.length = 0 then .ok []
  else do
    view.requirePlanes ⟨region.k.start + offset.k, region.k.stop + offset.k⟩
    let columns ← region.columns.mapM fun column =>
      view.readColumn (({ column with k := region.k.start } : Offset).add offset) region.k.length
    return columns.flatten

/-- The buffer after stores to some points, up to the first one outside it. -/
def storeAll (view : View) : List (Offset × Float) → View × Option Cause
  | [] => (view, none)
  | (point, value) :: rest =>
    match view.storage.place? (view.index point) with
    | none => (view, some (.writeOutside view.name (view.index point) view.storage.shape))
    | some place => storeAll { view with storage := view.storage.put place value } rest

/-- The view in which some planes count as computed. -/
def markComputed (view : View) (planes : Stretch) : View :=
  { view with computed := view.computed.map fun computed =>
      planes.toList.foldl (fun computed k =>
        let plane := view.origin.k + k
        if 0 ≤ plane then computed.set plane.toNat true else computed) computed }

/-- The buffer after the values for all points of a region were stored. -/
def commit (view : View) (region : Region) (values : List Float) : View × Option Cause :=
  if view.writable then
    match view.storeAll (region.points.zip values) with
    | (view, some cause) => (view, some cause)
    | (view, none) => (view.markComputed region.k, none)
  else (view, some (.writtenReadOnly view.name))

/-- Stands in for a field that has no view. -/
def missing : View := ⟨"", .zeros (.all 0) .f64, .zero, false, false, none⟩

end View

/-- The views of all fields and the values of all scalars, by number. -/
structure Frame where
  views : List View
  scalars : List Float

namespace Frame

/-- The view of a parameter. -/
def viewOfBound (field : InterfaceField) (bound : BoundField) : View where
  name := field.name
  storage := bound.storage
  origin :=
    ⟨Number.wrapped bound.origin.i, Number.wrapped bound.origin.j, Number.wrapped bound.origin.k⟩
  zeroDim := field.dimensions = .zero
  writable := bound.writable
  computed := none

/-- The number of points of a padded domain along an axis. -/
def padded (domain : Nat) (padding : Padding) : Nat := domain + (padding.below + padding.above)

/-- The view of a temporary. -/
def viewOfTemporary (field : InterfaceField) (domain : PerAxis Nat) : View :=
  let zeroDim : Bool := field.dimensions = .zero
  let shape : PerAxis Nat := if zeroDim then .all 1 else
    ⟨padded domain.i field.halo.i, padded domain.j field.halo.j, padded domain.k field.halo.k⟩
  { name := field.name
    storage := .zeros shape field.type
    origin := ⟨Number.wrapped field.halo.i.below, Number.wrapped field.halo.j.below,
      Number.wrapped field.halo.k.below⟩
    zeroDim
    writable := true
    computed := if zeroDim then none else some (List.replicate shape.k false) }

/-- The views of fields, of which the parameters take the bound buffers in turn. -/
def viewsOf (domain : PerAxis Nat) : List InterfaceField → List BoundField → List View
  | [], _ => []
  | field :: fields, bound =>
    if field.isParameter then
      match bound with
      | first :: rest => viewOfBound field first :: viewsOf domain fields rest
      | [] => viewsOf domain fields []
    else viewOfTemporary field domain :: viewsOf domain fields bound

/-- The frame of a bound call. -/
def ofBound (interface : Interface) (bound : BoundCall) (domain : PerAxis Nat) : Frame :=
  ⟨viewsOf domain interface.fields bound.fields, bound.scalars⟩

/-- The view of a field. -/
def view (frame : Frame) (slot : Nat) : View := frame.views.getD slot .missing

/-- The value of a scalar. -/
def scalar (frame : Frame) (slot : Nat) : Float := frame.scalars.getD slot 0.0

/-- The frame after the values for all points of a region of a field were stored. -/
def commit (frame : Frame) (slot : Nat) (region : Region) (values : List Float) :
    Frame × Option Cause :=
  let (view, failure) := (frame.view slot).commit region values
  ({ frame with views := frame.views.set slot view }, failure)

end Frame

end GridStencil
