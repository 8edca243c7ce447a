import GridStencil.Kernel.Interface
import GridStencil.Storage

/-!
Calls of a stencil, and matching them with its interface.

Buffers are passed by position or by name. A call is bound if every parameter has one buffer, of
the right type, writable if the parameter is an output, and large enough for the domain and the
padding around it; and if every scalar has one value of the right sort.
-/

namespace GridStencil

/-- A buffer passed to a stencil. -/
structure Argument where
  /-- The parameter it is meant for; without a name, the position decides. -/
  name : Option String
  storage : Storage
  writable : Bool

/-- Where the first point of the domain lies in the buffers. -/
structure Origins where
  /-- The origin in all buffers that have none of their own. -/
  shared : PerAxis Nat
  fields : Name.Table (PerAxis Nat)

namespace Origins

/-- The first point of every buffer. -/
def start : Origins := ⟨.all 0, .empty⟩

/-- The origin in the buffer of a field. -/
def of (origins : Origins) (field : String) : PerAxis Nat :=
  (origins.fields.get? field).getD origins.shared

end Origins

/-- A call of a stencil. -/
structure Call where
  arguments : List Argument
  scalars : List (String × Literal)
  origins : Origins
  domain : PerAxis Nat

/-- A parameter with the buffer that is bound to it. -/
structure BoundField where
  /-- The number of the buffer among the arguments. -/
  argument : Nat
  storage : Storage
  writable : Bool
  origin : PerAxis Nat

/-- The buffers of all parameters and the values of all scalars, in the order of the signature. -/
structure BoundCall where
  fields : List BoundField
  scalars : List Float

namespace Call

/-- Buffers found for parameters so far, with their numbers among the arguments. -/
abbrev Slots := List (Option (Nat × Argument))

/-- The buffers passed by position, with their numbers. -/
def positional (call : Call) : List (Nat × Argument) :=
  call.arguments.zipIdx.filterMap fun (argument, index) =>
    if argument.name.isNone then some (index, argument) else none

/-- The buffers passed by name, with their numbers. -/
def keywords (call : Call) : List (String × Nat × Argument) :=
  call.arguments.zipIdx.filterMap fun (argument, index) =>
    argument.name.map fun name => (name, index, argument)

/-- The slots of as many parameters, with buffers put into the first of them. -/
def firstSlots (count : Nat) (given : List (Nat × Argument)) : Slots :=
  (given.map some).take count ++ List.replicate (count - given.length) none

/-- Puts a buffer passed by name into the slot of its parameter. -/
def place (interface : Interface) (slots : Slots) (keyword : String × Nat × Argument) :
    Except Cause Slots :=
  let (name, argument) := keyword
  match interface.parameters.findIdx? (·.name == name) with
  | none => .error (.noSuchField interface.name name)
  | some slot =>
    if (slots[slot]?.getD none).isSome then .error (.fieldBoundTwice name)
    else .ok (slots.set slot (some argument))

/-- A buffer has to cover the domain and the padding around it along an axis. -/
def checkAxis (name : String) (axis : Axis) (padding : Padding) (size origin domain : Nat) :
    Except Cause Unit :=
  if origin < padding.below then .error (.originTooSmall name padding.below axis origin)
  else if Number.wordCount ≤ origin + domain + padding.above then
    .error (.endOverflows name origin domain axis)
  else if size < origin + domain + padding.above then
    .error (.bufferTooSmall name (origin + domain + padding.above) axis size)
  else .ok ()

/-- A buffer has to cover the domain and the padding around it. -/
def checkHalo (field : InterfaceField) (shape origin domain : PerAxis Nat) :
    Except Cause Unit := do
  checkAxis field.name .i field.halo.i shape.i origin.i domain.i
  checkAxis field.name .j field.halo.j shape.j origin.j domain.j
  checkAxis field.name .k field.halo.k shape.k origin.k domain.k

/-- Binds a buffer to a parameter. -/
def bindField (stencil : String) (call : Call) (field : InterfaceField)
    (slot : Option (Nat × Argument)) : Except Cause BoundField :=
  match slot with
  | none => .error (.fieldUnbound field.name stencil)
  | some (index, argument) =>
    let shape := argument.storage.shape
    let origin := call.origins.of field.name
    let bound : BoundField := ⟨index, argument.storage, argument.writable, origin⟩
    if argument.storage.type ≠ field.type then
      .error (.elementTypeDiffers field.name field.type argument.storage.type)
    else if field.role = .output ∧ argument.writable = false then
      .error (.outputReadOnly field.name)
    else
      match field.dimensions with
      | .zero =>
        if shape = Storage.pointShape then .ok bound else .error (.zeroDimShape field.name shape)
      | .ijk => do
        checkHalo field shape origin call.domain
        return bound

/-- Binds buffers to all parameters. -/
def bindFields (interface : Interface) (call : Call) : Except Cause (List BoundField) := do
  let given := call.positional
  let count := interface.parameters.length
  if count < given.length then
    .error (.tooManyFields interface.name count given.length)
  let slots ← call.keywords.foldlM (place interface) (firstSlots count given)
  (interface.parameters.zip slots).mapM fun (field, slot) =>
    bindField interface.name call field slot

/-- Whether a value is of the sort that a type asks for. Integers stand for floating point numbers,
too. -/
def fits (type : ElementType) (value : Literal) : Bool :=
  match type, value with
  | .bool, .bool _ => true
  | .i32, .int _ | .i64, .int _ => true
  | .f32, .int _ | .f64, .int _ | .f32, .float _ | .f64, .float _ => true
  | _, _ => false

/-- Every value has to be meant for a scalar, and no two for the same. -/
def checkScalars (interface : Interface) (seen : List String) :
    List (String × Literal) → Except Cause Unit
  | [] => .ok ()
  | (name, _) :: rest =>
    if (interface.scalarSlot? name).isNone then .error (.noSuchScalar interface.name name)
    else if name ∈ seen then .error (.scalarBoundTwice name)
    else checkScalars interface (name :: seen) rest

/-- The value of a scalar, rounded to its type. -/
def bindScalar (interface : Interface) (given : List (String × Literal))
    (scalar : Program.Scalar) : Except Cause Float :=
  match given.lookup scalar.name with
  | none => .error (.scalarUnbound scalar.name interface.name)
  | some value =>
    if fits scalar.type value then .ok (scalar.type.cast value.toFloat)
    else .error (.scalarTypeDiffers scalar.name scalar.type value)

/-- The values of all scalars. -/
def bindScalars (interface : Interface) (call : Call) : Except Cause (List Float) := do
  checkScalars interface [] call.scalars
  interface.scalars.mapM (bindScalar interface call.scalars)

/-- The call matched with an interface, or the first mismatch. -/
def bind (call : Call) (interface : Interface) : Except Cause BoundCall := do
  if call.domain.k < interface.minPlanes then
    .error (.tooFewPlanes interface.name interface.minPlanes call.domain.k)
  let fields ← bindFields interface call
  return ⟨fields, ← bindScalars interface call⟩

end Call

end GridStencil
