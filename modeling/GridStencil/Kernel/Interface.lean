import GridStencil.Context

/-!
What a caller has to provide to run a stencil.

The fields are numbered, parameters first and temporaries behind them, and so are the scalars.
Kernels speak of both by number.
-/

namespace GridStencil

/-- A field of a stencil with the padding its buffer needs. -/
structure InterfaceField where
  name : String
  type : ElementType
  dimensions : Dimensions
  role : Program.Role
  halo : Halo
deriving DecidableEq

/-- Whether the caller provides the field. -/
def InterfaceField.isParameter (field : InterfaceField) : Bool := field.role != .temporary

/-- The fields and scalars of a stencil, and the planes it needs. -/
structure Interface where
  name : String
  fields : List InterfaceField
  scalars : List Program.Scalar
  minPlanes : Nat
deriving DecidableEq

namespace Interface

/-- The interface of a context, whose demand has to be known. -/
def ofContext? (context : Context) : Except Error Interface := do
  let demand ← context.requireDemand
  return {
    name := context.program.name
    fields := context.program.fields.map fun field =>
      ⟨field.name, field.type, field.dimensions, field.role, demand.halo field.name⟩
    scalars := context.program.scalars
    minPlanes := context.minPlanes }

/-- The fields that the caller provides. -/
def parameters (interface : Interface) : List InterfaceField :=
  interface.fields.filter InterfaceField.isParameter

/-- The number of a field. -/
def slot? (interface : Interface) (name : String) : Option Nat :=
  interface.fields.findIdx? (·.name == name)

/-- The number of a scalar. -/
def scalarSlot? (interface : Interface) (name : String) : Option Nat :=
  interface.scalars.findIdx? (·.name == name)

end Interface

end GridStencil
