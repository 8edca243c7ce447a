import GridStencil.CommandLine.Options
import GridStencil.Document
import GridStencil.Registry

/-!
The texts that the compiler prints about a compiled stencil.
-/

namespace GridStencil.CommandLine

/-- A range of offsets as a document. -/
def rangeData (range : OffsetRange) : Document := .pair range.lo range.hi

/-- An extent as a document. -/
def extentData (extent : Extent) : Document :=
  .ofFields [("i", rangeData extent.i), ("j", rangeData extent.j), ("k", rangeData extent.k)]

/-- The demand on a field as a document. -/
def fieldDemandData (demand : FieldDemand) : Document :=
  .ofFields [("extent", extentData demand.extent),
    ("seq_dep", (demand.carried.map rangeData).getD .null)]

/-- The fields of a demand as a document. -/
def demandData (demand : Demand) : Document :=
  .ofFields (demand.fields.map fun (name, field) => (name, fieldDemandData field))

/-- A field of an interface as a document. -/
def interfaceFieldData (field : InterfaceField) : Document :=
  .ofFields [
    ("name", .text field.name),
    ("dtype", .text field.type.tag),
    ("dims", .text field.dimensions.tag),
    ("kind", .text field.role.tag),
    ("halo", .list (field.halo.toList.map fun padding => .pair padding.below padding.above))]

/-- An interface as a document. -/
def interfaceData (interface : Interface) : Document :=
  .ofFields [
    ("name", .text interface.name),
    ("fields", .list (interface.fields.map interfaceFieldData)),
    ("scalars", .list (interface.scalars.map fun scalar =>
      .ofFields [("name", .text scalar.name), ("dtype", .text scalar.type.tag)])),
    ("min_k_size", .int interface.minPlanes)]

/-- An artifact as a document. -/
def artifactData (artifact : Artifact) (demand : Demand) : Document :=
  .ofFields [
    ("id", .text artifact.id.render),
    ("backend", .text artifact.backend.name),
    ("interface", interfaceData artifact.kernel.interface),
    ("extents", demandData demand)]

/-- The line about the demand on a field. -/
def demandLine (name : String) (demand : FieldDemand) : String :=
  name ++ ": " ++ demand.extent.render ++
    match demand.carried with
    | some range => " sequential k:" ++ range.render
    | none => ""

/-- The lines about a demand. -/
def demandLines (demand : Demand) : List String :=
  demand.fields.map (fun (name, field) => demandLine name field) ++
    (if demand.deadCount = 0 then []
     else ["# " ++ toString demand.deadCount ++ " dead statements"])

/-- The text that is printed about an artifact. -/
def Emission.render (emission : Emission) (artifact : Artifact) : Except Error String :=
  match emission with
  | program => .ok artifact.context.render
  | extents => return Text.unlines (demandLines (← artifact.context.requireDemand))
  | id => .ok (artifact.id.render ++ "\n")
  | kernel => .ok artifact.kernel.render
  | json => return (artifactData artifact (← artifact.context.requireDemand)).render ++ "\n"

end GridStencil.CommandLine
