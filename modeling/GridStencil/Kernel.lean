import GridStencil.Kernel.Layout

/-!
Compiled stencils.

A kernel is an interface and a schedule. A run binds a call, computes the tasks of the schedule and
gives the buffers back; when it fails, they hold what was stored until then. `run` takes sizes and
places as numbers without bounds; `execute` stops where one of them does not fit into a word.
-/

namespace GridStencil

/-- A compiled stencil. -/
structure Kernel where
  backend : Backend
  interface : Interface
  schedule : Schedule

namespace Kernel

/-- The kernel of a context, whose demand has to be known. -/
def ofContext? (backend : Backend) (context : Context) : Except Error Kernel := do
  let interface ← Interface.ofContext? context
  let demand ← context.requireDemand
  let schedule ← Schedule.ofProgram? backend interface context.program demand
  return ⟨backend, interface, schedule⟩

/-- The arguments with the buffers of the bound parameters replaced by those of their views. -/
def returned : List BoundField → List View → List Argument → List Argument
  | bound :: fields, view :: views, arguments =>
    returned fields views (arguments.modify bound.argument ({ · with storage := view.storage }))
  | _, _, arguments => arguments

/-- The arguments after a run, and the error that ended it. -/
def run (kernel : Kernel) (call : Call) : List Argument × Option Error :=
  match call.bind kernel.interface with
  | .error cause => (call.arguments, some (.ofCause cause))
  | .ok bound =>
    let (frame, failure) :=
      Schedule.runTasks (kernel.schedule.tasks call.domain)
        (.ofBound kernel.interface bound call.domain)
    (returned bound.fields frame.views call.arguments, failure.map .ofCause)

/-- The arguments after a run, and the error that ended it, unless the program stops in between. -/
def execute (kernel : Kernel) (call : Call) : Except Overflow (List Argument × Option Error) :=
  match call.bind kernel.interface with
  | .error cause => .ok (call.arguments, some (.ofCause cause))
  | .ok bound => do
    Frame.layOut kernel.interface call.domain
    let (frame, failure) ← Schedule.runSteps (kernel.schedule.steps call.domain)
      (.ofBound kernel.interface bound call.domain)
    return (returned bound.fields frame.views call.arguments, failure.map .ofCause)

/-- The line of a field in a listing. -/
def fieldLine (field : InterfaceField) : String :=
  let halo := field.halo.toList.map fun padding =>
    toString padding.below ++ ":" ++ toString padding.above
  "// " ++ field.role.name ++ " " ++ field.name ++ ": " ++ field.type.name ++ "[" ++
    field.dimensions.name ++ "] halo (" ++ ", ".intercalate halo ++ ")"

/-- The lines of a kernel. -/
def lines (kernel : Kernel) : List String :=
  let interface := kernel.interface
  ("// " ++ kernel.backend.name ++ " kernel " ++ Text.quoted interface.name) ::
    interface.fields.map fieldLine ++
    interface.scalars.map (fun scalar =>
      "// scalar " ++ scalar.name ++ ": " ++ scalar.type.name) ++
    (if interface.minPlanes = 0 then []
     else ["// min k size " ++ toString interface.minPlanes]) ++
    kernel.schedule.lines

/-- The listing of a kernel. -/
def render (kernel : Kernel) : String := Text.unlines kernel.lines

end Kernel

end GridStencil
