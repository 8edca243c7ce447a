import GridStencil.Kernel.Schedule

/-!
The sizes and places that a run computes.

The shapes of temporaries follow from the domain and their padding, the bounds of regions from the
domain and the extents of their stages. All of this is arithmetic on words that stops the program
where a result does not fit. `Frame.layOut` does it for the buffers, before anything is computed;
`Schedule.steps` lists the tasks of a schedule with the places where the program stops between them.
-/

namespace GridStencil

namespace Frame

/-- The number of points of a padded domain along an axis. -/
def side (domain : Nat) (padding : Padding) : Except Overflow Nat := do
  Number.plus domain (← Number.plus padding.below padding.above)

/-- Makes room for a temporary: for its elements, and for the record of its computed planes. -/
def layOutTemporary (domain : PerAxis Nat) (field : InterfaceField) : Except Overflow Unit :=
  match field.dimensions with
  | .zero => .ok ()
  | .ijk => do
    let shape : PerAxis Nat := ⟨← side domain.i field.halo.i, ← side domain.j field.halo.j,
      ← side domain.k field.halo.k⟩
    Storage.requireRoom shape
    Number.requireMemory shape.k

/-- Makes room for all temporaries. -/
def layOut (interface : Interface) (domain : PerAxis Nat) : Except Overflow Unit :=
  (interface.fields.filter fun field => !field.isParameter).forM (layOutTemporary domain)

end Frame

namespace Stretch

/-- How many integers there are, counted in a word. -/
def count (s : Stretch) : Except Overflow Nat := do
  return (← Number.minusSigned s.stop s.start).toNat

end Stretch

namespace Region

/-- Finds the bounds of a box that is grown by an extent. -/
def layOut (domain : PerAxis Nat) (extent : Extent) : Except Overflow Unit := do
  let _ ← Number.plusSigned (Number.wrapped domain.i) extent.i.hi
  let _ ← Number.plusSigned (Number.wrapped domain.j) extent.j.hi

/-- How many points there are, counted in a word. -/
def count (region : Region) : Except Overflow Nat := do
  let columns ← Number.times (← region.i.count) (← region.j.count)
  Number.times columns (← region.k.count)

end Region

namespace AxisBound

/-- Finds the plane of a bound. -/
def layOut (domain : PerAxis Nat) (bound : AxisBound) : Except Overflow Unit :=
  match bound.level with
  | .bottom => .ok ()
  | .top => do
    let _ ← Number.plusSigned (Number.wrapped domain.k) bound.offset

end AxisBound

namespace Schedule

/-- Finds the planes of a section and the bounds of its regions. -/
def layOutSection (domain : PerAxis Nat) (part : StageSection) : Except Overflow Unit := do
  part.interval.start.layOut domain
  part.interval.stop.layOut domain
  part.stages.forM fun stage => Region.layOut domain stage.extent

/-- What is done next: a task, or stopping the program. -/
abbrev Step := Except Overflow Task

/-- A task, whose points are counted first. -/
def stepOf (task : Task) : Step := do
  let _ ← task.region.count
  return task

/-- The steps of a section. -/
def sectionSteps (policy : Policy) (domain : PerAxis Nat) (part : StageSection) : List Step :=
  match layOutSection domain part with
  | .error overflow => [.error overflow]
  | .ok () => (sectionTasks policy domain part).map stepOf

/-- The steps of a schedule in a domain. -/
def steps (schedule : Schedule) (domain : PerAxis Nat) : List Step :=
  schedule.blocks.flatMap fun block =>
    block.sections.flatMap (sectionSteps block.policy domain)

/-- The frame after some steps, up to the first task that fails, unless the program stops before. -/
def runSteps : List Step → Frame → Except Overflow (Frame × Option Cause)
  | [], frame => .ok (frame, none)
  | .error overflow :: _, _ => .error overflow
  | .ok task :: rest, frame =>
    match runTask task frame with
    | (frame, none) => runSteps rest frame
    | (frame, some cause) => .ok (frame, some cause)

end Schedule

end GridStencil
