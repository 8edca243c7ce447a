import GridStencil.Backend
import GridStencil.Context.Printer
import GridStencil.Kernel.Registers
import GridStencil.Kernel.Tree

/-!
The order in which the live statements of a program are computed.

A schedule has the blocks and sections of the program with a stage per live statement. In a
parallel block a stage is computed on all its planes before the next one; in a sequential block all
stages of a section are computed on a plane before the next plane. `tasks` lists all of this, and a
run is the list carried out up to the first failure.
-/

namespace GridStencil

/-- Code that computes a statement. -/
inductive Code
  | pointwise (tree : Tree)
  | regionwise (registers : Registers)

namespace Code

/-- The code of an expression. -/
def ofExpr? (backend : Backend) (interface : Interface) (expr : Program.Expr) :
    Except Cause Code :=
  match backend with
  | .debug => return .pointwise (← Tree.ofExpr? interface expr)
  | .vector => return .regionwise (← Registers.ofExpr? interface expr)

/-- The values of some code at all points of a region. -/
def eval (code : Code) (frame : Frame) (region : Region) : Except Cause (List Float) :=
  match code with
  | pointwise tree => tree.evalAll frame region
  | regionwise registers => registers.evalAll frame region

/-- The lines of some code in a listing. -/
def lines : Code → List String
  | pointwise tree => tree.lines
  | regionwise registers => registers.lines

end Code

/-- A live statement. -/
structure Stage where
  /-- The number of its target. -/
  target : Nat
  /-- The extent on which it is computed. -/
  extent : Extent
  code : Code
  /-- The statement as text. -/
  text : String

/-- The stages of a section. -/
structure StageSection where
  interval : Interval
  stages : List Stage

/-- The sections of a block. -/
structure StageBlock where
  policy : Policy
  sections : List StageSection

/-- The blocks of a program. -/
structure Schedule where
  blocks : List StageBlock

namespace Schedule

open Program

/-- The stage of a statement that is computed on `extent`. -/
def stageOf? (backend : Backend) (source : Source) (interface : Interface)
    (statement : Statement) (extent : Extent) : Except Error Stage :=
  match interface.slot? statement.target with
  | none => .error (Fault.within ⟨statement.span, .undeclaredTarget statement.target⟩ source)
  | some target => do
    let code ← (Code.ofExpr? backend interface statement.value).mapError .ofCause
    return ⟨target, extent, code, statement.target ++ " = " ++ statement.value.render⟩

/-- The stages of the live ones among some statements. -/
def stagesOf? (backend : Backend) (source : Source) (interface : Interface) (demand : Demand) :
    List (Position × Statement) → Except Error (List Stage)
  | [] => .ok []
  | (position, statement) :: rest =>
    match demand.region? position with
    | none => stagesOf? backend source interface demand rest
    | some extent => do
      let stage ← stageOf? backend source interface statement extent
      return stage :: (← stagesOf? backend source interface demand rest)

/-- The schedule of a program. -/
def ofProgram? (backend : Backend) (interface : Interface) (program : Program)
    (demand : Demand) : Except Error Schedule := do
  let blocks ← program.blocks.zipIdx.mapM fun (block, b) => do
    let sections ← block.sections.zipIdx.mapM fun (part, i) => do
      let statements := part.body.zipIdx.map fun (statement, s) =>
        ((⟨b, i, s⟩ : Position), statement)
      let stages ← stagesOf? backend program.source interface demand statements
      return (⟨part.interval, stages⟩ : StageSection)
    return (⟨block.policy, sections⟩ : StageBlock)
  return ⟨blocks⟩

/-- A stage with the region on which it is computed at once. -/
structure Task where
  stage : Stage
  region : Region

/-- The planes of an interval in a domain. -/
def planesOf (interval : Interval) (domain : PerAxis Nat) : Stretch :=
  let (start, stop) := interval.resolve domain.k
  ⟨start, stop⟩

/-- The tasks of a section. -/
def sectionTasks (policy : Policy) (domain : PerAxis Nat) (part : StageSection) : List Task :=
  let planes := planesOf part.interval domain
  let whole := part.stages.map fun stage =>
    (⟨stage, .grown stage.extent domain planes⟩ : Task)
  let onPlane := fun k => whole.map fun task => { task with region := task.region.plane k }
  match policy with
  | .parallel => whole
  | .forward => planes.toList.flatMap onPlane
  | .backward => planes.toList.reverse.flatMap onPlane

/-- The tasks of a schedule in a domain. -/
def tasks (schedule : Schedule) (domain : PerAxis Nat) : List Task :=
  schedule.blocks.flatMap fun block =>
    block.sections.flatMap (sectionTasks block.policy domain)

/-- The frame after a task. Nothing is stored before all values are computed. -/
def runTask (task : Task) (frame : Frame) : Frame × Option Cause :=
  if task.region.size = 0 then (frame, none)
  else
    match task.stage.code.eval frame task.region with
    | .error cause => (frame, some cause)
    | .ok values => frame.commit task.stage.target task.region values

/-- The frame after some tasks, up to the first one that fails. -/
def runTasks : List Task → Frame → Frame × Option Cause
  | [], frame => (frame, none)
  | task :: rest, frame =>
    match runTask task frame with
    | (frame, none) => runTasks rest frame
    | (frame, some cause) => (frame, some cause)

/-- The lines of a section in a listing. -/
def sectionLines (part : StageSection) : List String :=
  ("  interval(" ++ part.interval.render ++ "):") ::
    part.stages.flatMap fun stage =>
      ("    # " ++ stage.text ++ "  @ " ++ stage.extent.render) :: stage.code.lines

/-- The lines of a schedule in a listing. -/
def lines (schedule : Schedule) : List String :=
  schedule.blocks.zipIdx.flatMap fun (block, b) =>
    ("block " ++ toString b ++ " (" ++ block.policy.name ++ "):") ::
      block.sections.flatMap sectionLines

end Schedule

end GridStencil
