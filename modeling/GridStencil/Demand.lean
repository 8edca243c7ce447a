import GridStencil.Error
import GridStencil.Grid.Extent
import GridStencil.Program.Access

/-!
What the outputs of a program demand of its fields and statements.

Demands flow backwards. An output is needed on the domain; a statement is live if its target is
needed behind it, and is then computed on the horizontal part of that extent; what it reads is
needed on its extent moved by the offset of the read.

A carried read never leaves the domain vertically, so its vertical offset does not count, but it
may reach statements that stand behind the reader. A sequential block is therefore swept again with
the demands of its carried reads until they stop growing. Such demands are sums of offsets along
paths through the fields, and a path longer than the number of fields has a cycle: what still grows
after that many sweeps grows for ever.
-/

namespace GridStencil

/-- What a program needs of one field. -/
structure FieldDemand where
  /-- The offsets from the points of the domain at which the field is accessed. -/
  extent : Extent
  /-- The vertical offsets of carried reads. -/
  carried : Option OffsetRange
deriving DecidableEq

/-- What a program needs of its fields and statements. -/
structure Demand where
  /-- The fields that are accessed, in the order of their declaration. -/
  fields : List (String × FieldDemand)
  /-- The live statements with the extents on which they are computed. -/
  live : List (Program.Position × Extent)
  /-- How many statements there are. -/
  statements : Nat
deriving DecidableEq

namespace Demand

open Program

/-- What is needed of a field, if it is accessed at all. -/
def field? (demand : Demand) (name : String) : Option FieldDemand := demand.fields.lookup name

/-- The extent at which a field is accessed. -/
def extent? (demand : Demand) (name : String) : Option Extent :=
  (demand.field? name).map FieldDemand.extent

/-- The padding that a field needs. One that is not accessed needs none. -/
def halo (demand : Demand) (name : String) : Halo :=
  match demand.extent? name with
  | some extent => extent.halo
  | none => Extent.zero.halo

/-- The extent on which a statement is computed, if it is live. -/
def region? (demand : Demand) (position : Position) : Option Extent :=
  demand.live.lookup position

/-- Whether nothing depends on a statement. -/
def isDead (demand : Demand) (position : Position) : Bool := (demand.region? position).isNone

/-- How many statements are dead. -/
def deadCount (demand : Demand) : Nat := demand.statements - demand.live.length

/-- Extents at which fields are needed. -/
abbrev Needs := Name.Table Extent

/-- The needs with a field needed on one more extent. -/
def Needs.add (needs : Needs) (field : String) (extent : Extent) : Needs :=
  needs.insert field (match needs.get? field with
    | some known => known.hull extent
    | none => extent)

/-- Both needs together. -/
def Needs.join (needs more : Needs) : Needs :=
  more.entries.foldl (fun needs (field, extent) => needs.add field extent) needs

/-- The fields of which `more` needs something that `needs` does not, in the order of names. -/
def Needs.growth (needs more : Needs) : List String :=
  more.names.filter fun field => (needs.join more).get? field ≠ needs.get? field

/-- What is known of the demands behind some place of a block. -/
structure Sweep where
  needs : Needs
  /-- The needs of carried reads alone. -/
  carried : Needs
  /-- The vertical offsets of carried reads. -/
  steps : Name.Table OffsetRange
  /-- The live statements. -/
  live : List (Position × Extent)

/-- A sweep that starts behind the end of a block. -/
def Sweep.start (needs : Needs) : Sweep := ⟨needs, .empty, .empty, []⟩

/-- One more vertical offset of a carried read. -/
def addStep (steps : Name.Table OffsetRange) (field : String) (dk : Int) :
    Name.Table OffsetRange :=
  steps.insert field (match steps.get? field with
    | some known => known.hull ⟨dk, dk⟩
    | none => ⟨dk, dk⟩)

/-- The extent moved by the offset of a read. -/
def moved (extent : Extent) (field : String) (offset : Offset) : Except Cause Extent :=
  match extent.shift? offset with
  | some moved => .ok moved
  | none => .error (.readTooFar field offset)

/-- The demands before a read that is made on `extent`. -/
def Sweep.read (writes : List String) (policy : Policy) (extent : Extent) (sweep : Sweep)
    (read : Read) : Except Cause Sweep :=
  if read.isCarried writes policy then do
    let reached ← moved extent read.field read.offset.horizontal
    return { sweep with
      needs := sweep.needs.add read.field reached
      carried := sweep.carried.add read.field reached
      steps := addStep sweep.steps read.field read.offset.k }
  else do
    let reached ← moved extent read.field read.offset
    return { sweep with needs := sweep.needs.add read.field reached }

/-- The demands before a statement. -/
def Sweep.statement (writes : List String) (policy : Policy) (sweep : Sweep)
    (position : Position) (statement : Statement) : Except Fault Sweep :=
  match sweep.needs.get? statement.target with
  | none => .ok sweep
  | some needed =>
    let extent := needed.horizontal
    let sweep := { sweep with live := (position, extent) :: sweep.live }
    (statement.reads.foldlM (Sweep.read writes policy extent) sweep).mapError
      (⟨statement.span, ·⟩)

/-- The demands before a list of statements. -/
def Sweep.statements (writes : List String) (policy : Policy) (sweep : Sweep) :
    List (Position × Statement) → Except Fault Sweep
  | [] => .ok sweep
  | (position, statement) :: rest => do
    let behind ← Sweep.statements writes policy sweep rest
    behind.statement writes policy position statement

/-- The demands before a sequential block, where `needs` are those behind it and `seeds` those of
the carried reads found so far; at most `further` sweeps follow the first one. -/
def settle (block : Block) (index : Nat) (statements : List (Position × Statement))
    (needs : Needs) (further : Nat) (seeds : Needs) : Except Fault Sweep := do
  let sweep ← Sweep.statements block.writes block.policy (.start (needs.join seeds)) statements
  let grown := seeds.growth sweep.carried
  if grown.isEmpty then return sweep
  else
    match further with
    | 0 => .error ⟨block.span, .growingRegion grown block.policy index⟩
    | further + 1 => settle block index statements needs further (seeds.join sweep.carried)

/-- The demands before a block, where `needs` are those behind it. -/
def sweepBlock (program : Program) (block : Block) (index : Nat) (needs : Needs) :
    Except Fault Sweep :=
  let statements := program.statements.filter (·.1.block = index)
  if block.policy.isSequential then
    settle block index statements needs (program.fields.length + 1) .empty
  else Sweep.statements [] block.policy (.start needs) statements

/-- What is known of the demands before some blocks. -/
structure Demands where
  needs : Needs
  steps : Name.Table OffsetRange
  live : List (Position × Extent)

/-- The demands behind the last block: the outputs are needed on the domain. -/
def Demands.start (program : Program) : Demands :=
  ⟨.ofList (program.outputs.map fun field => (field.name, .zero)), .empty, []⟩

/-- The demands before blocks with their indices. -/
def Demands.blocks (program : Program) (demands : Demands) :
    List (Block × Nat) → Except Fault Demands
  | [] => .ok demands
  | (block, index) :: rest => do
    let behind ← Demands.blocks program demands rest
    let sweep ← sweepBlock program block index behind.needs
    let steps := sweep.steps.entries.foldl (fun steps (field, range) =>
      addStep (addStep steps field range.lo) field range.hi) behind.steps
    return ⟨sweep.needs, steps, sweep.live ++ behind.live⟩

/-- The demand of a program, or the fault that leaves it without one. -/
def ofProgram? (program : Program) : Except Fault Demand := do
  let demands ← Demands.blocks program (.start program) program.blocks.zipIdx
  let fields := program.fields.filterMap fun field =>
    (demands.needs.get? field.name).map fun extent =>
      (field.name, ⟨extent, demands.steps.get? field.name⟩)
  return ⟨fields, demands.live, program.statements.length⟩

end Demand

end GridStencil
