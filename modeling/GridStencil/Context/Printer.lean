import GridStencil.Context
import GridStencil.Program.Printer

/-!
The listing of a context: the program with notes on what is known about it.
-/

namespace GridStencil.Context

open Program

/-- The note on the extent of a field. -/
def fieldNote (context : Context) (name : String) : String :=
  match context.demand.bind (·.extent? name) with
  | some extent => "  # " ++ extent.render
  | none => ""

/-- The note on the extent of a statement. -/
def statementNote (context : Context) (position : Position) : String :=
  match context.demand with
  | none => ""
  | some demand =>
    match demand.region? position with
    | some extent => "  # " ++ extent.render
    | none => "  # dead"

/-- The lines of the declarations. -/
def declarationLines (context : Context) : List String :=
  context.program.fields.map (fun field =>
    field.role.name ++ " field " ++ field.name ++ ": " ++ field.type.name ++ "[" ++
      field.dimensions.name ++ "]" ++ context.fieldNote field.name) ++
  context.program.scalars.map (fun scalar =>
    "scalar " ++ scalar.name ++ ": " ++ scalar.type.name) ++
  context.externals.entries.map fun (name, value) =>
    "external " ++ name ++ " = " ++ value.render

/-- The line of a statement. -/
def statementLine (context : Context) (position : Position) (statement : Statement) : String :=
  "      " ++ statement.target ++ " = " ++ statement.value.render ++
    context.statementNote position

/-- The lines of a section. -/
def sectionLines (context : Context) (b i : Nat) (part : Program.Section) : List String :=
  ("    interval(" ++ part.interval.render ++ ") \x7b") ::
    part.body.zipIdx.map (fun (statement, s) => context.statementLine ⟨b, i, s⟩ statement) ++
    ["    \x7d"]

/-- The lines of a block. -/
def blockLines (context : Context) (b : Nat) (block : Block) : List String :=
  ("  with computation(" ++ block.policy.name ++ ") \x7b") ::
    block.sections.zipIdx.flatMap (fun (part, i) => context.sectionLines b i part) ++
    ["  \x7d"]

/-- The lines of the listing. -/
def lines (context : Context) : List String :=
  ("stencil " ++ context.program.name ++ " \x7b") ::
    context.declarationLines.map ("  " ++ ·) ++
    (if context.minPlanes = 0 then []
     else ["  # requires at least " ++ toString context.minPlanes ++ " vertical levels"]) ++
    context.program.blocks.zipIdx.flatMap (fun (block, b) => context.blockLines b block) ++
    ["\x7d"]

/-- The listing. -/
def render (context : Context) : String := Text.unlines context.lines

end GridStencil.Context
