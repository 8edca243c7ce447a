import GridStencil.ElementType
import GridStencil.Grid.Interval
import GridStencil.Grid.Offset
import GridStencil.Literal
import GridStencil.Name.Table
import GridStencil.Operator
import GridStencil.Policy
import GridStencil.Source

/-!
Stencil programs: definitions in which every name is resolved.

A program has no externals, no branches and no constants to fold any more. It is a list of blocks
with an iteration policy each; a block has sections with an interval each, and a section is a list
of assignments. `Program.statements` lists them in the order of the text, which is the order of
execution within a plane.
-/

namespace GridStencil

/-- Values of externals. -/
abbrev Externals := Name.Table Literal

/-- Element types that replace declared ones. -/
abbrev Signature := Name.Table ElementType

/-- The text of externals. -/
def Externals.render (externals : Externals) : String :=
  Name.Table.render "=" Literal.render externals

/-- The text of a signature. -/
def Signature.render (signature : Signature) : String :=
  Name.Table.render ":" ElementType.name signature

namespace Program

/-- What a program uses a field for. -/
inductive Role
  /-- A parameter that is only read. -/
  | input
  /-- A parameter that is assigned. -/
  | output
  /-- A field that the program owns. -/
  | temporary
deriving DecidableEq

/-- The word for a role in listings. -/
def Role.name : Role → String
  | .input => "input"
  | .output => "output"
  | .temporary => "temporary"

/-- The word for a role as a tag of structured data. -/
def Role.tag : Role → String
  | .input => "Input"
  | .output => "Output"
  | .temporary => "Temporary"

/-- A field of a program. -/
structure Field where
  name : String
  type : ElementType
  dimensions : Dimensions
  role : Role
deriving DecidableEq

/-- Whether the caller provides the field. -/
def Field.isParameter (field : Field) : Bool := field.role != .temporary

/-- A scalar parameter of a program. -/
structure Scalar where
  name : String
  type : ElementType
deriving DecidableEq

/-- The value of an assignment. -/
inductive Expr
  /-- A field at an offset from the current point. -/
  | field (name : String) (offset : Offset)
  | scalar (name : String)
  | literal (value : Literal)
  | unary (op : UnaryOperator) (arg : Expr)
  | binary (op : BinaryOperator) (left right : Expr)
  /-- The second expression where the first is not zero, the third elsewhere. -/
  | select (condition whenTrue whenFalse : Expr)
deriving DecidableEq

/-- A field at an offset. -/
structure Read where
  field : String
  offset : Offset
deriving DecidableEq

/-- The text of a read, with its offset in any case. -/
def Read.render (read : Read) : String := read.field ++ read.offset.render

/-- The fields an expression reads, in the order of evaluation. -/
def Expr.reads : Expr → List Read
  | field name offset => [⟨name, offset⟩]
  | scalar _ | literal _ => []
  | unary _ arg => arg.reads
  | binary _ left right => left.reads ++ right.reads
  | select condition whenTrue whenFalse => condition.reads ++ whenTrue.reads ++ whenFalse.reads

/-- An assignment to the current point of a field. -/
structure Statement where
  target : String
  value : Expr
  span : Span
deriving DecidableEq

/-- The reads of a statement. -/
def Statement.reads (statement : Statement) : List Read := statement.value.reads

/-- Assignments on the planes of an interval. -/
structure Section where
  interval : Interval
  body : List Statement
  span : Span
deriving DecidableEq

/-- Sections under one iteration policy. -/
structure Block where
  policy : Policy
  sections : List Section
  span : Span
deriving DecidableEq

/-- The statements of a block. -/
def Block.statements (block : Block) : List Statement := block.sections.flatMap Section.body

/-- Where a statement stands: the indices of its block, of its section in the block and of itself
in the section. -/
structure Position where
  block : Nat
  part : Nat
  statement : Nat
deriving DecidableEq

/-- The text of a position. -/
def Position.render (position : Position) : String :=
  ".".intercalate ([position.block, position.part, position.statement].map toString)

end Program

/-- A resolved stencil. -/
structure Program where
  source : Source
  name : String
  /-- The parameters in the order of the signature, then the temporaries in the order of their
  first assignment. -/
  fields : List Program.Field
  scalars : List Program.Scalar
  blocks : List Program.Block

namespace Program

/-- The field with a name. -/
def field? (program : Program) (name : String) : Option Field :=
  program.fields.find? (·.name == name)

/-- The fields that the caller provides. -/
def parameters (program : Program) : List Field := program.fields.filter Field.isParameter

/-- The fields that the program owns. -/
def temporaries (program : Program) : List Field := program.fields.filter (·.role == .temporary)

/-- The parameters that are assigned. -/
def outputs (program : Program) : List Field := program.fields.filter (·.role == .output)

/-- All statements with their positions, in the order of the text. -/
def statements (program : Program) : List (Position × Statement) :=
  program.blocks.zipIdx.flatMap fun (block, b) =>
    block.sections.zipIdx.flatMap fun (part, i) =>
      part.body.zipIdx.map fun (statement, s) => (⟨b, i, s⟩, statement)

end Program

end GridStencil
