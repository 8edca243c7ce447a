import GridStencil.Program.Basic

/-!
Which fields statements read and write, and how reads relate to the order of the planes.

A read in a block is carried if the block assigns the field and has visited the plane that is read
before. Such a read sees what the block itself computed on an earlier plane.
-/

namespace GridStencil.Program

/-- The fields that statements read, in the order of the first read. -/
def readSet (statements : List Statement) : List String :=
  (statements.flatMap fun statement => statement.reads.map Read.field).eraseDups

/-- The fields that statements assign, in the order of the first assignment. -/
def writeSet (statements : List Statement) : List String :=
  (statements.map Statement.target).eraseDups

/-- The fields that a block assigns. -/
def Block.writes (block : Block) : List String := writeSet block.statements

/-- The offsets at which a statement reads its own target on another plane. -/
def Statement.selfReads (statement : Statement) : List Offset :=
  (statement.reads.filter fun read => read.field = statement.target ∧ read.offset.k ≠ 0).map
    Read.offset

/-- Whether a read is carried in a block that assigns `writes`. -/
def Read.isCarried (writes : List String) (policy : Policy) (read : Read) : Bool :=
  writes.contains read.field && policy.visitsBefore read.offset.k

/-- The carried reads of a statement in a block that assigns `writes`. -/
def Statement.carriedReads (statement : Statement) (writes : List String) (policy : Policy) :
    List Read :=
  statement.reads.filter (·.isCarried writes policy)

end GridStencil.Program
