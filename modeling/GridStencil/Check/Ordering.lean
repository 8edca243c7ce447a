import GridStencil.Check.Report
import GridStencil.Program.Access

/-!
The check of reads against the order of the planes.

A statement may read its own target on another plane only where the block has been before, and in a
parallel block not at all. A carried read has to stay inside the domain on the first plane that its
interval visits; it then does so on all other planes, which lie further from that end.
-/

namespace GridStencil.Check

open Program

/-- How many planes are needed so that `plane`, measured from the bottom, is not below the domain;
none if no number suffices. -/
def planesAbove (level : Level) (plane : Int) : Option Nat :=
  match level with
  | .bottom => if 0 ≤ plane then some 0 else none
  | .top => some (-plane).toNat

/-- How many planes are needed so that `plane`, measured like a bound, is not above the bound that
ends the domain; none if no number suffices. -/
def planesBelow (level : Level) (plane : Int) : Option Nat :=
  match level with
  | .bottom => some plane.toNat
  | .top => if plane ≤ 0 then some 0 else none

/-- How many planes are needed so that a carried read at vertical offset `dk` is inside the domain
on the first plane of an interval. -/
def firstPlaneNeeds (policy : Policy) (interval : Interval) (dk : Int) : Option Nat :=
  match policy with
  | .parallel => some 0
  | .forward =>
    (Number.addChecked interval.start.offset dk).bind (planesAbove interval.start.level)
  | .backward =>
    (Number.addChecked interval.stop.offset dk).bind (planesBelow interval.stop.level)

/-- The reads of the own target. -/
def checkSelfReads (block : Block) (index : Nat) (statement : Statement) : Report :=
  .joinAll ((statement.selfReads.filter (!block.policy.visitsBefore ·.k)).map fun offset =>
    .fault statement.span (.selfRead statement.target offset block.policy index))

/-- One carried read. -/
def checkCarriedRead (block : Block) (index : Nat) (interval : Interval) (span : Span)
    (read : Read) : Report :=
  match firstPlaneNeeds block.policy interval read.offset.k with
  | some planes => .needs planes
  | none =>
    .fault span (.firstPlaneOutside read.field read.offset.k interval block.policy index)

/-- The carried reads of a statement. -/
def checkCarriedReads (block : Block) (index : Nat) (interval : Interval)
    (statement : Statement) : Report :=
  .joinAll ((statement.carriedReads block.writes block.policy).map
    (checkCarriedRead block index interval statement.span))

/-- What is wrong with the reads of a block, and how many planes they need. -/
def checkBlockReads (block : Block) (index : Nat) : Report :=
  .joinAll (block.sections.map fun part =>
    .joinAll (part.body.map fun statement =>
      (checkSelfReads block index statement).join
        (checkCarriedReads block index part.interval statement)))

/-- What is wrong with the reads of a program, and how many planes they need. -/
def ordering (program : Program) : Report :=
  .joinAll (program.blocks.zipIdx.map fun (block, index) => checkBlockReads block index)

end GridStencil.Check
