import GridStencil.Check.Report
import GridStencil.Program.Basic

/-!
The check of vertical intervals.

In every large domain the intervals of a block have to be non-empty and disjoint, and those of a
sequential block have to be listed in the order in which it visits the planes. The check also finds
from which number of planes on all of this holds. Intervals are compared only with their
neighbours by position, which is enough to find any overlap.
-/

namespace GridStencil.Check

open Program

/-- Asks for the planes of a threshold; where there is none, `cause` says why. -/
def demandThreshold (span : Span) (cause : Cause) : Threshold → Report
  | .since planes => .needs planes
  | .never => .fault span cause
  | .tooFarApart lower upper => .fault span (.boundsTooFarApart lower upper)

/-- An interval has to be non-empty. -/
def checkNonEmpty (index : Nat) (part : Section) : Report :=
  demandThreshold part.span (.emptyInterval part.interval index) part.interval.threshold

/-- The sections of a block by the position of their intervals. -/
def byPosition (sections : List Section) : List Section :=
  sections.mergeSort fun a b => !b.interval.below a.interval

/-- Two neighbours by position must not overlap. -/
def checkDisjoint (block : Block) (index : Nat) (lower upper : Section) : Report :=
  demandThreshold upper.span (.overlap upper.interval lower.interval block.policy index)
    (lower.interval.thresholdBefore upper.interval)

/-- Whether a block visits the first interval before the second one. -/
def visitsFirst (policy : Policy) (first second : Interval) : Bool :=
  match policy with
  | .parallel => true
  | .forward => first.below second
  | .backward => second.below first

/-- Two sections in a row have to stand in the order of the planes. -/
def checkListed (block : Block) (index : Nat) (previous next : Section) : Report :=
  if visitsFirst block.policy previous.interval next.interval then .none
  else
    .fault next.span (.listedAfter next.interval previous.interval block.policy index)

/-- What a test of two neighbours finds in a list of sections. -/
def checkNeighbours (test : Section → Section → Report) (sections : List Section) : Report :=
  .joinAll (List.zipWith test sections sections.tail)

/-- What is wrong with the intervals of a block, and how many planes they need. -/
def checkBlockIntervals (block : Block) (index : Nat) : Report :=
  ((Report.joinAll (block.sections.map (checkNonEmpty index))).andThen
    (checkNeighbours (checkDisjoint block index) (byPosition block.sections))).andThen
    (checkNeighbours (checkListed block index) block.sections)

/-- What is wrong with the intervals of a program, and how many planes they need. -/
def intervals (program : Program) : Report :=
  .joinAll (program.blocks.zipIdx.map fun (block, index) => checkBlockIntervals block index)

end GridStencil.Check
