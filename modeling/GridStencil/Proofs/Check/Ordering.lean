import GridStencil.Check.Ordering
import GridStencil.Proofs.Check.Intervals

/-!
**What the check of reads guarantees.**

A carried read goes to a plane that the block has visited before. The check asks only that it stays
in the domain on the first plane of an interval; on all other planes of the interval it then stays
in the domain as well, since these lie further from the end that the block starts at
(`Check.ordering_allows`).
-/

namespace GridStencil.Check

open Program

/-- A carried read that stays in the domain on the first plane does so on every plane. -/
theorem firstPlaneNeeds_sound {policy : Policy} {interval : Interval} {dk : Int}
    {least planes : Nat} (small : (planes : Int) < Number.int64Bound)
    (before : policy.visitsBefore dk = true) (valid : interval.Valid planes)
    (needed : firstPlaneNeeds policy interval dk = some least) (enough : least ≤ planes) {k : Int}
    (above : interval.start.resolve planes ≤ k) (below : k < interval.stop.resolve planes) :
    0 ≤ k + dk ∧ k + dk < planes := by
  obtain ⟨bottom, -, top⟩ := valid
  cases policy with
  | parallel => cases before
  | forward =>
    have down : dk < 0 := of_decide_eq_true before
    refine ⟨?_, by omega⟩
    obtain ⟨plane, sum, found⟩ := Option.bind_eq_some_iff.mp needed
    obtain ⟨-, rfl⟩ := Number.addChecked_eq_some.mp sum
    obtain ⟨⟨level, offset⟩, stop⟩ := interval
    cases level with
    | bottom =>
      simp only [planesAbove, AxisBound.resolve] at found above
      split at found
      · omega
      · cases found
    | top =>
      simp only [planesAbove, AxisBound.resolve, Number.wrapped_of_lt small,
        Option.some.injEq] at found above
      omega
  | backward =>
    have up : 0 < dk := of_decide_eq_true before
    refine ⟨by omega, ?_⟩
    obtain ⟨plane, sum, found⟩ := Option.bind_eq_some_iff.mp needed
    obtain ⟨-, rfl⟩ := Number.addChecked_eq_some.mp sum
    obtain ⟨start, ⟨level, offset⟩⟩ := interval
    cases level with
    | bottom =>
      simp only [planesBelow, AxisBound.resolve, Option.some.injEq] at found below
      omega
    | top =>
      simp only [planesBelow, AxisBound.resolve, Number.wrapped_of_lt small] at found below
      split at found
      · omega
      · cases found

/-- **The check of a program** guarantees that carried reads stay in the domain. -/
theorem ordering_allows {program : Program} {planes : Nat}
    (small : (planes : Int) < Number.int64Bound) (allows : (ordering program).Allows planes)
    {block : Block} (inProgram : block ∈ program.blocks) {part : Section}
    (inBlock : part ∈ block.sections) (valid : part.interval.Valid planes) {statement : Statement}
    (inPart : statement ∈ part.body) {read : Read} (inStatement : read ∈ statement.reads)
    (carried : read.isCarried block.writes block.policy = true) {k : Int}
    (above : part.interval.start.resolve planes ≤ k)
    (below : k < part.interval.stop.resolve planes) :
    0 ≤ k + read.offset.k ∧ k + read.offset.k < planes := by
  unfold ordering at allows
  rw [Report.allows_joinAll] at allows
  obtain ⟨index, inside, rfl⟩ := List.mem_iff_getElem.mp inProgram
  have there : (program.blocks[index], index) ∈ program.blocks.zipIdx :=
    List.mk_mem_zipIdx_iff_getElem?.mpr (List.getElem?_eq_getElem inside)
  have ofBlock := allows _ (List.mem_map_of_mem there)
  simp only [checkBlockReads, Report.allows_joinAll] at ofBlock
  have ofPart := ofBlock _ (List.mem_map_of_mem inBlock)
  rw [Report.allows_joinAll] at ofPart
  have ofStatement := (Report.allows_join.mp (ofPart _ (List.mem_map_of_mem inPart))).2
  unfold checkCarriedReads at ofStatement
  rw [Report.allows_joinAll] at ofStatement
  have member : read ∈ statement.carriedReads program.blocks[index].writes
      program.blocks[index].policy := List.mem_filter.mpr ⟨inStatement, carried⟩
  have ofRead := ofStatement _ (List.mem_map_of_mem member)
  unfold checkCarriedRead at ofRead
  split at ofRead
  next least needed =>
    exact firstPlaneNeeds_sound small (Bool.and_eq_true_iff.mp carried).2 valid needed ofRead.2
      above below
  · exact absurd ofRead Report.not_allows_fault

end GridStencil.Check
