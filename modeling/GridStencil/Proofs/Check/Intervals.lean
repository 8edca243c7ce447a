import GridStencil.Check.Intervals
import GridStencil.Proofs.Program.WellFormed
import Mathlib.Data.List.Pairwise

/-!
**What the check of intervals guarantees.**

A report without faults gives a number of planes. In every domain with at least so many planes, each
interval lies in the domain and is not empty, and the intervals of a sequential block follow each
other in the order in which it visits the planes. The check compares neighbours only: by position,
to find overlaps, and in the text, to find the order. Both orders are transitive, so neighbours are
enough.

* `Check.intervals_apart`: the sections of each block do not overlap.
* `Check.intervals_allows`: the guarantee for a whole program.
-/

namespace GridStencil

/-! ### Reports -/

namespace Report

/-- The report has no fault and asks for no more than `n` planes. -/
def Allows (report : Report) (n : Nat) : Prop := report.faults = [] ∧ report.planes ≤ n

theorem allows_join {a b : Report} {n : Nat} : (a.join b).Allows n ↔ a.Allows n ∧ b.Allows n := by
  unfold Allows join
  simp only [List.append_eq_nil_iff, Nat.max_le]
  exact ⟨fun all => ⟨⟨all.1.1, all.2.1⟩, all.1.2, all.2.2⟩,
    fun all => ⟨⟨all.1.1, all.2.1⟩, all.1.2, all.2.2⟩⟩

theorem allows_joinAll {reports : List Report} {n : Nat} :
    (joinAll reports).Allows n ↔ ∀ report ∈ reports, report.Allows n := by
  induction reports with
  | nil => exact ⟨fun _ _ absurd => (nomatch absurd), fun _ => ⟨rfl, Nat.zero_le n⟩⟩
  | cons first rest ih =>
    rw [List.forall_mem_cons, ← ih]
    exact allows_join

theorem allows_andThen {a b : Report} {n : Nat} :
    (a.andThen b).Allows n ↔ a.Allows n ∧ b.Allows n := by
  unfold andThen
  split
  · exact allows_join
  next faulty =>
    have unclean : a.faults ≠ [] := fun clean => faulty (List.isEmpty_iff.mpr clean)
    exact ⟨fun allows => absurd allows.1 unclean, fun both => absurd both.1.1 unclean⟩

theorem not_allows_fault {span : Span} {cause : Cause} {n : Nat} :
    ¬ (fault span cause).Allows n := fun allows => nomatch allows.1

end Report

/-! ### Bounds -/

/-- The number of planes is one that 64 bits with a sign can hold. -/
theorem Number.wrapped_of_lt {n : Nat} (small : (n : Int) < int64Bound) : wrapped n = n := by
  refine wrapped_of_inRange ⟨?_, small⟩
  unfold int64Bound
  omega

namespace AxisBound

/-- A bound that faces inwards lies in a domain with enough planes. -/
theorem resolve_inside {bound : AxisBound} (inward : bound.Inward) {planes : Nat}
    (small : (planes : Int) < Number.int64Bound) (enough : bound.minPlanes ≤ planes) :
    0 ≤ bound.resolve planes ∧ bound.resolve planes ≤ planes := by
  obtain ⟨level, offset⟩ := bound
  cases level with
  | bottom =>
    simp only [Inward, minPlanes, resolve] at inward enough ⊢
    omega
  | top =>
    simp only [Inward, minPlanes, resolve, Number.wrapped_of_lt small] at inward enough ⊢
    omega

theorem threshold_sound {lower upper : AxisBound} {strict : Bool} {least planes : Nat}
    (small : (planes : Int) < Number.int64Bound)
    (found : lower.threshold upper strict = .since least) (enough : least ≤ planes) :
    lower.resolve planes + (if strict then 1 else 0) ≤ upper.resolve planes := by
  obtain ⟨level, offset⟩ := lower
  obtain ⟨level', offset'⟩ := upper
  have sameLevel : (if offset < offset' ∨ (strict = false ∧ offset = offset') then Threshold.since 0
      else .never) = .since least → offset + (if strict then 1 else 0) ≤ offset' := by
    intro same
    split at same
    next order =>
      cases strict with
      | true => simp at order ⊢; omega
      | false => simp at order ⊢; omega
    · cases same
  cases level with
  | bottom =>
    cases level' with
    | bottom => exact sameLevel found
    | top =>
      simp only [threshold] at found
      split at found
      · cases found
      next gap first =>
        split at found
        · cases found
        next needed second =>
          obtain ⟨-, rfl⟩ := Number.addChecked_eq_some.mp first
          obtain ⟨-, rfl⟩ := Number.addChecked_eq_some.mp second
          cases found
          simp only [resolve, Number.wrapped_of_lt small]
          omega
  | top =>
    cases level' with
    | bottom => cases found
    | top =>
      have order := sameLevel found
      simp only [resolve]
      omega

/-- The rank of an end of the axis. -/
def rank (bound : AxisBound) : Int :=
  match bound.level with
  | .bottom => 0
  | .top => 1

/-- Bounds are ordered by the end that they are measured from, and then by their offsets. -/
theorem below_iff {a b : AxisBound} :
    a.below b = true ↔ a.rank < b.rank ∨ (a.rank = b.rank ∧ a.offset < b.offset) := by
  obtain ⟨level, offset⟩ := a
  obtain ⟨level', offset'⟩ := b
  cases level <;> cases level' <;> simp [below, rank]

theorem eq_iff {a b : AxisBound} : a = b ↔ a.rank = b.rank ∧ a.offset = b.offset := by
  obtain ⟨level, offset⟩ := a
  obtain ⟨level', offset'⟩ := b
  cases level <;> cases level' <;> simp [rank]

end AxisBound

namespace Interval

/-- The interval lies in a domain of `planes` planes and is not empty. -/
structure Valid (planes : Nat) (interval : Interval) : Prop where
  above : 0 ≤ interval.start.resolve planes
  nonempty : interval.start.resolve planes < interval.stop.resolve planes
  below : interval.stop.resolve planes ≤ planes

theorem below_iff {a b : Interval} :
    a.below b = true ↔
      a.start.below b.start = true ∨ (a.start = b.start ∧ a.stop.below b.stop = true) := by
  unfold below
  simp only [Bool.or_eq_true, Bool.and_eq_true, decide_eq_true_eq]

theorem below_trans {a b c : Interval} (first : a.below b = true) (second : b.below c = true) :
    a.below c = true := by
  simp only [below_iff, AxisBound.below_iff, AxisBound.eq_iff] at first second ⊢
  omega

theorem below_irrefl (a : Interval) : ¬ a.below a = true := by
  simp only [below_iff, AxisBound.below_iff]
  omega

/-- That an interval does not come before another one is a total preorder. -/
theorem not_below_trans {a b c : Interval} (first : b.below a = false)
    (second : c.below b = false) :
    c.below a = false := by
  rw [← Bool.not_eq_true] at first second ⊢
  simp only [below_iff, AxisBound.below_iff, AxisBound.eq_iff] at first second ⊢
  omega

theorem not_below_total (a b : Interval) : b.below a = false ∨ a.below b = false := by
  rw [← Bool.not_eq_true, ← Bool.not_eq_true]
  simp only [below_iff, AxisBound.below_iff, AxisBound.eq_iff]
  omega

theorem threshold_valid {interval : Interval}
    (inward : interval.start.Inward ∧ interval.stop.Inward)
    {planes least : Nat} (small : (planes : Int) < Number.int64Bound)
    (found : interval.threshold = .since least) (enough : least ≤ planes) :
    interval.Valid planes := by
  unfold threshold Threshold.atLeast at found
  split at found
  next between known =>
    cases found
    obtain ⟨within, startEnough⟩ : between ≤ planes ∧ _ := Nat.max_le.mp enough
    obtain ⟨start, stop⟩ := Nat.max_le.mp startEnough
    have order := AxisBound.threshold_sound small known within
    simp only [if_true] at order
    exact ⟨(AxisBound.resolve_inside inward.1 small start).1, by omega,
      (AxisBound.resolve_inside inward.2 small stop).2⟩
  · cases found
  · cases found

end Interval

namespace Check

open Program

/-! ### Blocks -/

theorem demandThreshold_allows {span : Span} {cause : Cause} {threshold : Threshold} {n : Nat} :
    (demandThreshold span cause threshold).Allows n ↔
      ∃ least, threshold = .since least ∧ least ≤ n := by
  unfold demandThreshold
  split
  next planes =>
    exact ⟨fun allows => ⟨planes, rfl, allows.2⟩,
      fun ⟨_, same, enough⟩ => ⟨rfl, Threshold.since.inj same ▸ enough⟩⟩
  · exact ⟨fun allows => absurd allows Report.not_allows_fault, fun found => nomatch found⟩
  · exact ⟨fun allows => absurd allows Report.not_allows_fault, fun found => nomatch found⟩

/-- A test of neighbours passes if they form a chain. -/
theorem checkNeighbours_allows {test : Section → Section → Report} {sections : List Section}
    {n : Nat} : (checkNeighbours test sections).Allows n ↔
      sections.IsChain fun a b => (test a b).Allows n := by
  unfold checkNeighbours
  rw [Report.allows_joinAll]
  induction sections with
  | nil => exact ⟨fun _ => .nil, fun _ _ absurd => (nomatch absurd)⟩
  | cons first rest ih =>
    cases rest with
    | nil => exact ⟨fun _ => .singleton first, fun _ _ absurd => (nomatch absurd)⟩
    | cons second rest =>
      rw [List.tail_cons, List.zipWith_cons_cons, List.forall_mem_cons, List.isChain_cons_cons]
      exact and_congr_right fun _ => ih

/-- **The order of the intervals of a block** in a domain of `planes` planes: all lie in it and are
not empty, and those of a sequential block follow each other. -/
structure Ordered (planes : Nat) (block : Block) : Prop where
  valid : ∀ part ∈ block.sections, part.interval.Valid planes
  forward : block.policy = .forward → block.sections.Pairwise fun a b =>
    a.interval.stop.resolve planes ≤ b.interval.start.resolve planes
  backward : block.policy = .backward → block.sections.Pairwise fun a b =>
    b.interval.stop.resolve planes ≤ a.interval.start.resolve planes

section Block

variable {block : Block} {index planes : Nat}

/-- Two sections do not overlap, whichever of them comes first by position. -/
def Apart (planes : Nat) (a b : Section) : Prop :=
  (b.interval.below a.interval = false ∧
    a.interval.stop.resolve planes ≤ b.interval.start.resolve planes) ∨
  (a.interval.below b.interval = false ∧
    b.interval.stop.resolve planes ≤ a.interval.start.resolve planes)

/-- Non-empty sections that follow each other one by one all follow each other. -/
theorem pairwise_of_steps {start stop : Section → Int} {sections : List Section}
    (nonempty : ∀ part ∈ sections, start part < stop part)
    (steps : sections.IsChain fun a b => stop a ≤ start b) :
    sections.Pairwise fun a b => stop a ≤ start b := by
  induction steps with
  | nil => exact .nil
  | singleton part => exact List.pairwise_singleton _ part
  | @cons_cons first second rest step _ ih =>
    have tail := ih fun part member => nonempty part (List.mem_cons_of_mem _ member)
    refine List.pairwise_cons.mpr ⟨fun part member => ?_, tail⟩
    rcases List.mem_cons.mp member with rfl | later
    · exact step
    · have next := (List.pairwise_cons.mp tail).1 part later
      have order := nonempty second (List.mem_cons_of_mem _ List.mem_cons_self)
      omega

theorem pairwise_byPosition (sections : List Section) :
    (byPosition sections).Pairwise fun a b => b.interval.below a.interval = false := by
  refine (List.pairwise_mergeSort (fun a b c first second => ?_) (fun a b => ?_) _).imp ?_
  · simp only [Bool.not_eq_true'] at first second ⊢
    exact Interval.not_below_trans first second
  · simp only [Bool.or_eq_true, Bool.not_eq_true']
    exact Interval.not_below_total _ _
  · intro a b order
    simpa using order

/-- Sections that are listed by position stay as they are. -/
theorem byPosition_of_pairwise {sections : List Section}
    (sorted : sections.Pairwise fun a b => b.interval.below a.interval = false) :
    byPosition sections = sections :=
  List.mergeSort_of_pairwise (sorted.imp fun order => by rw [order]; rfl)

/-- **Sections with different positions can be sorted in one way only.** -/
theorem byPosition_eq {sections sorted : List Section} (perm : sections.Perm sorted)
    (strict : sorted.Pairwise fun a b => a.interval.below b.interval = true) :
    byPosition sections = sorted := by
  have : Std.Symm fun a b : Section =>
      a.interval.below b.interval = true ∨ b.interval.below a.interval = true := ⟨fun _ _ => Or.symm⟩
  have comparable : sorted.Pairwise fun a b =>
      a.interval.below b.interval = true ∨ b.interval.below a.interval = true :=
    strict.imp fun before => .inl before
  have same : (byPosition sections).Perm sorted := (List.mergeSort_perm _ _).trans perm
  have notAfter : sorted.Pairwise fun a b => b.interval.below a.interval = false :=
    strict.imp fun before => by
      rw [← Bool.not_eq_true]
      exact fun after => Interval.below_irrefl _ (Interval.below_trans before after)
  refine same.eq_of_pairwise (fun a b inA inB notAfter notBefore => ?_)
    (pairwise_byPosition sections) notAfter
  by_contra different
  have order := comparable.forall (same.mem_iff.mp inA) inB different
  rw [notAfter, notBefore] at order
  rcases order with absurd' | absurd' <;> cases absurd'

/-- Non-empty sections that follow each other by position do not overlap. -/
theorem apart_of_steps (start stop : Section → Int) {sections : List Section}
    (nonempty : ∀ part ∈ sections, start part < stop part)
    (steps : (byPosition sections).IsChain fun a b => stop a ≤ start b) :
    sections.Pairwise fun a b =>
      (b.interval.below a.interval = false ∧ stop a ≤ start b) ∨
        (a.interval.below b.interval = false ∧ stop b ≤ start a) := by
  have perm : (byPosition sections).Perm sections := List.mergeSort_perm _ _
  have disjoint := pairwise_of_steps
    (fun part member => nonempty part (perm.mem_iff.mp member)) steps
  refine (perm.pairwise_iff fun apart => apart.symm).mp ?_
  exact ((pairwise_byPosition sections).and disjoint).imp fun order => .inl order

/-- Sections that do not overlap and are listed in the order of a policy follow each other. -/
theorem follow_of_listed {start stop : Section → Int} {sections : List Section} {policy : Policy}
    (apart : sections.Pairwise fun a b =>
      (b.interval.below a.interval = false ∧ stop a ≤ start b) ∨
        (a.interval.below b.interval = false ∧ stop b ≤ start a))
    (listed : sections.IsChain fun a b => visitsFirst policy a.interval b.interval = true) :
    (policy = .forward → sections.Pairwise fun a b => stop a ≤ start b) ∧
      (policy = .backward → sections.Pairwise fun a b => stop b ≤ start a) := by
  constructor
  · rintro rfl
    have : IsTrans Section fun a b => visitsFirst .forward a.interval b.interval = true :=
      ⟨fun _ _ _ => Interval.below_trans⟩
    refine (apart.and (List.isChain_iff_pairwise.mp listed)).imp fun {a b} both => ?_
    have first : a.interval.below b.interval = true := both.2
    refine (both.1.resolve_right fun absurd' => ?_).2
    rw [first] at absurd'
    cases absurd'.1
  · rintro rfl
    have : IsTrans Section fun a b => visitsFirst .backward a.interval b.interval = true :=
      ⟨fun _ _ _ first second => Interval.below_trans second first⟩
    refine (apart.and (List.isChain_iff_pairwise.mp listed)).imp fun {a b} both => ?_
    have first : b.interval.below a.interval = true := both.2
    refine (both.1.resolve_left fun absurd' => ?_).2
    rw [first] at absurd'
    cases absurd'.1

/-- **What a report on a block without faults says**, threshold by threshold. -/
theorem checkBlockIntervals_allows_iff : (checkBlockIntervals block index).Allows planes ↔
    (∀ part ∈ block.sections, ∃ least, part.interval.threshold = .since least ∧ least ≤ planes) ∧
    ((byPosition block.sections).IsChain fun a b =>
      ∃ least, a.interval.thresholdBefore b.interval = .since least ∧ least ≤ planes) ∧
    block.sections.IsChain fun a b =>
      visitsFirst block.policy a.interval b.interval = true := by
  have listed : ∀ a b : Section, (checkListed block index a b).Allows planes ↔
      visitsFirst block.policy a.interval b.interval = true := by
    intro a b
    unfold checkListed
    split
    next first => exact iff_of_true ⟨rfl, Nat.zero_le _⟩ first
    next last => exact iff_of_false Report.not_allows_fault last
  unfold checkBlockIntervals
  rw [Report.allows_andThen, Report.allows_andThen, Report.allows_joinAll, List.forall_mem_map,
    checkNeighbours_allows, checkNeighbours_allows, and_assoc]
  simp only [checkNonEmpty, checkDisjoint, demandThreshold_allows, listed]

theorem apart_of_thresholds (small : (planes : Int) < Number.int64Bound)
    (valid : ∀ part ∈ block.sections, part.interval.Valid planes)
    (disjoint : (byPosition block.sections).IsChain fun a b =>
      ∃ least, a.interval.thresholdBefore b.interval = .since least ∧ least ≤ planes) :
    block.sections.Pairwise (Apart planes) := by
  refine apart_of_steps (fun part => part.interval.start.resolve planes)
    (fun part => part.interval.stop.resolve planes)
    (fun part member => (valid part member).nonempty) (disjoint.imp ?_)
  rintro a b ⟨least, found, enough⟩
  simpa using AxisBound.threshold_sound small found enough

/-- The check of a block guarantees that its intervals lie in the domain and do not overlap. -/
theorem checkBlockIntervals_apart (small : (planes : Int) < Number.int64Bound)
    (inward : ∀ part ∈ block.sections, part.interval.start.Inward ∧ part.interval.stop.Inward)
    (allows : (checkBlockIntervals block index).Allows planes) :
    (∀ part ∈ block.sections, part.interval.Valid planes) ∧
      block.sections.Pairwise (Apart planes) := by
  obtain ⟨nonEmpty, disjoint, -⟩ := checkBlockIntervals_allows_iff.mp allows
  have valid : ∀ part ∈ block.sections, part.interval.Valid planes := by
    intro part member
    obtain ⟨least, found, enough⟩ := nonEmpty part member
    exact Interval.threshold_valid (inward part member) small found enough
  exact ⟨valid, apart_of_thresholds small valid disjoint⟩

/-- **The check of a block** guarantees the order of its intervals. -/
theorem checkBlockIntervals_allows (small : (planes : Int) < Number.int64Bound)
    (inward : ∀ part ∈ block.sections, part.interval.start.Inward ∧ part.interval.stop.Inward)
    (allows : (checkBlockIntervals block index).Allows planes) : Ordered planes block := by
  obtain ⟨valid, apart⟩ := checkBlockIntervals_apart small inward allows
  obtain ⟨-, -, listed⟩ := checkBlockIntervals_allows_iff.mp allows
  obtain ⟨forward, backward⟩ := follow_of_listed apart listed
  exact ⟨valid, forward, backward⟩

end Block

section Program

variable {program : Program} {planes : Nat}

/-- The check of a program checks its blocks. -/
theorem intervals_block (allows : (intervals program).Allows planes) {block : Block}
    (member : block ∈ program.blocks) : ∃ index, (checkBlockIntervals block index).Allows planes := by
  unfold intervals at allows
  rw [Report.allows_joinAll] at allows
  obtain ⟨index, below, rfl⟩ := List.mem_iff_getElem.mp member
  have there : (program.blocks[index], index) ∈ program.blocks.zipIdx :=
    List.mk_mem_zipIdx_iff_getElem?.mpr (List.getElem?_eq_getElem below)
  exact ⟨index, allows _ (List.mem_map_of_mem there)⟩

/-- **The check of a program** guarantees the order of the intervals of all blocks. -/
theorem intervals_allows (small : (planes : Int) < Number.int64Bound)
    (wellFormed : program.WellFormed) (allows : (intervals program).Allows planes) :
    ∀ block ∈ program.blocks, Ordered planes block := by
  intro block member
  obtain ⟨index, ofBlock⟩ := intervals_block allows member
  exact checkBlockIntervals_allows small (wellFormed.bounds _ member) ofBlock

/-- The check of a program guarantees that no two intervals of a block overlap. -/
theorem intervals_apart (small : (planes : Int) < Number.int64Bound)
    (wellFormed : program.WellFormed) (allows : (intervals program).Allows planes) :
    ∀ block ∈ program.blocks, block.sections.Pairwise (Apart planes) := by
  intro block member
  obtain ⟨index, ofBlock⟩ := intervals_block allows member
  exact (checkBlockIntervals_apart small (wellFormed.bounds _ member) ofBlock).2

end Program

end Check

end GridStencil
