import GridStencil.Proofs.Check.Ordering
import GridStencil.Proofs.Program.Reordered
import Mathlib.Data.List.Chain

/-!
**The checks of a program do not depend on the order of the sections of parallel blocks.**

The check of intervals sorts the sections before it compares them. If it finds no fault, then all of
them have different places, so there is only one way to sort them (`Check.byPosition_reordered`). The
check of reads looks at statements one by one.

* `Check.intervals_reordered`, `Check.ordering_reordered`: both checks find the same in a program
  that is reordered.
-/

namespace GridStencil

namespace AxisBound

/-- A threshold exists only for bounds in order. -/
theorem not_below_of_threshold {lower upper : AxisBound} {strict : Bool} {least : Nat}
    (found : lower.threshold upper strict = .since least) :
    upper.below lower = false ∧ (strict = true → lower.below upper = true) := by
  obtain ⟨level, offset⟩ := lower
  obtain ⟨level', offset'⟩ := upper
  have sameLevel : (if offset < offset' ∨ (strict = false ∧ offset = offset') then Threshold.since 0
      else .never) = .since least → offset < offset' ∨ (strict = false ∧ offset = offset') := by
    intro same
    split at same
    next order => exact order
    · cases same
  rw [← Bool.not_eq_true, below_iff, below_iff]
  cases level with
  | bottom =>
    cases level' with
    | bottom =>
      rcases sameLevel found with order | ⟨rfl, order⟩ <;> simp [rank] <;> omega
    | top => simp [rank]
  | top =>
    cases level' with
    | bottom => cases found
    | top =>
      rcases sameLevel found with order | ⟨rfl, order⟩ <;> simp [rank] <;> omega

end AxisBound

namespace Check

open Program

variable {apart : Section → Section → Prop} {a b : Block} {index planes : Nat}

/-- Intervals that are not empty and follow each other come one below the other. -/
theorem below_of_disjoint {block : Block} {lower upper : Section}
    (nonEmpty : (checkNonEmpty index lower).Allows planes)
    (disjoint : (checkDisjoint block index lower upper).Allows planes) :
    lower.interval.below upper.interval = true := by
  obtain ⟨least, found, -⟩ := demandThreshold_allows.mp nonEmpty
  obtain ⟨gap, apart, -⟩ := demandThreshold_allows.mp disjoint
  have order : lower.interval.start.below lower.interval.stop = true := by
    unfold Interval.threshold Threshold.atLeast at found
    split at found
    next between known => exact (AxisBound.not_below_of_threshold known).2 rfl
    · cases found
    · cases found
  have follows := (AxisBound.not_below_of_threshold apart).1
  rw [← Bool.not_eq_true] at follows
  rw [Interval.below_iff]
  simp only [AxisBound.below_iff] at order follows ⊢
  omega

/-- **Sections without faults can be sorted in one way only.** -/
theorem byPosition_reordered {block : Block} {sections : List Section}
    (perm : block.sections.Perm sections)
    (nonEmpty : ∀ part ∈ block.sections, (checkNonEmpty index part).Allows planes)
    (disjoint : (checkNeighbours (checkDisjoint block index) (byPosition block.sections)).Allows
      planes) : byPosition sections = byPosition block.sections := by
  have inside : ∀ part ∈ byPosition block.sections, part ∈ block.sections := fun part =>
    (List.mergeSort_perm _ _).mem_iff.mp
  have strict : (byPosition block.sections).Pairwise fun a b =>
      a.interval.below b.interval = true := by
    have : IsTrans Section fun a b => a.interval.below b.interval = true :=
      ⟨fun _ _ _ => Interval.below_trans⟩
    refine List.isChain_iff_pairwise.mp ?_
    refine (checkNeighbours_allows.mp disjoint).imp_of_mem_imp fun a b inA _ apart => ?_
    exact below_of_disjoint (nonEmpty a (inside a inA)) apart
  exact byPosition_eq (perm.symm.trans (List.mergeSort_perm _ _).symm) strict

/-! ### Blocks and programs -/

theorem checkBlockIntervals_reordered (reordered : a.Reordered apart b)
    (allows : (checkBlockIntervals a index).Allows planes) :
    (checkBlockIntervals b index).Allows planes := by
  cases reordered with
  | same => exact allows
  | sections first second perm _ =>
    unfold checkBlockIntervals at allows ⊢
    rw [Report.allows_andThen, Report.allows_andThen, Report.allows_joinAll] at allows ⊢
    obtain ⟨⟨nonEmpty, disjoint⟩, -⟩ := allows
    have sorted := byPosition_reordered perm
      (fun part member => nonEmpty _ (List.mem_map_of_mem member)) disjoint
    have sameTest : checkDisjoint b index = checkDisjoint a index := by
      unfold checkDisjoint
      rw [first, second]
    refine ⟨⟨fun report member => ?_, ?_⟩, ?_⟩
    · exact nonEmpty report ((perm.map _).mem_iff.mpr member)
    · rw [sorted, sameTest]
      exact disjoint
    · unfold checkNeighbours
      rw [Report.allows_joinAll]
      intro report member
      obtain ⟨n, below, rfl⟩ := List.mem_iff_getElem.mp member
      rw [List.getElem_zipWith, checkListed, second]
      exact ⟨rfl, Nat.zero_le _⟩

theorem checkBlockReads_reordered (reordered : a.Reordered apart b)
    (allows : (checkBlockReads a index).Allows planes) :
    (checkBlockReads b index).Allows planes := by
  cases reordered with
  | same => exact allows
  | sections first second perm _ =>
    have sameTest : ∀ part : Section, (part.body.map fun statement =>
        (checkSelfReads b index statement).join
          (checkCarriedReads b index part.interval statement)) =
        part.body.map fun statement =>
          (checkSelfReads a index statement).join
            (checkCarriedReads a index part.interval statement) := by
      intro part
      refine List.map_congr_left fun statement _ => ?_
      have uncarried : ∀ block : Block, block.policy = .parallel →
          statement.carriedReads block.writes block.policy = [] := by
        intro block policy
        refine List.filter_eq_nil_iff.mpr fun read _ => ?_
        rw [policy]
        exact fun carried => Bool.false_ne_true ((Bool.and_false _).symm.trans carried)
      unfold checkSelfReads checkCarriedReads
      rw [uncarried a first, uncarried b second, first, second]
      rfl
    unfold checkBlockReads at allows ⊢
    rw [Report.allows_joinAll] at allows ⊢
    simp only [sameTest]
    exact fun report member => allows report ((perm.map _).mem_iff.mpr member)

/-- The findings in all blocks, where those in a block stay when it is reordered. -/
theorem blocks_reordered (check : Block × Nat → Report) {first second : List Block}
    (kept : ∀ {a b index}, a.Reordered apart b → (check (a, index)).Allows planes →
      (check (b, index)).Allows planes)
    (pairs : List.Forall₂ (Block.Reordered apart) first second)
    (allows : (Report.joinAll (first.zipIdx.map check)).Allows planes) :
    (Report.joinAll (second.zipIdx.map check)).Allows planes := by
  rw [Report.allows_joinAll] at allows ⊢
  suffices all : ∀ n, (∀ report ∈ (first.zipIdx n).map check, report.Allows planes) →
      ∀ report ∈ (second.zipIdx n).map check, report.Allows planes from all 0 allows
  clear allows
  induction pairs with
  | nil => exact fun _ allows => allows
  | cons here _ ih =>
    intro n allows
    rw [List.zipIdx_cons, List.map_cons, List.forall_mem_cons] at allows ⊢
    exact ⟨kept here allows.1, ih (n + 1) allows.2⟩

/-- Two reports that allow the same have no faults and ask for the same planes, if one of them has
no faults. -/
theorem same_of_allows {report other : Report} (clean : report.faults = [])
    (there : ∀ n, report.Allows n → other.Allows n)
    (back : ∀ n, other.Allows n → report.Allows n) : other = report := by
  have allowed := there report.planes ⟨clean, Nat.le_refl _⟩
  have allows := back other.planes ⟨allowed.1, Nat.le_refl _⟩
  obtain ⟨faults, planes⟩ := report
  obtain ⟨faults', planes'⟩ := other
  exact congrArg₂ Report.mk (allowed.1.trans clean.symm) (Nat.le_antisymm allowed.2 allows.2)

variable {program program' : Program}

theorem intervals_allows_reordered (reordered : program.Reordered apart program')
    (allows : (intervals program).Allows planes) : (intervals program').Allows planes :=
  blocks_reordered (fun pair => checkBlockIntervals pair.1 pair.2) checkBlockIntervals_reordered
    reordered.blocks allows

theorem ordering_allows_reordered (reordered : program.Reordered apart program')
    (allows : (ordering program).Allows planes) : (ordering program').Allows planes :=
  blocks_reordered (fun pair => checkBlockReads pair.1 pair.2) checkBlockReads_reordered
    reordered.blocks allows

/-- The way back, on which nothing is known of the sections. -/
theorem reordered_back (reordered : program.Reordered apart program') :
    program'.Reordered (fun _ _ => True) program :=
  (reordered.imp fun _ => trivial).symm fun _ => trivial

/-- **The check of intervals finds the same in a reordered program**, if it finds no fault. -/
theorem intervals_reordered (reordered : program.Reordered apart program')
    (clean : (intervals program).faults = []) : intervals program' = intervals program :=
  same_of_allows clean (fun _ => intervals_allows_reordered reordered)
    fun _ => intervals_allows_reordered (reordered_back reordered)

/-- **The check of reads finds the same in a reordered program**, if it finds no fault. -/
theorem ordering_reordered (reordered : program.Reordered apart program')
    (clean : (ordering program).faults = []) : ordering program' = ordering program :=
  same_of_allows clean (fun _ => ordering_allows_reordered reordered)
    fun _ => ordering_allows_reordered (reordered_back reordered)

end Check

end GridStencil
