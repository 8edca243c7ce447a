import GridStencil.Proofs.Check.Exact
import GridStencil.Proofs.Plan

/-!
**The check of reads is exact.**

A sequential block enters an interval at its lower or its upper end. On the plane it visits first, a
carried read lies outside the domain either for every number of planes, or for all numbers below some
least one (`Check.firstPlaneNeeds_exact`). The check blames the reads of the first kind and those
whose plane does not fit into 64 bits, and asks for the least number for the others. On the other
planes of the interval the read lies further inside.

* `Check.ordering_exact`: which reads are blamed, where the others lie, and the least number of
  planes.
-/

namespace GridStencil.Check

open Program

variable {policy : Policy} {interval : Interval} {dk : Int} {least planes : Nat}

/-! ### The first plane of an interval -/

/-- The end at which a block enters an interval. -/
def entry (policy : Policy) (interval : Interval) : AxisBound :=
  match policy with
  | .parallel | .forward => interval.start
  | .backward => interval.stop

/-- The plane of an interval that a block visits first, in a domain of any number of planes. -/
def firstPlane (policy : Policy) (interval : Interval) (planes : Nat) : Int :=
  match policy with
  | .parallel | .forward => interval.start.height planes
  | .backward => interval.stop.height planes - 1

/-- On the first plane, a read at vertical offset `dk` lies in the domain. -/
def FirstInside (policy : Policy) (interval : Interval) (dk : Int) (planes : Nat) : Prop :=
  0 ≤ firstPlane policy interval planes + dk ∧ firstPlane policy interval planes + dk < planes

/-- On the first plane, a read at vertical offset `dk` does not leave the domain at the end that the
block comes from. -/
def FirstClear (policy : Policy) (interval : Interval) (dk : Int) (planes : Nat) : Prop :=
  (policy = .forward → 0 ≤ firstPlane policy interval planes + dk) ∧
    (policy = .backward → firstPlane policy interval planes + dk < planes)

/-- On the first plane, a read at vertical offset `dk` lies outside of every domain, or its plane
does not fit into 64 bits. -/
def LeavesDomain (policy : Policy) (interval : Interval) (dk : Int) : Prop :=
  (∀ planes, ¬ FirstInside policy interval dk planes) ∨
    ¬ Number.InRange ((entry policy interval).offset + dk)

/-- Upwards, a carried read falls below the domain or not by the plane that the interval starts
at. -/
theorem planesAbove_exact {bound : AxisBound} (inward : bound.Inward) (down : dk < 0) :
    (planesAbove bound.level (bound.offset + dk) = none ↔
        ∀ planes : Nat, ¬ (0 ≤ bound.height planes + dk ∧ bound.height planes + dk < planes)) ∧
      ∀ least, planesAbove bound.level (bound.offset + dk) = some least →
        ∀ planes, 0 ≤ bound.height planes + dk ↔ least ≤ planes := by
  obtain ⟨level, offset⟩ := bound
  cases level with
  | bottom =>
    simp only [planesAbove, AxisBound.height]
    split
    next inside =>
      refine ⟨⟨by rintro ⟨⟩, fun outside => ?_⟩, fun least same planes => ?_⟩
      · exact absurd ⟨inside, by omega⟩ (outside (offset + dk + 1).toNat)
      · cases same
        exact iff_of_true inside (Nat.zero_le planes)
    next below =>
      exact ⟨iff_of_true rfl fun _ inside => below inside.1, by rintro _ ⟨⟩⟩
  | top =>
    have low : offset ≤ 0 := inward
    simp only [planesAbove, AxisBound.height]
    refine ⟨⟨by rintro ⟨⟩, fun outside => ?_⟩, fun least same planes => ?_⟩
    · exact absurd ⟨by omega, by omega⟩ (outside (-(offset + dk)).toNat)
    · cases same
      omega

/-- Downwards, a carried read reaches above the domain or not by the plane below which the interval
ends. -/
theorem planesBelow_exact {bound : AxisBound} (inward : bound.Inward) (up : 0 < dk) :
    (planesBelow bound.level (bound.offset + dk) = none ↔
        ∀ planes : Nat,
          ¬ (0 ≤ bound.height planes - 1 + dk ∧ bound.height planes - 1 + dk < planes)) ∧
      ∀ least, planesBelow bound.level (bound.offset + dk) = some least →
        ∀ planes : Nat, bound.height planes - 1 + dk < planes ↔ least ≤ planes := by
  obtain ⟨level, offset⟩ := bound
  cases level with
  | bottom =>
    have low : 0 ≤ offset := inward
    simp only [planesBelow, AxisBound.height]
    refine ⟨⟨by rintro ⟨⟩, fun outside => ?_⟩, fun least same planes => ?_⟩
    · exact absurd ⟨by omega, by omega⟩ (outside (offset + dk).toNat)
    · cases same
      omega
  | top =>
    simp only [planesBelow, AxisBound.height]
    split
    next inside =>
      refine ⟨⟨by rintro ⟨⟩, fun outside => ?_⟩, fun least same planes => ?_⟩
      · exact absurd ⟨by omega, by omega⟩ (outside (1 - (offset + dk)).toNat)
      · cases same
        omega
    next above =>
      exact ⟨iff_of_true rfl fun _ inside => by omega, by rintro _ ⟨⟩⟩

/-- A sum that does not fit is blamed as well. -/
theorem bind_addChecked_exact {offset : Int} {needs : Int → Option Nat} {outside : Prop}
    {clear : Nat → Prop}
    (exact : (needs (offset + dk) = none ↔ outside) ∧
      ∀ least, needs (offset + dk) = some least → ∀ planes, clear planes ↔ least ≤ planes) :
    ((Number.addChecked offset dk).bind needs = none ↔
        outside ∨ ¬ Number.InRange (offset + dk)) ∧
      ∀ least, (Number.addChecked offset dk).bind needs = some least →
        ∀ planes, clear planes ↔ least ≤ planes := by
  by_cases fits : Number.InRange (offset + dk)
  · rw [Number.addChecked_eq_some.mpr ⟨fits, rfl⟩, Option.bind_some]
    exact ⟨exact.1.trans (or_iff_left (not_not.mpr fits)).symm, exact.2⟩
  · rw [Number.addChecked_eq_none fits]
    exact ⟨iff_of_true rfl (.inr fits), by rintro _ ⟨⟩⟩

theorem firstClear_forward :
    FirstClear .forward interval dk planes ↔ 0 ≤ interval.start.height planes + dk :=
  ⟨fun clear => clear.1 rfl, fun above => ⟨fun _ => above, nofun⟩⟩

theorem firstClear_backward :
    FirstClear .backward interval dk planes ↔ interval.stop.height planes - 1 + dk < planes :=
  ⟨fun clear => clear.2 rfl, fun below => ⟨nofun, fun _ => below⟩⟩

/-- **From which number of planes on a carried read is clear on the first plane**, or that it never
is. -/
theorem firstPlaneNeeds_exact (before : policy.visitsBefore dk = true)
    (inward : interval.start.Inward ∧ interval.stop.Inward) :
    (firstPlaneNeeds policy interval dk = none ↔ LeavesDomain policy interval dk) ∧
      ∀ least, firstPlaneNeeds policy interval dk = some least →
        ∀ planes, FirstClear policy interval dk planes ↔ least ≤ planes := by
  cases policy with
  | parallel => cases before
  | forward =>
    simp only [firstClear_forward]
    exact bind_addChecked_exact (planesAbove_exact inward.1 (of_decide_eq_true before))
  | backward =>
    simp only [firstClear_backward]
    exact bind_addChecked_exact (planesBelow_exact inward.2 (of_decide_eq_true before))

/-- A carried read that is clear on the first plane lies in the domain on every plane of the
interval. -/
theorem inside_of_firstClear (before : policy.visitsBefore dk = true)
    (inside : interval.Inside planes) (clear : FirstClear policy interval dk planes) {k : Int}
    (above : interval.start.height planes ≤ k) (below : k < interval.stop.height planes) :
    0 ≤ k + dk ∧ k + dk < planes := by
  have bottom := inside.above
  have top := inside.below
  cases policy with
  | parallel => cases before
  | forward =>
    have down : dk < 0 := of_decide_eq_true before
    have start := clear.1 rfl
    simp only [firstPlane] at start
    omega
  | backward =>
    have up : 0 < dk := of_decide_eq_true before
    have stop := clear.2 rfl
    simp only [firstPlane] at stop
    omega

/-! ### Which reads are blamed -/

/-- A statement in a section of a block of a program, with the number of the block. -/
structure Stands (program : Program) (index : Nat) (block : Block) (part : Section)
    (statement : Statement) : Prop where
  atBlock : program.blocks[index]? = some block
  inBlock : part ∈ block.sections
  inPart : statement ∈ part.body

/-- In a block, a statement reads a field that the block assigns, on a plane where the block has
been before. -/
structure Carries (block : Block) (statement : Statement) (read : Read) : Prop where
  reads : read ∈ statement.reads
  assigned : ∃ other ∈ block.statements, other.target = read.field
  before : block.policy.visitsBefore read.offset.k = true

/-- In a block, a statement reads its own target on another plane where the block has not been
before. -/
structure ReadsAhead (block : Block) (statement : Statement) (read : Read) : Prop where
  reads : read ∈ statement.reads
  own : read.field = statement.target
  apart : read.offset.k ≠ 0
  ahead : block.policy.visitsBefore read.offset.k = false

/-- A fault that blames a statement for reading its own target where the block has not been. -/
def BlamesAhead (index : Nat) (block : Block) (statement : Statement) (fault : Fault) : Prop :=
  ∃ read, ReadsAhead block statement read ∧
    fault = ⟨statement.span, .selfRead statement.target read.offset block.policy index⟩

/-- A fault that blames a statement for a carried read that leaves the domain. -/
def BlamesOutside (index : Nat) (block : Block) (interval : Interval) (statement : Statement)
    (fault : Fault) : Prop :=
  ∃ read, Carries block statement read ∧ LeavesDomain block.policy interval read.offset.k ∧
    fault = ⟨statement.span,
      .firstPlaneOutside read.field read.offset.k interval block.policy index⟩

theorem mem_faults_joinAll {reports : List Report} {fault : Fault} :
    fault ∈ (Report.joinAll reports).faults ↔ ∃ report ∈ reports, fault ∈ report.faults := by
  induction reports with
  | nil => exact ⟨by rintro ⟨⟩, fun ⟨_, absurd, _⟩ => nomatch absurd⟩
  | cons first rest ih =>
    rw [List.exists_mem_cons_iff, ← ih]
    exact List.mem_append

theorem mem_faults_joinAll_map {α : Type} {xs : List α} {report : α → Report} {fault : Fault} :
    fault ∈ (Report.joinAll (xs.map report)).faults ↔ ∃ x ∈ xs, fault ∈ (report x).faults := by
  rw [mem_faults_joinAll]
  constructor
  · rintro ⟨_, made, there⟩
    obtain ⟨x, member, rfl⟩ := List.mem_map.mp made
    exact ⟨x, member, there⟩
  · rintro ⟨x, member, there⟩
    exact ⟨report x, List.mem_map_of_mem member, there⟩

variable {program : Program} {index : Nat} {block : Block} {part : Section} {statement : Statement}
  {fault : Fault} {read : Read}

theorem mem_carriedReads :
    read ∈ statement.carriedReads block.writes block.policy ↔ Carries block statement read := by
  have writes : read.field ∈ block.writes ↔
      ∃ other ∈ block.statements, other.target = read.field := by
    unfold Block.writes writeSet
    rw [List.mem_eraseDups, List.mem_map]
  unfold Statement.carriedReads Read.isCarried
  rw [List.mem_filter, Bool.and_eq_true, List.contains_iff_mem, writes]
  exact ⟨fun ⟨reads, assigned, before⟩ => ⟨reads, assigned, before⟩,
    fun ⟨reads, assigned, before⟩ => ⟨reads, assigned, before⟩⟩

theorem mem_faults_checkSelfReads : fault ∈ (checkSelfReads block index statement).faults ↔
    BlamesAhead index block statement fault := by
  unfold checkSelfReads Statement.selfReads
  rw [mem_faults_joinAll_map]
  constructor
  · rintro ⟨offset, kept, blamed⟩
    obtain ⟨found, ahead⟩ := List.mem_filter.mp kept
    obtain ⟨read, own, rfl⟩ := List.mem_map.mp found
    obtain ⟨reads, same⟩ := List.mem_filter.mp own
    obtain ⟨own, apart⟩ := of_decide_eq_true same
    exact ⟨read, ⟨reads, own, apart, Bool.eq_false_of_not_eq_true' ahead⟩, List.mem_singleton.mp blamed⟩
  · rintro ⟨read, ⟨reads, own, apart, ahead⟩, rfl⟩
    refine ⟨read.offset, List.mem_filter.mpr ⟨List.mem_map_of_mem (List.mem_filter.mpr
      ⟨reads, decide_eq_true ⟨own, apart⟩⟩), congrArg not ahead⟩, List.mem_singleton_self _⟩

theorem mem_faults_checkCarriedReads
    (inward : part.interval.start.Inward ∧ part.interval.stop.Inward) :
    fault ∈ (checkCarriedReads block index part.interval statement).faults ↔
      BlamesOutside index block part.interval statement fault := by
  unfold checkCarriedReads
  rw [mem_faults_joinAll_map]
  refine exists_congr fun read => ?_
  rw [mem_carriedReads]
  refine and_congr_right fun carries => ?_
  have exact := (firstPlaneNeeds_exact carries.before inward).1
  unfold checkCarriedRead
  split
  next least needed =>
    rw [needed] at exact
    exact iff_of_false (fun absurd => nomatch absurd) fun both => nomatch exact.mpr both.1
  next never =>
    exact List.mem_singleton.trans (and_iff_right (exact.mp never)).symm

/-- **Which reads are blamed.** -/
theorem mem_faults_ordering (inward : ∀ block ∈ program.blocks, ∀ part ∈ block.sections,
      part.interval.start.Inward ∧ part.interval.stop.Inward) :
    fault ∈ (ordering program).faults ↔
      ∃ index block part statement, Stands program index block part statement ∧
        (BlamesAhead index block statement fault ∨
          BlamesOutside index block part.interval statement fault) := by
  have ofStatement : ∀ {index block part statement}, block ∈ program.blocks →
      part ∈ block.sections →
      (fault ∈ ((checkSelfReads block index statement).join
          (checkCarriedReads block index part.interval statement)).faults ↔
        BlamesAhead index block statement fault ∨
          BlamesOutside index block part.interval statement fault) := by
    intro index block part statement member inBlock
    exact List.mem_append.trans (or_congr mem_faults_checkSelfReads
      (mem_faults_checkCarriedReads (inward block member part inBlock)))
  unfold ordering checkBlockReads
  simp only [mem_faults_joinAll_map]
  constructor
  · rintro ⟨⟨block, index⟩, there, part, inBlock, statement, inPart, blamed⟩
    have atBlock := List.mk_mem_zipIdx_iff_getElem?.mp there
    exact ⟨index, block, part, statement, ⟨atBlock, inBlock, inPart⟩,
      (ofStatement (List.mem_of_getElem? atBlock) inBlock).mp blamed⟩
  · rintro ⟨index, block, part, statement, ⟨atBlock, inBlock, inPart⟩, blames⟩
    exact ⟨(block, index), List.mk_mem_zipIdx_iff_getElem?.mpr atBlock, part, inBlock, statement,
      inPart, (ofStatement (List.mem_of_getElem? atBlock) inBlock).mpr blames⟩

/-! ### How many planes are asked for -/

/-- On the first planes of their intervals, all carried reads of a program are clear of the end that
their block comes from. -/
def AllClear (program : Program) (planes : Nat) : Prop :=
  ∀ index block part statement, Stands program index block part statement →
    ∀ read, Carries block statement read →
      FirstClear block.policy part.interval read.offset.k planes

theorem planes_joinAll_map {α : Type} {xs : List α} {report : α → Report} :
    (Report.joinAll (xs.map report)).planes ≤ planes ↔ ∀ x ∈ xs, (report x).planes ≤ planes := by
  induction xs with
  | nil => exact ⟨fun _ _ absurd => (nomatch absurd), fun _ => Nat.zero_le planes⟩
  | cons first rest ih =>
    rw [List.forall_mem_cons, ← ih]
    exact Nat.max_le

/-- The number of planes is the one that carried reads ask for. -/
theorem planes_ordering_le : (ordering program).planes ≤ planes ↔
    ∀ index block part statement, Stands program index block part statement →
      ∀ read, Carries block statement read →
        (checkCarriedRead block index part.interval statement.span read).planes ≤ planes := by
  have ofStatement : ∀ index (block : Block) (part : Section) statement,
      ((checkSelfReads block index statement).join
          (checkCarriedReads block index part.interval statement)).planes ≤ planes ↔
        ∀ read, Carries block statement read →
          (checkCarriedRead block index part.interval statement.span read).planes ≤ planes := by
    intro index block part statement
    have self : (checkSelfReads block index statement).planes ≤ planes :=
      planes_joinAll_map.mpr fun _ _ => Nat.zero_le planes
    have carried : (checkCarriedReads block index part.interval statement).planes ≤ planes ↔
        ∀ read, Carries block statement read →
          (checkCarriedRead block index part.interval statement.span read).planes ≤ planes := by
      unfold checkCarriedReads
      rw [planes_joinAll_map]
      simp only [mem_carriedReads]
    exact Nat.max_le.trans ((and_iff_right self).trans carried)
  unfold ordering checkBlockReads
  simp only [planes_joinAll_map, ofStatement]
  constructor
  · intro all index block part statement stands
    exact all (block, index) (List.mk_mem_zipIdx_iff_getElem?.mpr stands.atBlock) part
      stands.inBlock statement stands.inPart
  · intro all pair there part inBlock statement inPart
    exact all pair.2 pair.1 part statement
      ⟨List.mk_mem_zipIdx_iff_getElem?.mp there, inBlock, inPart⟩

/-- **How many planes are asked for**, if no read is blamed. -/
theorem planes_ordering_le_iff (inward : ∀ block ∈ program.blocks, ∀ part ∈ block.sections,
      part.interval.start.Inward ∧ part.interval.stop.Inward)
    (clean : (ordering program).faults = []) :
    (ordering program).planes ≤ planes ↔ AllClear program planes := by
  rw [planes_ordering_le]
  refine forall_congr' fun index => forall_congr' fun block => forall_congr' fun part =>
    forall_congr' fun statement => forall_congr' fun stands => forall_congr' fun read =>
    forall_congr' fun carries => ?_
  have exact := firstPlaneNeeds_exact carries.before
    (inward block (List.mem_of_getElem? stands.atBlock) part stands.inBlock)
  unfold checkCarriedRead
  cases needed : firstPlaneNeeds block.policy part.interval read.offset.k with
  | some least => exact (exact.2 least needed planes).symm
  | none =>
    have blamed := (mem_faults_ordering inward).mpr ⟨index, block, part, statement, stands,
      .inr ⟨read, carries, exact.1.mp needed, rfl⟩⟩
    rw [clean] at blamed
    cases blamed

/-! ### Both checks -/

/-- Both checks leave a number of planes that is enough for each of them. -/
theorem planes_le_of_validate {context : Context}
    (passed : (intervals context.program).faults = [])
    (clean : (ordering context.program).faults = []) :
    (intervals context.program).planes ≤
        (PassTable.standard.run context ["validate"] []).context.minPlanes ∧
      (ordering context.program).planes ≤
        (PassTable.standard.run context ["validate"] []).context.minPlanes := by
  have plan : PassTable.standard.plan ["validate"] [] = .ok [.intervalCheck, .orderingCheck] := by
    rfl
  unfold PassTable.run
  rw [plan]
  have first : (Pass.intervalCheck.run context).failure = none := Pass.runCheck_isOk passed
  have second : (Pass.orderingCheck.run (Pass.intervalCheck.run context).context).failure = none :=
    Pass.runCheck_isOk clean
  have both : (Pass.runAll [.intervalCheck, .orderingCheck] context).failure = none :=
    Pass.runAll_cons_isOk first (Pass.runAll_cons_isOk second rfl)
  obtain ⟨-, rest, same⟩ := Pass.runAll_cons_eq_none both
  obtain ⟨-, -, same'⟩ := Pass.runAll_cons_eq_none rest
  show _ ≤ (Pass.runAll [.intervalCheck, .orderingCheck] context).context.minPlanes ∧
    _ ≤ (Pass.runAll [.intervalCheck, .orderingCheck] context).context.minPlanes
  rw [same, same']
  exact ⟨Nat.le_trans (Nat.le_max_right _ _) (Nat.le_max_left _ _), Nat.le_max_right _ _⟩

/-- **The check of reads is exact.** Let the intervals of a program pass their check. A statement is
blamed for the reads of its own target on planes where its block has not been, and for the carried
reads that lie outside of every domain on the first plane of the interval, or whose plane does not
fit into 64 bits. If none is blamed, then in all domains with the number of planes that both checks
leave, carried reads lie inside on all planes of their intervals, and the number of planes of the
check of reads is the least one from which on they are clear of the end that their block comes
from. -/
theorem ordering_exact {definition : Definition} {externals : Externals} {signature : Signature}
    {context : Context}
    (built : Context.ofDefinition? definition externals signature = .ok context)
    (passed : (intervals context.program).faults = []) :
    (∀ fault, fault ∈ (ordering context.program).faults ↔
        ∃ index block part statement, Stands context.program index block part statement ∧
          (BlamesAhead index block statement fault ∨
            BlamesOutside index block part.interval statement fault)) ∧
      ((ordering context.program).faults = [] →
        (∀ planes : Nat,
          (PassTable.standard.run context ["validate"] []).context.minPlanes ≤ planes →
          ∀ index block part statement, Stands context.program index block part statement →
            ∀ read, Carries block statement read →
              ∀ k : Int, part.interval.start.height planes ≤ k →
                k < part.interval.stop.height planes →
                0 ≤ k + read.offset.k ∧ k + read.offset.k < planes) ∧
        IsLeast {n : Nat | ∀ planes, n ≤ planes → AllClear context.program planes}
          (ordering context.program).planes) := by
  have inward := (Program.ofDefinition?_wellFormed (Context.ofDefinition?_eq_ok built)).bounds
  refine ⟨fun fault => mem_faults_ordering inward, fun clean => ⟨?_, ?_⟩⟩
  · intro planes enough index block part statement stands read carries k above below
    obtain ⟨first, second⟩ := planes_le_of_validate passed clean
    have member := List.mem_of_getElem? stands.atBlock
    have inside : part.interval.Inside planes := by
      obtain ⟨_, allows⟩ := intervals_block
        (⟨passed, first.trans enough⟩ : (intervals context.program).Allows planes) member
      obtain ⟨nonEmpty, -, -⟩ := checkBlockIntervals_allows_iff.mp allows
      obtain ⟨least, found, below⟩ := nonEmpty part stands.inBlock
      exact (Interval.inside_iff_of_inward (inward block member part stands.inBlock) found
        planes).mpr below
    have clear := (planes_ordering_le_iff inward clean).mp (second.trans enough)
    exact inside_of_firstClear carries.before inside
      (clear index block part statement stands read carries) above below
  · constructor
    · exact fun planes enough => (planes_ordering_le_iff inward clean).mp enough
    · exact fun n all => (planes_ordering_le_iff inward clean).mpr (all n (Nat.le_refl n))

/-- The uppermost two planes take over the values from three planes below. -/
def climbing : Definition where
  source := ⟨"", ""⟩
  name := "climbing"
  fields := [⟨"x", .f64, .ijk, ⟨0, 0⟩⟩]
  scalars := []
  externals := []
  computations := [⟨"FORWARD", [⟨.between (.int (-2)) .top,
    [.assign "x" none (.access "x" ⟨0, 0, -3⟩ ⟨0, 0⟩) ⟨0, 0⟩], ⟨0, 0⟩⟩], ⟨0, 0⟩⟩]
  span := ⟨0, 0⟩

/-- With three planes below, the first one of the two is the fourth. -/
theorem ordering_exact_climbing : ∃ context,
    Context.ofDefinition? climbing (.ofList []) (.ofList []) = .ok context ∧
      (intervals context.program).faults = [] ∧ (ordering context.program).faults = [] ∧
      IsLeast {n : Nat | ∀ planes, n ≤ planes → AllClear context.program planes} 5 := by
  have known : (Context.ofDefinition? climbing (.ofList []) (.ofList [])).toOption.map
      (fun context => ((intervals context.program).faults.length,
        (ordering context.program).faults.length, (ordering context.program).planes)) =
      some (0, 0, 5) := by decide +kernel
  cases done : Context.ofDefinition? climbing (.ofList []) (.ofList []) with
  | error error =>
    rw [done] at known
    cases known
  | ok context =>
    rw [done] at known
    obtain ⟨passed, both⟩ := Prod.mk.inj (Option.some.inj known)
    obtain ⟨clean, planes⟩ := Prod.mk.inj both
    rw [List.length_eq_zero_iff] at passed clean
    have least := ((ordering_exact done passed).2 clean).2
    rw [planes] at least
    exact ⟨context, rfl, passed, clean, least⟩

end GridStencil.Check
