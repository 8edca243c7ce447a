import GridStencil.Proofs.Check.Intervals
import GridStencil.Proofs.Kernel.Jobs

/-!
**What a program means on the whole grid.**

The reference execution knows no regions, no demand and no buffers. A state gives every field a
value at every point of the grid, and a statement gives its target new values at all points of its
planes at once. Nothing is skipped.

An execution is a list of assignments, one per statement and turn of its section. In a sequential
block the reference goes from plane to plane and looks for the sections with that plane, a schedule
goes from section to section; since the intervals follow each other, both meet the same assignments
in the same order.

* `Program.jobs_eq`: the jobs of a program are those of its live assignments.
* `Reference.run_eq`: the reference execution carries out all of them.
-/

namespace GridStencil

/-- The planes of a stretch in the order in which a policy visits them. -/
def Policy.inOrder (policy : Policy) (planes : Stretch) : List Int :=
  match policy with
  | parallel | forward => planes.toList
  | backward => planes.toList.reverse

namespace Reference

open Program

/-- The values of all fields at all points of the grid. -/
abbrev State := String → Offset → Float

/-- The value of an expression at a point. -/
def value (scalars : String → Float) (state : State) (point : Offset) : Program.Expr → Float
  | .field name offset => state name (point.add offset)
  | .scalar name => scalars name
  | .literal value => value.toFloat
  | .unary op arg => op.apply (value scalars state point arg)
  | .binary op left right =>
    op.apply (value scalars state point left) (value scalars state point right)
  | .select condition whenTrue whenFalse =>
    if value scalars state point condition != 0.0 then value scalars state point whenTrue
    else value scalars state point whenFalse

section

variable (program : Program) (scalars : String → Float) (domain : PerAxis Nat)

/-- A value as an element of a field. -/
def cast (field : String) (x : Float) : Float :=
  match program.field? field with
  | some field => field.type.cast x
  | none => x

/-- The state after a statement on some planes. All values are those of the state before. -/
def assign (planes : Stretch) (state : State) (statement : Statement) : State := fun field point =>
  if field = statement.target ∧ planes.start ≤ point.k ∧ point.k < planes.stop then
    cast program field (value scalars state point statement.value)
  else state field point

/-- The state after some statements on some planes. -/
def runBody (planes : Stretch) (state : State) (body : List Statement) : State :=
  body.foldl (assign program scalars planes) state

/-- Whether an interval has a plane. -/
def hasPlane (part : Section) (k : Int) : Bool :=
  let planes := Schedule.planesOf part.interval domain
  planes.start ≤ k && k < planes.stop

/-- The state after one plane of some sections. -/
def runPlane (sections : List Section) (state : State) (k : Int) : State :=
  (sections.filter (hasPlane domain · k)).foldl (fun state part =>
    runBody program scalars ⟨k, k + 1⟩ state part.body) state

/-- The state after a block: interval by interval, or plane by plane. -/
def runBlock (state : State) (block : Block) : State :=
  if block.policy.isSequential then
    (block.policy.inOrder ⟨0, domain.k⟩).foldl (runPlane program scalars domain block.sections)
      state
  else
    block.sections.foldl (fun state part =>
      runBody program scalars (Schedule.planesOf part.interval domain) state part.body) state

/-- The state after a program. -/
def run (state : State) : State := program.blocks.foldl (runBlock program scalars domain) state

end

end Reference

namespace Program

/-! ### Assignments -/

/-- A statement on some planes, with the extent on which it is computed if it is live. -/
structure Assignment where
  statement : Statement
  planes : Stretch
  extent : Option Extent

/-- What a schedule computes of an assignment. -/
def Assignment.job? (domain : PerAxis Nat) (assignment : Assignment) : Option Job :=
  assignment.extent.map fun extent =>
    ⟨assignment.statement, .grown extent domain assignment.planes⟩

/-- The job of an assignment is its statement, on its planes. -/
theorem Assignment.job?_parts {domain : PerAxis Nat} {assignment : Assignment} {job : Job}
    (isJob : assignment.job? domain = some job) :
    job.statement = assignment.statement ∧ job.region.k = assignment.planes := by
  obtain ⟨extent, -, rfl⟩ := Option.map_eq_some_iff.mp isJob
  exact ⟨rfl, rfl⟩

theorem Assignment.job?_of_dead {assignment : Assignment} (domain : PerAxis Nat)
    (dead : assignment.extent = none) : assignment.job? domain = none := by
  unfold job?
  rw [dead, Option.map_none]

theorem Assignment.job?_of_live {assignment : Assignment} (domain : PerAxis Nat) {extent : Extent}
    (live : assignment.extent = some extent) : assignment.job? domain =
      some ⟨assignment.statement, .grown extent domain assignment.planes⟩ := by
  unfold job?
  rw [live, Option.map_some]

/-- Statements on some planes. -/
def assignmentsOn (demand : Demand) (planes : Stretch) (statements : List (Position × Statement)) :
    List Assignment :=
  statements.map fun (position, statement) => ⟨statement, planes, demand.region? position⟩

/-- The planes on which the statements of a section run one after another, turn by turn. -/
def turns (policy : Policy) (planes : Stretch) : List Stretch :=
  if policy.isSequential then (policy.inOrder planes).map fun k => ⟨k, k + 1⟩ else [planes]

/-- The assignments of a section of a block. -/
def sectionAssignments (demand : Demand) (domain : PerAxis Nat) (policy : Policy) (b : Nat)
    (part : Section × Nat) : List Assignment :=
  (turns policy (Schedule.planesOf part.1.interval domain)).flatMap fun planes =>
    assignmentsOn demand planes (positioned b part.2 part.1.body)

/-- The assignments of a block. -/
def blockAssignments (demand : Demand) (domain : PerAxis Nat) (block : Block) (b : Nat) :
    List Assignment :=
  block.sections.zipIdx.flatMap (sectionAssignments demand domain block.policy b)

/-- The assignments of a program. -/
def assignments (program : Program) (demand : Demand) (domain : PerAxis Nat) : List Assignment :=
  program.blocks.zipIdx.flatMap fun (block, b) => blockAssignments demand domain block b

/-- An assignment is one of a statement of the program. -/
theorem mem_assignments {program : Program} {demand : Demand} {domain : PerAxis Nat}
    {assignment : Assignment} (member : assignment ∈ program.assignments demand domain) :
    ∃ block ∈ program.blocks, ∃ part ∈ block.sections, assignment.statement ∈ part.body := by
  obtain ⟨⟨block, b⟩, inProgram, member⟩ := List.mem_flatMap.mp member
  obtain ⟨⟨part, i⟩, inBlock, member⟩ := List.mem_flatMap.mp member
  obtain ⟨planes, -, member⟩ := List.mem_flatMap.mp member
  obtain ⟨⟨position, statement⟩, there, rfl⟩ := List.mem_map.mp member
  exact ⟨block, List.mem_of_getElem? (List.mk_mem_zipIdx_iff_getElem?.mp inProgram), part,
    List.mem_of_getElem? (List.mk_mem_zipIdx_iff_getElem?.mp inBlock),
    List.mem_of_getElem? (mem_positioned.mp there).2.2⟩

theorem filterMap_job? (demand : Demand) (domain : PerAxis Nat) (planes : Stretch)
    (statements : List (Position × Statement)) :
    (assignmentsOn demand planes statements).filterMap (Assignment.job? domain) =
      jobsOn domain planes (liveOnes demand statements) := by
  induction statements with
  | nil => rfl
  | cons first rest ih =>
    obtain ⟨position, statement⟩ := first
    show List.filterMap _
      (⟨statement, planes, demand.region? position⟩ :: assignmentsOn demand planes rest) = _
    unfold liveOnes
    cases live : demand.region? position with
    | none =>
      rw [List.filterMap_cons_none rfl]
      exact ih
    | some extent =>
      show _ :: List.filterMap _ (assignmentsOn demand planes rest) = _
      rw [ih]
      rfl

/-- **The jobs of a program are those of its live assignments.** -/
theorem jobs_eq (program : Program) (demand : Demand) (domain : PerAxis Nat) :
    program.jobs demand domain =
      (program.assignments demand domain).filterMap (Assignment.job? domain) := by
  have ofSection : ∀ policy b (part : Section × Nat),
      sectionJobs policy domain part.1.interval
          (liveOnes demand (positioned b part.2 part.1.body)) =
        (sectionAssignments demand domain policy b part).filterMap (Assignment.job? domain) := by
    intro policy b part
    unfold sectionAssignments
    rw [List.filterMap_flatMap]
    simp only [filterMap_job?]
    cases policy with
    | parallel => exact (List.append_nil _).symm
    | forward =>
      show _ = List.flatMap _ (List.map _ _)
      rw [List.flatMap_map]
      rfl
    | backward =>
      show _ = List.flatMap _ (List.map _ _)
      rw [List.flatMap_map]
      rfl
  unfold jobs assignments blockJobs blockAssignments
  rw [List.filterMap_flatMap]
  refine congrArg (List.flatMap · _) (funext fun pair => ?_)
  rw [List.filterMap_flatMap]
  exact congrArg (List.flatMap · _) (funext fun part => ofSection _ _ part)

end Program

/-! ### Visits -/

section Visits

variable {policy : Policy}

theorem Policy.mem_inOrder {planes : Stretch} {k : Int} :
    k ∈ policy.inOrder planes ↔ planes.start ≤ k ∧ k < planes.stop := by
  cases policy with
  | parallel => exact Stretch.mem_toList
  | forward => exact Stretch.mem_toList
  | backward => exact List.mem_reverse.trans Stretch.mem_toList

theorem Stretch.pairwise_toList (planes : Stretch) : planes.toList.Pairwise (· < ·) := by
  unfold toList
  rw [List.pairwise_map]
  exact List.pairwise_lt_range.imp fun below => by omega

/-- A sequential block visits the planes of a stretch one after another. -/
theorem Policy.pairwise_inOrder (sequential : policy.isSequential = true) (planes : Stretch) :
    (policy.inOrder planes).Pairwise fun a b => policy.visitsBefore (a - b) = true := by
  have increasing := planes.pairwise_toList
  cases policy with
  | parallel => cases sequential
  | forward => exact increasing.imp fun below => decide_eq_true (by omega)
  | backward =>
    exact List.pairwise_reverse.mpr (increasing.imp fun below => decide_eq_true (by omega))

/-- A plane is not visited before itself. -/
theorem Policy.visitsBefore_irrefl {a b : Int} (before : policy.visitsBefore (a - b) = true) :
    a ≠ b := by
  rintro rfl
  rw [Int.sub_self] at before
  cases policy <;> cases before

theorem Policy.visitsBefore_trans {a b c : Int} (first : policy.visitsBefore (a - b) = true)
    (second : policy.visitsBefore (b - c) = true) : policy.visitsBefore (a - c) = true := by
  cases policy with
  | parallel => cases first
  | forward =>
    have first : a - b < 0 := of_decide_eq_true first
    have second : b - c < 0 := of_decide_eq_true second
    exact decide_eq_true (by omega)
  | backward =>
    have first : 0 < a - b := of_decide_eq_true first
    have second : 0 < b - c := of_decide_eq_true second
    exact decide_eq_true (by omega)

theorem Policy.visitsBefore_asymm {a b : Int} (before : policy.visitsBefore (a - b) = true) :
    ¬ policy.visitsBefore (b - a) = true := fun after =>
  Policy.visitsBefore_irrefl (Policy.visitsBefore_trans before after) rfl

namespace Program

/-- The planes of some sections with the sections they belong to, section by section. -/
def visits (policy : Policy) (domain : PerAxis Nat) (parts : List (Section × Nat)) :
    List (Int × Section × Nat) :=
  parts.flatMap fun part =>
    (policy.inOrder (Schedule.planesOf part.1.interval domain)).map fun k => (k, part)

theorem mem_visits {domain : PerAxis Nat} {parts : List (Section × Nat)} {k : Int}
    {part : Section × Nat} :
    (k, part) ∈ visits policy domain parts ↔
      part ∈ parts ∧ part.1.interval.start.resolve domain.k ≤ k ∧
        k < part.1.interval.stop.resolve domain.k := by
  unfold visits
  simp only [List.mem_flatMap, List.mem_map, Prod.mk.injEq]
  constructor
  · rintro ⟨other, inside, k', there, rfl, rfl⟩
    exact ⟨inside, Policy.mem_inOrder.mp there⟩
  · rintro ⟨inside, there⟩
    exact ⟨part, inside, k, Policy.mem_inOrder.mpr there, rfl, rfl⟩

/-- The sections of a sequential block follow each other in the order of its policy. -/
theorem pairwise_parts {domain : PerAxis Nat} {block : Block}
    (ordered : Check.Ordered domain.k block) (sequential : block.policy.isSequential = true) :
    block.sections.zipIdx.Pairwise fun a b => ∀ k l,
      (a.1.interval.start.resolve domain.k ≤ k ∧ k < a.1.interval.stop.resolve domain.k) →
      (b.1.interval.start.resolve domain.k ≤ l ∧ l < b.1.interval.stop.resolve domain.k) →
      block.policy.visitsBefore (k - l) = true := by
  have parts : block.sections.Pairwise fun a b => ∀ k l,
      (a.interval.start.resolve domain.k ≤ k ∧ k < a.interval.stop.resolve domain.k) →
      (b.interval.start.resolve domain.k ≤ l ∧ l < b.interval.stop.resolve domain.k) →
      block.policy.visitsBefore (k - l) = true := by
    cases policy : block.policy with
    | parallel => rw [policy] at sequential; cases sequential
    | forward =>
      refine (ordered.forward policy).imp fun order k l _ _ => ?_
      exact decide_eq_true (by omega)
    | backward =>
      refine (ordered.backward policy).imp fun order k l _ _ => ?_
      exact decide_eq_true (by omega)
  rw [← List.zipIdx_map_fst 0 block.sections, List.pairwise_map] at parts
  exact parts

/-- **A sequential block visits every plane once**, in the order of its policy. -/
theorem pairwise_visits {domain : PerAxis Nat} {block : Block}
    (ordered : Check.Ordered domain.k block) (sequential : block.policy.isSequential = true) :
    (visits block.policy domain block.sections.zipIdx).Pairwise fun a b =>
      block.policy.visitsBefore (a.1 - b.1) = true := by
  unfold visits
  rw [List.pairwise_flatMap]
  refine ⟨fun part _ => List.pairwise_map.mpr (Policy.pairwise_inOrder sequential _), ?_⟩
  refine (pairwise_parts ordered sequential).imp fun apart visit inFirst visit' inSecond => ?_
  obtain ⟨k, there, rfl⟩ := List.mem_map.mp inFirst
  obtain ⟨l, there', rfl⟩ := List.mem_map.mp inSecond
  exact apart k l (Policy.mem_inOrder.mp there) (Policy.mem_inOrder.mp there')

/-- The assignments of a sequential block, visit by visit. -/
theorem blockAssignments_eq {block : Block} (sequential : block.policy.isSequential = true)
    (demand : Demand) (domain : PerAxis Nat) (b : Nat) :
    blockAssignments demand domain block b =
      (visits block.policy domain block.sections.zipIdx).flatMap fun visit =>
        assignmentsOn demand ⟨visit.1, visit.1 + 1⟩ (positioned b visit.2.2 visit.2.1.body) := by
  unfold blockAssignments visits sectionAssignments turns
  simp only [sequential, if_true, List.flatMap_assoc, List.flatMap_map]

/-- The planes of a domain with the sections that have them, plane by plane. -/
def visitsByPlane (policy : Policy) (domain : PerAxis Nat) (parts : List (Section × Nat)) :
    List (Int × Section × Nat) :=
  (policy.inOrder ⟨0, domain.k⟩).flatMap fun k =>
    (parts.filter fun part => Reference.hasPlane domain part.1 k).map fun part => (k, part)

theorem mem_visitsByPlane {domain : PerAxis Nat} {parts : List (Section × Nat)} {k : Int}
    {part : Section × Nat} :
    (k, part) ∈ visitsByPlane policy domain parts ↔
      (0 ≤ k ∧ k < domain.k) ∧ part ∈ parts ∧ part.1.interval.start.resolve domain.k ≤ k ∧
        k < part.1.interval.stop.resolve domain.k := by
  unfold visitsByPlane
  simp only [List.mem_flatMap, List.mem_map, List.mem_filter, Prod.mk.injEq, Reference.hasPlane,
    Bool.and_eq_true, decide_eq_true_eq, Policy.mem_inOrder]
  constructor
  · rintro ⟨_, there, _, found, rfl, rfl⟩
    exact ⟨there, found⟩
  · rintro ⟨there, found⟩
    exact ⟨k, there, part, found, rfl, rfl⟩

/-- **Section by section, a sequential block visits the same as plane by plane.** -/
theorem visits_eq {domain : PerAxis Nat} {block : Block} (ordered : Check.Ordered domain.k block)
    (sequential : block.policy.isSequential = true) :
    visits block.policy domain block.sections.zipIdx =
      visitsByPlane block.policy domain block.sections.zipIdx := by
  have bySection := pairwise_visits ordered sequential
  have byPlane : (visitsByPlane block.policy domain block.sections.zipIdx).Pairwise fun a b =>
      block.policy.visitsBefore (a.1 - b.1) = true := by
    unfold visitsByPlane
    rw [List.pairwise_flatMap]
    refine ⟨fun k _ => List.pairwise_map.mpr ?_, ?_⟩
    · -- a second section with the same plane would be visited before or after the first one
      refine ((pairwise_parts ordered sequential).filter _).imp_of_mem fun inA inB apart => ?_
      simp only [List.mem_filter, Reference.hasPlane, Bool.and_eq_true, decide_eq_true_eq]
        at inA inB
      exact apart k k inA.2 inB.2
    · refine (Policy.pairwise_inOrder sequential _).imp fun before visit here visit' there => ?_
      obtain ⟨_, -, rfl⟩ := List.mem_map.mp here
      obtain ⟨_, -, rfl⟩ := List.mem_map.mp there
      exact before
  have distinct : ∀ {a b : Int × Section × Nat},
      block.policy.visitsBefore (a.1 - b.1) = true → a ≠ b := fun before same =>
    Policy.visitsBefore_irrefl before (congrArg Prod.fst same)
  have perm : (visits block.policy domain block.sections.zipIdx).Perm
      (visitsByPlane block.policy domain block.sections.zipIdx) := by
    refine (List.perm_ext_iff_of_nodup (bySection.imp distinct) (byPlane.imp distinct)).mpr ?_
    rintro ⟨k, part⟩
    rw [mem_visits, mem_visitsByPlane]
    refine ⟨fun found => ⟨?_, found⟩, fun found => found.2⟩
    obtain ⟨bottom, -, top⟩ := ordered.valid part.1
      (List.mem_of_getElem? (List.mk_mem_zipIdx_iff_getElem?.mp found.1))
    omega
  refine perm.eq_of_pairwise (fun a b _ _ before after => ?_) bySection byPlane
  exact absurd before (Policy.visitsBefore_asymm after)

end Program

end Visits

/-! ### Executions -/

namespace Reference

open Program

variable (program : Program) (scalars : String → Float)

/-- The state after an assignment. -/
def carryOut (state : State) (assignment : Assignment) : State :=
  assign program scalars assignment.planes state assignment.statement

theorem foldl_assignmentsOn (demand : Demand) (planes : Stretch) (b i : Nat)
    (body : List Statement) (state : State) :
    (assignmentsOn demand planes (positioned b i body)).foldl (carryOut program scalars) state =
      runBody program scalars planes state body := by
  unfold assignmentsOn positioned runBody
  rw [List.map_map, List.foldl_map]
  conv_rhs => rw [← List.zipIdx_map_fst 0 body, List.foldl_map]
  rfl

/-- **The reference execution of a block carries out its assignments.** -/
theorem runBlock_eq (demand : Demand) {domain : PerAxis Nat} {block : Block}
    (ordered : Check.Ordered domain.k block) (b : Nat) (state : State) :
    runBlock program scalars domain state block =
      (blockAssignments demand domain block b).foldl (carryOut program scalars) state := by
  unfold runBlock
  cases sequential : block.policy.isSequential with
  | false =>
    unfold blockAssignments
    rw [if_neg Bool.false_ne_true, List.foldl_flatMap]
    conv_lhs => rw [← List.zipIdx_map_fst 0 block.sections, List.foldl_map]
    refine congrArg (fun step => List.foldl step state _)
      (funext fun state => funext fun part => ?_)
    unfold sectionAssignments turns
    rw [sequential, if_neg Bool.false_ne_true, List.flatMap_singleton, foldl_assignmentsOn]
  | true =>
    rw [if_pos rfl, blockAssignments_eq sequential, visits_eq ordered sequential]
    unfold visitsByPlane
    rw [List.foldl_flatMap, List.foldl_flatMap]
    refine congrArg (fun step => List.foldl step state _) (funext fun state => funext fun k => ?_)
    unfold runPlane
    rw [List.foldl_map]
    conv_lhs => rw [← List.zipIdx_map_fst 0 block.sections, List.filter_map, List.foldl_map]
    simp only [foldl_assignmentsOn]
    rfl

/-- **The reference execution carries out all assignments of a program.** -/
theorem run_eq (demand : Demand) {domain : PerAxis Nat}
    (ordered : ∀ block ∈ program.blocks, Check.Ordered domain.k block) (state : State) :
    run program scalars domain state =
      (program.assignments demand domain).foldl (carryOut program scalars) state := by
  unfold run assignments
  rw [List.foldl_flatMap]
  conv_lhs => rw [← List.zipIdx_map_fst 0 program.blocks, List.foldl_map]
  refine List.foldl_ext _ _ _ fun state pair member => ?_
  refine runBlock_eq program scalars demand (ordered pair.1 ?_) pair.2 state
  exact List.mem_of_getElem? (List.mk_mem_zipIdx_iff_getElem?.mp member)

end Reference

end GridStencil
