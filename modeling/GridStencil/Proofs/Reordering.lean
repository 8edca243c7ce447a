import GridStencil.Proofs.Check.Reordered
import GridStencil.Proofs.Demand.Reordered
import GridStencil.Proofs.Kernel.Commute
import GridStencil.Proofs.Kernel.Rows
import GridStencil.Proofs.Resolved

/-!
**The order of the sections of a parallel block does not matter if they are detached.**

The checks do not look at this order. If the same is needed of a program when its sections are in
another order, as it is if they are independent, then it has the same jobs, though those of a block
are in another order, too. Jobs of different sections are apart: where one of them reads what the
other one stores, it reads it on planes of its own section, and sections have no planes in common.
Such jobs can be done in any order.

Without these conditions the order can be seen, and no check rejects it: what a section reads widens
the extents of those that are listed before it, and a section that reads the planes of another one
finds what has been stored there so far.

* `Program.Runs.blocks`: the jobs of reordered blocks lead to the same frame.
* `Kernel.run_reordered`: a reordered program is accepted, and runs with the same result.
-/

namespace GridStencil

open Program

/-! ### The jobs of sections -/

namespace Program

/-- The live statements of a section with the extents on which they are computed. -/
def liveIn (part : Section × List (Option Extent)) : List (Statement × Extent) :=
  (part.1.body.zip part.2).filterMap fun place => place.2.map (place.1, ·)

/-- The jobs of a section whose statements are computed on given extents. -/
def jobsIn (policy : Policy) (domain : PerAxis Nat) (part : Section × List (Option Extent)) :
    List Job :=
  sectionJobs policy domain part.1.interval (liveIn part)

variable {demand : Demand} {block : Block} {b : Nat} {policy : Policy} {domain : PerAxis Nat}

theorem liveOnes_positioned (demand : Demand) (b i : Nat) (part : Section) :
    liveOnes demand (positioned b i part.body) =
      liveIn (part, part.body.zipIdx.map fun place => demand.region? ⟨b, i, place.2⟩) := by
  have picked : ∀ statements, liveOnes demand statements = statements.filterMap fun place =>
      (demand.region? place.1).map (place.2, ·) := by
    intro statements
    induction statements with
    | nil => rfl
    | cons first rest ih =>
      obtain ⟨position, statement⟩ := first
      unfold liveOnes
      rw [List.filterMap_cons, ih]
      cases demand.region? position <;> rfl
  have zipped : part.body.zip (part.body.zipIdx.map fun place => demand.region? ⟨b, i, place.2⟩) =
      part.body.zipIdx.map fun place => (place.1, demand.region? ⟨b, i, place.2⟩) := by
    conv_lhs =>
      lhs
      rw [← List.zipIdx_map_fst 0 part.body]
    exact List.zip_map'
  rw [picked]
  unfold positioned liveIn
  rw [zipped, List.filterMap_map, List.filterMap_map]
  rfl

/-- The jobs of a block, section by section. -/
theorem blockJobs_eq (demand : Demand) (domain : PerAxis Nat) (block : Block) (b : Nat) :
    blockJobs demand domain block b =
      (demand.regions block b).flatMap (jobsIn block.policy domain) := by
  unfold blockJobs Demand.regions
  rw [List.flatMap_map]
  refine List.flatMap_congr fun (part, i) _ => ?_
  dsimp only
  rw [liveOnes_positioned]
  rfl

theorem map_regions (demand : Demand) (block : Block) (b : Nat) :
    (demand.regions block b).map Prod.fst = block.sections := by
  unfold Demand.regions
  rw [List.map_map]
  exact List.zipIdx_map_fst 0 block.sections

/-- A job of a section computes one of its statements on its planes. -/
theorem mem_jobsIn {part : Section × List (Option Extent)} {job : Job}
    (member : job ∈ jobsIn policy domain part) :
    job.statement ∈ part.1.body ∧ ∃ extent planes, job.region = .grown extent domain planes ∧
      ∀ k ∈ planes.toList, k ∈ (Schedule.planesOf part.1.interval domain).toList := by
  obtain ⟨extent, isLive, planes, same, inside⟩ := mem_sectionJobs member
  obtain ⟨⟨statement, _⟩, there, found⟩ := List.mem_filterMap.mp isLive
  obtain ⟨extent', -, equal⟩ := Option.map_eq_some_iff.mp found
  cases equal
  exact ⟨(List.of_mem_zip there).1, extent, planes, same, inside⟩

end Program

/-! ### Jobs of detached sections -/

/-- Sections that do not overlap have no plane in common. -/
theorem Check.Apart.disjoint {domain : PerAxis Nat} {a b : Section} (apart : Apart domain.k a b)
    {k : Int} (inA : k ∈ (Schedule.planesOf a.interval domain).toList) :
    k ∉ (Schedule.planesOf b.interval domain).toList := by
  intro inB
  obtain ⟨above, below⟩ := Stretch.mem_toList.mp inA
  obtain ⟨above', below'⟩ := Stretch.mem_toList.mp inB
  simp only [Schedule.planesOf, Interval.resolve] at above below above' below'
  rcases apart with ⟨-, order⟩ | ⟨-, order⟩ <;> omega

/-- A job ignores those of a section that its own one reads on the same planes only. -/
theorem Program.ignores_of_level {policy : Policy} {domain : PerAxis Nat}
    {x y : Section × List (Option Extent)} {job other : Job} (level : x.1.Level y.1)
    (apart : domain.Small → Check.Apart domain.k x.1 y.1)
    (isJob : job ∈ jobsIn policy domain x) (isOther : other ∈ jobsIn policy domain y)
    (small : ∀ p ∈ job.region.points, domain.Small) : job.Ignores other := by
  obtain ⟨inPart, extent, planes, region, inside⟩ := mem_jobsIn isJob
  obtain ⟨inPart', extent', planes', region', inside'⟩ := mem_jobsIn isOther
  intro read isRead named p inJob inOther
  have isSmall := small p inJob
  rw [region, Region.mem_grown isSmall] at inJob
  rw [region'] at inOther
  have plane : (p.add read.offset).k = p.k := by
    unfold Offset.add
    rw [level _ inPart read isRead _ inPart' named, Int.add_zero]
  rw [plane] at inOther
  exact (apart isSmall).disjoint (inside _ inJob.2.2) (inside' _ inOther)

section

variable {kernel : Kernel} {context : Context} {demand : Demand} {backend : Backend} {call : Call}
  {bound : BoundCall} {block : Block} {b : Nat}

/-- **Jobs of detached sections of a block are apart.** -/
theorem Kernel.jobs_apart (planned : context.Planned)
    (made : ofContext? backend context = .ok kernel) (known : context.demand = some demand)
    (passed : call.bind kernel.interface = .ok bound)
    (fits : (Frame.ofBound kernel.interface bound call.domain).FitsMemory)
    (inProgram : (block, b) ∈ context.program.blocks.zipIdx)
    (detached : block.sections.Pairwise Section.Detached) :
    (demand.regions block b).Pairwise fun x y =>
      ∀ job ∈ jobsIn block.policy call.domain x, ∀ other ∈ jobsIn block.policy call.domain y,
        job.Apart kernel.interface other := by
  obtain ⟨other, known', face, -⟩ := ofContext?_eq_ok made
  have enough : context.minPlanes ≤ call.domain.k :=
    (Interface.ofContext?_eq_ok known face).2.2 ▸ Call.bind_planes passed
  have inBlocks := List.mem_of_getElem? (List.mk_mem_zipIdx_iff_getElem?.mp inProgram)
  -- the checks know intervals by numbers of planes that fit 64 bits
  have small : ∀ x ∈ demand.regions block b, ∀ job ∈ jobsIn block.policy call.domain x,
      ∀ p ∈ job.region.points, call.domain.Small := by
    intro x inX job isJob p point
    have ofBlock : job ∈ blockJobs demand call.domain block b := by
      rw [blockJobs_eq]
      exact List.mem_flatMap.mpr ⟨x, inX, isJob⟩
    exact small_of_job planned made known passed fits (.refl _)
      (List.mem_flatMap.mpr ⟨(block, b), inProgram, ofBlock⟩) point
  have full : ∀ x ∈ demand.regions block b, ∀ job ∈ jobsIn block.policy call.domain x,
      ∀ field ∈ kernel.interface.fields, field.name = job.statement.target →
        field.dimensions = .ijk := by
    intro x inX job isJob field member named
    have isSection : x.1 ∈ block.sections := map_regions demand block b ▸ List.mem_map_of_mem inX
    exact (Interface.target_of_ofContext? planned known face inBlocks isSection
      (mem_jobsIn isJob).1 member named).1
  have apart : block.sections.Pairwise fun x y =>
      x.Detached y ∧ (call.domain.Small → Check.Apart call.domain.k x y) := by
    by_cases small : call.domain.Small
    · have disjoint := Check.intervals_apart small.k planned.wellFormed
        (planned.intervals.mono enough) block inBlocks
      exact (detached.and disjoint).imp fun both => ⟨both.1, fun _ => both.2⟩
    · exact detached.imp fun alone => ⟨alone, fun absurd' => absurd absurd' small⟩
  rw [← map_regions demand block b, List.pairwise_map] at apart
  refine apart.imp_of_mem fun {x y} inX inY both job isJob other isOther => ?_
  obtain ⟨⟨level, level'⟩, disjoint⟩ := both
  have smallJob := small x inX job isJob
  have smallOther := small y inY other isOther
  refine ⟨ignores_of_level level disjoint isJob isOther smallJob,
    ignores_of_level level' (fun isSmall => (disjoint isSmall).symm) isOther isJob smallOther,
    fun field member named => named.elim (full x inX job isJob field member)
      (full y inY other isOther field member), fun _ p inJob q inOther equal => ?_⟩
  subst equal
  have isSmall := smallJob p inJob
  obtain ⟨-, extent, planes, region, inside⟩ := mem_jobsIn isJob
  obtain ⟨-, extent', planes', region', inside'⟩ := mem_jobsIn isOther
  rw [region, Region.mem_grown isSmall] at inJob
  rw [region', Region.mem_grown isSmall] at inOther
  exact (disjoint isSmall).disjoint (inside _ inJob.2.2) (inside' _ inOther.2.2)

end

/-- **Blocks that are computed alike lead to the same frame**, though their sections are in another
order. -/
theorem Program.Runs.blocks {interface : Interface} {call : Call} {demand demand' : Demand}
    {domain : PerAxis Nat} {frame after : Frame} {blocks blocks' : List (Block × Nat)}
    (reordered : List.Forall₂ (fun a a' => a'.2 = a.2 ∧ a.1.Reordered Section.Detached a'.1)
      blocks blocks')
    (alike : List.Forall₂
      (fun a a' => a'.2 = a.2 ∧ Demand.SameRegions demand demand' a.1 a'.1 a.2) blocks blocks')
    (apart : ∀ a ∈ blocks, a.1.sections.Pairwise Section.Detached →
      (demand.regions a.1 a.2).Pairwise fun x y =>
        ∀ job ∈ jobsIn a.1.policy domain x, ∀ other ∈ jobsIn a.1.policy domain y,
          job.Apart interface other)
    (serves : frame.Serves interface call)
    (ran : Runs interface (blocks.flatMap fun a => blockJobs demand domain a.1 a.2) frame after) :
    Runs interface (blocks'.flatMap fun a => blockJobs demand' domain a.1 a.2) frame after := by
  induction reordered generalizing frame with
  | nil => exact ran
  | @cons a a' rest rest' here _ ih =>
    obtain ⟨block, b⟩ := a
    obtain ⟨block', b'⟩ := a'
    obtain ⟨rfl, ofBlock⟩ := here
    obtain ⟨⟨-, ofSections⟩, more⟩ := List.forall₂_cons.mp alike
    rw [List.forall_mem_cons] at apart
    rw [List.flatMap_cons] at ran ⊢
    obtain ⟨middle, first, later⟩ := append_iff.mp ran
    refine append_iff.mpr ⟨middle, ?_, ih more apart.2 (first.serves serves) later⟩
    rw [blockJobs_eq] at first ⊢
    cases ofBlock with
    | same => exact ofSections.same rfl ▸ first
    | sections policy policy' _ detached =>
      rw [policy'.trans policy.symm]
      exact first.perm ofSections.perm serves (apart.1 detached)

/-! ### Contexts -/

/-- A reordered program has no sections of its own. -/
theorem Program.Reordered.exists_section {apart : Section → Section → Prop}
    {program program' : Program} (reordered : program.Reordered apart program') {block' : Block}
    (inProgram' : block' ∈ program'.blocks) {part : Section} (inBlock' : part ∈ block'.sections) :
    ∃ block ∈ program.blocks, part ∈ block.sections := by
  obtain ⟨block, inProgram, ofBlock⟩ := Steps.exists_left reordered.blocks inProgram'
  refine ⟨block, inProgram, ?_⟩
  cases ofBlock with
  | same => exact inBlock'
  | sections _ _ perm _ => exact perm.mem_iff.mpr inBlock'

/-- Whatever is known in a program is known in a reordered one. -/
theorem Program.NamesKnown.reordered {apart : Section → Section → Prop} {program program' : Program}
    (known : program.NamesKnown) (reordered : program.Reordered apart program') :
    program'.NamesKnown := by
  intro statement member
  obtain ⟨body, inBodies, inBody⟩ := List.mem_flatten.mp member
  obtain ⟨block', inProgram', inBlock'⟩ := List.mem_flatMap.mp inBodies
  obtain ⟨part, isPart, rfl⟩ := List.mem_map.mp inBlock'
  obtain ⟨block, inProgram, inBlock⟩ := reordered.exists_section inProgram' isPart
  rw [show program'.fields = program.fields by rw [reordered.same],
    show program'.scalars = program.scalars by rw [reordered.same]]
  exact known statement (List.mem_flatten.mpr ⟨part.body,
    List.mem_flatMap.mpr ⟨block, inProgram, List.mem_map.mpr ⟨part, inBlock, rfl⟩⟩, inBody⟩)

/-- A reordered program is well-formed if the program is. -/
theorem Program.WellFormed.reordered {apart : Section → Section → Prop} {program program' : Program}
    (wellFormed : program.WellFormed) (reordered : program.Reordered apart program') :
    program'.WellFormed := by
  have fields : program'.fields = program.fields := by rw [reordered.same]
  refine ⟨fields ▸ wellFormed.distinct, fields ▸ wellFormed.ordered, fields ▸ wellFormed.full,
    fun block' inProgram' part inBlock' => ?_, fun block' inProgram' part inBlock' => ?_⟩
  · obtain ⟨block, inProgram, inBlock⟩ := reordered.exists_section inProgram' inBlock'
    exact wellFormed.bounds block inProgram part inBlock
  · obtain ⟨block, inProgram, inBlock⟩ := reordered.exists_section inProgram' inBlock'
    exact fields ▸ wellFormed.targets block inProgram part inBlock

/-- Contexts of programs that differ in their blocks only have the same interface, if the same is
needed of all fields. -/
theorem Interface.ofContext?_congr {context other : Context} {demand demand' : Demand}
    (known : context.demand = some demand) (known' : other.demand = some demand')
    (program : other.program = { context.program with blocks := other.program.blocks })
    (fields : demand'.fields = demand.fields) (planes : other.minPlanes = context.minPlanes) :
    ofContext? other = ofContext? context := by
  have halo : demand'.halo = demand.halo := by
    funext name
    unfold Demand.halo Demand.extent? Demand.field?
    rw [fields]
  unfold ofContext? Context.requireDemand
  rw [known, known', program, planes]
  show Except.ok _ = Except.ok _
  rw [halo]

/-- Two contexts are counterparts: they ask the caller for the same, and their blocks are computed
alike. -/
structure Context.Counterparts (context other : Context) (demand demand' : Demand) : Prop where
  known : context.demand = some demand
  known' : other.demand = some demand'
  face : Interface.ofContext? other = Interface.ofContext? context
  reordered : context.program.Reordered Section.Detached other.program
  blocks : List.Forall₂
    (fun a a' => a'.2 = a.2 ∧ Demand.SameRegions demand demand' a.1 a'.1 a.2)
    context.program.blocks.zipIdx other.program.blocks.zipIdx

/-- **The plan `all` accepts a reordered program** if it accepts the program, and leaves contexts
that are counterparts. -/
theorem PassTable.run_all_reordered {context : Context} {program' : Program}
    (accepted : (standard.run context ["all"] []).failure = none)
    (reordered : context.program.Reordered Section.Detached program')
    (kept : ∀ demand, Demand.ofProgram? context.program = .ok demand →
      Demand.Kept context.program program' demand) :
    (standard.run { context with program := program' } ["all"] []).failure = none ∧
      ∃ demand demand', (standard.run context ["all"] []).context.Counterparts
        (standard.run { context with program := program' } ["all"] []).context demand demand' := by
  obtain ⟨intervals, ordering, demand, known, leaves⟩ := run_all_eq_none accepted
  obtain ⟨demand', known', fields, blocks⟩ := kept demand known
  have sameIntervals := Check.intervals_reordered reordered intervals
  have sameOrdering := Check.ordering_reordered reordered ordering
  have accepted' : (standard.run { context with program := program' } ["all"] []).failure = none :=
    run_all_isOk (sameIntervals ▸ intervals) (sameOrdering ▸ ordering) known'
  obtain ⟨-, -, other, found, leaves'⟩ := run_all_eq_none accepted'
  obtain rfl : demand' = other := Except.ok.inj (known'.symm.trans found)
  refine ⟨accepted', demand, demand', ?_⟩
  rw [leaves, leaves']
  refine ⟨rfl, rfl, Interface.ofContext?_congr rfl rfl reordered.same fields ?_, reordered, blocks⟩
  show max (max _ (Check.intervals program').planes) (Check.ordering program').planes = _
  rw [sameIntervals, sameOrdering]
  rfl

/-! ### Kernels -/

namespace Kernel

/-- Kernels of counterparts have the same interface. -/
theorem interface_counterparts {context other : Context} {demand demand' : Demand}
    {backend : Backend} {kernel kernel' : Kernel} (alike : context.Counterparts other demand demand')
    (made : ofContext? backend context = .ok kernel)
    (made' : ofContext? backend other = .ok kernel') : kernel'.interface = kernel.interface := by
  obtain ⟨_, -, face, -⟩ := ofContext?_eq_ok made
  obtain ⟨_, -, face', -⟩ := ofContext?_eq_ok made'
  exact Except.ok.inj (face'.symm.trans (alike.face.trans face))

/-- Kernels of counterparts leave the same behind a run that succeeds. -/
theorem run_counterparts {context other : Context} {demand demand' : Demand} {backend : Backend}
    {kernel kernel' : Kernel} {call : Call} {bound : BoundCall} (planned : context.Planned)
    (alike : context.Counterparts other demand demand')
    (made : ofContext? backend context = .ok kernel)
    (made' : ofContext? backend other = .ok kernel')
    (passed : call.bind kernel.interface = .ok bound)
    (fits : (Frame.ofBound kernel.interface bound call.domain).FitsMemory)
    (succeeded : (kernel.run call).2 = none) : kernel'.run call = kernel.run call := by
  have sameFace := interface_counterparts alike made made'
  obtain ⟨_, known, face, scheduled⟩ := ofContext?_eq_ok made
  obtain rfl := Option.some.inj (alike.known.symm.trans known)
  obtain ⟨_, known', -, scheduled'⟩ := ofContext?_eq_ok made'
  obtain rfl := Option.some.inj (alike.known'.symm.trans known')
  have done' := Schedule.tasks_doneBy scheduled' call.domain
  rw [sameFace] at done'
  have serves := Frame.ofBound_serves passed
  cases ran : Schedule.runTasks (kernel.schedule.tasks call.domain)
      (.ofBound kernel.interface bound call.domain) with
  | mk after failure =>
    rw [run_of_bound passed ran] at succeeded ⊢
    obtain rfl := Option.map_eq_none_iff.mp succeeded
    obtain ⟨tasks, done, finished⟩ := Program.Runs.blocks
      (Demand.forall₂_zipIdx alike.reordered.blocks 0) alike.blocks
      (fun _ inProgram => jobs_apart planned made known passed fits inProgram) serves
      ⟨_, Schedule.tasks_doneBy scheduled call.domain, ran⟩
    obtain ⟨sameFrame, sameFailure⟩ := Schedule.runTasks_agree serves.point done done'
    rw [finished] at sameFrame sameFailure
    refine run_of_bound (sameFace ▸ passed) (Prod.ext ?_ ?_)
    · rw [sameFace]
      exact sameFrame.symm
    · rw [sameFace]
      exact sameFailure.mp rfl

/-- **A reordered program is accepted, and has a kernel of each backend.** The plan leaves planned
contexts of both programs, which are counterparts. -/
theorem exists_counterpart {definition : Definition} {externals : Externals} {signature : Signature}
    {context : Context} {program' : Program}
    (built : Context.ofDefinition? definition externals signature = .ok context)
    (accepted : (PassTable.standard.run context ["all"] []).failure = none)
    (reordered : context.program.Reordered Section.Detached program')
    (needs : context.program.Reordered Section.Independent program' ∨
      ∀ demand, Demand.ofProgram? context.program = .ok demand →
        Demand.Kept context.program program' demand) :
    let outcome := PassTable.standard.run context ["all"] []
    let outcome' := PassTable.standard.run { context with program := program' } ["all"] []
    outcome'.failure = none ∧ outcome.context.Planned ∧ outcome'.context.Planned ∧
      (∃ demand demand', outcome.context.Counterparts outcome'.context demand demand') ∧
      ∀ backend, ∃ kernel', ofContext? backend outcome'.context = .ok kernel' := by
  intro outcome outcome'
  have kept : ∀ demand, Demand.ofProgram? context.program = .ok demand →
      Demand.Kept context.program program' demand :=
    needs.elim (fun independent _ => Demand.kept_of_independent independent) id
  have lowered := Context.ofDefinition?_eq_ok built
  obtain ⟨accepted', demand, demand', alike⟩ :=
    PassTable.run_all_reordered accepted reordered kept
  have known : outcome'.context.program.NamesKnown := by
    show (PassTable.standard.run { context with program := program' } ["all"] []).context.program.NamesKnown
    rw [(PassTable.run_all_same _).1]
    exact (names_known lowered).reordered reordered
  refine ⟨accepted', PassTable.run_all_planned built accepted,
    PassTable.planned_of_wellFormed ?_ accepted', ⟨demand, demand', alike⟩,
    fun backend => ofContext?_isOk_of_refers backend alike.known' known⟩
  exact (Program.ofDefinition?_wellFormed lowered).reordered reordered

/-- **Detached sections of parallel blocks can be listed in any order.** The sections of some
parallel blocks of a program are listed in another order, and none of them reads on other planes
than its own what another one of its block assigns. If they are even independent, or the same is
needed of the program as before, then it is accepted as well, and it has a kernel of each backend
that returns what the kernel of the first program returns, for every call on which that succeeds. -/
theorem run_reordered {definition : Definition} {externals : Externals} {signature : Signature}
    {context : Context} {program' : Program}
    (built : Context.ofDefinition? definition externals signature = .ok context)
    (accepted : (PassTable.standard.run context ["all"] []).failure = none)
    (reordered : context.program.Reordered Section.Detached program')
    (needs : context.program.Reordered Section.Independent program' ∨
      ∀ demand, Demand.ofProgram? context.program = .ok demand →
        Demand.Kept context.program program' demand) :
    (PassTable.standard.run { context with program := program' } ["all"] []).failure = none ∧
      ∀ backend kernel,
        ofContext? backend (PassTable.standard.run context ["all"] []).context = .ok kernel →
        ∃ kernel', ofContext? backend
            (PassTable.standard.run { context with program := program' } ["all"] []).context =
              .ok kernel' ∧
          ∀ call bound, Call.bind call kernel.interface = .ok bound →
            (Frame.ofBound kernel.interface bound call.domain).FitsMemory →
            (kernel.run call).2 = none → kernel'.run call = kernel.run call := by
  obtain ⟨accepted', planned, -, ⟨demand, demand', alike⟩, others⟩ :=
    exists_counterpart built accepted reordered needs
  refine ⟨accepted', fun backend kernel made => ?_⟩
  obtain ⟨kernel', made'⟩ := others backend
  exact ⟨kernel', made', fun call bound => run_counterparts planned alike made made'⟩

end Kernel

namespace Sample

open Definition (noSpan)

/-- A parallel block of two sections, one for the lowest plane and one for all others. -/
def parts (lower upper : List (String × Definition.Expr)) : Definition :=
  definition [⟨"PARALLEL", (computation "PARALLEL" (.int 0) (.int 1) lower).sections ++
    (computation "PARALLEL" (.int 1) .top upper).sections, noSpan⟩]

/-- Both sections assign a temporary and read it, at the points of the domain. -/
def each : Definition := parts [("t", access "a" 1 0), ("b", access "t" 0 0)]
  [("t", access "a" (-1) 0), ("b", access "t" 0 0)]

/-- Both sections assign a temporary that one of them reads next to the domain. -/
def widened : Definition := parts [("t", access "a" 0 0), ("b", access "t" 1 0)]
  [("t", access "a" 1 0), ("b", access "t" 0 0)]

/-- A section reads on the lowest plane what the other one assigns. -/
def across : Definition :=
  parts [("t", access "a" 0 0), ("b", access "t" 0 0)] [("b", access "t" 0 (-1))]

/-- A block with its sections in the opposite order. -/
def opposite (block : Block) : Block := { block with sections := block.sections.reverse }

/-- A program with the sections of all blocks in the opposite order. -/
def opposed (program : Program) : Program :=
  { program with blocks := program.blocks.map opposite }

/-- Whether the blocks of a program are parallel, with sections that are listed by position. -/
def Listed (program : Program) : Prop :=
  ∀ block ∈ program.blocks, block.policy = .parallel ∧
    block.sections.Pairwise fun a b => b.interval.below a.interval = false

instance (program : Program) : Decidable (Listed program) :=
  inferInstanceAs (Decidable (∀ block ∈ program.blocks, _))

/-- What the check of intervals finds in sections that are listed by position. -/
def listedIntervals (program : Program) : Report :=
  .joinAll (program.blocks.zipIdx.map fun (block, index) =>
    ((Report.joinAll (block.sections.map (Check.checkNonEmpty index))).andThen
      (Check.checkNeighbours (Check.checkDisjoint block index) block.sections)).andThen
      (Check.checkNeighbours (Check.checkListed block index) block.sections))

theorem intervals_eq {program : Program} (listed : Listed program) :
    Check.intervals program = listedIntervals program := by
  unfold Check.intervals listedIntervals
  refine congrArg Report.joinAll (List.map_congr_left fun (block, index) member => ?_)
  have inProgram := List.mem_of_getElem? (List.mk_mem_zipIdx_iff_getElem?.mp member)
  dsimp only
  unfold Check.checkBlockIntervals
  rw [Check.byPosition_of_pairwise (listed block inProgram).2]

/-- The opposed program is a reordered one if its sections are apart. -/
theorem reordered_opposed {program : Program} {apart : Section → Section → Prop}
    (listed : Listed program) (pairwise : ∀ block ∈ program.blocks, block.sections.Pairwise apart) :
    program.Reordered apart (opposed program) := by
  refine ⟨rfl, List.forall₂_map_right_iff.mpr (List.forall₂_same.mpr fun block member => ?_)⟩
  exact .sections (listed block member).1 (listed block member).1 (List.reverse_perm _).symm
    (pairwise block member)

/-- What the plan `all` leaves of a context, by what the check of intervals finds. -/
def checked (intervals : Report) (context : Context) : Option Context :=
  match Demand.ofProgram? context.program with
  | .error _ => none
  | .ok demand =>
    if intervals.faults = [] ∧ (Check.ordering context.program).faults = [] then
      some { (context.raise intervals.planes).raise
        (Check.ordering context.program).planes with demand := some demand }
    else none

theorem run_of_checked {context after : Context}
    (found : checked (Check.intervals context.program) context = some after) :
    (PassTable.standard.run context ["all"] []).failure = none ∧
      (PassTable.standard.run context ["all"] []).context = after := by
  unfold checked at found
  split at found
  · cases found
  next demand known =>
    split at found
    next clean =>
      have accepted := PassTable.run_all_isOk clean.1 clean.2 known
      obtain ⟨-, -, other, known', leaves⟩ := PassTable.run_all_eq_none accepted
      cases known.symm.trans known'
      exact ⟨accepted, leaves.trans (Option.some.inj found)⟩
    · cases found

/-- The contexts of a definition and of its opposed program behind the plan `all`, with the kernels
that are made of them. -/
structure Opposed (definition : Definition) (context : Context) (kernel kernel' : Kernel) :
    Prop where
  built : Context.ofDefinition? definition .empty .empty = .ok context
  parallel : ∀ block ∈ context.program.blocks, block.policy = .parallel
  accepted : (PassTable.standard.run context ["all"] []).failure = none
  made : Kernel.ofContext? .debug (PassTable.standard.run context ["all"] []).context = .ok kernel
  accepted' : (PassTable.standard.run
    { context with program := opposed context.program } ["all"] []).failure = none
  made' : Kernel.ofContext? .debug (PassTable.standard.run
    { context with program := opposed context.program } ["all"] []).context = .ok kernel'

/-- A definition with its context and two kernels, if both programs are accepted. -/
def kernels (definition : Definition) : Option (Context × Kernel × Kernel) := do
  let context ← (Context.ofDefinition? definition .empty .empty).toOption
  let after ← checked (listedIntervals context.program) context
  let after' ← checked (listedIntervals context.program)
    { context with program := opposed context.program }
  let kernel ← (Kernel.ofContext? .debug after).toOption
  let kernel' ← (Kernel.ofContext? .debug after').toOption
  if Listed context.program then return (context, kernel, kernel') else none

theorem opposed_of_kernels {definition : Definition} {context : Context} {kernel kernel' : Kernel}
    (found : kernels definition = some (context, kernel, kernel')) :
    Opposed definition context kernel kernel' ∧ Listed context.program := by
  simp only [kernels, Option.bind_eq_bind, Option.bind_eq_some_iff, Steps.toOption_eq_some] at found
  obtain ⟨start, built, after, checked, after', checked', one, made, two, made', found⟩ := found
  split at found
  next listed =>
    cases found
    rw [← intervals_eq listed] at checked checked'
    obtain ⟨accepted, rfl⟩ := run_of_checked checked
    have reordered : context.program.Reordered (fun _ _ => True) (opposed context.program) :=
      reordered_opposed listed fun _ _ => List.pairwise_of_forall fun _ _ => trivial
    rw [← Check.intervals_reordered reordered (PassTable.run_all_eq_none accepted).1] at checked'
    obtain ⟨accepted', rfl⟩ := run_of_checked checked'
    exact ⟨⟨built, fun block member => (listed block member).1, accepted, made, accepted', made'⟩,
      listed⟩
  · cases found

/-- Whether the same is needed of a program and of the opposed one. -/
def keeps (program : Program) : Bool :=
  match Demand.ofProgram? program, Demand.ofProgram? (opposed program) with
  | .ok demand, .ok demand' =>
    decide (demand'.fields = demand.fields) && program.blocks.zipIdx.all fun (block, b) =>
      (demand.regions block b).Perm (demand'.regions (opposite block) b) ∧ opposite block ≠ block
  | _, _ => false

theorem kept_of_keeps {program : Program} {demand : Demand} (keeps : keeps program = true)
    (known : Demand.ofProgram? program = .ok demand) :
    Demand.Kept program (opposed program) demand := by
  unfold Sample.keeps at keeps
  rw [known] at keeps
  split at keeps
  next same demand' found known' =>
    cases found
    simp only [Bool.and_eq_true, decide_eq_true_eq, List.all_eq_true] at keeps
    have indexed : (opposed program).blocks.zipIdx =
        program.blocks.zipIdx.map (Prod.map opposite id) := List.zipIdx_map
    refine ⟨demand', known', keeps.1, ?_⟩
    rw [indexed, List.forall₂_map_right_iff]
    exact List.forall₂_same.mpr fun pair member => ⟨rfl, (keeps.2 pair member).1, fun equal =>
      absurd equal (keeps.2 pair member).2⟩
  · cases keeps

/-- Whether the blocks of a program can be opposed, and a run succeeds in buffers that fit the
memory. -/
def runsDetached (program : Program) (kernel : Kernel) : Bool :=
  keeps program && (program.blocks.all fun block => block.sections.Pairwise Section.Detached) &&
  match call.bind kernel.interface with
  | .error _ => false
  | .ok bound =>
    ((Frame.ofBound kernel.interface bound call.domain).views.all fun view =>
      decide ((view.storage.shape.volume : Int) < Number.int64Bound)) &&
    (kernel.run call).2.isNone

end Sample

/-- Both sections assign a temporary of the same name, and can be listed in the opposite order. -/
theorem Kernel.run_reordered_each : ∃ context kernel kernel',
    Sample.Opposed Sample.each context kernel kernel' ∧
      (kernel.run Sample.call).2 = none ∧ kernel'.run Sample.call = kernel.run Sample.call := by
  have runs : ((Sample.kernels Sample.each).any fun found =>
      Sample.runsDetached found.1.program found.2.1) = true := by decide +kernel
  rw [Option.any_eq_true] at runs
  obtain ⟨⟨context, kernel, kernel'⟩, found, runs⟩ := runs
  obtain ⟨opposed, listed⟩ := Sample.opposed_of_kernels found
  unfold Sample.runsDetached at runs
  simp only [Bool.and_eq_true, List.all_eq_true, decide_eq_true_eq] at runs
  obtain ⟨⟨keeps, detached⟩, runs⟩ := runs
  split at runs
  · cases runs
  next bound passed =>
    simp only [Bool.and_eq_true, List.all_eq_true, decide_eq_true_eq,
      Option.isNone_iff_eq_none] at runs
    obtain ⟨fits, succeeded⟩ := runs
    obtain ⟨other, made, same⟩ := (run_reordered opposed.built opposed.accepted
      (Sample.reordered_opposed listed detached)
      (.inr fun _ => Sample.kept_of_keeps keeps)).2 .debug kernel opposed.made
    obtain rfl : other = kernel' := Except.ok.inj (made.symm.trans opposed.made')
    exact ⟨context, kernel, other, opposed, succeeded,
      same Sample.call bound passed fits succeeded⟩

/-- The order of the sections matters for what is needed around the domain, and for planes that one
section reads and another one assigns: the opposed programs are accepted, but do not run. -/
theorem Kernel.opposed_fails :
    (∃ context kernel kernel', Sample.Opposed Sample.widened context kernel kernel' ∧
      (kernel.run Sample.call).2 = none ∧ (kernel'.run Sample.call).2 ≠ none) ∧
    ∃ context kernel kernel', Sample.Opposed Sample.across context kernel kernel' ∧
      (kernel.run Sample.call).2 = none ∧ (kernel'.run Sample.call).2 ≠ none := by
  have runs : ∀ definition, ((Sample.kernels definition).any fun found =>
      (found.2.1.run Sample.call).2.isNone && (found.2.2.run Sample.call).2.isSome) = true →
      ∃ context kernel kernel', Sample.Opposed definition context kernel kernel' ∧
        (kernel.run Sample.call).2 = none ∧ (kernel'.run Sample.call).2 ≠ none := by
    intro definition runs
    simp only [Option.any_eq_true, Bool.and_eq_true] at runs
    obtain ⟨⟨context, kernel, kernel'⟩, found, succeeded, fails⟩ := runs
    exact ⟨context, kernel, kernel', (Sample.opposed_of_kernels found).1,
      Option.isNone_iff_eq_none.mp succeeded, Option.isSome_iff_ne_none.mp fails⟩
  exact ⟨runs _ (by decide +kernel), runs _ (by decide +kernel)⟩

end GridStencil
