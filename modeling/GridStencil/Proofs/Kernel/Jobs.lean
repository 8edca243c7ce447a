import GridStencil.Kernel
import GridStencil.Proofs.Kernel.Evaluation
import GridStencil.Proofs.Program.Positions

/-!
**What a kernel computes, apart from how.**

The schedule of a program depends on the backend only in the code of its stages. `Program.jobs` is
the list of what is computed, statement by statement and region by region, in terms of the program
alone; the tasks of every schedule of the program carry it out in the same order (`tasks_doneBy`).

* `Code.eval_eq_ok`: code of either backend gives on a region what the tree of its expression gives.
* `Schedule.runTask_agree`: two tasks that do the same job leave the same frame and fail together.
-/

namespace GridStencil

/-! ### Code -/

namespace Code

variable {frame : Frame} {region : Region} {interface : Interface} {expr : Program.Expr}

/-- Code for an expression exists for every backend or for none. -/
theorem ofExpr?_isOk (backend : Backend) (interface : Interface) (expr : Program.Expr) :
    (∃ code, ofExpr? backend interface expr = .ok code) ↔
      ∃ tree, Tree.ofExpr? interface expr = .ok tree := by
  cases backend with
  | debug =>
    unfold ofExpr?
    simp only [Steps.bind_eq_ok]
    exact ⟨fun ⟨_, tree, shape, _⟩ => ⟨tree, shape⟩, fun ⟨tree, shape⟩ => ⟨_, tree, shape, rfl⟩⟩
  | vector =>
    rw [← Registers.extend?_isOk interface expr []]
    unfold ofExpr?
    simp only [Steps.bind_eq_ok]
    exact ⟨fun ⟨_, registers, code, _⟩ => ⟨registers, code⟩,
      fun ⟨registers, code⟩ => ⟨_, registers, code, rfl⟩⟩

/-- **Code gives what its tree gives**, with either backend. -/
theorem eval_eq_ok (sound : ∀ slot, (frame.view slot).PointSound) (points : region.size ≠ 0)
    {backend : Backend} {code : Code} {tree : Tree}
    (compiled : ofExpr? backend interface expr = .ok code)
    (shape : Tree.ofExpr? interface expr = .ok tree) {xs : List Float} :
    code.eval frame region = .ok xs ↔
      (∀ p ∈ region.points, tree.Computable frame p) ∧
        region.points.map (tree.held frame) = xs := by
  rw [← Tree.evalAll_eq_ok]
  cases backend with
  | debug =>
    obtain ⟨other, shape', same⟩ := Steps.bind_eq_ok.mp compiled
    rw [shape, Except.ok.injEq] at shape'
    subst shape'
    rw [← Except.ok.inj same]
    exact Iff.rfl
  | vector =>
    obtain ⟨registers, extended, same⟩ := Steps.bind_eq_ok.mp compiled
    rw [← Except.ok.inj same]
    exact Registers.evalAll_iff sound points extended shape

end Code

/-! ### Jobs -/

namespace Program

/-- A statement that is computed on a region at once. -/
structure Job where
  statement : Statement
  region : Region

/-- The live ones of some statements, with the extents on which they are computed. -/
def liveOnes (demand : Demand) : List (Position × Statement) → List (Statement × Extent)
  | [] => []
  | (position, statement) :: rest =>
    match demand.region? position with
    | none => liveOnes demand rest
    | some extent => (statement, extent) :: liveOnes demand rest

/-- Live statements on some planes. -/
def jobsOn (domain : PerAxis Nat) (planes : Stretch) (live : List (Statement × Extent)) :
    List Job :=
  live.map fun (statement, extent) => ⟨statement, .grown extent domain planes⟩

/-- The jobs of a section with the given live statements. -/
def sectionJobs (policy : Policy) (domain : PerAxis Nat) (interval : Interval)
    (live : List (Statement × Extent)) : List Job :=
  let planes := Schedule.planesOf interval domain
  let onPlane := fun k => jobsOn domain ⟨k, k + 1⟩ live
  match policy with
  | .parallel => jobsOn domain planes live
  | .forward => planes.toList.flatMap onPlane
  | .backward => planes.toList.reverse.flatMap onPlane

/-- The jobs of a block. -/
def blockJobs (demand : Demand) (domain : PerAxis Nat) (block : Block) (b : Nat) : List Job :=
  block.sections.zipIdx.flatMap fun (part, i) =>
    sectionJobs block.policy domain part.interval (liveOnes demand (positioned b i part.body))

/-- What there is to compute for a program in a domain, in order. -/
def jobs (program : Program) (demand : Demand) (domain : PerAxis Nat) : List Job :=
  program.blocks.zipIdx.flatMap fun (block, b) => blockJobs demand domain block b

theorem mem_liveOnes {demand : Demand} {statements : List (Position × Statement)}
    {live : Statement × Extent} :
    live ∈ liveOnes demand statements ↔
      ∃ position, (position, live.1) ∈ statements ∧ demand.region? position = some live.2 := by
  induction statements with
  | nil => exact ⟨fun absurd => (nomatch absurd), fun ⟨_, absurd, _⟩ => (nomatch absurd)⟩
  | cons first rest ih =>
    obtain ⟨position, statement⟩ := first
    unfold liveOnes
    cases found : demand.region? position with
    | none =>
      refine ih.trans (exists_congr fun other => and_congr_left fun known => ?_)
      refine ⟨List.mem_cons_of_mem _, fun member => (List.mem_cons.mp member).resolve_left ?_⟩
      intro same
      cases same
      rw [found] at known
      cases known
    | some extent =>
      rw [List.mem_cons, ih]
      constructor
      · rintro (rfl | ⟨other, member, known⟩)
        · exact ⟨position, List.mem_cons_self, found⟩
        · exact ⟨other, List.mem_cons_of_mem _ member, known⟩
      · rintro ⟨other, member, known⟩
        rcases List.mem_cons.mp member with here | later
        · cases here
          rw [found] at known
          exact .inl (Prod.ext rfl (Option.some.inj known).symm)
        · exact .inr ⟨other, later, known⟩

theorem mem_sectionJobs {policy : Policy} {domain : PerAxis Nat} {interval : Interval}
    {live : List (Statement × Extent)} {job : Job}
    (member : job ∈ sectionJobs policy domain interval live) :
    ∃ extent, (job.statement, extent) ∈ live ∧ ∃ planes, job.region = .grown extent domain planes ∧
      ∀ k ∈ planes.toList, k ∈ (Schedule.planesOf interval domain).toList := by
  have onPlanes : ∀ planes, job ∈ jobsOn domain planes live →
      ∃ extent, (job.statement, extent) ∈ live ∧ job.region = .grown extent domain planes := by
    intro planes inside
    obtain ⟨⟨statement, extent⟩, there, rfl⟩ := List.mem_map.mp inside
    exact ⟨extent, there, rfl⟩
  have onPlane : ∀ k ∈ (Schedule.planesOf interval domain).toList,
      job ∈ jobsOn domain ⟨k, k + 1⟩ live →
      ∃ extent, (job.statement, extent) ∈ live ∧
        ∃ planes, job.region = .grown extent domain planes ∧
          ∀ k ∈ planes.toList, k ∈ (Schedule.planesOf interval domain).toList := by
    intro k there inside
    obtain ⟨extent, isLive, same⟩ := onPlanes _ inside
    refine ⟨extent, isLive, _, same, fun other single => ?_⟩
    obtain ⟨above, below⟩ := Stretch.mem_toList.mp single
    simp only at above below
    rw [show other = k by omega]
    exact there
  unfold sectionJobs at member
  cases policy with
  | parallel =>
    obtain ⟨extent, isLive, same⟩ := onPlanes _ member
    exact ⟨extent, isLive, _, same, fun _ there => there⟩
  | forward =>
    obtain ⟨k, there, inside⟩ := List.mem_flatMap.mp member
    exact onPlane k there inside
  | backward =>
    obtain ⟨k, there, inside⟩ := List.mem_flatMap.mp member
    exact onPlane k (List.mem_reverse.mp there) inside

/-- **A job computes a live statement of the program** on planes of its section. -/
theorem mem_jobs {program : Program} {demand : Demand} {domain : PerAxis Nat} {job : Job}
    (member : job ∈ program.jobs demand domain) :
    ∃ block b, (block, b) ∈ program.blocks.zipIdx ∧ ∃ part ∈ block.sections,
      job.statement ∈ part.body ∧ ∃ position, (position, job.statement) ∈ blockStatements block b ∧
        ∃ extent, demand.region? position = some extent ∧
          ∃ planes, job.region = .grown extent domain planes ∧
            ∀ k ∈ planes.toList, k ∈ (Schedule.planesOf part.interval domain).toList := by
  obtain ⟨⟨block, b⟩, inProgram, member⟩ := List.mem_flatMap.mp member
  obtain ⟨⟨part, i⟩, inBlock, member⟩ := List.mem_flatMap.mp member
  obtain ⟨extent, isLive, planes, same, inside⟩ := mem_sectionJobs member
  obtain ⟨position, there, known⟩ := mem_liveOnes.mp isLive
  have found := List.mk_mem_zipIdx_iff_getElem?.mp inBlock
  refine ⟨block, b, inProgram, part, List.mem_of_getElem? found,
    List.mem_of_getElem? (mem_positioned.mp there).2.2, position, ?_, extent, known, planes, same,
    inside⟩
  exact List.mem_flatMap.mpr ⟨(part, i), inBlock, there⟩

/-- A task does a job: it computes the value of the statement on the region and stores it in the
target. -/
structure Job.DoneBy (interface : Interface) (job : Job) (task : Schedule.Task) : Prop where
  region : task.region = job.region
  target : interface.slot? job.statement.target = some task.stage.target
  code : ∃ backend, Code.ofExpr? backend interface job.statement.value = .ok task.stage.code

theorem Job.DoneBy.tree {interface : Interface} {job : Job} {task : Schedule.Task}
    (done : job.DoneBy interface task) :
    ∃ tree, Tree.ofExpr? interface job.statement.value = .ok tree := by
  obtain ⟨backend, compiled⟩ := done.code
  exact (Code.ofExpr?_isOk backend interface _).mp ⟨_, compiled⟩

end Program

namespace Schedule

open Program

/-! ### Schedules -/

section Build

variable {backend : Backend} {source : Source} {interface : Interface}

/-- A stage computes a statement on an extent. -/
structure Stage.Computes (interface : Interface) (live : Statement × Extent) (stage : Stage) :
    Prop where
  target : interface.slot? live.1.target = some stage.target
  extent : stage.extent = live.2
  code : ∃ backend, Code.ofExpr? backend interface live.1.value = .ok stage.code

theorem stageOf?_computes {statement : Statement} {extent : Extent} {stage : Stage}
    (built : stageOf? backend source interface statement extent = .ok stage) :
    Stage.Computes interface (statement, extent) stage := by
  unfold stageOf? at built
  split at built
  · cases built
  next target found =>
    obtain ⟨code, compiled, same⟩ := Steps.bind_eq_ok.mp built
    rw [← Except.ok.inj same]
    exact ⟨found, rfl, backend, Steps.mapError_eq_ok.mp compiled⟩

/-- Whether a stage can be built does not depend on the backend. -/
theorem stageOf?_isOk {statement : Statement} {extent : Extent} :
    (∃ stage, stageOf? backend source interface statement extent = .ok stage) ↔
      (∃ target, interface.slot? statement.target = some target) ∧
        ∃ tree, Tree.ofExpr? interface statement.value = .ok tree := by
  rw [← Code.ofExpr?_isOk backend]
  unfold stageOf?
  constructor
  · rintro ⟨stage, built⟩
    split at built
    · cases built
    next target found =>
      obtain ⟨code, compiled, -⟩ := Steps.bind_eq_ok.mp built
      exact ⟨⟨target, found⟩, code, Steps.mapError_eq_ok.mp compiled⟩
  · rintro ⟨⟨target, found⟩, code, compiled⟩
    rw [found]
    exact ⟨_, Steps.bind_eq_ok.mpr ⟨code, Steps.mapError_eq_ok.mpr compiled, rfl⟩⟩

/-- The stages of some statements are those of the live ones. -/
theorem stagesOf?_eq (demand : Demand) (statements : List (Position × Statement)) :
    stagesOf? backend source interface demand statements =
      (liveOnes demand statements).mapM fun live =>
        stageOf? backend source interface live.1 live.2 := by
  induction statements with
  | nil => rfl
  | cons first rest ih =>
    obtain ⟨position, statement⟩ := first
    unfold stagesOf? liveOnes
    cases demand.region? position with
    | none => exact ih
    | some extent =>
      show _ = List.mapM _ ((statement, extent) :: liveOnes demand rest)
      rw [List.mapM_cons, ← ih]

/-- The sections of a schedule, section by section. -/
theorem ofProgram?_sections {program : Program} {demand : Demand} {schedule : Schedule}
    (built : ofProgram? backend interface program demand = .ok schedule) :
    List.Forall₂ (fun (block : Block × Nat) stageBlock =>
        stageBlock.policy = block.1.policy ∧
        List.Forall₂ (fun (part : Section × Nat) stageSection =>
            stageSection.interval = part.1.interval ∧
            List.Forall₂ (Stage.Computes interface)
              (liveOnes demand (positioned block.2 part.2 part.1.body)) stageSection.stages)
          block.1.sections.zipIdx stageBlock.sections)
      program.blocks.zipIdx schedule.blocks := by
  unfold ofProgram? at built
  obtain ⟨blocks, builtBlocks, same⟩ := Steps.bind_eq_ok.mp built
  rw [← Except.ok.inj same]
  refine (Steps.mapM_eq_ok.mp builtBlocks).imp fun block stageBlock builtBlock => ?_
  obtain ⟨sections, builtSections, same⟩ := Steps.bind_eq_ok.mp builtBlock
  rw [← Except.ok.inj same]
  refine ⟨rfl, (Steps.mapM_eq_ok.mp builtSections).imp fun part stageSection builtSection => ?_⟩
  obtain ⟨stages, builtStages, same⟩ := Steps.bind_eq_ok.mp builtSection
  rw [← Except.ok.inj same]
  refine ⟨rfl, ?_⟩
  rw [stagesOf?_eq] at builtStages
  exact (Steps.mapM_eq_ok.mp builtStages).imp fun live stage => stageOf?_computes

/-- A schedule exists for every backend or for none. -/
theorem ofProgram?_isOk (backend other : Backend) (interface : Interface) (program : Program)
    (demand : Demand)
    (built : ∃ schedule, ofProgram? backend interface program demand = .ok schedule) :
    ∃ schedule, ofProgram? other interface program demand = .ok schedule := by
  obtain ⟨schedule, built⟩ := built
  unfold ofProgram? at built ⊢
  obtain ⟨blocks, builtBlocks, -⟩ := Steps.bind_eq_ok.mp built
  refine Steps.bind_isOk (Steps.mapM_isOk.mpr fun block member => ?_) fun _ => ⟨_, rfl⟩
  obtain ⟨stageBlock, builtBlock⟩ := Steps.mapM_isOk.mp ⟨blocks, builtBlocks⟩ block member
  obtain ⟨sections, builtSections, -⟩ := Steps.bind_eq_ok.mp builtBlock
  refine Steps.bind_isOk (Steps.mapM_isOk.mpr fun part member => ?_) fun _ => ⟨_, rfl⟩
  obtain ⟨stageSection, builtSection⟩ := Steps.mapM_isOk.mp ⟨sections, builtSections⟩ part member
  obtain ⟨stages, builtStages, -⟩ := Steps.bind_eq_ok.mp builtSection
  rw [stagesOf?_eq] at builtStages
  refine Steps.bind_isOk ?_ fun _ => ⟨_, rfl⟩
  rw [stagesOf?_eq]
  refine Steps.mapM_isOk.mpr fun live member => ?_
  exact stageOf?_isOk.mpr (stageOf?_isOk.mp (Steps.mapM_isOk.mp ⟨stages, builtStages⟩ live member))

end Build

/-- The tasks of a section do its jobs in order. -/
theorem sectionTasks_doneBy {interface : Interface} (policy : Policy) (domain : PerAxis Nat)
    {interval : Interval} {live : List (Statement × Extent)} {part : StageSection}
    (same : part.interval = interval)
    (computes : List.Forall₂ (Stage.Computes interface) live part.stages) :
    List.Forall₂ (Job.DoneBy interface) (sectionJobs policy domain interval live)
      (sectionTasks policy domain part) := by
  have onPlanes : ∀ planes, List.Forall₂ (Job.DoneBy interface) (jobsOn domain planes live)
      (part.stages.map fun stage => (⟨stage, .grown stage.extent domain planes⟩ : Task)) := by
    intro planes
    unfold jobsOn
    rw [List.forall₂_map_left_iff, List.forall₂_map_right_iff]
    refine computes.imp fun pair stage computed => ⟨?_, computed.target, computed.code⟩
    rw [computed.extent]
  have planeByPlane : ∀ ks : List Int, List.Forall₂ (Job.DoneBy interface)
      (ks.flatMap fun k => jobsOn domain ⟨k, k + 1⟩ live)
      (ks.flatMap fun k =>
        (part.stages.map fun stage =>
            (⟨stage, .grown stage.extent domain (planesOf interval domain)⟩ : Task)).map
          fun task => { task with region := task.region.plane k }) := by
    intro ks
    refine List.rel_flatMap (List.forall₂_eq_eq_eq ▸ rfl : List.Forall₂ (· = ·) ks ks) ?_
    rintro k _ rfl
    beta_reduce
    rw [List.map_map]
    exact onPlanes ⟨k, k + 1⟩
  unfold sectionJobs sectionTasks
  rw [same]
  cases policy with
  | parallel => exact onPlanes _
  | forward => exact planeByPlane _
  | backward => exact planeByPlane _

/-- **The tasks of a schedule do the jobs of its program**, one by one and in order. -/
theorem tasks_doneBy {backend : Backend} {interface : Interface} {program : Program}
    {demand : Demand} {schedule : Schedule}
    (built : ofProgram? backend interface program demand = .ok schedule) (domain : PerAxis Nat) :
    List.Forall₂ (Job.DoneBy interface) (program.jobs demand domain) (schedule.tasks domain) := by
  unfold jobs tasks blockJobs
  refine List.rel_flatMap (ofProgram?_sections built) ?_
  rintro ⟨block, b⟩ stageBlock ⟨samePolicy, sections⟩
  refine List.rel_flatMap sections ?_
  rintro ⟨part, i⟩ stageSection ⟨sameInterval, computes⟩
  rw [samePolicy]
  exact sectionTasks_doneBy block.policy domain sameInterval computes

/-! ### Runs -/

section Run

variable {interface : Interface} {frame : Frame}

/-- Fields without axes stay as they should be when values are stored. -/
theorem pointSound_commit (sound : ∀ slot, (frame.view slot).PointSound) (slot : Nat)
    (region : Region) (values : List Float) (other : Nat) :
    ((frame.commit slot region values).1.view other).PointSound := by
  have changed : (frame.commit slot region values).1.views =
      frame.views.set slot ((frame.view slot).commit region values).1 := rfl
  unfold Frame.view
  rw [changed, List.getD_eq_getElem?_getD, List.getElem?_set]
  split
  next same =>
    split
    next below =>
      exact (sound slot).of_sameLayout (View.sameLayout_commit _ region values)
    next above =>
      exact ⟨fun absurd => (nomatch absurd), fun absurd => (nomatch absurd)⟩
  next different =>
    rw [← List.getD_eq_getElem?_getD]
    exact sound other

theorem pointSound_runTask (sound : ∀ slot, (frame.view slot).PointSound) (task : Task)
    (slot : Nat) : ((runTask task frame).1.view slot).PointSound := by
  unfold runTask
  split
  · exact sound slot
  · split
    · exact sound slot
    · exact pointSound_commit sound _ _ _ slot

/-- **Two tasks that do the same job** leave the same frame, and fail together. -/
theorem runTask_agree (sound : ∀ slot, (frame.view slot).PointSound) {job : Job}
    {task other : Task} (done : job.DoneBy interface task) (done' : job.DoneBy interface other) :
    (runTask task frame).1 = (runTask other frame).1 ∧
      ((runTask task frame).2 = none ↔ (runTask other frame).2 = none) := by
  have sameTarget : task.stage.target = other.stage.target :=
    Option.some.inj (done.target.symm.trans done'.target)
  have sameRegion : task.region = other.region := done.region.trans done'.region.symm
  unfold runTask
  rw [← sameRegion, ← sameTarget]
  by_cases empty : task.region.size = 0
  · rw [if_pos empty, if_pos empty]
    exact ⟨rfl, Iff.rfl⟩
  · rw [if_neg empty, if_neg empty]
    obtain ⟨tree, shape⟩ := done.tree
    obtain ⟨backend, compiled⟩ := done.code
    obtain ⟨backend', compiled'⟩ := done'.code
    have agree : ∀ xs, task.stage.code.eval frame task.region = .ok xs ↔
        other.stage.code.eval frame task.region = .ok xs := fun xs =>
      (Code.eval_eq_ok sound empty compiled shape).trans
        (Code.eval_eq_ok sound empty compiled' shape).symm
    cases first : task.stage.code.eval frame task.region with
    | ok xs =>
      rw [(agree xs).mp first]
      exact ⟨rfl, Iff.rfl⟩
    | error cause =>
      cases second : other.stage.code.eval frame task.region with
      | ok xs =>
        rw [(agree xs).mpr second] at first
        cases first
      | error cause' =>
        exact ⟨rfl, ⟨fun absurd => (nomatch absurd), fun absurd => (nomatch absurd)⟩⟩

/-- **Two lists of tasks that do the same jobs** leave the same frame, and fail together. -/
theorem runTasks_agree (sound : ∀ slot, (frame.view slot).PointSound) {jobs : List Job}
    {tasks others : List Task} (done : List.Forall₂ (Job.DoneBy interface) jobs tasks)
    (done' : List.Forall₂ (Job.DoneBy interface) jobs others) :
    (runTasks tasks frame).1 = (runTasks others frame).1 ∧
      ((runTasks tasks frame).2 = none ↔ (runTasks others frame).2 = none) := by
  induction done generalizing others frame with
  | nil =>
    cases done'
    exact ⟨rfl, Iff.rfl⟩
  | @cons job task jobs tasks first rest ih =>
    cases done' with
    | @cons _ other _ others first' rest' =>
      obtain ⟨sameFrame, sameFailure⟩ := runTask_agree sound first first'
      unfold runTasks
      cases here : runTask task frame with
      | mk after failure =>
        cases here' : runTask other frame with
        | mk after' failure' =>
          rw [here, here'] at sameFrame sameFailure
          simp only at sameFrame sameFailure
          subst sameFrame
          cases failure with
          | none =>
            rw [sameFailure.mp rfl]
            refine ih (fun slot => ?_) rest'
            have kept := pointSound_runTask sound task slot
            rw [here] at kept
            exact kept
          | some cause =>
            cases failure' with
            | none => exact absurd (sameFailure.mpr rfl) (by simp)
            | some cause' =>
              exact ⟨rfl, ⟨fun absurd => (nomatch absurd), fun absurd => (nomatch absurd)⟩⟩

end Run

end Schedule

end GridStencil
