import GridStencil.Proofs.Refinement

/-!
**Runs in which every plane is computed before it is read.**

A run fails for a plane of a temporary only, one that no task has computed. Tasks belong to live
statements, and on regions; but a statement that assigns what matters later is computed wherever
that matters. So it is enough that the assignments of the program, live or not, read no plane of a
temporary before some assignment to it (`AllReady`).

* `Frame.Holds.runTasks`: tasks do not fail while their statements find the planes they read done.
* `Kernel.run_isOk`: a run on a bound call.
-/

namespace GridStencil

open Program

/-- Planes of fields. -/
abbrev Planes := String → Int → Prop

namespace Planes

/-- Some planes, and those on which a field is assigned. -/
def add (done : Planes) (planes : Stretch) (target : String) : Planes := fun field k =>
  done field k ∨ field = target ∧ k ∈ planes.toList

/-- All planes of temporaries that an expression reads on some planes are among those done. -/
def Ready (temporary : String → Prop) (done : Planes) (planes : Stretch) (expr : Program.Expr) :
    Prop :=
  ∀ k ∈ planes.toList, ∀ read ∈ expr.reads, temporary read.field →
    done read.field (k + read.offset.k)

theorem Ready.mono {temporary : String → Prop} {done more : Planes} {planes : Stretch}
    {expr : Program.Expr} (ready : Ready temporary done planes expr)
    (larger : ∀ field k, done field k → more field k) : Ready temporary more planes expr :=
  fun k plane read member isTemporary => larger _ _ (ready k plane read member isTemporary)

/-- Statements on some planes, one after another, of which each finds the planes it reads done. -/
def AllReady (temporary : String → Prop) : Planes → List (Stretch × Statement) → Prop
  | _, [] => True
  | done, (planes, statement) :: rest =>
    Ready temporary done planes statement.value ∧
      AllReady temporary (done.add planes statement.target) rest

/-- The planes done behind some statements. -/
def behind (done : Planes) (turns : List (Stretch × Statement)) : Planes :=
  turns.foldl (fun done turn => done.add turn.1 turn.2.target) done

theorem behind_append (done : Planes) (first second : List (Stretch × Statement)) :
    done.behind (first ++ second) = (done.behind first).behind second := List.foldl_append

/-- What is done stays done. -/
theorem behind_of_done {done : Planes} (turns : List (Stretch × Statement)) {field : String}
    {k : Int} (here : done field k) : done.behind turns field k := by
  induction turns generalizing done with
  | nil => exact here
  | cons turn rest ih => exact ih (.inl here)

theorem allReady_append {temporary : String → Prop} {done : Planes}
    {first second : List (Stretch × Statement)} :
    AllReady temporary done (first ++ second) ↔
      AllReady temporary done first ∧ AllReady temporary (done.behind first) second := by
  induction first generalizing done with
  | nil => exact (true_and _).symm ▸ Iff.rfl
  | cons turn rest ih => exact (and_congr_right' ih).trans (and_assoc).symm

end Planes

/-- What an assignment assigns, and on which planes. -/
def Program.Assignment.turn (assignment : Assignment) : Stretch × Statement :=
  (assignment.planes, assignment.statement)

/-- The name of a temporary of a program. -/
def Program.IsTemporary (program : Program) (name : String) : Prop :=
  ∃ field ∈ program.fields, field.name = name ∧ field.role = .temporary

namespace View

/-- Once some values are stored, their planes are computed, and no others. -/
theorem lacks_commit {view after : View} {region : Region} {values : List Float}
    (stored : view.commit region values = (after, none)) {k : Int} :
    after.lacks k = true ↔ view.lacks k = true ∧ k ∉ region.k.toList := by
  obtain ⟨-, -, rfl⟩ := commit_eq_none stored
  rw [lacks_markComputed]
  have same : (view.storeAll (region.points.zip values)).1.lacks k = view.lacks k := by
    unfold lacks
    rw [computed_storeAll, (sameLayout_storeAll view _).origin]
  rw [same]

/-- Values for points of the buffer of a field that may be written can be stored. -/
theorem commit_isOk {view : View} {region : Region} {values : List Float}
    (inside : ∀ p ∈ region.points, view.Contains p) (writable : view.writable = true) :
    (view.commit region values).2 = none := by
  have stored : (view.storeAll (region.points.zip values)).2 = none := by
    rw [storeAll_failure]
    rintro ⟨p, x⟩ member
    exact inside p (List.of_mem_zip member).1
  unfold commit
  rw [if_pos writable]
  split
  next result =>
    rw [result] at stored
    cases stored
  next result => rfl

end View

namespace Frame

/-- Every plane of a temporary that is done is computed, as far as it matters. -/
def Holds (frame : Frame) (interface : Interface) (matters : Demanded) (done : Planes) : Prop :=
  ∀ slot field, interface.fields[slot]? = some field → field.role = .temporary →
    ∀ p, matters field.name p → done field.name p.k → (frame.view slot).lacks p.k = false

section

variable {interface : Interface} {call : Call} {frame : Frame} {assignment : Assignment} {job : Job}
  {task : Schedule.Task} {before behind : Demanded} {done : Planes} {domain : PerAxis Nat}

/-- What was computed stays so, and planes that are done anew do not matter. -/
theorem Holds.skip (holds : frame.Holds interface before done)
    (sound : assignment.Sound domain before behind)
    (nowhere : ∀ p, behind assignment.statement.target p → p.k ∉ assignment.planes.toList) :
    frame.Holds interface behind (done.add assignment.planes assignment.statement.target) := by
  intro slot field found temporary p matters there
  have other : ¬ (field.name = assignment.statement.target ∧ p.k ∈ assignment.planes.toList) :=
    fun here => nowhere p (here.1 ▸ matters) here.2
  exact holds slot field found temporary p (sound.kept _ p matters other)
    (there.resolve_right other)

/-- The buffers of a frame hold all that a job reads. -/
def HoldsReads (frame : Frame) (interface : Interface) (job : Job) : Prop :=
  ∀ p ∈ job.region.points, ∀ read ∈ job.statement.reads, ∀ slot,
    interface.slot? read.field = some slot → (frame.view slot).Contains (p.add read.offset)

/-- A statement that finds its planes done can be computed. -/
theorem Holds.computable (holds : frame.Holds interface before done)
    (serves : frame.Serves interface call) (sound : assignment.Sound domain before behind)
    (isJob : assignment.job? domain = some job) (buffers : frame.HoldsReads interface job)
    {temporary : String → Prop}
    (declared : ∀ field ∈ interface.fields, field.role = .temporary → temporary field.name)
    (ready : Planes.Ready temporary done assignment.planes assignment.statement.value)
    {tree : Tree} (shape : Tree.ofExpr? interface job.statement.value = .ok tree) {p : Offset}
    (point : p ∈ job.region.points) : tree.Computable frame p := by
  intro access isAccess
  obtain ⟨read, isRead, targeted, offset⟩ := Tree.reads_mean shape access isAccess
  obtain ⟨field, there, named⟩ := Interface.slot?_eq_some targeted
  rw [View.readable_iff, ← offset]
  refine ⟨buffers p point read isRead _ targeted, ?_⟩
  have served := serves.view there
  cases marked : (frame.view access.1).computed with
  | none =>
    unfold View.lacks
    rw [marked]
  | some flags =>
    have temporary := served.temporary (by rw [marked]; rfl)
    have matters := sound.reads _ isJob p point read isRead
    have plane : p.k ∈ assignment.planes.toList :=
      (Assignment.job?_parts isJob).2 ▸ (Region.mem_points.mp point).2.2
    rw [(Assignment.job?_parts isJob).1] at isRead
    have isDone := ready p.k plane read isRead (named ▸ declared field (List.mem_of_getElem? there)
      temporary)
    rw [← named] at matters isDone
    exact holds _ field there temporary _ matters isDone

/-- **A task whose statement finds its planes done does not fail**, and leaves every plane of its
own computed that matters later. -/
theorem Holds.runTask {program : Program} (shows : interface.Shows program)
    (holds : frame.Holds interface before done) (serves : frame.Serves interface call)
    (sound : assignment.Sound domain before behind)
    (isJob : assignment.job? domain = some job) (buffers : frame.HoldsReads interface job)
    (doneBy : job.DoneBy interface task)
    (writes : ∀ access ∈ task.writes, (frame.view access.1).Contains access.2)
    (writable : (frame.view task.stage.target).writable = true) {temporary : String → Prop}
    (declared : ∀ field ∈ interface.fields, field.role = .temporary → temporary field.name)
    (ready : Planes.Ready temporary done assignment.planes assignment.statement.value) :
    ∃ after, Schedule.runTask task frame = (after, none) ∧ after.Holds interface behind
      (done.add assignment.planes assignment.statement.target) := by
  have ofAssignment := (Assignment.job?_parts isJob).1
  unfold Schedule.runTask
  split
  next empty =>
    refine ⟨frame, rfl, holds.skip sound fun p matters plane => ?_⟩
    have point := List.length_pos_of_mem (Agrees.computed sound isJob matters plane)
    rw [Region.length_points, ← doneBy.region, empty] at point
    exact absurd point (Nat.lt_irrefl 0)
  next points =>
    obtain ⟨tree, shape⟩ := doneBy.tree
    obtain ⟨backend, compiled⟩ := doneBy.code
    have evaluated := (Code.eval_eq_ok serves.point points compiled shape).mpr
      ⟨fun p point => holds.computable serves sound isJob buffers declared ready shape
        (doneBy.region ▸ point), rfl⟩
    rw [evaluated]
    dsimp only
    obtain ⟨after, stored⟩ : ∃ after, (frame.view task.stage.target).commit task.region
        (task.region.points.map (tree.held frame)) = (after, none) :=
      ⟨_, Prod.ext rfl (View.commit_isOk
        (fun p point => writes _ (List.mem_map.mpr ⟨p, point, rfl⟩)) writable)⟩
    have failure : (frame.commit task.stage.target task.region
        (task.region.points.map (tree.held frame))).2 = none := by
      show ((frame.view task.stage.target).commit _ _).2 = none
      rw [stored]
    refine ⟨_, Prod.ext rfl failure, fun slot field found temporary p matters there => ?_⟩
    rw [Schedule.view_commit, stored, ← Bool.not_eq_true]
    by_cases here : field.name = assignment.statement.target ∧ p.k ∈ assignment.planes.toList
    · have same : task.stage.target = slot := by
        have targeted := doneBy.target
        rw [ofAssignment, ← here.1, shows.slot found] at targeted
        exact (Option.some.inj targeted).symm
      have below : task.stage.target < frame.views.length := by
        rw [same, ← List.Forall₂.length_eq serves]
        exact (List.getElem?_eq_some_iff.mp found).1
      have point := Agrees.computed sound isJob (here.1 ▸ matters) here.2
      rw [← doneBy.region] at point
      rw [if_pos ⟨same, below⟩, View.lacks_commit stored]
      exact fun lacks => lacks.2 (Region.mem_points.mp point).2.2
    · have before' := holds slot field found temporary p (sound.kept _ p matters here)
        (there.resolve_right here)
      split
      next same =>
        rw [View.lacks_commit stored, same.1, before']
        exact fun lacks => Bool.false_ne_true lacks.1
      next other => exact fun lacks => Bool.false_ne_true (before'.symm.trans lacks)

end

/-- **A run whose statements find their planes done does not fail.** -/
theorem Holds.runTasks {kernel : Kernel} {program : Program} {call : Call}
    (shows : kernel.interface.Shows program) (exact : call.Exact kernel.interface) {frame : Frame}
    {assignments : List Assignment} {tasks : List Schedule.Task} {before behind : Demanded}
    {done : Planes} (holds : frame.Holds kernel.interface before done)
    (serves : frame.Serves kernel.interface call)
    (sound : Sound call.domain assignments before behind)
    (jobs : List.Forall₂ (Job.DoneBy kernel.interface)
      (assignments.filterMap (Assignment.job? call.domain)) tasks)
    (guarded : ∀ task ∈ tasks, task.Guarded kernel.interface call.domain)
    (padded : ∀ job ∈ assignments.filterMap (Assignment.job? call.domain), ∀ p ∈ job.region.points,
      ∀ read ∈ job.statement.reads, ∀ (slot : Nat) (field : InterfaceField),
        kernel.interface.fields[slot]? = some field → field.name = read.field →
          Padded field.halo call.domain (p.add read.offset))
    {temporary : String → Prop}
    (declared : ∀ field ∈ kernel.interface.fields, field.role = .temporary → temporary field.name)
    (ready : Planes.AllReady temporary done (assignments.map Assignment.turn)) :
    (Schedule.runTasks tasks frame).2 = none := by
  induction sound generalizing frame done tasks with
  | nil less =>
    cases jobs
    rfl
  | @cons assignment rest before middle behind here _ ih =>
    obtain ⟨readyHere, readyRest⟩ := ready
    cases isJob : assignment.job? call.domain with
    | none =>
      rw [List.filterMap_cons_none isJob] at jobs padded
      exact ih (holds.skip here fun _ => here.not_matters_of_dead isJob) serves jobs guarded padded
        readyRest
    | some job =>
      rw [List.filterMap_cons_some isJob] at jobs padded
      rw [List.forall_mem_cons] at padded
      cases jobs with
      | @cons _ task _ tasks first later =>
        rw [List.forall_mem_cons] at guarded
        obtain ⟨target, there, full, assigned, writes⟩ := guarded.1.writes
        have buffers : frame.HoldsReads kernel.interface job := by
          intro p point read isRead slot found
          obtain ⟨field, there, named⟩ := Interface.slot?_eq_some found
          exact Kernel.contains_of_padded serves exact there
            (padded.1 p point read isRead slot field there named)
        obtain ⟨after, ran, holds'⟩ := Holds.runTask shows holds serves here isJob buffers first
          (fun access inWrites => by
            obtain ⟨same, inside, -⟩ := writes access inWrites
            exact Kernel.contains_of_padded serves exact (same ▸ there) inside)
          ((serves.view there).writable assigned) declared readyHere
        have served := serves.runTask task
        rw [ran] at served
        unfold Schedule.runTasks
        rw [ran]
        exact ih holds' served later guarded.2 padded.2 readyRest

end Frame

/-! ### Programs -/

namespace Program

/-- The sections of all blocks with their policies. -/
def parts (program : Program) : List (Policy × Section) :=
  program.blocks.flatMap fun block => block.sections.map (block.policy, ·)

/-- The statements of a program with the planes on which they run, turn by turn. -/
def turnsIn (program : Program) (domain : PerAxis Nat) : List (Stretch × Statement) :=
  program.parts.flatMap fun part =>
    (turns part.1 (Schedule.planesOf part.2.interval domain)).flatMap fun planes =>
      part.2.body.map (planes, ·)

/-- The assignments of a program are its statements, whatever is demanded. -/
theorem map_turn (program : Program) (demand : Demand) (domain : PerAxis Nat) :
    (program.assignments demand domain).map Assignment.turn = program.turnsIn domain := by
  have onPlanes : ∀ planes b i (body : List Statement),
      (assignmentsOn demand planes (positioned b i body)).map Assignment.turn =
        body.map (planes, ·) := by
    intro planes b i body
    unfold assignmentsOn positioned
    rw [List.map_map, List.map_map]
    conv_rhs => rw [← List.zipIdx_map_fst 0 body, List.map_map]
    rfl
  have ofSection : ∀ policy b (part : Section × Nat),
      (sectionAssignments demand domain policy b part).map Assignment.turn =
        (turns policy (Schedule.planesOf part.1.interval domain)).flatMap fun planes =>
          part.1.body.map (planes, ·) := by
    intro policy b part
    unfold sectionAssignments
    rw [List.map_flatMap]
    simp only [onPlanes]
  unfold assignments turnsIn parts blockAssignments
  rw [List.map_flatMap, List.flatMap_assoc]
  conv_rhs => rw [← List.zipIdx_map_fst 0 program.blocks, List.flatMap_map]
  refine congrArg (List.flatMap · _) (funext fun pair => ?_)
  rw [List.map_flatMap, List.flatMap_map]
  conv_rhs => rw [← List.zipIdx_map_fst 0 pair.1.sections, List.flatMap_map]
  exact congrArg (List.flatMap · _) (funext fun part => ofSection _ _ part)

end Program

namespace Kernel

variable {context : Context} {backend : Backend} {kernel : Kernel} {call : Call}
  {bound : BoundCall}

/-- **A run of a planned kernel on a bound call succeeds** if no statement of its program reads a
plane of a temporary before some statement assigns it. -/
theorem run_isOk (planned : context.Planned) (made : ofContext? backend context = .ok kernel)
    (passed : call.bind kernel.interface = .ok bound) (exact : call.Exact kernel.interface)
    (ready : Planes.AllReady context.program.IsTemporary (fun _ _ => False)
      (context.program.turnsIn call.domain)) : (kernel.run call).2 = none := by
  obtain ⟨demand, known, face, scheduled⟩ := ofContext?_eq_ok made
  obtain ⟨shows, -⟩ := planned.shows face
  obtain ⟨other, known', found⟩ := planned.demand
  obtain rfl : demand = other := Option.some.inj (known.symm.trans known')
  obtain ⟨needs, swept, -⟩ := Demand.ofProgram?_swept found
  obtain ⟨fields, -, planes⟩ := Interface.ofContext?_eq_ok known face
  have enough : context.minPlanes ≤ call.domain.k := planes ▸ Call.bind_planes passed
  have small := exact.domain
  have ordered := Check.intervals_allows small.k planned.wellFormed (planned.intervals.mono enough)
  have jobs := Schedule.tasks_doneBy scheduled call.domain
  rw [Program.jobs_eq] at jobs
  have sound : Sound call.domain (context.program.assignments demand call.domain) _ _ :=
    Program.assignments_sound small (fun block member => ordered block (by
      rwa [List.zipIdx_map_fst] at member)) swept
  rw [← Program.map_turn context.program demand] at ready
  have start : (Frame.ofBound kernel.interface bound call.domain).Holds kernel.interface
      (needs.Reaches call.domain) fun _ _ => False :=
    fun _ _ _ _ _ _ absurd => absurd.elim
  have failure := start.runTasks shows exact (Frame.ofBound_serves passed) sound jobs
    (fun task member => task_guarded planned known face scheduled small enough member)
    (fun job isJob p point read isRead slot field there named => by
      rw [← Program.jobs_eq] at isJob
      obtain ⟨halo, declared, inProgram, named', -, -⟩ :=
        Interface.field_of_getElem? known face there
      rw [halo, named]
      exact (Program.job_padded planned known small enough isJob point).2.2 read isRead
        ⟨declared, inProgram, named'.trans named⟩)
    (fun field member temporary => by
      rw [fields] at member
      obtain ⟨declared, inProgram, rfl⟩ := List.mem_map.mp member
      exact ⟨declared, inProgram, rfl, temporary⟩) ready
  unfold run
  rw [passed]
  dsimp only
  rw [failure]
  rfl

end Kernel

end GridStencil
