import GridStencil.Proofs.Refinement

/-!
**A temporary never shows what nothing stored in it.**

The buffers of temporaries start as zeros, and a run keeps track of whole planes only: as soon as a
statement has stored anything on a plane, every element of the plane can be read. An element of it
that no statement has stored would be read as zero. This never happens, as what matters before a
statement is stored by every statement that may have been the last one to do so.

* `Frame.Stored`: whatever matters and can be read was stored, and by nothing else since. A task
  keeps this up (`Frame.Stored.runTask`), and so does every run (`Frame.Stored.runTasks`).
* `Sound.split`: at any task of a run, what the task reads matters.
* `Kernel.observes_last_stored`: what a run observes of a temporary is what it last stored there.
-/

namespace GridStencil

open Program

namespace Schedule

/-! ### Observations and stores -/

/-- A task observes the value of a field at a point, in the frame it starts from: a single read
succeeds, or a load of the whole region does. -/
inductive Task.Observes (task : Task) (frame : Frame) (slot : Nat) : Offset → Float → Prop
  | read {offset q : Offset} {x : Float} (access : (slot, offset) ∈ task.stage.code.reads)
      (point : q ∈ task.region.points) (value : (frame.view slot).read (q.add offset) = .ok x) :
      task.Observes frame slot (q.add offset) x
  | load {offset q : Offset} {x : Float} {xs : List Float}
      (access : (slot, offset) ∈ task.stage.code.reads)
      (values : (frame.view slot).gather offset task.region = .ok xs)
      (there : (q, x) ∈ task.region.points.zip xs) : task.Observes frame slot (q.add offset) x

/-- What a task stores: the points of its target with the elements that they get. -/
def Task.stores (task : Task) (frame : Frame) : List (Nat × Offset × Float) :=
  match task.stage.code.eval frame task.region with
  | .error _ => []
  | .ok values => (task.region.points.zip values).map fun (p, x) =>
      (task.stage.target, p, (frame.view task.stage.target).storage.type.cast x)

/-- Among some tasks that were carried out, there is one that stored the element of a field at a
point, and none behind it wrote to this point. -/
def LastStored (start : Frame) (tasks : List Task) (slot : Nat) (p : Offset) (x : Float) : Prop :=
  ∃ front writer back before, tasks = front ++ writer :: back ∧
    runTasks front start = (before, none) ∧ (slot, p, x) ∈ writer.stores before ∧
    ∀ other ∈ back, (slot, p) ∉ other.writes

variable {task : Task} {tasks : List Task} {start frame after : Frame} {slot : Nat} {p : Offset}
  {x : Float}

theorem LastStored.keep (last : LastStored start tasks slot p x)
    (unwritten : (slot, p) ∉ task.writes) : LastStored start (tasks ++ [task]) slot p x := by
  obtain ⟨front, writer, back, before, rfl, reached, stored, others⟩ := last
  refine ⟨front, writer, back ++ [task], before, by simp, reached, stored, fun other member => ?_⟩
  rcases List.mem_append.mp member with earlier | now
  · exact others other earlier
  · rwa [List.mem_singleton.mp now]

theorem LastStored.now (reached : runTasks tasks start = (frame, none))
    (stored : (slot, p, x) ∈ task.stores frame) : LastStored start (tasks ++ [task]) slot p x :=
  ⟨tasks, task, [], frame, rfl, reached, stored, fun _ absurd => nomatch absurd⟩

/-- What a task observes can be read at the point, one way or the other. -/
theorem Task.Observes.read_eq (observed : task.Observes frame slot p x)
    (sound : (frame.view slot).PointSound) : ∃ offset q, (slot, offset) ∈ task.stage.code.reads ∧
      q ∈ task.region.points ∧ q.add offset = p ∧ (frame.view slot).read p = .ok x := by
  cases observed with
  | read access point value => exact ⟨_, _, access, point, rfl, value⟩
  | @load offset q _ _ access values there =>
    have point := (List.of_mem_zip there).1
    have points : task.region.size ≠ 0 := by
      rw [← Region.length_points]
      exact Nat.ne_of_gt (List.length_pos_of_mem point)
    obtain ⟨readable, rfl⟩ := (View.gather_eq_ok sound points).mp values
    rw [View.zip_map_self] at there
    obtain ⟨other, inside, same⟩ := List.mem_map.mp there
    cases same
    exact ⟨_, _, access, point, rfl, View.read_iff.mpr ⟨readable q point, rfl⟩⟩

/-! ### Runs in two parts -/

theorem runTasks_append (first second : List Task) (reached : runTasks first frame = (after, none)) :
    runTasks (first ++ second) frame = runTasks second after := by
  induction first generalizing frame with
  | nil =>
    cases reached
    rfl
  | cons task rest ih =>
    unfold runTasks at reached
    rw [List.cons_append, runTasks]
    split at reached
    next middle ran => exact ih reached
    next => cases reached

end Schedule

/-! ### What matters was stored -/

namespace Frame

/-- What can be read of a temporary where it matters was stored there by a task that was carried out
since the start, and by no task behind it. -/
def Stored (frame : Frame) (interface : Interface) (matters : Demanded) (start : Frame)
    (tasks : List Schedule.Task) : Prop :=
  ∀ slot field, interface.fields[slot]? = some field → field.role = .temporary → ∀ p x,
    matters field.name p → (frame.view slot).read p = .ok x →
      Schedule.LastStored start tasks slot p x

namespace Stored

variable {interface : Interface} {program : Program} {call : Call} {start frame after : Frame}
  {domain : PerAxis Nat} {assignment : Assignment} {before behind : Demanded}
  {earlier tasks : List Schedule.Task} {job : Job} {task : Schedule.Task}

/-- Where an assignment has stored nothing, it is enough if the tasks have not, either. -/
theorem unassigned (stored : frame.Stored interface before start tasks)
    (sound : assignment.Sound domain before behind) {slot : Nat} {field : InterfaceField}
    (found : interface.fields[slot]? = some field) (temporary : field.role = .temporary)
    {p : Offset} {x : Float} (matters : behind field.name p)
    (other : ¬ (field.name = assignment.statement.target ∧ p.k ∈ assignment.planes.toList))
    (read : (frame.view slot).read p = .ok x) : Schedule.LastStored start tasks slot p x :=
  stored slot field found temporary p x (sound.kept _ p matters other) read

/-- A statement that is computed nowhere where its target matters may as well be skipped. -/
theorem skip (stored : frame.Stored interface before start tasks)
    (sound : assignment.Sound domain before behind)
    (nowhere : ∀ p, behind assignment.statement.target p → p.k ∉ assignment.planes.toList) :
    frame.Stored interface behind start tasks := fun _ _ found temporary p _ matters read =>
  stored.unassigned sound found temporary matters
    (fun here => nowhere p (here.1 ▸ matters) here.2) read

/-- **A task stores whatever matters of its target** on its planes, and leaves alone what was stored
elsewhere. -/
theorem runTask (shows : interface.Shows program) (serves : frame.Serves interface call)
    (reached : Schedule.runTasks tasks start = (frame, none))
    (stored : frame.Stored interface before start tasks)
    (sound : assignment.Sound domain before behind) (isJob : assignment.job? domain = some job)
    (assigned : ∀ field ∈ interface.fields, field.name = assignment.statement.target →
      field.dimensions = .ijk)
    (done : job.DoneBy interface task) (ran : Schedule.runTask task frame = (after, none)) :
    after.Stored interface behind start (tasks ++ [task]) := by
  obtain ⟨ofAssignment, planes⟩ := Assignment.job?_parts isJob
  have targeted := ofAssignment ▸ done.target
  rw [← done.region] at planes
  have inside : ∀ p, behind assignment.statement.target p → p.k ∈ assignment.planes.toList →
      p ∈ task.region.points := fun p matters plane =>
    done.region ▸ Agrees.computed sound isJob matters plane
  unfold Schedule.runTask at ran
  split at ran
  next empty =>
    cases ran
    have nothing : task.region.points = [] := by
      rw [← List.length_eq_zero_iff, Region.length_points, empty]
    have skipped := stored.skip sound fun p matters plane =>
      List.not_mem_nil (nothing ▸ inside p matters plane)
    intro slot field found temporary p x matters read
    refine (skipped slot field found temporary p x matters read).keep fun written => ?_
    obtain ⟨q, point, -⟩ := List.mem_map.mp written
    exact List.not_mem_nil (nothing ▸ point)
  next points =>
    split at ran
    · cases ran
    next values evaluated =>
      obtain ⟨tree, shape⟩ := done.tree
      obtain ⟨backend, compiled⟩ := done.code
      obtain ⟨-, rfl⟩ := (Code.eval_eq_ok serves.point points compiled shape).mp evaluated
      obtain ⟨target, there, named⟩ := Interface.slot?_eq_some targeted
      have full := assigned target (List.mem_of_getElem? there) named
      intro slot field found temporary p x matters read
      have targetIs := shows.slot_eq_iff found targeted
      by_cases here : field.name = assignment.statement.target ∧ p.k ∈ assignment.planes.toList
      · -- the element is stored right now
        obtain rfl := targetIs.mp here.1
        have point := inside p (here.1 ▸ matters) here.2
        rw [serves.read_commit_of_mem there full ran point, Except.ok.injEq,
          ← (serves.view there).type] at read
        refine .now reached ?_
        unfold Schedule.Task.stores
        rw [evaluated]
        refine List.mem_map.mpr ⟨(p, tree.held frame p), ?_, by rw [← read]⟩
        rw [View.zip_map_self]
        exact List.mem_map_of_mem point
      · -- the task leaves the element alone, which mattered before
        have elsewhere := here
        rw [targetIs, ← planes] at elsewhere
        refine (stored.unassigned sound found temporary matters here
          ((serves.read_commit_of_ne there full ran elsewhere).mp read)).keep fun written => ?_
        obtain ⟨q, point, same⟩ := List.mem_map.mp written
        cases same
        exact elsewhere ⟨rfl, View.mem_region_k point⟩

/-- **A run stores whatever matters behind it.** -/
theorem runTasks (shows : interface.Shows program) {assignments : List Assignment}
    (serves : frame.Serves interface call)
    (reached : Schedule.runTasks earlier start = (frame, none))
    (stored : frame.Stored interface before start earlier)
    (sound : Sound domain assignments before behind)
    (assigned : ∀ assignment ∈ assignments, ∀ field ∈ interface.fields,
      field.name = assignment.statement.target → field.dimensions = .ijk)
    (done : List.Forall₂ (Job.DoneBy interface)
      (assignments.filterMap (Assignment.job? domain)) tasks)
    (ran : Schedule.runTasks tasks frame = (after, none)) :
    after.Serves interface call ∧ after.Stored interface behind start (earlier ++ tasks) := by
  induction sound generalizing frame earlier tasks with
  | nil less =>
    cases done
    cases ran
    rw [List.append_nil]
    exact ⟨serves, fun slot field found temporary p x matters =>
      stored slot field found temporary p x (less _ p matters)⟩
  | @cons assignment rest before middle behind here _ ih =>
    rw [List.forall_mem_cons] at assigned
    cases isJob : assignment.job? domain with
    | none =>
      rw [List.filterMap_cons_none isJob] at done
      exact ih serves reached (stored.skip here fun p => here.not_matters_of_dead isJob)
        assigned.2 done ran
    | some job =>
      rw [List.filterMap_cons_some isJob] at done
      cases done with
      | @cons _ task _ tasks first later =>
        unfold Schedule.runTasks at ran
        split at ran
        next middleFrame ranHere =>
          have served := serves.runTask task
          rw [ranHere] at served
          have reachedHere : Schedule.runTasks (earlier ++ [task]) start = (middleFrame, none) := by
            rw [Schedule.runTasks_append _ _ reached, Schedule.runTasks, ranHere]
            rfl
          have result := ih served reachedHere
            (stored.runTask shows serves reached here isJob assigned.1 first ranHere) assigned.2
            later ran
          rwa [List.append_assoc] at result
        next => cases ran

end Stored

end Frame

/-- **At any task of a run, what the task reads matters**, and what matters there is sound for the
assignments before it. -/
theorem Sound.split {interface : Interface} {domain : PerAxis Nat} {assignments : List Assignment}
    {before behind : Demanded} (sound : Sound domain assignments before behind)
    {earlier later : List Schedule.Task} {task : Schedule.Task}
    (done : List.Forall₂ (Job.DoneBy interface)
      (assignments.filterMap (Assignment.job? domain)) (earlier ++ task :: later)) :
    ∃ (first rest : List Assignment) (here : Demanded) (job : Job),
      assignments = first ++ rest ∧ Sound domain first before here ∧
      List.Forall₂ (Job.DoneBy interface) (first.filterMap (Assignment.job? domain)) earlier ∧
      job.DoneBy interface task ∧
      ∀ p ∈ job.region.points, ∀ read ∈ job.statement.reads,
        here read.field (p.add read.offset) := by
  induction sound generalizing earlier with
  | nil => cases earlier <;> cases done
  | @cons assignment rest before middle behind here tail ih =>
    cases isJob : assignment.job? domain with
    | none =>
      rw [List.filterMap_cons_none isJob] at done
      obtain ⟨first, others, there, job, rfl, soundFirst, doneFirst, doneHere, reads⟩ := ih done
      exact ⟨assignment :: first, others, there, job, rfl, .cons here soundFirst,
        (List.filterMap_cons_none isJob).symm ▸ doneFirst, doneHere, reads⟩
    | some job =>
      rw [List.filterMap_cons_some isJob] at done
      cases earlier with
      | nil =>
        cases done with
        | cons doneHere _ =>
          exact ⟨[], assignment :: rest, before, job, rfl, .nil fun _ _ => id, .nil, doneHere,
            here.reads job isJob⟩
      | cons firstTask earlier =>
        cases done with
        | cons doneFirst doneRest =>
          obtain ⟨first, others, there, other, rfl, soundFirst, doneOthers, doneHere, reads⟩ :=
            ih doneRest
          exact ⟨assignment :: first, others, there, other, rfl, .cons here soundFirst,
            (List.filterMap_cons_some isJob).symm ▸ .cons doneFirst doneOthers, doneHere, reads⟩

/-! ### Runs of compiled stencils -/

/-- The buffers of a frame are small enough for a memory of 64 bits. -/
def Frame.FitsMemory (frame : Frame) : Prop :=
  ∀ view ∈ frame.views, (view.storage.shape.volume : Int) < Number.int64Bound

namespace Frame

variable {interface : Interface} {call : Call} {bound : BoundCall}

theorem FitsMemory.volume {start : Frame} (fits : start.FitsMemory)
    (serves : start.Serves interface call) {slot : Nat} {field : InterfaceField}
    (found : interface.fields[slot]? = some field) :
    ((start.view slot).storage.shape.volume : Int) < Number.int64Bound := by
  have below : slot < start.views.length := by
    rw [← List.Forall₂.length_eq serves]
    exact (List.getElem?_eq_some_iff.mp found).1
  unfold Frame.view
  rw [List.getD_eq_getElem?_getD, List.getElem?_eq_getElem below, Option.getD_some]
  exact fits _ (List.getElem_mem below)

/-- Where anything can be read of a temporary, the domain is small. -/
theorem FitsMemory.small {start : Frame} (fits : start.FitsMemory)
    (serves : start.Serves interface call) {slot : Nat} {field : InterfaceField}
    (found : interface.fields[slot]? = some field) (full : field.dimensions = .ijk)
    {index : Offset} (inside : Storage.Inside (start.view slot).storage.shape index) :
    call.domain.Small := by
  obtain ⟨⟨lowI, highI⟩, ⟨lowJ, highJ⟩, lowK, highK⟩ := inside
  obtain ⟨coversI, coversJ, coversK⟩ := (serves.view found).covers full
  have i := coversI.above
  have j := coversJ.above
  have k := coversK.above
  exact PerAxis.small_of_le (PerAxis.small_of_volume (fits.volume serves found) (by omega)
    (by omega) (by omega)) (by omega) (by omega) (by omega)

/-- At the start of a run nothing can be read of a temporary. -/
theorem Stored.start (passed : call.bind interface = .ok bound)
    (full : ∀ field ∈ interface.fields, field.role ≠ .input → field.dimensions = .ijk)
    (matters : Demanded) (before : Frame) :
    (ofBound interface bound call.domain).Stored interface matters before [] := by
  intro slot field found temporary p x _ read
  have views := viewsOf_forall₂ call.domain (Call.bind_boundTo passed)
  obtain ⟨below, rfl⟩ := List.getElem?_eq_some_iff.mp found
  have below' : slot < (viewsOf call.domain interface.fields bound.fields).length :=
    List.Forall₂.length_eq views ▸ below
  have view : (ofBound interface bound call.domain).view slot =
      (viewsOf call.domain interface.fields bound.fields)[slot] := by
    show (viewsOf call.domain interface.fields bound.fields).getD slot _ = _
    rw [List.getD_eq_getElem?_getD, List.getElem?_eq_getElem below', Option.getD_some]
  rw [view] at read
  rcases List.Forall₂.get views below below' with ⟨parameter, -⟩ | ⟨-, same⟩
  · rw [List.get_eq_getElem, InterfaceField.isParameter, temporary] at parameter
    cases parameter
  · rw [List.get_eq_getElem, List.get_eq_getElem] at same
    rw [same] at read
    exact absurd read (read_viewOfTemporary
      (full _ (List.getElem_mem below) (by rw [temporary]; decide)) _ p x)

end Frame

/-- **A temporary never shows what nothing stored in it.** Whatever a task of a run observes of a
temporary at a point, with either backend and whether the run fails later or not, is what a task
before it stored at this very point, and no task in between has written there. -/
theorem Kernel.observes_last_stored {definition : Definition} {externals : Externals}
    {backend : Backend} {signature : Signature} {context : Context} {kernel : Kernel}
    (compiled : (Registry.compile definition externals backend signature).value =
      .ok (context, kernel))
    {call : Call} {bound : BoundCall} (passed : call.bind kernel.interface = .ok bound)
    (fits : (Frame.ofBound kernel.interface bound call.domain).FitsMemory)
    {earlier later : List Schedule.Task} {task : Schedule.Task}
    (split : kernel.schedule.tasks call.domain = earlier ++ task :: later) {frame : Frame}
    (reached : Schedule.runTasks earlier (.ofBound kernel.interface bound call.domain) =
      (frame, none))
    {slot : Nat} {field : InterfaceField} (found : kernel.interface.fields[slot]? = some field)
    (temporary : field.role = .temporary) {p : Offset} {x : Float}
    (observed : task.Observes frame slot p x) :
    Schedule.LastStored (.ofBound kernel.interface bound call.domain) earlier slot p x := by
  obtain ⟨planned, made⟩ := Registry.compile_eq_ok compiled
  obtain ⟨-, -, face, -⟩ := Kernel.ofContext?_eq_ok made
  obtain ⟨shows, -⟩ := planned.shows face
  have serves := Frame.ofBound_serves passed
  have full := shows.full field (List.mem_of_getElem? found) (by rw [temporary]; decide)
  -- the domain is small, as the element that is observed lies in its buffer from the start
  have layout := Schedule.sameLayout_runTasks earlier
    (.ofBound kernel.interface bound call.domain) slot
  rw [reached] at layout
  obtain ⟨offset, q, access, point, rfl, read⟩ :=
    observed.read_eq ((serves.point slot).of_sameLayout layout)
  have inside := (View.read_eq_ok.mp read).1
  rw [layout.shape] at inside
  have small := fits.small serves found full inside
  -- what the task reads matters before it, and so it was stored
  obtain ⟨demand, before, -, -, sound, assigned, done⟩ :=
    Kernel.sound_assignments planned made passed small
  rw [split] at done
  obtain ⟨first, rest, here, job, isFirst, soundFirst, doneFirst, doneHere, reads⟩ :=
    sound.split done
  obtain ⟨-, stored⟩ := (Frame.Stored.start passed shows.full _ _).runTasks shows serves rfl
    soundFirst (fun assignment member => assigned assignment (by
      rw [isFirst]
      exact List.mem_append_left _ member)) doneFirst reached
  obtain ⟨otherBackend, code⟩ := doneHere.code
  obtain ⟨access', isRead, targeted, same⟩ := Code.reads_mean code _ access
  have matters := reads q (doneHere.region ▸ point) access' isRead
  rw [same, (shows.slot_eq_iff found targeted).mpr rfl |>.symm] at matters
  exact stored slot field found temporary _ x matters read

/-- Whether the second task of a run on the call for samples reads a temporary after the first
task, and gets a value. -/
def Sample.observes (definition : Definition) (backend : Backend) : Bool :=
  match (Registry.compile definition .empty backend .empty).value with
  | .error _ => false
  | .ok (_, kernel) =>
    match call.bind kernel.interface, kernel.schedule.tasks call.domain with
    | .ok bound, first :: second :: _ =>
      let start := Frame.ofBound kernel.interface bound call.domain
      (start.views.all fun view => decide ((view.storage.shape.volume : Int) < Number.int64Bound)) &&
        (Schedule.runTask first start).2.isNone &&
        second.region.points.any fun q => second.stage.code.reads.any fun access =>
          (((Schedule.runTask first start).1.view access.1).read (q.add access.2)).isOk &&
          kernel.interface.fields[access.1]?.any (·.role = .temporary)
    | _, _ => false

theorem Sample.observes_sums (backend : Backend) : observes sums backend = true := by
  cases backend <;> decide +kernel

/-- The temporary of the sums is read right after it was stored. -/
theorem Kernel.observes_last_stored_sums : ∃ (kernel : Kernel) (bound : BoundCall)
    (writer : Schedule.Task) (slot : Nat) (field : InterfaceField) (p : Offset) (x : Float),
    kernel.interface.fields[slot]? = some field ∧ field.role = .temporary ∧
    Schedule.LastStored (.ofBound kernel.interface bound Sample.call.domain) [writer] slot p x := by
  have observes := Sample.observes_sums .vector
  unfold Sample.observes at observes
  split at observes
  · cases observes
  next context kernel compiled =>
    split at observes
    next bound first second later passed split =>
      simp only [Bool.and_eq_true, List.all_eq_true, decide_eq_true_eq, List.any_eq_true,
        Option.any_eq_true] at observes
      obtain ⟨⟨fits, succeeded⟩, q, point, ⟨slot, offset⟩, access, isOk, field, found, temporary⟩ :=
        observes
      cases read : ((Schedule.runTask first (.ofBound kernel.interface bound
        Sample.call.domain)).1.view slot).read (q.add offset) with
      | error cause =>
        rw [read] at isOk
        cases isOk
      | ok x =>
        have reached : Schedule.runTasks [first] (.ofBound kernel.interface bound
            Sample.call.domain) = ((Schedule.runTask first (.ofBound kernel.interface bound
              Sample.call.domain)).1, none) := by
          unfold Schedule.runTasks
          split
          next frame ran => rw [ran]; rfl
          next frame cause ran =>
            rw [ran] at succeeded
            cases succeeded
        have split : kernel.schedule.tasks Sample.call.domain = [first] ++ second :: later := split
        exact ⟨kernel, bound, first, slot, field, _, x, found, temporary,
          observes_last_stored compiled passed fits split reached found temporary
            (.read access point read)⟩
    · cases observes

end GridStencil
