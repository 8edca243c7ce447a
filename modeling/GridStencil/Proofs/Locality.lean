import GridStencil.Proofs.Computed
import GridStencil.Proofs.Kernel.Part

/-!
**A run on a part of the domain mirrors the run on the whole domain.**

The two runs carry out the same assignments, the one on a part of the domain on smaller regions. The
frame of the part mirrors the frame of the whole domain if whatever can be read there, and is
relevant to the part, can be read of the part as well, with the same value. Relevant is what matters
in the run on the part, so everything that a task of the part reads (`Frame.Mirrors.computable`).
Moreover there may be rows of outputs on which the part computes all that the whole run computes.

* `Frame.Mirrors.updates`: the frames mirror each other behind tasks that have the same values.
* `Frame.Mirrors.runTask`: a task of the part succeeds if that of the whole domain does, and the
  frames mirror each other behind both.
* `Frame.Mirrors.runTasks`: the same for whole runs.
-/

namespace GridStencil

open Program

/-! ### Successful tasks -/

namespace Schedule

/-- What a task has changed: the values on its region are in its target, as elements of it, and
elsewhere the same can be read as before. On planes of the region this is said of fields only whose
planes need not be computed. -/
structure Task.Updates (task : Task) (before after : Frame) (type : ElementType)
    (value : Offset → Float) : Prop where
  written : ∀ p ∈ task.region.points,
    (after.view task.stage.target).read p = .ok (type.cast (value p))
  kept : ∀ slot p x, (task.stage.target = slot → p ∉ task.region.points ∧
      (p.k ∈ task.region.k.toList → (before.view slot).computed = none)) →
    ((after.view slot).read p = .ok x ↔ (before.view slot).read p = .ok x)

variable {interface : Interface} {call : Call} {job : Job} {task : Task} {frame after : Frame}
  {tree : Tree}

/-- **What a successful task has done**: it could be computed on its region, and has stored the
values of its tree. -/
theorem runTask_eq_none (serves : frame.Serves interface call) (done : job.DoneBy interface task)
    (shape : Tree.ofExpr? interface job.statement.value = .ok tree) {field : InterfaceField}
    (found : interface.fields[task.stage.target]? = some field) (full : field.dimensions = .ijk)
    (ran : runTask task frame = (after, none)) :
    (∀ p ∈ task.region.points, tree.Computable frame p) ∧
      task.Updates frame after field.type (tree.held frame) := by
  unfold runTask at ran
  split at ran
  next empty =>
    cases ran
    have none : ∀ p, p ∉ task.region.points := by
      intro p point
      have length := List.length_pos_of_mem point
      rw [Region.length_points, empty] at length
      exact Nat.lt_irrefl 0 length
    exact ⟨fun p point => absurd point (none p), fun p point => absurd point (none p),
      fun _ _ _ _ => Iff.rfl⟩
  next points =>
    split at ran
    · cases ran
    next values evaluated =>
      obtain ⟨backend, compiled⟩ := done.code
      obtain ⟨computable, rfl⟩ :=
        (Code.eval_eq_ok serves.point points compiled shape).mp evaluated
      refine ⟨computable, fun p point => serves.read_commit_of_mem found full ran point,
        fun slot p x elsewhere => ?_⟩
      by_cases here : task.stage.target = slot ∧ p.k ∈ task.region.k.toList
      · obtain ⟨rfl, plane⟩ := here
        obtain ⟨outside, complete⟩ := elsewhere rfl
        obtain ⟨notZero, stored⟩ := serves.commit_view found full ran
        exact View.read_commit_of_complete notZero stored outside (complete plane)
      · exact serves.read_commit_of_ne found full ran here

/-- A task succeeds if it can be computed on its region and its target can be written there. -/
theorem runTask_isOk (serves : frame.Serves interface call) (done : job.DoneBy interface task)
    (shape : Tree.ofExpr? interface job.statement.value = .ok tree)
    (computable : ∀ p ∈ task.region.points, tree.Computable frame p)
    (writes : ∀ p ∈ task.region.points, (frame.view task.stage.target).Contains p)
    (writable : (frame.view task.stage.target).writable = true) :
    ∃ after, runTask task frame = (after, none) := by
  unfold runTask
  split
  · exact ⟨frame, rfl⟩
  next points =>
    obtain ⟨backend, compiled⟩ := done.code
    rw [(Code.eval_eq_ok serves.point points compiled shape).mpr ⟨computable, rfl⟩]
    exact ⟨_, Prod.ext rfl (View.commit_isOk writes writable)⟩

end Schedule

/-! ### Values of moved points -/

theorem Offset.add_right_comm (p q r : Offset) : (p.add q).add r = (p.add r).add q := by
  simp only [add, mk.injEq]
  omega

/-- The value of a tree at a moved point is its value for moved fields. -/
theorem Tree.value_add (tree : Tree) (fields : Nat → Offset → Float) (scalars : Nat → Float)
    (p step : Offset) : tree.value fields scalars (p.add step) =
      tree.value (fun slot q => fields slot (q.add step)) scalars p := by
  induction tree with
  | field slot offset => exact congrArg (fields slot) (Offset.add_right_comm p step offset)
  | scalar slot => rfl
  | constant value => rfl
  | unary op arg ih => exact congrArg op.apply ih
  | binary op left right ihLeft ihRight =>
    unfold value
    rw [ihLeft, ihRight]
  | select condition whenTrue whenFalse ihCondition ihTrue ihFalse =>
    unfold value
    rw [ihCondition, ihTrue, ihFalse]

namespace Frame

/-! ### Mirrors -/

/-- Whatever can be read of a frame where it is relevant to a part can be read of the frame of the
part, with the same value. The points are those of the part, which starts at `corner`. -/
def Mirrors (interface : Interface) (corner : PerAxis Nat) (relevant : Demanded)
    (whole part : Frame) : Prop :=
  ∀ slot field, interface.fields[slot]? = some field → ∀ p x, relevant field.name p →
    (whole.view slot).read (p.add (Storage.offsetOf corner)) = .ok x →
      (part.view slot).read p = .ok x

/-- What matters in the run on a part, and its rows. -/
def Relevant (matters rows : Demanded) : Demanded := fun name p => matters name p ∨ rows name p

namespace Mirrors

variable {interface : Interface} {program : Program} {corner : PerAxis Nat} {whole part : Frame}
  {before behind rows : Demanded} {assignment : Assignment} {domain : PerAxis Nat} {job job' : Job}
  {task task' : Schedule.Task}

/-- **Where a statement is computed in the run on the part**, it can be computed there and has the
value that it has in the whole run. -/
theorem computable (mirrors : Mirrors interface corner (Relevant before rows) whole part)
    (scalars : part.scalars = whole.scalars) (sound : assignment.Sound domain before behind)
    (isJob : assignment.job? domain = some job) {tree : Tree}
    (shape : Tree.ofExpr? interface job.statement.value = .ok tree) {p : Offset}
    (point : p ∈ job.region.points)
    (computable : tree.Computable whole (p.add (Storage.offsetOf corner))) :
    tree.Computable part p ∧
      tree.held part p = tree.held whole (p.add (Storage.offsetOf corner)) := by
  have alike : ∀ access ∈ tree.reads, ∃ x,
      (whole.view access.1).read ((p.add access.2).add (Storage.offsetOf corner)) = .ok x ∧
        (part.view access.1).read (p.add access.2) = .ok x := by
    intro access isAccess
    obtain ⟨x, read⟩ := computable access isAccess
    rw [Offset.add_right_comm] at read
    obtain ⟨source, isRead, targeted, offset⟩ := Tree.reads_mean shape access isAccess
    obtain ⟨field, there, named⟩ := Interface.slot?_eq_some targeted
    have matters := sound.reads _ isJob p point source isRead
    rw [← named, offset] at matters
    exact ⟨x, read, mirrors _ field there _ x (.inl matters) read⟩
  refine ⟨fun access isAccess => ?_, ?_⟩
  · obtain ⟨x, -, read⟩ := alike access isAccess
    exact ⟨x, read⟩
  · unfold Tree.held
    have sameScalars : part.scalar = whole.scalar := by
      funext slot
      unfold Frame.scalar
      rw [scalars]
    rw [Tree.value_add, sameScalars]
    refine Tree.value_congr fun access isAccess => ?_
    obtain ⟨x, read, read'⟩ := alike access isAccess
    rw [(View.read_iff.mp read).2, (View.read_iff.mp read').2]

/-- **The frames mirror each other behind a task of the part and the same of the whole domain**, if
the two have the same values on the region of the part. -/
theorem updates (shows : interface.Shows program) {call call' : Call}
    (serves : whole.Serves interface call) (serves' : part.Serves interface call')
    (mirrors : Mirrors interface corner (Relevant before rows) whole part)
    (bottom : corner.k = 0) (sound : assignment.Sound domain before behind)
    {larger : PerAxis Nat} (isJob : assignment.job? larger = some job)
    (isJob' : assignment.job? domain = some job')
    (inner : ∀ p ∈ job'.region.points, p.add (Storage.offsetOf corner) ∈ job.region.points)
    (stable : ∀ field ∈ interface.fields, ∀ p, rows field.name p → field.role ≠ .temporary)
    (exact : ∀ p, rows assignment.statement.target p →
      p.add (Storage.offsetOf corner) ∈ job.region.points → p ∈ job'.region.points)
    (done : job.DoneBy interface task) (done' : job'.DoneBy interface task')
    (sameTarget : task.stage.target = task'.stage.target) {type : ElementType}
    {value value' : Offset → Float} (values : ∀ p ∈ job'.region.points,
      value' p = value (p.add (Storage.offsetOf corner))) {after after' : Frame}
    (updates : task.Updates whole after type value)
    (updates' : task'.Updates part after' type value') :
    Mirrors interface corner (Relevant behind rows) after after' := by
  intro slot field isField p x relevant read
  obtain ⟨ofAssignment, ofPlanes⟩ := Assignment.job?_parts isJob'
  have planes : job.region.k = job'.region.k :=
    (Assignment.job?_parts isJob).2.trans ofPlanes.symm
  have level : (p.add (Storage.offsetOf corner)).k = p.k := by
    simp only [Offset.add, Storage.offsetOf, bottom]
    omega
  have targetIs : field.name = assignment.statement.target ↔ task'.stage.target = slot :=
    shows.slot_eq_iff isField (ofAssignment ▸ done'.target)
  by_cases point : task'.stage.target = slot ∧ p ∈ job'.region.points
  · obtain ⟨rfl, inside⟩ := point
    have stored := updates.written _ (done.region ▸ inner p inside)
    rw [sameTarget] at stored
    rw [updates'.written p (done'.region ▸ inside), values p inside, ← stored]
    exact read
  · -- elsewhere neither of the two tasks has changed anything
    have elsewhere : task'.stage.target = slot →
        p.add (Storage.offsetOf corner) ∉ job.region.points ∧
        (p.k ∈ job'.region.k.toList → field.role ≠ .temporary) := by
      rintro rfl
      have outside : p ∉ job'.region.points := fun inside => point ⟨rfl, inside⟩
      have named := targetIs.mpr rfl
      rcases relevant with matters | row
      · have otherPlane : p.k ∉ job'.region.k.toList := fun plane => outside
          (Agrees.computed sound isJob' (named ▸ matters) (ofPlanes ▸ plane))
        refine ⟨fun inside => otherPlane ?_, fun plane => absurd plane otherPlane⟩
        have plane := (Region.mem_points.mp inside).2.2
        rwa [level, planes] at plane
      · exact ⟨fun inside => outside (exact p (named ▸ row) inside),
          fun _ => stable field (List.mem_of_getElem? isField) p row⟩
    have complete : ∀ {call : Call} {frame : Frame}, frame.Serves interface call →
        field.role ≠ .temporary → (frame.view slot).computed = none := by
      intro call frame serves notTemporary
      rw [← Option.isNone_iff_eq_none, ← Option.not_isSome, Bool.not_eq_true', ← Bool.not_eq_true]
      exact fun marked => notTemporary ((serves.view isField).temporary marked)
    have before' : Relevant before rows field.name p := by
      refine relevant.imp_left fun matters => sound.kept _ p matters fun here => ?_
      have inside := Agrees.computed sound isJob' (here.1 ▸ matters) here.2
      exact point ⟨targetIs.mp here.1, inside⟩
    refine (updates'.kept slot p x fun isTarget => ?_).mpr
      (mirrors slot field isField p x before' ((updates.kept slot _ x fun isTarget => ?_).mp read))
    · rw [done'.region]
      exact ⟨fun inside => point ⟨isTarget, inside⟩,
        fun plane => complete serves' ((elsewhere isTarget).2 plane)⟩
    · rw [done.region, level, planes]
      obtain ⟨outside, notTemporary⟩ := elsewhere (sameTarget ▸ isTarget)
      exact ⟨outside, fun plane => complete serves (notTemporary plane)⟩

/-- **A task of the part succeeds if that of the whole domain does**, and the frames mirror each
other behind both. -/
theorem runTask (shows : interface.Shows program) {call call' : Call}
    (serves : whole.Serves interface call) (serves' : part.Serves interface call')
    (scalars : part.scalars = whole.scalars)
    (mirrors : Mirrors interface corner (Relevant before rows) whole part)
    (bottom : corner.k = 0) (sound : assignment.Sound domain before behind)
    {larger : PerAxis Nat} (isJob : assignment.job? larger = some job)
    (isJob' : assignment.job? domain = some job')
    (inner : ∀ p ∈ job'.region.points, p.add (Storage.offsetOf corner) ∈ job.region.points)
    (stable : ∀ field ∈ interface.fields, ∀ p, rows field.name p → field.role ≠ .temporary)
    (exact : ∀ p, rows assignment.statement.target p →
      p.add (Storage.offsetOf corner) ∈ job.region.points → p ∈ job'.region.points)
    (done : job.DoneBy interface task) (done' : job'.DoneBy interface task')
    {target : InterfaceField} (found : interface.fields[task'.stage.target]? = some target)
    (full : target.dimensions = .ijk)
    (writes : ∀ p ∈ task'.region.points, (part.view task'.stage.target).Contains p)
    (writable : (part.view task'.stage.target).writable = true) {after : Frame}
    (ran : Schedule.runTask task whole = (after, none)) :
    ∃ after', Schedule.runTask task' part = (after', none) ∧
      Mirrors interface corner (Relevant behind rows) after after' := by
  have same : job.statement = job'.statement :=
    (Assignment.job?_parts isJob).1.trans (Assignment.job?_parts isJob').1.symm
  obtain ⟨tree, shape⟩ := done'.tree
  have sameTarget : task.stage.target = task'.stage.target :=
    Option.some.inj ((same ▸ done.target).symm.trans done'.target)
  obtain ⟨computable, updates⟩ :=
    Schedule.runTask_eq_none serves done (same ▸ shape) (sameTarget ▸ found) full ran
  rw [done.region] at computable
  have values := fun p (point : p ∈ job'.region.points) =>
    mirrors.computable scalars sound isJob' shape point (computable _ (inner p point))
  obtain ⟨after', ran'⟩ := Schedule.runTask_isOk serves' done' shape
    (fun p point => (values p (done'.region ▸ point)).1) writes writable
  obtain ⟨-, updates'⟩ := Schedule.runTask_eq_none serves' done' shape found full ran'
  exact ⟨after', ran', mirrors.updates shows serves serves' bottom sound isJob isJob' inner stable
    exact done done' sameTarget (fun p point => (values p point).2) updates updates'⟩

/-- Less may be relevant. -/
theorem mono {relevant less : Demanded} (mirrors : Mirrors interface corner relevant whole part)
    (fewer : ∀ field p, less field p → relevant field p) :
    Mirrors interface corner less whole part := fun slot field found p x isRelevant =>
  mirrors slot field found p x (fewer _ p isRelevant)

/-- **A run on a part succeeds if that on the whole domain does**, and the frames mirror each other
in the end. -/
theorem runTasks (shows : interface.Shows program) {call call' : Call}
    (inside : PerAxis.Part corner call'.domain call.domain) (small : call.domain.Small)
    (starts : ∀ (slot : Nat) (field : InterfaceField) p, interface.fields[slot]? = some field →
      field.dimensions = .ijk → Padded field.halo call'.domain p →
        (field.start call'.origins).Small)
    (stable : ∀ field ∈ interface.fields, ∀ p, rows field.name p → field.role ≠ .temporary)
    {assignments : List Assignment} (exact : ∀ assignment ∈ assignments, ∀ extent,
      assignment.extent = some extent → ∀ p, rows assignment.statement.target p →
        p.add (Storage.offsetOf corner) ∈
          (Region.grown extent call.domain assignment.planes).points →
        p ∈ (Region.grown extent call'.domain assignment.planes).points)
    (sound : Sound call'.domain assignments before behind) {tasks tasks' : List Schedule.Task}
    (done : List.Forall₂ (Job.DoneBy interface)
      (assignments.filterMap (Assignment.job? call.domain)) tasks)
    (done' : List.Forall₂ (Job.DoneBy interface)
      (assignments.filterMap (Assignment.job? call'.domain)) tasks')
    (guarded : ∀ task ∈ tasks', task.Guarded interface call'.domain)
    (serves : whole.Serves interface call) (serves' : part.Serves interface call')
    (scalars : part.scalars = whole.scalars)
    (mirrors : Mirrors interface corner (Relevant before rows) whole part) {after : Frame}
    (ran : Schedule.runTasks tasks whole = (after, none)) :
    ∃ after', Schedule.runTasks tasks' part = (after', none) ∧
      Mirrors interface corner (Relevant behind rows) after after' := by
  induction sound generalizing whole part tasks tasks' with
  | nil less =>
    cases done
    cases done'
    cases ran
    exact ⟨part, rfl, mirrors.mono fun field p => Or.imp_left (less field p)⟩
  | @cons assignment rest before middle behind here _ ih =>
    rw [List.forall_mem_cons] at exact
    cases live : assignment.extent with
    | none =>
      have dead := fun domain => Assignment.job?_of_dead domain live
      rw [List.filterMap_cons_none (dead _)] at done done'
      refine ih exact.2 done done' guarded serves serves' scalars (mirrors.mono fun field p => ?_)
        ran
      refine Or.imp_left fun matters => here.kept field p matters fun assigned => ?_
      exact here.not_matters_of_dead (dead _) (assigned.1 ▸ matters) assigned.2
    | some extent =>
      have isJob := fun domain => Assignment.job?_of_live domain live
      rw [List.filterMap_cons_some (isJob _)] at done done'
      cases done with
      | @cons _ task _ tasks first later =>
        cases done' with
        | @cons _ task' _ tasks' first' later' =>
          rw [List.forall_mem_cons] at guarded
          obtain ⟨target, there, full, assigned, writes⟩ := guarded.1.writes
          unfold Schedule.runTasks at ran
          split at ran
          next middleFrame ranHere =>
            have contained : ∀ p ∈ task'.region.points,
                (part.view task'.stage.target).Contains p := by
              intro p point
              have padded := (writes _ (List.mem_map.mpr ⟨p, point, rfl⟩)).2.1
              exact ((serves'.view there).contains (starts _ target p there full padded) full
                padded).1
            obtain ⟨middleFrame', ranHere', mirrors'⟩ := mirrors.runTask shows serves serves' scalars
              inside.bottom here (isJob call.domain) (isJob call'.domain)
              (fun p point => inside.grown small point) stable (exact.1 extent live) first first'
              there full contained ((serves'.view there).writable assigned) ranHere
            have served := serves.runTask task
            have served' := serves'.runTask task'
            have kept := Schedule.scalars_runTask task whole
            have kept' := Schedule.scalars_runTask task' part
            rw [ranHere] at served kept
            rw [ranHere'] at served' kept'
            obtain ⟨after', ranRest, mirrors''⟩ := ih exact.2 later later' guarded.2 served served'
              (kept'.trans (scalars.trans kept.symm)) mirrors' ran
            refine ⟨after', ?_, mirrors''⟩
            unfold Schedule.runTasks
            rw [ranHere']
            exact ranRest
          next => cases ran

end Mirrors

end Frame

end GridStencil
