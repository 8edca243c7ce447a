import GridStencil.Proofs.Soundness

/-!
**A compiled stencil computes what its program means.**

A run of a kernel knows bounded buffers only, and computes each live statement on a region; the
reference execution works on the whole grid and skips nothing. The two are compared where values
matter (`Sound`): the frame of the run and the state of the reference agree on every value that
matters and can be read. An assignment keeps this up, whether it is computed or skipped
(`Frame.Agrees.carryOut`), and with it every run that succeeds (`Frame.Agrees.runTasks`).

* `Kernel.refines_reference`: the outputs of a run on the domain are those of the reference.
-/

namespace GridStencil

open Program

/-! ### Values of expressions -/

/-- The values of scalars, by number and by name. -/
def Frame.ScalarsAre (frame : Frame) (interface : Interface) (scalars : String → Float) : Prop :=
  ∀ name slot, interface.scalarSlot? name = some slot → frame.scalar slot = scalars name

/-- A tree has the value of its expression where the fields it reads have the values of a state. -/
theorem Tree.held_eq_value {interface : Interface} {expr : Program.Expr} {tree : Tree}
    (shape : ofExpr? interface expr = .ok tree) {frame : Frame} {scalars : String → Float}
    (same : frame.ScalarsAre interface scalars) {state : Reference.State} {p : Offset}
    (fields : ∀ access ∈ tree.reads, ∀ name, interface.slot? name = some access.1 →
      (frame.view access.1).held (p.add access.2) = state name (p.add access.2)) :
    tree.held frame p = Reference.value scalars state p expr := by
  unfold held
  induction expr generalizing tree with
  | field name offset =>
    unfold ofExpr? at shape
    split at shape
    next slot found =>
      cases shape
      exact fields (slot, offset) (List.mem_singleton_self _) name found
    · cases shape
  | scalar name =>
    unfold ofExpr? at shape
    split at shape
    next slot found =>
      cases shape
      exact same name slot found
    · cases shape
  | literal value =>
    cases shape
    rfl
  | unary op arg ih =>
    obtain ⟨argTree, argShape, built⟩ := Steps.bind_eq_ok.mp shape
    cases built
    exact congrArg op.apply (ih argShape fields)
  | binary op left right ihLeft ihRight =>
    obtain ⟨leftTree, leftShape, rest⟩ := Steps.bind_eq_ok.mp shape
    obtain ⟨rightTree, rightShape, built⟩ := Steps.bind_eq_ok.mp rest
    cases built
    obtain ⟨ofLeft, ofRight⟩ := List.forall_mem_append.mp fields
    unfold value Reference.value
    rw [ihLeft leftShape ofLeft, ihRight rightShape ofRight]
  | select condition whenTrue whenFalse ihCondition ihTrue ihFalse =>
    obtain ⟨testTree, testShape, rest⟩ := Steps.bind_eq_ok.mp shape
    obtain ⟨trueTree, trueShape, rest⟩ := Steps.bind_eq_ok.mp rest
    obtain ⟨falseTree, falseShape, built⟩ := Steps.bind_eq_ok.mp rest
    cases built
    obtain ⟨⟨ofTest, ofTrue⟩, ofFalse⟩ :=
      (List.forall_mem_append.trans (and_congr_left' List.forall_mem_append)).mp fields
    unfold value Reference.value
    rw [ihCondition testShape ofTest, ihTrue trueShape ofTrue, ihFalse falseShape ofFalse]

/-! ### Assignments -/

namespace Reference

variable {program : Program} {scalars : String → Float} {state : State} {assignment : Assignment}
  {p : Offset}

theorem carryOut_target (plane : p.k ∈ assignment.planes.toList) :
    carryOut program scalars state assignment assignment.statement.target p =
      cast program assignment.statement.target
        (value scalars state p assignment.statement.value) :=
  if_pos ⟨rfl, Stretch.mem_toList.mp plane⟩

theorem carryOut_other {field : String}
    (other : ¬ (field = assignment.statement.target ∧ p.k ∈ assignment.planes.toList)) :
    carryOut program scalars state assignment field p = state field p :=
  if_neg fun here => other ⟨here.1, Stretch.mem_toList.mpr here.2⟩

end Reference

/-- An interface has the fields of a program, each once and with its type. -/
structure Interface.Shows (interface : Interface) (program : Program) : Prop where
  distinct : (interface.fields.map InterfaceField.name).Nodup
  types : ∀ field ∈ interface.fields, ∀ x,
    Reference.cast program field.name x = field.type.cast x
  full : ∀ field ∈ interface.fields, field.role ≠ .input → field.dimensions = .ijk

/-- The number of a field is where it stands. -/
theorem Interface.Shows.slot {interface : Interface} {program : Program}
    (shows : interface.Shows program) {slot : Nat} {field : InterfaceField}
    (found : interface.fields[slot]? = some field) : interface.slot? field.name = some slot := by
  obtain ⟨below, rfl⟩ := List.getElem?_eq_some_iff.mp found
  refine List.findIdx?_eq_some_iff_getElem.mpr ⟨below, beq_iff_eq.mpr rfl, fun other less => ?_⟩
  rw [beq_iff_eq]
  intro same
  have sameField : interface.fields[other] = interface.fields[slot] :=
    List.inj_on_of_nodup_map shows.distinct (List.getElem_mem _) (List.getElem_mem _) same
  have equal := (List.Nodup.getElem_inj_iff (List.Nodup.of_map _ shows.distinct)).mp sameField
  omega

/-- Two fields with the same name have the same number. -/
theorem Interface.Shows.slot_eq_iff {interface : Interface} {program : Program}
    (shows : interface.Shows program) {slot target : Nat} {field : InterfaceField} {name : String}
    (found : interface.fields[slot]? = some field) (targeted : interface.slot? name = some target) :
    field.name = name ↔ target = slot := by
  constructor
  · exact fun named => Option.some.inj (targeted.symm.trans (named ▸ shows.slot found))
  · rintro rfl
    obtain ⟨field', there, named⟩ := Interface.slot?_eq_some targeted
    obtain rfl : field = field' := Option.some.inj (found.symm.trans there)
    exact named

/-- A task leaves the scalars alone. -/
theorem Schedule.scalars_runTask (task : Task) (frame : Frame) :
    (runTask task frame).1.scalars = frame.scalars := by
  unfold runTask
  split
  · rfl
  · split
    · rfl
    · rfl

namespace Frame

section Commit

variable {interface : Interface} {call : Call} {frame after : Frame} {slot target : Nat}
  {field : InterfaceField} {region : Region} {value : Offset → Float} {p : Offset}

/-- A store to a field with axes, seen from its view. -/
theorem Serves.commit_view (serves : frame.Serves interface call)
    (found : interface.fields[target]? = some field) (full : field.dimensions = .ijk)
    (stored : frame.commit target region (region.points.map value) = (after, none)) :
    (frame.view target).zeroDim = false ∧
      (frame.view target).commit region (region.points.map value) = (after.view target, none) := by
  have below : target < frame.views.length := by
    rw [← List.Forall₂.length_eq serves]
    exact (List.getElem?_eq_some_iff.mp found).1
  have view := Schedule.view_commit frame target region (region.points.map value) target
  rw [stored, if_pos ⟨rfl, below⟩] at view
  refine ⟨?_, Prod.ext view.symm ?_⟩
  · rw [← Bool.not_eq_true, (serves.view found).zeroDim, full]
    exact fun absurd => nomatch absurd
  · show (frame.commit target region (region.points.map value)).2 = none
    rw [stored]

/-- What can be read where a value was stored. -/
theorem Serves.read_commit_of_mem (serves : frame.Serves interface call)
    (found : interface.fields[target]? = some field) (full : field.dimensions = .ijk)
    (stored : frame.commit target region (region.points.map value) = (after, none))
    (point : p ∈ region.points) :
    (after.view target).read p = .ok (field.type.cast (value p)) := by
  obtain ⟨notZero, storedHere⟩ := serves.commit_view found full stored
  rw [View.read_commit_of_mem notZero storedHere point, (serves.view found).type]

/-- What can be read on planes of a field to which nothing was stored. -/
theorem Serves.read_commit_of_ne (serves : frame.Serves interface call)
    (found : interface.fields[target]? = some field) (full : field.dimensions = .ijk)
    (stored : frame.commit target region (region.points.map value) = (after, none))
    (other : ¬ (target = slot ∧ p.k ∈ region.k.toList)) {x : Float} :
    (after.view slot).read p = .ok x ↔ (frame.view slot).read p = .ok x := by
  by_cases same : target = slot
  · subst same
    obtain ⟨notZero, storedHere⟩ := serves.commit_view found full stored
    exact View.read_commit_of_not_mem notZero storedHere fun plane => other ⟨rfl, plane⟩
  · have view := Schedule.view_commit frame target region (region.points.map value) slot
    rw [stored, if_neg fun both => same both.1] at view
    rw [view]

end Commit

/-- What can be read of a frame where it matters is what a state holds. -/
def Agrees (frame : Frame) (interface : Interface) (matters : Demanded)
    (state : Reference.State) : Prop :=
  ∀ slot field, interface.fields[slot]? = some field → ∀ p x, matters field.name p →
    (frame.view slot).read p = .ok x → state field.name p = x

namespace Agrees

variable {interface : Interface} {program : Program} {call : Call} {scalars : String → Float}
  {frame after : Frame} {domain : PerAxis Nat} {assignment : Assignment}
  {before behind : Demanded} {state : Reference.State}

/-- Where an assignment has not changed the state, it is enough if the frame has not changed. -/
theorem unassigned (agrees : frame.Agrees interface before state)
    (sound : assignment.Sound domain before behind) {slot : Nat} {field : InterfaceField}
    (found : interface.fields[slot]? = some field) {p : Offset} {x : Float}
    (matters : behind field.name p)
    (other : ¬ (field.name = assignment.statement.target ∧ p.k ∈ assignment.planes.toList))
    (read : (frame.view slot).read p = .ok x) :
    Reference.carryOut program scalars state assignment field.name p = x := by
  rw [Reference.carryOut_other other]
  exact agrees slot field found p x (sound.kept _ p matters other) read

/-- **A statement that is computed nowhere where its target matters** may as well be skipped. -/
theorem skip (agrees : frame.Agrees interface before state)
    (sound : assignment.Sound domain before behind)
    (nowhere : ∀ p, behind assignment.statement.target p → p.k ∉ assignment.planes.toList) :
    frame.Agrees interface behind
      (Reference.carryOut program scalars state assignment) := fun _ _ found p _ matters read =>
  agrees.unassigned sound found matters (fun here => nowhere p (here.1 ▸ matters) here.2) read

section Task

variable {job : Job} {task : Schedule.Task}

/-- A statement is computed wherever its target matters. -/
theorem computed (sound : assignment.Sound domain before behind)
    (isJob : assignment.job? domain = some job) {p : Offset}
    (matters : behind assignment.statement.target p) (plane : p.k ∈ assignment.planes.toList) :
    p ∈ job.region.points := by
  obtain ⟨extent, live, rfl⟩ := Option.map_eq_some_iff.mp isJob
  obtain ⟨extent', live', point⟩ := sound.computed p matters plane
  obtain rfl : extent = extent' := Option.some.inj (live.symm.trans live')
  exact point

/-- Where a statement is computed, it has the value that it has in the reference. -/
theorem held_eq_value (agrees : frame.Agrees interface before state)
    (same : frame.ScalarsAre interface scalars)
    (sound : assignment.Sound domain before behind) (isJob : assignment.job? domain = some job)
    {tree : Tree} (shape : Tree.ofExpr? interface job.statement.value = .ok tree) {p : Offset}
    (point : p ∈ job.region.points) (computable : tree.Computable frame p) :
    tree.held frame p = Reference.value scalars state p job.statement.value := by
  refine Tree.held_eq_value shape same fun access isAccess name found => ?_
  obtain ⟨read, isRead, found', offset⟩ := Tree.reads_mean shape access isAccess
  obtain ⟨field, there, named⟩ := Interface.slot?_eq_some found
  obtain ⟨field', there', named'⟩ := Interface.slot?_eq_some found'
  obtain rfl : field = field' := Option.some.inj (there.symm.trans there')
  have matters := sound.reads _ isJob p point read isRead
  rw [offset, ← named'] at matters
  rw [← named]
  exact (agrees _ field there _ _ matters
    (View.read_iff.mpr ⟨computable access isAccess, rfl⟩)).symm

/-- Once the values of a statement are stored in its target, the frame agrees with the state behind
the statement. -/
theorem store (shows : interface.Shows program) (serves : frame.Serves interface call)
    (agrees : frame.Agrees interface before state)
    (sound : assignment.Sound domain before behind)
    (isJob : assignment.job? domain = some job)
    (assigned : ∀ field ∈ interface.fields, field.name = assignment.statement.target →
      field.dimensions = .ijk)
    {target : Nat} (targeted : interface.slot? assignment.statement.target = some target)
    {value : Offset → Float}
    (stored : frame.commit target job.region (job.region.points.map value) = (after, none))
    (values : ∀ p ∈ job.region.points,
      value p = Reference.value scalars state p assignment.statement.value) :
    after.Agrees interface behind (Reference.carryOut program scalars state assignment) := by
  intro slot field found p x matters read
  obtain ⟨written, there, named⟩ := Interface.slot?_eq_some targeted
  have full := assigned written (List.mem_of_getElem? there) named
  have targetIs := shows.slot_eq_iff found targeted
  have planes := (Assignment.job?_parts isJob).2
  by_cases here : field.name = assignment.statement.target ∧ p.k ∈ assignment.planes.toList
  · obtain rfl := targetIs.mp here.1
    obtain rfl : field = written := Option.some.inj (found.symm.trans there)
    have point := computed sound isJob (named ▸ matters) here.2
    rw [serves.read_commit_of_mem found full stored point, Except.ok.injEq, values p point] at read
    rw [named, Reference.carryOut_target here.2, ← named,
      shows.types field (List.mem_of_getElem? found)]
    exact read
  · rw [targetIs, ← planes] at here
    refine agrees.unassigned sound found matters ?_
      ((serves.read_commit_of_ne there full stored here).mp read)
    rw [targetIs, ← planes]
    exact here

/-- **A task does what its assignment does in the reference**, wherever it matters. -/
theorem runTask (shows : interface.Shows program) (serves : frame.Serves interface call)
    (same : frame.ScalarsAre interface scalars) (agrees : frame.Agrees interface before state)
    (sound : assignment.Sound domain before behind) (isJob : assignment.job? domain = some job)
    (assigned : ∀ field ∈ interface.fields, field.name = assignment.statement.target →
      field.dimensions = .ijk)
    (done : job.DoneBy interface task) (ran : Schedule.runTask task frame = (after, none)) :
    after.Agrees interface behind (Reference.carryOut program scalars state assignment) := by
  have region := done.region
  have ofAssignment := (Assignment.job?_parts isJob).1
  unfold Schedule.runTask at ran
  rw [region] at ran
  split at ran
  next empty =>
    cases ran
    refine agrees.skip sound fun p matters plane => ?_
    have point := List.length_pos_of_mem (computed sound isJob matters plane)
    rw [Region.length_points, empty] at point
    exact absurd point (Nat.lt_irrefl 0)
  next points =>
    split at ran
    · cases ran
    next values evaluated =>
      obtain ⟨tree, shape⟩ := done.tree
      obtain ⟨backend, compiled⟩ := done.code
      obtain ⟨computable, rfl⟩ :=
        (Code.eval_eq_ok serves.point points compiled shape).mp evaluated
      refine agrees.store shows serves sound isJob assigned (ofAssignment ▸ done.target) ran ?_
      exact fun p point => ofAssignment ▸
        agrees.held_eq_value same sound isJob shape point (computable p point)

end Task

/-- **A run does what its assignments do in the reference**, wherever it matters. -/
theorem runTasks (shows : interface.Shows program) {assignments : List Assignment}
    {tasks : List Schedule.Task} (serves : frame.Serves interface call)
    (same : frame.ScalarsAre interface scalars) (agrees : frame.Agrees interface before state)
    (sound : Sound domain assignments before behind)
    (assigned : ∀ assignment ∈ assignments, ∀ field ∈ interface.fields,
      field.name = assignment.statement.target → field.dimensions = .ijk)
    (done : List.Forall₂ (Job.DoneBy interface)
      (assignments.filterMap (Assignment.job? domain)) tasks)
    (ran : Schedule.runTasks tasks frame = (after, none)) :
    after.Serves interface call ∧ after.Agrees interface behind
      (assignments.foldl (Reference.carryOut program scalars) state) := by
  induction sound generalizing frame state tasks with
  | nil less =>
    cases done
    cases ran
    exact ⟨serves, fun slot field found p x matters =>
      agrees slot field found p x (less _ p matters)⟩
  | @cons assignment rest before middle behind here _ ih =>
    rw [List.forall_mem_cons] at assigned
    cases isJob : assignment.job? domain with
    | none =>
      rw [List.filterMap_cons_none isJob] at done
      exact ih serves same (agrees.skip here fun _ => here.not_matters_of_dead isJob) assigned.2
        done ran
    | some job =>
      rw [List.filterMap_cons_some isJob] at done
      cases done with
      | @cons _ task _ tasks first later =>
        unfold Schedule.runTasks at ran
        split at ran
        next middleFrame ranHere =>
          have served := serves.runTask task
          have scalarsKept := Schedule.scalars_runTask task frame
          rw [ranHere] at served scalarsKept
          refine ih served ?_ (agrees.runTask shows serves same here isJob assigned.1 first ranHere)
            assigned.2 later ran
          intro name slot found
          rw [← same name slot found]
          exact congrArg (fun scalars => scalars.getD slot 0.0) scalarsKept
        next => cases ran

end Agrees

end Frame

end GridStencil
