import GridStencil.Proofs.Kernel.Part

/-!
**Rows of a domain, and outputs that are needed on them only.**

An output is flat along a horizontal axis if it is needed on the domain only, along this axis. Flat
outputs have no padding along the axis (`Kernel.FlatAlong.halo`), and statements that assign them
are computed on the rows of the domain, neither more nor less (`Kernel.FlatAlong.extent`).

* `Kernel.FlatAlong.untouched`: a run changes outputs only, and only on the rows of the domain.
* `Kernel.FlatAlong.returned_sameOutline`: a run keeps the outlines of all arguments.
* `Kernel.FlatAlong.empty_of_large`: nothing is computed on a domain too large for 64 bits.
-/

namespace GridStencil

open Program

/-! ### Along an axis -/

/-- The value on an axis. -/
def PerAxis.along {α : Type} (t : PerAxis α) : Axis → α
  | .i => t.i
  | .j => t.j
  | .k => t.k

/-- The values with that on an axis replaced. -/
def PerAxis.put {α : Type} (t : PerAxis α) (axis : Axis) (a : α) : PerAxis α :=
  match axis with
  | .i => { t with i := a }
  | .j => { t with j := a }
  | .k => { t with k := a }

/-- How far an offset goes along an axis. -/
def Offset.along (p : Offset) : Axis → Int
  | .i => p.i
  | .j => p.j
  | .k => p.k

/-- The offsets of an extent along an axis. -/
def Extent.along (extent : Extent) : Axis → OffsetRange
  | .i => extent.i
  | .j => extent.j
  | .k => extent.k

/-- All outputs are needed on the domain only, along an axis. -/
def Demand.FlatAlong (demand : Demand) (program : Program) (axis : Axis) : Prop :=
  ∀ field ∈ program.outputs, ∃ extent, demand.extent? field.name = some extent ∧
    extent.along axis = ⟨0, 0⟩

namespace PerAxis

variable {axis : Axis} {start size : Nat} {whole : PerAxis Nat}

/-- Some rows of a domain are a part of it. -/
theorem part_put (horizontal : axis ≠ .k) (inside : start + size ≤ whole.along axis) :
    Part ((all 0).put axis start) (whole.put axis size) whole := by
  cases axis with
  | i => exact ⟨inside, by simp [all, put], rfl, rfl⟩
  | j => exact ⟨by simp [all, put], inside, rfl, rfl⟩
  | k => exact absurd rfl horizontal

/-- On rows of a part, a region that is flat along the axis of the rows is that of the whole
domain. -/
theorem mem_grown_put (horizontal : axis ≠ .k) (small : whole.Small)
    (inside : start + size ≤ whole.along axis) {extent : Extent} (flat : extent.along axis = ⟨0, 0⟩)
    {planes : Stretch} {p : Offset} (row : 0 ≤ p.along axis ∧ p.along axis < size)
    (point : p.add (Storage.offsetOf ((all 0).put axis start)) ∈
      (Region.grown extent whole planes).points) :
    p ∈ (Region.grown extent (whole.put axis size) planes).points := by
  rw [Region.mem_grown ((part_put horizontal inside).small small)]
  rw [Region.mem_grown small] at point
  cases axis with
  | i =>
    simp only [Extent.along, Offset.along, PerAxis.along] at flat row inside
    simp only [Offset.add, Storage.offsetOf, put, all, flat] at point ⊢
    have plane : p.k + ((0 : Nat) : Int) = p.k := Int.add_zero _
    rw [plane] at point
    exact ⟨by omega, by omega, point.2.2⟩
  | j =>
    simp only [Extent.along, Offset.along, PerAxis.along] at flat row inside
    simp only [Offset.add, Storage.offsetOf, put, all, flat] at point ⊢
    have plane : p.k + ((0 : Nat) : Int) = p.k := Int.add_zero _
    rw [plane] at point
    exact ⟨by omega, by omega, point.2.2⟩
  | k => exact absurd rfl horizontal

end PerAxis

/-! ### Flat outputs -/

/-- The extent of an assignment is that of its statement in the text. -/
theorem Program.position_of_mem_assignments {program : Program} {demand : Demand}
    {domain : PerAxis Nat} {assignment : Assignment}
    (member : assignment ∈ program.assignments demand domain) :
    ∃ block b, (block, b) ∈ program.blocks.zipIdx ∧
      ∃ position, (position, assignment.statement) ∈ blockStatements block b ∧
        assignment.extent = demand.region? position := by
  obtain ⟨⟨block, b⟩, inProgram, member⟩ := List.mem_flatMap.mp member
  obtain ⟨⟨part, i⟩, inBlock, member⟩ := List.mem_flatMap.mp member
  obtain ⟨planes, -, member⟩ := List.mem_flatMap.mp member
  obtain ⟨⟨position, statement⟩, there, rfl⟩ := List.mem_map.mp member
  exact ⟨block, b, inProgram, position, List.mem_flatMap.mpr ⟨_, inBlock, there⟩, rfl⟩

/-- Domains with the same planes have the same assignments, on regions of different sizes. -/
theorem Program.assignments_congr (program : Program) (demand : Demand) {a b : PerAxis Nat}
    (planes : a.k = b.k) : program.assignments demand a = program.assignments demand b := by
  have same : ∀ interval, Schedule.planesOf interval a = Schedule.planesOf interval b := by
    intro interval
    unfold Schedule.planesOf
    rw [planes]
  unfold assignments blockAssignments
  have parts : sectionAssignments demand a = sectionAssignments demand b := by
    funext policy block part
    unfold sectionAssignments
    rw [same]
  rw [parts]

/-- A kernel whose outputs are all flat along a horizontal axis. -/
structure Kernel.FlatAlong (kernel : Kernel) (context : Context) (demand : Demand)
    (backend : Backend) (axis : Axis) : Prop where
  planned : context.Planned
  made : ofContext? backend context = .ok kernel
  known : context.demand = some demand
  horizontal : axis ≠ .k
  flat : demand.FlatAlong context.program axis

namespace Kernel.FlatAlong

variable {kernel : Kernel} {context : Context} {demand : Demand} {backend : Backend} {axis : Axis}

theorem face (flat : kernel.FlatAlong context demand backend axis) :
    Interface.ofContext? context = .ok kernel.interface ∧
      Schedule.ofProgram? backend kernel.interface context.program demand = .ok kernel.schedule := by
  obtain ⟨other, known, parts⟩ := ofContext?_eq_ok flat.made
  obtain rfl : demand = other := Option.some.inj (flat.known.symm.trans known)
  exact parts

/-- An output of the interface is one of the program. -/
theorem declared_output (flat : kernel.FlatAlong context demand backend axis)
    {field : InterfaceField} (member : field ∈ kernel.interface.fields)
    (output : field.role = .output) :
    ∃ declared ∈ context.program.outputs, declared.name = field.name ∧
      field.halo = demand.halo field.name := by
  rw [(Interface.ofContext?_eq_ok flat.known flat.face.1).1] at member
  obtain ⟨declared, inProgram, rfl⟩ := List.mem_map.mp member
  exact ⟨declared, List.mem_filter.mpr ⟨inProgram, beq_iff_eq.mpr output⟩, rfl, rfl⟩

/-- Outputs have no padding along the axis. -/
theorem halo (flat : kernel.FlatAlong context demand backend axis) {field : InterfaceField}
    (member : field ∈ kernel.interface.fields) (output : field.role = .output) :
    field.halo.along axis = ⟨0, 0⟩ := by
  obtain ⟨declared, isOutput, named, halo⟩ := flat.declared_output member output
  obtain ⟨extent, needed, level⟩ := flat.flat declared isOutput
  rw [halo, ← named, Demand.halo, needed]
  have horizontal := flat.horizontal
  cases axis with
  | i =>
    simp only [Extent.along] at level
    simp [PerAxis.along, Extent.halo, level, OffsetRange.padding]
  | j =>
    simp only [Extent.along] at level
    simp [PerAxis.along, Extent.halo, level, OffsetRange.padding]
  | k => exact absurd rfl horizontal

/-- **Statements that assign outputs are computed on the rows of the domain**, neither more nor
less. -/
theorem extent (flat : kernel.FlatAlong context demand backend axis) {domain : PerAxis Nat}
    {assignment : Assignment} (member : assignment ∈ context.program.assignments demand domain)
    {extent : Extent} (live : assignment.extent = some extent) {field : InterfaceField}
    (isField : field ∈ kernel.interface.fields) (output : field.role = .output)
    (named : field.name = assignment.statement.target) : extent.along axis = ⟨0, 0⟩ := by
  obtain ⟨declared, isOutput, named', -⟩ := flat.declared_output isField output
  obtain ⟨whole, needed, level⟩ := flat.flat declared isOutput
  obtain ⟨other, known, found⟩ := flat.planned.demand
  obtain rfl : demand = other := Option.some.inj (flat.known.symm.trans known)
  obtain ⟨needs, swept, extents⟩ := Demand.ofProgram?_swept found
  obtain ⟨block, b, inProgram, position, there, isLive⟩ := position_of_mem_assignments member
  obtain ⟨⟨reached, rfl, ⟨all, known, within⟩, covers⟩, -⟩ :=
    swept.at_live inProgram there (isLive.symm.trans live)
  rw [← named, ← named'] at known covers
  have around := covers _ (Demand.Needs.has_of_get? (Demand.start_output isOutput))
  obtain rfl : whole = all := Option.some.inj <|
    (needed.symm.trans (extents declared (List.mem_filter.mp isOutput).1)).trans known
  have horizontal := flat.horizontal
  cases axis with
  | i =>
    have inner := within.i
    have outer := around.i
    simp only [Extent.along] at level
    simp only [level, Extent.zero, Extent.ofOffset, Offset.zero] at inner outer
    show (⟨reached.i.lo, reached.i.hi⟩ : OffsetRange) = ⟨0, 0⟩
    rw [OffsetRange.mk.injEq]
    omega
  | j =>
    have inner := within.j
    have outer := around.j
    simp only [Extent.along] at level
    simp only [level, Extent.zero, Extent.ofOffset, Offset.zero] at inner outer
    show (⟨reached.j.lo, reached.j.hi⟩ : OffsetRange) = ⟨0, 0⟩
    rw [OffsetRange.mk.injEq]
    omega
  | k => exact absurd rfl horizontal

end Kernel.FlatAlong

/-! ### Buffers and rows of the domain -/

theorem Kernel.length_returned (fields : List BoundField) (views : List View)
    (arguments : List Argument) : (returned fields views arguments).length = arguments.length := by
  induction fields generalizing views arguments with
  | nil => rfl
  | cons first rest ih =>
    cases views with
    | nil => rfl
    | cons view views =>
      unfold returned
      rw [ih, List.length_modify]

/-- The point of the buffer of a field lies on a row of the domain. -/
def Call.OnRow (call : Call) (axis : Axis) (field : InterfaceField) (index : Offset) : Prop :=
  ((field.start call.origins).along axis : Int) ≤ index.along axis ∧
    index.along axis < (field.start call.origins).along axis + call.domain.along axis

/-- A point of a buffer is on a row of the domain if the point of the grid is. -/
theorem View.Serves.onRow_iff {call : Call} {field : InterfaceField} {view : View}
    (serves : view.Serves call field) (small : (field.start call.origins).Small)
    (full : field.dimensions = .ijk) (axis : Axis) (p : Offset) :
    call.OnRow axis field (view.index p) ↔
      0 ≤ p.along axis ∧ p.along axis < call.domain.along axis := by
  unfold Call.OnRow
  rw [serves.index_eq small full]
  cases axis <;> simp only [Offset.along, PerAxis.along] <;> omega

/-- The rows of a part in the buffer of a parameter. -/
theorem Call.On.onRow_iff {call part : Call} {axis : Axis} {start size : Nat}
    (on : On ((PerAxis.all 0).put axis start) call part)
    (rows : part.domain = call.domain.put axis size) {field : InterfaceField}
    (parameter : field.isParameter = true) (index : Offset) :
    part.OnRow axis field index ↔
      ((field.start call.origins).along axis + start : Int) ≤ index.along axis ∧
        index.along axis < (field.start call.origins).along axis + start + size := by
  unfold OnRow InterfaceField.start
  rw [if_pos parameter, if_pos parameter, on.origins, rows]
  cases axis <;> simp only [PerAxis.add, PerAxis.put, PerAxis.along, PerAxis.all] <;> omega

/-- Parameters can be read on all planes. -/
theorem View.Serves.lacks_eq_false {call : Call} {field : InterfaceField} {view : View}
    (serves : view.Serves call field) (notTemporary : field.role ≠ .temporary) (k : Int) :
    view.lacks k = false := by
  unfold View.lacks
  cases computed : view.computed with
  | none => rfl
  | some planes => exact absurd (serves.temporary (by rw [computed]; rfl)) notTemporary

/-- A point of the part lies in a buffer where it lies as a point of the whole domain. -/
theorem View.Serves.index_part {call part : Call} {corner : PerAxis Nat}
    (on : Call.On corner call part) {field : InterfaceField} {view view' : View}
    (serves : view.Serves call field) (serves' : view'.Serves part field)
    (full : field.dimensions = .ijk) (small : (field.start call.origins).Small)
    (small' : (field.start part.origins).Small) (parameter : field.isParameter = true)
    (p : Offset) : view'.index p = view.index (p.add (Storage.offsetOf corner)) := by
  rw [serves.index_eq small full, serves'.index_eq small' full]
  unfold InterfaceField.start
  rw [if_pos parameter, if_pos parameter, on.origins]
  simp only [PerAxis.add, Offset.add, Storage.offsetOf, Offset.mk.injEq]
  omega

/-- Every point of a buffer is one of the grid. -/
theorem View.Serves.exists_index {call : Call} {field : InterfaceField} {view : View}
    (serves : view.Serves call field) (small : (field.start call.origins).Small)
    (full : field.dimensions = .ijk) (index : Offset) : ∃ p, view.index p = index := by
  let start := field.start call.origins
  refine ⟨⟨index.i - start.i, index.j - start.j, index.k - start.k⟩, ?_⟩
  rw [serves.index_eq small full, Offset.mk.injEq]
  dsimp only [start]
  omega

/-- A padded point is on a row of the domain where there is no padding. -/
theorem Padded.onRow {halo : Halo} {domain : PerAxis Nat} {p : Offset}
    (padded : Padded halo domain p) {axis : Axis} (flat : halo.along axis = ⟨0, 0⟩) :
    0 ≤ p.along axis ∧ p.along axis < domain.along axis := by
  obtain ⟨i, j, k⟩ := padded
  cases axis with
  | i =>
    simp only [PerAxis.along, Offset.along] at flat ⊢
    simp only [flat] at i
    omega
  | j =>
    simp only [PerAxis.along, Offset.along] at flat ⊢
    simp only [flat] at j
    omega
  | k =>
    simp only [PerAxis.along, Offset.along] at flat ⊢
    simp only [flat] at k
    omega

/-- Tasks without points do nothing. -/
theorem Schedule.runTasks_of_empty {tasks : List Task}
    (empty : ∀ task ∈ tasks, task.region.size = 0) (frame : Frame) :
    runTasks tasks frame = (frame, none) := by
  induction tasks with
  | nil => rfl
  | cons task rest ih =>
    rw [List.forall_mem_cons] at empty
    have here : runTask task frame = (frame, none) := by
      unfold runTask
      rw [if_pos empty.1]
    unfold runTasks
    rw [here]
    exact ih empty.2

/-- A run of a call that is bound. -/
theorem Kernel.run_of_bound {kernel : Kernel} {call : Call} {bound : BoundCall}
    (passed : call.bind kernel.interface = .ok bound) {after : Frame}
    {failure : Option Cause} (ran : Schedule.runTasks (kernel.schedule.tasks call.domain)
      (.ofBound kernel.interface bound call.domain) = (after, failure)) :
    kernel.run call = (returned bound.fields after.views call.arguments,
      failure.map .ofCause) := by
  unfold run
  rw [passed]
  dsimp only
  rw [ran]

/-- **Where a job has a point, the domain is small**, if the buffers are small enough for a memory:
the buffer of the target has a point, so its sizes fit 64 bits, and those of the domain. -/
theorem Kernel.small_of_job {kernel : Kernel} {context : Context} {demand : Demand}
    {backend : Backend} {call : Call} {bound : BoundCall} (planned : context.Planned)
    (made : ofContext? backend context = .ok kernel) (known : context.demand = some demand)
    (passed : call.bind kernel.interface = .ok bound)
    (fits : (Frame.ofBound kernel.interface bound call.domain).FitsMemory)
    {corner domain : PerAxis Nat} (inside : PerAxis.Part corner domain call.domain) {job : Job}
    (isJob : job ∈ context.program.jobs demand domain) {p : Offset}
    (point : p ∈ job.region.points) : call.domain.Small := by
  obtain ⟨other, known', face, scheduled⟩ := ofContext?_eq_ok made
  obtain rfl : demand = other := Option.some.inj (known.symm.trans known')
  obtain ⟨i, j, -, k⟩ := inside
  have enough : context.minPlanes ≤ domain.k :=
    (Interface.ofContext?_eq_ok known face).2.2 ▸ k ▸ Call.bind_planes passed
  obtain ⟨task, -, done⟩ := Steps.exists_left (Schedule.tasks_doneBy scheduled domain).flip isJob
  obtain ⟨aroundI, aroundJ, planes⟩ := Program.job_around planned known enough isJob point
  obtain ⟨field, there, named⟩ := Interface.slot?_eq_some done.target
  obtain ⟨halo, -⟩ := Interface.field_of_getElem? known face there
  obtain ⟨block, b, inBlocks, part, inBlock, inPart, -⟩ := Program.mem_jobs isJob
  have full := (Interface.target_of_ofContext? planned known face
    (List.mem_of_getElem? (List.mk_mem_zipIdx_iff_getElem?.mp inBlocks)) inBlock inPart
    (List.mem_of_getElem? there) named).1
  rw [← named, ← halo] at aroundI aroundJ
  have serves := Frame.ofBound_serves passed
  obtain ⟨coversI, coversJ, coversK⟩ := (serves.view there).covers full
  have sizeI := coversI.above
  have sizeJ := coversJ.above
  have sizeK := coversK.above
  have belowI := coversI.below
  have belowJ := coversJ.below
  exact PerAxis.small_of_le (PerAxis.small_of_volume (fits.volume serves there) (by omega)
    (by omega) (by omega)) (by omega) (by omega) (by omega)

namespace Kernel.FlatAlong

variable {kernel : Kernel} {context : Context} {demand : Demand} {backend : Backend} {axis : Axis}
  {call : Call} {bound : BoundCall}

/-- **A run changes outputs only, and only on the rows of the domain.** -/
theorem untouched (flat : kernel.FlatAlong context demand backend axis)
    (passed : call.bind kernel.interface = .ok bound)
    (fits : (Frame.ofBound kernel.interface bound call.domain).FitsMemory)
    (small : call.domain.Small) {n : Nat} {field : InterfaceField}
    (found : kernel.interface.fields[n]? = some field) (parameter : field.isParameter = true)
    {index : Offset}
    (inside : Storage.Inside
      ((Frame.ofBound kernel.interface bound call.domain).view n).storage.shape index)
    (outside : field.role = .output → ¬ call.OnRow axis field index) :
    ((Schedule.runTasks (kernel.schedule.tasks call.domain)
        (.ofBound kernel.interface bound call.domain)).1.view n).element index =
      ((Frame.ofBound kernel.interface bound call.domain).view n).element index := by
  obtain ⟨face, scheduled⟩ := flat.face
  have enough : context.minPlanes ≤ call.domain.k :=
    (Interface.ofContext?_eq_ok flat.known face).2.2 ▸ Call.bind_planes passed
  have serves := Frame.ofBound_serves passed
  refine Schedule.runTasks_untouched inside fun task member access isWrite here same => ?_
  obtain ⟨target, there, full, assigned, writes⟩ :=
    (task_guarded flat.planned flat.known face scheduled small enough member).writes
  obtain ⟨isTarget, padded, -⟩ := writes access isWrite
  obtain rfl : field = target :=
    Option.some.inj (found.symm.trans ((here.symm.trans isTarget) ▸ there))
  have output : field.role = .output := by
    refine assigned.resolve_right fun temporary => ?_
    rw [InterfaceField.isParameter, temporary] at parameter
    cases parameter
  have starts := (serves.view found).small_start_of_inside full (fits.volume serves found) inside
  refine outside output ?_
  rw [← same, (serves.view found).onRow_iff starts full]
  exact padded.onRow (flat.halo (List.mem_of_getElem? found) output)

/-! ### Runs on rows of the domain -/

variable {corner : PerAxis Nat} {part : Call} {bound' : BoundCall} {start size : Nat}

/-- A parameter has the same number among the parameters. -/
theorem parameter_of_field (flat : kernel.FlatAlong context demand backend axis) {n : Nat}
    {field : InterfaceField} (found : kernel.interface.fields[n]? = some field)
    (parameter : field.isParameter = true) :
    kernel.interface.parameters[n]? = some field := by
  have split := (flat.planned.shows flat.face.1).2
  rw [split] at found
  by_cases below : n < kernel.interface.parameters.length
  · rwa [List.getElem?_append_left below] at found
  · rw [List.getElem?_append_right (Nat.not_lt.mp below)] at found
    have temporary := (List.mem_filter.mp (List.mem_of_getElem? found)).2
    rw [parameter] at temporary
    cases temporary

theorem field_of_parameter (flat : kernel.FlatAlong context demand backend axis) {n : Nat}
    {field : InterfaceField} (found : kernel.interface.parameters[n]? = some field) :
    kernel.interface.fields[n]? = some field := by
  rw [(flat.planned.shows flat.face.1).2,
    List.getElem?_append_left (List.getElem?_eq_some_iff.mp found).1]
  exact found

/-- The views of a parameter at the start of a run and of one on a part of the domain. -/
theorem parameter_views (flat : kernel.FlatAlong context demand backend axis)
    (on : Call.BoundOn kernel.interface corner call part bound bound') {n : Nat}
    {field : InterfaceField} (isField : kernel.interface.parameters[n]? = some field) :
    ∃ given given', bound.fields[n]? = some given ∧ bound'.fields[n]? = some given' ∧
      (Frame.ofBound kernel.interface bound call.domain).view n = Frame.viewOfBound field given ∧
      (Frame.ofBound kernel.interface bound' part.domain).view n = Frame.viewOfBound field given' ∧
      (given.moved corner).SameOutline given' := by
  have split := (flat.planned.shows flat.face.1).2
  have below : n < bound.fields.length :=
    List.Forall₂.length_eq (Call.bind_boundTo on.passed) ▸ (List.getElem?_eq_some_iff.mp isField).1
  have below' : n < bound'.fields.length := List.Forall₂.length_eq on.fields ▸ below
  have isGiven := List.getElem?_eq_getElem below
  have isGiven' := List.getElem?_eq_getElem below'
  exact ⟨_, _, isGiven, isGiven', Frame.view_ofBound on.passed split isField isGiven _,
    Frame.view_ofBound on.onPart split isField isGiven' _, List.Forall₂.get on.fields below below'⟩

theorem parameter_outline (flat : kernel.FlatAlong context demand backend axis)
    (on : Call.BoundOn kernel.interface corner call part bound bound') {n : Nat}
    {field : InterfaceField} (isField : kernel.interface.parameters[n]? = some field) :
    ((Frame.ofBound kernel.interface bound call.domain).view n).storage.SameOutline
      ((Frame.ofBound kernel.interface bound' part.domain).view n).storage := by
  obtain ⟨given, given', -, -, view, view', same⟩ := flat.parameter_views on isField
  rw [view, view']
  exact same.storage

/-- A run on a part changes outputs only, and only on the rows of the part. -/
theorem untouched_part (flat : kernel.FlatAlong context demand backend axis)
    (on : Call.BoundOn kernel.interface corner call part bound bound')
    (fits : (Frame.ofBound kernel.interface bound call.domain).FitsMemory)
    (small : call.domain.Small) {n : Nat} {field : InterfaceField}
    (isField : kernel.interface.parameters[n]? = some field) {index : Offset}
    (inside : Storage.Inside
      ((Frame.ofBound kernel.interface bound call.domain).view n).storage.shape index)
    (outside : field.role = .output → ¬ part.OnRow axis field index) :
    ((Schedule.runTasks (kernel.schedule.tasks part.domain)
        (.ofBound kernel.interface bound' part.domain)).1.view n).element index =
      ((Frame.ofBound kernel.interface bound' part.domain).view n).element index :=
  flat.untouched on.onPart (fits.onPart on.domain on.fields) (on.domain.small small)
    (flat.field_of_parameter isField) (List.mem_filter.mp (List.mem_of_getElem? isField)).2
    ((flat.parameter_outline on isField).shape ▸ inside) outside

/-! ### Buffers in the end -/

/-- The buffer of a parameter at the start is that of the argument it is bound to. -/
theorem start_storage (flat : kernel.FlatAlong context demand backend axis)
    (passed : call.bind kernel.interface = .ok bound) {n : Nat} {field : InterfaceField}
    {given : BoundField} (isField : kernel.interface.parameters[n]? = some field)
    (isGiven : bound.fields[n]? = some given) :
    call.arguments[given.argument]?.map Argument.storage =
      some ((Frame.ofBound kernel.interface bound call.domain).view n).storage := by
  have boundTo := (List.forall₂_iff_zip.mp (Call.bind_boundTo passed)).2
    (List.mem_of_getElem? (List.getElem?_zip_eq_some.mpr ⟨isField, isGiven⟩))
  obtain ⟨argument, there, same⟩ := boundTo.argument
  rw [Frame.view_ofBound passed (flat.planned.shows flat.face.1).2 isField isGiven, there]
  exact congrArg some same

/-- The buffer of a parameter in the end is that of the argument it is bound to. -/
theorem returned_view (flat : kernel.FlatAlong context demand backend axis)
    (passed : call.bind kernel.interface = .ok bound) {n : Nat} {field : InterfaceField}
    {given : BoundField} (isField : kernel.interface.parameters[n]? = some field)
    (isGiven : bound.fields[n]? = some given) {after : Frame}
    (serves : after.Serves kernel.interface call) :
    (returned bound.fields after.views call.arguments)[given.argument]? =
      call.arguments[given.argument]?.map ({ · with storage := (after.view n).storage }) := by
  have below : n < after.views.length := List.Forall₂.length_eq serves ▸
    (List.getElem?_eq_some_iff.mp (flat.field_of_parameter isField)).1
  refine returned_bound (Call.bind_distinct passed) isGiven ?_
  unfold Frame.view
  rw [List.getD_eq_getElem?_getD, List.getElem?_eq_getElem below, Option.getD_some]

/-- **A run keeps the outlines of all arguments.** -/
theorem returned_sameOutline (flat : kernel.FlatAlong context demand backend axis)
    (passed : call.bind kernel.interface = .ok bound) (tasks : List Schedule.Task) :
    List.Forall₂ Argument.SameOutline call.arguments
      (returned bound.fields
        (Schedule.runTasks tasks (.ofBound kernel.interface bound call.domain)).1.views
        call.arguments) := by
  refine List.forall₂_iff_get.mpr ⟨(length_returned _ _ _).symm, fun number below below' => ?_⟩
  rw [List.get_eq_getElem, List.get_eq_getElem]
  have there := List.getElem?_eq_getElem below
  have there' := List.getElem?_eq_getElem below'
  by_cases isBound : number ∈ bound.fields.map BoundField.argument
  · obtain ⟨n, field, given, isField, isGiven, rfl⟩ := Call.exists_parameter passed isBound
    rw [flat.returned_view passed isField isGiven ((Frame.ofBound_serves passed).runTasks tasks),
      there] at there'
    rw [← Option.some.inj there']
    have start := flat.start_storage passed isField isGiven
    rw [there] at start
    have layout := Schedule.sameLayout_runTasks tasks
      (.ofBound kernel.interface bound call.domain) n
    have same : call.arguments[given.argument].storage = _ := Option.some.inj start
    exact ⟨rfl, ⟨same ▸ layout.shape.symm, same ▸ layout.type.symm⟩, rfl⟩
  · rw [returned_other isBound, there] at there'
    rw [← Option.some.inj there']
    exact ⟨rfl, ⟨rfl, rfl⟩, rfl⟩

/-! ### Domains too large for 64 bits -/

/-- If a domain is too large for 64 bits but its buffers are not, then no task has points, and on
no part of the domain, either. -/
theorem empty_of_large (flat : kernel.FlatAlong context demand backend axis)
    (passed : call.bind kernel.interface = .ok bound)
    (fits : (Frame.ofBound kernel.interface bound call.domain).FitsMemory)
    (large : ¬ call.domain.Small) {corner domain : PerAxis Nat}
    (inside : PerAxis.Part corner domain call.domain) :
    ∀ task ∈ kernel.schedule.tasks domain, task.region.size = 0 := by
  intro task member
  obtain ⟨job, isJob, done⟩ :=
    Steps.exists_left (Schedule.tasks_doneBy flat.face.2 domain) member
  by_contra points
  obtain ⟨p, point⟩ : ∃ p, p ∈ task.region.points := by
    refine List.exists_mem_of_length_pos ?_
    rw [Region.length_points]
    exact Nat.pos_of_ne_zero points
  exact large (small_of_job flat.planned flat.made flat.known passed fits inside isJob
    (done.region ▸ point))

/-- The buffers at the start of a run are those of the arguments. -/
theorem returned_start (flat : kernel.FlatAlong context demand backend axis)
    (passed : call.bind kernel.interface = .ok bound) :
    returned bound.fields (Frame.ofBound kernel.interface bound call.domain).views call.arguments =
      call.arguments := by
  refine List.ext_getElem? fun number => ?_
  by_cases isBound : number ∈ bound.fields.map BoundField.argument
  · obtain ⟨n, field, given, isField, isGiven, rfl⟩ := Call.exists_parameter passed isBound
    obtain ⟨argument, there, same⟩ :=
      Option.map_eq_some_iff.mp (flat.start_storage passed isField isGiven)
    rw [flat.returned_view passed isField isGiven (Frame.ofBound_serves passed), there, ← same]
    rfl
  · exact returned_other isBound

/-- A run without points succeeds and changes nothing. -/
theorem run_of_empty (flat : kernel.FlatAlong context demand backend axis)
    (passed : call.bind kernel.interface = .ok bound)
    (empty : ∀ task ∈ kernel.schedule.tasks call.domain, task.region.size = 0) :
    kernel.run call = (call.arguments, none) := by
  rw [run_of_bound passed (Schedule.runTasks_of_empty empty _), flat.returned_start passed]
  rfl

end Kernel.FlatAlong

end GridStencil
