import GridStencil.Proofs.Kernel.Accesses
import GridStencil.Proofs.Plan

/-!
**No access of a compiled stencil leaves the domain and its padding.**

The paddings of a kernel come from what its program needs at first, which covers everything a live
statement writes or reads (`Demand.BlocksSwept.at_live`). Horizontally this is all there is to it.
Vertically a statement is computed on the planes of the domain only, by the check of intervals; a
read that is not carried is covered by the padding, and a carried one stays in the domain by the
check of reads. A bound call provides buffers that hold the padded domain.

* `Program.job_padded`: the accesses of every job are in the padded domain.
* `Program.job_around`: where a job has points, so has the padded domain, however large it is.
* `Kernel.run_confined`: the accesses of the tasks are all that happens to the buffers of a run.
* `Kernel.halo_safety`: the accesses of every task are in the buffers, and a run fails for planes of
  temporaries only.
-/

namespace GridStencil

/-- The point lies in the domain or in the padding around it. -/
structure Padded (halo : Halo) (domain : PerAxis Nat) (p : Offset) : Prop where
  i : -(halo.i.below : Int) ≤ p.i ∧ p.i < domain.i + halo.i.above
  j : -(halo.j.below : Int) ≤ p.j ∧ p.j < domain.j + halo.j.above
  k : -(halo.k.below : Int) ≤ p.k ∧ p.k < domain.k + halo.k.above

/-- All sizes of a domain are sizes that 64 bits with a sign can hold. -/
structure PerAxis.Small (sizes : PerAxis Nat) : Prop where
  i : (sizes.i : Int) < Number.int64Bound
  j : (sizes.j : Int) < Number.int64Bound
  k : (sizes.k : Int) < Number.int64Bound

namespace PerAxis

theorem small_of_le {sizes bounds : PerAxis Nat} (small : bounds.Small) (i : sizes.i ≤ bounds.i)
    (j : sizes.j ≤ bounds.j) (k : sizes.k ≤ bounds.k) : sizes.Small := by
  obtain ⟨smallI, smallJ, smallK⟩ := small
  exact ⟨by omega, by omega, by omega⟩

/-- No side of a box with points is longer than the box has points. -/
theorem small_of_volume {sizes : PerAxis Nat} (volume : (sizes.volume : Int) < Number.int64Bound)
    (i : 0 < sizes.i) (j : 0 < sizes.j) (k : 0 < sizes.k) : sizes.Small := by
  have rows : sizes.i * sizes.j ≤ sizes.volume := Nat.le_mul_of_pos_right _ k
  have columns : sizes.k ≤ sizes.volume := Nat.le_mul_of_pos_left _ (Nat.mul_pos i j)
  have first : sizes.i ≤ sizes.i * sizes.j := Nat.le_mul_of_pos_right _ j
  have second : sizes.j ≤ sizes.i * sizes.j := Nat.le_mul_of_pos_left _ i
  exact ⟨by omega, by omega, by omega⟩

end PerAxis

/-- No index of a run is changed by its conversion to 64 bits: neither the size of the domain nor
where it starts in a buffer. -/
structure Call.Exact (call : Call) (interface : Interface) : Prop where
  domain : call.domain.Small
  start : ∀ field ∈ interface.fields, (field.start call.origins).Small

namespace Region

theorem mem_grown {extent : Extent} {domain : PerAxis Nat} (small : domain.Small)
    {planes : Stretch} {p : Offset} :
    p ∈ (grown extent domain planes).points ↔
      (extent.i.lo ≤ p.i ∧ p.i < domain.i + extent.i.hi) ∧
      (extent.j.lo ≤ p.j ∧ p.j < domain.j + extent.j.hi) ∧ p.k ∈ planes.toList := by
  rw [mem_points]
  unfold grown
  rw [Number.wrapped_of_lt small.i, Number.wrapped_of_lt small.j, Stretch.mem_toList,
    Stretch.mem_toList]

end Region

/-! ### Jobs -/

/-- A point within an extent around the domain is in the padding of every larger extent, if it is on
a plane that is covered. -/
theorem padded_of_within {extent whole : Extent} (within : extent.Within whole)
    {domain : PerAxis Nat} {p : Offset} (i : extent.i.lo ≤ p.i ∧ p.i < domain.i + extent.i.hi)
    (j : extent.j.lo ≤ p.j ∧ p.j < domain.j + extent.j.hi)
    (k : min whole.k.lo 0 ≤ p.k ∧ p.k < domain.k + max whole.k.hi 0) :
    Padded whole.halo domain p := by
  obtain ⟨withinI, withinJ, -⟩ := within
  refine ⟨?_, ?_, ?_⟩
  · simp only [Extent.halo, OffsetRange.padding]
    omega
  · simp only [Extent.halo, OffsetRange.padding]
    omega
  · simp only [Extent.halo, OffsetRange.padding]
    omega

/-- A range of offsets with points around a stretch needs one of them, or a point of the stretch. -/
theorem OffsetRange.around {range whole : OffsetRange} {size : Nat} {p : Int}
    (point : p ∈ (⟨range.lo, Number.wrapped size + range.hi⟩ : Stretch).toList)
    (within : whole.lo ≤ range.lo ∧ range.hi ≤ whole.hi) :
    0 < whole.padding.below + size + whole.padding.above := by
  obtain ⟨above, below⟩ := Stretch.mem_toList.mp point
  unfold padding
  dsimp only at above below ⊢
  rcases Nat.eq_zero_or_pos size with rfl | positive
  · have zero : Number.wrapped ((0 : Nat) : Int) = 0 := rfl
    rw [zero] at below
    omega
  · omega

namespace Program

/-- **All accesses of a job are in the padded domain**, and it writes on planes of the domain. -/
theorem job_padded {context : Context} (planned : context.Planned) {demand : Demand}
    (known : context.demand = some demand) {domain : PerAxis Nat} (small : domain.Small)
    (enough : context.minPlanes ≤ domain.k) {job : Job}
    (member : job ∈ context.program.jobs demand domain) {p : Offset}
    (point : p ∈ job.region.points) :
    (0 ≤ p.k ∧ p.k < domain.k) ∧ Padded (demand.halo job.statement.target) domain p ∧
      ∀ read ∈ job.statement.reads, (∃ field ∈ context.program.fields, field.name = read.field) →
        Padded (demand.halo read.field) domain (p.add read.offset) := by
  obtain ⟨other, known', found⟩ := planned.demand
  obtain rfl : demand = other := Option.some.inj (known.symm.trans known')
  obtain ⟨needs, swept, declared⟩ := Demand.ofProgram?_swept found
  have halo : ∀ field ∈ context.program.fields, ∀ whole, needs.get? field.name = some whole →
      demand.halo field.name = whole.halo := by
    intro field inside whole needed
    unfold Demand.halo
    rw [declared field inside, needed]
  obtain ⟨block, b, inProgram, part, inBlock, inPart, position, positioned, extent, live, planes,
    same, inside⟩ := mem_jobs member
  obtain ⟨⟨needed, horizontal, hasTarget, -⟩, hasReads⟩ :=
    swept.at_live inProgram positioned live
  have blockMember : block ∈ context.program.blocks :=
    List.mem_of_getElem? (List.mk_mem_zipIdx_iff_getElem?.mp inProgram)
  have valid := (Check.intervals_allows small.k planned.wellFormed
    (planned.intervals.mono enough) block blockMember).valid part inBlock
  -- the plane is one of the interval, hence one of the domain
  rw [same] at point
  obtain ⟨inI, inJ, inK⟩ := (Region.mem_grown small).mp point
  have plane := Stretch.mem_toList.mp (inside p.k inK)
  obtain ⟨bottom, -, top⟩ := valid
  have above : part.interval.start.resolve domain.k ≤ p.k := plane.1
  have below : p.k < part.interval.stop.resolve domain.k := plane.2
  refine ⟨⟨by omega, by omega⟩, ?_, fun read isRead ⟨field, fieldMember, named⟩ => ?_⟩
  · obtain ⟨field, fieldMember, named, -, -⟩ :=
      planned.wellFormed.targets block blockMember part inBlock job.statement inPart
    obtain ⟨whole, neededThere, within⟩ := hasTarget
    rw [← named] at neededThere ⊢
    rw [halo field fieldMember whole neededThere]
    rw [horizontal] at inI inJ
    exact padded_of_within within inI inJ ⟨by omega, by omega⟩
  · obtain ⟨whole, neededThere, within⟩ := hasReads read isRead
    rw [← named] at neededThere ⊢
    rw [halo field fieldMember whole neededThere]
    have moved : ∀ carried,
        let reached := extent.moved (Demand.reach carried read.offset)
        (reached.i.lo ≤ p.i + read.offset.i ∧
          p.i + read.offset.i < domain.i + reached.i.hi) ∧
        reached.j.lo ≤ p.j + read.offset.j ∧
          p.j + read.offset.j < domain.j + reached.j.hi := by
      intro carried
      cases carried with
      | true =>
        simp only [Extent.moved, Demand.reach, Offset.horizontal, if_true]
        omega
      | false =>
        simp only [Extent.moved, Demand.reach, Bool.false_eq_true, if_false]
        omega
    refine padded_of_within within (moved _).1 (moved _).2 ?_
    cases carried : read.isCarried block.writes block.policy with
    | true =>
      have stays := Check.ordering_allows small.k (planned.ordering.mono enough) blockMember inBlock
        ⟨bottom, by omega, top⟩ inPart isRead carried above below
      simp only [Offset.add]
      omega
    | false =>
      have reaches := within.k
      rw [carried, horizontal] at reaches
      simp only [Extent.moved, Extent.horizontal, Demand.reach, Bool.false_eq_true, if_false]
        at reaches
      simp only [Offset.add]
      omega

/-- Where a job has points, the domain and the padding of its target have some. This is so in any
domain, however large. -/
theorem job_around {context : Context} (planned : context.Planned) {demand : Demand}
    (known : context.demand = some demand) {domain : PerAxis Nat}
    (enough : context.minPlanes ≤ domain.k) {job : Job}
    (member : job ∈ context.program.jobs demand domain) {p : Offset}
    (point : p ∈ job.region.points) :
    0 < (demand.halo job.statement.target).i.below + domain.i +
        (demand.halo job.statement.target).i.above ∧
      0 < (demand.halo job.statement.target).j.below + domain.j +
        (demand.halo job.statement.target).j.above ∧ 0 < domain.k := by
  obtain ⟨other, known', found⟩ := planned.demand
  obtain rfl : demand = other := Option.some.inj (known.symm.trans known')
  obtain ⟨needs, swept, declared⟩ := Demand.ofProgram?_swept found
  obtain ⟨block, b, inProgram, part, inBlock, inPart, position, positioned, extent, live, planes,
    same, -⟩ := mem_jobs member
  obtain ⟨⟨needed, horizontal, ⟨whole, neededThere, within⟩, -⟩, -⟩ :=
    swept.at_live inProgram positioned live
  have blockMember : block ∈ context.program.blocks :=
    List.mem_of_getElem? (List.mk_mem_zipIdx_iff_getElem?.mp inProgram)
  obtain ⟨field, fieldMember, named, -, -⟩ :=
    planned.wellFormed.targets block blockMember part inBlock job.statement inPart
  have halo : demand.halo job.statement.target = whole.halo := by
    rw [← named] at neededThere ⊢
    unfold Demand.halo
    rw [declared field fieldMember, neededThere]
  rw [same, Region.mem_points, horizontal] at point
  rw [halo]
  refine ⟨OffsetRange.around point.1 within.i, OffsetRange.around point.2.1 within.j, ?_⟩
  refine Nat.pos_of_ne_zero fun none => ?_
  have small : (domain.k : Int) < Number.int64Bound := by rw [none]; decide
  obtain ⟨bottom, above, top⟩ := (Check.intervals_allows small planned.wellFormed
    (planned.intervals.mono enough) block blockMember).valid part inBlock
  omega

end Program

/-! ### Buffers -/

/-- The index lies in the box of a buffer that holds the domain, which starts at `origin`, and the
padding around it. -/
structure InBox (halo : Halo) (origin domain : PerAxis Nat) (index : Offset) : Prop where
  i : (origin.i : Int) - halo.i.below ≤ index.i ∧ index.i < origin.i + domain.i + halo.i.above
  j : (origin.j : Int) - halo.j.below ≤ index.j ∧ index.j < origin.j + domain.j + halo.j.above
  k : (origin.k : Int) - halo.k.below ≤ index.k ∧ index.k < origin.k + domain.k + halo.k.above

theorem Offset.wrapped_of_small {index : PerAxis Nat} (small : index.Small) :
    Offset.wrapped index = ⟨index.i, index.j, index.k⟩ := by
  unfold wrapped
  rw [Number.wrapped_of_lt small.i, Number.wrapped_of_lt small.j, Number.wrapped_of_lt small.k]

namespace View

/-- Where a point of the grid lies in the buffer of a field with axes. -/
theorem Serves.index_eq {call : Call} {field : InterfaceField} {view : View}
    (serves : view.Serves call field) (small : (field.start call.origins).Small)
    (full : field.dimensions = .ijk) (p : Offset) :
    view.index p = ⟨(field.start call.origins).i + p.i,
      (field.start call.origins).j + p.j, (field.start call.origins).k + p.k⟩ := by
  have notZero : view.zeroDim = false := by
    rw [← Bool.not_eq_true, serves.zeroDim, full]
    exact fun absurd => nomatch absurd
  unfold View.index
  rw [if_neg (by rw [notZero]; exact Bool.false_ne_true), serves.origin,
    Offset.wrapped_of_small small]
  rfl

/-- **A point of the padded domain is inside the buffer**, in the box that the domain and the
padding take up there. -/
theorem Serves.contains {call : Call} {field : InterfaceField} {view : View}
    (serves : view.Serves call field) (small : (field.start call.origins).Small)
    (full : field.dimensions = .ijk) {p : Offset} (padded : Padded field.halo call.domain p) :
    view.Contains p ∧ InBox field.halo (field.start call.origins) call.domain (view.index p) := by
  obtain ⟨⟨belowI, aboveI⟩, ⟨belowJ, aboveJ⟩, ⟨belowK, aboveK⟩⟩ := serves.covers full
  obtain ⟨i, j, k⟩ := padded
  unfold View.Contains
  rw [serves.index_eq small full]
  refine ⟨⟨⟨?_, ?_⟩, ⟨?_, ?_⟩, ?_, ?_⟩, ⟨?_, ?_, ?_⟩⟩ <;> simp only <;> omega

theorem Serves.contains_zero {call : Call} {field : InterfaceField} {view : View}
    (serves : view.Serves call field) (zero : field.dimensions = .zero) (p : Offset) :
    view.Contains p := by
  have point := serves.zeroDim.mpr zero
  unfold View.Contains View.index
  rw [if_pos point]
  exact serves.point.inside point

end View

namespace Interface

theorem slot?_eq_some {interface : Interface} {name : String} {slot : Nat}
    (found : interface.slot? name = some slot) :
    ∃ field, interface.fields[slot]? = some field ∧ field.name = name := by
  obtain ⟨below, named, -⟩ := List.findIdx?_eq_some_iff_getElem.mp found
  exact ⟨_, List.getElem?_eq_getElem below, beq_iff_eq.mp named⟩

/-- Fields with the same number have the same name. -/
theorem slot?_inj {interface : Interface} {name other : String} {slot : Nat}
    (found : interface.slot? name = some slot) (found' : interface.slot? other = some slot) :
    name = other := by
  obtain ⟨field, there, rfl⟩ := slot?_eq_some found
  obtain ⟨field', there', rfl⟩ := slot?_eq_some found'
  rw [Option.some.inj (there.symm.trans there')]

/-- A field of the interface is one of the program, with the padding that the demand asks for. -/
theorem field_of_getElem? {context : Context} {interface : Interface} {demand : Demand}
    (known : context.demand = some demand) (face : ofContext? context = .ok interface) {slot : Nat}
    {field : InterfaceField} (found : interface.fields[slot]? = some field) :
    field.halo = demand.halo field.name ∧ ∃ declared ∈ context.program.fields,
      declared.name = field.name ∧ declared.dimensions = field.dimensions ∧
        declared.role = field.role := by
  rw [(ofContext?_eq_ok known face).1, List.getElem?_map] at found
  obtain ⟨declared, there, rfl⟩ := Option.map_eq_some_iff.mp found
  exact ⟨rfl, declared, List.mem_of_getElem? there, rfl, rfl, rfl⟩

end Interface

/-! ### Tasks -/

/-- All accesses of a task are to declared fields, at points of the padded domain, and it writes to
the planes of the domain, of a field that may be written. -/
structure Schedule.Task.Guarded (interface : Interface) (domain : PerAxis Nat) (task : Task) :
    Prop where
  reads : ∀ access ∈ task.reads, ∃ field, interface.fields[access.1]? = some field ∧
    Padded field.halo domain access.2
  writes : ∃ field, interface.fields[task.stage.target]? = some field ∧
    field.dimensions = .ijk ∧ (field.role = .output ∨ field.role = .temporary) ∧
    ∀ access ∈ task.writes, access.1 = task.stage.target ∧ Padded field.halo domain access.2 ∧
      0 ≤ access.2.k ∧ access.2.k < domain.k

namespace Kernel

section

variable {context : Context} {backend : Backend} {kernel : Kernel} {call : Call} {demand : Demand}

/-- **Every task of a planned kernel is guarded.** -/
theorem task_guarded (planned : context.Planned) (known : context.demand = some demand)
    (face : Interface.ofContext? context = .ok kernel.interface)
    (scheduled : Schedule.ofProgram? backend kernel.interface context.program demand =
      .ok kernel.schedule)
    (small : call.domain.Small) (enough : context.minPlanes ≤ call.domain.k)
    {task : Schedule.Task} (member : task ∈ kernel.schedule.tasks call.domain) :
    task.Guarded kernel.interface call.domain := by
  obtain ⟨job, isJob, done⟩ :=
    Steps.exists_left (Schedule.tasks_doneBy scheduled call.domain) member
  have padded := fun p (point : p ∈ task.region.points) =>
    Program.job_padded planned known small enough isJob (done.region ▸ point)
  refine ⟨fun access inReads => ?_, ?_⟩
  · obtain ⟨p, point, inReads⟩ := List.mem_flatMap.mp inReads
    obtain ⟨⟨slot, offset⟩, inCode, rfl⟩ := List.mem_map.mp inReads
    obtain ⟨backend, compiled⟩ := done.code
    obtain ⟨read, isRead, found, rfl⟩ := Code.reads_mean compiled _ inCode
    obtain ⟨field, there, named⟩ := Interface.slot?_eq_some found
    obtain ⟨halo, declared, inProgram, named', -, -⟩ :=
      Interface.field_of_getElem? known face there
    refine ⟨field, there, ?_⟩
    have inside := (padded p point).2.2 read isRead ⟨declared, inProgram, named'.trans named⟩
    rw [halo, named]
    exact inside
  · obtain ⟨field, there, named⟩ := Interface.slot?_eq_some done.target
    obtain ⟨halo, -⟩ := Interface.field_of_getElem? known face there
    obtain ⟨block, b, inBlocks, part, inBlock, inPart, -⟩ := Program.mem_jobs isJob
    obtain ⟨full, assigned⟩ := Interface.target_of_ofContext? planned known face
      (List.mem_of_getElem? (List.mk_mem_zipIdx_iff_getElem?.mp inBlocks)) inBlock inPart
      (List.mem_of_getElem? there) named
    refine ⟨field, there, full, ?_, fun access inWrites => ?_⟩
    · cases roleIs : field.role with
      | input => exact absurd roleIs assigned
      | output => exact .inl rfl
      | temporary => exact .inr rfl
    · obtain ⟨p, point, rfl⟩ := List.mem_map.mp inWrites
      obtain ⟨plane, inside, -⟩ := padded p point
      refine ⟨rfl, ?_, plane⟩
      rw [halo, named]
      exact inside

/-- All accesses of a guarded task are inside their buffers. -/
theorem contains_of_padded {frame : Frame} (serves : frame.Serves kernel.interface call)
    (exact : call.Exact kernel.interface) {slot : Nat} {field : InterfaceField} {p : Offset}
    (found : kernel.interface.fields[slot]? = some field)
    (padded : Padded field.halo call.domain p) : (frame.view slot).Contains p := by
  cases dimensions : field.dimensions with
  | zero => exact (serves.view found).contains_zero dimensions p
  | ijk =>
    exact ((serves.view found).contains (exact.start field (List.mem_of_getElem? found)) dimensions
      padded).1

/-- A guarded task fails for planes of temporaries only. -/
theorem runTask_fails_for_plane {frame : Frame} (serves : frame.Serves kernel.interface call)
    (exact : call.Exact kernel.interface) {task : Schedule.Task}
    (guarded : task.Guarded kernel.interface call.domain) {cause : Cause}
    (failed : (Schedule.runTask task frame).2 = some cause) :
    ∃ field ∈ kernel.interface.fields, field.role = .temporary ∧
      ∃ k, cause = .planeNotComputed field.name k := by
  obtain ⟨target, there, full, assigned, writes⟩ := guarded.writes
  obtain ⟨access, inReads, k, lacks, rfl⟩ := Schedule.runTask_failure
    (fun access inReads => by
      obtain ⟨field, found, padded⟩ := guarded.reads access inReads
      exact contains_of_padded serves exact found padded)
    (fun access inWrites => by
      obtain ⟨same, padded, -⟩ := writes access inWrites
      exact contains_of_padded serves exact (same ▸ there) padded)
    ((serves.view there).writable assigned) failed
  obtain ⟨field, found, -⟩ := guarded.reads access inReads
  refine ⟨field, List.mem_of_getElem? found, ?_, k, ?_⟩
  · refine (serves.view found).temporary ?_
    unfold View.lacks at lacks
    split at lacks
    · cases lacks
    next planes known => exact known ▸ rfl
  · rw [(serves.view found).name]

/-- **A run of guarded tasks fails for planes of temporaries only.** -/
theorem runTasks_fails_for_plane {frame : Frame} (serves : frame.Serves kernel.interface call)
    (exact : call.Exact kernel.interface) {tasks : List Schedule.Task}
    (guarded : ∀ task ∈ tasks, task.Guarded kernel.interface call.domain) {cause : Cause}
    (failed : (Schedule.runTasks tasks frame).2 = some cause) :
    ∃ field ∈ kernel.interface.fields, field.role = .temporary ∧
      ∃ k, cause = .planeNotComputed field.name k := by
  induction tasks generalizing frame with
  | nil => cases failed
  | cons task rest ih =>
    rw [List.forall_mem_cons] at guarded
    unfold Schedule.runTasks at failed
    have after := serves.runTask task
    split at failed
    next next ran =>
      rw [ran] at after
      exact ih after guarded.2 failed
    next next other ran =>
      have here : (Schedule.runTask task frame).2 = some other := by rw [ran]
      cases failed
      exact runTask_fails_for_plane serves exact guarded.1 here

/-- **A run of a planned kernel on a bound call fails for planes of temporaries only.** -/
theorem run_fails_for_plane (planned : context.Planned)
    (made : ofContext? backend context = .ok kernel)
    {bound : BoundCall} (passed : call.bind kernel.interface = .ok bound)
    (exact : call.Exact kernel.interface) {error : Error}
    (failed : (kernel.run call).2 = some error) :
    ∃ field ∈ kernel.interface.fields, field.role = .temporary ∧
      ∃ k, error = .ofCause (.planeNotComputed field.name k) := by
  obtain ⟨demand, known, face, scheduled⟩ := ofContext?_eq_ok made
  have enough : context.minPlanes ≤ call.domain.k :=
    (Interface.ofContext?_eq_ok known face).2.2 ▸ Call.bind_planes passed
  have ran : (kernel.run call).2 = (Schedule.runTasks (kernel.schedule.tasks call.domain)
      (.ofBound kernel.interface bound call.domain)).2.map .ofCause := by
    unfold run
    rw [passed]
  rw [ran] at failed
  obtain ⟨cause, failedThere, rfl⟩ := Option.map_eq_some_iff.mp failed
  obtain ⟨field, declared, temporary, k, rfl⟩ := runTasks_fails_for_plane
    (Frame.ofBound_serves passed) exact
    (fun task member => task_guarded planned known face scheduled exact.domain enough member)
    failedThere
  exact ⟨field, declared, temporary, k, rfl⟩

end

/-- An access of a run is inside its buffer; in a buffer that the caller provides for a field with
axes, it is in the box of the domain and the padding around it. -/
def Safe (kernel : Kernel) (call : Call) (bound : BoundCall) (access : Nat × Offset) : Prop :=
  ∃ field, kernel.interface.fields[access.1]? = some field ∧
    ((Frame.ofBound kernel.interface bound call.domain).view access.1).Contains access.2 ∧
    (field.dimensions = .ijk → field.isParameter = true →
      InBox field.halo (call.origins.of field.name) call.domain
        (((Frame.ofBound kernel.interface bound call.domain).view access.1).index access.2))

/-- **The accesses of tasks are all that happens to the buffers of a run.** Every task is confined to
its accesses on the frame that it finds, and an element that a run leaves changed, whether it fails or
not, is one that a task writes. -/
theorem run_confined (kernel : Kernel) {call : Call} {bound : BoundCall}
    (passed : call.bind kernel.interface = .ok bound) :
    (∀ before task after, kernel.schedule.tasks call.domain = before ++ task :: after →
      task.Confined
        (Schedule.runTasks before (.ofBound kernel.interface bound call.domain)).1) ∧
    ∀ slot index, Storage.Inside
        ((Frame.ofBound kernel.interface bound call.domain).view slot).storage.shape index →
      ((Schedule.runTasks (kernel.schedule.tasks call.domain)
          (.ofBound kernel.interface bound call.domain)).1.view slot).element index ≠
        ((Frame.ofBound kernel.interface bound call.domain).view slot).element index →
      ∃ task ∈ kernel.schedule.tasks call.domain, ∃ p, (slot, p) ∈ task.writes ∧
        ((Frame.ofBound kernel.interface bound call.domain).view slot).index p = index := by
  have serves := Frame.ofBound_serves passed
  refine ⟨fun before task after _ => (serves.runTasks before).confined task, ?_⟩
  intro slot index inside changed
  by_contra nowhere
  refine changed (Schedule.runTasks_untouched inside ?_)
  rintro task member ⟨_, p⟩ write rfl here
  exact nowhere ⟨task, member, p, write, here⟩

/-- **Halo safety.** Whatever a compiled stencil reads or writes in a run on a bound call is inside
its buffer, and in the buffers of parameters in the box of the domain and the padding around it;
writes go to planes of the domain. The only failure of a run is that a plane of a temporary has not
been computed. -/
theorem halo_safety {definition : Definition} {externals : Externals} {backend : Backend}
    {signature : Signature} {context : Context} {kernel : Kernel}
    (compiled : (Registry.compile definition externals backend signature).value =
      .ok (context, kernel))
    {call : Call} {bound : BoundCall} (passed : call.bind kernel.interface = .ok bound)
    (exact : call.Exact kernel.interface) :
    (∀ task ∈ kernel.schedule.tasks call.domain,
      (∀ access ∈ task.reads ++ task.writes, kernel.Safe call bound access) ∧
      ∀ access ∈ task.writes, 0 ≤ access.2.k ∧ access.2.k < call.domain.k) ∧
    ∀ error, (kernel.run call).2 = some error →
      ∃ field ∈ kernel.interface.fields, field.role = .temporary ∧
        ∃ k, error = .ofCause (.planeNotComputed field.name k) := by
  obtain ⟨planned, made⟩ := Registry.compile_eq_ok compiled
  refine ⟨fun task member => ?_, fun error => run_fails_for_plane planned made passed exact⟩
  obtain ⟨demand, known, face, scheduled⟩ := ofContext?_eq_ok made
  have enough : context.minPlanes ≤ call.domain.k :=
    (Interface.ofContext?_eq_ok known face).2.2 ▸ Call.bind_planes passed
  have guarded := task_guarded planned known face scheduled exact.domain enough member
  have serves := Frame.ofBound_serves passed
  have safe : ∀ slot field p, kernel.interface.fields[slot]? = some field →
      Padded field.halo call.domain p → kernel.Safe call bound (slot, p) := by
    intro slot field p found padded
    refine ⟨field, found, contains_of_padded serves exact found padded, fun full parameter => ?_⟩
    have box := ((serves.view found).contains (exact.start field (List.mem_of_getElem? found)) full
      padded).2
    unfold InterfaceField.start at box
    rwa [if_pos parameter] at box
  obtain ⟨target, there, -, -, writes⟩ := guarded.writes
  refine ⟨fun access inside => ?_, fun access inWrites => (writes access inWrites).2.2⟩
  rcases List.mem_append.mp inside with inReads | inWrites
  · obtain ⟨field, found, padded⟩ := guarded.reads access inReads
    exact safe _ field _ found padded
  · obtain ⟨same, padded, -⟩ := writes access inWrites
    exact safe _ target _ (same ▸ there) padded

end Kernel

/-! ### Samples -/

namespace Sample

open Definition (noSpan)

/-- A definition with an input `a` and an output `b`. -/
def definition (computations : List Definition.Computation) : Definition where
  source := ⟨"", ""⟩
  name := "sample"
  fields := [⟨"a", .f64, .ijk, noSpan⟩, ⟨"b", .f64, .ijk, noSpan⟩]
  scalars := []
  externals := []
  computations
  span := noSpan

/-- The statements of a computation on one interval. -/
def computation (policy : String) (lower upper : Definition.Bound)
    (body : List (String × Definition.Expr)) : Definition.Computation :=
  ⟨policy, [⟨.between lower upper,
    body.map fun (target, value) => .assign target none value noSpan, noSpan⟩], noSpan⟩

/-- A field at an offset. -/
def access (name : String) (i k : Int) : Definition.Expr := .access name ⟨i, 0, k⟩ noSpan

/-- An output that is summed up from plane to plane, from a temporary next to the domain. -/
def sums : Definition := definition [
  computation "FORWARD" (.int 0) (.int 1) [("t", access "a" 1 0), ("b", access "t" (-1) 0)],
  computation "FORWARD" (.int 1) .top [("t", access "a" 0 0),
    ("b", .binary .add (access "b" 0 (-1)) (access "t" (-1) 0) noSpan)]]

/-- A temporary that is read on a plane on which it was not computed. -/
def gap : Definition := definition [
  computation "PARALLEL" (.int 1) .top [("t", access "a" 0 0)],
  computation "PARALLEL" (.int 0) (.int 1) [("b", access "t" 0 0)]]

/-- A call with buffers full of zeros, and one point of padding around `a`. -/
def call : Call where
  arguments := [⟨none, .zeros ⟨3, 1, 2⟩ .f64, false⟩, ⟨none, .zeros ⟨1, 1, 2⟩ .f64, true⟩]
  scalars := []
  origins := ⟨.all 0, Name.Table.empty.insert "a" ⟨1, 0, 0⟩⟩
  domain := ⟨1, 1, 2⟩

/-- Whether a definition compiles, the call is bound, and the run succeeds as expected. The origins
are small, and `b` is an output. -/
def runs (definition : Definition) (backend : Backend) (succeeds : Bool) : Bool :=
  match (Registry.compile definition .empty backend .empty).value with
  | .error _ => false
  | .ok (_, kernel) =>
    (call.bind kernel.interface).isOk && (kernel.run call).2.isNone == succeeds &&
      (kernel.interface.fields.all fun field =>
        (field.start call.origins).toList.all fun n => decide (n < 2)) &&
      kernel.interface.parameters.any fun field => field.name = "b" ∧ field.role = .output

theorem of_runs {definition : Definition} {backend : Backend} {succeeds : Bool}
    (runs : runs definition backend succeeds = true) :
    ∃ context kernel bound,
      (Registry.compile definition .empty backend .empty).value = .ok (context, kernel) ∧
      call.bind kernel.interface = .ok bound ∧ call.Exact kernel.interface ∧
      (kernel.run call).2.isNone = succeeds ∧
      ∃ field ∈ kernel.interface.parameters, field.name = "b" ∧ field.role = .output := by
  unfold Sample.runs at runs
  split at runs
  · cases runs
  next context kernel compiled =>
    simp only [Bool.and_eq_true, beq_iff_eq, List.all_eq_true, List.any_eq_true,
      decide_eq_true_eq] at runs
    obtain ⟨⟨⟨isBound, outcome⟩, starts⟩, field, member, named, output⟩ := runs
    cases passed : call.bind kernel.interface with
    | error cause =>
      rw [passed] at isBound
      cases isBound
    | ok bound =>
      refine ⟨context, kernel, bound, compiled, passed, ⟨⟨by decide, by decide, by decide⟩, ?_⟩,
        outcome, field, member, named, output⟩
      intro field member
      have small : ∀ n : Nat, n < 2 → (n : Int) < Number.int64Bound := by
        intro n below
        unfold Number.int64Bound
        omega
      have all := starts field member
      exact ⟨small _ (all _ (by simp [PerAxis.toList])), small _ (all _ (by simp [PerAxis.toList])),
        small _ (all _ (by simp [PerAxis.toList]))⟩

theorem runs_sums (backend : Backend) : runs sums backend true = true := by
  cases backend <;> decide +kernel

theorem runs_gap (backend : Backend) : runs gap backend false = true := by
  cases backend <;> decide +kernel

end Sample

namespace Kernel

/-- A run that fails for a plane of a temporary, and is safe until then. -/
theorem halo_safety_gap : ∃ (kernel : Kernel) (bound : BoundCall),
    Sample.call.bind kernel.interface = .ok bound ∧
    (∀ task ∈ kernel.schedule.tasks Sample.call.domain,
      ∀ access ∈ task.reads ++ task.writes, kernel.Safe Sample.call bound access) ∧
    ∃ error, (kernel.run Sample.call).2 = some error ∧
      ∃ field ∈ kernel.interface.fields, field.role = .temporary ∧
        ∃ k, error = .ofCause (.planeNotComputed field.name k) := by
  obtain ⟨context, kernel, bound, compiled, passed, exact, fails, -⟩ :=
    Sample.of_runs (Sample.runs_gap .debug)
  obtain ⟨safe, onlyPlanes⟩ := halo_safety compiled passed exact
  obtain ⟨error, failed⟩ := Option.isSome_iff_exists.mp (Option.isNone_eq_false_iff.mp fails)
  exact ⟨kernel, bound, passed, fun task member => (safe task member).1, error, failed,
    onlyPlanes error failed⟩

end Kernel

end GridStencil
