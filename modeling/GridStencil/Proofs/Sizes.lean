import GridStencil.Proofs.Demand.Ordered
import GridStencil.Proofs.Kernel.Admission
import GridStencil.Proofs.Kernel.Rows
import GridStencil.Proofs.Storage

/-!
**Which bound calls there is room for.**

Binding compares the buffers of a call with what their parameters need, so whatever is computed from
them fits. What temporaries need follows from the domain and the offsets of the text alone and is
never compared with anything: where there is no room for it, a run is stopped, although the call is
bound. Where there is room for the temporaries, everything else fits, as long as all sides of what
the fields need are words with a sign; only empty domains have longer ones.

* `Frame.layOut_eq_ok`: when the temporaries can be made.
* `Schedule.steps_eq`: when nothing stops the program between the tasks of a schedule.
* `Kernel.layout_exact`: what becomes of a call, by whether it is bound and has room.
-/

namespace GridStencil

/-- The box that holds the domain and the padding that a field needs around it. -/
def InterfaceField.needs (field : InterfaceField) (domain : PerAxis Nat) : PerAxis Nat :=
  ⟨Frame.padded domain.i field.halo.i, Frame.padded domain.j field.halo.j,
    Frame.padded domain.k field.halo.k⟩

/-- A buffer of this shape has room in memory: its sides, columns and bytes can be counted. -/
structure PerAxis.HasRoom (shape : PerAxis Nat) : Prop where
  i : shape.i < Number.wordCount
  j : shape.j < Number.wordCount
  k : shape.k < Number.wordCount
  columns : shape.i * shape.j < Number.wordCount
  bytes : ((8 * shape.volume : Nat) : Int) < Number.int64Bound

/-- All coordinates of a point are words with a sign. -/
structure Offset.InRange (p : Offset) : Prop where
  i : Number.InRange p.i
  j : Number.InRange p.j
  k : Number.InRange p.k

/-- There is room for the temporaries: for their elements, and for the record of their planes. -/
def Interface.HasRoom (interface : Interface) (domain : PerAxis Nat) : Prop :=
  ∀ field ∈ interface.fields, field.isParameter = false → field.dimensions = .ijk →
    (field.needs domain).HasRoom ∧ ((field.needs domain).k : Int) < Number.int64Bound

/-- All sides of the domain, and of what fields need around it, are words with a sign. -/
structure Interface.Narrow (interface : Interface) (domain : PerAxis Nat) : Prop where
  size : domain.Small
  needs : ∀ field ∈ interface.fields, field.dimensions = .ijk → (field.needs domain).Small

/-- The place of an access: in a field with axes it is found by adding words with a sign, and it is
a word without one. -/
structure Kernel.Located (kernel : Kernel) (call : Call) (bound : BoundCall)
    (access : Nat × Offset) (field : InterfaceField) : Prop where
  found : kernel.interface.fields[access.1]? = some field
  point : field.dimensions = .ijk → access.2.InRange
  index : field.dimensions = .ijk →
    let index := ((Frame.ofBound kernel.interface bound call.domain).view access.1).index access.2
    index = (Storage.offsetOf (field.start call.origins)).add access.2 ∧ index.InRange
  place : ∃ place < Number.wordCount,
    let view := (Frame.ofBound kernel.interface bound call.domain).view access.1
    view.storage.place? (view.index access.2) = some place

/-- The sizes and places of a bound call that there is room for. -/
structure Kernel.LaidOut (kernel : Kernel) (call : Call) (bound : BoundCall) : Prop where
  /-- All buffers have room, so their elements can be counted. -/
  buffers : ∀ view ∈ (Frame.ofBound kernel.interface bound call.domain).views,
    view.storage.shape.HasRoom
  accesses : ∀ task ∈ kernel.schedule.tasks call.domain, ∀ access ∈ task.reads ++ task.writes,
    ∃ field, kernel.Located call bound access field
  /-- Domains with points are narrow. -/
  narrow : (∃ field ∈ kernel.interface.fields, field.dimensions = .ijk) →
    0 < call.domain.i → 0 < call.domain.j → 0 < call.domain.k →
      kernel.interface.Narrow call.domain
  regions : kernel.interface.Narrow call.domain →
    ∀ task ∈ kernel.schedule.tasks call.domain, task.region.count = .ok task.region.size
  /-- Nothing stops the run. -/
  execute : kernel.interface.Narrow call.domain → kernel.execute call = .ok (kernel.run call)

/-! ### Room -/

theorem Number.inRange_natCast {n : Nat} : InRange n ↔ (n : Int) < int64Bound := by
  unfold InRange int64Bound
  omega

namespace PerAxis

variable {a b shape : PerAxis Nat}

theorem HasRoom.of_le (room : b.HasRoom) (i : a.i ≤ b.i) (j : a.j ≤ b.j) (k : a.k ≤ b.k) :
    a.HasRoom where
  i := Nat.lt_of_le_of_lt i room.i
  j := Nat.lt_of_le_of_lt j room.j
  k := Nat.lt_of_le_of_lt k room.k
  columns := Nat.lt_of_le_of_lt (Nat.mul_le_mul i j) room.columns
  bytes := Int.lt_of_le_of_lt (Int.ofNat_le.mpr (Nat.mul_le_mul_left 8 (volume_le i j k)))
    room.bytes

theorem HasRoom.volume (room : shape.HasRoom) : (shape.volume : Int) < Number.int64Bound := by
  have bytes := room.bytes
  omega

theorem hasRoom_pointShape : Storage.pointShape.HasRoom :=
  ⟨by decide, by decide, by decide, by decide, by decide⟩

end PerAxis

/-- A point of a buffer has a place that is a word, if the elements can be counted. -/
theorem View.Contains.exists_place {view : View} {p : Offset} (inside : view.Contains p)
    (volume : (view.storage.shape.volume : Int) < Number.int64Bound) :
    ∃ place < Number.wordCount, view.storage.place? (view.index p) = some place := by
  have below := Storage.spot_lt inside
  refine ⟨_, ?_, Storage.place?_eq_some.mpr ⟨inside, rfl⟩⟩
  unfold Number.int64Bound at volume
  unfold Number.wordCount
  omega

/-! ### Temporaries -/

namespace Frame

variable {domain : PerAxis Nat} {field : InterfaceField} {interface : Interface}

theorem side_eq_ok {size n : Nat} {padding : Padding} :
    side size padding = .ok n ↔
      padded size padding < Number.wordCount ∧ padded size padding = n := by
  unfold side padded
  rw [Steps.bind_eq_ok]
  constructor
  · rintro ⟨sum, first, second⟩
    obtain ⟨-, rfl⟩ := Number.plus_eq_ok.mp first
    exact Number.plus_eq_ok.mp second
  · rintro ⟨fits, same⟩
    exact ⟨_, Number.plus_eq_ok.mpr ⟨by omega, rfl⟩, Number.plus_eq_ok.mpr ⟨fits, same⟩⟩

theorem layOutTemporary_eq_ok (full : field.dimensions = .ijk) :
    layOutTemporary domain field = .ok () ↔
      (field.needs domain).HasRoom ∧ ((field.needs domain).k : Int) < Number.int64Bound := by
  unfold layOutTemporary
  rw [full]
  simp only [Steps.bind_eq_ok, side_eq_ok]
  constructor
  · rintro ⟨_, ⟨i, rfl⟩, _, ⟨j, rfl⟩, _, ⟨k, rfl⟩, ⟨⟩, room, planes⟩
    obtain ⟨columns, bytes⟩ := Storage.requireRoom_eq_ok.mp room
    exact ⟨⟨i, j, k, columns, bytes.2⟩, (Number.requireMemory_eq_ok.mp planes).2⟩
  · rintro ⟨⟨i, j, k, columns, bytes⟩, planes⟩
    refine ⟨_, ⟨i, rfl⟩, _, ⟨j, rfl⟩, _, ⟨k, rfl⟩, (), ?_, ?_⟩
    · exact Storage.requireRoom_eq_ok.mpr ⟨columns, Number.inRange_natCast.mpr bytes⟩
    · exact Number.requireMemory_eq_ok.mpr (Number.inRange_natCast.mpr planes)

/-- **The temporaries can be made if there is room for each of them**, and not otherwise. -/
theorem layOut_eq_ok : layOut interface domain = .ok () ↔ interface.HasRoom domain := by
  unfold layOut Interface.HasRoom
  rw [Steps.forM_eq_ok]
  refine forall_congr' fun field => ?_
  rw [List.mem_filter, Bool.not_eq_true', and_imp]
  refine imp_congr_right fun _ => imp_congr_right fun _ => ?_
  cases dimensions : field.dimensions with
  | zero =>
    unfold layOutTemporary
    rw [dimensions]
    exact iff_of_true rfl nofun
  | ijk =>
    rw [layOutTemporary_eq_ok dimensions]
    exact (imp_iff_right rfl).symm

/-- The buffer of a temporary has the shape that it needs, or a single point. -/
theorem shape_viewOfTemporary : (viewOfTemporary field domain).storage.shape =
    if field.dimensions = .zero then Storage.pointShape else field.needs domain := by
  unfold viewOfTemporary
  dsimp only
  split
  next zero => rw [if_pos (decide_eq_true_iff.mp zero)]; rfl
  next full => rw [if_neg fun zero => full (decide_eq_true_iff.mpr zero)]; rfl

end Frame

/-! ### Sections and their tasks -/

/-- A stage is computed on offsets within the padding of its target, from a first one to a last. -/
structure Stage.Fits (stage : Stage) (interface : Interface) (field : InterfaceField) : Prop where
  found : interface.fields[stage.target]? = some field
  full : field.dimensions = .ijk
  ordered : stage.extent.Ordered
  i : -(field.halo.i.below : Int) ≤ stage.extent.i.lo ∧ stage.extent.i.hi ≤ field.halo.i.above
  j : -(field.halo.j.below : Int) ≤ stage.extent.j.lo ∧ stage.extent.j.hi ≤ field.halo.j.above

namespace Schedule

open Program

section Built

variable {context : Context} {backend : Backend} {interface : Interface} {demand : Demand}
  {schedule : Schedule}

/-- The sections of a schedule are those of a program that passed all checks. -/
theorem interval_valid (planned : context.Planned)
    (built : ofProgram? backend interface context.program demand = .ok schedule) {planes : Nat}
    (small : (planes : Int) < Number.int64Bound) (enough : context.minPlanes ≤ planes)
    {block : StageBlock} (inSchedule : block ∈ schedule.blocks) {part : StageSection}
    (inBlock : part ∈ block.sections) : part.interval.Valid planes := by
  obtain ⟨⟨original, b⟩, inProgram, -, sections⟩ :=
    Steps.exists_left (ofProgram?_sections built) inSchedule
  obtain ⟨⟨source, i⟩, inOriginal, same, -⟩ := Steps.exists_left sections inBlock
  rw [same]
  exact (Check.intervals_allows small planned.wellFormed (planned.intervals.mono enough) original
    (List.mem_of_getElem? (List.mk_mem_zipIdx_iff_getElem?.mp inProgram))).valid source
    (List.mem_of_getElem? (List.mk_mem_zipIdx_iff_getElem?.mp inOriginal))

/-- **Every stage of a planned schedule is computed within the padding of its target.** -/
theorem stage_fits (planned : context.Planned) (known : context.demand = some demand)
    (face : Interface.ofContext? context = .ok interface)
    (built : ofProgram? backend interface context.program demand = .ok schedule)
    {block : StageBlock} (inSchedule : block ∈ schedule.blocks) {part : StageSection}
    (inBlock : part ∈ block.sections) {stage : Stage} (inPart : stage ∈ part.stages) :
    ∃ field, stage.Fits interface field := by
  obtain ⟨other, known', found⟩ := planned.demand
  obtain rfl : demand = other := Option.some.inj (known.symm.trans known')
  obtain ⟨needs, swept, declared⟩ := Demand.ofProgram?_swept found
  obtain ⟨⟨original, b⟩, inProgram, -, sections⟩ :=
    Steps.exists_left (ofProgram?_sections built) inSchedule
  obtain ⟨⟨source, i⟩, inOriginal, -, computes⟩ := Steps.exists_left sections inBlock
  obtain ⟨⟨statement, extent⟩, isLive, computed⟩ := Steps.exists_left computes inPart
  obtain ⟨position, inSource, live⟩ := mem_liveOnes.mp isLive
  have blockMember := List.mem_of_getElem? (List.mk_mem_zipIdx_iff_getElem?.mp inProgram)
  have sourceMember := List.mem_of_getElem? (List.mk_mem_zipIdx_iff_getElem?.mp inOriginal)
  have statementMember := List.mem_of_getElem? (mem_positioned.mp inSource).2.2
  obtain ⟨⟨needed, rfl, ⟨whole, neededThere, within⟩, -⟩, -⟩ :=
    swept.at_live inProgram (List.mem_flatMap.mpr ⟨_, inOriginal, inSource⟩) live
  obtain ⟨field, there, named⟩ := Interface.slot?_eq_some computed.target
  obtain ⟨halo, target, isTarget, named', -, -⟩ := Interface.field_of_getElem? known face there
  have full := (Interface.target_of_ofContext? planned known face blockMember sourceMember
    statementMember (List.mem_of_getElem? there) named).1
  have padding : field.halo = whole.halo := by
    have needs := declared target isTarget
    rw [named', named, neededThere] at needs
    rw [halo, named, Demand.halo, needs]
  refine ⟨field, there, full, computed.extent ▸ Demand.ofProgram?_ordered found live, ?_, ?_⟩
  · have inside := within.i
    rw [padding, computed.extent]
    simp only [Extent.halo, OffsetRange.padding, Extent.horizontal]
    omega
  · have inside := within.j
    rw [padding, computed.extent]
    simp only [Extent.halo, OffsetRange.padding, Extent.horizontal]
    omega

end Built

/-- A task of a section computes one of its stages, on all planes of its interval or on one. -/
theorem mem_sectionTasks {policy : Policy} {domain : PerAxis Nat} {part : StageSection}
    {task : Task} (member : task ∈ sectionTasks policy domain part) :
    task.stage ∈ part.stages ∧ ∃ planes, task.region = .grown task.stage.extent domain planes ∧
      (planes = planesOf part.interval domain ∨
        ∃ k ∈ (planesOf part.interval domain).toList, planes = ⟨k, k + 1⟩) := by
  have onPlane : ∀ k, task ∈ (part.stages.map fun stage =>
          (⟨stage, .grown stage.extent domain (planesOf part.interval domain)⟩ : Task)).map
        (fun task => { task with region := task.region.plane k }) →
      task.stage ∈ part.stages ∧
        task.region = .grown task.stage.extent domain ⟨k, k + 1⟩ := by
    intro k member
    obtain ⟨_, whole, rfl⟩ := List.mem_map.mp member
    obtain ⟨stage, inPart, rfl⟩ := List.mem_map.mp whole
    exact ⟨inPart, rfl⟩
  unfold sectionTasks at member
  cases policy with
  | parallel =>
    obtain ⟨stage, inPart, rfl⟩ := List.mem_map.mp member
    exact ⟨inPart, _, rfl, .inl rfl⟩
  | forward =>
    obtain ⟨k, inside, member⟩ := List.mem_flatMap.mp member
    obtain ⟨inPart, same⟩ := onPlane k member
    exact ⟨inPart, _, same, .inr ⟨k, inside, rfl⟩⟩
  | backward =>
    obtain ⟨k, inside, member⟩ := List.mem_flatMap.mp member
    obtain ⟨inPart, same⟩ := onPlane k member
    exact ⟨inPart, _, same, .inr ⟨k, List.mem_reverse.mp inside, rfl⟩⟩

/-- A bound can be laid out if its plane is a word. -/
theorem layOut_bound {domain : PerAxis Nat} {bound : AxisBound}
    (inRange : Number.InRange (bound.resolve domain.k)) : bound.layOut domain = .ok () := by
  obtain ⟨level, offset⟩ := bound
  cases level with
  | bottom => rfl
  | top => exact Steps.bind_eq_ok.mpr ⟨_, Number.plusSigned_eq_ok.mpr ⟨inRange, rfl⟩, rfl⟩

end Schedule

/-! ### Regions -/

theorem Stretch.count_eq_ok {s : Stretch} {n : Nat} :
    s.count = .ok n ↔ Number.InRange (s.stop - s.start) ∧ s.length = n := by
  unfold count
  rw [Steps.bind_eq_ok]
  constructor
  · rintro ⟨difference, done, same⟩
    obtain ⟨inRange, rfl⟩ := Number.minusSigned_eq_ok.mp done
    exact ⟨inRange, Except.ok.inj same⟩
  · rintro ⟨inRange, rfl⟩
    exact ⟨_, Number.minusSigned_eq_ok.mpr ⟨inRange, rfl⟩, rfl⟩

namespace Region

variable {extent : Extent} {domain : PerAxis Nat}

theorem layOut_eq_ok : layOut domain extent = .ok () ↔
    Number.InRange (Number.wrapped domain.i + extent.i.hi) ∧
      Number.InRange (Number.wrapped domain.j + extent.j.hi) := by
  unfold layOut
  constructor
  · intro done
    obtain ⟨_, first, done⟩ := Steps.bind_eq_ok.mp done
    obtain ⟨_, second, -⟩ := Steps.bind_eq_ok.mp done
    exact ⟨(Number.plusSigned_eq_ok.mp first).1, (Number.plusSigned_eq_ok.mp second).1⟩
  · rintro ⟨i, j⟩
    refine Steps.bind_eq_ok.mpr ⟨_, Number.plusSigned_eq_ok.mpr ⟨i, rfl⟩, ?_⟩
    exact Steps.bind_eq_ok.mpr ⟨_, Number.plusSigned_eq_ok.mpr ⟨j, rfl⟩, rfl⟩

/-- The points of a box can be counted if it is in a shape that has room. -/
theorem count_eq_size {region : Region} {shape : PerAxis Nat} (room : shape.HasRoom)
    (rangeI : Number.InRange (region.i.stop - region.i.start))
    (rangeJ : Number.InRange (region.j.stop - region.j.start))
    (rangeK : Number.InRange (region.k.stop - region.k.start))
    (i : region.i.length ≤ shape.i) (j : region.j.length ≤ shape.j)
    (k : region.k.length ≤ shape.k) : region.count = .ok region.size := by
  have columns : region.i.length * region.j.length < Number.wordCount :=
    Nat.lt_of_le_of_lt (Nat.mul_le_mul i j) room.columns
  have points : region.size < Number.wordCount := by
    have size : region.size ≤ shape.volume := Nat.mul_le_mul (Nat.mul_le_mul i j) k
    have volume := room.volume
    unfold Number.int64Bound at volume
    unfold Number.wordCount
    omega
  unfold count
  simp only [Steps.bind_eq_ok]
  exact ⟨_, Stretch.count_eq_ok.mpr ⟨rangeI, rfl⟩, _, Stretch.count_eq_ok.mpr ⟨rangeJ, rfl⟩, _,
    Number.times_eq_ok.mpr ⟨columns, rfl⟩, _, Stretch.count_eq_ok.mpr ⟨rangeK, rfl⟩,
    Number.times_eq_ok.mpr ⟨points, rfl⟩⟩

end Region

namespace Stage.Fits

variable {stage : Stage} {interface : Interface} {field : InterfaceField} {domain : PerAxis Nat}

/-- The bounds of the region of a stage are words. -/
theorem layOut (fits : stage.Fits interface field) (small : domain.Small)
    (needs : (field.needs domain).Small) : Region.layOut domain stage.extent = .ok () := by
  obtain ⟨-, -, ⟨orderedI, orderedJ, -⟩, i, j⟩ := fits
  obtain ⟨needsI, needsJ, -⟩ := needs
  rw [Region.layOut_eq_ok, Number.wrapped_of_lt small.i, Number.wrapped_of_lt small.j]
  unfold Number.InRange
  simp only [InterfaceField.needs, Frame.padded] at needsI needsJ
  omega

/-- The points of the region of a stage can be counted, on whatever planes of the domain. -/
theorem count (fits : stage.Fits interface field) (small : domain.Small)
    (needs : (field.needs domain).Small) (room : (field.needs domain).HasRoom) {planes : Stretch}
    (bottom : 0 ≤ planes.start) (nonempty : planes.start ≤ planes.stop)
    (top : planes.stop ≤ domain.k) :
    (Region.grown stage.extent domain planes).count =
      .ok (Region.grown stage.extent domain planes).size := by
  obtain ⟨-, -, ⟨orderedI, orderedJ, -⟩, i, j⟩ := fits
  have smallI := small.i
  have smallJ := small.j
  have smallK := small.k
  obtain ⟨needsI, needsJ, -⟩ := needs
  simp only [InterfaceField.needs, Frame.padded] at needsI needsJ
  refine Region.count_eq_size room ?_ ?_ ?_ ?_ ?_ ?_ <;>
    simp only [Region.grown, Number.wrapped_of_lt small.i, Number.wrapped_of_lt small.j,
      Number.InRange, Stretch.length, InterfaceField.needs, Frame.padded] <;> omega

end Stage.Fits

/-! ### Steps -/

namespace Schedule

theorem runSteps_map_ok (tasks : List Task) (frame : Frame) :
    runSteps (tasks.map .ok) frame = .ok (runTasks tasks frame) := by
  induction tasks generalizing frame with
  | nil => rfl
  | cons task rest ih =>
    unfold runTasks
    rw [List.map_cons, runSteps]
    rcases runTask task frame with ⟨middle, failure⟩
    cases failure with
    | none => exact ih middle
    | some cause => rfl

/-- **If every section can be laid out and the points of every task can be counted**, nothing stops
the program between the tasks. -/
theorem steps_eq {schedule : Schedule} {domain : PerAxis Nat}
    (laid : ∀ block ∈ schedule.blocks, ∀ part ∈ block.sections,
      layOutSection domain part = .ok ())
    (counted : ∀ task ∈ schedule.tasks domain, task.region.count = .ok task.region.size) :
    schedule.steps domain = (schedule.tasks domain).map .ok := by
  unfold steps tasks at *
  rw [List.map_flatMap]
  refine List.flatMap_congr fun block inSchedule => ?_
  rw [List.map_flatMap]
  refine List.flatMap_congr fun part inBlock => ?_
  unfold sectionSteps
  rw [laid block inSchedule part inBlock]
  refine List.map_congr_left fun task member => ?_
  have here := counted task (List.mem_flatMap.mpr ⟨block, inSchedule,
    List.mem_flatMap.mpr ⟨part, inBlock, member⟩⟩)
  unfold stepOf
  rw [here]
  rfl

/-- Steps that do some tasks in order, unless the program stops in between. -/
inductive Follows : List Step → List Task → Prop
  | nil : Follows [] []
  | task {task : Task} {steps : List Step} {tasks : List Task} (rest : Follows steps tasks) :
    Follows (.ok task :: steps) (task :: tasks)
  | stop {overflow : Overflow} {steps : List Step} {tasks : List Task} :
    Follows (.error overflow :: steps) tasks

theorem Follows.append {steps steps' : List Step} {tasks tasks' : List Task}
    (first : Follows steps tasks) (second : Follows steps' tasks') :
    Follows (steps ++ steps') (tasks ++ tasks') := by
  induction first with
  | nil => exact second
  | task _ ih => exact .task ih
  | stop => exact .stop

theorem Follows.flatMap {α : Type} {f : α → List Step} {g : α → List Task}
    (each : ∀ a, Follows (f a) (g a)) (as : List α) : Follows (as.flatMap f) (as.flatMap g) := by
  induction as with
  | nil => exact .nil
  | cons a rest ih =>
    rw [List.flatMap_cons, List.flatMap_cons]
    exact (each a).append ih

/-- Steps that are not stopped leave what the tasks leave. -/
theorem Follows.eq_runTasks {steps : List Step} {tasks : List Task} (follows : Follows steps tasks)
    {frame : Frame} {result : Frame × Option Cause} (done : runSteps steps frame = .ok result) :
    result = runTasks tasks frame := by
  induction follows generalizing frame with
  | nil => exact (Except.ok.inj done).symm
  | stop => cases done
  | @task task _ _ _ ih =>
    unfold runSteps at done
    unfold runTasks
    generalize runTask task frame = ran at done ⊢
    obtain ⟨middle, failure⟩ := ran
    cases failure with
    | none => exact ih done
    | some cause => exact (Except.ok.inj done).symm

/-- **The steps of a schedule do its tasks in order**, unless the program stops in between. -/
theorem steps_follows (schedule : Schedule) (domain : PerAxis Nat) :
    Follows (schedule.steps domain) (schedule.tasks domain) := by
  have counted : ∀ tasks : List Task, Follows (tasks.map stepOf) tasks := by
    intro tasks
    induction tasks with
    | nil => exact .nil
    | cons task rest ih =>
      rw [List.map_cons, stepOf]
      cases task.region.count with
      | error overflow => exact .stop
      | ok _ => exact .task ih
  refine Follows.flatMap (fun block => Follows.flatMap (fun part => ?_) _) _
  unfold sectionSteps
  cases layOutSection domain part with
  | error overflow => exact .stop
  | ok _ => exact counted _

end Schedule

namespace Kernel

section

variable {context : Context} {backend : Backend} {kernel : Kernel} {call : Call} {demand : Demand}

/-- **In a narrow domain nothing stops the program between the tasks.** -/
theorem steps_eq (planned : context.Planned) (known : context.demand = some demand)
    (face : Interface.ofContext? context = .ok kernel.interface)
    (scheduled : Schedule.ofProgram? backend kernel.interface context.program demand =
      .ok kernel.schedule) {domain : PerAxis Nat} (enough : context.minPlanes ≤ domain.k)
    (narrow : kernel.interface.Narrow domain)
    (room : ∀ field ∈ kernel.interface.fields, field.dimensions = .ijk →
      (field.needs domain).HasRoom) :
    (∀ task ∈ kernel.schedule.tasks domain, task.region.count = .ok task.region.size) ∧
      kernel.schedule.steps domain = (kernel.schedule.tasks domain).map .ok := by
  have counted : ∀ task ∈ kernel.schedule.tasks domain,
      task.region.count = .ok task.region.size := by
    intro task member
    obtain ⟨block, inSchedule, member⟩ := List.mem_flatMap.mp member
    obtain ⟨part, inBlock, member⟩ := List.mem_flatMap.mp member
    obtain ⟨inPart, planes, same, which⟩ := Schedule.mem_sectionTasks member
    obtain ⟨field, fits⟩ :=
      Schedule.stage_fits planned known face scheduled inSchedule inBlock inPart
    have isField := List.mem_of_getElem? fits.found
    obtain ⟨above, nonempty, below⟩ :=
      Schedule.interval_valid planned scheduled narrow.size.k enough inSchedule inBlock
    have count : ∀ planes : Stretch, 0 ≤ planes.start → planes.start ≤ planes.stop →
        planes.stop ≤ domain.k → (Region.grown task.stage.extent domain planes).count =
          .ok (Region.grown task.stage.extent domain planes).size := fun planes =>
      fits.count narrow.size (narrow.needs field isField fits.full) (room field isField fits.full)
    rw [same]
    rcases which with rfl | ⟨k, inside, rfl⟩
    · exact count _ above (Int.le_of_lt nonempty) below
    · obtain ⟨low, high⟩ := Stretch.mem_toList.mp inside
      have low : part.interval.start.resolve domain.k ≤ k := low
      have high : k < part.interval.stop.resolve domain.k := high
      exact count _ (by dsimp only; omega) (by dsimp only; omega) (by dsimp only; omega)
  refine ⟨counted, Schedule.steps_eq (fun block inSchedule part inBlock => ?_) counted⟩
  obtain ⟨above, nonempty, below⟩ :=
    Schedule.interval_valid planned scheduled narrow.size.k enough inSchedule inBlock
  have top := narrow.size.k
  have start : Number.InRange (part.interval.start.resolve domain.k) := by
    unfold Number.InRange Number.int64Bound at *
    omega
  have stop : Number.InRange (part.interval.stop.resolve domain.k) := by
    unfold Number.InRange Number.int64Bound at *
    omega
  unfold Schedule.layOutSection
  rw [Schedule.layOut_bound start, Schedule.layOut_bound stop]
  refine Steps.forM_eq_ok.mpr fun stage inPart => ?_
  obtain ⟨field, fits⟩ := Schedule.stage_fits planned known face scheduled inSchedule inBlock inPart
  exact fits.layOut narrow.size (narrow.needs field (List.mem_of_getElem? fits.found) fits.full)

/-! ### Buffers and accesses -/

variable {bound : BoundCall}

/-- What a parameter needs has room, since its buffer has. -/
theorem needs_hasRoom_of_parameter (passed : call.bind kernel.interface = .ok bound)
    (room : ∀ argument ∈ call.arguments, argument.storage.shape.HasRoom) {field : InterfaceField}
    (parameter : field ∈ kernel.interface.parameters) (full : field.dimensions = .ijk) :
    (field.needs call.domain).HasRoom := by
  obtain ⟨given, -, boundTo⟩ := Steps.exists_left (Call.bind_boundTo passed).flip parameter
  obtain ⟨argument, there, same⟩ := boundTo.argument
  obtain ⟨⟨belowI, aboveI⟩, ⟨belowJ, aboveJ⟩, ⟨belowK, aboveK⟩⟩ := boundTo.covers full
  have fits := same ▸ room argument (List.mem_of_getElem? there)
  refine fits.of_le ?_ ?_ ?_ <;> simp only [InterfaceField.needs, Frame.padded] <;> omega

/-- What a field needs has room if the temporaries have. -/
theorem needs_hasRoom (passed : call.bind kernel.interface = .ok bound)
    (room : ∀ argument ∈ call.arguments, argument.storage.shape.HasRoom)
    (temporaries : kernel.interface.HasRoom call.domain) {field : InterfaceField}
    (member : field ∈ kernel.interface.fields) (full : field.dimensions = .ijk) :
    (field.needs call.domain).HasRoom := by
  cases parameter : field.isParameter with
  | true =>
    exact needs_hasRoom_of_parameter passed room (List.mem_filter.mpr ⟨member, parameter⟩) full
  | false => exact (temporaries field member parameter full).1

/-- All buffers of a run have room if the temporaries have. -/
theorem views_hasRoom (passed : call.bind kernel.interface = .ok bound)
    (room : ∀ argument ∈ call.arguments, argument.storage.shape.HasRoom)
    (temporaries : kernel.interface.HasRoom call.domain) :
    ∀ view ∈ (Frame.ofBound kernel.interface bound call.domain).views,
      view.storage.shape.HasRoom := by
  intro view member
  obtain ⟨field, isField, ⟨-, given, boundTo, rfl⟩ | ⟨temporary, rfl⟩⟩ := Steps.exists_left
    (Frame.viewsOf_forall₂ call.domain (Call.bind_boundTo passed)) member
  · obtain ⟨argument, there, same⟩ := boundTo.argument
    show given.storage.shape.HasRoom
    exact same ▸ room argument (List.mem_of_getElem? there)
  · rw [Frame.shape_viewOfTemporary]
    split
    · exact PerAxis.hasRoom_pointShape
    next full =>
      refine (temporaries field isField temporary ?_).1
      cases dimensions : field.dimensions with
      | zero => exact absurd dimensions full
      | ijk => rfl

/-- An access to a point of the padded domain has a place. -/
theorem located_of_padded (passed : call.bind kernel.interface = .ok bound)
    (room : ∀ view ∈ (Frame.ofBound kernel.interface bound call.domain).views,
      view.storage.shape.HasRoom) {access : Nat × Offset} {field : InterfaceField}
    (found : kernel.interface.fields[access.1]? = some field)
    (padded : Padded field.halo call.domain access.2) :
    kernel.Located call bound access field := by
  have serves := (Frame.ofBound_serves passed).view found
  have fits : (Frame.ofBound kernel.interface bound call.domain).FitsMemory :=
    fun view member => (room view member).volume
  have volume := fits.volume (Frame.ofBound_serves passed) found
  cases dimensions : field.dimensions with
  | zero =>
    exact ⟨found, fun full => (nomatch dimensions.symm.trans full),
      fun full => (nomatch dimensions.symm.trans full),
      (serves.contains_zero dimensions _).exists_place volume⟩
  | ijk =>
    have small := serves.small_start dimensions volume padded
    have inside := (serves.contains small dimensions padded).1
    have same := serves.index_eq small dimensions access.2
    have within : Storage.Inside _ _ := inside
    rw [same] at within
    obtain ⟨⟨lowI, highI⟩, ⟨lowJ, highJ⟩, lowK, highK⟩ := within
    dsimp only at lowI highI lowJ highJ lowK highK
    -- the buffer has a point, so its sides are words with a sign
    obtain ⟨sizeI, sizeJ, sizeK⟩ :=
      PerAxis.small_of_volume volume (by omega) (by omega) (by omega)
    obtain ⟨startI, startJ, startK⟩ := small
    have point : access.2.InRange := by
      refine ⟨⟨?_, ?_⟩, ⟨?_, ?_⟩, ?_, ?_⟩ <;> omega
    refine ⟨found, fun _ => point, fun _ => ⟨same, ?_⟩, inside.exists_place volume⟩
    rw [same]
    refine ⟨⟨?_, ?_⟩, ⟨?_, ?_⟩, ?_, ?_⟩ <;> dsimp only <;> omega

/-- **Every access of a task has a place**, if the buffers have room. -/
theorem exists_located (planned : context.Planned) (made : ofContext? backend context = .ok kernel)
    (passed : call.bind kernel.interface = .ok bound)
    (room : ∀ view ∈ (Frame.ofBound kernel.interface bound call.domain).views,
      view.storage.shape.HasRoom) {task : Schedule.Task}
    (member : task ∈ kernel.schedule.tasks call.domain) {access : Nat × Offset}
    (inTask : access ∈ task.reads ++ task.writes) :
    ∃ field, kernel.Located call bound access field := by
  obtain ⟨demand, known, face, scheduled⟩ := ofContext?_eq_ok made
  have enough : context.minPlanes ≤ call.domain.k :=
    (Interface.ofContext?_eq_ok known face).2.2 ▸ Call.bind_planes passed
  -- a task with an access has a point, which only small domains have
  have points : ∃ p, p ∈ task.region.points := by
    rcases List.mem_append.mp inTask with inReads | inWrites
    · obtain ⟨p, point, -⟩ := List.mem_flatMap.mp inReads
      exact ⟨p, point⟩
    · obtain ⟨p, point, -⟩ := List.mem_map.mp inWrites
      exact ⟨p, point⟩
  obtain ⟨p, point⟩ := points
  obtain ⟨job, isJob, done⟩ :=
    Steps.exists_left (Schedule.tasks_doneBy scheduled call.domain) member
  have small := small_of_job planned made known passed
    (fun view there => (room view there).volume) (PerAxis.Part.refl call.domain) isJob
    (done.region ▸ point)
  have guarded := task_guarded planned known face scheduled small enough member
  rcases List.mem_append.mp inTask with inReads | inWrites
  · obtain ⟨field, found, padded⟩ := guarded.reads access inReads
    exact ⟨field, located_of_padded passed room found padded⟩
  · obtain ⟨target, there, -, -, writes⟩ := guarded.writes
    obtain ⟨same, padded, -⟩ := writes access inWrites
    exact ⟨target, located_of_padded passed room (same ▸ there) padded⟩

/-! ### Whole calls -/

/-- A domain with points is narrow where a field with axes has room. -/
theorem narrow_of_points (room : ∀ field ∈ kernel.interface.fields, field.dimensions = .ijk →
      (field.needs call.domain).HasRoom)
    (some : ∃ field ∈ kernel.interface.fields, field.dimensions = .ijk) (i : 0 < call.domain.i)
    (j : 0 < call.domain.j) (k : 0 < call.domain.k) : kernel.interface.Narrow call.domain := by
  have needs : ∀ field ∈ kernel.interface.fields, field.dimensions = .ijk →
      (field.needs call.domain).Small := by
    intro field member full
    refine PerAxis.small_of_volume (room field member full).volume ?_ ?_ ?_ <;>
      simp only [InterfaceField.needs, Frame.padded] <;> omega
  obtain ⟨field, member, full⟩ := some
  refine ⟨PerAxis.small_of_le (needs field member full) ?_ ?_ ?_, needs⟩ <;>
    simp only [InterfaceField.needs, Frame.padded] <;> omega

/-- **A bound call with room for its temporaries is laid out.** -/
theorem laidOut (planned : context.Planned) (made : ofContext? backend context = .ok kernel)
    (passed : call.bind kernel.interface = .ok bound)
    (room : ∀ argument ∈ call.arguments, argument.storage.shape.HasRoom)
    (temporaries : kernel.interface.HasRoom call.domain) : kernel.LaidOut call bound := by
  obtain ⟨demand, known, face, scheduled⟩ := ofContext?_eq_ok made
  have enough : context.minPlanes ≤ call.domain.k :=
    (Interface.ofContext?_eq_ok known face).2.2 ▸ Call.bind_planes passed
  have buffers := views_hasRoom passed room temporaries
  have needs : ∀ field ∈ kernel.interface.fields, field.dimensions = .ijk →
      (field.needs call.domain).HasRoom :=
    fun field member full => needs_hasRoom passed room temporaries member full
  have steps := steps_eq planned known face scheduled enough
  refine ⟨buffers, fun task member access => exists_located planned made passed buffers member,
    narrow_of_points needs, fun narrow => (steps narrow needs).1, fun narrow => ?_⟩
  unfold execute run
  rw [passed]
  dsimp only
  rw [Frame.layOut_eq_ok.mpr temporaries, (steps narrow needs).2, Schedule.runSteps_map_ok]
  rfl

/-- **A run that is not stopped is the run with numbers of any size.** -/
theorem eq_run_of_execute {result : List Argument × Option Error}
    (done : kernel.execute call = .ok result) : result = kernel.run call := by
  unfold execute at done
  unfold run
  split at done
  next cause failed => exact (Except.ok.inj done).symm
  next bound passed =>
    obtain ⟨_, -, done⟩ := Steps.bind_eq_ok.mp done
    obtain ⟨ran, steps, same⟩ := Steps.bind_eq_ok.mp done
    rw [← Except.ok.inj same, (Schedule.steps_follows _ _).eq_runTasks steps]

/-- A call without room for its temporaries is stopped, although it is bound. -/
theorem execute_of_not_hasRoom (passed : call.bind kernel.interface = .ok bound)
    (none : ¬ kernel.interface.HasRoom call.domain) :
    ∃ overflow, kernel.execute call = .error overflow := by
  unfold execute
  rw [passed]
  dsimp only
  cases laid : Frame.layOut kernel.interface call.domain with
  | error overflow => exact ⟨overflow, rfl⟩
  | ok _ => exact absurd (Frame.layOut_eq_ok.mp laid) none

end

/-- **What becomes of a call of a compiled stencil**, with buffers that have room in memory. If it
is not bound, the error is a mismatch and nothing is computed. If it is bound, what every parameter
needs has room, and the call is laid out if there is room for its temporaries, too; the program is
stopped if there is none. Whenever it is not stopped, the run is that with numbers of any size. -/
theorem layout_exact {definition : Definition} {externals : Externals} {backend : Backend}
    {signature : Signature} {context : Context} {kernel : Kernel}
    (compiled : (Registry.compile definition externals backend signature).value =
      .ok (context, kernel)) {call : Call}
    (room : ∀ argument ∈ call.arguments, argument.storage.shape.HasRoom) :
    (∀ cause, call.bind kernel.interface = .error cause → cause.kind = .domainMismatch ∧
      kernel.execute call = .ok (call.arguments, some (.ofCause cause))) ∧
    (∀ bound, call.bind kernel.interface = .ok bound →
      (∀ field ∈ kernel.interface.parameters, field.dimensions = .ijk →
        (field.needs call.domain).HasRoom) ∧
      (kernel.interface.HasRoom call.domain → kernel.LaidOut call bound) ∧
      (¬ kernel.interface.HasRoom call.domain →
        ∃ overflow, kernel.execute call = .error overflow)) ∧
    ∀ result, kernel.execute call = .ok result → result = kernel.run call := by
  obtain ⟨planned, made⟩ := Registry.compile_eq_ok compiled
  refine ⟨fun cause failed => ⟨Call.bind_mismatches call _ cause failed, ?_⟩,
    fun bound passed => ⟨?_, laidOut planned made passed room, execute_of_not_hasRoom passed⟩,
    fun result => eq_run_of_execute⟩
  · unfold execute
    rw [failed]
  · exact fun field parameter full => needs_hasRoom_of_parameter passed room parameter full

end Kernel

/-! ### Samples -/

namespace Sample

open Definition (noSpan)

/-- A temporary that is read so far away on both sides that no buffer holds it. -/
def remote : Definition := definition [
  computation "PARALLEL" (.int 0) .top [("t", .literal (.int 1) noSpan),
    ("b", .binary .add (access "t" 0x7fffffffffffffff 0) (access "t" (-0x8000000000000000) 0)
      noSpan)]]

/-- Whether a definition compiles, the call is bound, and there is room for the temporaries as
expected. Some field has axes. -/
def lays (definition : Definition) (succeeds : Bool) : Bool :=
  match (Registry.compile definition .empty .debug .empty).value with
  | .error _ => false
  | .ok (_, kernel) =>
    (call.bind kernel.interface).isOk &&
      decide (Frame.layOut kernel.interface call.domain = .ok ()) == succeeds &&
      kernel.interface.fields.any fun field => field.dimensions = .ijk

theorem of_lays {definition : Definition} {succeeds : Bool}
    (lays : lays definition succeeds = true) :
    ∃ context kernel bound,
      (Registry.compile definition .empty .debug .empty).value = .ok (context, kernel) ∧
      call.bind kernel.interface = .ok bound ∧
      (kernel.interface.HasRoom call.domain ↔ succeeds = true) ∧
      ∃ field ∈ kernel.interface.fields, field.dimensions = .ijk := by
  unfold Sample.lays at lays
  split at lays
  · cases lays
  next context kernel compiled =>
    simp only [Bool.and_eq_true, beq_iff_eq, List.any_eq_true, decide_eq_true_eq] at lays
    obtain ⟨⟨isBound, outcome⟩, full⟩ := lays
    cases passed : call.bind kernel.interface with
    | error cause =>
      rw [passed] at isBound
      cases isBound
    | ok bound =>
      refine ⟨context, kernel, bound, compiled, passed, ?_, full⟩
      rw [← Frame.layOut_eq_ok, ← outcome, decide_eq_true_iff]

end Sample

namespace Kernel

/-- A call that is laid out, and one that is bound and stopped. -/
theorem layout_exact_samples :
    (∃ (kernel : Kernel) (bound : BoundCall), Sample.call.bind kernel.interface = .ok bound ∧
      kernel.LaidOut Sample.call bound ∧
      kernel.execute Sample.call = .ok (kernel.run Sample.call)) ∧
    ∃ (kernel : Kernel) (bound : BoundCall), Sample.call.bind kernel.interface = .ok bound ∧
      ∃ overflow, kernel.execute Sample.call = .error overflow := by
  have room : ∀ argument ∈ Sample.call.arguments, argument.storage.shape.HasRoom :=
    List.forall_mem_cons.mpr ⟨⟨by decide, by decide, by decide, by decide, by decide⟩,
      List.forall_mem_singleton.mpr ⟨by decide, by decide, by decide, by decide, by decide⟩⟩
  constructor
  · obtain ⟨context, kernel, bound, compiled, passed, hasRoom, full⟩ :=
      Sample.of_lays (by decide +kernel : Sample.lays Sample.sums true = true)
    have laid := ((layout_exact compiled room).2.1 bound passed).2.1 (hasRoom.mpr rfl)
    exact ⟨kernel, bound, passed, laid,
      laid.execute (laid.narrow full (by decide) (by decide) (by decide))⟩
  · obtain ⟨context, kernel, bound, compiled, passed, hasRoom, -⟩ :=
      Sample.of_lays (by decide +kernel : Sample.lays Sample.remote false = true)
    exact ⟨kernel, bound, passed, ((layout_exact compiled room).2.1 bound passed).2.2
      fun room => Bool.false_ne_true (hasRoom.mp room)⟩

end Kernel

end GridStencil
