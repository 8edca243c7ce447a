import GridStencil.Proofs.Kernel.Rows
import GridStencil.Proofs.Locality
import GridStencil.Proofs.Name.Table

/-!
**Splitting the domain does not change the result.**

If all outputs are flat along a horizontal axis, then a run on some rows of the domain computes what
the whole run computes on these rows, and leaves the other rows alone. A second run on the other rows
starts with what the first has left of the outputs: on its own rows, nothing has changed. Temporaries
are computed again where the halos of the two parts overlap.

* `Kernel.FlatAlong.mirrors_run`: the frames of both runs mirror each other in the end.
* `Kernel.FlatAlong.run_part`: a run on some rows succeeds if the whole run does, and leaves the same
  elements of the outputs on these rows.
* `Kernel.run_split`: two runs, one on the first rows and one on the others, return what a single run
  returns.
-/

namespace GridStencil

open Program

namespace Kernel.FlatAlong

variable {kernel : Kernel} {context : Context} {demand : Demand} {backend : Backend} {axis : Axis}
  {call : Call} {bound : BoundCall} {corner : PerAxis Nat} {part : Call} {bound' : BoundCall}
  {start size : Nat}

/-- The points of outputs that lie on the rows of a domain. -/
def OutputRows (kernel : Kernel) (axis : Axis) (domain : PerAxis Nat) : Demanded := fun name p =>
  (∃ field ∈ kernel.interface.fields, field.name = name ∧ field.role = .output) ∧
    0 ≤ p.along axis ∧ p.along axis < domain.along axis

/-- **The frames mirror each other at the start** if the buffers of the run on the part have the
elements of the whole run, the outputs at least on the rows of the part. -/
theorem start_mirrors (flat : kernel.FlatAlong context demand backend axis)
    (on : Call.BoundOn kernel.interface corner call part bound bound')
    (fits : (Frame.ofBound kernel.interface bound call.domain).FitsMemory)
    (elements : ∀ n field, kernel.interface.parameters[n]? = some field → ∀ index,
      Storage.Inside
        ((Frame.ofBound kernel.interface bound call.domain).view n).storage.shape index →
      (field.role = .output → part.OnRow axis field index) →
      ((Frame.ofBound kernel.interface bound' part.domain).view n).element index =
        ((Frame.ofBound kernel.interface bound call.domain).view n).element index) :
    Frame.Mirrors kernel.interface corner
      (Frame.Relevant (Frame.Around kernel.interface part.domain)
        (OutputRows kernel axis part.domain))
      (.ofBound kernel.interface bound call.domain)
      (.ofBound kernel.interface bound' part.domain) := by
  obtain ⟨shows, -⟩ := flat.planned.shows flat.face.1
  intro slot field found p x relevant read
  have member := List.mem_of_getElem? found
  cases parameter : field.isParameter with
  | false =>
    have temporary : field.role = .temporary := by
      unfold InterfaceField.isParameter at parameter
      simpa using parameter
    obtain ⟨front, writer, back, -, absurd, -⟩ := Frame.Stored.start on.passed shows.full
      (fun _ _ => True) (.ofBound kernel.interface bound call.domain) slot field found temporary _ x
      trivial read
    simp at absurd
  | true =>
    have isField := flat.parameter_of_field found parameter
    have serves := (Frame.ofBound_serves on.passed).view found
    have serves' := (Frame.ofBound_serves on.onPart).view found
    have volume := fits.volume (Frame.ofBound_serves on.passed) found
    have shape : ((Frame.ofBound kernel.interface bound' part.domain).view slot).storage.shape =
        ((Frame.ofBound kernel.interface bound call.domain).view slot).storage.shape :=
      (flat.parameter_outline on isField).shape.symm
    have notTemporary : field.role ≠ .temporary := by
      intro temporary
      rw [InterfaceField.isParameter, temporary] at parameter
      cases parameter
    obtain ⟨inside, -, value⟩ := View.read_eq_ok.mp read
    have place : ((Frame.ofBound kernel.interface bound' part.domain).view slot).index p =
        ((Frame.ofBound kernel.interface bound call.domain).view slot).index
          (p.add (Storage.offsetOf corner)) ∧
        (field.role = .output → part.OnRow axis field
          (((Frame.ofBound kernel.interface bound' part.domain).view slot).index p)) := by
      cases dimensions : field.dimensions with
      | zero =>
        refine ⟨(if_pos (serves'.zeroDim.mpr dimensions)).trans
          (if_pos (serves.zeroDim.mpr dimensions)).symm, fun output => ?_⟩
        have full := shows.full field member (by rw [output]; decide)
        rw [dimensions] at full
        cases full
      | ijk =>
        have smallStart := serves.small_start_of_inside dimensions volume inside
        have smallStart' : (field.start part.origins).Small :=
          serves'.small_start_of_inside dimensions (by rw [shape]; exact volume)
            (by rw [shape]; exact inside)
        refine ⟨serves.index_part on.toOn serves' dimensions smallStart smallStart' parameter p,
          fun output => (serves'.onRow_iff smallStart' dimensions axis p).mpr ?_⟩
        rcases relevant with around | row
        · exact (around field member rfl).onRow (flat.halo member output)
        · exact row.2
    rw [View.read_eq_ok, shape, place.1]
    refine ⟨inside, serves'.lacks_eq_false notTemporary _, ?_⟩
    have element := elements slot field isField _ (by rw [place.1]; exact inside) place.2
    unfold View.element at element
    rw [shape, place.1] at element
    exact element.trans value

/-- **A run on rows of the domain succeeds if the whole run does**, and the frames mirror each other
in the end, if they do so at the start. -/
theorem mirrors_run (flat : kernel.FlatAlong context demand backend axis)
    (on : Call.BoundOn kernel.interface ((PerAxis.all 0).put axis start) call part bound bound')
    (rows : part.domain = call.domain.put axis size) (inside : start + size ≤ call.domain.along axis)
    (fits : (Frame.ofBound kernel.interface bound call.domain).FitsMemory)
    (small : call.domain.Small)
    (mirrors : Frame.Mirrors kernel.interface ((PerAxis.all 0).put axis start)
      (Frame.Relevant (Frame.Around kernel.interface part.domain)
        (OutputRows kernel axis part.domain))
      (.ofBound kernel.interface bound call.domain)
      (.ofBound kernel.interface bound' part.domain))
    {after : Frame} (ran : Schedule.runTasks (kernel.schedule.tasks call.domain)
      (.ofBound kernel.interface bound call.domain) = (after, none)) :
    ∃ after', Schedule.runTasks (kernel.schedule.tasks part.domain)
        (.ofBound kernel.interface bound' part.domain) = (after', none) ∧
      Frame.Mirrors kernel.interface ((PerAxis.all 0).put axis start)
        (OutputRows kernel axis part.domain) after after' := by
  obtain ⟨face, scheduled⟩ := flat.face
  obtain ⟨shows, -⟩ := flat.planned.shows face
  have small' := on.domain.small small
  have serves := Frame.ofBound_serves on.passed
  have serves' := Frame.ofBound_serves on.onPart
  have fits' := fits.onPart on.domain on.fields
  have enough : context.minPlanes ≤ part.domain.k :=
    (Interface.ofContext?_eq_ok flat.known face).2.2 ▸ Call.bind_planes on.onPart
  obtain ⟨_, _, known, -, -, -, done⟩ := sound_assignments flat.planned flat.made on.passed small
  obtain rfl := Option.some.inj (flat.known.symm.trans known)
  obtain ⟨_, before, known', -, sound, -, done'⟩ :=
    sound_assignments flat.planned flat.made on.onPart small'
  obtain rfl := Option.some.inj (flat.known.symm.trans known')
  rw [← context.program.assignments_congr demand on.domain.planes] at done
  have stable : ∀ field ∈ kernel.interface.fields, ∀ p,
      OutputRows kernel axis part.domain field.name p → field.role ≠ .temporary := by
    intro field member p row
    obtain ⟨other, isOther, named, output⟩ := row.1
    obtain rfl := List.inj_on_of_nodup_map shows.distinct isOther member named
    rw [output]
    decide
  have exact : ∀ assignment ∈ context.program.assignments demand part.domain, ∀ extent,
      assignment.extent = some extent → ∀ p,
      OutputRows kernel axis part.domain assignment.statement.target p →
        p.add (Storage.offsetOf ((PerAxis.all 0).put axis start)) ∈
          (Region.grown extent call.domain assignment.planes).points →
        p ∈ (Region.grown extent part.domain assignment.planes).points := by
    intro assignment member extent live p row point
    obtain ⟨other, isOther, named, output⟩ := row.1
    have within := row.2
    rw [rows] at within ⊢
    refine PerAxis.mem_grown_put flat.horizontal small inside
      (flat.extent member live isOther output named) ?_ point
    cases axis <;> exact within
  obtain ⟨after', ran', mirrors'⟩ := (mirrors.mono fun field p => Or.imp_left And.right).runTasks
    shows on.domain small
    (fun slot field p found full padded => (serves'.view found).small_start full
      (fits'.volume serves' found) padded) stable exact sound done done'
    (fun task member => task_guarded flat.planned flat.known face scheduled small' enough member)
    serves serves' on.values ran
  exact ⟨after', ran', mirrors'.mono fun _ _ => Or.inr⟩

/-- Where the frames mirror each other on the rows of a part, the outputs have the same elements on
these rows. -/
theorem element_of_mirrors (flat : kernel.FlatAlong context demand backend axis)
    (on : Call.BoundOn kernel.interface corner call part bound bound')
    (fits : (Frame.ofBound kernel.interface bound call.domain).FitsMemory) {after after' : Frame}
    (layout : ∀ n, View.SameLayout
      ((Frame.ofBound kernel.interface bound call.domain).view n) (after.view n))
    (layout' : ∀ n, View.SameLayout
      ((Frame.ofBound kernel.interface bound' part.domain).view n) (after'.view n))
    (mirrors : Frame.Mirrors kernel.interface corner (OutputRows kernel axis part.domain) after
      after')
    {n : Nat} {field : InterfaceField} (isField : kernel.interface.parameters[n]? = some field)
    (output : field.role = .output) {index : Offset}
    (within : Storage.Inside (after.view n).storage.shape index)
    (row : part.OnRow axis field index) :
    (after'.view n).element index = (after.view n).element index := by
  obtain ⟨shows, -⟩ := flat.planned.shows flat.face.1
  have found := flat.field_of_parameter isField
  have member := List.mem_of_getElem? found
  have parameter : field.isParameter = true := (List.mem_filter.mp (List.mem_of_getElem? isField)).2
  have full := shows.full field member (by rw [output]; decide)
  have serves := (Frame.ofBound_serves on.passed).view found
  have served := serves.of_sameLayout (layout n)
  have served' := ((Frame.ofBound_serves on.onPart).view found).of_sameLayout (layout' n)
  have volume := fits.volume (Frame.ofBound_serves on.passed) found
  rw [← (layout n).shape] at volume
  have shape : (after'.view n).storage.shape = (after.view n).storage.shape :=
    (layout' n).shape.trans
      ((flat.parameter_outline on isField).shape.symm.trans (layout n).shape.symm)
  have smallStart := served.small_start_of_inside full volume within
  have smallStart' : (field.start part.origins).Small :=
    served'.small_start_of_inside full (by rw [shape]; exact volume) (by rw [shape]; exact within)
  -- the element is that at a point of the grid, which can be read
  obtain ⟨p, point⟩ := served'.exists_index smallStart' full index
  have there := (served.index_part on.toOn served' full smallStart smallStart' parameter p).symm.trans
    point
  have read : (after.view n).read (p.add (Storage.offsetOf corner)) =
      .ok ((after.view n).element index) := by
    rw [View.read_eq_ok, there]
    exact ⟨within, served.lacks_eq_false (by rw [output]; decide) _, rfl⟩
  have onRow := (served'.onRow_iff smallStart' full axis p).mp (point.symm ▸ row)
  obtain ⟨-, -, value⟩ := View.read_eq_ok.mp
    (mirrors n field found p _ ⟨⟨field, member, rfl, output⟩, onRow⟩ read)
  rw [point] at value
  exact value

/-- **A run on rows of the domain succeeds if the whole run does**, and leaves the same elements on
these rows of the outputs. -/
theorem run_part (flat : kernel.FlatAlong context demand backend axis)
    (on : Call.BoundOn kernel.interface ((PerAxis.all 0).put axis start) call part bound bound')
    (rows : part.domain = call.domain.put axis size) (inside : start + size ≤ call.domain.along axis)
    (fits : (Frame.ofBound kernel.interface bound call.domain).FitsMemory)
    (small : call.domain.Small)
    (elements : ∀ n field, kernel.interface.parameters[n]? = some field → ∀ index,
      Storage.Inside
        ((Frame.ofBound kernel.interface bound call.domain).view n).storage.shape index →
      (field.role = .output → part.OnRow axis field index) →
      ((Frame.ofBound kernel.interface bound' part.domain).view n).element index =
        ((Frame.ofBound kernel.interface bound call.domain).view n).element index)
    {after : Frame}
    (ran : Schedule.runTasks (kernel.schedule.tasks call.domain)
      (.ofBound kernel.interface bound call.domain) = (after, none)) :
    ∃ after', Schedule.runTasks (kernel.schedule.tasks part.domain)
        (.ofBound kernel.interface bound' part.domain) = (after', none) ∧
      ∀ n field, kernel.interface.parameters[n]? = some field → field.role = .output →
        ∀ index, Storage.Inside (after.view n).storage.shape index → part.OnRow axis field index →
          (after'.view n).element index = (after.view n).element index := by
  obtain ⟨after', ran', mirrors⟩ :=
    flat.mirrors_run on rows inside fits small (flat.start_mirrors on fits elements) ran
  have layout := Schedule.sameLayout_runTasks (kernel.schedule.tasks call.domain)
    (.ofBound kernel.interface bound call.domain)
  have layout' := Schedule.sameLayout_runTasks (kernel.schedule.tasks part.domain)
    (.ofBound kernel.interface bound' part.domain)
  rw [ran] at layout
  rw [ran'] at layout'
  exact ⟨after', ran', fun n field isField output index within row =>
    flat.element_of_mirrors on fits layout layout' mirrors isField output within row⟩

end Kernel.FlatAlong

/-! ### Two runs -/

/-- Two calls on the first rows of a domain and on the others. The second one gets the buffers that
the first returns. -/
structure Kernel.Splits (kernel : Kernel) (axis : Axis) (size : Nat) (call first second : Call)
    (bound bound₁ bound₂ : BoundCall) : Prop where
  inside : size ≤ call.domain.along axis
  onFirst : Call.BoundOn kernel.interface ((PerAxis.all 0).put axis 0) call first bound bound₁
  onSecond : Call.BoundOn kernel.interface ((PerAxis.all 0).put axis size) call second bound bound₂
  firstRows : first.domain = call.domain.put axis size
  secondRows : second.domain = call.domain.put axis (call.domain.along axis - size)
  given : first.arguments = call.arguments
  handed : second.arguments = (kernel.run first).1

namespace Kernel.Splits

variable {kernel : Kernel} {context : Context} {demand : Demand} {backend : Backend} {axis : Axis}
  {size : Nat} {call first second : Call} {bound bound₁ bound₂ : BoundCall} {n : Nat}
  {field : InterfaceField}

/-- The first run starts with the buffers of the whole run. -/
theorem first_storage (splits : kernel.Splits axis size call first second bound bound₁ bound₂)
    (flat : kernel.FlatAlong context demand backend axis)
    (isField : kernel.interface.parameters[n]? = some field) :
    ((Frame.ofBound kernel.interface bound₁ first.domain).view n).storage =
      ((Frame.ofBound kernel.interface bound call.domain).view n).storage := by
  obtain ⟨given, given', isGiven, isGiven', -, -, same⟩ :=
    flat.parameter_views splits.onFirst isField
  have whole := flat.start_storage splits.onFirst.passed isField isGiven
  have part := flat.start_storage splits.onFirst.onPart isField isGiven'
  rw [splits.given, ← same.argument] at part
  exact Option.some.inj (part.symm.trans whole)

/-- The second run starts with the buffers in which the first ends. -/
theorem second_storage (splits : kernel.Splits axis size call first second bound bound₁ bound₂)
    (flat : kernel.FlatAlong context demand backend axis)
    (isField : kernel.interface.parameters[n]? = some field) :
    ((Frame.ofBound kernel.interface bound₂ second.domain).view n).storage =
      ((Schedule.runTasks (kernel.schedule.tasks first.domain)
        (.ofBound kernel.interface bound₁ first.domain)).1.view n).storage := by
  obtain ⟨given, given₁, isGiven, isGiven₁, -, -, same₁⟩ :=
    flat.parameter_views splits.onFirst isField
  obtain ⟨other, given₂, isOther, isGiven₂, -, -, same₂⟩ :=
    flat.parameter_views splits.onSecond isField
  obtain rfl := Option.some.inj (isGiven.symm.trans isOther)
  have sameArgument : given₂.argument = given₁.argument :=
    same₂.argument.symm.trans same₁.argument
  have start := flat.start_storage splits.onSecond.onPart isField isGiven₂
  obtain ⟨argument, there, -⟩ :=
    Option.map_eq_some_iff.mp (flat.start_storage splits.onFirst.onPart isField isGiven₁)
  rw [splits.handed, run_of_bound splits.onFirst.onPart rfl, sameArgument,
    flat.returned_view splits.onFirst.onPart isField isGiven₁
      ((Frame.ofBound_serves splits.onFirst.onPart).runTasks _), there] at start
  exact (Option.some.inj start).symm

section Small

variable (splits : kernel.Splits axis size call first second bound bound₁ bound₂)
  (flat : kernel.FlatAlong context demand backend axis)
  (fits : (Frame.ofBound kernel.interface bound call.domain).FitsMemory)
  (small : call.domain.Small)
include splits flat fits small

/-- The second run starts with the elements of the whole run, but for outputs on the first rows. -/
theorem second_elements (isField : kernel.interface.parameters[n]? = some field) {index : Offset}
    (inside : Storage.Inside
      ((Frame.ofBound kernel.interface bound call.domain).view n).storage.shape index)
    (outside : field.role = .output → ¬ first.OnRow axis field index) :
    ((Frame.ofBound kernel.interface bound₂ second.domain).view n).element index =
      ((Frame.ofBound kernel.interface bound call.domain).view n).element index := by
  rw [View.element_congr (splits.second_storage flat isField),
    flat.untouched_part splits.onFirst fits small isField inside outside,
    View.element_congr (splits.first_storage flat isField)]

/-- Both runs succeed, and leave the elements of the whole run. -/
theorem elements {after : Frame} (ran : Schedule.runTasks (kernel.schedule.tasks call.domain)
      (.ofBound kernel.interface bound call.domain) = (after, none)) :
    ∃ after₁ after₂, Schedule.runTasks (kernel.schedule.tasks first.domain)
        (.ofBound kernel.interface bound₁ first.domain) = (after₁, none) ∧
      Schedule.runTasks (kernel.schedule.tasks second.domain)
        (.ofBound kernel.interface bound₂ second.domain) = (after₂, none) ∧
      ∀ n field, kernel.interface.parameters[n]? = some field → ∀ index,
        Storage.Inside
          ((Frame.ofBound kernel.interface bound call.domain).view n).storage.shape index →
        (after₂.view n).element index = (after.view n).element index := by
  obtain ⟨after₁, ran₁, same₁⟩ := flat.run_part splits.onFirst splits.firstRows
    (by rw [Nat.zero_add]; exact splits.inside) fits small (fun n field isField index _ _ =>
      View.element_congr (splits.first_storage flat isField) index) ran
  have inside := splits.inside
  have rows := fun {field : InterfaceField} (parameter : field.isParameter = true) index =>
    And.intro (splits.onFirst.toOn.onRow_iff splits.firstRows parameter index)
      (splits.onSecond.toOn.onRow_iff splits.secondRows parameter index)
  obtain ⟨after₂, ran₂, same₂⟩ := flat.run_part splits.onSecond splits.secondRows (by omega) fits
    small (fun n field isField index within onRow =>
      splits.second_elements flat fits small isField within fun output isFirst => by
        obtain ⟨row₁, row₂⟩ := rows (List.mem_filter.mp (List.mem_of_getElem? isField)).2 index
        have after := row₂.mp (onRow output)
        have before := row₁.mp isFirst
        omega) ran
  refine ⟨after₁, after₂, ran₁, ran₂, fun n field isField index within => ?_⟩
  have parameter := (List.mem_filter.mp (List.mem_of_getElem? isField)).2
  obtain ⟨row₁, row₂⟩ := rows parameter index
  have layout := Schedule.sameLayout_runTasks (kernel.schedule.tasks call.domain)
    (.ofBound kernel.interface bound call.domain) n
  rw [ran] at layout
  have atEnd : Storage.Inside (after.view n).storage.shape index := layout.shape ▸ within
  by_cases onSecond : field.role = .output ∧ second.OnRow axis field index
  · exact same₂ n field isField onSecond.1 index atEnd onSecond.2
  -- the second run leaves the element as it was in the end of the first
  have kept₂ := flat.untouched_part splits.onSecond fits small isField within
    (fun output row => onSecond ⟨output, row⟩)
  rw [ran₂, View.element_congr (splits.second_storage flat isField), ran₁] at kept₂
  rw [kept₂]
  by_cases onFirst : field.role = .output ∧ first.OnRow axis field index
  · exact same₁ n field isField onFirst.1 index atEnd onFirst.2
  -- none of the runs writes the element
  have kept₁ := flat.untouched_part splits.onFirst fits small isField within
    (fun output row => onFirst ⟨output, row⟩)
  rw [ran₁, View.element_congr (splits.first_storage flat isField)] at kept₁
  have kept := flat.untouched splits.onFirst.passed fits small (flat.field_of_parameter isField)
    parameter within (fun output row => by
      have notFirst : ¬ first.OnRow axis field index := fun row => onFirst ⟨output, row⟩
      have notSecond : ¬ second.OnRow axis field index := fun row => onSecond ⟨output, row⟩
      rw [row₁] at notFirst
      rw [row₂] at notSecond
      unfold Call.OnRow at row
      omega)
  rw [ran] at kept
  rw [kept₁, kept]

/-- **Both runs succeed, and leave the buffers of the whole run.** -/
theorem storages {after : Frame} (ran : Schedule.runTasks (kernel.schedule.tasks call.domain)
      (.ofBound kernel.interface bound call.domain) = (after, none)) :
    ∃ after₁ after₂, Schedule.runTasks (kernel.schedule.tasks first.domain)
        (.ofBound kernel.interface bound₁ first.domain) = (after₁, none) ∧
      Schedule.runTasks (kernel.schedule.tasks second.domain)
        (.ofBound kernel.interface bound₂ second.domain) = (after₂, none) ∧
      ∀ n field, kernel.interface.parameters[n]? = some field →
        (after₂.view n).storage = (after.view n).storage := by
  obtain ⟨after₁, after₂, ran₁, ran₂, same⟩ := splits.elements flat fits small ran
  refine ⟨after₁, after₂, ran₁, ran₂, fun n field isField => ?_⟩
  have layout := Schedule.sameLayout_runTasks (kernel.schedule.tasks call.domain)
    (.ofBound kernel.interface bound call.domain) n
  have layout₂ := Schedule.sameLayout_runTasks (kernel.schedule.tasks second.domain)
    (.ofBound kernel.interface bound₂ second.domain) n
  rw [ran] at layout
  rw [ran₂] at layout₂
  have start := flat.parameter_outline splits.onSecond isField
  have shape := layout₂.shape.trans start.shape.symm
  refine Storage.eq_of_elements (shape.trans layout.shape.symm)
    (layout₂.type.trans (start.type.symm.trans layout.type.symm)) fun index within => ?_
  have element := same n field isField index (shape ▸ within)
  unfold View.element at element
  rwa [← shape.trans layout.shape.symm] at element

/-- Both runs succeed, and return what the whole run returns, in a domain that is small. -/
theorem run_of_small (succeeded : (kernel.run call).2 = none) :
    (kernel.run first).2 = none ∧ (kernel.run second).2 = none ∧
      (kernel.run second).1 = (kernel.run call).1 := by
  cases ran : Schedule.runTasks (kernel.schedule.tasks call.domain)
    (.ofBound kernel.interface bound call.domain) with
  | mk after failure =>
    rw [run_of_bound splits.onFirst.passed ran] at succeeded ⊢
    obtain rfl : failure = none := Option.map_eq_none_iff.mp succeeded
    obtain ⟨after₁, after₂, ran₁, ran₂, storage⟩ := splits.storages flat fits small ran
    have handed := splits.handed
    rw [run_of_bound splits.onFirst.onPart ran₁] at handed ⊢
    rw [run_of_bound splits.onSecond.onPart ran₂]
    have serves := (Frame.ofBound_serves splits.onFirst.passed).runTasks
      (kernel.schedule.tasks call.domain)
    have serves₁ := (Frame.ofBound_serves splits.onFirst.onPart).runTasks
      (kernel.schedule.tasks first.domain)
    have serves₂ := (Frame.ofBound_serves splits.onSecond.onPart).runTasks
      (kernel.schedule.tasks second.domain)
    rw [ran] at serves
    rw [ran₁] at serves₁
    rw [ran₂] at serves₂
    refine ⟨rfl, rfl, List.ext_getElem? fun number => ?_⟩
    by_cases isBound : number ∈ bound.fields.map BoundField.argument
    · obtain ⟨n, field, given, isField, isGiven, rfl⟩ :=
        Call.exists_parameter splits.onFirst.passed isBound
      obtain ⟨given', given₁, isGiven', isGiven₁, -, -, same₁⟩ :=
        flat.parameter_views splits.onFirst isField
      obtain rfl := Option.some.inj (isGiven.symm.trans isGiven')
      obtain ⟨given', given₂, isGiven', isGiven₂, -, -, same₂⟩ :=
        flat.parameter_views splits.onSecond isField
      obtain rfl := Option.some.inj (isGiven.symm.trans isGiven')
      have number₁ : given.argument = given₁.argument := same₁.argument
      have number₂ : given.argument = given₂.argument := same₂.argument
      rw [flat.returned_view splits.onFirst.passed isField isGiven serves]
      rw [number₂, flat.returned_view splits.onSecond.onPart isField isGiven₂ serves₂, handed,
        ← number₂, number₁, flat.returned_view splits.onFirst.onPart isField isGiven₁ serves₁,
        splits.given, Option.map_map]
      rw [storage n _ isField]
      rfl
    · have none₁ : number ∉ bound₁.fields.map BoundField.argument :=
        splits.onFirst.numbers ▸ isBound
      have none₂ : number ∉ bound₂.fields.map BoundField.argument :=
        splits.onSecond.numbers ▸ isBound
      rw [returned_other none₂, handed, returned_other none₁, returned_other isBound, splits.given]

end Small

/-- **Both runs succeed, and return what the whole run returns.** -/
theorem run (splits : kernel.Splits axis size call first second bound bound₁ bound₂)
    (flat : kernel.FlatAlong context demand backend axis)
    (fits : (Frame.ofBound kernel.interface bound call.domain).FitsMemory)
    (succeeded : (kernel.run call).2 = none) :
    (kernel.run first).2 = none ∧ (kernel.run second).2 = none ∧
      (kernel.run second).1 = (kernel.run call).1 := by
  by_cases small : call.domain.Small
  · exact splits.run_of_small flat fits small succeeded
  · -- nothing has any points
    have passed := splits.onFirst.passed
    have whole := flat.run_of_empty passed (flat.empty_of_large passed fits small (.refl _))
    have one := flat.run_of_empty splits.onFirst.onPart
      (flat.empty_of_large passed fits small splits.onFirst.domain)
    have other := flat.run_of_empty splits.onSecond.onPart
      (flat.empty_of_large passed fits small splits.onSecond.domain)
    have returned : (kernel.run first).1 = first.arguments := congrArg Prod.fst one
    refine ⟨congrArg Prod.snd one, congrArg Prod.snd other, ?_⟩
    rw [other, whole, splits.handed, returned, splits.given]

end Kernel.Splits

/-- A bound call can be split at any row. -/
theorem Kernel.FlatAlong.exists_splits {kernel : Kernel} {context : Context} {demand : Demand}
    {backend : Backend} {axis : Axis} (flat : kernel.FlatAlong context demand backend axis)
    {call : Call} {bound : BoundCall} (passed : call.bind kernel.interface = .ok bound) {size : Nat}
    (inside : size ≤ call.domain.along axis) {origins : Origins}
    (moved : ∀ field, origins.of field =
      (call.origins.of field).put axis ((call.origins.of field).along axis + size)) :
    let first : Call := { call with domain := call.domain.put axis size }
    let second : Call := ⟨(kernel.run first).1, call.scalars, origins,
      call.domain.put axis (call.domain.along axis - size)⟩
    ∃ bound₁ bound₂, kernel.Splits axis size call first second bound bound₁ bound₂ := by
  intro first second
  have onFirst : Call.On ((PerAxis.all 0).put axis 0) call first := by
    refine ⟨PerAxis.part_put flat.horizontal (by omega), ?_, rfl, fun field => ?_⟩
    · exact List.forall₂_same.mpr fun argument _ => ⟨rfl, ⟨rfl, rfl⟩, rfl⟩
    · cases axis <;> rfl
  obtain ⟨bound₁, boundFirst⟩ := onFirst.bind passed
  have onSecond : Call.On ((PerAxis.all 0).put axis size) call second := by
    refine ⟨PerAxis.part_put flat.horizontal (by omega), ?_, rfl, fun field => ?_⟩
    · have alike := flat.returned_sameOutline boundFirst.onPart
        (kernel.schedule.tasks first.domain)
      have returned : (kernel.run first).1 = _ :=
        congrArg Prod.fst (Kernel.run_of_bound boundFirst.onPart rfl)
      show List.Forall₂ Argument.SameOutline call.arguments (kernel.run first).1
      rw [returned]
      exact alike
    · rw [moved field]
      cases axis <;> rfl
  obtain ⟨bound₂, boundSecond⟩ := onSecond.bind passed
  exact ⟨bound₁, bound₂, inside, boundFirst, boundSecond, rfl, rfl, rfl, rfl⟩

/-- **Splitting the domain does not change the result.** In a stencil whose outputs are needed on
the domain only along a horizontal axis, for either backend: if a run succeeds, then it may as well be
done on the first rows, and afterwards on the others, with all origins moved. Both runs succeed, and
all buffers are as the single run leaves them. -/
theorem Kernel.run_split {definition : Definition} {externals : Externals} {backend : Backend}
    {signature : Signature} {context : Context} {kernel : Kernel}
    (compiled : (Registry.compile definition externals backend signature).value =
      .ok (context, kernel))
    {demand : Demand} (known : context.demand = some demand) {axis : Axis} (horizontal : axis ≠ .k)
    (flat : demand.FlatAlong context.program axis) {call : Call} {bound : BoundCall}
    (passed : call.bind kernel.interface = .ok bound)
    (fits : (Frame.ofBound kernel.interface bound call.domain).FitsMemory)
    (succeeded : (kernel.run call).2 = none) {size : Nat}
    (inside : size ≤ call.domain.along axis) {origins : Origins}
    (moved : ∀ field, origins.of field =
      (call.origins.of field).put axis ((call.origins.of field).along axis + size)) :
    let first : Call := { call with domain := call.domain.put axis size }
    let second : Call := ⟨(kernel.run first).1, call.scalars, origins,
      call.domain.put axis (call.domain.along axis - size)⟩
    (kernel.run first).2 = none ∧ (kernel.run second).2 = none ∧
      (kernel.run second).1 = (kernel.run call).1 := by
  intro first second
  obtain ⟨planned, made⟩ := Registry.compile_eq_ok compiled
  have flatKernel : kernel.FlatAlong context demand backend axis :=
    ⟨planned, made, known, horizontal, flat⟩
  obtain ⟨bound₁, bound₂, splits⟩ := flatKernel.exists_splits passed inside moved
  exact splits.run flatKernel fits succeeded

/-- The call for samples on two columns. -/
def Sample.wide : Call :=
  { call with
    arguments := [⟨none, .zeros ⟨4, 1, 2⟩ .f64, false⟩, ⟨none, .zeros ⟨2, 1, 2⟩ .f64, true⟩]
    domain := ⟨2, 1, 2⟩ }

/-- Whether a definition compiles, its outputs are flat along the first axis, and the run on two
columns succeeds in buffers that fit the memory. -/
def Sample.runsWide (definition : Definition) (backend : Backend) : Bool :=
  match (Registry.compile definition .empty backend .empty).value with
  | .error _ => false
  | .ok (context, kernel) =>
    match context.demand, wide.bind kernel.interface with
    | some demand, .ok bound =>
      (context.program.outputs.all fun field =>
        (demand.extent? field.name).any fun extent => extent.i = ⟨0, 0⟩) &&
        ((Frame.ofBound kernel.interface bound wide.domain).views.all fun view =>
          decide ((view.storage.shape.volume : Int) < Number.int64Bound)) &&
        (kernel.run wide).2.isNone
    | _, _ => false

theorem Sample.runsWide_sums (backend : Backend) : runsWide sums backend = true := by
  cases backend <;> decide +kernel

/-- Sums from plane to plane are the same column by column, though each column computes the
temporary next to it again. -/
theorem Kernel.run_split_sums : ∃ kernel : Kernel, (kernel.run Sample.wide).2 = none ∧
    (kernel.run ⟨(kernel.run { Sample.wide with domain := ⟨1, 1, 2⟩ }).1, [],
      ⟨⟨1, 0, 0⟩, Name.Table.empty.insert "a" ⟨2, 0, 0⟩⟩, ⟨1, 1, 2⟩⟩).1 =
      (kernel.run Sample.wide).1 := by
  have runs := Sample.runsWide_sums .vector
  unfold Sample.runsWide at runs
  split at runs
  · cases runs
  next context kernel compiled =>
    split at runs
    next demand bound known passed =>
      simp only [Bool.and_eq_true, List.all_eq_true, decide_eq_true_eq, Option.any_eq_true] at runs
      obtain ⟨⟨flat, fits⟩, succeeded⟩ := runs
      have done := Option.isNone_iff_eq_none.mp succeeded
      have moved : ∀ field : String,
          (⟨⟨1, 0, 0⟩, Name.Table.empty.insert "a" ⟨2, 0, 0⟩⟩ : Origins).of field =
            (Sample.wide.origins.of field).put .i ((Sample.wide.origins.of field).along .i + 1) := by
        intro field
        unfold Origins.of
        dsimp only [Sample.wide, Sample.call]
        rw [Name.Table.get?_insert, Name.Table.get?_insert]
        split <;> rfl
      exact ⟨kernel, done, (run_split compiled known (show Axis.i ≠ .k by decide) flat passed fits
        done (show 1 ≤ Sample.wide.domain.along .i by decide) moved).2.2⟩
    · cases runs

end GridStencil
