import GridStencil.Proofs.Simulation

/-!
**Runs of compiled stencils refine the reference execution.**

At the start, a frame agrees with every state that extends the buffers of the call from the domain
and its padding to the whole grid: nothing else is ever read. In the end, the outputs matter on the
domain, and can be read there.

* `Kernel.refines_reference`: the outputs of a run on the domain are those of the reference.
-/

namespace GridStencil

open Program

/-! ### Buffers and states -/

/-- The buffer of a parameter holds what a state has for it on the domain and its padding. What the
state has elsewhere may be anything. -/
structure BoundField.Holds (call : Call) (state : Reference.State) (field : InterfaceField)
    (given : BoundField) : Prop where
  zero : field.dimensions = .zero → ∀ p, given.storage.get? (.all 0) = some (state field.name p)
  ijk : field.dimensions = .ijk → ∀ index : PerAxis Nat,
    InBox field.halo given.origin call.domain (Storage.offsetOf index) →
    given.storage.get? index = some (state field.name
      ⟨index.i - given.origin.i, index.j - given.origin.j, index.k - given.origin.k⟩)

/-- A state extends the buffers of a bound call to the whole grid. -/
def BoundCall.ExtendedBy (bound : BoundCall) (interface : Interface) (call : Call)
    (state : Reference.State) : Prop :=
  ∀ field given, (field, given) ∈ interface.parameters.zip bound.fields →
    given.Holds call state field

/-- The value that a call gives to a scalar, rounded to its type. -/
def Call.scalarOf (call : Call) (interface : Interface) (name : String) : Float :=
  match interface.scalars.find? (·.name == name), call.scalars.lookup name with
  | some scalar, some value => scalar.type.cast value.toFloat
  | _, _ => 0.0

/-- The buffers of a call are small enough for a memory of 64 bits. -/
def Call.FitsMemory (call : Call) : Prop :=
  ∀ argument ∈ call.arguments, (argument.storage.shape.volume : Int) < Number.int64Bound

/-- In a call that fits the memory, a domain with points is small, and so are the origins in
buffers. -/
theorem Call.BoundTo.small {call : Call} {field : InterfaceField} {given : BoundField}
    (bound : call.BoundTo field given) (fits : call.FitsMemory) (full : field.dimensions = .ijk)
    (i : 0 < call.domain.i) (j : 0 < call.domain.j) (k : 0 < call.domain.k) :
    call.domain.Small ∧ given.origin.Small := by
  obtain ⟨argument, there, same⟩ := bound.argument
  obtain ⟨coversI, coversJ, coversK⟩ := bound.covers full
  have i' := coversI.above
  have j' := coversJ.above
  have k' := coversK.above
  have volume := fits argument (List.mem_of_getElem? there)
  rw [same] at volume
  have small := PerAxis.small_of_volume volume (by omega) (by omega) (by omega)
  exact ⟨PerAxis.small_of_le small (by omega) (by omega) (by omega),
    PerAxis.small_of_le small (by omega) (by omega) (by omega)⟩

/-- The element at a point that can be read is what is read. -/
theorem View.get?_of_read {view : View} {p : Offset} {x : Float} (read : view.read p = .ok x)
    {index : PerAxis Nat} (same : view.index p = Storage.offsetOf index) :
    view.storage.get? index = some x := by
  obtain ⟨inside, -, value⟩ := View.read_eq_ok.mp read
  unfold Storage.get?
  rw [← same, Storage.place?_eq_some.mpr ⟨inside, rfl⟩, Option.map_some, value]

/-- A state that extends the buffers of a bound call, with zeros where they have no values. -/
def BoundCall.extension (bound : BoundCall) (interface : Interface) : Reference.State :=
  fun name p =>
    match (interface.parameters.zip bound.fields).find? (·.1.name == name) with
    | none => 0.0
    | some (field, given) =>
      let index : PerAxis Nat := if field.dimensions = .zero then .all 0 else
        ⟨(given.origin.i + p.i).toNat, (given.origin.j + p.j).toNat,
          (given.origin.k + p.k).toNat⟩
      (given.storage.get? index).getD 0.0

theorem Storage.get?_of_inside {storage : Storage} {index : PerAxis Nat}
    (inside : Inside storage.shape (offsetOf index)) :
    storage.get? index = some ((storage.get? index).getD 0.0) := by
  unfold get?
  rw [place?_eq_some.mpr ⟨inside, rfl⟩]
  rfl

/-- **Every bound call has a state that extends its buffers.** -/
theorem BoundCall.extension_extends {call : Call} {interface : Interface} {bound : BoundCall}
    (passed : call.bind interface = .ok bound)
    (distinct : (interface.fields.map InterfaceField.name).Nodup) :
    bound.ExtendedBy interface call (bound.extension interface) := by
  intro field given member
  have boundTo := (List.forall₂_iff_zip.mp (Call.bind_boundTo passed)).2 member
  have found : (interface.parameters.zip bound.fields).find? (·.1.name == field.name) =
      some (field, given) := by
    have lengths := List.Forall₂.length_eq (Call.bind_boundTo passed)
    have names : ((interface.parameters.zip bound.fields).map (·.1.name)).Nodup := by
      rw [show (fun pair : InterfaceField × BoundField => pair.1.name) =
        InterfaceField.name ∘ Prod.fst from rfl, ← List.map_map,
        List.map_fst_zip (Nat.le_of_eq lengths)]
      exact distinct.sublist (List.filter_sublist.map _)
    cases result : (interface.parameters.zip bound.fields).find? (·.1.name == field.name) with
    | none => exact absurd (beq_iff_eq.mpr rfl) (List.find?_eq_none.mp result _ member)
    | some pair =>
      have named := List.find?_some result
      exact congrArg some (List.inj_on_of_nodup_map names (List.mem_of_find?_eq_some result) member
        (beq_iff_eq.mp named))
  refine ⟨fun zero p => ?_, fun full index box => ?_⟩
  · unfold extension
    rw [found]
    dsimp only
    rw [if_pos zero]
    refine Storage.get?_of_inside ?_
    rw [boundTo.point zero]
    exact Frame.inside_pointShape
  · unfold extension
    rw [found]
    dsimp only
    rw [if_neg (by rw [full]; decide)]
    have same : (⟨(given.origin.i + (index.i - given.origin.i : Int)).toNat,
        (given.origin.j + (index.j - given.origin.j : Int)).toNat,
        (given.origin.k + (index.k - given.origin.k : Int)).toNat⟩ : PerAxis Nat) = index := by
      obtain ⟨i, j, k⟩ := index
      simp only [PerAxis.mk.injEq]
      omega
    rw [same]
    refine Storage.get?_of_inside ?_
    obtain ⟨coversI, coversJ, coversK⟩ := boundTo.covers full
    obtain ⟨boxI, boxJ, boxK⟩ := box
    have i := coversI.above
    have j := coversJ.above
    have k := coversK.above
    refine ⟨⟨?_, ?_⟩, ⟨?_, ?_⟩, ?_, ?_⟩ <;> simp only [Storage.offsetOf] at * <;> omega

/-! ### The start of a run -/

namespace Frame

/-- The points of the domain and its padding. -/
def Around (interface : Interface) (domain : PerAxis Nat) : Demanded := fun name p =>
  ∀ field ∈ interface.fields, field.name = name → Padded field.halo domain p

/-- A temporary cannot be read before any of its planes is computed. -/
theorem read_viewOfTemporary {field : InterfaceField} (full : field.dimensions = .ijk)
    (domain : PerAxis Nat) (p : Offset) (x : Float) :
    (viewOfTemporary field domain).read p ≠ .ok x := by
  intro read
  obtain ⟨inside, complete, -⟩ := View.read_eq_ok.mp read
  have notZero : (decide (field.dimensions = .zero)) = false := by rw [full]; rfl
  have computed : (viewOfTemporary field domain).computed =
      some (List.replicate (viewOfTemporary field domain).storage.shape.k false) := by
    show (if _ then _ else _) = some (List.replicate (if _ then _ else _ : PerAxis Nat).k false)
    rw [notZero]
    rfl
  have index : ((viewOfTemporary field domain).index p).k =
      (viewOfTemporary field domain).origin.k + p.k := by
    have zeroDim : (viewOfTemporary field domain).zeroDim = false := notZero
    unfold View.index
    rw [zeroDim]
    rfl
  obtain ⟨-, -, above, below⟩ := inside
  rw [index] at above below
  unfold View.lacks at complete
  rw [computed] at complete
  dsimp only at complete
  rw [List.getElem?_replicate, if_pos (by omega), decide_eq_true above] at complete
  cases complete

/-- The view of a parameter agrees with every state that its buffer holds. -/
theorem eq_of_holds {call : Call} {field : InterfaceField} {given : BoundField}
    {state : Reference.State} (boundTo : call.BoundTo field given)
    (holds : given.Holds call state field) (parameter : field.isParameter = true)
    (small : field.dimensions = .ijk → given.origin.Small) {p : Offset} {x : Float}
    (padded : Padded field.halo call.domain p)
    (read : (viewOfBound field given).read p = .ok x) : state field.name p = x := by
  have serves := viewOfBound_serves boundTo parameter
  have start : field.start call.origins = given.origin := by
    unfold InterfaceField.start
    rw [if_pos parameter, boundTo.origin]
  cases dimensions : field.dimensions with
  | zero =>
    have index : (viewOfBound field given).index p = Storage.offsetOf (.all 0) :=
      if_pos (serves.zeroDim.mpr dimensions)
    exact Option.some.inj ((holds.zero dimensions p).symm.trans (View.get?_of_read read index))
  | ijk =>
    have smallStart : (field.start call.origins).Small := start ▸ small dimensions
    have box := (serves.contains smallStart dimensions padded).2
    have index := serves.index_eq smallStart dimensions p
    rw [start] at box index
    obtain ⟨⟨i, -⟩, ⟨j, -⟩, ⟨k, -⟩⟩ := (View.read_eq_ok.mp read).1
    rw [index] at i j k
    simp only at i j k
    -- the point of the grid, as a point of the buffer
    let place : PerAxis Nat := ⟨(given.origin.i + p.i).toNat, (given.origin.j + p.j).toNat,
      (given.origin.k + p.k).toNat⟩
    have same : (viewOfBound field given).index p = Storage.offsetOf place := by
      rw [index]
      simp only [Storage.offsetOf, place, Offset.mk.injEq]
      omega
    have back : (⟨place.i - given.origin.i, place.j - given.origin.j,
        place.k - given.origin.k⟩ : Offset) = p := by
      obtain ⟨pi, pj, pk⟩ := p
      simp only [place, Offset.mk.injEq] at i j k ⊢
      omega
    rw [same] at box
    have held := holds.ijk dimensions place box
    rw [back] at held
    exact Option.some.inj (held.symm.trans (View.get?_of_read read same))

/-- **A frame agrees at the start** with every state that extends the buffers of the call. -/
theorem Agrees.start {interface : Interface} {call : Call} {bound : BoundCall}
    (passed : call.bind interface = .ok bound) {state : Reference.State}
    (extended : bound.ExtendedBy interface call state)
    (small : ∀ field given, call.BoundTo field given → field.dimensions = .ijk →
      given.origin.Small)
    (full : ∀ field ∈ interface.fields, field.role ≠ .input → field.dimensions = .ijk) :
    (ofBound interface bound call.domain).Agrees interface
      (Around interface call.domain) state := by
  have related : List.Forall₂ (fun field given =>
      call.BoundTo field given ∧ given.Holds call state field)
      interface.parameters bound.fields := by
    have boundTo := List.forall₂_iff_zip.mp (Call.bind_boundTo passed)
    exact List.forall₂_iff_zip.mpr
      ⟨boundTo.1, fun member => ⟨boundTo.2 member, extended _ _ member⟩⟩
  have views := viewsOf_forall₂ call.domain related
  intro slot field found p x matters read
  obtain ⟨below, rfl⟩ := List.getElem?_eq_some_iff.mp found
  have member := List.mem_of_getElem? found
  have padded := matters _ member rfl
  have below' : slot < (viewsOf call.domain interface.fields bound.fields).length :=
    List.Forall₂.length_eq views ▸ below
  have view : (ofBound interface bound call.domain).view slot =
      (viewsOf call.domain interface.fields bound.fields)[slot] := by
    show (viewsOf call.domain interface.fields bound.fields).getD slot _ = _
    rw [List.getD_eq_getElem?_getD, List.getElem?_eq_getElem below', Option.getD_some]
  rw [view] at read
  rcases List.Forall₂.get views below below' with
    ⟨parameter, given, ⟨boundTo, holds⟩, same⟩ | ⟨temporary, same⟩
  · rw [List.get_eq_getElem, List.get_eq_getElem] at same
    rw [same] at read
    exact eq_of_holds boundTo holds parameter (small _ _ boundTo) padded read
  · rw [List.get_eq_getElem, List.get_eq_getElem] at same
    rw [same] at read
    refine absurd read (read_viewOfTemporary (full _ member fun input => ?_) _ p x)
    have isParameter : interface.fields[slot].isParameter = true := by
      unfold InterfaceField.isParameter
      rw [input]
      rfl
    exact absurd (isParameter.symm.trans temporary) (by decide)

end Frame

/-- **The scalars of a bound call** have the values that the call gives them. -/
theorem Call.bind_scalars {call : Call} {interface : Interface} {bound : BoundCall}
    (passed : call.bind interface = .ok bound) :
    (Frame.ofBound interface bound call.domain).ScalarsAre interface
      (call.scalarOf interface) := by
  obtain ⟨_, -, values⟩ := Steps.bind_eq_ok.mp (bind_fields passed).2
  have related := Steps.mapM_eq_ok.mp values
  intro name slot found
  obtain ⟨below, named, first⟩ := List.findIdx?_eq_some_iff_getElem.mp found
  have below' : slot < bound.scalars.length := List.Forall₂.length_eq related ▸ below
  have value := List.Forall₂.get related below below'
  rw [List.get_eq_getElem, List.get_eq_getElem] at value
  have same : (Frame.ofBound interface bound call.domain).scalar slot = bound.scalars[slot] := by
    show bound.scalars.getD slot 0.0 = _
    rw [List.getD_eq_getElem?_getD, List.getElem?_eq_getElem below', Option.getD_some]
  have scalar : interface.scalars.find? (·.name == name) = some interface.scalars[slot] :=
    List.find?_eq_some_iff_getElem.mpr
      ⟨named, slot, below, rfl, fun other less => by simpa using first other less⟩
  rw [same]
  unfold scalarOf
  rw [scalar]
  unfold bindScalar at value
  rw [beq_iff_eq.mp named] at value
  split at value
  · cases value
  next literal given =>
    split at value
    · rw [given]
      exact (Except.ok.inj value).symm
    · cases value

/-! ### The end of a run -/

namespace Kernel

theorem returned_other {fields : List BoundField} {views : List View} {arguments : List Argument}
    {number : Nat} (other : number ∉ fields.map BoundField.argument) :
    (returned fields views arguments)[number]? = arguments[number]? := by
  induction fields generalizing views arguments with
  | nil => rfl
  | cons first rest ih =>
    rw [List.map_cons, List.mem_cons, not_or] at other
    cases views with
    | nil => rfl
    | cons view views =>
      unfold returned
      rw [ih other.2, List.getElem?_modify_ne _ _ (Ne.symm other.1)]

/-- **The buffers of bound parameters are those of their views** in the end. -/
theorem returned_bound {fields : List BoundField} {views : List View} {arguments : List Argument}
    (distinct : (fields.map BoundField.argument).Nodup) {n : Nat} {given : BoundField} {view : View}
    (found : fields[n]? = some given) (there : views[n]? = some view) :
    (returned fields views arguments)[given.argument]? =
      arguments[given.argument]?.map ({ · with storage := view.storage }) := by
  induction fields generalizing views arguments n with
  | nil => cases found
  | cons first rest ih =>
    rw [List.map_cons, List.nodup_cons] at distinct
    cases views with
    | nil => cases there
    | cons head views =>
      unfold returned
      cases n with
      | zero =>
        cases found
        cases there
        rw [returned_other distinct.1, List.getElem?_modify_eq]
        rfl
      | succ n =>
        have later : rest[n]? = some given := found
        have different : first.argument ≠ given.argument := fun same =>
          distinct.1 (same ▸ List.mem_map_of_mem (List.mem_of_getElem? later))
        rw [ih distinct.2 later there, List.getElem?_modify_ne _ _ different]

/-- The buffer of a bound parameter in the end. -/
theorem returned_storage {fields : List BoundField} {views : List View} {arguments : List Argument}
    (distinct : (fields.map BoundField.argument).Nodup) {n : Nat} {given : BoundField} {view : View}
    (found : fields[n]? = some given) (there : views[n]? = some view)
    (inside : ∃ argument, arguments[given.argument]? = some argument) :
    ∃ argument, (returned fields views arguments)[given.argument]? = some argument ∧
      argument.storage = view.storage := by
  obtain ⟨argument, isArgument⟩ := inside
  rw [returned_bound distinct found there, isArgument]
  exact ⟨_, rfl, rfl⟩

end Kernel

/-- What the interface of a planned context shows. -/
theorem Context.Planned.shows {context : Context} (planned : context.Planned)
    {interface : Interface} (face : Interface.ofContext? context = .ok interface) :
    interface.Shows context.program ∧
      interface.fields = interface.parameters ++ interface.fields.filter (!·.isParameter) := by
  obtain ⟨demand, known, -⟩ := planned.demand
  have wellFormed := planned.wellFormed
  obtain ⟨fields, -, -⟩ := Interface.ofContext?_eq_ok known face
  refine ⟨⟨?_, fun field member x => ?_, fun field member => ?_⟩, ?_⟩
  · rw [fields, List.map_map]
    exact wellFormed.distinct
  · rw [fields] at member
    obtain ⟨declared, inProgram, rfl⟩ := List.mem_map.mp member
    have found : context.program.field? declared.name = some declared := by
      cases result : context.program.field? declared.name with
      | none => exact absurd (beq_iff_eq.mpr rfl) (List.find?_eq_none.mp result declared inProgram)
      | some other =>
        have named := List.find?_some result
        exact congrArg some (Scope.eq_of_name wellFormed.distinct
          (List.mem_of_find?_eq_some result) inProgram (beq_iff_eq.mp named))
    unfold Reference.cast
    dsimp only
    rw [found]
  · rw [fields] at member
    obtain ⟨declared, inProgram, rfl⟩ := List.mem_map.mp member
    exact wellFormed.full declared inProgram
  · unfold Interface.parameters
    rw [fields, List.filter_map, List.filter_map, ← List.map_append]
    exact congrArg _ wellFormed.ordered

namespace Kernel

section

variable {context : Context} {backend : Backend} {kernel : Kernel} {call : Call}
  {bound : BoundCall} {state : Reference.State}

/-- **The assignments of a planned kernel** are what its tasks carry out, and their demand is sound
in the domain and its padding. -/
theorem sound_assignments (planned : context.Planned)
    (made : ofContext? backend context = .ok kernel)
    (passed : call.bind kernel.interface = .ok bound) (small : call.domain.Small) :
    ∃ (demand : Demand) (before : Demanded), context.demand = some demand ∧
      (∀ block ∈ context.program.blocks, Check.Ordered call.domain.k block) ∧
      Sound call.domain (context.program.assignments demand call.domain)
        (fun name p => before name p ∧ Frame.Around kernel.interface call.domain name p)
        (fun name p => (Demand.Demands.start context.program).needs.Reaches call.domain name p ∧
          Frame.Around kernel.interface call.domain name p) ∧
      (∀ assignment ∈ context.program.assignments demand call.domain,
        ∀ field ∈ kernel.interface.fields, field.name = assignment.statement.target →
          field.dimensions = .ijk) ∧
      List.Forall₂ (Job.DoneBy kernel.interface)
        ((context.program.assignments demand call.domain).filterMap (Assignment.job? call.domain))
        (kernel.schedule.tasks call.domain) := by
  obtain ⟨demand, known, face, scheduled⟩ := ofContext?_eq_ok made
  obtain ⟨other, known', found⟩ := planned.demand
  obtain rfl : demand = other := Option.some.inj (known.symm.trans known')
  obtain ⟨needs, swept, -⟩ := Demand.ofProgram?_swept found
  obtain ⟨fields, -, planes⟩ := Interface.ofContext?_eq_ok known face
  have enough : context.minPlanes ≤ call.domain.k := planes ▸ Call.bind_planes passed
  have ordered := Check.intervals_allows small.k planned.wellFormed (planned.intervals.mono enough)
  have done := Schedule.tasks_doneBy scheduled call.domain
  rw [Program.jobs_eq] at done
  have sound : Sound call.domain (context.program.assignments demand call.domain) _ _ :=
    Program.assignments_sound small (fun block member => ordered block (by
      rwa [List.zipIdx_map_fst] at member)) swept
  refine ⟨demand, needs.Reaches call.domain, known, ordered,
    sound.within fun job isJob p inside read isRead field member named => ?_,
    fun assignment isAssignment field member named => ?_, done⟩
  · rw [← Program.jobs_eq] at isJob
    rw [fields] at member
    obtain ⟨declared, inProgram, rfl⟩ := List.mem_map.mp member
    rw [show demand.halo declared.name = demand.halo read.field from congrArg _ named]
    exact (Program.job_padded planned known small enough isJob inside).2.2 read isRead
      ⟨declared, inProgram, named⟩
  · obtain ⟨block, inProgram, part, inBlock, inPart⟩ := Program.mem_assignments isAssignment
    exact (Interface.target_of_ofContext? planned known face inProgram inBlock inPart member
      named).1

/-- **At the end of a run**, the frame agrees with the reference about the outputs on the domain. -/
theorem agrees_at_end (planned : context.Planned) (made : ofContext? backend context = .ok kernel)
    (passed : call.bind kernel.interface = .ok bound) (small : call.domain.Small)
    (start : (Frame.ofBound kernel.interface bound call.domain).Agrees kernel.interface
      (Frame.Around kernel.interface call.domain) state)
    {after : Frame}
    (ran : Schedule.runTasks (kernel.schedule.tasks call.domain)
      (.ofBound kernel.interface bound call.domain) = (after, none)) :
    after.Serves kernel.interface call ∧ after.Agrees kernel.interface
      (fun name p => (Demand.Demands.start context.program).needs.Reaches call.domain name p ∧
        Frame.Around kernel.interface call.domain name p)
      (Reference.run context.program (call.scalarOf kernel.interface) call.domain state) := by
  obtain ⟨-, -, face, -⟩ := ofContext?_eq_ok made
  obtain ⟨shows, -⟩ := planned.shows face
  obtain ⟨demand, before, -, ordered, sound, assigned, done⟩ :=
    sound_assignments planned made passed small
  rw [Reference.run_eq _ _ demand ordered]
  exact Frame.Agrees.runTasks shows (Frame.ofBound_serves passed) (Call.bind_scalars passed)
    (fun slot field found p x matters => start slot field found p x matters.2) sound assigned done
    ran

/-- An output can be read on the domain, and has the element of its buffer there. -/
theorem read_output {frame : Frame} {interface : Interface} (serves : frame.Serves interface call)
    {slot : Nat} {field : InterfaceField} {given : BoundField}
    (found : interface.fields[slot]? = some field) (boundTo : call.BoundTo field given)
    (output : field.role = .output) (full : field.dimensions = .ijk)
    (small : given.origin.Small) {point : PerAxis Nat}
    (padded : Padded field.halo call.domain (Storage.offsetOf point)) :
    ∃ x, (frame.view slot).read (Storage.offsetOf point) = .ok x ∧
      (frame.view slot).storage.get? ⟨given.origin.i + point.i, given.origin.j + point.j,
        given.origin.k + point.k⟩ = some x := by
  have served := serves.view found
  have start : field.start call.origins = given.origin := by
    unfold InterfaceField.start InterfaceField.isParameter
    rw [output, boundTo.origin]
    rfl
  have complete : (frame.view slot).lacks (Storage.offsetOf point).k = false := by
    unfold View.lacks
    cases computed : (frame.view slot).computed with
    | none => rfl
    | some planes =>
      have temporary := served.temporary (by rw [computed]; rfl)
      rw [output] at temporary
      cases temporary
  have smallStart : (field.start call.origins).Small := start ▸ small
  obtain ⟨x, read⟩ := View.readable_iff.mpr ⟨(served.contains smallStart full padded).1, complete⟩
  refine ⟨x, read, View.get?_of_read read ?_⟩
  rw [served.index_eq smallStart full, start]
  simp only [Storage.offsetOf, Int.natCast_add]

end

/-- **Compiled stencils refine the reference execution.** Whatever a state holds that extends the
buffers of a bound call to the whole grid: if a run succeeds, then every output has the value of the
reference execution at every point of the domain. -/
theorem refines_reference {definition : Definition} {externals : Externals} {backend : Backend}
    {signature : Signature} {context : Context} {kernel : Kernel}
    (compiled : (Registry.compile definition externals backend signature).value =
      .ok (context, kernel))
    {call : Call} {bound : BoundCall} (passed : call.bind kernel.interface = .ok bound)
    (fits : call.FitsMemory) {state : Reference.State}
    (extended : bound.ExtendedBy kernel.interface call state)
    (succeeded : (kernel.run call).2 = none) {field : InterfaceField} {given : BoundField}
    (isGiven : (field, given) ∈ kernel.interface.parameters.zip bound.fields)
    (output : field.role = .output) (point : PerAxis Nat) (i : point.i < call.domain.i)
    (j : point.j < call.domain.j) (k : point.k < call.domain.k) :
    ∃ argument, (kernel.run call).1[given.argument]? = some argument ∧
      argument.storage.get? ⟨given.origin.i + point.i, given.origin.j + point.j,
        given.origin.k + point.k⟩ =
      some (Reference.run context.program (call.scalarOf kernel.interface) call.domain state
        field.name (Storage.offsetOf point)) := by
  obtain ⟨planned, made⟩ := Registry.compile_eq_ok compiled
  obtain ⟨demand, known, face, -⟩ := ofContext?_eq_ok made
  obtain ⟨shows, split⟩ := planned.shows face
  obtain ⟨n, isNth⟩ := List.mem_iff_getElem?.mp isGiven
  obtain ⟨isField, isBound⟩ := List.getElem?_zip_eq_some.mp isNth
  have isNthField : kernel.interface.fields[n]? = some field := by
    rw [split, List.getElem?_append_left (List.getElem?_eq_some_iff.mp isField).1]
    exact isField
  have member := List.mem_of_getElem? isNthField
  have full : field.dimensions = .ijk := shows.full field member (by rw [output]; decide)
  have boundTo := (List.forall₂_iff_zip.mp (Call.bind_boundTo passed)).2 isGiven
  have smallOrigin := fun {field given} (boundTo : call.BoundTo field given)
    (full : field.dimensions = .ijk) => boundTo.small fits full (by omega) (by omega) (by omega)
  have small := (smallOrigin boundTo full).1
  have start := Frame.Agrees.start passed extended
    (fun field given boundTo full => (smallOrigin boundTo full).2) shows.full
  unfold run at succeeded ⊢
  rw [passed] at succeeded ⊢
  dsimp only at succeeded ⊢
  cases ran : Schedule.runTasks (kernel.schedule.tasks call.domain)
    (.ofBound kernel.interface bound call.domain) with
  | mk after failure =>
    rw [ran] at succeeded
    obtain rfl : failure = none := Option.map_eq_none_iff.mp succeeded
    obtain ⟨serves, agrees⟩ := agrees_at_end planned made passed small start ran
    have padded : Padded field.halo call.domain (Storage.offsetOf point) := by
      refine ⟨?_, ?_, ?_⟩ <;> simp only [Storage.offsetOf] <;> omega
    obtain ⟨x, read, element⟩ := read_output serves isNthField boundTo output full
      (smallOrigin boundTo full).2 padded
    have matters : (Demand.Demands.start context.program).needs.Reaches call.domain field.name
        (Storage.offsetOf point) := by
      obtain ⟨-, declared, inProgram, named, -, role⟩ :=
        Interface.field_of_getElem? known face isNthField
      have isOutput : declared ∈ context.program.outputs :=
        List.mem_filter.mpr ⟨inProgram, beq_iff_eq.mpr (role.trans output)⟩
      refine ⟨_, named ▸ Demand.start_output isOutput, ?_, ?_⟩ <;>
        simp only [Storage.offsetOf, Extent.zero, Extent.ofOffset, Offset.zero] <;> omega
    have around : Frame.Around kernel.interface call.domain field.name
        (Storage.offsetOf point) := by
      intro other isOther named
      obtain rfl := List.inj_on_of_nodup_map shows.distinct isOther member named
      exact padded
    have value := agrees n field isNthField _ x ⟨matters, around⟩ read
    obtain ⟨given', isArgument, -⟩ := boundTo.argument
    have view : after.views[n]? = some (after.view n) := by
      have below : n < after.views.length :=
        List.Forall₂.length_eq serves ▸ (List.getElem?_eq_some_iff.mp isNthField).1
      unfold Frame.view
      rw [List.getD_eq_getElem?_getD, List.getElem?_eq_getElem below, Option.getD_some]
    obtain ⟨argument, isReturned, storage⟩ := returned_storage (Call.bind_distinct passed) isBound
      view ⟨given', isArgument⟩
    exact ⟨argument, isReturned, by rw [storage, element, value]⟩

/-- Sums from plane to plane are those of the reference on the upper plane, too. -/
theorem refines_reference_sums : ∃ (context : Context) (kernel : Kernel) (bound : BoundCall)
    (state : Reference.State) (given : BoundField), ∃ argument,
    bound.ExtendedBy kernel.interface Sample.call state ∧
    (kernel.run Sample.call).1[given.argument]? = some argument ∧
    argument.storage.get? ⟨given.origin.i + 0, given.origin.j + 0, given.origin.k + 1⟩ =
      some (Reference.run context.program (Sample.call.scalarOf kernel.interface)
        Sample.call.domain state "b" ⟨0, 0, 1⟩) := by
  obtain ⟨context, kernel, bound, compiled, passed, -, succeeds, field, member, named, output⟩ :=
    Sample.of_runs (Sample.runs_sums .vector)
  obtain ⟨planned, made⟩ := Registry.compile_eq_ok compiled
  obtain ⟨demand, known, face, -⟩ := ofContext?_eq_ok made
  have extended := BoundCall.extension_extends passed (planned.shows face).1.distinct
  obtain ⟨n, below, rfl⟩ := List.mem_iff_getElem.mp member
  have below' : n < bound.fields.length :=
    List.Forall₂.length_eq (Call.bind_boundTo passed) ▸ below
  have isGiven : (kernel.interface.parameters[n], bound.fields[n]) ∈
      kernel.interface.parameters.zip bound.fields :=
    List.mem_iff_getElem.mpr ⟨n, by
      rw [List.length_zip]
      exact Nat.lt_min.mpr ⟨below, below'⟩, List.getElem_zip⟩
  obtain ⟨argument, returned, value⟩ := refines_reference compiled passed
    (by intro argument member; revert argument; decide) extended
    (Option.isNone_iff_eq_none.mp succeeds) isGiven output ⟨0, 0, 1⟩ (by decide) (by decide)
    (by decide)
  rw [named] at value
  exact ⟨context, kernel, bound, _, _, argument, extended, returned, value⟩

end Kernel

end GridStencil
