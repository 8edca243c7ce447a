import GridStencil.Proofs.Obliviousness
import GridStencil.Proofs.Reordering
import GridStencil.Proofs.Sizes
import GridStencil.Proofs.Splitting

/-!
**What is known of runs holds of executions.**

An execution is a run that is stopped where a size or a place does not fit into a word. One that
succeeds had room for its temporaries, and is the run with numbers of any size (`execute_eq_ok`). In
narrow domains, and all domains with points are narrow (`narrow_of_points`), the room is all that is
needed (`execute_of_run`), and what has room on a domain has it on any part of it. So what a run does
not depend on, an execution does not depend on either, and it is not stopped where the other one is
not.

* `execute_oblivious`: other data do not change how an execution ends.
* `execute_split`: two executions on parts of the domain leave what a single one leaves.
* `execute_reordered`: the same with the sections of parallel blocks in another order.
-/

namespace GridStencil

open Program

/-! ### Other data -/

/-- Steps end alike on two frames with the same outline: stopped, failed or done. -/
theorem Schedule.runSteps_sameOutline {a b : Frame} (same : a.SameOutline b) (steps : List Step) :
    (runSteps steps a).map Prod.snd = (runSteps steps b).map Prod.snd := by
  induction steps generalizing a b with
  | nil => rfl
  | cons step rest ih =>
    cases step with
    | error overflow => rfl
    | ok task =>
      obtain ⟨behind, failure⟩ := runTask_sameOutline same task
      unfold runSteps
      generalize runTask task a = first at behind failure
      generalize runTask task b = second at behind failure
      obtain ⟨frame, cause⟩ := first
      obtain ⟨frame', cause'⟩ := second
      cases failure
      cases cause with
      | none => exact ih behind
      | some cause => rfl

namespace Kernel

/-- How the execution of a bound call ends, without what it returns. -/
theorem map_snd_execute {kernel : Kernel} {call : Call} {bound : BoundCall}
    (passed : call.bind kernel.interface = .ok bound) :
    (kernel.execute call).map Prod.snd =
      ((do
        Frame.layOut kernel.interface call.domain
        (Schedule.runSteps (kernel.schedule.steps call.domain)
          (.ofBound kernel.interface bound call.domain)).map Prod.snd) :
        Except Overflow (Option Cause)).map (·.map .ofCause) := by
  unfold execute
  rw [passed]
  dsimp only
  cases Frame.layOut kernel.interface call.domain with
  | error overflow => rfl
  | ok _ =>
    generalize Schedule.runSteps (kernel.schedule.steps call.domain) _ = ran
    cases ran <;> rfl

/-- **How an execution ends does not depend on data**: two calls that are both bound and differ in the
elements of buffers and the values of scalars at most are both stopped at the same place, or end with
the same error, or both without one. -/
theorem execute_oblivious (kernel : Kernel) {call other : Call} (same : call.SameOutline other)
    {bound bound' : BoundCall} (passed : call.bind kernel.interface = .ok bound)
    (passed' : other.bind kernel.interface = .ok bound') :
    (kernel.execute call).map Prod.snd = (kernel.execute other).map Prod.snd := by
  rw [map_snd_execute passed, map_snd_execute passed', ← same.domain,
    Schedule.runSteps_sameOutline (Frame.ofBound_sameOutline same passed passed')]

/-! ### Room -/

variable {kernel : Kernel} {call : Call} {result : List Argument}

/-- **An execution that succeeds** is a bound call with room for its temporaries, and the run with
numbers of any size. -/
theorem execute_eq_ok (done : kernel.execute call = .ok (result, none)) :
    ∃ bound, call.bind kernel.interface = .ok bound ∧ kernel.interface.HasRoom call.domain ∧
      kernel.run call = (result, none) := by
  have same := (eq_run_of_execute done).symm
  cases passed : call.bind kernel.interface with
  | error cause =>
    unfold execute at done
    rw [passed] at done
    cases done
  | ok bound =>
    refine ⟨bound, rfl, ?_, same⟩
    by_contra without
    obtain ⟨overflow, stopped⟩ := execute_of_not_hasRoom passed without
    rw [stopped] at done
    cases done

/-- **A bound call is executed as it is run**, if the domain is narrow and there is room for all
buffers. -/
theorem execute_of_run {context : Context} {backend : Backend} {bound : BoundCall}
    (planned : context.Planned) (made : ofContext? backend context = .ok kernel)
    (passed : call.bind kernel.interface = .ok bound)
    (room : ∀ argument ∈ call.arguments, argument.storage.shape.HasRoom)
    (temporaries : kernel.interface.HasRoom call.domain)
    (narrow : kernel.interface.Narrow call.domain) (ran : kernel.run call = (result, none)) :
    kernel.execute call = .ok (result, none) :=
  ran ▸ (laidOut planned made passed room temporaries).execute narrow

end Kernel

/-! ### Parts of a domain -/

section Parts

variable {interface : Interface} {corner part whole : PerAxis Nat}

/-- What has room on a domain has it on a part of the domain. -/
theorem Interface.HasRoom.onPart (room : interface.HasRoom whole)
    (inside : PerAxis.Part corner part whole) : interface.HasRoom part := by
  intro field member temporary full
  obtain ⟨needs, planes⟩ := room field member temporary full
  obtain ⟨i, j, -, k⟩ := inside
  refine ⟨needs.of_le ?_ ?_ ?_, ?_⟩ <;>
    simp only [InterfaceField.needs, Frame.padded] at planes ⊢ <;> omega

/-- A part of a narrow domain is narrow. -/
theorem Interface.Narrow.onPart (narrow : interface.Narrow whole)
    (inside : PerAxis.Part corner part whole) : interface.Narrow part := by
  refine ⟨inside.small narrow.size, fun field member full => ?_⟩
  obtain ⟨i, j, -, k⟩ := inside
  refine PerAxis.small_of_le (narrow.needs field member full) ?_ ?_ ?_ <;>
    simp only [InterfaceField.needs, Frame.padded] <;> omega

end Parts

namespace Kernel

/-- **Splitting the domain does not change what is executed.** In a stencil whose outputs are needed on
the domain only along a horizontal axis, for either backend: if an execution in a narrow domain, with
buffers that have room, succeeds, then it may as well be done on the first rows, and afterwards on the
others, with all origins moved. Neither of the two is stopped or fails, and all buffers are as the
single execution leaves them. -/
theorem execute_split {definition : Definition} {externals : Externals} {backend : Backend}
    {signature : Signature} {context : Context} {kernel : Kernel}
    (compiled : (Registry.compile definition externals backend signature).value =
      .ok (context, kernel))
    {demand : Demand} (known : context.demand = some demand) {axis : Axis} (horizontal : axis ≠ .k)
    (flat : demand.FlatAlong context.program axis) {call : Call}
    (room : ∀ argument ∈ call.arguments, argument.storage.shape.HasRoom)
    (narrow : kernel.interface.Narrow call.domain) {result : List Argument}
    (done : kernel.execute call = .ok (result, none)) {size : Nat}
    (inside : size ≤ call.domain.along axis) {origins : Origins}
    (moved : ∀ field, origins.of field =
      (call.origins.of field).put axis ((call.origins.of field).along axis + size)) :
    ∃ middle,
      kernel.execute { call with domain := call.domain.put axis size } = .ok (middle, none) ∧
      kernel.execute ⟨middle, call.scalars, origins,
        call.domain.put axis (call.domain.along axis - size)⟩ = .ok (result, none) := by
  obtain ⟨planned, made⟩ := Registry.compile_eq_ok compiled
  obtain ⟨bound, passed, temporaries, ran⟩ := execute_eq_ok done
  have flatKernel : kernel.FlatAlong context demand backend axis :=
    ⟨planned, made, known, horizontal, flat⟩
  have fits : (Frame.ofBound kernel.interface bound call.domain).FitsMemory :=
    fun view member => (views_hasRoom passed room temporaries view member).volume
  obtain ⟨bound₁, bound₂, splits⟩ := flatKernel.exists_splits passed inside moved
  obtain ⟨succeeds₁, succeeds₂, returns⟩ := splits.run flatKernel fits (congrArg Prod.snd ran)
  obtain ⟨onFirst, onSecond⟩ := And.intro splits.onFirst splits.onSecond
  -- both parts have room, as the whole domain has
  have roomFor : ∀ {corner : PerAxis Nat} {part : Call}, Call.On corner call part →
      ∀ argument ∈ part.arguments, argument.storage.shape.HasRoom := by
    intro corner part on argument member
    obtain ⟨given, isGiven, alike⟩ := Steps.exists_left on.arguments member
    exact alike.storage.shape ▸ room given isGiven
  refine ⟨_, execute_of_run planned made onFirst.onPart (roomFor onFirst.toOn)
    (temporaries.onPart onFirst.domain) (narrow.onPart onFirst.domain) (Prod.ext rfl succeeds₁), ?_⟩
  refine execute_of_run planned made onSecond.onPart (roomFor onSecond.toOn)
    (temporaries.onPart onSecond.domain) (narrow.onPart onSecond.domain) (Prod.ext ?_ succeeds₂)
  exact returns.trans (congrArg Prod.fst ran)

/-- **Detached sections of parallel blocks can be executed in any order**: in narrow domains, and with
buffers that have room, the kernels of both programs execute every call alike on which that of the
first program succeeds. -/
theorem execute_reordered {definition : Definition} {externals : Externals} {signature : Signature}
    {context : Context} {program' : Program}
    (built : Context.ofDefinition? definition externals signature = .ok context)
    (accepted : (PassTable.standard.run context ["all"] []).failure = none)
    (reordered : context.program.Reordered Section.Detached program')
    (needs : context.program.Reordered Section.Independent program' ∨
      ∀ demand, Demand.ofProgram? context.program = .ok demand →
        Demand.Kept context.program program' demand) {backend : Backend} {kernel : Kernel}
    (made : ofContext? backend (PassTable.standard.run context ["all"] []).context = .ok kernel) :
    ∃ kernel', ofContext? backend
        (PassTable.standard.run { context with program := program' } ["all"] []).context =
          .ok kernel' ∧
      ∀ call result, (∀ argument ∈ call.arguments, argument.storage.shape.HasRoom) →
        kernel.interface.Narrow call.domain → kernel.execute call = .ok (result, none) →
        kernel'.execute call = .ok (result, none) := by
  obtain ⟨-, planned, planned', ⟨demand, demand', alike⟩, others⟩ :=
    exists_counterpart built accepted reordered needs
  obtain ⟨kernel', made'⟩ := others backend
  refine ⟨kernel', made', fun call result room narrow done => ?_⟩
  obtain ⟨bound, passed, temporaries, ran⟩ := execute_eq_ok done
  have fits : (Frame.ofBound kernel.interface bound call.domain).FitsMemory :=
    fun view member => (views_hasRoom passed room temporaries view member).volume
  have same := run_counterparts planned alike made made' passed fits (congrArg Prod.snd ran)
  have face := interface_counterparts alike made made'
  rw [← face] at passed temporaries narrow
  exact execute_of_run planned' made' passed room temporaries narrow (same.trans ran)

end Kernel

end GridStencil
