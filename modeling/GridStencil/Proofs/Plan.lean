import GridStencil.Proofs.Check.Ordering
import GridStencil.Proofs.Demand
import GridStencil.Registry

/-!
**What a stencil that compiles has passed.**

The plan `all` runs both checks and finds the demand. A context on which it succeeded holds the
program it was given, its demand, and a number of planes that both checks are content with
(`Context.Planned`).

* `PassTable.run_all_isOk`: the plan succeeds if both checks are content and there is a demand.
* `PassTable.run_all_planned`: the contexts of the plan.
* `Registry.compile_eq_ok`: a stencil compiles if the plan and the backend succeed.
-/

namespace GridStencil

/-- A context of a well-formed program that has passed all checks and whose demand is known. -/
structure Context.Planned (context : Context) : Prop where
  wellFormed : context.program.WellFormed
  intervals : (Check.intervals context.program).Allows context.minPlanes
  ordering : (Check.ordering context.program).Allows context.minPlanes
  demand : ∃ demand, context.demand = some demand ∧
    Demand.ofProgram? context.program = .ok demand

/-- The program of the context of a definition. -/
theorem Context.ofDefinition?_eq_ok {definition : Definition} {externals : Externals}
    {signature : Signature} {context : Context}
    (built : ofDefinition? definition externals signature = .ok context) :
    Program.ofDefinition? definition externals signature =
      .ok (context.program, context.externals) := by
  unfold ofDefinition? at built
  split at built
  next lowered =>
    cases built
    exact lowered
  · cases built

theorem Report.Allows.mono {report : Report} {m n : Nat} (allows : report.Allows m) (le : m ≤ n) :
    report.Allows n := ⟨allows.1, Nat.le_trans allows.2 le⟩

namespace Pass

/-- A check that ends without an error found no fault. -/
theorem runCheck_eq_none {target : String} {report : Program → Report} {context : Context}
    (passed : (runCheck target report context).failure = none) :
    (report context.program).faults = [] := by
  cases faults : (report context.program).faults with
  | nil => rfl
  | cons fault rest =>
    have failed : (runCheck target report context).failure =
        some (fault.within context.program.source) := by
      unfold runCheck check Report.diagnostics Diagnostics.verdict
      simp only [faults, List.map_cons]
    rw [failed] at passed
    cases passed

theorem runExtents_eq_none {context : Context} (passed : (runExtents context).failure = none) :
    ∃ demand, Demand.ofProgram? context.program = .ok demand ∧
      (runExtents context).context = { context with demand := some demand } := by
  unfold runExtents at passed ⊢
  cases found : Demand.ofProgram? context.program with
  | ok demand => exact ⟨demand, rfl, rfl⟩
  | error fault =>
    rw [found] at passed
    cases passed

theorem runExtents_isOk {context : Context} {demand : Demand}
    (known : Demand.ofProgram? context.program = .ok demand) :
    (runExtents context).failure = none := by
  unfold runExtents
  rw [known]

theorem runAll_cons_eq_none {pass : Pass} {rest : List Pass} {context : Context}
    (passed : (runAll (pass :: rest) context).failure = none) :
    (pass.run context).failure = none ∧
      (runAll rest (pass.run context).context).failure = none ∧
      (runAll (pass :: rest) context).context =
        (runAll rest (pass.run context).context).context := by
  rw [runAll] at passed ⊢
  cases first : (pass.run context).failure with
  | some error =>
    rw [first] at passed
    dsimp only at passed
    rw [first] at passed
    cases passed
  | none =>
    rw [first] at passed
    exact ⟨rfl, passed, rfl⟩

/-- A check without findings ends without an error. -/
theorem runCheck_isOk {target : String} {report : Program → Report} {context : Context}
    (clean : (report context.program).faults = []) :
    (runCheck target report context).failure = none := by
  unfold runCheck check Report.diagnostics Diagnostics.verdict
  simp only [clean, List.map_nil]

theorem runAll_cons_isOk {pass : Pass} {rest : List Pass} {context : Context}
    (first : (pass.run context).failure = none)
    (more : (runAll rest (pass.run context).context).failure = none) :
    (runAll (pass :: rest) context).failure = none := by
  rw [runAll]
  dsimp only
  rw [first]
  exact more

/-- Passes change neither the program nor its externals. -/
theorem runAll_same (passes : List Pass) (context : Context) :
    (runAll passes context).context.program = context.program ∧
      (runAll passes context).context.externals = context.externals := by
  induction passes generalizing context with
  | nil => exact ⟨rfl, rfl⟩
  | cons pass rest ih =>
    have here : (pass.run context).context.program = context.program ∧
        (pass.run context).context.externals = context.externals := by
      cases pass with
      | intervalCheck => exact ⟨rfl, rfl⟩
      | orderingCheck => exact ⟨rfl, rfl⟩
      | inferExtents =>
        show (runExtents context).context.program = context.program ∧
          (runExtents context).context.externals = context.externals
        unfold runExtents
        split <;> exact ⟨rfl, rfl⟩
    unfold runAll
    dsimp only
    split
    · exact here
    · exact ⟨(ih _).1.trans here.1, (ih _).2.trans here.2⟩

end Pass

namespace PassTable

theorem plan_all : standard.plan ["all"] [] =
    .ok [.intervalCheck, .orderingCheck, .inferExtents] := by rfl

theorem run_all (context : Context) : standard.run context ["all"] [] =
    Pass.runAll [.intervalCheck, .orderingCheck, .inferExtents] context := by
  unfold run
  rw [plan_all]

/-- The plan `all` changes neither the program nor its externals. -/
theorem run_all_same (context : Context) :
    (standard.run context ["all"] []).context.program = context.program ∧
      (standard.run context ["all"] []).context.externals = context.externals := by
  rw [run_all]
  exact Pass.runAll_same _ context

/-- **What the plan `all` leaves**: the number of planes that both checks ask for, and the demand. -/
theorem run_all_eq_none {context : Context}
    (passed : (standard.run context ["all"] []).failure = none) :
    (Check.intervals context.program).faults = [] ∧ (Check.ordering context.program).faults = [] ∧
      ∃ demand, Demand.ofProgram? context.program = .ok demand ∧
        (standard.run context ["all"] []).context =
          { (context.raise (Check.intervals context.program).planes).raise
              (Check.ordering context.program).planes with demand := some demand } := by
  rw [run_all] at passed ⊢
  obtain ⟨first, rest, same⟩ := Pass.runAll_cons_eq_none passed
  obtain ⟨second, rest', same'⟩ := Pass.runAll_cons_eq_none rest
  obtain ⟨third, -, same''⟩ := Pass.runAll_cons_eq_none rest'
  have intervals := Pass.runCheck_eq_none first
  have ordering := Pass.runCheck_eq_none second
  obtain ⟨demand, known, found⟩ := Pass.runExtents_eq_none third
  exact ⟨intervals, ordering, demand, known, (same.trans (same'.trans same'')).trans found⟩

/-- The plan `all` succeeds on a context without faults whose demand is known. -/
theorem run_all_isOk {context : Context} {demand : Demand}
    (intervals : (Check.intervals context.program).faults = [])
    (ordering : (Check.ordering context.program).faults = [])
    (known : Demand.ofProgram? context.program = .ok demand) :
    (standard.run context ["all"] []).failure = none := by
  rw [run_all]
  exact Pass.runAll_cons_isOk (Pass.runCheck_isOk intervals)
    (Pass.runAll_cons_isOk (Pass.runCheck_isOk ordering)
      (Pass.runAll_cons_isOk (Pass.runExtents_isOk known) rfl))

/-- The plan `all` leaves a planned context of a well-formed program. -/
theorem planned_of_wellFormed {context : Context} (wellFormed : context.program.WellFormed)
    (passed : (standard.run context ["all"] []).failure = none) :
    (standard.run context ["all"] []).context.Planned := by
  obtain ⟨intervals, ordering, demand, known, leaves⟩ := run_all_eq_none passed
  rw [leaves]
  exact ⟨wellFormed, ⟨intervals, Nat.le_trans (Nat.le_max_right _ _) (Nat.le_max_left _ _)⟩,
    ⟨ordering, Nat.le_max_right _ _⟩, demand, rfl, known⟩

/-- **The plan `all` leaves a planned context.** -/
theorem run_all_planned {definition : Definition} {externals : Externals} {signature : Signature}
    {context : Context}
    (built : Context.ofDefinition? definition externals signature = .ok context)
    (passed : (standard.run context ["all"] []).failure = none) :
    (standard.run context ["all"] []).context.Planned :=
  planned_of_wellFormed (Program.ofDefinition?_wellFormed (Context.ofDefinition?_eq_ok built)) passed

end PassTable

namespace Registry

/-- A stencil compiles to the context that the plan leaves, and to its kernel. -/
theorem compile_eq_ok_iff {definition : Definition} {externals : Externals} {backend : Backend}
    {signature : Signature} {context : Context} {kernel : Kernel} :
    (compile definition externals backend signature).value = .ok (context, kernel) ↔
      (∃ start, Context.ofDefinition? definition externals signature = .ok start ∧
        (PassTable.standard.run start ["all"] []).failure = none ∧
        (PassTable.standard.run start ["all"] []).context = context) ∧
      Kernel.ofContext? backend context = .ok kernel := by
  unfold compile
  cases built : Context.ofDefinition? definition externals signature with
  | error error => exact ⟨fun absurd => (nomatch absurd), fun ⟨⟨_, absurd, _⟩, _⟩ => nomatch absurd⟩
  | ok start =>
    simp only [Except.ok.injEq, exists_eq_left']
    cases passed : (PassTable.standard.run start ["all"] []).failure with
    | some error =>
      exact ⟨fun absurd => (nomatch absurd), fun ⟨⟨absurd, _⟩, _⟩ => nomatch absurd⟩
    | none =>
      simp only [true_and]
      constructor
      · intro made
        obtain ⟨_, there, same⟩ := Steps.map_eq_ok.mp made
        cases same
        exact ⟨rfl, there⟩
      · rintro ⟨rfl, made⟩
        exact Steps.map_eq_ok.mpr ⟨kernel, made, rfl⟩

/-- **What a stencil that compiles has passed**: its context is planned, and its kernel is built
from that. -/
theorem compile_eq_ok {definition : Definition} {externals : Externals} {backend : Backend}
    {signature : Signature} {context : Context} {kernel : Kernel}
    (compiled : (compile definition externals backend signature).value = .ok (context, kernel)) :
    context.Planned ∧ Kernel.ofContext? backend context = .ok kernel := by
  obtain ⟨⟨start, built, passed, rfl⟩, made⟩ := compile_eq_ok_iff.mp compiled
  exact ⟨PassTable.run_all_planned built passed, made⟩

/-- The program of a stencil that compiles is the one of its definition. -/
theorem program_of_compile {definition : Definition} {externals : Externals} {backend : Backend}
    {signature : Signature} {context : Context} {kernel : Kernel}
    (compiled : (compile definition externals backend signature).value = .ok (context, kernel)) :
    Program.ofDefinition? definition externals signature =
      .ok (context.program, context.externals) := by
  obtain ⟨⟨start, built, -, rfl⟩, -⟩ := compile_eq_ok_iff.mp compiled
  rw [(PassTable.run_all_same start).1, (PassTable.run_all_same start).2]
  exact Context.ofDefinition?_eq_ok built

end Registry

namespace Kernel

/-- The parts of a kernel. -/
theorem ofContext?_eq_ok {backend : Backend} {context : Context} {kernel : Kernel}
    (made : ofContext? backend context = .ok kernel) :
    ∃ demand, context.demand = some demand ∧
      Interface.ofContext? context = .ok kernel.interface ∧
      Schedule.ofProgram? backend kernel.interface context.program demand =
        .ok kernel.schedule := by
  unfold ofContext? at made
  obtain ⟨interface, face, made⟩ := Steps.bind_eq_ok.mp made
  obtain ⟨demand, required, made⟩ := Steps.bind_eq_ok.mp made
  obtain ⟨schedule, scheduled, same⟩ := Steps.bind_eq_ok.mp made
  cases same
  refine ⟨demand, ?_, face, scheduled⟩
  unfold Context.requireDemand at required
  split at required
  next known found => exact found.trans (congrArg some (Except.ok.inj required))
  · cases required

end Kernel

namespace Interface

/-- The interface of a context in which the demand is known. -/
theorem ofContext?_eq_ok {context : Context} {interface : Interface} {demand : Demand}
    (known : context.demand = some demand) (face : ofContext? context = .ok interface) :
    interface.fields = context.program.fields.map (fun field =>
        ⟨field.name, field.type, field.dimensions, field.role, demand.halo field.name⟩) ∧
      interface.scalars = context.program.scalars ∧ interface.minPlanes = context.minPlanes := by
  unfold ofContext? at face
  obtain ⟨other, required, same⟩ := Steps.bind_eq_ok.mp face
  cases same
  unfold Context.requireDemand at required
  rw [known] at required
  cases required
  exact ⟨rfl, rfl, rfl⟩

/-- The target of a statement has axes and is no input. -/
theorem target_of_ofContext? {context : Context} {interface : Interface} {demand : Demand}
    (planned : context.Planned) (known : context.demand = some demand)
    (face : ofContext? context = .ok interface) {block : Program.Block}
    (inProgram : block ∈ context.program.blocks) {part : Program.Section}
    (inBlock : part ∈ block.sections) {statement : Program.Statement}
    (inPart : statement ∈ part.body) {field : InterfaceField} (member : field ∈ interface.fields)
    (named : field.name = statement.target) : field.dimensions = .ijk ∧ field.role ≠ .input := by
  rw [(ofContext?_eq_ok known face).1] at member
  obtain ⟨declared, isDeclared, rfl⟩ := List.mem_map.mp member
  obtain ⟨target, isTarget, named', full, assigned⟩ :=
    planned.wellFormed.targets block inProgram part inBlock statement inPart
  obtain rfl : declared = target :=
    Program.Scope.eq_of_name planned.wellFormed.distinct isDeclared isTarget
      (named.trans named'.symm)
  exact ⟨full, assigned⟩

end Interface

end GridStencil
