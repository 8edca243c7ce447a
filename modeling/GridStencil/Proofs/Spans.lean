import GridStencil.Proofs.Program.Spans
import GridStencil.Proofs.Plan

/-!
**Kernels do not depend on where a definition stands in its text.**

The checks and the demand of a program read spans for their faults alone. Two reports `Agree` if
they say the same about everything but that: whether there is a fault, and how many planes are
needed. A program without its spans gets reports that agree with those of the program, the same
demand and the same schedule; so a definition without its spans compiles to the same kernel
(`Registry.compile_withoutSpans`).
-/

namespace GridStencil

open Definition (noSpan)
open Steps (Alike)

/-! ### Reports -/

namespace Report

/-- Two reports that both have faults or both have none, and ask for the same planes. -/
structure Agrees (a b : Report) : Prop where
  clean : a.isClean = b.isClean
  planes : a.planes = b.planes

variable {a a' b b' : Report}

theorem Agrees.refl (a : Report) : a.Agrees a := ⟨rfl, rfl⟩

theorem agrees_fault (span span' : Span) (cause cause' : Cause) :
    (fault span cause).Agrees (fault span' cause') := ⟨rfl, rfl⟩

theorem Agrees.join (first : a.Agrees a') (second : b.Agrees b') :
    (a.join b).Agrees (a'.join b') where
  clean := by
    have parts : ∀ x y : Report, (x.join y).isClean = (x.isClean && y.isClean) := fun x y => by
      cases faults : x.faults <;> simp only [isClean, Report.join, faults] <;> rfl
    rw [parts, parts, first.clean, second.clean]
  planes := congrArg₂ max first.planes second.planes

theorem Agrees.andThen (first : a.Agrees a') (second : b.Agrees b') :
    (a.andThen b).Agrees (a'.andThen b') := by
  unfold Report.andThen
  rw [first.clean]
  split
  · exact first.join second
  · exact first

/-- What is found one by one in two lists that go together. -/
theorem agrees_joinAll {α : Type} {f g : α → Report} (items : List α)
    (each : ∀ item, (f item).Agrees (g item)) :
    (joinAll (items.map f)).Agrees (joinAll (items.map g)) := by
  induction items with
  | nil => exact .refl none
  | cons item rest ih => exact (each item).join ih

end Report

/-! ### Checks -/

namespace Check

open Program

theorem demandThreshold_agrees (span span' : Span) (cause cause' : Cause) (threshold : Threshold) :
    (demandThreshold span cause threshold).Agrees (demandThreshold span' cause' threshold) := by
  cases threshold with
  | since planes => exact .refl _
  | never => exact Report.agrees_fault ..
  | tooFarApart lower upper => exact Report.agrees_fault ..

theorem checkNeighbours_agrees {test test' : Section → Section → Report}
    (each : ∀ a b : Section, (test a.withoutSpans b.withoutSpans).Agrees (test' a b))
    (sections : List Section) :
    (checkNeighbours test (sections.map Section.withoutSpans)).Agrees
      (checkNeighbours test' sections) := by
  induction sections with
  | nil => exact .refl _
  | cons first rest ih =>
    cases rest with
    | nil => exact .refl _
    | cons second rest => exact (each first second).join ih

theorem byPosition_withoutSpans (sections : List Section) :
    byPosition (sections.map Section.withoutSpans) =
      (byPosition sections).map Section.withoutSpans := by
  unfold byPosition
  rw [List.map_mergeSort (f := Section.withoutSpans)]
  exact fun _ _ _ _ => rfl

theorem checkBlockIntervals_agrees (block : Block) (index : Nat) :
    (checkBlockIntervals block.withoutSpans index).Agrees (checkBlockIntervals block index) := by
  have nonEmpty : (Report.joinAll (block.withoutSpans.sections.map (checkNonEmpty index))).Agrees
      (Report.joinAll (block.sections.map (checkNonEmpty index))) := by
    simp only [Block.withoutSpans, List.map_map]
    exact Report.agrees_joinAll _ fun part => demandThreshold_agrees ..
  have disjoint : (checkNeighbours (checkDisjoint block.withoutSpans index)
      (byPosition block.withoutSpans.sections)).Agrees
        (checkNeighbours (checkDisjoint block index) (byPosition block.sections)) := by
    simp only [Block.withoutSpans, byPosition_withoutSpans]
    exact checkNeighbours_agrees (fun lower upper => demandThreshold_agrees ..) _
  have listed : (checkNeighbours (checkListed block.withoutSpans index)
      block.withoutSpans.sections).Agrees
        (checkNeighbours (checkListed block index) block.sections) := by
    refine checkNeighbours_agrees (fun previous next => ?_) _
    show (if visitsFirst block.policy previous.interval next.interval then Report.none
      else .fault noSpan (.listedAfter next.interval previous.interval block.policy index)).Agrees
        (if visitsFirst block.policy previous.interval next.interval then .none else _)
    split
    · exact .refl _
    · exact Report.agrees_fault ..
  exact (nonEmpty.andThen disjoint).andThen listed

/-- A finding per block agrees with the same finding of the blocks without their spans. -/
theorem agrees_blocks {check : Block → Nat → Report}
    (each : ∀ block index, (check block.withoutSpans index).Agrees (check block index))
    (program : Program) :
    (Report.joinAll (program.withoutSpans.blocks.zipIdx.map fun (block, index) =>
      check block index)).Agrees
        (.joinAll (program.blocks.zipIdx.map fun (block, index) => check block index)) := by
  simp only [Program.withoutSpans, List.zipIdx_map, List.map_map]
  exact Report.agrees_joinAll _ fun (block, index) => each block index

theorem intervals_agrees (program : Program) :
    (intervals program.withoutSpans).Agrees (intervals program) :=
  agrees_blocks checkBlockIntervals_agrees program

end Check

/-! ### What a block reads and writes -/

namespace Program

theorem Block.statements_withoutSpans (block : Block) :
    block.withoutSpans.statements = block.statements.map Statement.withoutSpan := by
  simp only [Block.statements, Block.withoutSpans, List.flatMap_map, List.map_flatMap,
    Section.withoutSpans]

theorem Block.writes_withoutSpans (block : Block) : block.withoutSpans.writes = block.writes := by
  simp only [Block.writes, writeSet, Block.statements_withoutSpans, List.map_map]
  rfl

end Program

namespace Check

open Program

theorem checkBlockReads_agrees (block : Block) (index : Nat) :
    (checkBlockReads block.withoutSpans index).Agrees (checkBlockReads block index) := by
  have selfReads : ∀ statement : Statement,
      (checkSelfReads block.withoutSpans index statement.withoutSpan).Agrees
        (checkSelfReads block index statement) := fun statement =>
    Report.agrees_joinAll _ fun offset => Report.agrees_fault ..
  have carriedReads : ∀ (interval : Interval) (statement : Statement),
      (checkCarriedReads block.withoutSpans index interval statement.withoutSpan).Agrees
        (checkCarriedReads block index interval statement) := fun interval statement => by
    unfold checkCarriedReads
    rw [Block.writes_withoutSpans]
    refine Report.agrees_joinAll _ fun read => ?_
    unfold checkCarriedRead
    simp only [Block.withoutSpans]
    split
    · exact .refl _
    · exact Report.agrees_fault ..
  unfold checkBlockReads
  simp only [Block.withoutSpans, List.map_map]
  refine Report.agrees_joinAll _ fun part => ?_
  simp only [Function.comp_apply, Section.withoutSpans, List.map_map]
  exact Report.agrees_joinAll _ fun statement =>
    (selfReads statement).join (carriedReads part.interval statement)

theorem ordering_agrees (program : Program) :
    (ordering program.withoutSpans).Agrees (ordering program) :=
  agrees_blocks checkBlockReads_agrees program

end Check

/-! ### Demands -/

namespace Program

theorem positioned_withoutSpans (b i : Nat) (body : List Statement) :
    positioned b i (body.map Statement.withoutSpan) =
      (positioned b i body).map (Prod.map id Statement.withoutSpan) := by
  simp only [positioned, List.zipIdx_map, List.map_map]
  rfl

theorem blockStatements_withoutSpans (block : Block) (b : Nat) :
    blockStatements block.withoutSpans b =
      (blockStatements block b).map (Prod.map id Statement.withoutSpan) := by
  unfold blockStatements
  simp only [Block.withoutSpans, List.zipIdx_map, List.flatMap_map, List.map_flatMap]
  refine List.flatMap_congr fun (part, i) _ => ?_
  exact positioned_withoutSpans b i part.body

theorem statements_withoutSpans (program : Program) :
    program.withoutSpans.statements =
      program.statements.map (Prod.map id Statement.withoutSpan) := by
  have parts : ∀ program : Program, program.statements =
      program.blocks.zipIdx.flatMap fun (block, b) => blockStatements block b := fun _ => rfl
  simp only [parts, withoutSpans, List.zipIdx_map, List.flatMap_map, List.map_flatMap]
  refine List.flatMap_congr fun (block, b) _ => ?_
  exact blockStatements_withoutSpans block b

end Program

namespace Demand

open Program

theorem statement_withoutSpan (writes : List String) (policy : Policy) (sweep : Sweep)
    (position : Position) (statement : Statement) :
    Alike Eq (sweep.statement writes policy position statement.withoutSpan)
      (sweep.statement writes policy position statement) := by
  unfold Sweep.statement
  simp only [Statement.withoutSpan]
  split
  · exact .refl _
  · exact (Alike.refl _).mapError _ _

theorem sweep_withoutSpans (writes : List String) (policy : Policy) (sweep : Sweep)
    (statements : List (Position × Statement)) :
    Alike Eq
      (Sweep.statements writes policy sweep
        (statements.map (Prod.map id Statement.withoutSpan)))
      (Sweep.statements writes policy sweep statements) := by
  induction statements with
  | nil => exact .refl _
  | cons first rest ih =>
    obtain ⟨position, statement⟩ := first
    refine ih.bind ?_
    rintro behind _ rfl
    exact statement_withoutSpan writes policy behind position statement

theorem settle_withoutSpans (block : Block) (index : Nat)
    (statements : List (Position × Statement)) (needs : Needs) (further : Nat) (seeds : Needs) :
    Alike Eq
      (settle block.withoutSpans index
        (statements.map (Prod.map id Statement.withoutSpan)) needs
        further seeds)
      (settle block index statements needs further seeds) := by
  induction further generalizing seeds with
  | zero =>
    unfold settle
    rw [Block.writes_withoutSpans]
    refine (sweep_withoutSpans block.writes block.policy _ statements).bind ?_
    rintro sweep _ rfl
    dsimp only
    split
    · exact .refl _
    · exact .error _ _
  | succ further ih =>
    unfold settle
    rw [Block.writes_withoutSpans]
    refine (sweep_withoutSpans block.writes block.policy _ statements).bind ?_
    rintro sweep _ rfl
    dsimp only
    split
    · exact .refl _
    · exact ih _

theorem sweepBlock_withoutSpans (program : Program) (block : Block) (index : Nat)
    (needs : Needs) :
    Alike Eq (sweepBlock program.withoutSpans block.withoutSpans index needs)
      (sweepBlock program block index needs) := by
  have statements : program.withoutSpans.statements.filter (·.1.block = index) =
      (program.statements.filter (·.1.block = index)).map
        (Prod.map id Statement.withoutSpan) := by
    rw [statements_withoutSpans, List.filter_map]
    rfl
  unfold sweepBlock
  simp only [statements]
  show Alike Eq (if block.policy.isSequential = true then _ else _) _
  split
  · exact settle_withoutSpans ..
  · exact sweep_withoutSpans ..

theorem blocks_withoutSpans (program : Program) (demands : Demands)
    (blocks : List (Block × Nat)) :
    Alike Eq
      (Demands.blocks program.withoutSpans demands
        (blocks.map fun (block, index) => (block.withoutSpans, index)))
      (Demands.blocks program demands blocks) := by
  induction blocks with
  | nil => exact .refl _
  | cons first rest ih =>
    obtain ⟨block, index⟩ := first
    refine ih.bind ?_
    rintro behind _ rfl
    refine (sweepBlock_withoutSpans program block index behind.needs).bind ?_
    rintro sweep _ rfl
    exact .ok rfl

/-- **The demand of a program does not depend on its spans.** -/
theorem ofProgram?_withoutSpans (program : Program) :
    Alike Eq (ofProgram? program.withoutSpans) (ofProgram? program) := by
  have blocks : program.withoutSpans.blocks.zipIdx =
      program.blocks.zipIdx.map fun (block, index) => (block.withoutSpans, index) := by
    simp only [withoutSpans, List.zipIdx_map]
    rfl
  have count : program.withoutSpans.statements.length = program.statements.length := by
    rw [statements_withoutSpans, List.length_map]
  unfold ofProgram?
  rw [blocks, count]
  refine (blocks_withoutSpans program (.start program) program.blocks.zipIdx).bind ?_
  rintro demands _ rfl
  exact .ok rfl

end Demand

/-! ### Kernels -/

namespace Schedule

open Program

theorem stageOf?_withoutSpan (backend : Backend) (source source' : Source) (interface : Interface)
    (statement : Statement) (extent : Extent) :
    Alike Eq (stageOf? backend source' interface statement.withoutSpan extent)
      (stageOf? backend source interface statement extent) := by
  unfold stageOf?
  simp only [Statement.withoutSpan]
  split
  · exact .error _ _
  · exact .refl _

theorem stagesOf?_withoutSpans (backend : Backend) (source source' : Source)
    (interface : Interface) (demand : Demand) (statements : List (Position × Statement)) :
    Alike Eq
      (stagesOf? backend source' interface demand
        (statements.map (Prod.map id Statement.withoutSpan)))
      (stagesOf? backend source interface demand statements) := by
  induction statements with
  | nil => exact .refl _
  | cons first rest ih =>
    obtain ⟨position, statement⟩ := first
    simp only [List.map_cons, Prod.map_apply, id_eq, stagesOf?]
    split
    · exact ih
    · refine (stageOf?_withoutSpan backend source source' interface statement _).bind ?_
      rintro stage _ rfl
      refine ih.bind ?_
      rintro stages _ rfl
      exact .ok rfl

/-- The schedule of a program does not depend on its spans. -/
theorem ofProgram?_withoutSpans (backend : Backend) (interface : Interface) (program : Program)
    (demand : Demand) :
    Alike Eq (ofProgram? backend interface program.withoutSpans demand)
      (ofProgram? backend interface program demand) := by
  have indexed : ∀ {α : Type} (forget : α → α) (items : List α),
      List.Forall₂ (fun bare full => bare = Prod.map forget id full) (items.map forget).zipIdx
        items.zipIdx := fun forget items => by
    rw [List.zipIdx_map, List.forall₂_map_left_iff]
    exact List.forall₂_same.mpr fun _ _ => rfl
  refine (Alike.mapM (s := Eq) (indexed Block.withoutSpans program.blocks) ?_).bind ?_
  · rintro _ ⟨block, b⟩ rfl
    refine (Alike.mapM (s := Eq) (indexed Section.withoutSpans block.sections) ?_).bind ?_
    · rintro _ ⟨part, i⟩ rfl
      have statements : positioned b i (part.body.map Statement.withoutSpan) = _ :=
        positioned_withoutSpans b i part.body
      have stages := stagesOf?_withoutSpans backend program.source ⟨"", ""⟩ interface demand
        (positioned b i part.body)
      rw [← statements] at stages
      refine stages.bind ?_
      rintro found _ rfl
      exact .ok rfl
    · intro sections sections' same
      rw [List.forall₂_eq_eq_eq] at same
      exact .ok (same ▸ rfl)
  · intro blocks blocks' same
    rw [List.forall₂_eq_eq_eq] at same
    exact .ok (same ▸ rfl)

end Schedule

namespace Context

/-- A context with the source and all spans of its program forgotten. -/
def withoutSpans (context : Context) : Context :=
  { context with program := context.program.withoutSpans }

theorem ofDefinition?_withoutSpans (definition : Definition) (externals : Externals)
    (signature : Signature) :
    Alike (fun bare full => bare = full.withoutSpans)
      (ofDefinition? definition.withoutSpans externals signature)
      (ofDefinition? definition externals signature) := by
  have programs := Program.ofDefinition?_withoutSpans definition externals signature
  unfold ofDefinition?
  generalize Program.ofDefinition? definition externals signature = full at programs ⊢
  generalize Program.ofDefinition? definition.withoutSpans externals signature = bare at programs ⊢
  cases programs with
  | ok same =>
    subst same
    exact .ok rfl
  | error fault fault' => exact .error _ _

end Context

/-- The kernel of a context does not depend on the spans of its program. -/
theorem Kernel.ofContext?_withoutSpans (backend : Backend) (context : Context) :
    Alike Eq (ofContext? backend context.withoutSpans) (ofContext? backend context) := by
  have demands : Alike Eq context.withoutSpans.requireDemand context.requireDemand := by
    unfold Context.requireDemand
    simp only [Context.withoutSpans]
    split
    · exact .refl _
    · exact .error _ _
  refine Alike.bind (r := Eq) ?_ ?_
  · refine demands.bind ?_
    rintro demand _ rfl
    exact .ok rfl
  · rintro interface _ rfl
    refine demands.bind ?_
    rintro demand _ rfl
    refine (Schedule.ofProgram?_withoutSpans backend interface context.program demand).bind ?_
    rintro schedule _ rfl
    exact .ok rfl

/-! ### Passes -/

/-- Two outcomes that both failed or both went on, with contexts that are the same up to spans. -/
structure Outcome.Agrees (bare full : Outcome) : Prop where
  failed : bare.failure.isSome = full.failure.isSome
  context : bare.context = full.context.withoutSpans

namespace Pass

theorem runCheck_agrees {report : Program → Report}
    (each : ∀ program : Program, (report program.withoutSpans).Agrees (report program))
    (target : String) (context : Context) :
    (runCheck target report context.withoutSpans).Agrees (runCheck target report context) := by
  have failed : ∀ context : Context, (runCheck target report context).failure.isSome =
      !(report context.program).isClean := fun context => by
    unfold runCheck check Report.diagnostics Diagnostics.verdict Report.isClean
    cases faults : (report context.program).faults <;> simp only [faults] <;> rfl
  have agrees := each context.program
  refine ⟨?_, ?_⟩
  · rw [failed, failed]
    exact congrArg (!·) agrees.clean
  · show Context.raise _ (report context.program.withoutSpans).planes = _
    rw [agrees.planes]
    rfl

theorem runExtents_agrees (context : Context) :
    (runExtents context.withoutSpans).Agrees (runExtents context) := by
  have demands := Demand.ofProgram?_withoutSpans context.program
  have program : context.withoutSpans.program = context.program.withoutSpans := rfl
  unfold runExtents
  rw [program]
  generalize Demand.ofProgram? context.program = full at demands ⊢
  generalize Demand.ofProgram? context.program.withoutSpans = bare at demands ⊢
  cases demands with
  | ok same =>
    subst same
    exact ⟨rfl, rfl⟩
  | error fault fault' => exact ⟨rfl, rfl⟩

theorem run_agrees (pass : Pass) (context : Context) :
    (pass.run context.withoutSpans).Agrees (pass.run context) := by
  cases pass with
  | intervalCheck => exact runCheck_agrees Check.intervals_agrees _ context
  | orderingCheck => exact runCheck_agrees Check.ordering_agrees _ context
  | inferExtents => exact runExtents_agrees context

theorem runAll_agrees (passes : List Pass) (context : Context) :
    (runAll passes context.withoutSpans).Agrees (runAll passes context) := by
  induction passes generalizing context with
  | nil => exact ⟨rfl, rfl⟩
  | cons pass rest ih =>
    have first := pass.run_agrees context
    have more := ih (pass.run context).context
    have failed := first.failed
    rw [← first.context] at more
    unfold runAll
    dsimp only
    cases full : (pass.run context).failure <;>
      cases bare : (pass.run context.withoutSpans).failure <;> rw [full, bare] at failed
    · exact ⟨more.failed, more.context⟩
    · cases failed
    · cases failed
    · exact first

end Pass

namespace Registry

/-- **A definition compiles to the same kernel without its spans**, and to none if it compiles to
none. -/
theorem compile_withoutSpans (definition : Definition) (externals : Externals) (backend : Backend)
    (signature : Signature) :
    Alike (fun bare full => bare.2 = full.2)
      (compile definition.withoutSpans externals backend signature).value
      (compile definition externals backend signature).value := by
  have contexts := Context.ofDefinition?_withoutSpans definition externals signature
  unfold compile
  generalize Context.ofDefinition? definition externals signature = full at contexts ⊢
  generalize Context.ofDefinition? definition.withoutSpans externals signature = bare
    at contexts ⊢
  cases contexts with
  | error error error' => exact .error _ _
  | @ok _ start same =>
    subst same
    have ran : ∀ context, PassTable.standard.run context ["all"] [] =
        Pass.runAll [.intervalCheck, .orderingCheck, .inferExtents] context := fun context => by
      unfold PassTable.run
      rw [PassTable.plan_all]
    have agrees := Pass.runAll_agrees [.intervalCheck, .orderingCheck, .inferExtents] start
    rw [← ran, ← ran] at agrees
    have failed := agrees.failed
    dsimp only
    cases full : (PassTable.standard.run start ["all"] []).failure <;>
      cases bare : (PassTable.standard.run start.withoutSpans ["all"] []).failure <;>
      rw [full, bare] at failed
    · rw [agrees.context]
      exact (Kernel.ofContext?_withoutSpans backend _).map fun _ _ same => same
    · cases failed
    · cases failed
    · exact .error _ _

end Registry

end GridStencil
