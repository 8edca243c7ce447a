import GridStencil.Proofs.Computed
import GridStencil.Proofs.Masked.Bodies

/-!
**Lowered branches read no plane that the source does not find computed.**

What a source statement reads on some planes are the temporaries in its expressions, and the target
of an assignment under a branch that is not the first one in the text (`Masked.Finds`): only the
first one leaves its target alone elsewhere without reading it. A lowered statement reads the
conditions of its guards besides, which were assigned on the same planes before.

* `lower_keeps`: lowered statements find what they read computed if the source does.
* `run_isOk_of_finds`: a compiled definition whose source finds all planes computed does not fail.
-/

namespace GridStencil.Masked

open Program (Scope Guard HasField HasType IsTemporary Statement lower lowerAll targets targetsAll
  turns ofDefinition?)
open Planes (Ready AllReady)

/-! ### Sources -/

section

variable (program : Program) (externals : Externals)

mutual

/-- The planes done behind a source statement on some planes. -/
def doneBehind (planes : Stretch) (done : Planes) : Definition.Statement → Planes
  | .assign target _ _ _ => done.add planes target
  | .branch _ whenTrue whenFalse _ =>
    doneBehindAll planes (doneBehindAll planes done whenTrue) whenFalse

/-- The planes done behind some source statements on some planes. -/
def doneBehindAll (planes : Stretch) (done : Planes) : List Definition.Statement → Planes
  | [] => done
  | statement :: rest => doneBehindAll planes (doneBehind planes done statement) rest

end

mutual

/-- A source statement finds all planes done that it reads. An assignment under a branch reads its
target, too, if that is a temporary which was `seen` before in the text. -/
def Finds (planes : Stretch) (guarded : Bool) (seen : List String) (done : Planes) :
    Definition.Statement → Prop
  | .assign target _ value _ =>
    Ready program.IsTemporary done planes (built program externals value) ∧
      (guarded = true → target ∈ seen → program.IsTemporary target →
        ∀ k ∈ planes.toList, done target k)
  | .branch condition whenTrue whenFalse _ =>
    Ready program.IsTemporary done planes (built program externals condition) ∧
      FindsAll planes true seen done whenTrue ∧
      FindsAll planes true (seen ++ targetsAll whenTrue) (doneBehindAll planes done whenTrue)
        whenFalse

/-- Source statements, one after another, find all planes done that they read. -/
def FindsAll (planes : Stretch) (guarded : Bool) (seen : List String) (done : Planes) :
    List Definition.Statement → Prop
  | [] => True
  | statement :: rest =>
    Finds planes guarded seen done statement ∧
      FindsAll planes guarded (seen ++ targets statement) (doneBehind planes done statement) rest

end

/-- A body finds all planes done on each turn. -/
def FindsTurns (seen : List String) (body : List Definition.Statement) :
    Planes → List Stretch → Prop
  | _, [] => True
  | done, planes :: rest =>
    FindsAll program externals planes false seen done body ∧
      FindsTurns seen body (doneBehindAll planes done body) rest

/-- The bodies of a definition find all planes done, in the order in which their sections run. -/
def FindsBodies (domain : PerAxis Nat) :
    List String → Planes → List (List Definition.Statement × Policy × Program.Section) → Prop
  | _, _, [] => True
  | seen, done, (body, policy, part) :: rest =>
    let planes := turns policy (Schedule.planesOf part.interval domain)
    FindsTurns program externals seen body done planes ∧
      FindsBodies domain (seen ++ targetsAll body)
        (planes.foldl (fun done planes => doneBehindAll planes done body) done) rest

/-- **In a run of the source, every read of a plane of a temporary comes after an assignment to
it.** -/
def FindsPlanes (definition : Definition) (domain : PerAxis Nat) : Prop :=
  FindsBodies program externals domain [] (fun _ _ => False)
    (definition.bodies.zip program.parts)

end

/-! ### Lowered statements -/

variable {program : Program} {externals : Externals} {guards : List Guard} {scope after : Scope}
  {planes : Stretch} {done : Planes}

/-- All that an expression reads are conditions of some guards. -/
def ReadsConditions (guards : List Guard) (expr : Program.Expr) : Prop :=
  ∀ read ∈ expr.reads, ∃ guard ∈ guards, read = ⟨guard.condition, .zero⟩

theorem readsConditions_test {guard : Guard} (member : guard ∈ guards) :
    ReadsConditions guards guard.test := by
  intro read own
  have same : guard.test.reads = [⟨guard.condition, .zero⟩] := by
    unfold Guard.test
    split <;> rfl
  rw [same] at own
  exact ⟨guard, member, List.mem_singleton.mp own⟩

theorem readsConditions_testAll (first : Guard) (rest : List Guard) :
    ReadsConditions (first :: rest) (Guard.testAll first rest) := by
  refine List.foldlRecOn (motive := ReadsConditions (first :: rest)) rest _
    (readsConditions_test List.mem_cons_self) ?_
  intro test earlier guard member read there
  rcases List.mem_append.mp there with early | own
  · exact earlier read early
  · exact readsConditions_test (List.mem_cons_of_mem _ member) read own

/-- A guarded value reads the value, the current one, and the conditions. -/
theorem reads_guarded (new current : Program.Expr) (guards : List Guard) :
    ∀ read ∈ (Guard.guarded new current guards).reads, read ∈ new.reads ∨
      guards ≠ [] ∧ (read ∈ current.reads ∨
        ∃ guard ∈ guards, read = ⟨guard.condition, .zero⟩) := by
  have select : ∀ (test whenTrue whenFalse : Program.Expr) (read : Program.Read),
      read ∈ (Program.Expr.select test whenTrue whenFalse).reads ↔
        read ∈ test.reads ∨ read ∈ whenTrue.reads ∨ read ∈ whenFalse.reads := by
    intro test whenTrue whenFalse read
    rw [Program.Expr.reads, List.mem_append, List.mem_append, or_assoc]
  have ofRead : ∀ guard : Guard, ReadsConditions [guard] guard.read :=
    fun guard read own => ⟨guard, List.mem_cons_self, List.mem_singleton.mp own⟩
  intro read there
  match guards with
  | [] => exact .inl there
  | [guard] =>
    unfold Guard.guarded at there
    dsimp only at there
    split at there
    · rcases (select _ _ _ _).mp there with own | isNew | isCurrent
      · exact .inr ⟨List.cons_ne_nil _ _, .inr (ofRead guard read own)⟩
      · exact .inl isNew
      · exact .inr ⟨List.cons_ne_nil _ _, .inl isCurrent⟩
    · rcases (select _ _ _ _).mp there with own | isCurrent | isNew
      · exact .inr ⟨List.cons_ne_nil _ _, .inr (ofRead guard read own)⟩
      · exact .inr ⟨List.cons_ne_nil _ _, .inl isCurrent⟩
      · exact .inl isNew
  | first :: second :: rest =>
    rcases (select _ _ _ _).mp there with own | isNew | isCurrent
    · exact .inr ⟨List.cons_ne_nil _ _, .inr (readsConditions_testAll first (second :: rest) read own)⟩
    · exact .inl isNew
    · exact .inr ⟨List.cons_ne_nil _ _, .inl isCurrent⟩

/-- Lowered statements find their planes done if the source does, and leave all planes done that the
source does. -/
def Keeps (program : Program) (planes : Stretch) (guards : List Guard)
    (statements : List Statement) (finds : Planes → Prop) (behind : Planes → Planes) : Prop :=
  ∀ lowered source : Planes, (∀ field k, source field k → lowered field k) →
    (∀ guard ∈ guards, ∀ k ∈ planes.toList, lowered guard.condition k) → finds source →
      AllReady program.IsTemporary lowered (statements.map (planes, ·)) ∧
        ∀ field k, behind source field k →
          Planes.behind lowered (statements.map (planes, ·)) field k

variable {first second : List Statement} {finds finds' : Planes → Prop}
  {behind behind' : Planes → Planes}

theorem Keeps.append (here : Keeps program planes guards first finds behind)
    (there : Keeps program planes guards second finds' behind') :
    Keeps program planes guards (first ++ second) (fun done => finds done ∧ finds' (behind done))
      (fun done => behind' (behind done)) := by
  rintro lowered source larger conditions ⟨found, found'⟩
  obtain ⟨ready, larger'⟩ := here lowered source larger conditions found
  obtain ⟨ready', larger''⟩ := there _ _ larger' (fun guard member k plane =>
    Planes.behind_of_done _ (conditions guard member k plane)) found'
  rw [List.map_append, Planes.allReady_append, Planes.behind_append]
  exact ⟨⟨ready, ready'⟩, larger''⟩

/-- **The condition of a branch is done for both sides**, and whatever the first side has done for
the second one. -/
theorem keeps_branch {name : String} {resolved : Program.Expr} (span : Span)
    (whenTrue : Keeps program planes (guards ++ [⟨name, true⟩]) first finds behind)
    (whenFalse : Keeps program planes (guards ++ [⟨name, false⟩]) second finds' behind') :
    Keeps program planes guards (⟨name, resolved, span⟩ :: first ++ second)
      (fun done => Ready program.IsTemporary done planes resolved ∧ finds done ∧
        finds' (behind done)) (fun done => behind' (behind done)) := by
  rintro lowered source larger conditions ⟨ready, found, found'⟩
  have opened : ∀ taken, ∀ guard ∈ guards ++ [⟨name, taken⟩], ∀ k ∈ planes.toList,
      lowered.add planes name guard.condition k := by
    intro taken guard member k plane
    rcases List.mem_append.mp member with earlier | new
    · exact .inl (conditions guard earlier k plane)
    · rw [List.mem_singleton.mp new]
      exact .inr ⟨rfl, plane⟩
  obtain ⟨readyTrue, larger'⟩ := whenTrue _ source (fun field k here => .inl (larger field k here))
    (opened true) found
  obtain ⟨readyFalse, larger''⟩ := whenFalse _ _ larger' (fun guard member k plane =>
    Planes.behind_of_done _ (opened false guard member k plane)) found'
  rw [List.map_append, Planes.allReady_append, Planes.behind_append]
  exact ⟨⟨⟨ready.mono larger, readyTrue⟩, readyFalse⟩, larger''⟩

/-- No parameter that a scope knows is a temporary of the program. -/
def Apart (program : Program) (scope : Scope) : Prop :=
  ∀ name, Program.HasParameter scope.fields name → ¬ program.IsTemporary name

theorem Apart.later (apart : Apart program scope) (precedes : scope.Precedes after) :
    Apart program after := fun name there => apart name ((precedes.parameters name).mp there)

/-- **An assignment reads its target if that is guarded and was assigned before.** -/
theorem keeps_assign (orderly : scope.Orderly) (resolves : Resolves program externals scope)
    (apart : Apart program scope) {seen : List String} (known : scope.assigned ⊆ seen)
    {guarded : Bool} (flag : guards ≠ [] → guarded = true) {target : String}
    {offset : Option Offset} {value : Definition.Expr} {resolved current : Program.Expr}
    (span : Span) (readable : scope.resolve value = .ok resolved)
    (assigned : scope.assign target = .ok (current, after)) :
    Keeps program planes guards [⟨target, Guard.guarded resolved current guards, span⟩]
      (fun done => Finds program externals planes guarded seen done
        (.assign target offset value span)) (fun done => done.add planes target) := by
  rintro lowered source larger conditions ⟨ready, own⟩
  obtain ⟨rfl, -⟩ := resolve_spec resolves readable
  obtain ⟨-, -, -, held⟩ := Scope.assign_spec orderly assigned
  refine ⟨⟨fun k plane read member isTemporary => ?_, trivial⟩, fun field k here =>
    here.imp_left (larger field k)⟩
  rcases reads_guarded _ _ _ read member with isNew | ⟨some, isCurrent | ⟨guard, there, rfl⟩⟩
  · exact larger _ _ (ready k plane read isNew isTemporary)
  · rcases held with ⟨rfl, -⟩ | ⟨rfl, touched⟩
    · cases isCurrent
    · obtain rfl := List.mem_singleton.mp isCurrent
      have before : target ∈ scope.assigned :=
        touched.resolve_left fun parameter => apart target parameter isTemporary
      show lowered target (k + 0)
      rw [Int.add_zero]
      exact larger _ _ (own (flag some) (known before) isTemporary k plane)
  · show lowered guard.condition (k + 0)
    rw [Int.add_zero]
    exact conditions guard there k plane

mutual

/-- **Lowered statements find their planes done if the source does.** -/
theorem lower_keeps {guards : List Guard} {scope after : Scope}
    (orderly : scope.Orderly) (resolves : Resolves program externals scope)
    (apart : Apart program scope) {seen : List String} (known : scope.assigned ⊆ seen)
    {guarded : Bool} (flag : guards ≠ [] → guarded = true) {statement : Definition.Statement}
    (used : targets statement ⊆ scope.fresh.taken) {statements : List Statement}
    (done : lower guards scope statement = .ok (statements, after)) :
    Keeps program planes guards statements
      (fun done => Finds program externals planes guarded seen done statement)
      (fun done => doneBehind planes done statement) := by
  match statement with
  | .assign target offset value span =>
    obtain ⟨resolved, current, readable, assigned, rfl⟩ := Program.lower_assign done
    exact keeps_assign orderly resolves apart known flag span readable assigned
  | .branch condition whenTrue whenFalse span =>
    obtain ⟨resolved, first, afterTrue, second, afterFalse, readable, loweredTrue, loweredFalse, -,
      rfl, rfl⟩ := Program.lower_branch done
    unfold targets at used
    obtain ⟨usedTrue, usedFalse⟩ := List.append_subset.mp used
    obtain ⟨rfl, -⟩ := resolve_spec resolves readable
    obtain ⟨opened, growsOpen, -⟩ := Scope.openCondition_orderly orderly
    obtain ⟨precedesOpen, -, -, -, assignedOpen⟩ := Scope.openCondition_spec scope
    have usedTrue' := List.Subset.trans usedTrue growsOpen.used
    obtain ⟨goodTrue, growsTrue, -⟩ := Program.lowerAll_orderly opened usedTrue' loweredTrue
    obtain ⟨precedesTrue, assignedTrue, -⟩ :=
      Program.lowerAll_precedes opened usedTrue' loweredTrue
    let restarted : Scope := { afterTrue with defined := scope.openCondition.2.defined }
    have precedes := precedesOpen.trans (precedesTrue.trans
      (Scope.precedes_defined afterTrue scope.openCondition.2.defined))
    have knownTrue : restarted.assigned ⊆ seen ++ targetsAll whenTrue := by
      refine List.Subset.trans assignedTrue (List.append_subset.mpr
        ⟨?_, List.subset_append_right _ _⟩)
      rw [assignedOpen]
      exact List.Subset.trans known (List.subset_append_left _ _)
    have whenTrue' := lowerAll_keeps opened (resolves.later precedesOpen)
      (apart.later precedesOpen) (assignedOpen ▸ known) (fun _ => rfl) usedTrue' loweredTrue
    have whenFalse' := lowerAll_keeps (Scope.orderly_of_eq goodTrue restarted rfl rfl).1
      (resolves.later precedes) (apart.later precedes) knownTrue (fun _ => rfl)
      (List.Subset.trans usedFalse (List.Subset.trans growsOpen.used growsTrue.used)) loweredFalse
    exact keeps_branch span whenTrue' whenFalse'

theorem lowerAll_keeps {guards : List Guard} {scope after : Scope}
    (orderly : scope.Orderly) (resolves : Resolves program externals scope)
    (apart : Apart program scope) {seen : List String} (known : scope.assigned ⊆ seen)
    {guarded : Bool} (flag : guards ≠ [] → guarded = true) {body : List Definition.Statement}
    (used : targetsAll body ⊆ scope.fresh.taken) {statements : List Statement}
    (done : lowerAll guards scope body = .ok (statements, after)) :
    Keeps program planes guards statements
      (fun done => FindsAll program externals planes guarded seen done body)
      (fun done => doneBehindAll planes done body) := by
  match body with
  | [] =>
    unfold lowerAll at done
    cases done
    exact fun lowered source larger _ _ => ⟨trivial, larger⟩
  | statement :: rest =>
    unfold targetsAll at used
    obtain ⟨usedHere, usedRest⟩ := List.append_subset.mp used
    unfold lowerAll at done
    obtain ⟨⟨first, middle⟩, loweredHere, done⟩ := Steps.bind_eq_ok.mp done
    obtain ⟨⟨more, last⟩, loweredRest, same⟩ := Steps.bind_eq_ok.mp done
    cases same
    obtain ⟨good, grows, -⟩ := Program.lower_orderly orderly usedHere loweredHere
    obtain ⟨precedes, assigned, -⟩ := Program.lower_precedes orderly usedHere loweredHere
    have known' : middle.assigned ⊆ seen ++ targets statement :=
      List.Subset.trans assigned (List.append_subset.mpr
        ⟨List.Subset.trans known (List.subset_append_left _ _), List.subset_append_right _ _⟩)
    exact (lower_keeps orderly resolves apart known flag usedHere loweredHere).append
      (lowerAll_keeps good (resolves.later precedes) (apart.later precedes) known' flag
        (List.Subset.trans usedRest grows.used) loweredRest)

end

/-! ### Definitions -/

variable {body : List Definition.Statement} {statements : List Statement} {seen : List String}

/-- A body that is kept on some planes is kept on all its turns. -/
theorem keeps_turns (keeps : ∀ planes, Keeps program planes [] statements
      (fun done => FindsAll program externals planes false seen done body)
      (fun done => doneBehindAll planes done body)) (stretches : List Stretch)
    {lowered source : Planes} (larger : ∀ field k, source field k → lowered field k)
    (finds : FindsTurns program externals seen body source stretches) :
    AllReady program.IsTemporary lowered
        (stretches.flatMap fun planes => statements.map (planes, ·)) ∧
      ∀ field k, stretches.foldl (fun done planes => doneBehindAll planes done body) source field k →
        lowered.behind (stretches.flatMap fun planes => statements.map (planes, ·)) field k := by
  induction stretches generalizing lowered source with
  | nil => exact ⟨trivial, larger⟩
  | cons planes rest ih =>
    obtain ⟨here, later⟩ := finds
    obtain ⟨ready, larger'⟩ := keeps planes lowered source larger
      (fun _ absurd => nomatch absurd) here
    obtain ⟨ready', larger''⟩ := ih larger' later
    rw [List.flatMap_cons, Planes.allReady_append, Planes.behind_append]
    exact ⟨⟨ready, ready'⟩, larger''⟩

/-- **Lowered bodies find all planes done if those of the source do**, in the order in which their
sections run. -/
theorem bodies_ready {last : Scope} {sources : List (List Definition.Statement)}
    {bodies : List (List Statement)} (all : LoweredBodies scope sources bodies last)
    (orderly : scope.Orderly) (resolves : Resolves program externals scope)
    (apart : Apart program scope) (known : scope.assigned ⊆ seen)
    (used : sources.flatMap targetsAll ⊆ scope.fresh.taken) {domain : PerAxis Nat}
    {parts : List (Policy × Program.Section)} (same : parts.map (·.2.body) = bodies)
    {lowered source : Planes} (larger : ∀ field k, source field k → lowered field k)
    (finds : FindsBodies program externals domain seen source (sources.zip parts)) :
    AllReady program.IsTemporary lowered (parts.flatMap fun part =>
      (turns part.1 (Schedule.planesOf part.2.interval domain)).flatMap fun planes =>
        part.2.body.map (planes, ·)) := by
  induction all generalizing seen parts lowered source with
  | nil scope =>
    obtain rfl := List.map_eq_nil_iff.mp same
    exact trivial
  | @cons scope middle last body statements rest more here _ ih =>
    obtain ⟨part, parts, rfl, rfl, sameRest⟩ := List.map_eq_cons_iff.mp same
    obtain ⟨policy, part⟩ := part
    obtain ⟨usedHere, usedRest⟩ := List.append_subset.mp used
    obtain ⟨good, grows, -⟩ := Program.lowerAll_orderly orderly usedHere here
    obtain ⟨precedes, assigned, -⟩ := Program.lowerAll_precedes orderly usedHere here
    have known' : middle.assigned ⊆ seen ++ targetsAll body :=
      List.Subset.trans assigned (List.append_subset.mpr
        ⟨List.Subset.trans known (List.subset_append_left _ _), List.subset_append_right _ _⟩)
    obtain ⟨findsHere, findsRest⟩ := finds
    obtain ⟨ready, larger'⟩ := keeps_turns (fun planes => lowerAll_keeps orderly resolves apart known
      (fun absurd => absurd.elim rfl) usedHere here) _ larger findsHere
    rw [List.flatMap_cons, Planes.allReady_append]
    exact ⟨ready, ih good (resolves.later precedes) (apart.later precedes) known'
      (List.Subset.trans usedRest grows.used) sameRest larger' findsRest⟩

theorem map_parts (program : Program) : program.parts.map (·.2.body) = program.bodies := by
  unfold Program.parts Program.bodies
  rw [List.map_flatMap]
  refine congrArg (List.flatMap · _) (funext fun block => ?_)
  rw [List.map_map]
  rfl

/-- **A run succeeds if in the source every read of a plane of a temporary comes after an assignment
to it.** An assignment under a branch reads its target there if it is not the first one in the text
that assigns it. -/
theorem run_isOk_of_finds {definition : Definition} {given : Externals} {backend : Backend}
    {signature : Signature} {context : Context} {kernel : Kernel}
    (compiled : (Registry.compile definition given backend signature).value =
      .ok (context, kernel))
    {call : Call} {bound : BoundCall} (passed : call.bind kernel.interface = .ok bound)
    (exact : call.Exact kernel.interface)
    (finds : FindsPlanes context.program context.externals definition call.domain) :
    (kernel.run call).2 = none := by
  obtain ⟨planned, made⟩ := Registry.compile_eq_ok compiled
  obtain ⟨last, free, all, sameFields, sameScalars⟩ :=
    bodies_of_accepted (Registry.program_of_compile compiled)
  have orderly := Program.start_orderly context.externals signature free
  have used := targets_subset_namesIn definition
  have precedes := all.precedes orderly used
  have apart : Apart context.program (.start definition context.externals signature) := by
    rintro name parameter ⟨field, member, named, temporary⟩
    obtain ⟨other, there, named', role⟩ := (precedes.parameters name).mpr parameter
    rw [sameFields] at there
    rw [Scope.eq_of_name planned.wellFormed.distinct there member (named'.trans named.symm)] at role
    exact role temporary
  refine Kernel.run_isOk planned made passed exact ?_
  exact bodies_ready all orderly ⟨rfl, precedes.scalars.symm.trans sameScalars⟩ apart
    (List.Subset.refl _) used (map_parts context.program) (fun _ _ absurd => absurd) finds

/-- A body that finds all planes done wherever it runs does so on each turn. -/
theorem FindsTurns.of_all (finds : ∀ planes done,
    FindsAll program externals planes false seen done body) (done : Planes)
    (stretches : List Stretch) : FindsTurns program externals seen body done stretches := by
  induction stretches generalizing done with
  | nil => exact trivial
  | cons planes rest ih => exact ⟨finds planes done, ih _⟩

/-- A body that assigns `t` on both sides of a branch, and reads it afterwards. -/
def eitherBody : List Definition.Statement :=
  [.branch (.binary .gt (.name "a" ⟨0, 0⟩) (.literal (.int 0) ⟨0, 0⟩) ⟨0, 0⟩)
      [.assign "t" none (.name "a" ⟨0, 0⟩) ⟨0, 0⟩]
      [.assign "t" none (.literal (.int 1) ⟨0, 0⟩) ⟨0, 0⟩] ⟨0, 0⟩,
    .assign "b" none (.name "t" ⟨0, 0⟩) ⟨0, 0⟩]

/-- The definition with this body. -/
def either : Definition := Sample.definition [⟨"FORWARD", [⟨.full, eitherBody, ⟨0, 0⟩⟩], ⟨0, 0⟩⟩]

/-- A run of a definition whose planes are found done. -/
theorem run_isOk_of_finds_either : ∃ context kernel bound,
    (Registry.compile either .empty .debug .empty).value = .ok (context, kernel) ∧
      Sample.call.bind kernel.interface = .ok bound ∧ Sample.call.Exact kernel.interface ∧
      FindsPlanes context.program context.externals either Sample.call.domain ∧
      (kernel.run Sample.call).2 = none := by
  have runs : Sample.runs either .debug true = true := by decide +kernel
  obtain ⟨context, kernel, bound, compiled, passed, exact, -, -⟩ := Sample.of_runs runs
  have accepted := Registry.program_of_compile compiled
  have fields : (ofDefinition? either .empty .empty).toOption.map (fun built =>
      (built.1.fields, built.1.scalars)) = some ([⟨"a", .f64, .ijk, .input⟩,
        ⟨"b", .f64, .ijk, .output⟩, ⟨"__cond0", .bool, .ijk, .temporary⟩,
        ⟨"t", .f64, .ijk, .temporary⟩], []) := by decide +kernel
  have parts : (ofDefinition? either .empty .empty).toOption.map (fun built =>
      (built.1.parts.map fun part => (part.1, part.2.interval), built.2.entries)) =
        some ([(.forward, .full)], []) := by decide +kernel
  rw [accepted] at fields parts
  obtain ⟨fields, noScalars⟩ := Prod.mk.inj (Option.some.inj fields)
  obtain ⟨parts, noExternals⟩ := Prod.mk.inj (Option.some.inj parts)
  dsimp only at fields noScalars parts noExternals
  have read : ∀ name, built context.program context.externals (.name name ⟨0, 0⟩) =
      .field name .zero := by
    intro name
    show builtName _ _ name .zero = _
    unfold builtName Name.Table.get?
    rw [noExternals, noScalars]
    rfl
  have input : ¬ context.program.IsTemporary "a" := by
    unfold Program.IsTemporary
    rw [fields]
    decide
  have noReads : ∀ (planes : Stretch) (done : Planes),
      Ready context.program.IsTemporary done planes (.field "a" .zero) :=
    fun planes done k plane access member isTemporary => by
      rw [List.mem_singleton.mp member] at isTemporary
      exact absurd isTemporary input
  have finds : ∀ (planes : Stretch) (done : Planes),
      FindsAll context.program context.externals planes false [] done eitherBody := by
    intro planes done
    have condition : Ready context.program.IsTemporary done planes
        (built context.program context.externals
          (.binary .gt (.name "a" ⟨0, 0⟩) (.literal (.int 0) ⟨0, 0⟩) ⟨0, 0⟩)) := by
      show Ready _ done planes (Program.foldBinary .gt (built _ _ (.name "a" ⟨0, 0⟩)) _)
      rw [read]
      exact noReads planes done
    refine ⟨⟨condition, ⟨⟨read "a" ▸ noReads planes done, fun _ absurd => nomatch absurd⟩, trivial⟩,
      ⟨⟨fun _ _ _ absurd => (nomatch absurd), fun _ _ _ k plane => .inr ⟨rfl, plane⟩⟩, trivial⟩⟩,
      ⟨⟨?_, fun absurd => nomatch absurd⟩, trivial⟩⟩
    -- the last statement reads what either side of the branch assigns
    rw [read]
    intro k plane access member _
    rw [List.mem_singleton.mp member]
    refine .inr ⟨rfl, ?_⟩
    show k + 0 ∈ planes.toList
    rw [Int.add_zero]
    exact plane
  have everywhere : FindsPlanes context.program context.externals either Sample.call.domain := by
    obtain ⟨part, none, same, -, noMore⟩ := List.map_eq_cons_iff.mp parts
    obtain rfl := List.map_eq_nil_iff.mp noMore
    unfold FindsPlanes
    rw [same]
    exact ⟨FindsTurns.of_all finds _ _, trivial⟩
  exact ⟨context, kernel, bound, compiled, passed, exact, everywhere,
    run_isOk_of_finds compiled passed exact everywhere⟩

end GridStencil.Masked
