import GridStencil.Proofs.Masked.Lowering

/-!
**The bodies of a definition mean what is written.**

The bodies of a definition are lowered one after another, each in the scope behind those before it
(`LoweredBodies`). A temporary of the source that no earlier body assigns is not touched in that
scope, so it has to hold zero where a body starts; nothing else is asked of the state.

* `preserves_values`: a lowered body leaves all fields of the source as the body does as it is
  written, on every region.
-/

namespace GridStencil.Masked

open Program (Scope Guard HasField HasType lowerAll lowerSections lowerComputations targetsAll
  namesIn ofDefinition?)
open Reference (State cast)

/-- Bodies that are lowered one after another, from a first scope to a last one. -/
inductive LoweredBodies :
    Scope → List (List Definition.Statement) → List (List Program.Statement) → Scope → Prop
  | nil (scope : Scope) : LoweredBodies scope [] [] scope
  | cons {scope middle after : Scope} {body : List Definition.Statement}
      {statements : List Program.Statement} {rest : List (List Definition.Statement)}
      {more : List (List Program.Statement)}
      (here : lowerAll [] scope body = .ok (statements, middle))
      (later : LoweredBodies middle rest more after) :
      LoweredBodies scope (body :: rest) (statements :: more) after

variable {scope middle after last : Scope} {sources moreSources : List (List Definition.Statement)}
  {bodies moreBodies : List (List Program.Statement)}

theorem LoweredBodies.append (first : LoweredBodies scope sources bodies middle)
    (second : LoweredBodies middle moreSources moreBodies after) :
    LoweredBodies scope (sources ++ moreSources) (bodies ++ moreBodies) after := by
  induction first with
  | nil scope => exact second
  | cons here _ ih => exact .cons here (ih second)

theorem lowerSections_bodies {parts : List Definition.Section} {sections : List Program.Section}
    (done : lowerSections scope parts = .ok (sections, after)) :
    LoweredBodies scope (parts.map Definition.Section.body)
      (sections.map Program.Section.body) after := by
  induction parts generalizing scope sections with
  | nil =>
    cases done
    exact .nil _
  | cons part rest ih =>
    unfold lowerSections at done
    obtain ⟨interval, -, done⟩ := Steps.bind_eq_ok.mp done
    obtain ⟨⟨body, middle⟩, lowered, done⟩ := Steps.bind_eq_ok.mp done
    obtain ⟨⟨more, last⟩, loweredRest, same⟩ := Steps.bind_eq_ok.mp done
    cases same
    exact .cons lowered (ih loweredRest)

theorem lowerComputations_bodies {computations : List Definition.Computation}
    {blocks : List Program.Block}
    (done : lowerComputations scope computations = .ok (blocks, after)) :
    LoweredBodies scope
      (computations.flatMap fun computation => computation.sections.map Definition.Section.body)
      (blocks.flatMap fun block => block.sections.map Program.Section.body) after := by
  induction computations generalizing scope blocks with
  | nil =>
    cases done
    exact .nil _
  | cons computation rest ih =>
    unfold lowerComputations at done
    split at done
    · cases done
    · obtain ⟨⟨sections, middle⟩, lowered, done⟩ := Steps.bind_eq_ok.mp done
      obtain ⟨⟨more, last⟩, loweredRest, same⟩ := Steps.bind_eq_ok.mp done
      cases same
      exact (lowerSections_bodies lowered).append (ih loweredRest)

variable {program : Program} {externals : Externals} {names : List String}

theorem LoweredBodies.precedes (all : LoweredBodies scope sources bodies last)
    (orderly : scope.Orderly) (used : sources.flatMap targetsAll ⊆ scope.fresh.taken) :
    scope.Precedes last := by
  induction all with
  | nil scope => exact .refl scope
  | cons lowered _ ih =>
    obtain ⟨usedHere, usedRest⟩ := List.append_subset.mp used
    obtain ⟨good, grows, -⟩ := Program.lowerAll_orderly orderly usedHere lowered
    have precedes := (Program.lowerAll_precedes orderly usedHere lowered).1
    exact precedes.trans (ih good (List.Subset.trans usedRest grows.used))

/-- **Every body is lowered in a scope that knows what the bodies before it have assigned.** -/
theorem LoweredBodies.at (all : LoweredBodies scope sources bodies last)
    (way : OnTheWay program externals names scope) (used : sources.flatMap targetsAll ⊆ names)
    {n : Nat} {source : List Definition.Statement} (here : sources[n]? = some source) :
    ∃ statements before after, bodies[n]? = some statements ∧
      lowerAll [] before source = .ok (statements, after) ∧
      OnTheWay program externals names before ∧ scope.Precedes before ∧ before.Precedes last ∧
      after.Precedes last ∧
        ∀ target ∈ (sources.take n).flatMap targetsAll, before.Touched target := by
  induction all generalizing n with
  | nil scope => cases here
  | @cons scope middle last body statements rest more lowered later ih =>
    obtain ⟨usedHere, usedRest⟩ := List.append_subset.mp used
    have inUse := List.Subset.trans usedHere way.avoids
    obtain ⟨good, grows, -⟩ := Program.lowerAll_orderly way.orderly inUse lowered
    obtain ⟨precedes, -, touched⟩ := Program.lowerAll_precedes way.orderly inUse lowered
    have way' := way.later precedes good grows
    have behind := later.precedes good (List.Subset.trans usedRest way'.avoids)
    cases n with
    | zero =>
      cases here
      exact ⟨statements, scope, middle, rfl, lowered, way, .refl scope, precedes.trans behind,
        behind, fun _ absurd => nomatch absurd⟩
    | succ n =>
      obtain ⟨statements', before, after, there, lowered', way'', known, early, late, touched'⟩ :=
        ih way' usedRest here
      refine ⟨statements', before, after, there, lowered', way'', precedes.trans known, early, late,
        fun target member => ?_⟩
      rcases List.mem_append.mp member with first | further
      · exact (touched target first).1.later known
      · exact touched' target further

/-! ### Definitions -/

section

variable {definition : Definition} {given : Externals} {signature : Signature}

/-- The names in use at the start of a definition include the targets of its bodies. -/
theorem targets_subset_namesIn (definition : Definition) :
    definition.bodies.flatMap targetsAll ⊆ namesIn definition := by
  unfold Definition.bodies namesIn
  rw [List.flatMap_assoc]
  refine List.Subset.trans ?_ (List.subset_append_right _ _)
  simp only [List.flatMap_map]
  exact List.Subset.refl _

/-- A definition is accepted by lowering its bodies one after another. -/
theorem bodies_of_accepted (accepted : ofDefinition? definition given signature =
      .ok (program, externals)) :
    ∃ last, Program.clash? [] (Program.bindings definition) = none ∧
      LoweredBodies (Scope.start definition externals signature) definition.bodies program.bodies
        last ∧ last.fields = program.fields ∧ last.scalars = program.scalars := by
  unfold ofDefinition? at accepted
  cases free : Program.clash? [] (Program.bindings definition) with
  | some fault =>
    rw [free] at accepted
    cases accepted
  | none =>
    rw [free] at accepted
    obtain ⟨values, _, accepted⟩ := Steps.bind_eq_ok.mp accepted
    dsimp only at accepted
    split at accepted
    · cases accepted
    · obtain ⟨⟨blocks, last⟩, lowered, same⟩ := Steps.bind_eq_ok.mp accepted
      cases same
      exact ⟨last, rfl, lowerComputations_bodies lowered, rfl, rfl⟩

/-- A source name with no value yet where a body starts is that of a temporary which no earlier
body assigns. -/
theorem temporary_of_untouched {before : Scope} (sameFields : last.fields = program.fields)
    (early : before.Precedes last) {earlier : List String}
    (touched : ∀ target ∈ earlier, before.Touched target) {name : String}
    (known : IsSource program names name) (untouched : ¬ before.Touched name) :
    name ∉ earlier ∧ ∃ field ∈ program.fields, field.name = name ∧ field.role = .temporary := by
  obtain ⟨inNames, field, member, named⟩ := known
  refine ⟨fun there => untouched (touched name there), field, member, named, ?_⟩
  by_contra role
  have parameter : Program.HasParameter last.fields name := ⟨field, sameFields ▸ member, named, role⟩
  exact untouched (.inl ((early.parameters name).mp parameter))

/-- **A lowered body leaves the fields of the source as the body does as it is written**, on every
region, if temporaries that no earlier body assigns hold zero there and fields hold values of their
types. The names that the definition reads have to be among those that it binds or assigns: the
supply of names for conditions avoids no others. -/
theorem preserves_values (accepted : ofDefinition? definition given signature =
      .ok (program, externals))
    (closed : definition.readNames ⊆ namesIn definition)
    (casts : CastsOnce program (namesIn definition)) {n : Nat}
    {source : List Definition.Statement} (here : definition.bodies[n]? = some source) :
    ∃ statements, program.bodies[n]? = some statements ∧
      ∀ (region : Points) (scalars : String → Float) (state : State),
        (∀ name, IsSource program (namesIn definition) name → ∀ p, region p = true →
          cast program name (state name p) = state name p) →
        (∀ field ∈ program.fields, field.role = .temporary →
          field.name ∉ (definition.bodies.take n).flatMap targetsAll →
          field.name ∈ namesIn definition → ∀ p, region p = true → state field.name p = 0.0) →
        ∀ name, IsSource program (namesIn definition) name →
          runBuilt program scalars region state statements name =
            runAll program externals scalars region state source name := by
  have distinct := (Program.ofDefinition?_wellFormed accepted).distinct
  obtain ⟨last, free, all, sameFields, sameScalars⟩ := bodies_of_accepted accepted
  have used := targets_subset_namesIn definition
  have orderly := Program.start_orderly externals signature free
  have way : OnTheWay program externals (namesIn definition)
      (Scope.start definition externals signature) :=
    ⟨⟨rfl, (all.precedes orderly used).scalars.symm.trans sameScalars⟩, orderly,
      List.Subset.refl _⟩
  obtain ⟨statements, before, after, there, lowered, way', -, early, late, touched⟩ :=
    all.at way used here
  refine ⟨statements, there, fun region scalars state stored zero name known => ?_⟩
  have types : TypesIn program after := fun name type typed =>
    sameFields ▸ late.types name type typed
  have inside := List.mem_of_getElem? here
  have start : Matches program (namesIn definition) region region [] before state state :=
    { same := fun _ _ => rfl
      stored := stored
      zero := fun name known untouched => by
        obtain ⟨new, field, member, rfl, role⟩ :=
          temporary_of_untouched sameFields early touched known untouched
        exact zero field member role new known.1
      inside := fun p => (Bool.and_true _).symm }
  have usedHere : targetsAll source ⊆ namesIn definition := fun target member =>
    used (List.mem_flatMap.mpr ⟨source, inside, member⟩)
  have readsHere : Definition.Statement.listNames source ⊆ namesIn definition := fun read member =>
    closed (List.mem_flatMap.mpr ⟨source, inside, member⟩)
  have hidden : Hidden (namesIn definition) before [] := fun _ absurd => nomatch absurd
  obtain ⟨behind, -⟩ := lowerAll_simulates distinct casts way' types usedHere readsHere hidden
    lowered region state state start
  exact behind.same name known

end

/-- A body in which the first side of a branch changes the field that the condition reads, and both
sides are the first to assign `t`. -/
def sidesBody : List Definition.Statement :=
  [.branch (.name "x" ⟨0, 0⟩) [.assign "x" none (.name "a" ⟨0, 0⟩) ⟨0, 0⟩,
      .assign "t" none (.access "x" ⟨1, 0, 0⟩ ⟨0, 0⟩) ⟨0, 0⟩]
    [.assign "t" none (.name "a" ⟨0, 0⟩) ⟨0, 0⟩] ⟨0, 0⟩,
    .assign "x" none (.binary .add (.name "x" ⟨0, 0⟩) (.name "t" ⟨0, 0⟩) ⟨0, 0⟩) ⟨0, 0⟩]

/-- The definition with this body. -/
def sides : Definition where
  source := ⟨"", ""⟩
  name := "sides"
  fields := [⟨"a", .f64, .ijk, ⟨0, 0⟩⟩, ⟨"x", .f64, .ijk, ⟨0, 0⟩⟩]
  scalars := []
  externals := []
  computations := [⟨"PARALLEL", [⟨.full, sidesBody, ⟨0, 0⟩⟩], ⟨0, 0⟩⟩]
  span := ⟨0, 0⟩

/-- What becomes of the body of `sides`. -/
def sidesBuilt : List Program.Statement := [
  ⟨"__cond0", .field "x" .zero, ⟨0, 0⟩⟩,
  ⟨"x", .select (.field "__cond0" .zero) (.field "a" .zero) (.field "x" .zero), ⟨0, 0⟩⟩,
  ⟨"t", .select (.field "__cond0" .zero) (.field "x" ⟨1, 0, 0⟩) (.literal (.float 0.0)), ⟨0, 0⟩⟩,
  ⟨"t", .select (.field "__cond0" .zero) (.field "t" .zero) (.field "a" .zero), ⟨0, 0⟩⟩,
  ⟨"x", .binary .add (.field "x" .zero) (.field "t" .zero), ⟨0, 0⟩⟩]

/-- What becomes of `sides`, on the plane at the bottom, for values that grow along an axis. -/
theorem preserves_values_sides : ∃ program externals,
    ofDefinition? sides .empty .empty = .ok (program, externals) ∧
      program.bodies[0]? = some sidesBuilt ∧
      ∀ name ∈ ["a", "x", "t"],
        runBuilt program (fun _ => 0.0) (fun p => p.k == 0)
            (fun field p => if field = "t" then 0.0 else Float.ofInt p.i) sidesBuilt name =
          runAll program externals (fun _ => 0.0) (fun p => p.k == 0)
            (fun field p => if field = "t" then 0.0 else Float.ofInt p.i) sidesBody name := by
  have known : (ofDefinition? sides .empty .empty).toOption.map (fun built =>
      (built.1.fields, built.1.bodies)) = some ([⟨"a", .f64, .ijk, .input⟩,
        ⟨"x", .f64, .ijk, .output⟩, ⟨"__cond0", .bool, .ijk, .temporary⟩,
        ⟨"t", .f64, .ijk, .temporary⟩], [sidesBuilt]) := by decide +kernel
  cases accepted : ofDefinition? sides .empty .empty with
  | error fault =>
    rw [accepted] at known
    cases known
  | ok both =>
    obtain ⟨program, externals⟩ := both
    rw [accepted] at known
    obtain ⟨fields, bodies⟩ := Prod.mk.inj (Option.some.inj known)
    dsimp only at fields bodies
    have names : namesIn sides ⊆ ["a", "x", "t"] := by decide +kernel
    have doubles : ∀ name ∈ ["a", "x", "t"], ∀ x, cast program name x = x := by
      intro name member x
      unfold Reference.cast Program.field?
      rw [fields]
      simp only [List.mem_cons, List.not_mem_nil, or_false] at member
      rcases member with rfl | rfl | rfl <;> rfl
    have same : ∀ name, IsSource program (namesIn sides) name → ∀ x, cast program name x = x :=
      fun name known => doubles name (names known.1)
    obtain ⟨statements, there, agree⟩ := preserves_values accepted (by decide +kernel)
      (fun name known x => same name known _) (show sides.bodies[0]? = some sidesBody from rfl)
    rw [bodies] at there
    cases there
    refine ⟨program, externals, rfl, by rw [bodies]; rfl, fun name member => ?_⟩
    refine agree _ _ _ (fun name known p _ => same name known _)
      (fun field member role _ inNames p _ => ?_) name ⟨?_, ?_⟩
    · rw [fields] at member
      simp only [List.mem_cons, List.not_mem_nil, or_false] at member
      rcases member with rfl | rfl | rfl | rfl
      · cases role
      · cases role
      · exact absurd (names inNames) (by decide)
      · rfl
    · revert name
      decide +kernel
    · rw [HasField, fields]
      revert name
      decide +kernel

end GridStencil.Masked
