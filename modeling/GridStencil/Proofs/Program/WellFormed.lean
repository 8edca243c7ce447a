import GridStencil.Program.Lowering
import GridStencil.Proofs.Name.Fresh
import GridStencil.Proofs.Steps

/-!
**Programs that come from definitions are well-formed.**

Every field has a name of its own, the parameters come before the temporaries, assignments go to
three-dimensional fields that are no inputs, and bounds are measured from the end of the axis that
they lie inside of. All of this is an invariant of scopes (`Scope.Orderly`) which every step of the
resolution keeps, together with what may be assigned so far.

* `ofDefinition?_wellFormed`: the programs of all definitions.
-/

namespace GridStencil

/-- The bound lies inside the domain if that has enough planes. -/
def AxisBound.Inward (bound : AxisBound) : Prop :=
  match bound.level with
  | .bottom => 0 ≤ bound.offset
  | .top => bound.offset ≤ 0

theorem AxisBound.inward_ofSource (value : Int) : (AxisBound.ofSource value).Inward := by
  unfold ofSource
  split
  next positive => exact positive
  next negative =>
    show value ≤ 0
    omega

namespace Program

/-- A field among some that can be assigned. -/
def Assignable (fields : List Field) (name : String) : Prop :=
  ∃ field ∈ fields, field.name = name ∧ field.dimensions = .ijk ∧ field.role ≠ .input

/-- What holds of every program that comes from a definition. -/
structure WellFormed (program : Program) : Prop where
  distinct : (program.fields.map Field.name).Nodup
  ordered : program.fields =
    program.fields.filter Field.isParameter ++ program.fields.filter (!·.isParameter)
  full : ∀ field ∈ program.fields, field.role ≠ .input → field.dimensions = .ijk
  bounds : ∀ block ∈ program.blocks, ∀ part ∈ block.sections,
    part.interval.start.Inward ∧ part.interval.stop.Inward
  targets : ∀ block ∈ program.blocks, ∀ part ∈ block.sections, ∀ statement ∈ part.body,
    Assignable program.fields statement.target

namespace Scope

/-- The fields of a scope have names of their own, all of them in use; those that are assigned have
axes; and parameters come before temporaries. -/
structure Orderly (scope : Scope) : Prop where
  distinct : (scope.fields.map Field.name).Nodup
  used : ∀ field ∈ scope.fields, field.name ∈ scope.fresh.taken
  full : ∀ field ∈ scope.fields, field.role ≠ .input → field.dimensions = .ijk
  ordered : ∃ parameters temporaries, scope.fields = parameters ++ temporaries ∧
    (∀ field ∈ parameters, field.role ≠ .temporary) ∧
    ∀ field ∈ temporaries, field.role = .temporary

/-- What a scope knows is still known in a later one. -/
structure Grows (before after : Scope) : Prop where
  used : before.fresh.taken ⊆ after.fresh.taken
  assignable : ∀ name, Assignable before.fields name → Assignable after.fields name

theorem Grows.refl (scope : Scope) : Grows scope scope := ⟨List.Subset.refl _, fun _ there => there⟩

theorem Grows.trans {a b c : Scope} (first : Grows a b) (second : Grows b c) : Grows a c :=
  ⟨List.Subset.trans first.used second.used,
    fun name there => second.assignable name (first.assignable name there)⟩

theorem holding_fields (scope : Scope) (name : String) :
    (scope.holding name).fields = scope.fields ∧ (scope.holding name).fresh = scope.fresh := by
  unfold holding
  split
  · exact ⟨rfl, rfl⟩
  · exact ⟨rfl, rfl⟩

/-- One more temporary, under a name in use that no field has. -/
theorem orderly_withTemporary {scope : Scope} (orderly : scope.Orderly) {name : String}
    (type : ElementType) (used : name ∈ scope.fresh.taken)
    (unknown : ∀ field ∈ scope.fields, field.name ≠ name) :
    (scope.withTemporary name type).Orderly ∧ Grows scope (scope.withTemporary name type) ∧
      Assignable (scope.withTemporary name type).fields name := by
  obtain ⟨sameFields, sameFresh⟩ := holding_fields
    { scope with fields := scope.fields ++ [⟨name, type, .ijk, .temporary⟩] } name
  have fields : (scope.withTemporary name type).fields =
      scope.fields ++ [⟨name, type, .ijk, .temporary⟩] := sameFields
  have fresh : (scope.withTemporary name type).fresh = scope.fresh := sameFresh
  obtain ⟨parameters, temporaries, split, noTemporary, allTemporary⟩ := orderly.ordered
  refine ⟨⟨?_, ?_, ?_, parameters, temporaries ++ [⟨name, type, .ijk, .temporary⟩], ?_, noTemporary,
    ?_⟩, ⟨?_, ?_⟩, ?_⟩
  · rw [fields, List.map_append, List.map_singleton, List.nodup_append]
    refine ⟨orderly.distinct, List.nodup_singleton _, ?_⟩
    rintro other member _ single rfl
    obtain ⟨field, there, same⟩ := List.mem_map.mp member
    exact unknown field there (same.trans (List.mem_singleton.mp single))
  · rw [fields, fresh]
    intro field member
    rcases List.mem_append.mp member with old | new
    · exact orderly.used field old
    · rw [List.mem_singleton.mp new]
      exact used
  · rw [fields]
    intro field member
    rcases List.mem_append.mp member with old | new
    · exact orderly.full field old
    · rw [List.mem_singleton.mp new]
      exact fun _ => rfl
  · rw [fields, split, List.append_assoc]
  · intro field member
    rcases List.mem_append.mp member with old | new
    · exact allTemporary field old
    · rw [List.mem_singleton.mp new]
  · rw [fresh]
    exact List.Subset.refl _
  · rintro other ⟨field, member, rest⟩
    rw [fields]
    exact ⟨field, List.mem_append_left _ member, rest⟩
  · rw [fields]
    exact ⟨_, List.mem_append_right _ (List.mem_singleton.mpr rfl), rfl, rfl,
      fun absurd => nomatch absurd⟩

theorem eq_of_name {fields : List Field} (distinct : (fields.map Field.name).Nodup) {a b : Field}
    (memberA : a ∈ fields) (memberB : b ∈ fields) (same : a.name = b.name) : a = b :=
  List.inj_on_of_nodup_map distinct memberA memberB same

theorem field?_eq_some {scope : Scope} {name : String} {field : Field}
    (found : scope.field? name = some field) : field ∈ scope.fields ∧ field.name = name := by
  have named := List.find?_some found
  exact ⟨List.mem_of_find?_eq_some found, beq_iff_eq.mp named⟩

/-- A parameter that becomes an output. -/
theorem orderly_withOutput {scope : Scope} (orderly : scope.Orderly) {name : String}
    {field : Field} (found : scope.field? name = some field) (full : field.dimensions = .ijk)
    (input : field.role = .input) :
    (scope.withOutput name).Orderly ∧ Grows scope (scope.withOutput name) ∧
      Assignable (scope.withOutput name).fields name := by
  obtain ⟨member, named⟩ := field?_eq_some found
  let turned : Field → Field := fun field =>
    if field.name = name then { field with role := .output } else field
  have fields : (scope.withOutput name).fields = scope.fields.map turned := rfl
  have sameName : ∀ field, (turned field).name = field.name := by
    intro field
    show (if field.name = name then _ else _ : Field).name = _
    split <;> rfl
  have sameDimensions : ∀ field, (turned field).dimensions = field.dimensions := by
    intro field
    show (if field.name = name then _ else _ : Field).dimensions = _
    split <;> rfl
  have other : ∀ field, field.name ≠ name → turned field = field := fun field different =>
    if_neg different
  have output : ∀ field, field.name = name → (turned field).role = .output := by
    intro field same
    show (if field.name = name then _ else _ : Field).role = _
    rw [if_pos same]
  obtain ⟨parameters, temporaries, split, noTemporary, allTemporary⟩ := orderly.ordered
  refine ⟨⟨?_, ?_, ?_, parameters.map turned, temporaries, ?_, ?_, allTemporary⟩, ⟨?_, ?_⟩, ?_⟩
  · rw [fields, List.map_map, show Field.name ∘ turned = Field.name from funext sameName]
    exact orderly.distinct
  · rw [fields]
    intro field inside
    obtain ⟨old, there, rfl⟩ := List.mem_map.mp inside
    rw [sameName]
    exact orderly.used old there
  · rw [fields]
    intro result inside assigned
    obtain ⟨old, there, rfl⟩ := List.mem_map.mp inside
    rw [sameDimensions]
    by_cases same : old.name = name
    · rw [eq_of_name orderly.distinct there member (same.trans named.symm)]
      exact full
    · rw [other old same] at assigned
      exact orderly.full old there assigned
  · rw [fields, split, List.map_append]
    congr 1
    refine (List.map_congr_left fun temporary there => other temporary fun same => ?_).trans
      (List.map_id temporaries)
    have inside : temporary ∈ scope.fields := split ▸ List.mem_append_right _ there
    have equal := eq_of_name orderly.distinct inside member (same.trans named.symm)
    rw [← equal, allTemporary temporary there] at input
    cases input
  · intro field inside
    obtain ⟨old, there, rfl⟩ := List.mem_map.mp inside
    by_cases same : old.name = name
    · rw [output old same]
      decide
    · rw [other old same]
      exact noTemporary old there
  · exact List.Subset.refl _
  · rintro assigned ⟨old, there, rfl, dimensions, role⟩
    rw [fields]
    refine ⟨turned old, List.mem_map_of_mem there, sameName old, ?_, ?_⟩
    · rw [sameDimensions, dimensions]
    · by_cases same : old.name = name
      · rw [output old same]
        decide
      · rw [other old same]
        exact role
  · rw [fields]
    refine ⟨turned field, List.mem_map_of_mem member, (sameName field).trans named, ?_, ?_⟩
    · rw [sameDimensions, full]
    · rw [output field named]
      decide

theorem field?_eq_none {scope : Scope} {name : String} (missing : scope.field? name = none) :
    ∀ field ∈ scope.fields, field.name ≠ name := by
  intro field member same
  have other := List.find?_eq_none.mp missing field member
  exact other (beq_iff_eq.mpr same)

/-- **What an assignment does to a scope**: its target can be assigned from then on. -/
theorem define_orderly {scope after : Scope} (orderly : scope.Orderly) {name : String}
    (used : name ∈ scope.fresh.taken) (done : scope.define name = .ok after) :
    after.Orderly ∧ Grows scope after ∧ Assignable after.fields name := by
  unfold define at done
  split at done
  · cases done
  split at done
  · cases done
  split at done
  next missing =>
    cases done
    exact orderly_withTemporary orderly .f64 used (field?_eq_none missing)
  next field found =>
    obtain ⟨member, named⟩ := field?_eq_some found
    split at done
    · cases done
    next notZero =>
      have full : field.dimensions = .ijk := by
        cases dimensions : field.dimensions with
        | zero => exact absurd dimensions notZero
        | ijk => rfl
      split at done
      next input =>
        cases done
        exact orderly_withOutput orderly found full input
      next output =>
        cases done
        exact ⟨orderly, .refl _, field, member, named, full, by rw [output]; decide⟩
      next temporary =>
        cases done
        obtain ⟨sameFields, sameFresh⟩ := holding_fields scope name
        refine ⟨⟨?_, ?_, ?_, ?_⟩, ⟨?_, ?_⟩, ?_⟩
        · rw [sameFields]
          exact orderly.distinct
        · rw [sameFields, sameFresh]
          exact orderly.used
        · rw [sameFields]
          exact orderly.full
        · rw [sameFields]
          exact orderly.ordered
        · rw [sameFresh]
          exact List.Subset.refl _
        · rw [sameFields]
          exact fun _ there => there
        · rw [sameFields]
          exact ⟨field, member, named, full, by rw [temporary]; decide⟩

/-- A scope is judged by its fields and its supply of names alone. -/
theorem orderly_of_eq {scope : Scope} (orderly : scope.Orderly) (other : Scope)
    (fields : other.fields = scope.fields) (fresh : other.fresh = scope.fresh) :
    other.Orderly ∧ Grows scope other := by
  refine ⟨⟨?_, ?_, ?_, ?_⟩, ⟨?_, ?_⟩⟩
  · rw [fields]
    exact orderly.distinct
  · rw [fields, fresh]
    exact orderly.used
  · rw [fields]
    exact orderly.full
  · rw [fields]
    exact orderly.ordered
  · rw [fresh]
    exact List.Subset.refl _
  · rw [fields]
    exact fun _ there => there

theorem assign_orderly {scope after : Scope} (orderly : scope.Orderly) {target : String}
    {current : Expr} (used : target ∈ scope.fresh.taken)
    (done : scope.assign target = .ok (current, after)) :
    after.Orderly ∧ Grows scope after ∧ Assignable after.fields target := by
  unfold assign at done
  split at done
  · obtain ⟨next, defined, same⟩ := Steps.bind_eq_ok.mp done
    cases same
    obtain ⟨marked, grows⟩ := orderly_of_eq orderly
      { scope with assigned := target :: scope.assigned } rfl rfl
    obtain ⟨good, grows', assignable⟩ := define_orderly marked used defined
    exact ⟨good, grows.trans grows', assignable⟩
  · obtain ⟨next, defined, same⟩ := Steps.bind_eq_ok.mp done
    cases same
    exact define_orderly orderly used defined

/-- A temporary for a condition has a name of its own. -/
theorem openCondition_orderly {scope : Scope} (orderly : scope.Orderly) :
    scope.openCondition.2.Orderly ∧ Grows scope scope.openCondition.2 ∧
      Assignable scope.openCondition.2.fields scope.openCondition.1 := by
  have free := Name.Fresh.next_not_mem scope.fresh conditionStem
  let name := (scope.fresh.next conditionStem).1
  let reserved : Scope := { scope with fresh := (scope.fresh.next conditionStem).2 }
  have more : scope.fresh.taken ⊆ reserved.fresh.taken := List.subset_cons_self _ _
  have good : reserved.Orderly :=
    ⟨orderly.distinct, fun field member => more (orderly.used field member), orderly.full,
      orderly.ordered⟩
  have unknown : ∀ field ∈ scope.fields, field.name ≠ name := by
    intro field member same
    have used := orderly.used field member
    rw [same] at used
    exact free used
  obtain ⟨orderly', grows, assignable⟩ := orderly_withTemporary good .bool
    (List.mem_cons_self : name ∈ reserved.fresh.taken) unknown
  exact ⟨orderly', ⟨List.Subset.trans more grows.used, grows.assignable⟩, assignable⟩

end Scope

/-! ### Statements -/

section

variable {guards : List Guard} {scope after : Scope} {statements : List Statement} {span : Span}

/-- What becomes of an assignment. -/
theorem lower_assign {target : String} {offset : Option Offset} {value : Definition.Expr}
    (done : lower guards scope (.assign target offset value span) = .ok (statements, after)) :
    ∃ resolved current, scope.resolve value = .ok resolved ∧
      scope.assign target = .ok (current, after) ∧
      statements = [⟨target, Guard.guarded resolved current guards, span⟩] := by
  unfold lower at done
  split at done
  · cases done
  · obtain ⟨resolved, readable, done⟩ := Steps.bind_eq_ok.mp done
    obtain ⟨⟨current, next⟩, assigned, same⟩ := Steps.bind_eq_ok.mp done
    cases same
    exact ⟨resolved, current, readable, Steps.mapError_eq_ok.mp assigned, rfl⟩

/-- What becomes of a branch: its condition, then both sides. -/
theorem lower_branch {condition : Definition.Expr} {whenTrue whenFalse : List Definition.Statement}
    (done : lower guards scope (.branch condition whenTrue whenFalse span) =
      .ok (statements, after)) :
    ∃ resolved first afterTrue second afterFalse, scope.resolve condition = .ok resolved ∧
      lowerAll (guards ++ [⟨scope.openCondition.1, true⟩]) scope.openCondition.2 whenTrue =
        .ok (first, afterTrue) ∧
      lowerAll (guards ++ [⟨scope.openCondition.1, false⟩])
        { afterTrue with defined := scope.openCondition.2.defined } whenFalse =
          .ok (second, afterFalse) ∧
      oneSided afterTrue.defined afterFalse.defined = none ∧
      statements = ⟨scope.openCondition.1, resolved, span⟩ :: first ++ second ∧
      after = { afterFalse with defined := afterTrue.defined } := by
  unfold lower at done
  obtain ⟨resolved, readable, done⟩ := Steps.bind_eq_ok.mp done
  obtain ⟨⟨first, afterTrue⟩, loweredTrue, done⟩ := Steps.bind_eq_ok.mp done
  obtain ⟨⟨second, afterFalse⟩, loweredFalse, done⟩ := Steps.bind_eq_ok.mp done
  dsimp only at done
  split at done
  · cases done
  next agreed =>
    cases done
    exact ⟨resolved, first, afterTrue, second, afterFalse, readable, loweredTrue, loweredFalse,
      agreed, rfl, rfl⟩

end

mutual

/-- **Statements keep a scope orderly, and all that they become have targets that can be
assigned.** -/
theorem lower_orderly {guards : List Guard} {scope after : Scope} (orderly : scope.Orderly)
    {statement : Definition.Statement} (used : targets statement ⊆ scope.fresh.taken)
    {statements : List Statement} (done : lower guards scope statement = .ok (statements, after)) :
    after.Orderly ∧ Scope.Grows scope after ∧
      ∀ statement ∈ statements, Assignable after.fields statement.target := by
  match statement with
  | .assign target offset value span =>
    obtain ⟨resolved, current, -, assigned, rfl⟩ := lower_assign done
    unfold targets at used
    obtain ⟨good, grows, assignable⟩ :=
      Scope.assign_orderly orderly (used (List.mem_singleton_self target)) assigned
    refine ⟨good, grows, fun statement member => ?_⟩
    rw [List.mem_singleton.mp member]
    exact assignable
  | .branch condition whenTrue whenFalse span =>
    obtain ⟨resolved, first, afterTrue, second, afterFalse, -, loweredTrue, loweredFalse, -, rfl,
      rfl⟩ := lower_branch done
    unfold targets at used
    obtain ⟨usedTrue, usedFalse⟩ := List.append_subset.mp used
    obtain ⟨opened, growsOpen, conditionAssignable⟩ := Scope.openCondition_orderly orderly
    obtain ⟨goodTrue, growsTrue, targetsTrue⟩ := lowerAll_orderly opened
      (List.Subset.trans usedTrue growsOpen.used) loweredTrue
    obtain ⟨restarted, growsRestart⟩ := Scope.orderly_of_eq goodTrue
      { afterTrue with defined := scope.openCondition.2.defined } rfl rfl
    obtain ⟨goodFalse, growsFalse, targetsFalse⟩ := lowerAll_orderly restarted
      (List.Subset.trans usedFalse (List.Subset.trans growsOpen.used growsTrue.used)) loweredFalse
    obtain ⟨good, growsEnd⟩ := Scope.orderly_of_eq goodFalse
      { afterFalse with defined := afterTrue.defined } rfl rfl
    have late := (growsTrue.trans growsRestart).trans (growsFalse.trans growsEnd)
    refine ⟨good, growsOpen.trans late, fun statement member => ?_⟩
    rcases List.mem_append.mp member with early | inFalse
    · rcases List.mem_cons.mp early with rfl | inTrue
      · exact late.assignable _ conditionAssignable
      · exact (growsRestart.trans (growsFalse.trans growsEnd)).assignable _
          (targetsTrue statement inTrue)
    · exact growsEnd.assignable _ (targetsFalse statement inFalse)

theorem lowerAll_orderly {guards : List Guard} {scope after : Scope} (orderly : scope.Orderly)
    {body : List Definition.Statement} (used : targetsAll body ⊆ scope.fresh.taken)
    {statements : List Statement} (done : lowerAll guards scope body = .ok (statements, after)) :
    after.Orderly ∧ Scope.Grows scope after ∧
      ∀ statement ∈ statements, Assignable after.fields statement.target := by
  match body with
  | [] =>
    unfold lowerAll at done
    cases done
    exact ⟨orderly, .refl _, fun _ absurd => nomatch absurd⟩
  | statement :: rest =>
    unfold targetsAll at used
    obtain ⟨usedHere, usedRest⟩ := List.append_subset.mp used
    unfold lowerAll at done
    obtain ⟨⟨first, middle⟩, loweredHere, done⟩ := Steps.bind_eq_ok.mp done
    obtain ⟨⟨more, last⟩, loweredRest, same⟩ := Steps.bind_eq_ok.mp done
    cases same
    obtain ⟨good, grows, targetsHere⟩ := lower_orderly orderly usedHere loweredHere
    obtain ⟨good', grows', targetsRest⟩ := lowerAll_orderly good
      (List.Subset.trans usedRest grows.used) loweredRest
    refine ⟨good', grows.trans grows', fun statement member => ?_⟩
    rcases List.mem_append.mp member with here | later
    · exact grows'.assignable _ (targetsHere statement here)
    · exact targetsRest statement later

end

/-! ### Programs -/

theorem bound_inward {scope : Scope} {bound : Definition.Bound} {height : AxisBound}
    (done : scope.bound bound = .ok height) : height.Inward := by
  unfold Scope.bound at done
  split at done
  · cases done
    exact AxisBound.inward_ofSource _
  · cases done
    exact Int.le_refl 0
  · split at done
    · cases done
      exact AxisBound.inward_ofSource _
    · cases done
    · cases done

theorem interval_inward {scope : Scope} {range : Definition.Range} {interval : Interval}
    (done : scope.interval range = .ok interval) :
    interval.start.Inward ∧ interval.stop.Inward := by
  unfold Scope.interval at done
  split at done
  · cases done
    exact ⟨Int.le_refl 0, Int.le_refl 0⟩
  · obtain ⟨lower, boundLower, done⟩ := Steps.bind_eq_ok.mp done
    obtain ⟨upper, boundUpper, same⟩ := Steps.bind_eq_ok.mp done
    cases same
    exact ⟨bound_inward boundLower, bound_inward boundUpper⟩

/-- What holds of a section whose program has the given fields. -/
def Section.Fits (fields : List Field) (part : Section) : Prop :=
  (part.interval.start.Inward ∧ part.interval.stop.Inward) ∧
    ∀ statement ∈ part.body, Assignable fields statement.target

theorem Section.Fits.grows {before after : Scope} (grows : Scope.Grows before after)
    {part : Section} (fits : part.Fits before.fields) : part.Fits after.fields :=
  ⟨fits.1, fun statement member => grows.assignable _ (fits.2 statement member)⟩

theorem lowerSections_fits {scope after : Scope} (orderly : scope.Orderly)
    {parts : List Definition.Section}
    (used : (parts.flatMap fun part => targetsAll part.body) ⊆ scope.fresh.taken)
    {sections : List Section} (done : lowerSections scope parts = .ok (sections, after)) :
    after.Orderly ∧ Scope.Grows scope after ∧ ∀ part ∈ sections, part.Fits after.fields := by
  induction parts generalizing scope sections with
  | nil =>
    cases done
    exact ⟨orderly, .refl _, fun _ absurd => nomatch absurd⟩
  | cons part rest ih =>
    obtain ⟨usedHere, usedRest⟩ := List.append_subset.mp used
    unfold lowerSections at done
    obtain ⟨interval, resolved, done⟩ := Steps.bind_eq_ok.mp done
    obtain ⟨⟨body, middle⟩, lowered, done⟩ := Steps.bind_eq_ok.mp done
    obtain ⟨⟨more, last⟩, loweredRest, same⟩ := Steps.bind_eq_ok.mp done
    cases same
    obtain ⟨good, grows, targetsHere⟩ := lowerAll_orderly orderly usedHere lowered
    obtain ⟨good', grows', fits⟩ := ih good (List.Subset.trans usedRest grows.used) loweredRest
    refine ⟨good', grows.trans grows', ?_⟩
    rw [List.forall_mem_cons]
    exact ⟨Section.Fits.grows grows' ⟨interval_inward resolved, targetsHere⟩, fits⟩

theorem lowerComputations_fits {scope after : Scope} (orderly : scope.Orderly)
    {computations : List Definition.Computation}
    (used : (computations.flatMap fun computation =>
      computation.sections.flatMap fun part => targetsAll part.body) ⊆ scope.fresh.taken)
    {blocks : List Block} (done : lowerComputations scope computations = .ok (blocks, after)) :
    after.Orderly ∧ Scope.Grows scope after ∧
      ∀ block ∈ blocks, ∀ part ∈ block.sections, part.Fits after.fields := by
  induction computations generalizing scope blocks with
  | nil =>
    cases done
    exact ⟨orderly, .refl _, fun _ absurd => nomatch absurd⟩
  | cons computation rest ih =>
    obtain ⟨usedHere, usedRest⟩ := List.append_subset.mp used
    unfold lowerComputations at done
    split at done
    · cases done
    next policy known =>
      obtain ⟨⟨sections, middle⟩, lowered, done⟩ := Steps.bind_eq_ok.mp done
      obtain ⟨⟨more, last⟩, loweredRest, same⟩ := Steps.bind_eq_ok.mp done
      cases same
      obtain ⟨good, grows, fitsHere⟩ := lowerSections_fits orderly usedHere lowered
      obtain ⟨good', grows', fits⟩ := ih good (List.Subset.trans usedRest grows.used) loweredRest
      refine ⟨good', grows.trans grows', ?_⟩
      rw [List.forall_mem_cons]
      exact ⟨fun part member => (fitsHere part member).grows grows', fits⟩

theorem nodup_of_clash? {seen bindings : List Binding} (none : clash? seen bindings = none) :
    (bindings.map Binding.name).Nodup ∧
      ∀ binding ∈ bindings, ∀ earlier ∈ seen, earlier.name ≠ binding.name := by
  induction bindings generalizing seen with
  | nil => exact ⟨List.nodup_nil, fun _ absurd => nomatch absurd⟩
  | cons binding rest ih =>
    unfold clash? at none
    split at none
    · cases none
    next free =>
      obtain ⟨distinct, apart⟩ := ih none
      have new : ∀ earlier ∈ seen, earlier.name ≠ binding.name := fun earlier member same =>
        List.find?_eq_none.mp free earlier member (beq_iff_eq.mpr same)
      rw [List.map_cons, List.nodup_cons, List.forall_mem_cons]
      refine ⟨⟨fun again => ?_, distinct⟩, new, fun other member earlier inside => ?_⟩
      · obtain ⟨other, member, same⟩ := List.mem_map.mp again
        exact apart other member binding List.mem_cons_self same.symm
      · exact apart other member earlier (List.mem_cons_of_mem _ inside)

theorem start_orderly {definition : Definition} (externals : Externals) (signature : Signature)
    (free : clash? [] (bindings definition) = none) :
    (Scope.start definition externals signature).Orderly := by
  have names : (Scope.start definition externals signature).fields.map Field.name =
      definition.fields.map Definition.FieldParameter.name := by
    unfold Scope.start
    rw [List.map_map]
    rfl
  have bound : List.Sublist (definition.fields.map Definition.FieldParameter.name)
      ((bindings definition).map Binding.name) := by
    unfold bindings
    rw [List.map_append, List.map_append, List.map_map, List.append_assoc]
    exact List.sublist_append_left _ _
  refine ⟨?_, fun field member => ?_, fun field member assigned => ?_,
    (Scope.start definition externals signature).fields, [], (List.append_nil _).symm,
    fun field member => ?_, fun _ absurd => nomatch absurd⟩
  · rw [names]
    exact (nodup_of_clash? free).1.sublist bound
  · have named : field.name ∈ definition.fields.map Definition.FieldParameter.name :=
      names ▸ List.mem_map_of_mem member
    exact List.mem_append_left _ (bound.subset named)
  · obtain ⟨parameter, -, rfl⟩ := List.mem_map.mp member
    exact absurd rfl assigned
  · obtain ⟨parameter, -, rfl⟩ := List.mem_map.mp member
    exact fun absurd => nomatch absurd

/-- What a definition that is lowered has passed, and what its program is made of. -/
theorem ofDefinition?_eq_ok {definition : Definition} {externals : Externals}
    {signature : Signature} {program : Program} {resolved : Externals}
    (done : ofDefinition? definition externals signature = .ok (program, resolved)) :
    clash? [] (bindings definition) = none ∧ resolveExternals definition externals = .ok resolved ∧
      ∃ blocks scope,
        lowerComputations (.start definition resolved signature) definition.computations =
          .ok (blocks, scope) ∧
        program = ⟨definition.source, definition.name, scope.fields, scope.scalars, blocks⟩ := by
  unfold ofDefinition? at done
  cases free : clash? [] (bindings definition) with
  | some fault =>
    rw [free] at done
    cases done
  | none =>
    rw [free] at done
    obtain ⟨values, given, done⟩ := Steps.bind_eq_ok.mp done
    dsimp only at done
    split at done
    · cases done
    · obtain ⟨⟨blocks, scope⟩, lowered, same⟩ := Steps.bind_eq_ok.mp done
      cases same
      exact ⟨rfl, given, blocks, scope, lowered, rfl⟩

/-- **The program of every definition is well-formed.** -/
theorem ofDefinition?_wellFormed {definition : Definition} {externals : Externals}
    {signature : Signature} {program : Program} {resolved : Externals}
    (done : ofDefinition? definition externals signature = .ok (program, resolved)) :
    program.WellFormed := by
  obtain ⟨free, -, blocks, scope, lowered, rfl⟩ := ofDefinition?_eq_ok done
  have start := start_orderly resolved signature free
  have used : (definition.computations.flatMap fun computation =>
      computation.sections.flatMap fun part => targetsAll part.body) ⊆
      (Scope.start definition resolved signature).fresh.taken :=
    List.subset_append_right _ _
  obtain ⟨orderly, -, fits⟩ := lowerComputations_fits start used lowered
  obtain ⟨parameters, temporaries, split, noTemporary, allTemporary⟩ := orderly.ordered
  have isParameter : ∀ field ∈ parameters, field.isParameter = true := fun field member =>
    bne_iff_ne.mpr (noTemporary field member)
  have isTemporary : ∀ field ∈ temporaries, field.isParameter = false := fun field member =>
    bne_eq_false_iff_eq.mpr (allTemporary field member)
  refine ⟨orderly.distinct, ?_, orderly.full,
    fun block member part inside => (fits block member part inside).1,
    fun block member part inside => (fits block member part inside).2⟩
  show scope.fields = scope.fields.filter _ ++ scope.fields.filter _
  rw [split, List.filter_append, List.filter_append, List.filter_eq_self.mpr isParameter,
    List.filter_eq_nil_iff.mpr fun field member => by rw [isTemporary field member]; decide,
    List.append_nil,
    List.filter_eq_nil_iff.mpr fun field member => by rw [isParameter field member]; decide,
    List.filter_eq_self.mpr fun field member => by rw [isTemporary field member]; decide,
    List.nil_append]

end Program

end GridStencil
