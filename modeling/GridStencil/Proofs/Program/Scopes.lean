import GridStencil.Proofs.Program.WellFormed

/-!
**What a scope keeps along the text.**

A scope only learns: externals and scalars stay, fields keep their types, and whatever was assigned
stays assigned (`Scope.Precedes`). A name is touched once it is that of a parameter or was assigned,
and an assignment gives zero for the old value of a name exactly if that is not touched
(`isFresh_iff`, `assign_spec`).

* `lower_precedes`: statements only add to a scope, and touch all their targets.
* `lowered_bodies`: the bodies of a definition are lowered one after another.
-/

namespace GridStencil.Program

/-- A field of this name and type is among some. -/
def HasType (fields : List Field) (name : String) (type : ElementType) : Prop :=
  ∃ field ∈ fields, field.name = name ∧ field.type = type

/-- A parameter of this name is among some fields. -/
def HasParameter (fields : List Field) (name : String) : Prop :=
  ∃ field ∈ fields, field.name = name ∧ field.role ≠ .temporary

namespace Scope

/-- A scope that knows all that an earlier one knows, and takes nothing back. -/
structure Precedes (before after : Scope) : Prop where
  externals : after.externals = before.externals
  scalars : after.scalars = before.scalars
  types : ∀ name type, HasType before.fields name type → HasType after.fields name type
  parameters : ∀ name, HasParameter after.fields name ↔ HasParameter before.fields name
  assigned : before.assigned ⊆ after.assigned

/-- A name of a parameter, or one that was assigned. -/
def Touched (scope : Scope) (name : String) : Prop :=
  HasParameter scope.fields name ∨ name ∈ scope.assigned

variable {scope before after : Scope} {name target : String}

theorem Precedes.refl (scope : Scope) : Precedes scope scope :=
  ⟨rfl, rfl, fun _ _ there => there, fun _ => Iff.rfl, List.Subset.refl _⟩

theorem Precedes.trans {a b c : Scope} (first : Precedes a b) (second : Precedes b c) :
    Precedes a c where
  externals := second.externals.trans first.externals
  scalars := second.scalars.trans first.scalars
  types name type there := second.types name type (first.types name type there)
  parameters name := (second.parameters name).trans (first.parameters name)
  assigned := List.Subset.trans first.assigned second.assigned

theorem Touched.later (touched : before.Touched name) (precedes : Precedes before after) :
    after.Touched name :=
  touched.imp (precedes.parameters name).mpr fun there => precedes.assigned there

/-- What is defined at a place does not count. -/
theorem precedes_defined (scope : Scope) (defined : List String) :
    Precedes scope { scope with defined } :=
  ⟨rfl, rfl, fun _ _ there => there, fun _ => Iff.rfl, List.Subset.refl _⟩

theorem precedes_holding (scope : Scope) (name : String) : Precedes scope (scope.holding name) := by
  unfold holding
  split
  · exact .refl scope
  · exact precedes_defined scope _

theorem precedes_withTemporary (scope : Scope) (name : String) (type : ElementType) :
    Precedes scope (scope.withTemporary name type) := by
  let longer : Scope := { scope with fields := scope.fields ++ [⟨name, type, .ijk, .temporary⟩] }
  refine Precedes.trans (b := longer) ⟨rfl, rfl, fun other type' => ?_, fun other => ⟨?_, ?_⟩,
    List.Subset.refl _⟩ (precedes_holding longer name)
  · rintro ⟨field, member, rest⟩
    exact ⟨field, List.mem_append_left _ member, rest⟩
  · rintro ⟨field, member, named, role⟩
    rcases List.mem_append.mp member with old | new
    · exact ⟨field, old, named, role⟩
    · rw [List.mem_singleton.mp new] at role
      exact absurd rfl role
  · rintro ⟨field, member, rest⟩
    exact ⟨field, List.mem_append_left _ member, rest⟩

/-- A parameter that becomes an output is a parameter still. -/
theorem precedes_withOutput (parameter : ∀ field ∈ scope.fields, field.name = name →
    field.role ≠ .temporary) : Precedes scope (scope.withOutput name) := by
  refine ⟨rfl, rfl, fun other type => ?_, fun other => ⟨?_, ?_⟩, List.Subset.refl _⟩
  · rintro ⟨field, member, named, typed⟩
    refine ⟨_, List.mem_map_of_mem member, ?_, ?_⟩
    · rw [← named]
      split <;> rfl
    · rw [← typed]
      split <;> rfl
  · rintro ⟨turned, inside, named, role⟩
    obtain ⟨field, member, rfl⟩ := List.mem_map.mp inside
    by_cases same : field.name = name
    · rw [if_pos same] at named
      exact ⟨field, member, named, parameter field member same⟩
    · rw [if_neg same] at named role
      exact ⟨field, member, named, role⟩
  · rintro ⟨field, member, named, role⟩
    refine ⟨_, List.mem_map_of_mem member, ?_, ?_⟩
    · rw [← named]
      split <;> rfl
    · split
      · exact fun absurd => nomatch absurd
      · exact role

theorem define_precedes (orderly : scope.Orderly) (done : scope.define name = .ok after) :
    Precedes scope after := by
  unfold define at done
  split at done
  · cases done
  split at done
  · cases done
  split at done
  · cases done
    exact precedes_withTemporary scope name .f64
  next field found =>
    obtain ⟨member, named⟩ := field?_eq_some found
    split at done
    · cases done
    · split at done
      next input =>
        cases done
        refine precedes_withOutput fun other there same => ?_
        rw [eq_of_name orderly.distinct there member (same.trans named.symm), input]
        decide
      next output =>
        cases done
        exact .refl scope
      next temporary =>
        cases done
        exact precedes_holding scope name

/-- Whether a name was assigned is not for definitions to say. -/
theorem define_assigned (done : scope.define name = .ok after) :
    after.assigned = scope.assigned := by
  have held : ∀ (other : Scope), (other.holding name).assigned = other.assigned := by
    intro other
    unfold holding
    split <;> rfl
  unfold define at done
  split at done
  · cases done
  split at done
  · cases done
  split at done
  · cases done
    exact held _
  · split at done
    · cases done
    · split at done
      · cases done
        rfl
      · cases done
        rfl
      · cases done
        exact held scope

/-- **A name is fresh until it is touched.** -/
theorem isFresh_iff (orderly : scope.Orderly) :
    scope.isFresh name = true ↔ ¬ scope.Touched name := by
  unfold isFresh Touched
  rw [Bool.and_eq_true, not_or, Bool.not_eq_true', ← Bool.not_eq_true, List.contains_iff_mem]
  refine and_congr_left' ?_
  cases found : scope.field? name with
  | none =>
    refine iff_of_true rfl ?_
    rintro ⟨field, member, named, -⟩
    exact field?_eq_none found field member named
  | some field =>
    obtain ⟨member, named⟩ := field?_eq_some found
    rw [Option.all_some, decide_eq_true_iff]
    constructor
    · rintro temporary ⟨other, there, named', role⟩
      rw [eq_of_name orderly.distinct there member (named'.trans named.symm)] at role
      exact role temporary
    · intro unknown
      by_contra role
      exact unknown ⟨field, member, named, role⟩

/-- **What an assignment finds and leaves**: zero for the old value of a name that is not touched,
and a touched name. -/
theorem assign_spec {current : Expr} (orderly : scope.Orderly)
    (done : scope.assign target = .ok (current, after)) :
    Precedes scope after ∧ after.Touched target ∧ after.assigned ⊆ target :: scope.assigned ∧
      (current = .literal (.float 0.0) ∧ ¬ scope.Touched target ∨
        current = .field target .zero ∧ scope.Touched target) := by
  unfold assign at done
  split at done
  next fresh =>
    obtain ⟨next, defined, same⟩ := Steps.bind_eq_ok.mp done
    cases same
    have marked : Precedes scope { scope with assigned := target :: scope.assigned } :=
      ⟨rfl, rfl, fun _ _ there => there, fun _ => Iff.rfl, List.subset_cons_self _ _⟩
    have further := define_precedes (orderly_of_eq orderly
      { scope with assigned := target :: scope.assigned } rfl rfl).1 defined
    refine ⟨marked.trans further, .inr (further.assigned List.mem_cons_self), ?_,
      .inl ⟨rfl, (isFresh_iff orderly).mp fresh⟩⟩
    rw [define_assigned defined]
    exact List.Subset.refl _
  next used =>
    obtain ⟨next, defined, same⟩ := Steps.bind_eq_ok.mp done
    cases same
    have further := define_precedes orderly defined
    have touched : scope.Touched target := by
      by_contra untouched
      exact used ((isFresh_iff orderly).mpr untouched)
    refine ⟨further, touched.later further, ?_, .inr ⟨rfl, touched⟩⟩
    rw [define_assigned defined]
    exact List.subset_cons_self _ _

/-- A condition gets a temporary of truth values. -/
theorem openCondition_spec (scope : Scope) :
    Precedes scope scope.openCondition.2 ∧
      HasType scope.openCondition.2.fields scope.openCondition.1 .bool ∧
      scope.openCondition.1 ∉ scope.fresh.taken ∧
      scope.openCondition.1 ∈ scope.openCondition.2.fresh.taken ∧
      scope.openCondition.2.assigned = scope.assigned := by
  let name := (scope.fresh.next conditionStem).1
  let reserved : Scope := { scope with fresh := (scope.fresh.next conditionStem).2 }
  have same : Precedes scope reserved :=
    ⟨rfl, rfl, fun _ _ there => there, fun _ => Iff.rfl, List.Subset.refl _⟩
  obtain ⟨sameFields, sameFresh⟩ := holding_fields
    { reserved with fields := scope.fields ++ [⟨name, .bool, .ijk, .temporary⟩] } name
  refine ⟨same.trans (precedes_withTemporary reserved name .bool), ?_,
    Name.Fresh.next_not_mem _ _, ?_, ?_⟩
  · show HasType (withTemporary reserved name .bool).fields name .bool
    unfold withTemporary
    rw [sameFields]
    exact ⟨_, List.mem_append_right _ (List.mem_singleton_self _), rfl, rfl⟩
  · show name ∈ (withTemporary reserved name .bool).fresh.taken
    unfold withTemporary
    rw [sameFresh]
    exact List.mem_cons_self
  · show (withTemporary reserved name .bool).assigned = scope.assigned
    unfold withTemporary holding
    split <;> rfl

end Scope

/-! ### Statements -/

/-- A field of this name is among some. -/
def HasField (fields : List Field) (name : String) : Prop := ∃ field ∈ fields, field.name = name

theorem HasField.later {before after : Scope} {name : String} (precedes : before.Precedes after)
    (there : HasField before.fields name) : HasField after.fields name := by
  obtain ⟨field, member, named⟩ := there
  obtain ⟨field', member', named', -⟩ := precedes.types name _ ⟨field, member, named, rfl⟩
  exact ⟨field', member', named'⟩

mutual

/-- **Statements only add to a scope, and touch all their targets.** -/
theorem lower_precedes {guards : List Guard} {scope after : Scope} (orderly : scope.Orderly)
    {statement : Definition.Statement} (used : targets statement ⊆ scope.fresh.taken)
    {statements : List Statement} (done : lower guards scope statement = .ok (statements, after)) :
    scope.Precedes after ∧ after.assigned ⊆ scope.assigned ++ targets statement ∧
      ∀ target ∈ targets statement, after.Touched target ∧ HasField after.fields target := by
  match statement with
  | .assign target offset value span =>
    obtain ⟨resolved, current, -, assigned, rfl⟩ := lower_assign done
    unfold targets at used ⊢
    obtain ⟨precedes, touched, known, -⟩ := Scope.assign_spec orderly assigned
    obtain ⟨-, -, field, member, named, -⟩ :=
      Scope.assign_orderly orderly (used (List.mem_singleton_self target)) assigned
    refine ⟨precedes, List.Subset.trans known (List.perm_append_singleton target _).symm.subset,
      fun other there => ?_⟩
    rw [List.mem_singleton.mp there]
    exact ⟨touched, field, member, named⟩
  | .branch condition whenTrue whenFalse span =>
    obtain ⟨resolved, first, afterTrue, second, afterFalse, -, loweredTrue, loweredFalse, -, rfl,
      rfl⟩ := lower_branch done
    unfold targets at used ⊢
    obtain ⟨usedTrue, usedFalse⟩ := List.append_subset.mp used
    obtain ⟨opened, growsOpen, -⟩ := Scope.openCondition_orderly orderly
    obtain ⟨precedesOpen, -, -, -, assignedOpen⟩ := Scope.openCondition_spec scope
    have usedTrue' := List.Subset.trans usedTrue growsOpen.used
    obtain ⟨goodTrue, growsTrue, -⟩ := lowerAll_orderly opened usedTrue' loweredTrue
    obtain ⟨precedesTrue, assignedTrue, touchedTrue⟩ := lowerAll_precedes opened usedTrue' loweredTrue
    obtain ⟨restarted, -⟩ := Scope.orderly_of_eq goodTrue
      { afterTrue with defined := scope.openCondition.2.defined } rfl rfl
    obtain ⟨precedesFalse, assignedFalse, touchedFalse⟩ := lowerAll_precedes restarted
      (List.Subset.trans usedFalse (List.Subset.trans growsOpen.used growsTrue.used)) loweredFalse
    have late := ((Scope.precedes_defined afterTrue _).trans precedesFalse).trans
      (Scope.precedes_defined afterFalse afterTrue.defined)
    refine ⟨(precedesOpen.trans precedesTrue).trans late, ?_, fun target there => ?_⟩
    · rw [← List.append_assoc, ← assignedOpen]
      refine List.Subset.trans assignedFalse (List.append_subset.mpr ⟨?_, List.subset_append_right _ _⟩)
      exact List.Subset.trans assignedTrue (List.subset_append_left _ _)
    rcases List.mem_append.mp there with inTrue | inFalse
    · exact (touchedTrue target inTrue).imp (·.later late) (·.later late)
    · exact touchedFalse target inFalse

theorem lowerAll_precedes {guards : List Guard} {scope after : Scope} (orderly : scope.Orderly)
    {body : List Definition.Statement} (used : targetsAll body ⊆ scope.fresh.taken)
    {statements : List Statement} (done : lowerAll guards scope body = .ok (statements, after)) :
    scope.Precedes after ∧ after.assigned ⊆ scope.assigned ++ targetsAll body ∧
      ∀ target ∈ targetsAll body, after.Touched target ∧ HasField after.fields target := by
  match body with
  | [] =>
    unfold lowerAll at done
    cases done
    exact ⟨.refl scope, List.subset_append_left _ _, fun _ absurd => nomatch absurd⟩
  | statement :: rest =>
    unfold targetsAll at used ⊢
    obtain ⟨usedHere, usedRest⟩ := List.append_subset.mp used
    unfold lowerAll at done
    obtain ⟨⟨first, middle⟩, loweredHere, done⟩ := Steps.bind_eq_ok.mp done
    obtain ⟨⟨more, last⟩, loweredRest, same⟩ := Steps.bind_eq_ok.mp done
    cases same
    obtain ⟨good, grows, -⟩ := lower_orderly orderly usedHere loweredHere
    obtain ⟨precedes, assigned, touched⟩ := lower_precedes orderly usedHere loweredHere
    obtain ⟨precedes', assigned', touched'⟩ := lowerAll_precedes good
      (List.Subset.trans usedRest grows.used) loweredRest
    refine ⟨precedes.trans precedes', ?_, fun target there => ?_⟩
    · rw [← List.append_assoc]
      refine List.Subset.trans assigned' (List.append_subset.mpr ⟨?_, List.subset_append_right _ _⟩)
      exact List.Subset.trans assigned (List.subset_append_left _ _)
    rcases List.mem_append.mp there with here | later
    · exact (touched target here).imp (·.later precedes') (·.later precedes')
    · exact touched' target later

end

end GridStencil.Program
