import GridStencil.Proofs.Masked.Source
import GridStencil.Proofs.Resolved

/-!
**Every name that a definition reads comes from its text.**

A definition mentions names in the order of its text: it reads those of an expression before the
target behind them is assigned, the condition of a branch before either side, and the first side
before the second (`Definition.mentions`). While it is resolved, each field of the scope is bound by
the signature, or was assigned by an earlier mention, or holds the condition of a branch under a
name that the text neither binds nor assigns (`Scope.Knows`). A read finds one of these fields, a
scalar or an external, and nothing else.

* `lowerAll_knows`: where the names that some statements read come from.
* `spec_of_isCondition`: the temporaries that the text knows nothing of.
* `names_resolve`: the names that a definition reads are bound, or assigned before. Those that have
  the form of a name for a condition have to be bound or assigned somewhere.
-/

namespace GridStencil

namespace Definition

/-- What a definition does with a name at some place of its text. -/
inductive Mention
  | read (name : String)
  | assign (name : String)
deriving DecidableEq

/-- The names that an expression reads. -/
def Expr.mentions (expr : Expr) : List Mention := expr.names.map .read

mutual

/-- The names in a statement, in the order of the text with the target last. -/
def Statement.mentions : Statement → List Mention
  | .assign target _ value _ => value.mentions ++ [.assign target]
  | .branch condition whenTrue whenFalse _ =>
    condition.mentions ++ (Statement.listMentions whenTrue ++ Statement.listMentions whenFalse)

/-- The names in some statements. -/
def Statement.listMentions : List Statement → List Mention
  | [] => []
  | statement :: rest => statement.mentions ++ Statement.listMentions rest

end

/-- The external that an end of an interval reads. -/
def Bound.mentions : Bound → List Mention
  | .int _ | .top => []
  | .external name _ => [.read name]

/-- The externals that an interval reads. -/
def Range.mentions : Range → List Mention
  | .full => []
  | .between lower upper => lower.mentions ++ upper.mentions

/-- The names in a section. -/
def Section.mentions (part : Section) : List Mention :=
  part.range.mentions ++ Statement.listMentions part.body

/-- The names in the computations of a definition. -/
def mentions (definition : Definition) : List Mention :=
  definition.computations.flatMap fun computation => computation.sections.flatMap Section.mentions

/-- Whether the signature or the externals of a definition have a name. -/
def Binds (definition : Definition) (name : String) : Prop :=
  name ∈ (Program.bindings definition).map Program.Binding.name

/-- Whether a definition neither binds nor assigns a name. -/
def Unknown (definition : Definition) (name : String) : Prop :=
  name ∉ Program.namesIn definition

/-- Whether a field of the program of a definition holds the condition of a branch: it is a field
that the definition knows nothing of. -/
def IsCondition (definition : Definition) (field : Program.Field) : Prop :=
  definition.Unknown field.name

end Definition

namespace Program

open Definition (Mention)

/-- A name that the supply of names for conditions can give. -/
def ConditionName (name : String) : Prop :=
  ∃ count, name = Name.Fresh.numbered Scope.conditionStem count

/-- A temporary of this name is among some fields. -/
def HasTemporary (fields : List Field) (name : String) : Prop :=
  ∃ field ∈ fields, field.name = name ∧ field.role = .temporary

variable (definition : Definition)

/-- Where a name comes from that can be read behind some mentions: a binding, an assignment, or the
condition of a branch. -/
inductive Origin (before : List Mention) (name : String) : Prop
  | bound (binds : definition.Binds name)
  | assigned (earlier : Mention.assign name ∈ before)
  | condition (generated : ConditionName name) (unknown : definition.Unknown name)

/-- All reads among some mentions have an origin, where others come before them. -/
def Grounded (before mentions : List Mention) : Prop :=
  ∀ earlier name later, mentions = earlier ++ .read name :: later →
    Origin definition (before ++ earlier) name

variable {definition} {before mentions more : List Mention} {name : String}

theorem Origin.later (origin : Origin definition before name) (more : List Mention) :
    Origin definition (before ++ more) name := by
  cases origin with
  | bound binds => exact .bound binds
  | assigned earlier => exact .assigned (List.mem_append_left _ earlier)
  | condition generated unknown => exact .condition generated unknown

theorem grounded_nil (before : List Mention) : Grounded definition before [] := by
  intro earlier name later same
  exact absurd same.symm (List.append_ne_nil_of_right_ne_nil _ (List.cons_ne_nil _ _))

theorem grounded_assign (before : List Mention) (target : String) :
    Grounded definition before [.assign target] := by
  intro earlier name later same
  have inside : Mention.read name ∈ [Mention.assign target] :=
    same ▸ List.mem_append_right _ List.mem_cons_self
  cases List.mem_singleton.mp inside

theorem grounded_reads {names : List String}
    (known : ∀ name ∈ names, Origin definition before name) :
    Grounded definition before (names.map .read) := by
  intro earlier name later same
  have inside : Mention.read name ∈ names.map Mention.read :=
    same ▸ List.mem_append_right _ List.mem_cons_self
  obtain ⟨_, member, same⟩ := List.mem_map.mp inside
  cases same
  exact (known name member).later earlier

/-- Mentions are grounded one part after another. -/
theorem Grounded.append (first : Grounded definition before mentions)
    (second : Grounded definition (before ++ mentions) more) :
    Grounded definition before (mentions ++ more) := by
  intro earlier name later same
  rcases List.append_eq_append_iff.mp same with ⟨middle, rfl, split⟩ | ⟨middle, split, behind⟩
  · rw [← List.append_assoc]
    exact second middle name later split
  · cases middle with
    | nil =>
      rw [List.append_nil] at split
      subst split
      have origin := second [] name later behind.symm
      rwa [List.append_nil] at origin
    | cons mention middle =>
      cases behind
      exact first earlier name middle split

/-! ### Scopes -/

namespace Scope

variable (definition) in
/-- What a scope knows behind some mentions of a definition. -/
structure Knows (before : List Mention) (scope : Scope) : Prop where
  avoids : namesIn definition ⊆ scope.fresh.taken
  externals : ∀ name, scope.externals.get? name ≠ none → definition.Binds name
  scalars : ∀ name, HasScalar scope.scalars name → definition.Binds name
  fields : ∀ field ∈ scope.fields, Origin definition before field.name
  conditions : ∀ field ∈ scope.fields, definition.IsCondition field →
    ConditionName field.name ∧ field.type = .bool ∧ field.role = .temporary
  targets : ∀ name, Mention.assign name ∈ before →
    name ∈ namesIn definition ∧ HasField scope.fields name

variable {scope after : Scope} {target : String}

theorem Knows.defined (knows : Knows definition before scope) (defined : List String) :
    Knows definition before { scope with defined } :=
  ⟨knows.avoids, knows.externals, knows.scalars, knows.fields, knows.conditions, knows.targets⟩

theorem Knows.assigned (knows : Knows definition before scope) (assigned : List String) :
    Knows definition before { scope with assigned } :=
  ⟨knows.avoids, knows.externals, knows.scalars, knows.fields, knows.conditions, knows.targets⟩

theorem Knows.holding (knows : Knows definition before scope) (name : String) :
    Knows definition before (scope.holding name) := by
  unfold Scope.holding
  split
  · exact knows
  · exact knows.defined _

/-- An origin behind the target of a statement. -/
theorem Knows.mentioned (knows : Knows definition before scope)
    (known : target ∈ namesIn definition) (there : HasField scope.fields target) :
    Knows definition (before ++ [.assign target]) scope := by
  refine ⟨knows.avoids, knows.externals, knows.scalars,
    fun field member => (knows.fields field member).later _, knows.conditions,
    fun name inside => ?_⟩
  rcases List.mem_append.mp inside with early | here
  · exact knows.targets name early
  · cases List.mem_singleton.mp here
    exact ⟨known, there⟩

/-- Reads teach a scope nothing. -/
theorem Knows.reads (knows : Knows definition before scope) (names : List String) :
    Knows definition (before ++ names.map .read) scope := by
  refine ⟨knows.avoids, knows.externals, knows.scalars,
    fun field member => (knows.fields field member).later _, knows.conditions,
    fun name inside => ?_⟩
  rcases List.mem_append.mp inside with early | here
  · exact knows.targets name early
  · obtain ⟨_, -, same⟩ := List.mem_map.mp here
    cases same

/-- One more field, behind mentions that assign it at most. -/
theorem Knows.field (knows : Knows definition before scope) (more : List Mention) (field : Field)
    (origin : Origin definition (before ++ more) field.name)
    (condition : definition.IsCondition field →
      ConditionName field.name ∧ field.type = .bool ∧ field.role = .temporary)
    (targets : ∀ name, Mention.assign name ∈ more →
      name ∈ namesIn definition ∧ field.name = name) :
    Knows definition (before ++ more) { scope with fields := scope.fields ++ [field] } := by
  refine ⟨knows.avoids, knows.externals, knows.scalars, ?_, ?_, fun name inside => ?_⟩
  · exact List.forall_mem_append.mpr ⟨fun other member => (knows.fields other member).later more,
      List.forall_mem_singleton.mpr origin⟩
  · exact List.forall_mem_append.mpr ⟨knows.conditions, List.forall_mem_singleton.mpr condition⟩
  · rcases List.mem_append.mp inside with early | late
    · obtain ⟨known, other, member, named⟩ := knows.targets name early
      exact ⟨known, other, List.mem_append_left _ member, named⟩
    · obtain ⟨known, named⟩ := targets name late
      exact ⟨known, field, List.mem_append_right _ (List.mem_singleton_self _), named⟩

theorem Knows.output (knows : Knows definition before scope) (known : name ∈ namesIn definition) :
    Knows definition before (scope.withOutput name) := by
  let turned : Field → Field := fun field =>
    if field.name = name then { field with role := .output } else field
  have sameName : ∀ field, (turned field).name = field.name := by
    intro field
    show (if field.name = name then _ else _ : Field).name = _
    split <;> rfl
  refine ⟨knows.avoids, knows.externals, knows.scalars, fun field inside => ?_,
    fun field inside unknown => ?_, fun other inside => ?_⟩
  · obtain ⟨old, member, rfl⟩ := List.mem_map.mp inside
    exact (sameName old).symm ▸ knows.fields old member
  · obtain ⟨old, member, rfl⟩ := List.mem_map.mp inside
    have other : old.name ≠ name := fun same => unknown (by
      rw [show _ = old.name from sameName old, same]
      exact known)
    rw [if_neg other] at unknown ⊢
    exact knows.conditions old member unknown
  · obtain ⟨known', old, member, named⟩ := knows.targets other inside
    exact ⟨known', turned old, List.mem_map_of_mem member, (sameName old).trans named⟩

/-- **What a scope lets an expression read has an origin.** -/
theorem Knows.read (knows : Knows definition before scope) {offset : Option Offset} {expr : Expr}
    (allowed : scope.read name offset = .ok expr) : Origin definition before name := by
  unfold Scope.read at allowed
  split at allowed
  next value external =>
    exact .bound (knows.externals name fun missing => by rw [missing] at external; cases external)
  · split at allowed
    next scalar => exact .bound (knows.scalars name (hasScalar_iff.mp scalar))
    · split at allowed
      · cases allowed
      next field found =>
        obtain ⟨member, named⟩ := field?_eq_some found
        exact named ▸ knows.fields field member

/-- All names in a resolved expression have an origin. -/
theorem Knows.resolve (knows : Knows definition before scope) {source : Definition.Expr}
    {expr : Expr} (resolved : scope.resolve source = .ok expr) :
    ∀ name ∈ source.names, Origin definition before name := by
  induction source generalizing expr with
  | literal value span => exact fun _ absurd => nomatch absurd
  | name name span =>
    exact List.forall_mem_singleton.mpr (knows.read (Steps.mapError_eq_ok.mp resolved))
  | access name offset span =>
    exact List.forall_mem_singleton.mpr (knows.read (Steps.mapError_eq_ok.mp resolved))
  | unary op arg span ih =>
    obtain ⟨arg', here, -⟩ := Steps.bind_eq_ok.mp resolved
    exact ih here
  | binary op left right span ihLeft ihRight =>
    obtain ⟨left', here, resolved⟩ := Steps.bind_eq_ok.mp resolved
    obtain ⟨right', there, -⟩ := Steps.bind_eq_ok.mp resolved
    exact List.forall_mem_append.mpr ⟨ihLeft here, ihRight there⟩
  | conditional condition whenTrue whenFalse span ihCondition ihTrue ihFalse =>
    obtain ⟨condition', here, resolved⟩ := Steps.bind_eq_ok.mp resolved
    obtain ⟨whenTrue', inTrue, resolved⟩ := Steps.bind_eq_ok.mp resolved
    obtain ⟨whenFalse', inFalse, -⟩ := Steps.bind_eq_ok.mp resolved
    exact List.forall_mem_append.mpr
      ⟨List.forall_mem_append.mpr ⟨ihCondition here, ihTrue inTrue⟩, ihFalse inFalse⟩

/-- What a scope knows behind the definition of a name that is about to be assigned. -/
theorem Knows.define (knows : Knows definition before scope) (known : target ∈ namesIn definition)
    (done : scope.define target = .ok after) :
    Knows definition (before ++ [.assign target]) after := by
  unfold Scope.define at done
  split at done
  · cases done
  split at done
  · cases done
  split at done
  next missing =>
    cases done
    refine Knows.holding (knows.field [.assign target] ⟨target, .f64, .ijk, .temporary⟩
      (.assigned (List.mem_append_right _ (List.mem_singleton_self _)))
      (fun unknown => absurd known unknown) fun name inside => ?_) target
    cases List.mem_singleton.mp inside
    exact ⟨known, rfl⟩
  next field found =>
    obtain ⟨member, named⟩ := field?_eq_some found
    have there : HasField scope.fields target := ⟨field, member, named⟩
    split at done
    · cases done
    · split at done
      · cases done
        exact (knows.mentioned known there).output known
      · cases done
        exact knows.mentioned known there
      · cases done
        exact (knows.mentioned known there).holding target

/-- What a scope knows behind the target of a statement. -/
theorem Knows.assign (knows : Knows definition before scope) (known : target ∈ namesIn definition)
    {current : Expr} (done : scope.assign target = .ok (current, after)) :
    Knows definition (before ++ [.assign target]) after := by
  unfold Scope.assign at done
  split at done
  · obtain ⟨next, defined, same⟩ := Steps.bind_eq_ok.mp done
    cases same
    exact (knows.assigned _).define known defined
  · obtain ⟨next, defined, same⟩ := Steps.bind_eq_ok.mp done
    cases same
    exact knows.define known defined

/-- **The temporary for a condition has a name that the definition knows nothing of.** -/
theorem Knows.openCondition (knows : Knows definition before scope) :
    Knows definition before scope.openCondition.2 := by
  have generated : ConditionName scope.openCondition.1 := ⟨_, rfl⟩
  have unknown : definition.Unknown scope.openCondition.1 := fun inside =>
    Name.Fresh.next_not_mem scope.fresh conditionStem (knows.avoids inside)
  have reserved : Knows definition before
      { scope with fresh := (scope.fresh.next conditionStem).2 } :=
    ⟨List.Subset.trans knows.avoids (List.subset_cons_self _ _), knows.externals, knows.scalars,
      knows.fields, knows.conditions, knows.targets⟩
  have more := reserved.field [] ⟨scope.openCondition.1, .bool, .ijk, .temporary⟩
    (.condition generated unknown) (fun _ => ⟨generated, rfl, rfl⟩) fun _ absurd => nomatch absurd
  rw [List.append_nil] at more
  exact more.holding scope.openCondition.1

end Scope

/-! ### Statements -/

open Scope (Knows)

mutual

/-- All names in a lowered statement have an origin, and the scope behind knows them. -/
theorem lower_knows {before : List Mention} {guards : List Guard} {scope after : Scope}
    (knows : Knows definition before scope) {statement : Definition.Statement}
    (used : targets statement ⊆ namesIn definition) {statements : List Statement}
    (done : lower guards scope statement = .ok (statements, after)) :
    Grounded definition before statement.mentions ∧
      Knows definition (before ++ statement.mentions) after := by
  match statement with
  | .assign target offset value span =>
    obtain ⟨resolved, current, readable, assigned, -⟩ := lower_assign done
    unfold targets at used
    unfold Definition.Statement.mentions
    have reads := grounded_reads (knows.resolve readable)
    refine ⟨reads.append (grounded_assign _ target), ?_⟩
    rw [← List.append_assoc]
    exact (knows.reads _).assign (used (List.mem_singleton_self target)) assigned
  | .branch condition whenTrue whenFalse span =>
    obtain ⟨resolved, first, afterTrue, second, afterFalse, readable, loweredTrue, loweredFalse, -,
      -, rfl⟩ := lower_branch done
    unfold targets at used
    unfold Definition.Statement.mentions
    obtain ⟨usedTrue, usedFalse⟩ := List.append_subset.mp used
    obtain ⟨groundedTrue, knowsTrue⟩ :=
      lowerAll_knows (knows.reads condition.names).openCondition usedTrue loweredTrue
    obtain ⟨groundedFalse, knowsFalse⟩ :=
      lowerAll_knows (knowsTrue.defined scope.openCondition.2.defined) usedFalse loweredFalse
    refine ⟨(grounded_reads (knows.resolve readable)).append (groundedTrue.append groundedFalse), ?_⟩
    rw [← List.append_assoc, ← List.append_assoc]
    exact knowsFalse.defined afterTrue.defined

theorem lowerAll_knows {before : List Mention} {guards : List Guard} {scope after : Scope}
    (knows : Knows definition before scope) {body : List Definition.Statement}
    (used : targetsAll body ⊆ namesIn definition) {statements : List Statement}
    (done : lowerAll guards scope body = .ok (statements, after)) :
    Grounded definition before (Definition.Statement.listMentions body) ∧
      Knows definition (before ++ Definition.Statement.listMentions body) after := by
  match body with
  | [] =>
    unfold lowerAll at done
    cases done
    unfold Definition.Statement.listMentions
    rw [List.append_nil]
    exact ⟨grounded_nil before, knows⟩
  | statement :: rest =>
    unfold targetsAll at used
    obtain ⟨usedHere, usedRest⟩ := List.append_subset.mp used
    unfold lowerAll at done
    obtain ⟨⟨first, middle⟩, loweredHere, done⟩ := Steps.bind_eq_ok.mp done
    obtain ⟨⟨more, last⟩, loweredRest, same⟩ := Steps.bind_eq_ok.mp done
    cases same
    obtain ⟨grounded, knows'⟩ := lower_knows knows usedHere loweredHere
    obtain ⟨grounded', knows''⟩ := lowerAll_knows knows' usedRest loweredRest
    unfold Definition.Statement.listMentions
    rw [← List.append_assoc]
    exact ⟨grounded.append grounded', knows''⟩

end

/-! ### Definitions -/

variable {scope after : Scope}

theorem Scope.Knows.bound (knows : Knows definition before scope) {bound : Definition.Bound}
    {height : AxisBound} (done : scope.bound bound = .ok height) :
    Grounded definition before bound.mentions ∧ Knows definition (before ++ bound.mentions) scope := by
  cases bound with
  | int value => exact ⟨grounded_nil before, knows.reads []⟩
  | top => exact ⟨grounded_nil before, knows.reads []⟩
  | external name span =>
    have binds : definition.Binds name := by
      refine knows.externals name fun missing => ?_
      unfold Scope.bound at done
      dsimp only at done
      rw [missing] at done
      cases done
    exact ⟨grounded_reads (List.forall_mem_singleton.mpr (.bound binds)), knows.reads [name]⟩

theorem Scope.Knows.interval (knows : Knows definition before scope) {range : Definition.Range}
    {interval : Interval} (done : scope.interval range = .ok interval) :
    Grounded definition before range.mentions ∧ Knows definition (before ++ range.mentions) scope := by
  cases range with
  | full => exact ⟨grounded_nil before, knows.reads []⟩
  | between lower upper =>
    obtain ⟨start, boundLower, done⟩ := Steps.bind_eq_ok.mp done
    obtain ⟨stop, boundUpper, -⟩ := Steps.bind_eq_ok.mp done
    obtain ⟨grounded, knows'⟩ := knows.bound boundLower
    obtain ⟨grounded', knows''⟩ := knows'.bound boundUpper
    unfold Definition.Range.mentions
    rw [← List.append_assoc]
    exact ⟨grounded.append grounded', knows''⟩

theorem lowerSections_knows (knows : Knows definition before scope)
    {parts : List Definition.Section}
    (used : (parts.flatMap fun part => targetsAll part.body) ⊆ namesIn definition)
    {sections : List Section} (done : lowerSections scope parts = .ok (sections, after)) :
    Grounded definition before (parts.flatMap Definition.Section.mentions) ∧
      Knows definition (before ++ parts.flatMap Definition.Section.mentions) after := by
  induction parts generalizing before scope sections with
  | nil =>
    cases done
    exact ⟨grounded_nil before, knows.reads []⟩
  | cons part rest ih =>
    obtain ⟨usedHere, usedRest⟩ := List.append_subset.mp used
    unfold lowerSections at done
    obtain ⟨interval, resolved, done⟩ := Steps.bind_eq_ok.mp done
    obtain ⟨⟨body, middle⟩, lowered, done⟩ := Steps.bind_eq_ok.mp done
    obtain ⟨⟨more, last⟩, loweredRest, same⟩ := Steps.bind_eq_ok.mp done
    cases same
    obtain ⟨groundedRange, knowsRange⟩ := knows.interval resolved
    obtain ⟨groundedBody, knowsBody⟩ := lowerAll_knows knowsRange usedHere lowered
    rw [List.append_assoc] at knowsBody
    obtain ⟨groundedRest, knowsRest⟩ := ih knowsBody usedRest loweredRest
    rw [List.append_assoc] at knowsRest
    exact ⟨(groundedRange.append groundedBody).append groundedRest, knowsRest⟩

theorem lowerComputations_knows (knows : Knows definition before scope)
    {computations : List Definition.Computation}
    (used : (computations.flatMap fun computation =>
      computation.sections.flatMap fun part => targetsAll part.body) ⊆ namesIn definition)
    {blocks : List Block} (done : lowerComputations scope computations = .ok (blocks, after)) :
    Grounded definition before (computations.flatMap fun computation =>
        computation.sections.flatMap Definition.Section.mentions) ∧
      Knows definition (before ++ computations.flatMap fun computation =>
        computation.sections.flatMap Definition.Section.mentions) after := by
  induction computations generalizing before scope blocks with
  | nil =>
    cases done
    exact ⟨grounded_nil before, knows.reads []⟩
  | cons computation rest ih =>
    obtain ⟨usedHere, usedRest⟩ := List.append_subset.mp used
    unfold lowerComputations at done
    split at done
    · cases done
    · obtain ⟨⟨sections, middle⟩, lowered, done⟩ := Steps.bind_eq_ok.mp done
      obtain ⟨⟨more, last⟩, loweredRest, same⟩ := Steps.bind_eq_ok.mp done
      cases same
      obtain ⟨grounded, knowsHere⟩ := lowerSections_knows knows usedHere lowered
      obtain ⟨groundedRest, knowsRest⟩ := ih knowsHere usedRest loweredRest
      rw [List.append_assoc] at knowsRest
      exact ⟨grounded.append groundedRest, knowsRest⟩

/-- The fields of a scope at the start are bound. -/
theorem binds_of_start {externals : Externals} {signature : Signature} {field : Field}
    (member : field ∈ (Scope.start definition externals signature).fields) :
    definition.Binds field.name := by
  obtain ⟨parameter, there, rfl⟩ := List.mem_map.mp member
  unfold Definition.Binds
  rw [names_bindings]
  exact List.mem_append_left _ (List.mem_append_left _ (List.mem_map_of_mem there))

theorem start_knows {externals resolved : Externals} (signature : Signature)
    (given : resolveExternals definition externals = .ok resolved) :
    Knows definition [] (Scope.start definition resolved signature) := by
  refine ⟨List.Subset.refl _, fun name known => ?_, fun name scalar => ?_,
    fun field member => .bound (binds_of_start member), fun field member unknown => ?_,
    fun _ absurd => nomatch absurd⟩
  · unfold Definition.Binds
    rw [names_bindings]
    exact List.mem_append_right _ ((resolved_iff given).mp known)
  · unfold Definition.Binds
    rw [names_bindings]
    exact List.mem_append_left _ (List.mem_append_right _ (hasScalar_start.mp scalar))
  · exact absurd (List.mem_append_left _ (binds_of_start member)) unknown

section

variable {given externals : Externals} {signature : Signature} {program : Program}

/-- **Where the reads of an accepted definition come from**, and the scope that its program is made
of. -/
theorem grounded_of_accepted
    (accepted : ofDefinition? definition given signature = .ok (program, externals)) :
    Grounded definition [] definition.mentions ∧ ∃ last, Knows definition definition.mentions last ∧
      (Scope.start definition externals signature).Precedes last ∧ last.fields = program.fields := by
  obtain ⟨free, resolved, blocks, last, lowered, rfl⟩ := ofDefinition?_eq_ok accepted
  have used : (definition.computations.flatMap fun computation =>
      computation.sections.flatMap fun part => targetsAll part.body) ⊆ namesIn definition :=
    List.subset_append_right _ _
  obtain ⟨grounded, knows⟩ := lowerComputations_knows (start_knows signature resolved) used lowered
  have precedes := (Masked.lowerComputations_bodies lowered).precedes
    (start_orderly externals signature free) (Masked.targets_subset_namesIn definition)
  exact ⟨grounded, last, knows, precedes, rfl⟩

/-- **The fields of a program that its definition knows nothing of** are temporaries that hold truth
values, under names that are made for conditions. -/
theorem spec_of_isCondition
    (accepted : ofDefinition? definition given signature = .ok (program, externals))
    {field : Field} (member : field ∈ program.fields) (condition : definition.IsCondition field) :
    ConditionName field.name ∧ field.type = .bool ∧ field.role = .temporary := by
  obtain ⟨-, last, knows, -, same⟩ := grounded_of_accepted accepted
  exact knows.conditions field (same ▸ member) condition

/-- A name that an accepted definition assigns and does not bind is that of a temporary. -/
theorem hasTemporary_of_assigned
    (accepted : ofDefinition? definition given signature = .ok (program, externals))
    (assigned : Mention.assign name ∈ definition.mentions) (free : ¬ definition.Binds name) :
    HasTemporary program.fields name := by
  obtain ⟨-, last, knows, precedes, same⟩ := grounded_of_accepted accepted
  obtain ⟨-, field, member, named⟩ := knows.targets name assigned
  refine ⟨field, same ▸ member, named, ?_⟩
  by_contra role
  obtain ⟨parameter, there, named', -⟩ := (precedes.parameters name).mp ⟨field, member, named, role⟩
  exact free (named' ▸ binds_of_start there)

variable (definition given signature) in
/-- **Every name that an accepted definition reads is bound, or that of a temporary which an earlier
statement assigns**, and no field of this name holds a condition; a definition that reads a name which
it neither binds nor assigns is rejected. A name with the form of those for conditions has to be
among the names that the definition binds or assigns, since the supply avoids no others. -/
theorem names_resolve {earlier later : List Mention}
    (here : definition.mentions = earlier ++ .read name :: later)
    (plain : ConditionName name → name ∈ namesIn definition) :
    (∀ program externals, ofDefinition? definition given signature = .ok (program, externals) →
      (definition.Binds name ∨
          Mention.assign name ∈ earlier ∧ HasTemporary program.fields name) ∧
        ∀ field ∈ program.fields, field.name = name → ¬ definition.IsCondition field) ∧
      (name ∉ namesIn definition →
        ∃ fault, ofDefinition? definition given signature = .error fault) := by
  have origin : ∀ program externals,
      ofDefinition? definition given signature = .ok (program, externals) →
        (definition.Binds name ∨ Mention.assign name ∈ earlier) ∧ name ∈ namesIn definition := by
    intro program externals accepted
    obtain ⟨grounded, last, knows, -, -⟩ := grounded_of_accepted accepted
    rcases grounded earlier name later here with binds | assigned | ⟨generated, unknown⟩
    · exact ⟨.inl binds, List.mem_append_left _ binds⟩
    · have inside : Mention.assign name ∈ definition.mentions :=
        here ▸ List.mem_append_left _ assigned
      exact ⟨.inr assigned, (knows.targets name inside).1⟩
    · exact absurd (plain generated) unknown
  refine ⟨fun program externals accepted => ?_, fun unknown => ?_⟩
  · obtain ⟨source, known⟩ := origin program externals accepted
    refine ⟨?_, fun field member named condition => condition (named ▸ known)⟩
    by_cases binds : definition.Binds name
    · exact .inl binds
    · have assigned := source.resolve_left binds
      exact .inr ⟨assigned, hasTemporary_of_assigned accepted
        (here ▸ List.mem_append_left _ assigned) binds⟩
  · cases accepted : ofDefinition? definition given signature with
    | error fault => exact ⟨fault, rfl⟩
    | ok both => exact absurd (origin both.1 both.2 accepted).2 unknown

/-- In `mixed`, the name that is read at an offset behind the branch is not bound. -/
theorem names_resolve_mixed : ∃ program externals,
    ofDefinition? Context.mixed (.ofList [("n", .int 1)]) (.ofList [("a", .f32)]) =
        .ok (program, externals) ∧
      ¬ Context.mixed.Binds "t" ∧ HasTemporary program.fields "t" := by
  have here : Context.mixed.mentions =
      [.read "n", .read "a", .read "c", .read "a", .read "w", .assign "t", .read "c", .assign "t"] ++
        .read "t" :: [.assign "x"] := by decide +kernel
  have free : ¬ Context.mixed.Binds "t" := by
    unfold Definition.Binds
    decide +kernel
  have resolves := (names_resolve Context.mixed (.ofList [("n", .int 1)]) (.ofList [("a", .f32)])
    here fun _ => by decide +kernel).1
  have known : (ofDefinition? Context.mixed (.ofList [("n", .int 1)])
      (.ofList [("a", .f32)])).toOption.isSome = true := by decide +kernel
  cases accepted : ofDefinition? Context.mixed (.ofList [("n", .int 1)]) (.ofList [("a", .f32)]) with
  | error fault =>
    rw [accepted] at known
    cases known
  | ok both =>
    exact ⟨both.1, both.2, rfl, free, ((resolves both.1 both.2 accepted).1.resolve_left free).2⟩

/-- A definition that reads the name of its condition. -/
def peeking : Definition where
  source := ⟨"", ""⟩
  name := "peeking"
  fields := [⟨"a", .f64, .ijk, ⟨0, 0⟩⟩, ⟨"x", .f64, .ijk, ⟨0, 0⟩⟩]
  scalars := []
  externals := []
  computations := [⟨"PARALLEL", [⟨.full,
    [.branch (.name "a" ⟨0, 0⟩) [.assign "x" none (.literal (.int 1) ⟨0, 0⟩) ⟨0, 0⟩]
      [.assign "x" none (.literal (.int 2) ⟨0, 0⟩) ⟨0, 0⟩] ⟨0, 0⟩,
      .assign "x" none (.name "__cond0" ⟨0, 0⟩) ⟨0, 0⟩], ⟨0, 0⟩⟩], ⟨0, 0⟩⟩]
  span := ⟨0, 0⟩

-- A name that is only read is not avoided by the supply, so it can be that of a condition.
example : (ofDefinition? peeking .empty .empty).toOption.isSome ∧ peeking.Unknown "__cond0" := by
  unfold Definition.Unknown
  decide +kernel

end

end Program

end GridStencil
