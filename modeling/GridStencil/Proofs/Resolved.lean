import GridStencil.Proofs.Backends
import GridStencil.Proofs.Demand.Least
import GridStencil.Proofs.Masked.Bodies

/-!
**Programs that come from definitions are resolved**: every name in them is known, every temporary
is assigned before it is read, and a kernel can be built from them.

While a definition is lowered, the roles of its fields are told by the targets of the statements
made so far (`Scope.Tracks`): a parameter is an output once it is a target, every temporary has been
one, and what a scope takes for defined or assigned has been one as well. So whatever an expression
refers to is ready (`Ready`) when it is made, and so is what lowering adds: the old value of a target
and the conditions of the branches around it.

* `lower_tracks`: one statement of a definition, under any guards.
* `ofDefinition?_resolved`: the fields, names, reads and bounds of a program, and that both backends
  make a kernel of it whatever demand is attached.
-/

namespace GridStencil

namespace Program

/-! ### What an expression refers to -/

/-- All fields and scalars that an expression refers to are as demanded. -/
def Expr.Refers (read : Read → Prop) (scalar : String → Prop) : Expr → Prop
  | .field name offset => read ⟨name, offset⟩
  | .scalar name => scalar name
  | .literal _ => True
  | .unary _ arg => arg.Refers read scalar
  | .binary _ left right => left.Refers read scalar ∧ right.Refers read scalar
  | .select condition whenTrue whenFalse =>
    condition.Refers read scalar ∧ whenTrue.Refers read scalar ∧ whenFalse.Refers read scalar

section

variable {read : Read → Prop} {scalar : String → Prop}

theorem Expr.Refers.imp {read' : Read → Prop} {scalar' : String → Prop}
    (reads : ∀ r, read r → read' r) (scalars : ∀ name, scalar name → scalar' name) {expr : Expr}
    (refers : expr.Refers read scalar) : expr.Refers read' scalar' := by
  induction expr with
  | field name offset => exact reads _ refers
  | scalar name => exact scalars _ refers
  | literal value => exact trivial
  | unary op arg ih => exact ih refers
  | binary op left right ihLeft ihRight => exact ⟨ihLeft refers.1, ihRight refers.2⟩
  | select condition whenTrue whenFalse ihCondition ihTrue ihFalse =>
    exact ⟨ihCondition refers.1, ihTrue refers.2.1, ihFalse refers.2.2⟩

theorem refers_foldUnary (op : UnaryOperator) {arg : Expr} (refers : arg.Refers read scalar) :
    (foldUnary op arg).Refers read scalar := by
  unfold foldUnary
  split
  · exact trivial
  · exact refers

theorem refers_foldBinary (op : BinaryOperator) {left right : Expr}
    (refersLeft : left.Refers read scalar) (refersRight : right.Refers read scalar) :
    (foldBinary op left right).Refers read scalar := by
  unfold foldBinary
  split
  · exact trivial
  · exact ⟨refersLeft, refersRight⟩

theorem refers_foldSelect {condition whenTrue whenFalse : Expr}
    (refers : condition.Refers read scalar) (refersTrue : whenTrue.Refers read scalar)
    (refersFalse : whenFalse.Refers read scalar) :
    (foldSelect condition whenTrue whenFalse).Refers read scalar := by
  unfold foldSelect
  split
  · split
    · exact refersTrue
    · exact refersFalse
  · exact ⟨refers, refersTrue, refersFalse⟩

theorem refers_test {guard : Guard} (refers : read ⟨guard.condition, .zero⟩) :
    guard.test.Refers read scalar := by
  unfold Guard.test
  split <;> exact refers

theorem refers_testAll {first : Guard} {rest : List Guard}
    (refers : ∀ guard ∈ first :: rest, read ⟨guard.condition, .zero⟩) :
    (Guard.testAll first rest).Refers read scalar := by
  obtain ⟨here, later⟩ := List.forall_mem_cons.mp refers
  unfold Guard.testAll
  have start : first.test.Refers read scalar := refers_test here
  clear refers here
  generalize first.test = test at start ⊢
  induction rest generalizing test with
  | nil => exact start
  | cons guard rest ih =>
    obtain ⟨here, later⟩ := List.forall_mem_cons.mp later
    exact ih later _ ⟨start, refers_test here⟩

/-- A guarded value refers to the value, to the current one and to the conditions. -/
theorem refers_guarded {value current : Expr} {guards : List Guard}
    (refers : value.Refers read scalar) (refersCurrent : current.Refers read scalar)
    (conditions : ∀ guard ∈ guards, read ⟨guard.condition, .zero⟩) :
    (Guard.guarded value current guards).Refers read scalar := by
  match guards with
  | [] => exact refers
  | [guard] =>
    have condition := conditions guard List.mem_cons_self
    unfold Guard.guarded
    dsimp only
    split
    · exact ⟨condition, refers, refersCurrent⟩
    · exact ⟨condition, refersCurrent, refers⟩
  | first :: second :: rest => exact ⟨refers_testAll conditions, refers, refersCurrent⟩

end

/-! ### Scopes and the targets so far -/

/-- A read of something that is known and holds a value: a parameter, at no offset if it has no
axes, or a temporary that was assigned. -/
def Ready (parameters : List Field) (done : List String) (read : Read) : Prop :=
  (∃ field ∈ parameters, field.name = read.field ∧
      (field.dimensions = .zero → read.offset = .zero)) ∨
    (∀ field ∈ parameters, field.name ≠ read.field) ∧ read.field ∈ done

/-- What was assigned can be read at the current point. -/
theorem ready_zero {parameters : List Field} {done : List String} {name : String}
    (there : name ∈ done) : Ready parameters done ⟨name, .zero⟩ := by
  by_cases parameter : ∃ field ∈ parameters, field.name = name
  · obtain ⟨field, member, named⟩ := parameter
    exact .inl ⟨field, member, named, fun _ => rfl⟩
  · exact .inr ⟨fun field member named => parameter ⟨field, member, named⟩, there⟩

/-- A parameter with its role: it is an output if it is among the targets. -/
def Field.turned (done : List String) (field : Field) : Field :=
  { field with role := if field.name ∈ done then .output else .input }

theorem Field.turned_output_iff {done : List String} {field : Field} :
    (field.turned done).role = .output ↔ field.name ∈ done := by
  show (if field.name ∈ done then Role.output else Role.input) = .output ↔ _
  by_cases target : field.name ∈ done
  · rw [if_pos target]
    exact iff_of_true rfl target
  · rw [if_neg target]
    exact iff_of_false (fun absurd => nomatch absurd) target

theorem Field.turned_ne_temporary (done : List String) (field : Field) :
    (field.turned done).role ≠ .temporary := by
  show (if field.name ∈ done then Role.output else Role.input) ≠ .temporary
  split <;> exact fun absurd => nomatch absurd

/-- Whether a scalar has a name. -/
def HasScalar (scalars : List Scalar) (name : String) : Prop :=
  ∃ scalar ∈ scalars, scalar.name = name

namespace Scope

theorem hasScalar_iff {scope : Scope} {name : String} :
    scope.hasScalar name = true ↔ HasScalar scope.scalars name := by
  unfold hasScalar HasScalar
  rw [List.any_eq_true]
  exact exists_congr fun scalar => and_congr_right' beq_iff_eq

/-- What a scope knows agrees with the targets so far. -/
structure Tracks (parameters : List Field) (scope : Scope) (done : List String) : Prop where
  orderly : scope.Orderly
  fields : ∃ temporaries, scope.fields = parameters.map (Field.turned done) ++ temporaries ∧
    ∀ field ∈ temporaries, field.role = .temporary ∧ field.name ∈ done
  defined : scope.defined ⊆ done
  apart : ∀ field ∈ scope.fields,
    ¬ HasScalar scope.scalars field.name ∧ scope.externals.get? field.name = none
  bound : ∀ name, HasScalar scope.scalars name ∨ scope.externals.get? name ≠ none →
    name ∈ scope.fresh.taken

variable {parameters : List Field} {scope after : Scope} {done : List String} {name : String}

namespace Tracks

/-- A field of a scope is a parameter, in the role that the targets give it, or a temporary. -/
theorem parameter_or_temporary (tracks : Tracks parameters scope done) {field : Field}
    (member : field ∈ scope.fields) :
    (∃ parameter ∈ parameters, field = parameter.turned done) ∨
      field.role = .temporary ∧ field.name ∈ done ∧
        ∀ parameter ∈ parameters, parameter.name ≠ field.name := by
  obtain ⟨temporaries, split, all⟩ := tracks.fields
  have distinct := tracks.orderly.distinct
  rw [split] at member distinct
  rcases List.mem_append.mp member with inside | temporary
  · obtain ⟨parameter, there, rfl⟩ := List.mem_map.mp inside
    exact .inl ⟨parameter, there, rfl⟩
  · refine .inr ⟨(all field temporary).1, (all field temporary).2, fun parameter there same => ?_⟩
    rw [List.map_append, List.nodup_append] at distinct
    have turned : parameter.name ∈ (parameters.map (Field.turned done)).map Field.name :=
      List.mem_map.mpr ⟨parameter.turned done, List.mem_map_of_mem there, rfl⟩
    exact distinct.2.2 _ turned _ (List.mem_map_of_mem temporary) same

theorem turned_mem (tracks : Tracks parameters scope done) {parameter : Field}
    (there : parameter ∈ parameters) : parameter.turned done ∈ scope.fields := by
  obtain ⟨temporaries, split, -⟩ := tracks.fields
  exact split ▸ List.mem_append_left _ (List.mem_map_of_mem there)

/-- The field of a parameter's name is the parameter in its role. -/
theorem eq_turned (tracks : Tracks parameters scope done) {field parameter : Field}
    (member : field ∈ scope.fields) (there : parameter ∈ parameters)
    (named : field.name = parameter.name) : field = parameter.turned done :=
  eq_of_name tracks.orderly.distinct member (tracks.turned_mem there) named

/-- **What a scope lets an expression read is ready.** -/
theorem read (tracks : Tracks parameters scope done) {offset : Option Offset} {expr : Expr}
    (allowed : scope.read name offset = .ok expr) :
    expr.Refers (Ready parameters done) (HasScalar scope.scalars) := by
  unfold Scope.read at allowed
  split at allowed
  · split at allowed
    · cases allowed
    · cases allowed
      exact trivial
  · split at allowed
    next scalar =>
      split at allowed
      · cases allowed
      · cases allowed
        exact hasScalar_iff.mp scalar
    · split at allowed
      · cases allowed
      next field found =>
        obtain ⟨member, named⟩ := field?_eq_some found
        split at allowed
        · cases allowed
        next defined =>
          dsimp only at allowed
          split at allowed
          · cases allowed
          next placed =>
            cases allowed
            rcases tracks.parameter_or_temporary member with ⟨parameter, there, rfl⟩ | temporary
            · refine .inl ⟨parameter, there, named, fun zero => ?_⟩
              by_contra shifted
              exact placed ⟨zero, shifted⟩
            · obtain ⟨role, -, others⟩ := temporary
              refine .inr ⟨fun parameter there => named ▸ others parameter there, ?_⟩
              by_contra unassigned
              exact defined ⟨role, fun inside => unassigned (tracks.defined inside)⟩

/-- **Whatever a resolved expression refers to is ready.** -/
theorem resolve (tracks : Tracks parameters scope done) {source : Definition.Expr} {expr : Expr}
    (resolved : scope.resolve source = .ok expr) :
    expr.Refers (Ready parameters done) (HasScalar scope.scalars) := by
  induction source generalizing expr with
  | literal value span =>
    cases resolved
    exact trivial
  | name name span => exact tracks.read (Steps.mapError_eq_ok.mp resolved)
  | access name offset span => exact tracks.read (Steps.mapError_eq_ok.mp resolved)
  | unary op arg span ih =>
    obtain ⟨arg', here, same⟩ := Steps.bind_eq_ok.mp resolved
    cases same
    exact refers_foldUnary op (ih here)
  | binary op left right span ihLeft ihRight =>
    obtain ⟨left', here, resolved⟩ := Steps.bind_eq_ok.mp resolved
    obtain ⟨right', there, same⟩ := Steps.bind_eq_ok.mp resolved
    cases same
    exact refers_foldBinary op (ihLeft here) (ihRight there)
  | conditional condition whenTrue whenFalse span ihCondition ihTrue ihFalse =>
    obtain ⟨condition', here, resolved⟩ := Steps.bind_eq_ok.mp resolved
    obtain ⟨whenTrue', inTrue, resolved⟩ := Steps.bind_eq_ok.mp resolved
    obtain ⟨whenFalse', inFalse, same⟩ := Steps.bind_eq_ok.mp resolved
    cases same
    exact refers_foldSelect (ihCondition here) (ihTrue inTrue) (ihFalse inFalse)

/-- The roles of parameters change with a target that is one of them. -/
theorem turned_more (known : ∀ field ∈ parameters, field.name = name → name ∈ done) :
    parameters.map (Field.turned (done ++ [name])) = parameters.map (Field.turned done) := by
  refine List.map_congr_left fun field member => ?_
  have same : field.name ∈ done ++ [name] ↔ field.name ∈ done := by
    rw [List.mem_append, List.mem_singleton, or_iff_left_iff_imp]
    exact fun named => named ▸ known field member named
  unfold Field.turned
  simp only [same]

/-- One more target that changes no role, and maybe a temporary of its name. -/
theorem more (tracks : Tracks parameters scope done) (orderly : after.Orderly)
    (precedes : scope.Precedes after) (used : scope.fresh.taken ⊆ after.fresh.taken)
    {temporaries : List Field} (fields : after.fields = scope.fields ++ temporaries)
    (added : ∀ field ∈ temporaries, field.role = .temporary ∧ field.name = name)
    (free : temporaries ≠ [] → ¬ HasScalar scope.scalars name ∧ scope.externals.get? name = none)
    (defined : after.defined ⊆ name :: scope.defined)
    (known : ∀ field ∈ parameters, field.name = name → name ∈ done) :
    Tracks parameters after (done ++ [name]) := by
  obtain ⟨earlier, split, all⟩ := tracks.fields
  refine ⟨orderly, ⟨earlier ++ temporaries, ?_, fun field member => ?_⟩, fun other member => ?_,
    fun field member => ?_, fun other there => ?_⟩
  · rw [fields, split, turned_more known, List.append_assoc]
  · rcases List.mem_append.mp member with old | new
    · exact ⟨(all field old).1, List.mem_append_left _ (all field old).2⟩
    · obtain ⟨role, named⟩ := added field new
      exact ⟨role, named ▸ List.mem_append_right _ (List.mem_singleton_self _)⟩
  · rcases List.mem_cons.mp (defined member) with rfl | old
    · exact List.mem_append_right _ (List.mem_singleton_self _)
    · exact List.mem_append_left _ (tracks.defined old)
  · rw [precedes.scalars, precedes.externals]
    rw [fields] at member
    rcases List.mem_append.mp member with old | new
    · exact tracks.apart field old
    · rw [(added field new).2]
      exact free (List.ne_nil_of_mem new)
  · rw [precedes.scalars, precedes.externals] at there
    exact used (tracks.bound other there)

theorem defined_holding (scope : Scope) (name : String) :
    (scope.holding name).defined ⊆ name :: scope.defined := by
  unfold holding
  split
  · exact List.subset_cons_self _ _
  · exact List.Subset.refl _

/-- A parameter that is assigned for the first time. -/
theorem output (tracks : Tracks parameters scope done) (orderly : (scope.withOutput name).Orderly)
    {field : Field} (found : scope.field? name = some field) (input : field.role = .input) :
    Tracks parameters (scope.withOutput name) (done ++ [name]) := by
  obtain ⟨member, named⟩ := field?_eq_some found
  obtain ⟨temporaries, split, all⟩ := tracks.fields
  have others : ∀ temporary ∈ temporaries, temporary.name ≠ name := by
    intro temporary inside same
    have there : temporary ∈ scope.fields := split ▸ List.mem_append_right _ inside
    have equal := eq_of_name tracks.orderly.distinct there member (same.trans named.symm)
    rw [← equal, (all temporary inside).1] at input
    cases input
  have turn : ∀ parameter : Field, (if (parameter.turned done).name = name then
      { parameter.turned done with role := .output } else parameter.turned done) =
        parameter.turned (done ++ [name]) := by
    intro parameter
    unfold Field.turned
    by_cases same : parameter.name = name
    · simp [same]
    · simp [same]
  refine ⟨orderly, ⟨temporaries, ?_, fun temporary inside => ?_⟩, fun other there => ?_,
    fun turned inside => ?_, tracks.bound⟩
  · show scope.fields.map _ = _
    rw [split, List.map_append, List.map_map]
    refine congrArg₂ (· ++ ·) (List.map_congr_left fun parameter _ => turn parameter) ?_
    refine (List.map_congr_left fun temporary inside => ?_).trans (List.map_id temporaries)
    exact if_neg (others temporary inside)
  · exact ⟨(all temporary inside).1, List.mem_append_left _ (all temporary inside).2⟩
  · exact List.mem_append_left _ (tracks.defined there)
  · obtain ⟨old, there, rfl⟩ := List.mem_map.mp inside
    have same : (if old.name = name then { old with role := .output } else old : Field).name =
        old.name := by split <;> rfl
    rw [same]
    exact tracks.apart old there

/-- **What a scope tracks behind an assignment.** -/
theorem define (tracks : Tracks parameters scope done) (used : name ∈ scope.fresh.taken)
    (done' : scope.define name = .ok after) : Tracks parameters after (done ++ [name]) := by
  obtain ⟨orderly, grows, -⟩ := define_orderly tracks.orderly used done'
  have precedes := define_precedes tracks.orderly done'
  unfold Scope.define at done'
  split at done'
  · cases done'
  next noScalar =>
    split at done'
    · cases done'
    next noExternal =>
      split at done'
      next missing =>
        cases done'
        have unknown := field?_eq_none missing
        refine tracks.more orderly precedes grows.used (holding_fields _ name).1
          (fun field new => ?_) (fun _ => ⟨?_, ?_⟩) (defined_holding _ name) fun field there same => ?_
        · rw [List.mem_singleton.mp new]
          exact ⟨rfl, rfl⟩
        · exact fun scalar => noScalar (hasScalar_iff.mpr scalar)
        · exact Option.not_isSome_iff_eq_none.mp noExternal
        · exact (unknown (field.turned done) (tracks.turned_mem there) same).elim
      next field found =>
        obtain ⟨member, named⟩ := field?_eq_some found
        split at done'
        · cases done'
        · split at done'
          next input =>
            cases done'
            exact tracks.output orderly found input
          next output =>
            cases done'
            refine tracks.more orderly precedes grows.used (List.append_nil _).symm
              (fun _ absurd => nomatch absurd) (fun absurd => absurd.elim rfl)
              (List.subset_cons_self _ _) fun parameter there same => ?_
            rw [tracks.eq_turned member there (named.trans same.symm)] at output
            exact same ▸ Field.turned_output_iff.mp output
          next temporary =>
            cases done'
            refine tracks.more orderly precedes grows.used
              ((holding_fields scope name).1.trans (List.append_nil _).symm)
              (fun _ absurd => nomatch absurd) (fun absurd => absurd.elim rfl)
              (defined_holding scope name) fun parameter there same => ?_
            rw [tracks.eq_turned member there (named.trans same.symm)] at temporary
            exact absurd temporary (Field.turned_ne_temporary done parameter)

/-- **What a scope tracks behind the target of a statement**, and the old value of the target. -/
theorem assign (tracks : Tracks parameters scope done) (assigned : scope.assigned ⊆ done)
    (used : name ∈ scope.fresh.taken) {current : Expr}
    (done' : scope.assign name = .ok (current, after)) :
    Tracks parameters after (done ++ [name]) ∧ after.assigned ⊆ done ++ [name] ∧
      current.Refers (Ready parameters done) (HasScalar scope.scalars) := by
  obtain ⟨-, -, known, value⟩ := assign_spec tracks.orderly done'
  refine ⟨?_, List.Subset.trans known (List.cons_subset.mpr ⟨?_, ?_⟩), ?_⟩
  · unfold Scope.assign at done'
    split at done'
    · obtain ⟨next, defined, same⟩ := Steps.bind_eq_ok.mp done'
      cases same
      have marked := (orderly_of_eq tracks.orderly
        { scope with assigned := name :: scope.assigned } rfl rfl).1
      exact define ⟨marked, tracks.fields, tracks.defined, tracks.apart, tracks.bound⟩ used defined
    · obtain ⟨next, defined, same⟩ := Steps.bind_eq_ok.mp done'
      cases same
      exact tracks.define used defined
  · exact List.mem_append_right _ (List.mem_singleton_self _)
  · exact List.Subset.trans assigned (List.subset_append_left _ _)
  · rcases value with ⟨rfl, -⟩ | ⟨rfl, touched⟩
    · exact trivial
    · show Ready parameters done ⟨name, .zero⟩
      rcases touched with ⟨field, member, named, role⟩ | earlier
      · rcases tracks.parameter_or_temporary member with ⟨parameter, there, rfl⟩ | temporary
        · exact .inl ⟨parameter, there, named, fun _ => rfl⟩
        · exact absurd temporary.1 role
      · exact ready_zero (assigned earlier)

/-- What a scope tracks behind the condition of a branch. -/
theorem openCondition (tracks : Tracks parameters scope done) :
    Tracks parameters scope.openCondition.2 (done ++ [scope.openCondition.1]) := by
  obtain ⟨orderly, grows, -⟩ := openCondition_orderly tracks.orderly
  obtain ⟨precedes, -, fresh, -, -⟩ := openCondition_spec scope
  have unbound : ∀ field ∈ scope.fields, field.name ≠ scope.openCondition.1 :=
    fun field member same => fresh (same ▸ tracks.orderly.used field member)
  refine tracks.more orderly precedes grows.used (holding_fields _ _).1 (fun field new => ?_)
    (fun _ => ⟨fun scalar => fresh (tracks.bound _ (.inl scalar)), ?_⟩) (defined_holding _ _)
    fun parameter there same => ?_
  · rw [List.mem_singleton.mp new]
    exact ⟨rfl, rfl⟩
  · by_contra external
    exact fresh (tracks.bound _ (.inr external))
  · exact (unbound (parameter.turned done) (tracks.turned_mem there) same).elim

/-- What counts as defined may be anything that was a target. -/
theorem redefined (tracks : Tracks parameters scope done) {defined : List String}
    (sub : defined ⊆ done) : Tracks parameters { scope with defined } done :=
  ⟨(orderly_of_eq tracks.orderly { scope with defined } rfl rfl).1, tracks.fields, sub,
    tracks.apart, tracks.bound⟩

end Tracks

end Scope

/-! ### Statements -/

/-- All that some statements refer to is ready where they stand, if `done` was assigned before. -/
def AllReady (parameters : List Field) (scalars : List Scalar) :
    List String → List Statement → Prop
  | _, [] => True
  | done, statement :: rest =>
    statement.value.Refers (Ready parameters done) (HasScalar scalars) ∧
      AllReady parameters scalars (done ++ [statement.target]) rest

section

variable {parameters : List Field} {scalars : List Scalar} {done : List String}

theorem allReady_append {first second : List Statement} :
    AllReady parameters scalars done (first ++ second) ↔
      AllReady parameters scalars done first ∧
        AllReady parameters scalars (done ++ first.map Statement.target) second := by
  induction first generalizing done with
  | nil =>
    rw [List.map_nil, List.append_nil]
    exact ⟨fun ready => ⟨trivial, ready⟩, fun both => both.2⟩
  | cons statement rest ih =>
    show _ ∧ AllReady _ _ _ (rest ++ second) ↔ (_ ∧ _) ∧ _
    rw [ih, List.map_cons, List.append_assoc, and_assoc]
    rfl

end

open Scope (Tracks)

mutual

/-- **A scope tracks the targets of all that a statement becomes**, and whatever that refers to is
ready. -/
theorem lower_tracks {parameters : List Field} {guards : List Guard} {scope after : Scope}
    {done : List String} (tracks : Tracks parameters scope done) (assigned : scope.assigned ⊆ done)
    (conditions : ∀ guard ∈ guards, guard.condition ∈ done) {statement : Definition.Statement}
    (used : targets statement ⊆ scope.fresh.taken) {statements : List Statement}
    (lowered : lower guards scope statement = .ok (statements, after)) :
    Tracks parameters after (done ++ statements.map Statement.target) ∧
      after.assigned ⊆ done ++ statements.map Statement.target ∧
      AllReady parameters scope.scalars done statements := by
  match statement with
  | .assign target offset value span =>
    obtain ⟨resolved, current, readable, assigns, rfl⟩ := lower_assign lowered
    unfold targets at used
    obtain ⟨tracks', assigned', refers⟩ :=
      tracks.assign assigned (used (List.mem_singleton_self target)) assigns
    exact ⟨tracks', assigned', refers_guarded (tracks.resolve readable) refers
      fun guard member => ready_zero (conditions guard member), trivial⟩
  | .branch condition whenTrue whenFalse span =>
    obtain ⟨resolved, first, afterTrue, second, afterFalse, readable, loweredTrue, loweredFalse, -,
      rfl, rfl⟩ := lower_branch lowered
    unfold targets at used
    obtain ⟨usedTrue, usedFalse⟩ := List.append_subset.mp used
    obtain ⟨opened, growsOpen, -⟩ := Scope.openCondition_orderly tracks.orderly
    obtain ⟨precedesOpen, -, -, -, assignedOpen⟩ := Scope.openCondition_spec scope
    have usedTrue' := List.Subset.trans usedTrue growsOpen.used
    obtain ⟨-, growsTrue, -⟩ := lowerAll_orderly opened usedTrue' loweredTrue
    obtain ⟨precedesTrue, -, -⟩ := lowerAll_precedes opened usedTrue' loweredTrue
    have usedFalse' := List.Subset.trans usedFalse (List.Subset.trans growsOpen.used growsTrue.used)
    -- The condition is a target from here on, so both sides find it and their scopes agree on it.
    have start := tracks.openCondition
    have early : scope.assigned ⊆ done ++ [scope.openCondition.1] :=
      List.Subset.trans assigned (List.subset_append_left _ _)
    have guarded : ∀ taken : Bool, ∀ guard ∈ guards ++ [(⟨scope.openCondition.1, taken⟩ : Guard)],
        guard.condition ∈ done ++ [scope.openCondition.1] := by
      intro taken guard member
      rcases List.mem_append.mp member with outer | own
      · exact List.mem_append_left _ (conditions guard outer)
      · rw [List.mem_singleton.mp own]
        exact List.mem_append_right _ (List.mem_singleton_self _)
    obtain ⟨tracksTrue, assignedTrue, readyTrue⟩ := lowerAll_tracks start
      (assignedOpen ▸ early) (guarded true) usedTrue' loweredTrue
    have restart := tracksTrue.redefined
      (List.Subset.trans start.defined (List.subset_append_left _ (first.map Statement.target)))
    obtain ⟨tracksFalse, assignedFalse, readyFalse⟩ := lowerAll_tracks restart assignedTrue
      (fun guard member => List.mem_append_left _ (guarded false guard member)) usedFalse'
      loweredFalse
    have finish := tracksFalse.redefined
      (List.Subset.trans tracksTrue.defined (List.subset_append_left _ (second.map Statement.target)))
    have targets : done ++ (⟨scope.openCondition.1, resolved, span⟩ :: first ++ second).map
        Statement.target = done ++ [scope.openCondition.1] ++ first.map Statement.target ++
          second.map Statement.target := by
      simp only [List.map_append, List.map_cons, List.cons_append, List.append_assoc,
        List.nil_append]
    rw [targets]
    refine ⟨finish, assignedFalse, allReady_append.mpr ⟨⟨tracks.resolve readable, ?_⟩, ?_⟩⟩
    · exact precedesOpen.scalars ▸ readyTrue
    · have same : afterTrue.scalars = scope.scalars :=
        precedesTrue.scalars.trans precedesOpen.scalars
      rw [List.map_cons, ← List.singleton_append, ← List.append_assoc]
      exact same ▸ readyFalse

theorem lowerAll_tracks {parameters : List Field} {guards : List Guard} {scope after : Scope}
    {done : List String} (tracks : Tracks parameters scope done) (assigned : scope.assigned ⊆ done)
    (conditions : ∀ guard ∈ guards, guard.condition ∈ done) {body : List Definition.Statement}
    (used : targetsAll body ⊆ scope.fresh.taken) {statements : List Statement}
    (lowered : lowerAll guards scope body = .ok (statements, after)) :
    Tracks parameters after (done ++ statements.map Statement.target) ∧
      after.assigned ⊆ done ++ statements.map Statement.target ∧
      AllReady parameters scope.scalars done statements := by
  match body with
  | [] =>
    unfold lowerAll at lowered
    cases lowered
    rw [List.map_nil, List.append_nil]
    exact ⟨tracks, assigned, trivial⟩
  | statement :: rest =>
    unfold targetsAll at used
    obtain ⟨usedHere, usedRest⟩ := List.append_subset.mp used
    unfold lowerAll at lowered
    obtain ⟨⟨first, middle⟩, loweredHere, lowered⟩ := Steps.bind_eq_ok.mp lowered
    obtain ⟨⟨more, last⟩, loweredRest, same⟩ := Steps.bind_eq_ok.mp lowered
    cases same
    obtain ⟨-, grows, -⟩ := lower_orderly tracks.orderly usedHere loweredHere
    obtain ⟨precedes, -, -⟩ := lower_precedes tracks.orderly usedHere loweredHere
    obtain ⟨tracks', assigned', ready⟩ :=
      lower_tracks tracks assigned conditions usedHere loweredHere
    obtain ⟨tracks'', assigned'', ready'⟩ := lowerAll_tracks tracks' assigned'
      (fun guard member => List.mem_append_left _ (conditions guard member))
      (List.Subset.trans usedRest grows.used) loweredRest
    rw [List.map_append, ← List.append_assoc]
    exact ⟨tracks'', assigned'', allReady_append.mpr ⟨ready, precedes.scalars ▸ ready'⟩⟩

end

/-- Bodies one after another. -/
theorem bodies_tracks {parameters : List Field} {scope last : Scope} {done : List String}
    {sources : List (List Definition.Statement)} {bodies : List (List Statement)}
    (all : Masked.LoweredBodies scope sources bodies last) (tracks : Tracks parameters scope done)
    (assigned : scope.assigned ⊆ done) (used : sources.flatMap targetsAll ⊆ scope.fresh.taken) :
    Tracks parameters last (done ++ bodies.flatten.map Statement.target) ∧
      AllReady parameters scope.scalars done bodies.flatten := by
  induction all generalizing done with
  | nil scope =>
    rw [List.flatten_nil, List.map_nil, List.append_nil]
    exact ⟨tracks, trivial⟩
  | cons here later ih =>
    obtain ⟨usedHere, usedRest⟩ := List.append_subset.mp used
    obtain ⟨-, grows, -⟩ := lowerAll_orderly tracks.orderly usedHere here
    obtain ⟨precedes, -, -⟩ := lowerAll_precedes tracks.orderly usedHere here
    obtain ⟨tracks', assigned', ready⟩ :=
      lowerAll_tracks tracks assigned (List.forall_mem_nil _) usedHere here
    obtain ⟨tracks'', ready'⟩ := ih tracks' assigned' (List.Subset.trans usedRest grows.used)
    rw [List.flatten_cons, List.map_append, ← List.append_assoc]
    exact ⟨tracks'', allReady_append.mpr ⟨ready, precedes.scalars ▸ ready'⟩⟩

/-! ### Names at the start -/

/-- The externals that have a value are those that a definition declares. -/
theorem resolved_iff {definition : Definition} {externals resolved : Externals}
    (done : resolveExternals definition externals = .ok resolved) {name : String} :
    resolved.get? name ≠ none ↔ name ∈ definition.externals.map Prod.fst := by
  unfold resolveExternals at done
  obtain ⟨values, given, same⟩ := Steps.bind_eq_ok.mp done
  cases same
  have names : definition.externals.map Prod.fst = values.map Prod.fst := by
    rw [← List.forall₂_eq_eq_eq, List.forall₂_map_left_iff, List.forall₂_map_right_iff]
    refine (Steps.mapM_eq_ok.mp given).imp fun declared value found => ?_
    obtain ⟨name, span⟩ := declared
    dsimp only at found
    split at found
    · cases found
      rfl
    · cases found
  rw [Name.Table.get?_ofList_ne_none, names]

theorem names_bindings (definition : Definition) : (bindings definition).map Binding.name =
    definition.fields.map Definition.FieldParameter.name ++
      definition.scalars.map Definition.ScalarParameter.name ++
      definition.externals.map Prod.fst := by
  unfold bindings
  rw [List.map_append, List.map_append, List.map_map, List.map_map, List.map_map]
  rfl

/-- The names of the scalars of a scope are those that the definition gives them. -/
theorem hasScalar_start {definition : Definition} {externals : Externals} {signature : Signature}
    {name : String} : HasScalar (Scope.start definition externals signature).scalars name ↔
      name ∈ definition.scalars.map Definition.ScalarParameter.name := by
  unfold HasScalar Scope.start
  simp only [List.mem_map, exists_exists_and_eq_and]

/-- **A scope starts in agreement**: no statement has a target yet. -/
theorem start_tracks {definition : Definition} {externals resolved : Externals}
    (signature : Signature) (free : clash? [] (bindings definition) = none)
    (given : resolveExternals definition externals = .ok resolved) :
    Tracks (Scope.start definition resolved signature).fields
      (Scope.start definition resolved signature) [] := by
  have distinct := (nodup_of_clash? free).1
  have names := names_bindings definition
  rw [names] at distinct
  obtain ⟨parameters, -, apart⟩ := List.nodup_append.mp distinct
  obtain ⟨-, -, apart'⟩ := List.nodup_append.mp parameters
  refine ⟨start_orderly resolved signature free, ⟨[], ?_, fun _ absurd => nomatch absurd⟩,
    List.nil_subset _, fun field member => ⟨fun scalar => ?_, ?_⟩, fun name there => ?_⟩
  · rw [List.append_nil]
    unfold Scope.start
    rw [List.map_map]
    rfl
  · obtain ⟨parameter, there, rfl⟩ := List.mem_map.mp member
    exact apart' _ (List.mem_map_of_mem there) _ (hasScalar_start.mp scalar) rfl
  · obtain ⟨parameter, there, rfl⟩ := List.mem_map.mp member
    by_contra external
    exact apart _ (List.mem_append_left _ (List.mem_map_of_mem there)) _
      ((resolved_iff given).mp external) rfl
  · show name ∈ namesIn definition
    unfold namesIn
    rw [names]
    refine List.mem_append_left _ ?_
    rcases there with scalar | external
    · exact List.mem_append_left _ (List.mem_append_right _ (hasScalar_start.mp scalar))
    · exact List.mem_append_right _ ((resolved_iff given).mp external)

/-! ### Programs -/

/-- The targets of all statements. -/
def targetNames (program : Program) : List String := program.statements.map (·.2.target)

/-- Indices that are not used do not count. -/
theorem flatMap_zipIdx {α β : Type} (items : List α) {f : α → List β} {g : α × Nat → List β}
    (same : ∀ item, g item = f item.1) : items.zipIdx.flatMap g = items.flatMap f := by
  calc items.zipIdx.flatMap g = (items.zipIdx.map Prod.fst).flatMap f := by
        rw [List.flatMap_map]
        exact congrArg (List.flatMap · _) (funext same)
    _ = items.flatMap f := by rw [List.zipIdx_map_fst]

theorem map_statements (program : Program) :
    program.statements.map Prod.snd = program.bodies.flatten := by
  unfold statements bodies
  rw [List.map_flatMap, ← List.flatMap_id, List.flatMap_assoc]
  refine flatMap_zipIdx _ fun (block, b) => ?_
  rw [List.map_flatMap, List.flatMap_map]
  refine flatMap_zipIdx _ fun (part, i) => ?_
  rw [List.map_map]
  exact List.zipIdx_map_fst 0 part.body

/-- All fields and scalars that the statements of a program speak of are declared. -/
def NamesKnown (program : Program) : Prop :=
  ∀ statement ∈ program.bodies.flatten,
    (∃ field ∈ program.fields, field.name = statement.target) ∧
      statement.value.Refers (fun read => ∃ field ∈ program.fields, field.name = read.field)
        (HasScalar program.scalars)

/-- What a statement refers to is ready behind the statements before it. -/
theorem refers_of_allReady {parameters : List Field} {scalars : List Scalar}
    {before after : List (Position × Statement)} {position : Position} {statement : Statement}
    (ready : AllReady parameters scalars []
      ((before ++ (position, statement) :: after).map Prod.snd)) :
    statement.value.Refers (Ready parameters (before.map (·.2.target))) (HasScalar scalars) := by
  rw [List.map_append] at ready
  obtain ⟨here, -⟩ := (allReady_append.mp ready).2
  rw [List.map_map] at here
  exact here

section

variable {definition : Definition} {given resolved : Externals} {signature : Signature}
  {program : Program}

/-- **A program agrees with the scope behind its definition**, and whatever its statements refer to
is ready. -/
theorem ofDefinition?_tracks
    (done : ofDefinition? definition given signature = .ok (program, resolved)) :
    ∃ last : Scope, last.fields = program.fields ∧ last.externals = resolved ∧
      last.scalars = program.scalars ∧
      program.scalars = (Scope.start definition resolved signature).scalars ∧
      Tracks (Scope.start definition resolved signature).fields last program.targetNames ∧
      AllReady (Scope.start definition resolved signature).fields program.scalars []
        (program.statements.map Prod.snd) := by
  obtain ⟨free, values, -⟩ := ofDefinition?_eq_ok done
  obtain ⟨last, -, bodies, fields, scalars⟩ := Masked.bodies_of_accepted done
  have used : definition.bodies.flatMap targetsAll ⊆
      (Scope.start definition resolved signature).fresh.taken :=
    Masked.targets_subset_namesIn definition
  have start := start_tracks signature free values
  have precedes := bodies.precedes start.orderly used
  have scalars' := scalars.symm.trans precedes.scalars
  obtain ⟨tracks, ready⟩ := bodies_tracks bodies start (List.nil_subset _) used
  rw [List.nil_append, ← map_statements, List.map_map] at tracks
  rw [← map_statements, ← scalars'] at ready
  exact ⟨last, fields, precedes.externals, scalars, scalars', tracks, ready⟩

/-- Every target can be assigned. -/
theorem statement_assignable
    (done : ofDefinition? definition given signature = .ok (program, resolved)) :
    ∀ place ∈ program.statements, Assignable program.fields place.2.target := by
  intro place member
  have inside : place.2 ∈ program.bodies.flatten :=
    map_statements program ▸ List.mem_map_of_mem member
  obtain ⟨body, there, here⟩ := List.mem_flatten.mp inside
  obtain ⟨block, inProgram, inBlock⟩ := List.mem_flatMap.mp there
  obtain ⟨part, inSections, rfl⟩ := List.mem_map.mp inBlock
  exact (ofDefinition?_wellFormed done).targets block inProgram part inSections place.2 here

/-- **Whatever a statement refers to is known**: a field without axes is read at no offset, and a
temporary behind a statement that assigns it. -/
theorem statement_refers
    (done : ofDefinition? definition given signature = .ok (program, resolved)) :
    ∀ place ∈ program.statements, place.2.value.Refers
      (fun read => ∃ field ∈ program.fields, field.name = read.field ∧
        (field.dimensions = .zero → read.offset = .zero) ∧
        (field.role = .temporary → ∃ earlier ∈ program.statements,
          earlier.1.Before place.1 ∧ earlier.2.target = read.field))
      (HasScalar program.scalars) := by
  obtain ⟨last, fields, -, -, -, tracks, ready⟩ := ofDefinition?_tracks done
  intro place member
  obtain ⟨before, after, listed⟩ := List.append_of_mem member
  have ordered := pairwise_statements program
  rw [listed] at ready ordered
  refine (refers_of_allReady ready).imp (fun read isReady => ?_) fun _ scalar => scalar
  rcases isReady with ⟨parameter, there, named, placed⟩ | ⟨-, assigned⟩
  · refine ⟨parameter.turned program.targetNames, fields ▸ tracks.turned_mem there, named, placed,
      fun temporary => ?_⟩
    exact absurd temporary (Field.turned_ne_temporary _ parameter)
  · obtain ⟨earlier, there, named⟩ := List.mem_map.mp assigned
    have inside : earlier ∈ program.statements := listed ▸ List.mem_append_left _ there
    obtain ⟨field, known, same, full, -⟩ := statement_assignable done earlier inside
    refine ⟨field, known, same.trans named, fun zero => ?_, fun _ => ⟨earlier, inside, ?_, named⟩⟩
    · cases full.symm.trans zero
    · exact (List.pairwise_append.mp ordered).2.2 earlier there place List.mem_cons_self

/-- No two fields, scalars or externals have one name. -/
theorem nodup_names (done : ofDefinition? definition given signature = .ok (program, resolved)) :
    (program.fields.map Field.name ++ program.scalars.map Scalar.name ++ resolved.names).Nodup := by
  obtain ⟨last, fields, externals, scalars, start, tracks, -⟩ := ofDefinition?_tracks done
  obtain ⟨free, values, -⟩ := ofDefinition?_eq_ok done
  have distinct := (nodup_of_clash? free).1
  rw [names_bindings, List.append_assoc] at distinct
  obtain ⟨-, distinct, -⟩ := List.nodup_append.mp distinct
  obtain ⟨nodupScalars, -, apart⟩ := List.nodup_append.mp distinct
  have scalarNames : program.scalars.map Scalar.name =
      definition.scalars.map Definition.ScalarParameter.name := by
    rw [start]
    unfold Scope.start
    rw [List.map_map]
    rfl
  refine List.nodup_append.mpr ⟨List.nodup_append.mpr
    ⟨fields ▸ tracks.orderly.distinct, scalarNames ▸ nodupScalars, ?_⟩, resolved.nodup_names, ?_⟩
  · rintro other inside _ scalar rfl
    obtain ⟨field, member, rfl⟩ := List.mem_map.mp inside
    refine (tracks.apart field (fields ▸ member)).1 ?_
    rw [scalars]
    exact List.mem_map.mp scalar
  · rintro other inside _ external rfl
    obtain ⟨value, known⟩ := Name.Table.mem_names.mp external
    rcases List.mem_append.mp inside with ofField | ofScalar
    · obtain ⟨field, member, rfl⟩ := List.mem_map.mp ofField
      have unknown := (tracks.apart field (fields ▸ member)).2
      rw [externals, known] at unknown
      cases unknown
    · have declared := (resolved_iff values).mp fun absurd => nomatch known.symm.trans absurd
      exact apart _ (scalarNames ▸ ofScalar) _ declared rfl

/-- **The parameters come first**, in the roles that the targets give them, and the temporaries are
all other targets. -/
theorem fields_eq (done : ofDefinition? definition given signature = .ok (program, resolved)) :
    program.fields = definition.fields.map (fun field =>
        ⟨field.name, (signature.get? field.name).getD field.type, field.dimensions,
          if field.name ∈ program.targetNames then .output else .input⟩) ++
        program.temporaries ∧
      ∀ name, name ∈ program.temporaries.map Field.name ↔
        name ∈ program.targetNames ∧
          name ∉ definition.fields.map Definition.FieldParameter.name := by
  obtain ⟨last, fields, -, -, -, tracks, -⟩ := ofDefinition?_tracks done
  obtain ⟨temporaries, split, all⟩ := tracks.fields
  rw [fields] at split
  have same : program.temporaries = temporaries := by
    unfold Program.temporaries
    rw [split, List.filter_append, List.filter_eq_nil_iff.mpr, List.nil_append,
      List.filter_eq_self.mpr fun field member => beq_iff_eq.mpr (all field member).1]
    intro field member
    obtain ⟨parameter, -, rfl⟩ := List.mem_map.mp member
    exact fun absurd => Field.turned_ne_temporary _ parameter (beq_iff_eq.mp absurd)
  rw [same]
  have parameters : (Scope.start definition resolved signature).fields.map
      (Field.turned program.targetNames) = definition.fields.map fun field =>
        ⟨field.name, (signature.get? field.name).getD field.type, field.dimensions,
          if field.name ∈ program.targetNames then .output else .input⟩ := by
    unfold Scope.start
    rw [List.map_map]
    rfl
  refine ⟨parameters ▸ split, fun name => ⟨fun there => ?_, fun ⟨assigned, unlisted⟩ => ?_⟩⟩
  · obtain ⟨field, member, rfl⟩ := List.mem_map.mp there
    have inside : field ∈ last.fields := by
      rw [fields, split]
      exact List.mem_append_right _ member
    refine ⟨(all field member).2, fun parameter => ?_⟩
    rcases tracks.parameter_or_temporary inside with ⟨turned, -, equal⟩ | ⟨-, -, others⟩
    · rw [equal] at member
      exact Field.turned_ne_temporary _ turned (all _ member).1
    · obtain ⟨declared, known, named⟩ := List.mem_map.mp parameter
      exact others _ (List.mem_map_of_mem known) named
  · obtain ⟨place, member, rfl⟩ := List.mem_map.mp assigned
    obtain ⟨field, known, named, -⟩ := statement_assignable done place member
    rcases tracks.parameter_or_temporary (fields ▸ known) with ⟨turned, inside, rfl⟩ | temporary
    · obtain ⟨declared, listed, rfl⟩ := List.mem_map.mp inside
      exact absurd (List.mem_map.mpr ⟨declared, listed, named⟩) unlisted
    · refine List.mem_map.mpr ⟨field, same ▸ List.mem_filter.mpr ⟨known, ?_⟩, named⟩
      exact beq_iff_eq.mpr temporary.1

/-- All names in the statements of a program are known. -/
theorem names_known (done : ofDefinition? definition given signature = .ok (program, resolved)) :
    program.NamesKnown := by
  intro statement member
  have listed : statement ∈ program.statements.map Prod.snd := map_statements program ▸ member
  obtain ⟨place, there, rfl⟩ := List.mem_map.mp listed
  obtain ⟨field, known, named, -⟩ := statement_assignable done place there
  exact ⟨⟨field, known, named⟩, (statement_refers done place there).imp
    (fun _ ⟨field, known, named, _⟩ => ⟨field, known, named⟩) fun _ scalar => scalar⟩

end

end Program

/-! ### Kernels -/

namespace Interface

theorem exists_slot {interface : Interface} {name : String}
    (known : ∃ field ∈ interface.fields, field.name = name) :
    ∃ slot, interface.slot? name = some slot := by
  obtain ⟨field, member, named⟩ := known
  refine Option.isSome_iff_exists.mp ?_
  unfold slot?
  rw [List.findIdx?_isSome]
  exact List.any_eq_true.mpr ⟨field, member, beq_iff_eq.mpr named⟩

theorem exists_scalarSlot {interface : Interface} {name : String}
    (known : Program.HasScalar interface.scalars name) :
    ∃ slot, interface.scalarSlot? name = some slot := by
  obtain ⟨scalar, member, named⟩ := known
  refine Option.isSome_iff_exists.mp ?_
  unfold scalarSlot?
  rw [List.findIdx?_isSome]
  exact List.any_eq_true.mpr ⟨scalar, member, beq_iff_eq.mpr named⟩

end Interface

/-- There is a tree for an expression that refers to known names. -/
theorem Tree.ofExpr?_isOk {interface : Interface} {expr : Program.Expr}
    (refers : expr.Refers (fun read => ∃ field ∈ interface.fields, field.name = read.field)
      (Program.HasScalar interface.scalars)) : ∃ tree, ofExpr? interface expr = .ok tree := by
  induction expr with
  | field name offset =>
    obtain ⟨slot, found⟩ := Interface.exists_slot refers
    unfold ofExpr?
    rw [found]
    exact ⟨_, rfl⟩
  | scalar name =>
    obtain ⟨slot, found⟩ := Interface.exists_scalarSlot refers
    unfold ofExpr?
    rw [found]
    exact ⟨_, rfl⟩
  | literal value => exact ⟨_, rfl⟩
  | unary op arg ih => exact Steps.bind_isOk (ih refers) fun _ => ⟨_, rfl⟩
  | binary op left right ihLeft ihRight =>
    exact Steps.bind_isOk (ihLeft refers.1) fun _ =>
      Steps.bind_isOk (ihRight refers.2) fun _ => ⟨_, rfl⟩
  | select condition whenTrue whenFalse ihCondition ihTrue ihFalse =>
    exact Steps.bind_isOk (ihCondition refers.1) fun _ =>
      Steps.bind_isOk (ihTrue refers.2.1) fun _ =>
        Steps.bind_isOk (ihFalse refers.2.2) fun _ => ⟨_, rfl⟩

/-- **A schedule can be built if all statements refer to known names.** -/
theorem Schedule.ofProgram?_isOk_of_refers {interface : Interface} {program : Program}
    (demand : Demand) (resolved : ∀ statement ∈ program.bodies.flatten,
      (∃ field ∈ interface.fields, field.name = statement.target) ∧
        statement.value.Refers (fun read => ∃ field ∈ interface.fields, field.name = read.field)
          (Program.HasScalar interface.scalars)) :
    ∃ schedule, ofProgram? .debug interface program demand = .ok schedule := by
  unfold ofProgram?
  refine Steps.bind_isOk (Steps.mapM_isOk.mpr fun (block, b) inProgram => ?_) fun _ => ⟨_, rfl⟩
  refine Steps.bind_isOk (Steps.mapM_isOk.mpr fun (part, i) inBlock => ?_) fun _ => ⟨_, rfl⟩
  refine Steps.bind_isOk ?_ fun _ => ⟨_, rfl⟩
  rw [stagesOf?_eq]
  refine Steps.mapM_isOk.mpr fun live member => ?_
  obtain ⟨position, there, -⟩ := Program.mem_liveOnes.mp member
  obtain ⟨-, -, found⟩ := Program.mem_positioned.mp there
  have inside : live.1 ∈ program.bodies.flatten :=
    List.mem_flatten.mpr ⟨part.body, List.mem_flatMap.mpr
      ⟨block, (List.mem_zipIdx_iff_getElem?.mp inProgram |> List.mem_of_getElem?),
        List.mem_map_of_mem (List.mem_zipIdx_iff_getElem?.mp inBlock |> List.mem_of_getElem?)⟩,
      List.mem_of_getElem? found⟩
  obtain ⟨target, refers⟩ := resolved live.1 inside
  exact stageOf?_isOk.mpr ⟨Interface.exists_slot target, Tree.ofExpr?_isOk refers⟩

/-- **Both backends make a kernel** of a context with a demand in which all names are known. -/
theorem Kernel.ofContext?_isOk_of_refers (backend : Backend) {context : Context} {demand : Demand}
    (known : context.demand = some demand) (resolved : context.program.NamesKnown) :
    ∃ kernel, ofContext? backend context = .ok kernel := by
  refine ofContext?_isOk .debug backend ?_
  have required : context.requireDemand = .ok demand := by
    unfold Context.requireDemand
    rw [known]
  obtain ⟨interface, face⟩ : ∃ interface, Interface.ofContext? context = .ok interface :=
    ⟨_, Steps.bind_eq_ok.mpr ⟨demand, required, rfl⟩⟩
  obtain ⟨fields, scalars, -⟩ := Interface.ofContext?_eq_ok known face
  have slots : ∀ name, (∃ field ∈ context.program.fields, field.name = name) →
      ∃ field ∈ interface.fields, field.name = name := by
    rintro name ⟨field, member, named⟩
    exact ⟨_, fields ▸ List.mem_map_of_mem member, named⟩
  obtain ⟨schedule, scheduled⟩ := Schedule.ofProgram?_isOk_of_refers demand
    fun statement member => (resolved statement member).imp (slots statement.target)
      (·.imp (fun read => slots read.field) fun _ scalar => scalars ▸ scalar)
  exact ⟨_, Steps.bind_eq_ok.mpr ⟨interface, face,
    Steps.bind_eq_ok.mpr ⟨demand, required, Steps.bind_eq_ok.mpr ⟨schedule, scheduled, rfl⟩⟩⟩⟩

/-! ### Definitions -/

namespace Context

open Program

/-- What holds of the context of a definition. -/
structure Resolved (definition : Definition) (signature : Signature) (context : Context) :
    Prop where
  /-- No two fields, scalars or externals have one name. -/
  distinct : (context.program.fields.map Field.name ++ context.program.scalars.map Scalar.name ++
    context.externals.names).Nodup
  /-- The parameters come first, in order, and are outputs if and only if they are assigned. -/
  fields : context.program.fields =
    definition.fields.map (fun field => ⟨field.name, (signature.get? field.name).getD field.type,
      field.dimensions, if field.name ∈ context.program.targetNames then .output else .input⟩) ++
      context.program.temporaries
  /-- The temporaries are all other targets. -/
  temporaries : ∀ name, name ∈ context.program.temporaries.map Field.name ↔
    name ∈ context.program.targetNames ∧
      name ∉ definition.fields.map Definition.FieldParameter.name
  /-- Targets have axes and are no inputs. -/
  targets : ∀ place ∈ context.program.statements,
    Assignable context.program.fields place.2.target
  /-- What a statement refers to is known. A field without axes is read at no offset, and a temporary
  behind a statement that assigns it. -/
  refers : ∀ place ∈ context.program.statements, place.2.value.Refers
    (fun read => ∃ field ∈ context.program.fields, field.name = read.field ∧
      (field.dimensions = .zero → read.offset = .zero) ∧
      (field.role = .temporary → ∃ earlier ∈ context.program.statements,
        earlier.1.Before place.1 ∧ earlier.2.target = read.field))
    (HasScalar context.program.scalars)
  /-- Bounds lie inside a domain that has enough planes. -/
  bounds : ∀ block ∈ context.program.blocks, ∀ part ∈ block.sections,
    part.interval.start.Inward ∧ part.interval.stop.Inward
  /-- Both backends make a kernel, whatever demand is attached. -/
  kernels : ∀ backend demand minPlanes, ∃ kernel,
    Kernel.ofContext? backend { context with demand := some demand, minPlanes } = .ok kernel

/-- **The context of every definition is resolved.** -/
theorem ofDefinition?_resolved {definition : Definition} {externals : Externals}
    {signature : Signature} {context : Context}
    (done : ofDefinition? definition externals signature = .ok context) :
    context.Resolved definition signature := by
  obtain ⟨program, resolved, lowered, rfl⟩ : ∃ program resolved,
      Program.ofDefinition? definition externals signature = .ok (program, resolved) ∧
        (⟨program, resolved, signature, none, 0⟩ : Context) = context := by
    unfold ofDefinition? at done
    split at done
    next program resolved lowered => exact ⟨program, resolved, lowered, Except.ok.inj done⟩
    · cases done
  obtain ⟨fields, temporaries⟩ := fields_eq lowered
  exact ⟨nodup_names lowered, fields, temporaries, statement_assignable lowered,
    statement_refers lowered, (ofDefinition?_wellFormed lowered).bounds,
    fun backend demand minPlanes => Kernel.ofContext?_isOk_of_refers backend rfl (names_known lowered)⟩

/-- A branch in which both sides assign a temporary that is read at an offset behind it, with a
field without axes, a scalar, and an external that bounds the planes. -/
def mixed : Definition where
  source := ⟨"", ""⟩
  name := "mixed"
  fields := [⟨"a", .f64, .ijk, ⟨0, 0⟩⟩, ⟨"c", .f64, .zero, ⟨0, 0⟩⟩, ⟨"x", .f64, .ijk, ⟨0, 0⟩⟩]
  scalars := [⟨"w", .f64, ⟨0, 0⟩⟩]
  externals := [("n", ⟨0, 0⟩)]
  computations := [⟨"PARALLEL", [⟨.between (.external "n" ⟨0, 0⟩) .top,
    [.branch (.binary .gt (.name "a" ⟨0, 0⟩) (.name "c" ⟨0, 0⟩) ⟨0, 0⟩)
      [.assign "t" none (.binary .mul (.name "a" ⟨0, 0⟩) (.name "w" ⟨0, 0⟩) ⟨0, 0⟩) ⟨0, 0⟩]
      [.assign "t" none (.name "c" ⟨0, 0⟩) ⟨0, 0⟩] ⟨0, 0⟩,
      .assign "x" none (.access "t" ⟨1, 0, 0⟩ ⟨0, 0⟩) ⟨0, 0⟩], ⟨0, 0⟩⟩], ⟨0, 0⟩⟩]
  span := ⟨0, 0⟩

/-- The context of `mixed`, with narrow values of `a`. -/
theorem ofDefinition?_resolved_mixed : ∃ context,
    ofDefinition? mixed (.ofList [("n", .int 1)]) (.ofList [("a", .f32)]) = .ok context ∧
      context.program.targetNames = ["__cond0", "t", "t", "x"] ∧
      context.Resolved mixed (.ofList [("a", .f32)]) := by
  have known : (ofDefinition? mixed (.ofList [("n", .int 1)]) (.ofList [("a", .f32)])).toOption.map
      (·.program.targetNames) = some ["__cond0", "t", "t", "x"] := by decide +kernel
  cases done : ofDefinition? mixed (.ofList [("n", .int 1)]) (.ofList [("a", .f32)]) with
  | error error =>
    rw [done] at known
    cases known
  | ok context =>
    rw [done] at known
    exact ⟨context, rfl, Option.some.inj known, ofDefinition?_resolved done⟩

end Context

end GridStencil
