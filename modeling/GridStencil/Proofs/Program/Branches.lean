import GridStencil.Proofs.Hygiene

/-!
**Which branches are rejected.**

A branch is uneven if a name that is neither bound nor assigned on every way to it is assigned on
every way through one of its sides only (`Fork.OneSided`). Such a branch is rejected. So is every
branch with another branch in one of its sides (`Fork.Nested`), however evenly their targets are
assigned: the temporary for the condition of the inner branch counts as a name that is assigned on
that side only.

Scopes are followed along the text. Of the names that the text knows, exactly those are defined that
are assigned on every way and not bound (`Follows`), and every other defined name is that of a
condition, which was in use at no earlier place (`Gains`).

* `lower_judged`: what one statement adds, and which of its branches it is rejected for.
* `rejects_uneven_forks`: a definition on which nothing else fails is rejected exactly if some branch
  of it is uneven, and the first of these branches is blamed.
-/

namespace GridStencil

namespace Definition

mutual

/-- The names that are assigned on every way through a statement. -/
def Statement.surely : Statement → List String
  | .assign target _ _ _ => [target]
  | .branch _ whenTrue whenFalse _ =>
    (Statement.listSurely whenTrue).filter (· ∈ Statement.listSurely whenFalse)

/-- The names that are assigned on every way through some statements. -/
def Statement.listSurely : List Statement → List String
  | [] => []
  | statement :: rest => statement.surely ++ Statement.listSurely rest

end

/-- Whether a statement is a branch. -/
def Statement.isBranch : Statement → Bool
  | .assign .. => false
  | .branch .. => true

/-- A branch at some place of a text. -/
structure Fork where
  /-- The names that are assigned on every way to the branch. -/
  before : List String
  whenTrue : List Statement
  whenFalse : List Statement
  span : Span

mutual

/-- The branches in a statement, those in its sides before the statement itself. -/
def Statement.forks (before : List String) : Statement → List Fork
  | .assign .. => []
  | .branch _ whenTrue whenFalse span =>
    Statement.listForks before whenTrue ++ Statement.listForks before whenFalse ++
      [⟨before, whenTrue, whenFalse, span⟩]

/-- The branches in some statements. -/
def Statement.listForks (before : List String) : List Statement → List Fork
  | [] => []
  | statement :: rest =>
    statement.forks before ++ Statement.listForks (before ++ statement.surely) rest

end

/-- The branches of a definition. -/
def forks (definition : Definition) : List Fork :=
  Statement.listForks [] definition.bodies.flatten

namespace Fork

/-- Whether a name that the definition does not bind is first assigned by one side of a branch
alone. -/
def OneSided (definition : Definition) (fork : Fork) (name : String) : Prop :=
  name ∉ fork.before ∧ ¬ definition.Binds name ∧
    ¬ (name ∈ Statement.listSurely fork.whenTrue ↔ name ∈ Statement.listSurely fork.whenFalse)

/-- Whether a side of a branch has a branch. -/
def Nested (fork : Fork) : Prop :=
  ∃ statement ∈ fork.whenTrue ++ fork.whenFalse, statement.isBranch = true

/-- Whether a branch is rejected. -/
def Uneven (definition : Definition) (fork : Fork) : Prop :=
  (∃ name, fork.OneSided definition name) ∨ fork.Nested

end Fork

theorem Statement.listSurely_append (body more : List Statement) :
    listSurely (body ++ more) = listSurely body ++ listSurely more := by
  induction body with
  | nil => rfl
  | cons statement rest ih =>
    rw [List.cons_append, listSurely, listSurely, ih, List.append_assoc]

theorem Statement.listForks_append (before : List String) (body more : List Statement) :
    listForks before (body ++ more) =
      listForks before body ++ listForks (before ++ listSurely body) more := by
  induction body generalizing before with
  | nil =>
    rw [listSurely, List.append_nil]
    rfl
  | cons statement rest ih =>
    rw [List.cons_append, listForks, listForks, ih, listSurely, List.append_assoc,
      List.append_assoc]

mutual

theorem Statement.surely_subset_targets (statement : Statement) :
    statement.surely ⊆ Program.targets statement := by
  match statement with
  | .assign target offset value span =>
    unfold surely Program.targets
    exact List.Subset.refl _
  | .branch condition whenTrue whenFalse span =>
    unfold surely Program.targets
    intro name there
    exact List.mem_append_left _ (listSurely_subset_targets whenTrue (List.mem_filter.mp there).1)

theorem Statement.listSurely_subset_targets (body : List Statement) :
    listSurely body ⊆ Program.targetsAll body := by
  match body with
  | [] =>
    unfold listSurely
    exact List.nil_subset _
  | statement :: rest =>
    unfold listSurely Program.targetsAll
    exact List.append_subset.mpr
      ⟨List.Subset.trans (surely_subset_targets statement) (List.subset_append_left _ _),
        List.Subset.trans (listSurely_subset_targets rest) (List.subset_append_right _ _)⟩

end

end Definition

namespace Program

open Definition (Fork)
open Definition.Statement (listSurely listForks)

/-! ### Faults of other checks -/

/-- A step that no branch makes fail. -/
def Harmless {α : Type} (step : Except Fault α) : Prop :=
  ∀ span name, step ≠ .error ⟨span, .assignedInOneBranch name⟩

theorem Harmless.bind {α β : Type} {first : Except Fault α} {second : α → Except Fault β}
    (harmless : Harmless first) (behind : ∀ a, Harmless (second a)) :
    Harmless (first >>= second) := by
  intro span name failed
  rcases Steps.bind_eq_error.mp failed with failed | ⟨a, -, failed⟩
  · exact harmless span name failed
  · exact behind a span name failed

theorem harmless_ok {α : Type} (a : α) : Harmless (.ok a) := fun _ _ absurd => nomatch absurd

theorem harmless_located {α : Type} {step : Except Cause α} (span : Span)
    (harmless : ∀ name, step ≠ .error (.assignedInOneBranch name)) :
    Harmless (located span step) := by
  intro span' name failed
  cases step with
  | ok a => cases failed
  | error cause =>
    cases failed
    exact harmless name rfl

namespace Scope

variable (scope : Scope)

theorem read_harmless (name : String) (offset : Option Offset) (span : Span) :
    Harmless (located span (scope.read name offset)) := by
  refine harmless_located span fun other failed => ?_
  unfold read at failed
  dsimp only at failed
  repeat' split at failed
  all_goals cases failed

theorem resolve_harmless (source : Definition.Expr) : Harmless (scope.resolve source) := by
  induction source with
  | literal value span => exact harmless_ok _
  | name name span => exact scope.read_harmless name none span
  | access name offset span => exact scope.read_harmless name (some offset) span
  | unary op arg span ih => exact ih.bind fun _ => harmless_ok _
  | binary op left right span ihLeft ihRight =>
    exact ihLeft.bind fun _ => ihRight.bind fun _ => harmless_ok _
  | conditional condition whenTrue whenFalse span ihCondition ihTrue ihFalse =>
    exact ihCondition.bind fun _ => ihTrue.bind fun _ => ihFalse.bind fun _ => harmless_ok _

theorem assign_harmless (target : String) (span : Span) :
    Harmless (located span (scope.assign target)) := by
  have define : ∀ (scope : Scope) name, scope.define target ≠ .error (.assignedInOneBranch name) := by
    intro scope name failed
    unfold Scope.define at failed
    repeat' split at failed
    all_goals cases failed
  refine harmless_located span fun name failed => ?_
  unfold assign at failed
  split at failed
  all_goals
    rcases Steps.bind_eq_error.mp failed with failed | ⟨after, -, failed⟩
    · exact define _ name failed
    · cases failed

theorem bound_harmless (bound : Definition.Bound) : Harmless (scope.bound bound) := by
  intro span name failed
  unfold Scope.bound at failed
  repeat' split at failed
  all_goals cases failed

theorem interval_harmless (range : Definition.Range) : Harmless (scope.interval range) := by
  cases range with
  | full => exact harmless_ok _
  | between lower upper =>
    exact (scope.bound_harmless lower).bind fun _ =>
      (scope.bound_harmless upper).bind fun _ => harmless_ok _

end Scope

/-! ### Scopes -/

theorem mem_of_oneSided {a b : List String} {name : String} (found : oneSided a b = some name) :
    ¬ (name ∈ a ↔ name ∈ b) := by
  have inside := List.mem_mergeSort.mp (List.mem_of_head? found)
  rcases List.mem_append.mp inside with left | right
  · obtain ⟨here, notThere⟩ := List.mem_filter.mp left
    exact fun same => of_decide_eq_true notThere (same.mp here)
  · obtain ⟨here, notThere⟩ := List.mem_filter.mp right
    exact fun same => of_decide_eq_true notThere (same.mpr here)

theorem mem_iff_of_oneSided {a b : List String} (agreed : oneSided a b = none) (name : String) :
    name ∈ a ↔ name ∈ b := by
  have sorted := List.mergeSort_perm ((a.filter fun name => name ∉ b) ++ b.filter fun name => name ∉ a)
    fun first second => decide (first ≤ second)
  unfold oneSided at agreed
  rw [List.head?_eq_none_iff.mp agreed] at sorted
  have nothing := sorted.nil_eq.symm
  obtain ⟨noLeft, noRight⟩ := List.append_eq_nil_iff.mp nothing
  constructor
  · intro here
    by_contra notThere
    exact List.filter_eq_nil_iff.mp noLeft name here (decide_eq_true notThere)
  · intro here
    by_contra notThere
    exact List.filter_eq_nil_iff.mp noRight name here (decide_eq_true notThere)

namespace Scope

variable {scope after : Scope} {name : String}

theorem mem_holding {other : String} :
    other ∈ (scope.holding name).defined ↔ other = name ∨ other ∈ scope.defined := by
  unfold holding
  split
  next there => exact ⟨.inr, fun either => either.elim (fun same => same ▸ there) id⟩
  · exact List.mem_cons

/-- **An assignment defines its target**, unless that is a parameter. -/
theorem define_defined (orderly : scope.Orderly) (done : scope.define name = .ok after)
    (other : String) : other ∈ after.defined ↔
      other ∈ scope.defined ∨ other = name ∧ ¬ HasParameter scope.fields name := by
  unfold define at done
  split at done
  · cases done
  split at done
  · cases done
  split at done
  next missing =>
    cases done
    have free : ¬ HasParameter scope.fields name := fun ⟨field, member, named, _⟩ =>
      field?_eq_none missing field member named
    rw [and_iff_left free, or_comm]
    exact mem_holding
  next field found =>
    obtain ⟨member, named⟩ := field?_eq_some found
    split at done
    · cases done
    · split at done
      next input =>
        cases done
        have parameter : HasParameter scope.fields name :=
          ⟨field, member, named, by rw [input]; decide⟩
        exact ⟨.inl, fun either => either.resolve_right fun both => both.2 parameter⟩
      next output =>
        cases done
        have parameter : HasParameter scope.fields name :=
          ⟨field, member, named, by rw [output]; decide⟩
        exact ⟨.inl, fun either => either.resolve_right fun both => both.2 parameter⟩
      next temporary =>
        cases done
        have free : ¬ HasParameter scope.fields name := by
          rintro ⟨other, there, named', role⟩
          rw [eq_of_name orderly.distinct there member (named'.trans named.symm)] at role
          exact role temporary
        rw [and_iff_left free, or_comm]
        exact mem_holding

theorem assign_defined {current : Expr} (orderly : scope.Orderly)
    (done : scope.assign name = .ok (current, after)) (other : String) :
    other ∈ after.defined ↔
      other ∈ scope.defined ∨ other = name ∧ ¬ HasParameter scope.fields name := by
  unfold assign at done
  split at done
  · obtain ⟨next, defined, same⟩ := Steps.bind_eq_ok.mp done
    cases same
    exact define_defined (orderly_of_eq orderly
      { scope with assigned := name :: scope.assigned } rfl rfl).1 defined other
  · obtain ⟨next, defined, same⟩ := Steps.bind_eq_ok.mp done
    cases same
    exact define_defined orderly defined other

/-- What is assigned is no scalar and no external. -/
theorem assign_field {current : Expr} (done : scope.assign name = .ok (current, after)) :
    ¬ HasScalar scope.scalars name ∧ scope.externals.get? name = none := by
  have define : ∀ (other : Scope), other.scalars = scope.scalars →
      other.externals = scope.externals → (∃ next, other.define name = .ok next) →
        ¬ HasScalar scope.scalars name ∧ scope.externals.get? name = none := by
    rintro other scalars externals ⟨next, defined⟩
    unfold Scope.define at defined
    rw [← scalars, ← externals]
    split at defined
    · cases defined
    next noScalar =>
      split at defined
      · cases defined
      next noExternal =>
        exact ⟨fun scalar => noScalar (hasScalar_iff.mpr scalar),
          Option.not_isSome_iff_eq_none.mp noExternal⟩
  unfold assign at done
  split at done
  · obtain ⟨next, defined, -⟩ := Steps.bind_eq_ok.mp done
    exact define { scope with assigned := name :: scope.assigned } rfl rfl ⟨next, defined⟩
  · obtain ⟨next, defined, -⟩ := Steps.bind_eq_ok.mp done
    exact define scope rfl rfl ⟨next, defined⟩

theorem openCondition_defined (other : String) : other ∈ scope.openCondition.2.defined ↔
    other = scope.openCondition.1 ∨ other ∈ scope.defined :=
  mem_holding

end Scope

variable (definition : Definition)

/-- What a scope says about the names that the definition knows, where those in `before` are assigned
on every way. -/
structure Follows (before : List String) (scope : Scope) : Prop where
  orderly : scope.Orderly
  avoids : namesIn definition ⊆ scope.fresh.taken
  taken : scope.defined ⊆ scope.fresh.taken
  binds : ∀ name, definition.Binds name ↔ HasParameter scope.fields name ∨
    HasScalar scope.scalars name ∨ scope.externals.get? name ≠ none
  defined : ∀ name ∈ namesIn definition,
    name ∈ scope.defined ↔ name ∈ before ∧ ¬ definition.Binds name

/-- What a part of a text adds to a scope. Names that the definition does not know come from its
branches, each of which adds one; they were in use at no earlier place. -/
structure Gains (branches : Prop) (scope after : Scope) : Prop where
  keeps : scope.defined ⊆ after.defined
  grows : scope.fresh.taken ⊆ after.fresh.taken
  known : ∀ name ∈ after.defined, name ∉ scope.defined →
    name ∈ namesIn definition ∨ branches ∧ name ∉ scope.fresh.taken
  condition : branches → ∃ name ∈ after.defined, name ∉ scope.fresh.taken

variable {definition} {before more : List String} {scope after last : Scope}

theorem Gains.refl (scope : Scope) : Gains definition False scope scope :=
  ⟨List.Subset.refl _, List.Subset.refl _, fun _ there new => absurd there new, False.elim⟩

theorem Gains.trans {branches branches' : Prop} (first : Gains definition branches scope after)
    (second : Gains definition branches' after last) :
    Gains definition (branches ∨ branches') scope last where
  keeps := List.Subset.trans first.keeps second.keeps
  grows := List.Subset.trans first.grows second.grows
  known := by
    intro name there new
    by_cases middle : name ∈ after.defined
    · exact (first.known name middle new).imp_right fun both => ⟨.inl both.1, both.2⟩
    · exact (second.known name there middle).imp_right fun both =>
        ⟨.inr both.1, fun used => both.2 (first.grows used)⟩
  condition := by
    rintro (here | later)
    · obtain ⟨name, there, free⟩ := first.condition here
      exact ⟨name, second.keeps there, free⟩
    · obtain ⟨name, there, free⟩ := second.condition later
      exact ⟨name, there, fun used => free (first.grows used)⟩

/-- A scope is followed by its fields and by what is defined. -/
theorem Follows.later (follows : Follows definition before scope) (orderly : after.Orderly)
    (precedes : scope.Precedes after) (grows : scope.fresh.taken ⊆ after.fresh.taken)
    (taken : after.defined ⊆ after.fresh.taken)
    (defined : ∀ name ∈ namesIn definition,
      name ∈ after.defined ↔ name ∈ more ∧ ¬ definition.Binds name) :
    Follows definition more after where
  orderly := orderly
  avoids := List.Subset.trans follows.avoids grows
  taken := taken
  binds name := by
    rw [follows.binds, precedes.parameters, precedes.scalars, precedes.externals]
  defined := defined

theorem Follows.redefined (follows : Follows definition before scope) {defined : List String}
    (taken : defined ⊆ scope.fresh.taken)
    (exact : ∀ name ∈ namesIn definition, name ∈ defined ↔ name ∈ more ∧ ¬ definition.Binds name) :
    Follows definition more { scope with defined } :=
  follows.later (Scope.orderly_of_eq follows.orderly { scope with defined } rfl rfl).1
    (Scope.precedes_defined scope defined) (List.Subset.refl _) taken exact

/-- What an assignment adds. -/
theorem Follows.assign (follows : Follows definition before scope) {target : String}
    {current : Expr} (known : target ∈ namesIn definition)
    (done : scope.assign target = .ok (current, after)) :
    Follows definition (before ++ [target]) after ∧ Gains definition False scope after := by
  have used := follows.avoids known
  obtain ⟨orderly, grows, -⟩ := Scope.assign_orderly follows.orderly used done
  have adds := Scope.assign_defined follows.orderly done
  have binds : definition.Binds target ↔ HasParameter scope.fields target := by
    obtain ⟨noScalar, noExternal⟩ := Scope.assign_field done
    rw [follows.binds]
    exact or_iff_left fun either => either.elim noScalar fun external => external noExternal
  refine ⟨follows.later orderly (Scope.assign_spec follows.orderly done).1 grows.used
    (fun name there => ?_) (fun name inside => ?_), fun name there => (adds name).mpr (.inl there),
    grows.used, fun name there new => ?_, False.elim⟩
  · rcases (adds name).mp there with old | ⟨rfl, -⟩
    · exact grows.used (follows.taken old)
    · exact grows.used used
  · rw [adds, follows.defined name inside, List.mem_append, List.mem_singleton, ← binds]
    constructor
    · rintro (⟨there, free⟩ | ⟨rfl, free⟩)
      · exact ⟨.inl there, free⟩
      · exact ⟨.inr rfl, free⟩
    · rintro ⟨there | rfl, free⟩
      · exact .inl ⟨there, free⟩
      · exact .inr ⟨rfl, free⟩
  · obtain ⟨rfl, -⟩ := ((adds name).mp there).resolve_left new
    exact .inl known

/-- A condition defines a name that the definition does not know. -/
theorem Follows.openCondition (follows : Follows definition before scope) :
    Follows definition before scope.openCondition.2 ∧
      Gains definition True scope scope.openCondition.2 := by
  obtain ⟨orderly, grows, -⟩ := Scope.openCondition_orderly follows.orderly
  obtain ⟨precedes, -, free, used, -⟩ := Scope.openCondition_spec scope
  have adds := @Scope.openCondition_defined scope
  refine ⟨follows.later orderly precedes grows.used (fun name there => ?_) (fun name inside => ?_),
    fun name there => (adds name).mpr (.inr there), grows.used, fun name there new => ?_,
    fun _ => ⟨_, (adds _).mpr (.inl rfl), free⟩⟩
  · rcases (adds name).mp there with rfl | old
    · exact used
    · exact grows.used (follows.taken old)
  · rw [adds, ← follows.defined name inside]
    refine or_iff_right ?_
    rintro rfl
    exact free (follows.avoids inside)
  · rw [((adds name).mp there).resolve_right new]
    exact .inr ⟨trivial, free⟩

/-! ### Branches -/

variable (definition) in
/-- Whether the first uneven branch among some is blamed for a name. The name is one that a side alone
assigns, or one that the definition does not know. -/
def Blames (forks : List Fork) (span : Span) (name : String) : Prop :=
  ∃ earlier fork later, forks = earlier ++ fork :: later ∧
    (∀ other ∈ earlier, ¬ other.Uneven definition) ∧ fork.Uneven definition ∧ span = fork.span ∧
      (fork.OneSided definition name ∨ definition.Unknown name ∧ fork.Nested)

theorem Blames.append_right {forks : List Fork} {span : Span} {name : String}
    (blames : Blames definition forks span name) (more : List Fork) :
    Blames definition (forks ++ more) span name := by
  obtain ⟨earlier, fork, later, rfl, rest⟩ := blames
  refine ⟨earlier, fork, later ++ more, ?_, rest⟩
  rw [List.append_assoc, List.cons_append]

theorem Blames.append_left {forks more : List Fork} {span : Span} {name : String}
    (blames : Blames definition more span name) (even : ∀ fork ∈ forks, ¬ fork.Uneven definition) :
    Blames definition (forks ++ more) span name := by
  obtain ⟨earlier, fork, later, rfl, fine, rest⟩ := blames
  refine ⟨forks ++ earlier, fork, later, (List.append_assoc _ _ _).symm, ?_, rest⟩
  exact List.forall_mem_append.mpr ⟨even, fine⟩

/-- Whether some statement of a body is a branch. -/
def HasBranch (body : List Definition.Statement) : Prop :=
  ∃ statement ∈ body, statement.isBranch = true

theorem hasBranch_append (body rest : List Definition.Statement) :
    HasBranch (body ++ rest) ↔ HasBranch body ∨ HasBranch rest := by
  unfold HasBranch
  simp only [List.mem_append, or_and_right, exists_or]

theorem hasBranch_assign (target : String) (offset : Option Offset) (value : Definition.Expr)
    (span : Span) : ¬ HasBranch [.assign target offset value span] := by
  rintro ⟨statement, member, isBranch⟩
  rw [List.mem_singleton.mp member] at isBranch
  cases isBranch

variable (definition) in
/-- What a step makes of a body: it goes on behind the body if all branches are even, and blames the
first uneven one else. -/
structure Judged {α : Type} (before : List String) (scope : Scope)
    (body : List Definition.Statement) (step : Except Fault (α × Scope)) : Prop where
  accepts : ∀ made after, step = .ok (made, after) →
    (∀ fork ∈ listForks before body, ¬ fork.Uneven definition) ∧
      Follows definition (before ++ listSurely body) after ∧
        Gains definition (HasBranch body) scope after
  rejects : ∀ span name, step = .error ⟨span, .assignedInOneBranch name⟩ →
    Blames definition (listForks before body) span name

theorem judged_nil {α : Type} (follows : Follows definition before scope) (made : α) :
    Judged definition before scope [] (.ok (made, scope)) where
  accepts := by
    intro made after done
    cases done
    have noBranch : HasBranch [] = False := eq_false fun ⟨_, absurd, _⟩ => nomatch absurd
    rw [listSurely, listForks, List.append_nil, noBranch]
    exact ⟨fun _ absurd => (nomatch absurd), follows, .refl scope⟩
  rejects _ _ absurd := nomatch absurd

/-- A step before which other checks are made. -/
theorem Judged.behind {α β : Type} {body : List Definition.Statement} {first : Except Fault α}
    {second : α → Except Fault (β × Scope)} (harmless : Harmless first)
    (judged : ∀ a, first = .ok a → Judged definition before scope body (second a)) :
    Judged definition before scope body (first >>= second) where
  accepts made after done := by
    obtain ⟨a, passed, done⟩ := Steps.bind_eq_ok.mp done
    exact (judged a passed).accepts made after done
  rejects span name failed := by
    rcases Steps.bind_eq_error.mp failed with failed | ⟨a, passed, failed⟩
    · exact absurd failed (harmless span name)
    · exact (judged a passed).rejects span name failed

/-- One body behind another. -/
theorem Judged.followed {α β γ : Type} {body rest : List Definition.Statement}
    {first : Except Fault (α × Scope)} {second : α → Scope → Except Fault (β × Scope)}
    (judged : Judged definition before scope body first)
    (behind : ∀ made middle, Follows definition (before ++ listSurely body) middle →
      Judged definition (before ++ listSurely body) middle rest (second made middle))
    (join : α → β → γ) :
    Judged definition before scope (body ++ rest) (do
      let (made, middle) ← first
      let (more, last) ← second made middle
      return (join made more, last)) where
  accepts := by
    intro made last done
    obtain ⟨⟨first, middle⟩, here, done⟩ := Steps.bind_eq_ok.mp done
    obtain ⟨⟨more, last⟩, later, same⟩ := Steps.bind_eq_ok.mp done
    cases same
    obtain ⟨even, follows, gains⟩ := judged.accepts first middle here
    obtain ⟨even', follows', gains'⟩ := (behind first middle follows).accepts more last later
    refine ⟨?_, ?_, ?_⟩
    · rw [Definition.Statement.listForks_append]
      exact List.forall_mem_append.mpr ⟨even, even'⟩
    · rw [Definition.Statement.listSurely_append, ← List.append_assoc]
      exact follows'
    · rw [hasBranch_append]
      exact gains.trans gains'
  rejects := by
    intro span name failed
    rw [Definition.Statement.listForks_append]
    rcases Steps.bind_eq_error.mp failed with failed | ⟨⟨first, middle⟩, here, failed⟩
    · exact (judged.rejects span name failed).append_right _
    · obtain ⟨even, follows, -⟩ := judged.accepts first middle here
      rcases Steps.bind_eq_error.mp failed with failed | ⟨⟨more, last⟩, -, absurd⟩
      · exact ((behind first middle follows).rejects span name failed).append_left even
      · cases absurd

section

variable {opened afterTrue afterFalse : Scope} {whenTrue whenFalse : List Definition.Statement}
  (followsTrue : Follows definition (before ++ listSurely whenTrue) afterTrue)
  (followsFalse : Follows definition (before ++ listSurely whenFalse) afterFalse)
  (gainsTrue : Gains definition (HasBranch whenTrue) opened afterTrue)
  (gainsFalse : Gains definition (HasBranch whenFalse) { afterTrue with defined := opened.defined }
    afterFalse)

include followsTrue followsFalse

/-- A name that the definition knows is defined behind one side alone if this side alone first assigns
it. -/
theorem oneSided_iff {name : String} (span : Span) (known : name ∈ namesIn definition) :
    Fork.OneSided definition ⟨before, whenTrue, whenFalse, span⟩ name ↔
      ¬ (name ∈ afterTrue.defined ↔ name ∈ afterFalse.defined) := by
  unfold Fork.OneSided
  rw [followsTrue.defined name known, followsFalse.defined name known, List.mem_append,
    List.mem_append]
  tauto

include gainsTrue gainsFalse

/-- Why two sides disagree on a name. -/
theorem oneSided_or_nested {name : String} (span : Span)
    (differs : ¬ (name ∈ afterTrue.defined ↔ name ∈ afterFalse.defined)) :
    Fork.OneSided definition ⟨before, whenTrue, whenFalse, span⟩ name ∨
      definition.Unknown name ∧ Fork.Nested ⟨before, whenTrue, whenFalse, span⟩ := by
  by_cases known : name ∈ namesIn definition
  · exact .inl ((oneSided_iff followsTrue followsFalse span known).mpr differs)
  refine .inr ⟨known, (hasBranch_append whenTrue whenFalse).mpr ?_⟩
  have new : name ∉ opened.defined := fun old =>
    differs (iff_of_true (gainsTrue.keeps old) (gainsFalse.keeps old))
  by_cases inTrue : name ∈ afterTrue.defined
  · exact .inl ((gainsTrue.known name inTrue new).resolve_left known).1
  · have inFalse : name ∈ afterFalse.defined := by
      by_contra notFalse
      exact differs (iff_of_false inTrue notFalse)
    exact .inr ((gainsFalse.known name inFalse new).resolve_left known).1

/-- **Sides that agree have no branch inside**: its condition would be defined behind one of them
alone, since the other side gives its conditions other names. -/
theorem even_of_agrees (span : Span) (follows : Follows definition before opened)
    (usedTrue : targetsAll whenTrue ⊆ namesIn definition)
    (usedFalse : targetsAll whenFalse ⊆ namesIn definition)
    (agrees : ∀ name, name ∈ afterTrue.defined ↔ name ∈ afterFalse.defined) :
    ¬ Fork.Uneven definition ⟨before, whenTrue, whenFalse, span⟩ := by
  rintro (⟨name, oneSided⟩ | nested)
  · have known : name ∈ namesIn definition := by
      by_contra unknown
      refine oneSided.2.2 (iff_of_false (fun inTrue => ?_) fun inFalse => ?_)
      · exact unknown (usedTrue (Definition.Statement.listSurely_subset_targets _ inTrue))
      · exact unknown (usedFalse (Definition.Statement.listSurely_subset_targets _ inFalse))
    exact (oneSided_iff followsTrue followsFalse span known).mp oneSided (agrees name)
  · rcases (hasBranch_append whenTrue whenFalse).mp nested with inTrue | inFalse
    · obtain ⟨name, there, free⟩ := gainsTrue.condition inTrue
      have new : name ∉ opened.defined := fun old => free (follows.taken old)
      rcases gainsFalse.known name ((agrees name).mp there) new with known | ⟨-, free'⟩
      · exact free (follows.avoids known)
      · exact free' (followsTrue.taken there)
    · obtain ⟨name, there, free⟩ := gainsFalse.condition inFalse
      exact free (followsTrue.taken ((agrees name).mpr there))

end

/-- **A branch is accepted if its sides are and it is even itself.** -/
theorem branch_judged (guards : List Guard) (follows : Follows definition before scope)
    (condition : Definition.Expr) {whenTrue whenFalse : List Definition.Statement} (span : Span)
    (usedTrue : targetsAll whenTrue ⊆ namesIn definition)
    (usedFalse : targetsAll whenFalse ⊆ namesIn definition)
    (judgedTrue : ∀ guards inner, Follows definition before inner →
      Judged definition before inner whenTrue (lowerAll guards inner whenTrue))
    (judgedFalse : ∀ guards inner, Follows definition before inner →
      Judged definition before inner whenFalse (lowerAll guards inner whenFalse)) :
    Judged definition before scope [.branch condition whenTrue whenFalse span]
      (lower guards scope (.branch condition whenTrue whenFalse span)) := by
  let fork : Fork := ⟨before, whenTrue, whenFalse, span⟩
  have forks : listForks before [.branch condition whenTrue whenFalse span] =
      listForks before whenTrue ++ listForks before whenFalse ++ [fork] := by
    rw [listForks, listForks, Definition.Statement.forks, List.append_nil]
  obtain ⟨followsOpen, gainsOpen⟩ := follows.openCondition
  let opened := scope.openCondition.2
  -- The second side starts with what was defined before the first one.
  have restart : ∀ afterTrue, Follows definition (before ++ listSurely whenTrue) afterTrue →
      Gains definition (HasBranch whenTrue) opened afterTrue →
        Follows definition before { afterTrue with defined := opened.defined } :=
    fun afterTrue followsTrue gainsTrue => followsTrue.redefined
      (List.Subset.trans followsOpen.taken gainsTrue.grows) followsOpen.defined
  refine ⟨fun made after done => ?_, fun span' name failed => ?_⟩
  · obtain ⟨resolved, first, afterTrue, second, afterFalse, -, loweredTrue, loweredFalse, agreed, -,
      rfl⟩ := lower_branch done
    obtain ⟨evenTrue, followsTrue, gainsTrue⟩ :=
      (judgedTrue _ _ followsOpen).accepts first afterTrue loweredTrue
    obtain ⟨evenFalse, followsFalse, gainsFalse⟩ :=
      (judgedFalse _ _ (restart _ followsTrue gainsTrue)).accepts second afterFalse loweredFalse
    have agrees := mem_iff_of_oneSided agreed
    have gains := gainsOpen.trans gainsTrue
    refine ⟨?_, followsFalse.redefined (List.Subset.trans followsTrue.taken gainsFalse.grows)
      fun name known => ?_, gains.keeps, List.Subset.trans gains.grows gainsFalse.grows,
      fun name there new => ?_, fun _ => gains.condition (.inl trivial)⟩
    · rw [forks]
      exact List.forall_mem_append.mpr ⟨List.forall_mem_append.mpr ⟨evenTrue, evenFalse⟩,
        List.forall_mem_singleton.mpr (even_of_agrees followsTrue followsFalse gainsTrue gainsFalse
          span followsOpen usedTrue usedFalse agrees)⟩
    · have inTrue := followsTrue.defined name known
      have inFalse := followsFalse.defined name known
      rw [← agrees, inTrue, List.mem_append, List.mem_append] at inFalse
      rw [inTrue, listSurely, listSurely, Definition.Statement.surely, List.append_nil,
        List.mem_append, List.mem_append, List.mem_filter, decide_eq_true_iff]
      tauto
    · exact (gains.known name there new).imp_right fun both =>
        ⟨⟨_, List.mem_singleton_self _, rfl⟩, both.2⟩
  · rw [forks]
    unfold lower at failed
    rcases Steps.bind_eq_error.mp failed with failed | ⟨resolved, -, failed⟩
    · exact absurd failed (scope.resolve_harmless condition span' name)
    rcases Steps.bind_eq_error.mp failed with failed | ⟨⟨first, afterTrue⟩, loweredTrue, failed⟩
    · exact (((judgedTrue _ _ followsOpen).rejects _ _ failed).append_right _).append_right _
    obtain ⟨evenTrue, followsTrue, gainsTrue⟩ :=
      (judgedTrue _ _ followsOpen).accepts first afterTrue loweredTrue
    have judged := judgedFalse (guards ++ [⟨scope.openCondition.1, false⟩]) _
      (restart _ followsTrue gainsTrue)
    rcases Steps.bind_eq_error.mp failed with failed | ⟨⟨second, afterFalse⟩, loweredFalse, failed⟩
    · exact ((judged.rejects _ _ failed).append_left evenTrue).append_right _
    obtain ⟨evenFalse, followsFalse, gainsFalse⟩ := judged.accepts second afterFalse loweredFalse
    dsimp only at failed
    split at failed
    next oneSided =>
      cases failed
      have why := oneSided_or_nested followsTrue followsFalse gainsTrue gainsFalse span
        (mem_of_oneSided oneSided)
      exact ⟨_, fork, [], rfl, List.forall_mem_append.mpr ⟨evenTrue, evenFalse⟩,
        why.imp (fun oneSided => ⟨name, oneSided⟩) And.right, rfl, why⟩
    · cases failed

mutual

/-- **What becomes of a statement**: it is accepted if all its branches are even, and the first uneven
one is blamed. -/
theorem lower_judged (guards : List Guard) {before : List String} {scope : Scope}
    (follows : Follows definition before scope) (statement : Definition.Statement)
    (used : targets statement ⊆ namesIn definition) :
    Judged definition before scope [statement] (lower guards scope statement) := by
  match statement with
  | .assign target offset value span =>
    unfold targets at used
    refine ⟨fun made after done => ?_, fun span' name failed => ?_⟩
    · obtain ⟨resolved, current, -, assigned, -⟩ := lower_assign done
      obtain ⟨follows', gains⟩ := follows.assign (used (List.mem_singleton_self target)) assigned
      rw [← eq_false (hasBranch_assign target offset value span)] at gains
      exact ⟨fun _ absurd => (nomatch absurd), follows', gains⟩
    · unfold lower at failed
      split at failed
      · cases failed
      · refine absurd failed (Harmless.bind (scope.resolve_harmless value) (fun _ => ?_) span' name)
        exact (scope.assign_harmless target span).bind fun _ => harmless_ok _
  | .branch condition whenTrue whenFalse span =>
    unfold targets at used
    obtain ⟨usedTrue, usedFalse⟩ := List.append_subset.mp used
    exact branch_judged guards follows condition span usedTrue usedFalse
      (fun guards _ follows' => lowerAll_judged guards follows' whenTrue usedTrue)
      (fun guards _ follows' => lowerAll_judged guards follows' whenFalse usedFalse)

theorem lowerAll_judged (guards : List Guard) {before : List String} {scope : Scope}
    (follows : Follows definition before scope) (body : List Definition.Statement)
    (used : targetsAll body ⊆ namesIn definition) :
    Judged definition before scope body (lowerAll guards scope body) := by
  match body with
  | [] =>
    unfold lowerAll
    exact judged_nil follows []
  | statement :: rest =>
    unfold targetsAll at used
    obtain ⟨usedHere, usedRest⟩ := List.append_subset.mp used
    unfold lowerAll
    exact (lower_judged guards follows statement usedHere).followed
      (fun _ middle follows' => lowerAll_judged guards follows' rest usedRest) (· ++ ·)

end

/-! ### Definitions -/

theorem lowerSections_judged (follows : Follows definition before scope)
    (parts : List Definition.Section)
    (used : (parts.flatMap fun part => targetsAll part.body) ⊆ namesIn definition) :
    Judged definition before scope (parts.map Definition.Section.body).flatten
      (lowerSections scope parts) := by
  induction parts generalizing before scope with
  | nil => exact judged_nil follows []
  | cons part rest ih =>
    obtain ⟨usedHere, usedRest⟩ := List.append_subset.mp used
    unfold lowerSections
    exact Judged.behind (scope.interval_harmless part.range) fun interval _ =>
      (lowerAll_judged [] follows part.body usedHere).followed
        (fun _ _ follows' => ih follows' usedRest) fun body more => (⟨interval, body, part.span⟩ : Section) :: more

theorem lowerComputations_judged (follows : Follows definition before scope)
    (computations : List Definition.Computation)
    (used : (computations.flatMap fun computation =>
      computation.sections.flatMap fun part => targetsAll part.body) ⊆ namesIn definition) :
    Judged definition before scope (computations.flatMap fun computation =>
        computation.sections.map Definition.Section.body).flatten
      (lowerComputations scope computations) := by
  induction computations generalizing before scope with
  | nil => exact judged_nil follows []
  | cons computation rest ih =>
    obtain ⟨usedHere, usedRest⟩ := List.append_subset.mp used
    unfold lowerComputations
    rw [List.flatMap_cons, List.flatten_append]
    split
    · exact ⟨fun _ _ absurd => (nomatch absurd), fun _ _ absurd => nomatch absurd⟩
    next policy known =>
      exact (lowerSections_judged follows computation.sections usedHere).followed
        (fun _ _ follows' => ih follows' usedRest)
        fun sections more => (⟨policy, sections, computation.span⟩ : Block) :: more

/-- At the start nothing is assigned. -/
theorem start_follows {given resolved : Externals} (signature : Signature)
    (free : clash? [] (bindings definition) = none)
    (done : resolveExternals definition given = .ok resolved) :
    Follows definition [] (Scope.start definition resolved signature) where
  orderly := start_orderly resolved signature free
  avoids := List.Subset.refl _
  taken := List.nil_subset _
  binds name := by
    unfold Definition.Binds
    rw [names_bindings, List.mem_append, List.mem_append, or_assoc, hasScalar_start]
    refine or_congr ?_ (or_congr Iff.rfl (resolved_iff done).symm)
    constructor
    · intro there
      obtain ⟨parameter, member, rfl⟩ := List.mem_map.mp there
      exact ⟨_, List.mem_map_of_mem member, rfl, fun absurd => nomatch absurd⟩
    · rintro ⟨field, member, rfl, -⟩
      obtain ⟨parameter, there, rfl⟩ := List.mem_map.mp member
      exact List.mem_map_of_mem there
  defined name known := iff_of_false (fun absurd => nomatch absurd) fun absurd => nomatch absurd.1

theorem clash?_harmless {seen bindings : List Binding} {span : Span} {name : String} :
    clash? seen bindings ≠ some ⟨span, .assignedInOneBranch name⟩ := by
  induction bindings generalizing seen with
  | nil => exact fun absurd => nomatch absurd
  | cons binding rest ih =>
    unfold clash?
    split
    · exact fun absurd => nomatch absurd
    · exact ih

theorem resolveExternals_harmless (given : Externals) :
    Harmless (resolveExternals definition given) := by
  refine Harmless.bind (fun span name failed => ?_) fun _ => harmless_ok _
  obtain ⟨declared, -, failed⟩ := Steps.mapM_eq_error failed
  dsimp only at failed
  split at failed
  · cases failed
  · cases failed

variable (definition) in
/-- **What becomes of a definition**: it is accepted if all its branches are even, and the first uneven
one is blamed. -/
theorem ofDefinition?_judged (given : Externals) (signature : Signature) :
    (∀ made, ofDefinition? definition given signature = .ok made →
        ∀ fork ∈ definition.forks, ¬ fork.Uneven definition) ∧
      ∀ span name,
        ofDefinition? definition given signature = .error ⟨span, .assignedInOneBranch name⟩ →
          Blames definition definition.forks span name := by
  have used : (definition.computations.flatMap fun computation =>
      computation.sections.flatMap fun part => targetsAll part.body) ⊆ namesIn definition :=
    List.subset_append_right _ _
  constructor
  · rintro ⟨program, resolved⟩ done
    obtain ⟨free, given, blocks, scope, lowered, -⟩ := ofDefinition?_eq_ok done
    exact ((lowerComputations_judged (start_follows signature free given) _ used).accepts
      blocks scope lowered).1
  · intro span name failed
    unfold ofDefinition? at failed
    cases free : clash? [] (bindings definition) with
    | some fault =>
      rw [free] at failed
      cases failed
      exact absurd free clash?_harmless
    | none =>
      rw [free] at failed
      rcases Steps.bind_eq_error.mp failed with failed | ⟨resolved, given, failed⟩
      · exact absurd failed (resolveExternals_harmless _ span name)
      dsimp only at failed
      split at failed
      · cases failed
      rcases Steps.bind_eq_error.mp failed with failed | ⟨_, -, absurd⟩
      · exact (lowerComputations_judged (start_follows signature free given) _ used).rejects
          span name failed
      · cases absurd

variable (definition) in
/-- **A definition on which nothing else fails is rejected exactly if some branch of it is uneven**:
a name that is not bound is first assigned by one side alone, or a side has a branch. The first uneven
branch is blamed, for a name that one side alone assigns or for the name of a condition. -/
theorem rejects_uneven_forks (given : Externals) (signature : Signature)
    (others : ∀ fault, ofDefinition? definition given signature = .error fault →
      ∃ name, fault.cause = .assignedInOneBranch name) :
    ((∃ fault, ofDefinition? definition given signature = .error fault) ↔
        ∃ fork ∈ definition.forks, fork.Uneven definition) ∧
      ∀ span name,
        ofDefinition? definition given signature = .error ⟨span, .assignedInOneBranch name⟩ →
          Blames definition definition.forks span name := by
  obtain ⟨accepts, rejects⟩ := ofDefinition?_judged definition given signature
  refine ⟨⟨?_, ?_⟩, rejects⟩
  · rintro ⟨⟨span, cause⟩, failed⟩
    obtain ⟨name, rfl⟩ := others _ failed
    obtain ⟨earlier, fork, later, same, -, uneven, -⟩ := rejects span name failed
    exact ⟨fork, same ▸ List.mem_append_right _ List.mem_cons_self, uneven⟩
  · rintro ⟨fork, member, uneven⟩
    cases made : ofDefinition? definition given signature with
    | error fault => exact ⟨fault, rfl⟩
    | ok both => exact absurd uneven (accepts both made fork member)

/-- A chain of branches that assign one temporary in every case. -/
def chained : Definition where
  source := ⟨"", ""⟩
  name := "chained"
  fields := [⟨"a", .f64, .ijk, ⟨0, 0⟩⟩, ⟨"x", .f64, .ijk, ⟨0, 0⟩⟩]
  scalars := []
  externals := []
  computations := [⟨"PARALLEL", [⟨.full,
    [.branch (.binary .gt (.name "a" ⟨0, 0⟩) (.literal (.int 0) ⟨0, 0⟩) ⟨0, 0⟩)
      [.assign "t" none (.literal (.int 1) ⟨0, 0⟩) ⟨0, 0⟩]
      [.branch (.binary .lt (.name "a" ⟨0, 0⟩) (.literal (.int 0) ⟨0, 0⟩) ⟨0, 0⟩)
        [.assign "t" none (.literal (.int 2) ⟨0, 0⟩) ⟨0, 0⟩]
        [.assign "t" none (.literal (.int 3) ⟨0, 0⟩) ⟨0, 0⟩] ⟨4, 8⟩] ⟨0, 9⟩,
      .assign "x" none (.name "t" ⟨0, 0⟩) ⟨0, 0⟩], ⟨0, 0⟩⟩], ⟨0, 0⟩⟩]
  span := ⟨0, 0⟩

/-- The branch that a step blames, and for which name. -/
def blamed? {α : Type} : Except Fault α → Option (Span × String)
  | .error ⟨span, .assignedInOneBranch name⟩ => some (span, name)
  | _ => none

theorem blamed?_eq_some {α : Type} {step : Except Fault α} {span : Span} {name : String}
    (blames : blamed? step = some (span, name)) :
    step = .error ⟨span, .assignedInOneBranch name⟩ := by
  unfold blamed? at blames
  split at blames
  · cases blames
    rfl
  · cases blames

/-- In `chained` no name is assigned by one side alone, but the outer branch has a branch and is blamed
for its condition. -/
theorem rejects_uneven_forks_chained :
    (∀ fork ∈ chained.forks, ∀ name, ¬ fork.OneSided chained name) ∧
      (∃ fork ∈ chained.forks, fork.Nested) ∧
      ofDefinition? chained .empty .empty = .error ⟨⟨0, 9⟩, .assignedInOneBranch "__cond1"⟩ ∧
      Blames chained chained.forks ⟨0, 9⟩ "__cond1" := by
  have failed : ofDefinition? chained .empty .empty =
      .error ⟨⟨0, 9⟩, .assignedInOneBranch "__cond1"⟩ := blamed?_eq_some (by decide +kernel)
  have judged := rejects_uneven_forks chained .empty .empty fun fault failed' => by
    cases failed.symm.trans failed'
    exact ⟨_, rfl⟩
  have even : ∀ fork ∈ chained.forks, ∀ name, ¬ fork.OneSided chained name := by
    have sides : ∀ fork ∈ chained.forks, listSurely fork.whenTrue = ["t"] ∧
        listSurely fork.whenFalse = ["t"] := by
      decide +kernel
    intro fork member name oneSided
    obtain ⟨inTrue, inFalse⟩ := sides fork member
    exact oneSided.2.2 (by rw [inTrue, inFalse])
  refine ⟨even, ?_, failed, judged.2 _ _ failed⟩
  obtain ⟨fork, member, uneven⟩ := judged.1.mp ⟨_, failed⟩
  exact ⟨fork, member, uneven.resolve_left fun ⟨name, oneSided⟩ => even fork member name oneSided⟩

end Program

end GridStencil
