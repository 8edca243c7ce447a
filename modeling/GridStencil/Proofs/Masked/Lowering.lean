import GridStencil.Proofs.Masked.Source

/-!
**Lowered branches keep the values of the fields.**

While a body is lowered, the state of the lowered statements and that of the source agree on the
fields of the source (`Masked.Matches`). The points on which the source runs a statement are the
points of the region where the guards of the lowered statement hold: each guard reads a temporary
that no later statement assigns, so it keeps what its condition was before either side. At the other
points a lowered statement stores what its target holds already; where that counts as zero because
the target was not touched before, it is zero.

All of this needs that the names of conditions are not read by the source. A supply of names avoids
the names that a definition binds or assigns, so it is enough that no others are read.

* `lower_matches`: statements keep the agreement.
* `preserves_values`: the bodies of a definition, on every region.
-/

namespace GridStencil.Masked

open Program (Scope Guard HasField HasType lower lowerAll targets targetsAll)
open Reference (State value cast)

variable {program : Program} {externals : Externals} {scalars : String → Float}
  {names : List String} {region points : Points} {guards : List Guard} {scope after : Scope}
  {lowered source : State}

/-- A field that a source with these names knows. -/
def IsSource (program : Program) (names : List String) (name : String) : Prop :=
  name ∈ names ∧ HasField program.fields name

/-- Stored values are values of their fields, also after they were stored again. -/
def CastsOnce (program : Program) (names : List String) : Prop :=
  ∀ name, IsSource program names name →
    ∀ x, cast program name (cast program name x) = cast program name x

/-- The guards read temporaries in use that the source does not know. -/
def Hidden (names : List String) (scope : Scope) (guards : List Guard) : Prop :=
  ∀ guard ∈ guards, guard.condition ∈ scope.fresh.taken ∧ guard.condition ∉ names

/-- A scope on the way through a definition with these names. -/
structure OnTheWay (program : Program) (externals : Externals) (names : List String)
    (scope : Scope) : Prop where
  resolves : Resolves program externals scope
  orderly : scope.Orderly
  avoids : names ⊆ scope.fresh.taken

/-- The types of the fields of a scope are those of the program. -/
def TypesIn (program : Program) (scope : Scope) : Prop :=
  ∀ name type, HasType scope.fields name type → HasType program.fields name type

/-- The state of the lowered statements and that of the source agree at some place. -/
structure Matches (program : Program) (names : List String) (region points : Points)
    (guards : List Guard) (scope : Scope) (lowered source : State) : Prop where
  same : ∀ name, IsSource program names name → lowered name = source name
  stored : ∀ name, IsSource program names name →
    ∀ p, region p = true → cast program name (lowered name p) = lowered name p
  zero : ∀ name, IsSource program names name → ¬ scope.Touched name →
    ∀ p, region p = true → lowered name p = 0.0
  inside : ∀ p, points p = (region p && guards.all (holds lowered p))

/-! ### Scopes and stores -/

theorem TypesIn.before (types : TypesIn program after) (precedes : scope.Precedes after) :
    TypesIn program scope :=
  fun name type there => types name type (precedes.types name type there)

theorem TypesIn.hasField (types : TypesIn program scope) {name : String}
    (there : HasField scope.fields name) : HasField program.fields name := by
  obtain ⟨field, member, named⟩ := there
  obtain ⟨field', member', named', -⟩ := types _ _ ⟨field, member, named, rfl⟩
  exact ⟨field', member', named'⟩

theorem OnTheWay.later (way : OnTheWay program externals names scope)
    (precedes : scope.Precedes after) (orderly : after.Orderly) (grows : scope.Grows after) :
    OnTheWay program externals names after where
  resolves := way.resolves.later precedes
  orderly := orderly
  avoids := List.Subset.trans way.avoids grows.used

theorem Hidden.later (hidden : Hidden names scope guards) (grows : scope.Grows after) :
    Hidden names after guards :=
  fun guard member => (hidden guard member).imp_left fun there => grows.used there

/-- The guard of a branch reads a temporary that was not in use. -/
theorem Hidden.opened (way : OnTheWay program externals names scope)
    (hidden : Hidden names scope guards) (taken : Bool) :
    Hidden names scope.openCondition.2 (guards ++ [⟨scope.openCondition.1, taken⟩]) := by
  obtain ⟨-, grows, -⟩ := Scope.openCondition_orderly way.orderly
  obtain ⟨-, -, unused, inUse, -⟩ := Scope.openCondition_spec scope
  intro guard member
  rcases List.mem_append.mp member with earlier | new
  · exact hidden.later grows guard earlier
  · rw [List.mem_singleton.mp new]
    exact ⟨inUse, fun there => unused (way.avoids there)⟩

theorem store_other (points : Points) (state : State) {target name : String} (expr : Program.Expr)
    (other : name ≠ target) : store program scalars points state target expr name = state name := by
  funext p
  exact if_neg fun there => other there.1

theorem store_outside {points : Points} {p : Offset} (outside : points p = false) (state : State)
    (target name : String) (expr : Program.Expr) :
    store program scalars points state target expr name p = state name p := by
  refine if_neg fun there => ?_
  rw [outside] at there
  exact Bool.false_ne_true there.2

theorem store_target {points : Points} {p : Offset} (inside : points p = true) (state : State)
    (target : String) (expr : Program.Expr) :
    store program scalars points state target expr target p =
      cast program target (value scalars state p expr) :=
  if_pos ⟨rfl, inside⟩

/-- Values are cast to the type of their field. -/
theorem cast_eq (distinct : (program.fields.map Program.Field.name).Nodup) {name : String}
    {type : ElementType} (typed : HasType program.fields name type) (x : Float) :
    cast program name x = type.cast x := by
  obtain ⟨field, member, named, rfl⟩ := typed
  unfold Reference.cast Program.field?
  cases found : program.fields.find? (·.name == name) with
  | none =>
    have other := List.find?_eq_none.mp found field member
    exact absurd (beq_iff_eq.mpr named) other
  | some other =>
    have chosen := List.find?_some found
    have same : other.name = name := beq_iff_eq.mp chosen
    rw [Scope.eq_of_name distinct (List.mem_of_find?_eq_some found) member
      (same.trans named.symm)]

/-- An expression that reads the source only has one value in states that agree. -/
theorem Matches.value_eq (here : Matches program names region points guards scope lowered source)
    (types : TypesIn program scope) {expr : Program.Expr} {own : List String}
    (reads : ReadsFrom scope own expr) (known : own ⊆ names) (p : Offset) :
    value scalars lowered p expr = value scalars source p expr := by
  refine value_congr fun read member => here.same _ ?_
  obtain ⟨inOwn, there⟩ := reads read member
  exact ⟨known inOwn, types.hasField there⟩

/-- Guards are as true as they were if what they read was left alone. -/
theorem Matches.of_same (here : Matches program names region points guards scope lowered source)
    {lowered' : State} {other : List Guard} {points' : Points}
    (same : ∀ name, IsSource program names name → lowered' name = lowered name)
    (later : ∀ name, scope.Touched name → after.Touched name)
    (inside : ∀ p, points' p = (region p && other.all (holds lowered' p))) :
    Matches program names region points' other after lowered' source where
  same name known := (same name known).trans (here.same name known)
  stored name known p there := by
    rw [same name known]
    exact here.stored name known p there
  zero name known untouched p there := by
    rw [same name known]
    exact here.zero name known (fun touched => untouched (later name touched)) p there
  inside := inside

/-! ### Assignments -/

/-- **An assignment under guards changes its target where the source does**: at the other points it
stores what the target holds. -/
theorem assign_matches (casts : CastsOnce program names)
    (way : OnTheWay program externals names scope) (types : TypesIn program scope)
    {target : String} {expr : Definition.Expr} {resolved current : Program.Expr}
    (known : IsSource program names target) (reads : expr.names ⊆ names)
    (hidden : Hidden names scope guards) (done : scope.resolve expr = .ok resolved)
    (assigned : scope.assign target = .ok (current, after))
    (here : Matches program names region points guards scope lowered source) :
    Matches program names region points guards after
      (store program scalars region lowered target (Guard.guarded resolved current guards))
      (store program scalars points source target (built program externals expr)) := by
  obtain ⟨rfl, readsFrom⟩ := resolve_spec way.resolves done
  obtain ⟨precedes, touched, -, held⟩ := Scope.assign_spec way.orderly assigned
  -- At the points of the region, the current value is what the target holds.
  have kept : ∀ p, region p = true → value scalars lowered p current = lowered target p := by
    intro p there
    rcases held with ⟨rfl, untouched⟩ | ⟨rfl, -⟩
    · exact (here.zero target known untouched p there).symm
    · show lowered target (p.add .zero) = _
      rw [point_add_zero]
  refine ⟨fun name source' => ?_, fun name source' p there => ?_,
    fun name source' untouched p there => ?_, fun p => ?_⟩
  · by_cases own : name = target
    · subst own
      funext p
      cases there : region p with
      | false =>
        have outside : points p = false := by rw [here.inside, there, Bool.false_and]
        rw [store_outside there, store_outside outside, here.same name known]
      | true =>
        rw [store_target there, value_guarded]
        have inside : points p = guards.all (holds lowered p) := by
          rw [here.inside, there, Bool.true_and]
        cases taken : guards.all (holds lowered p) with
        | true =>
          rw [store_target (inside.trans taken), if_pos rfl,
            here.value_eq types readsFrom reads]
        | false =>
          rw [store_outside (inside.trans taken), if_neg Bool.false_ne_true, kept p there,
            here.stored name known p there, here.same name known]
    · rw [store_other _ _ _ own, store_other _ _ _ own, here.same name source']
  · by_cases own : name = target
    · subst own
      rw [store_target there]
      exact casts name known _
    · rw [store_other _ _ _ own]
      exact here.stored name source' p there
  · have other : name ≠ target := fun same => untouched (same ▸ touched)
    rw [store_other _ _ _ other]
    exact here.zero name source' (fun before => untouched (before.later precedes)) p there
  · rw [here.inside]
    refine congrArg (region p && ·) (all_holds_congr (fun guard member => ?_) p)
    have apart : guard.condition ≠ target := fun same => (hidden guard member).2 (same ▸ known.1)
    exact (store_other _ _ _ apart).symm

/-! ### Statements -/

theorem runBuilt_append (points : Points) (state : State) (first second : List Program.Statement) :
    runBuilt program scalars points state (first ++ second) =
      runBuilt program scalars points (runBuilt program scalars points state first) second :=
  List.foldl_append

/-- A condition is stored as a truth value, under a name that the source does not know. -/
theorem open_matches (distinct : (program.fields.map Program.Field.name).Nodup)
    (way : OnTheWay program externals names scope)
    (types : TypesIn program scope.openCondition.2) {condition : Definition.Expr}
    {resolved : Program.Expr} (reads : condition.names ⊆ names)
    (hidden : Hidden names scope guards) (done : scope.resolve condition = .ok resolved)
    (here : Matches program names region points guards scope lowered source) (taken : Bool) :
    Matches program names region
      (fun p => points p && (truth program externals scalars source condition p == taken))
      (guards ++ [⟨scope.openCondition.1, taken⟩]) scope.openCondition.2
      (store program scalars region lowered scope.openCondition.1 resolved) source := by
  obtain ⟨rfl, readsFrom⟩ := resolve_spec way.resolves done
  obtain ⟨precedes, typed, unused, -⟩ := Scope.openCondition_spec scope
  refine here.of_same (fun name known => ?_) (fun name touched => touched.later precedes)
    fun p => ?_
  · exact store_other _ _ _ fun same => unused (same ▸ way.avoids known.1)
  · rw [here.inside, List.all_append, List.all_cons, List.all_nil, Bool.and_true]
    cases there : region p with
    | false => rw [Bool.false_and, Bool.false_and, Bool.false_and]
    | true =>
      rw [Bool.true_and, Bool.true_and]
      have apart : ∀ guard ∈ guards, guard.condition ≠ scope.openCondition.1 :=
        fun guard member same => unused (same ▸ (hidden guard member).1)
      rw [all_holds_congr fun guard member => (store_other region lowered
        (built program externals condition) (apart guard member)).symm]
      refine congrArg (_ && ·) ?_
      unfold holds truth
      rw [store_target there, cast_eq distinct (types _ _ typed), isTrue_cast,
        here.value_eq (types.before precedes) readsFrom reads]

/-- What lowered statements leave alone: names in use that the source does not know. -/
def LeavesHidden (names : List String) (scope : Scope) (before after : State) : Prop :=
  ∀ name ∈ scope.fresh.taken, name ∉ names → after name = before name

/-- Lowered statements keep the agreement with what the source does meanwhile. -/
def Simulates (program : Program) (scalars : String → Float) (names : List String)
    (region : Points) (guards : List Guard) (scope after : Scope)
    (statements : List Program.Statement) (written : Points → State → State) : Prop :=
  ∀ points lowered source, Matches program names region points guards scope lowered source →
    Matches program names region points guards after
        (runBuilt program scalars region lowered statements) (written points source) ∧
      LeavesHidden names scope lowered (runBuilt program scalars region lowered statements)

variable {middle : Scope} {first second : List Program.Statement}
  {written more : Points → State → State}

theorem Simulates.append (grows : scope.Grows middle)
    (here : Simulates program scalars names region guards scope middle first written)
    (there : Simulates program scalars names region guards middle after second more) :
    Simulates program scalars names region guards scope after (first ++ second)
      (fun points state => more points (written points state)) := by
  intro points lowered source start
  obtain ⟨halfway, leaves⟩ := here points lowered source start
  obtain ⟨atEnd, leaves'⟩ := there points _ _ halfway
  rw [runBuilt_append]
  refine ⟨atEnd, fun name used hidden => ?_⟩
  exact (leaves' name (grows.used used) hidden).trans (leaves name used hidden)

/-- What is defined behind statements does not count. -/
theorem Simulates.defined {defined : List String}
    (here : Simulates program scalars names region guards scope after first written) :
    Simulates program scalars names region guards scope { after with defined } first written := by
  intro points lowered source start
  obtain ⟨atEnd, leaves⟩ := here points lowered source start
  exact ⟨atEnd.of_same (fun _ _ => rfl) (fun _ touched => touched) atEnd.inside, leaves⟩

/-- **Both sides of a branch, one after the other.** The second side runs where the condition was
false before the first side, which leaves the stored condition alone. -/
theorem simulates_branch (distinct : (program.fields.map Program.Field.name).Nodup)
    (way : OnTheWay program externals names scope) (hidden : Hidden names scope guards)
    (types : TypesIn program scope.openCondition.2) {condition : Definition.Expr}
    {resolved : Program.Expr} (reads : condition.names ⊆ names)
    (done : scope.resolve condition = .ok resolved) {afterTrue : Scope} {defined : List String}
    (grows : scope.openCondition.2.Grows afterTrue)
    (whenTrue : Simulates program scalars names region
      (guards ++ [⟨scope.openCondition.1, true⟩]) scope.openCondition.2 afterTrue first written)
    (whenFalse : Simulates program scalars names region
      (guards ++ [⟨scope.openCondition.1, false⟩]) { afterTrue with defined } after second more)
    (span : Span) :
    Simulates program scalars names region guards scope after
      (⟨scope.openCondition.1, resolved, span⟩ :: first ++ second) (fun points state =>
        more (fun p => points p && !truth program externals scalars state condition p)
          (written (fun p => points p && truth program externals scalars state condition p)
            state)) := by
  intro points lowered source here
  obtain ⟨-, growsOpen, -⟩ := Scope.openCondition_orderly way.orderly
  obtain ⟨-, -, unused, -⟩ := Scope.openCondition_spec scope
  have hiddenOpen := hidden.opened way false
  let opened := store program scalars region lowered scope.openCondition.1 resolved
  have atOpening : ∀ taken, Matches program names region _ _ _ opened source := fun taken =>
    open_matches distinct way types reads hidden done here taken
  have trueSide := atOpening true
  have falseSide := (atOpening false).inside
  simp only [beq_true, beq_false] at trueSide falseSide
  obtain ⟨behindTrue, leavesTrue⟩ := whenTrue _ _ _ trueSide
  -- The first side has left all conditions alone, so the points of the second one are as at first.
  have kept : ∀ guard ∈ guards ++ [⟨scope.openCondition.1, false⟩], opened guard.condition =
      runBuilt program scalars region opened first guard.condition := fun guard member =>
    (leavesTrue guard.condition (hiddenOpen guard member).1 (hiddenOpen guard member).2).symm
  have restarted : Matches program names region _ _ { afterTrue with defined } _ _ :=
    behindTrue.of_same (fun _ _ => rfl) (fun _ touched => touched) fun p =>
      (falseSide p).trans (congrArg (region p && ·) (all_holds_congr kept p))
  obtain ⟨behindFalse, leavesFalse⟩ := whenFalse _ _ _ restarted
  have leaves : LeavesHidden names scope lowered
      (runBuilt program scalars region (runBuilt program scalars region opened first) second) := by
    intro name there unknown
    rw [leavesFalse name (grows.used (growsOpen.used there)) unknown,
      leavesTrue name (growsOpen.used there) unknown]
    exact store_other _ _ _ fun same => unused (same ▸ there)
  rw [runBuilt_append]
  refine ⟨behindFalse.of_same (fun _ _ => rfl) (fun _ touched => touched) fun p => ?_, leaves⟩
  rw [here.inside]
  exact congrArg (region p && ·) (all_holds_congr (fun guard member =>
    (leaves guard.condition (hidden guard member).1 (hidden guard member).2).symm) p)

mutual

/-- **Statements keep the agreement with the source.** -/
theorem lower_simulates {guards : List Guard} {scope after : Scope}
    (distinct : (program.fields.map Program.Field.name).Nodup) (casts : CastsOnce program names)
    (way : OnTheWay program externals names scope) (types : TypesIn program after)
    {statement : Definition.Statement} (used : targets statement ⊆ names)
    (reads : statement.names ⊆ names) (hidden : Hidden names scope guards)
    {statements : List Program.Statement}
    (done : lower guards scope statement = .ok (statements, after)) :
    Simulates program scalars names region guards scope after statements
      fun points state => run program externals scalars points state statement := by
  have inUse := List.Subset.trans used way.avoids
  obtain ⟨precedes, -, touches⟩ := Program.lower_precedes way.orderly inUse done
  match statement with
  | .assign target offset value span =>
    obtain ⟨resolved, current, readable, assigned, rfl⟩ := Program.lower_assign done
    unfold targets at used touches
    have inNames : target ∈ names := used (List.mem_singleton_self target)
    have known : IsSource program names target :=
      ⟨inNames, types.hasField (touches target (List.mem_singleton_self target)).2⟩
    intro points lowered source here
    refine ⟨assign_matches casts way (types.before precedes) known reads hidden readable assigned
      here, fun name _ unknown => ?_⟩
    exact store_other _ _ _ fun same => unknown (same ▸ inNames)
  | .branch condition whenTrue whenFalse span =>
    obtain ⟨resolved, first, afterTrue, second, afterFalse, readable, loweredTrue, loweredFalse, -,
      rfl, rfl⟩ := Program.lower_branch done
    unfold targets at used
    unfold Definition.Statement.names at reads
    obtain ⟨usedTrue, usedFalse⟩ := List.append_subset.mp used
    obtain ⟨early, readsFalse⟩ := List.append_subset.mp reads
    obtain ⟨readsCondition, readsTrue⟩ := List.append_subset.mp early
    obtain ⟨opened, growsOpen, -⟩ := Scope.openCondition_orderly way.orderly
    have wayOpen := way.later (Scope.openCondition_spec scope).1 opened growsOpen
    have usedTrue' := List.Subset.trans usedTrue wayOpen.avoids
    obtain ⟨goodTrue, growsTrue, -⟩ := Program.lowerAll_orderly opened usedTrue' loweredTrue
    have precedesTrue := (Program.lowerAll_precedes opened usedTrue' loweredTrue).1
    let restarted : Scope := { afterTrue with defined := scope.openCondition.2.defined }
    obtain ⟨goodRestarted, growsRestarted⟩ := Scope.orderly_of_eq goodTrue restarted rfl rfl
    have precedesRestarted : afterTrue.Precedes restarted := Scope.precedes_defined afterTrue _
    have wayRestarted := (wayOpen.later precedesTrue goodTrue growsTrue).later precedesRestarted
      goodRestarted growsRestarted
    have precedesFalse := (Program.lowerAll_precedes goodRestarted
      (List.Subset.trans usedFalse wayRestarted.avoids) loweredFalse).1
    have typesFalse : TypesIn program afterFalse := types
    have typesTrue := typesFalse.before (precedesRestarted.trans precedesFalse)
    have whenTrue' := lowerAll_simulates distinct casts
      wayOpen typesTrue usedTrue readsTrue (hidden.opened way true) loweredTrue
    have whenFalse' := lowerAll_simulates distinct casts
      wayRestarted typesFalse usedFalse readsFalse
      ((hidden.opened way false).later (growsTrue.trans growsRestarted))
      loweredFalse
    exact (simulates_branch distinct way hidden (typesTrue.before precedesTrue) readsCondition
      readable growsTrue whenTrue' whenFalse' span).defined

theorem lowerAll_simulates {guards : List Guard} {scope after : Scope}
    (distinct : (program.fields.map Program.Field.name).Nodup) (casts : CastsOnce program names)
    (way : OnTheWay program externals names scope) (types : TypesIn program after)
    {body : List Definition.Statement} (used : targetsAll body ⊆ names)
    (reads : Definition.Statement.listNames body ⊆ names) (hidden : Hidden names scope guards)
    {statements : List Program.Statement}
    (done : lowerAll guards scope body = .ok (statements, after)) :
    Simulates program scalars names region guards scope after statements
      fun points state => runAll program externals scalars points state body := by
  match body with
  | [] =>
    unfold lowerAll at done
    cases done
    exact fun points lowered source here => ⟨here, fun _ _ _ => rfl⟩
  | statement :: rest =>
    unfold targetsAll at used
    unfold Definition.Statement.listNames at reads
    obtain ⟨usedHere, usedRest⟩ := List.append_subset.mp used
    obtain ⟨readsHere, readsRest⟩ := List.append_subset.mp reads
    unfold lowerAll at done
    obtain ⟨⟨first, middle⟩, loweredHere, done⟩ := Steps.bind_eq_ok.mp done
    obtain ⟨⟨more, last⟩, loweredRest, same⟩ := Steps.bind_eq_ok.mp done
    cases same
    have inUse := List.Subset.trans usedHere way.avoids
    obtain ⟨good, grows, -⟩ := Program.lower_orderly way.orderly inUse loweredHere
    have precedes := (Program.lower_precedes way.orderly inUse loweredHere).1
    have way' := way.later precedes good grows
    have later := (Program.lowerAll_precedes good
      (List.Subset.trans usedRest way'.avoids) loweredRest).1
    exact (lower_simulates distinct casts way (types.before later) usedHere readsHere hidden
      loweredHere).append grows (lowerAll_simulates distinct casts way' types usedRest readsRest
        (hidden.later grows) loweredRest)

end

end GridStencil.Masked
