import GridStencil.Proofs.Plan
import Mathlib.Data.Nat.Basic
import Mathlib.Order.Basic

/-!
**What a plan does, and that the order of its passes does not matter.**

No pass changes the program, and whether a pass succeeds depends on the program only
(`Pass.failure_run_eq_none`). The checks raise the number of planes, and the analysis replaces the
demand by one that depends on the program only. So what passes leave behind when all of them succeed
is read off the set of the passes (`Pass.settle`), whatever their order and however often one of
them runs.

* `PassTable.standard_made`: the table of all passes is made by registering them and naming groups.
* `PassTable.run_standard`: which passes its names ask for.
* `PassTable.run_exact`: which passes a plan runs and where it ends, and when two plans have the same
  outcome.
-/

namespace GridStencil

namespace Pass

/-- The programs on which a pass succeeds. -/
def Accepts (pass : Pass) (program : Program) : Prop :=
  match pass with
  | intervalCheck => (Check.intervals program).faults = []
  | orderingCheck => (Check.ordering program).faults = []
  | inferExtents => ∃ demand, Demand.ofProgram? program = .ok demand

/-- The names of the table of all passes that ask for a pass: its own, that of its group, and that of
all passes. -/
def names : Pass → List String
  | intervalCheck => [intervalCheck.name, "validate", "all"]
  | orderingCheck => [orderingCheck.name, "validate", "all"]
  | inferExtents => [inferExtents.name, "analyze", "all"]

/-- How many planes a pass asks for. -/
def planes (pass : Pass) (program : Program) : Nat :=
  match pass with
  | intervalCheck => (Check.intervals program).planes
  | orderingCheck => (Check.ordering program).planes
  | inferExtents => 0

/-- A context after passes that all succeed. -/
def settle (passes : List Pass) (context : Context) : Context :=
  { context with
    demand :=
      if inferExtents ∈ passes then (Demand.ofProgram? context.program).toOption
      else context.demand
    minPlanes := (passes.map (·.planes context.program)).foldl max context.minPlanes }

/-- A context after some passes, each of which is run whether the one before failed or not. -/
def through (passes : List Pass) (context : Context) : Context :=
  passes.foldl (fun context pass => (pass.run context).context) context

/-- Passes run in their order, up to the first one that fails. -/
def Ends (passes : List Pass) (context : Context) (outcome : Outcome) : Prop :=
  ∃ done rest, passes = done ++ rest ∧
    (∀ earlier pass later, done = earlier ++ pass :: later →
      (pass.run (through earlier context)).failure = none) ∧
    ((rest = [] ∧ outcome.context = through done context ∧ outcome.failure = none) ∨
      ∃ pass later error, rest = pass :: later ∧
        (pass.run (through done context)).failure = some error ∧
        outcome.context = (pass.run (through done context)).context ∧
        outcome.failure = some error)

variable {pass : Pass} {passes : List Pass} {context : Context}

/-! ### One pass -/

theorem runCheck_eq {target : String} {report : Program → Report}
    (clean : (report context.program).faults = []) :
    runCheck target report context = ⟨context.raise (report context.program).planes, [], none⟩ := by
  unfold runCheck check Report.diagnostics Diagnostics.verdict
  simp only [clean, List.map_nil]

/-- **A pass succeeds on a context** if and only if it accepts the program. -/
theorem failure_run_eq_none : (pass.run context).failure = none ↔ pass.Accepts context.program := by
  cases pass with
  | intervalCheck => exact ⟨runCheck_eq_none, runCheck_isOk⟩
  | orderingCheck => exact ⟨runCheck_eq_none, runCheck_isOk⟩
  | inferExtents =>
    exact ⟨fun passed => (runExtents_eq_none passed).imp fun _ known => known.1,
      fun ⟨_, known⟩ => runExtents_isOk known⟩

/-- A pass that succeeds writes no message. -/
theorem run_of_accepts (accepts : pass.Accepts context.program) :
    pass.run context = ⟨settle [pass] context, [], none⟩ := by
  cases pass with
  | intervalCheck => exact runCheck_eq accepts
  | orderingCheck => exact runCheck_eq accepts
  | inferExtents =>
    obtain ⟨demand, known⟩ := accepts
    show runExtents context = _
    unfold runExtents
    rw [known]
    simp only [settle, known, List.mem_singleton, if_true, Except.toOption, List.map_cons,
      List.map_nil, List.foldl_cons, List.foldl_nil, planes, Nat.max_zero]

/-! ### Many passes -/

theorem foldl_max_le {numbers : List Nat} {least bound : Nat} :
    numbers.foldl max least ≤ bound ↔ least ≤ bound ∧ ∀ number ∈ numbers, number ≤ bound := by
  induction numbers generalizing least with
  | nil => exact (and_iff_left fun _ absurd => nomatch absurd).symm
  | cons first rest ih =>
    rw [List.foldl_cons, ih, Nat.max_le, List.forall_mem_cons]
    exact and_assoc

/-- What passes leave behind depends only on which ones they are. -/
theorem settle_congr {others : List Pass} (same : ∀ pass, pass ∈ passes ↔ pass ∈ others)
    (context : Context) : settle passes context = settle others context := by
  have demand : (inferExtents ∈ passes) = (inferExtents ∈ others) := propext (same _)
  have planes : (passes.map (·.planes context.program)).foldl max context.minPlanes =
      (others.map (·.planes context.program)).foldl max context.minPlanes := by
    refine eq_of_forall_ge_iff fun bound => ?_
    simp only [foldl_max_le, List.forall_mem_map, same]
  unfold settle
  simp only [demand, planes]

theorem settle_cons (pass : Pass) (rest : List Pass) (context : Context) :
    settle rest (settle [pass] context) = settle (pass :: rest) context := by
  have demand : (if inferExtents ∈ rest then (Demand.ofProgram? context.program).toOption
      else if inferExtents ∈ [pass] then (Demand.ofProgram? context.program).toOption
      else context.demand) =
      if inferExtents ∈ pass :: rest then (Demand.ofProgram? context.program).toOption
      else context.demand := by
    simp only [List.mem_cons, List.not_mem_nil, or_false]
    split <;> simp_all
  unfold settle
  simp only [demand, List.map_cons, List.map_nil, List.foldl_cons, List.foldl_nil]

/-- **Passes that have run leave nothing to do for the same passes.** -/
theorem settle_settle (passes : List Pass) (context : Context) :
    settle passes (settle passes context) = settle passes context := by
  have planes : (passes.map (·.planes context.program)).foldl max
        ((passes.map (·.planes context.program)).foldl max context.minPlanes) =
      (passes.map (·.planes context.program)).foldl max context.minPlanes := by
    refine eq_of_forall_ge_iff fun bound => ?_
    rw [foldl_max_le, foldl_max_le]
    exact and_iff_left_of_imp And.right
  unfold settle
  simp only [planes]
  split <;> rfl

/-- Passes succeed if and only if each of them accepts the program. -/
theorem failure_runAll_eq_none : (runAll passes context).failure = none ↔
    ∀ pass ∈ passes, pass.Accepts context.program := by
  induction passes generalizing context with
  | nil => exact iff_of_true rfl fun _ absurd => nomatch absurd
  | cons pass rest ih =>
    rw [List.forall_mem_cons]
    constructor
    · intro passed
      obtain ⟨first, more, -⟩ := runAll_cons_eq_none passed
      have accepts := failure_run_eq_none.mp first
      rw [run_of_accepts accepts] at more
      exact ⟨accepts, (@ih (settle [pass] context)).mp more⟩
    · rintro ⟨accepts, more⟩
      refine runAll_cons_isOk (failure_run_eq_none.mpr accepts) ?_
      rw [run_of_accepts accepts]
      exact ih.mpr more

/-- **What passes leave behind that all succeed.** -/
theorem runAll_of_accepts (accept : ∀ pass ∈ passes, pass.Accepts context.program) :
    runAll passes context = ⟨settle passes context, [], none⟩ := by
  induction passes generalizing context with
  | nil => rfl
  | cons pass rest ih =>
    obtain ⟨accepts, more⟩ := List.forall_mem_cons.mp accept
    unfold runAll
    simp only [run_of_accepts accepts]
    rw [@ih (settle [pass] context) more, settle_cons]
    rfl

/-- **Passes run in their order, up to the first one that fails.** -/
theorem runAll_ends (passes : List Pass) (context : Context) :
    Ends passes context (runAll passes context) := by
  induction passes generalizing context with
  | nil =>
    exact ⟨[], [], rfl, fun earlier _ _ absurd => by simp at absurd, .inl ⟨rfl, rfl, rfl⟩⟩
  | cons pass rest ih =>
    cases first : (pass.run context).failure with
    | some error =>
      have stops : runAll (pass :: rest) context = pass.run context := by
        unfold runAll
        simp only [first]
      rw [stops]
      exact ⟨[], pass :: rest, rfl, fun earlier _ _ absurd => by simp at absurd,
        .inr ⟨pass, rest, error, rfl, first, rfl, first⟩⟩
    | none =>
      have goesOn : (runAll (pass :: rest) context).context =
            (runAll rest (pass.run context).context).context ∧
          (runAll (pass :: rest) context).failure =
            (runAll rest (pass.run context).context).failure := by
        rw [runAll]
        simp only [first, and_self]
      obtain ⟨done, later, rfl, succeed, ends⟩ := ih (pass.run context).context
      rw [← goesOn.1, ← goesOn.2] at ends
      refine ⟨pass :: done, later, rfl, ?_, ends⟩
      intro earlier other after split
      cases earlier with
      | nil =>
        obtain ⟨rfl, -⟩ := List.cons.inj split
        exact first
      | cons head earlier =>
        obtain ⟨rfl, later⟩ := List.cons.inj split
        exact succeed earlier other after later

end Pass

namespace PassTable

variable {table : PassTable} {names : List String}

/-! ### Names of passes -/

/-- The passes that a name stands for, if it stands for any. -/
def expand (table : PassTable) (name : String) : List Pass := (table.expand? name).getD []

/-- The passes that some names stand for, without those that others stand for. -/
def chosen (table : PassTable) (included excluded : List String) : List Pass :=
  (included.flatMap table.expand).filter (· ∉ excluded.flatMap table.expand)

theorem expandAll_of_known (blame : String → Cause)
    (known : ∀ name ∈ names, table.expand? name ≠ none) :
    table.expandAll blame names = .ok (names.flatMap table.expand) := by
  induction names with
  | nil => rfl
  | cons name rest ih =>
    obtain ⟨first, later⟩ := List.forall_mem_cons.mp known
    obtain ⟨passes, found⟩ := Option.ne_none_iff_exists'.mp first
    unfold expandAll
    rw [found, ih later, List.flatMap_cons, expand, found]
    rfl

theorem expandAll_of_unknown (blame : String → Cause)
    (unknown : ∃ name ∈ names, table.expand? name = none) :
    ∃ name ∈ names, table.expand? name = none ∧
      table.expandAll blame names = .error (.ofCause (blame name)) := by
  induction names with
  | nil =>
    obtain ⟨_, absurd, -⟩ := unknown
    cases absurd
  | cons name rest ih =>
    unfold expandAll
    cases found : table.expand? name with
    | none => exact ⟨name, List.mem_cons_self, found, rfl⟩
    | some passes =>
      obtain ⟨other, member, missing⟩ := unknown
      have later : other ∈ rest := by
        refine (List.mem_cons.mp member).resolve_left ?_
        rintro rfl
        rw [found] at missing
        cases missing
      obtain ⟨blamed, there, missing, failed⟩ := ih ⟨other, later, missing⟩
      refine ⟨blamed, List.mem_cons_of_mem _ there, missing, ?_⟩
      rw [failed]
      rfl

/-- **A plan with an unknown name changes nothing.** -/
theorem run_of_unknown {included excluded : List String}
    (unknown : ∃ name ∈ included ++ excluded, table.expand? name = none) (context : Context) :
    ∃ name ∈ included ++ excluded, table.expand? name = none ∧
      table.run context included excluded =
        ⟨context, [], some (.ofCause (.unknownPass name))⟩ := by
  by_cases here : ∃ name ∈ included, table.expand? name = none
  · obtain ⟨name, member, missing, failed⟩ := expandAll_of_unknown .unknownPass here
    refine ⟨name, List.mem_append_left _ member, missing, ?_⟩
    unfold run plan
    rw [failed]
    rfl
  · have known : ∀ name ∈ included, table.expand? name ≠ none :=
      fun name member missing => here ⟨name, member, missing⟩
    have there : ∃ name ∈ excluded, table.expand? name = none := by
      obtain ⟨name, member, missing⟩ := unknown
      exact ⟨name, (List.mem_append.mp member).resolve_left fun member => known name member missing,
        missing⟩
    obtain ⟨name, member, missing, failed⟩ := expandAll_of_unknown .unknownPass there
    refine ⟨name, List.mem_append_right _ member, missing, ?_⟩
    unfold run plan
    rw [expandAll_of_known _ known, failed]
    rfl

/-- **A plan whose names are known** runs the passes that it chooses. -/
theorem run_of_known {included excluded : List String}
    (known : ∀ name ∈ included ++ excluded, table.expand? name ≠ none) (context : Context) :
    table.run context included excluded = Pass.runAll (table.chosen included excluded) context := by
  obtain ⟨first, second⟩ := List.forall_mem_append.mp known
  have planned : table.plan included excluded = .ok (table.chosen included excluded) := by
    unfold plan
    rw [expandAll_of_known _ first, expandAll_of_known _ second]
    refine congrArg Except.ok (List.filter_congr fun pass _ => ?_)
    rw [List.contains_eq_mem, decide_not]
  unfold run
  rw [planned]

/-- A name is known if it is one of a group or of a pass. -/
theorem expand?_ne_none {name : String} : table.expand? name ≠ none ↔
    table.aliases.get? name ≠ none ∨ ∃ pass ∈ table.passes, pass.name = name := by
  unfold expand?
  cases group : table.aliases.get? name with
  | some passes => exact iff_of_true nofun (.inl nofun)
  | none =>
    simp [pass?, List.find?_eq_none]

/-! ### Making a table -/

/-- A pass is registered if and only if its name is free. -/
theorem register_eq_ok {pass : Pass} {more : PassTable} : table.register pass = .ok more ↔
    table.pass? pass.name = none ∧ more = { table with passes := table.passes ++ [pass] } := by
  unfold register
  cases taken : table.pass? pass.name with
  | none => simp [eq_comm]
  | some other => simp

/-- **A registered pass is found by its name**, and what was found before is found as before. -/
theorem expand?_of_register {pass : Pass} {more : PassTable}
    (registered : table.register pass = .ok more) (name : String) :
    more.expand? name =
      (table.expand? name).or (if name = pass.name then some [pass] else none) := by
  obtain ⟨-, rfl⟩ := register_eq_ok.mp registered
  have found : ({ table with passes := table.passes ++ [pass] } : PassTable).pass? name =
      (table.pass? name).or (if name = pass.name then some pass else none) := by
    unfold pass?
    rw [List.find?_append, List.find?_singleton]
    simp only [beq_iff_eq, @eq_comm _ name]
  unfold expand?
  rw [found]
  cases table.aliases.get? name with
  | some passes => rfl
  | none =>
    cases table.pass? name with
    | some other => rfl
    | none =>
      simp only [Option.none_or]
      split <;> rfl

/-- **A new name stands for what its members stand for**, and every other name for what it stood for
before. -/
theorem expand?_of_addAlias {name : String} {members : List String} {more : PassTable}
    (named : table.addAlias name members = .ok more) (other : String) :
    more.expand? other =
      if other = name then some (members.flatMap table.expand) else table.expand? other := by
  unfold addAlias at named
  split at named
  · cases named
  have known : ∀ member ∈ members, table.expand? member ≠ none := by
    intro member there missing
    obtain ⟨_, -, -, failed⟩ := expandAll_of_unknown .unknownMember ⟨member, there, missing⟩
    rw [failed] at named
    cases named
  rw [expandAll_of_known _ known] at named
  obtain rfl := Except.ok.inj named
  unfold expand?
  rw [Name.Table.get?_insert]
  by_cases same : other = name
  · rw [if_pos same, if_pos same]
  · rw [if_neg same, if_neg same]
    rfl

/-- **How the table of all passes is made**: the checks and the analysis are registered, then the
groups get their names. -/
theorem standard_made :
    (do
      let table ← empty.register .intervalCheck
      let table ← table.register .orderingCheck
      let table ← table.register .inferExtents
      let table ← table.addAlias "validate" [Pass.intervalCheck.name, Pass.orderingCheck.name]
      let table ← table.addAlias "analyze" [Pass.inferExtents.name]
      table.addAlias "all" ["validate", "analyze"]) = .ok standard := by
  rfl

/-- The names that the table of all passes knows. -/
theorem expand?_standard_ne_none {name : String} : standard.expand? name ≠ none ↔
    name ∈ ["validate", "analyze", "all", "interval-check", "ordering-check", "infer-extents"] := by
  rw [expand?_ne_none]
  show (Name.Table.ofList _).get? name ≠ none ∨ (∃ pass ∈ standard.passes, pass.name = name) ↔ _
  rw [Name.Table.get?_ofList_ne_none]
  simp [standard, Pass.name, eq_comm, or_assoc]

theorem exists_mem_names {name : String} :
    (∃ pass : Pass, name ∈ pass.names) ↔ standard.expand? name ≠ none := by
  rw [expand?_standard_ne_none]
  constructor
  · rintro ⟨pass, asks⟩
    have all : pass.names ⊆
        ["validate", "analyze", "all", "interval-check", "ordering-check", "infer-extents"] := by
      cases pass <;> decide
    exact all asks
  · intro known
    simp only [List.mem_cons, List.not_mem_nil, or_false] at known
    obtain rfl | rfl | rfl | rfl | rfl | rfl := known
    · exact ⟨.intervalCheck, by decide⟩
    · exact ⟨.inferExtents, by decide⟩
    · exact ⟨.intervalCheck, by decide⟩
    · exact ⟨.intervalCheck, by decide⟩
    · exact ⟨.orderingCheck, by decide⟩
    · exact ⟨.inferExtents, by decide⟩

/-- **What the names of the table of all passes stand for.** -/
theorem mem_expand_standard {pass : Pass} {name : String} :
    pass ∈ standard.expand name ↔ name ∈ pass.names := by
  by_cases known : standard.expand? name = none
  · have nothing : standard.expand name = [] := by
      unfold expand
      rw [known]
      rfl
    rw [nothing]
    exact iff_of_false List.not_mem_nil fun asks => exists_mem_names.mp ⟨pass, asks⟩ known
  · have known := expand?_standard_ne_none.mp known
    simp only [List.mem_cons, List.not_mem_nil, or_false] at known
    obtain rfl | rfl | rfl | rfl | rfl | rfl := known <;> cases pass <;> decide

/-- **A plan over the table of all passes.** It changes nothing if one of its names is not known.
Otherwise it runs the passes for which one name is included and no name is excluded. -/
theorem run_standard (context : Context) (included excluded : List String) :
    ((∃ name ∈ included ++ excluded, ∀ pass : Pass, name ∉ pass.names) →
      ∃ name ∈ included ++ excluded, (∀ pass : Pass, name ∉ pass.names) ∧
        standard.run context included excluded =
          ⟨context, [], some (.ofCause (.unknownPass name))⟩) ∧
    ((∀ name ∈ included ++ excluded, ∃ pass : Pass, name ∈ pass.names) →
      ∃ passes : List Pass, standard.run context included excluded = Pass.runAll passes context ∧
        ∀ pass, pass ∈ passes ↔
          (∃ name ∈ included, name ∈ pass.names) ∧ ∀ name ∈ excluded, name ∉ pass.names) := by
  constructor
  · intro unknown
    simp only [← not_exists, exists_mem_names, not_not] at unknown ⊢
    exact run_of_unknown unknown context
  · intro known
    refine ⟨_, run_of_known (fun name member => exists_mem_names.mp (known name member)) context,
      fun pass => ?_⟩
    unfold chosen
    simp only [List.mem_filter, List.mem_flatMap, mem_expand_standard, decide_eq_true_eq, not_exists,
      not_and]

/-- **What a plan does.** A plan with a name that is not known fails and changes nothing. Any other
plan runs the passes it chooses in their order, up to the first one that fails. Two plans that choose
the same passes, in whatever order and however often, both succeed with one outcome or both fail. A
plan that succeeds leaves the program as it was and changes nothing if it is run once more. -/
theorem run_exact (table : PassTable) (context : Context) (included excluded : List String) :
    ((∃ name ∈ included ++ excluded, table.expand? name = none) →
      ∃ name ∈ included ++ excluded, table.expand? name = none ∧
        table.run context included excluded =
          ⟨context, [], some (.ofCause (.unknownPass name))⟩) ∧
    ((∀ name ∈ included ++ excluded, table.expand? name ≠ none) →
      Pass.Ends (table.chosen included excluded) context (table.run context included excluded) ∧
      (∀ included' excluded' : List String,
        (∀ name ∈ included' ++ excluded', table.expand? name ≠ none) →
        (∀ pass, pass ∈ table.chosen included excluded ↔
          pass ∈ table.chosen included' excluded') →
        ((table.run context included excluded).failure = none ↔
          (table.run context included' excluded').failure = none) ∧
        ((table.run context included excluded).failure = none →
          table.run context included excluded = table.run context included' excluded')) ∧
      ((table.run context included excluded).failure = none →
        (table.run context included excluded).context =
          Pass.settle (table.chosen included excluded) context ∧
        table.run (table.run context included excluded).context included excluded =
          table.run context included excluded)) := by
  refine ⟨fun unknown => run_of_unknown unknown context, fun known => ?_⟩
  rw [run_of_known known context]
  refine ⟨Pass.runAll_ends _ _, fun included' excluded' known' same => ?_, fun passed => ?_⟩
  · rw [run_of_known known' context]
    have accept : (∀ pass ∈ table.chosen included excluded, pass.Accepts context.program) ↔
        ∀ pass ∈ table.chosen included' excluded', pass.Accepts context.program :=
      forall_congr' fun pass => imp_congr_left (same pass)
    refine ⟨?_, fun passed => ?_⟩
    · rw [Pass.failure_runAll_eq_none, Pass.failure_runAll_eq_none, accept]
    · have all := Pass.failure_runAll_eq_none.mp passed
      rw [Pass.runAll_of_accepts all, Pass.runAll_of_accepts (accept.mp all),
        Pass.settle_congr same]
  · have all := Pass.failure_runAll_eq_none.mp passed
    rw [Pass.runAll_of_accepts all, run_of_known known]
    refine ⟨rfl, ?_⟩
    rw [@Pass.runAll_of_accepts _ (Pass.settle _ context) all, Pass.settle_settle]

/-- A program that moves values by one cell. -/
def moving : Context where
  program := ⟨⟨"", ""⟩, "moving", [⟨"a", .f64, .ijk, .input⟩, ⟨"x", .f64, .ijk, .output⟩], [],
    [⟨.parallel, [⟨⟨.bottom 1, .top 0⟩, [⟨"x", .field "a" ⟨1, 0, 0⟩, ⟨0, 0⟩⟩], ⟨0, 0⟩⟩], ⟨0, 0⟩⟩]⟩
  externals := .empty
  signature := .empty
  demand := none
  minPlanes := 0

/-- The passes of `all` in another order, and twice one of them. -/
theorem run_exact_moving :
    (∀ pass, pass ∈ standard.chosen ["all"] [] ↔
      pass ∈ standard.chosen ["analyze", "ordering-check", "all"] []) ∧
      (standard.run moving ["all"] []).failure = none ∧
      standard.run moving ["all"] [] =
        standard.run moving ["analyze", "ordering-check", "all"] [] := by
  have known : ∀ name ∈ ["all"] ++ [], standard.expand? name ≠ none := by decide
  have known' : ∀ name ∈ ["analyze", "ordering-check", "all"] ++ [],
      standard.expand? name ≠ none := by decide
  have same : ∀ pass, pass ∈ standard.chosen ["all"] [] ↔
      pass ∈ standard.chosen ["analyze", "ordering-check", "all"] [] := by
    intro pass
    cases pass <;> decide
  have passed : (standard.run moving ["all"] []).failure = none :=
    Option.isNone_iff_eq_none.mp (by decide +kernel)
  have exact := ((run_exact standard moving ["all"] []).2 known).2.1
    ["analyze", "ordering-check", "all"] [] known' same
  exact ⟨same, passed, exact.2 passed⟩

end PassTable

end GridStencil
