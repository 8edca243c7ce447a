import GridStencil.Check.Intervals
import GridStencil.Check.Ordering
import GridStencil.Context

/-!
Passes over a context, names for groups of them, and running a choice of them.

A plan is the list of passes that a list of names asks for, without those that another list
excludes. All names are looked up before anything runs. A run ends at the first pass that fails;
what the passes found out until then stays.
-/

namespace GridStencil

/-- A pass over a context. -/
inductive Pass
  | intervalCheck
  | orderingCheck
  | inferExtents
deriving DecidableEq

/-- A context after some passes, their messages, and the error that ended them. -/
structure Outcome where
  context : Context
  log : List LogEntry
  failure : Option Error

namespace Pass

/-- The name of a pass. -/
def name : Pass → String
  | intervalCheck => "interval-check"
  | orderingCheck => "ordering-check"
  | inferExtents => "infer-extents"

/-- What a pass is for. -/
def description : Pass → String
  | intervalCheck => "Check that intervals are non-empty, disjoint and ordered"
  | orderingCheck => "Check that vertical self-references follow the iteration policy"
  | inferExtents => "Compute the halo every field needs and the region of every statement"

/-- The line that describes a pass. -/
def help (pass : Pass) : String := "- " ++ pass.name ++ ": " ++ pass.description

/-- A context after a check, with what the check found. -/
def check (report : Program → Report) (context : Context) : Context × Diagnostics :=
  let report := report context.program
  (context.raise report.planes, report.diagnostics context.program.source)

/-- A context after a check; the first finding ends the run. -/
def runCheck (target : String) (report : Program → Report) (context : Context) : Outcome :=
  let (context, diagnostics) := check report context
  let (log, failure) := diagnostics.verdict target
  ⟨context, log, failure⟩

/-- A context with its demand. -/
def runExtents (context : Context) : Outcome :=
  match Demand.ofProgram? context.program with
  | .ok demand => ⟨{ context with demand := some demand }, [], none⟩
  | .error fault => ⟨context, [], some (fault.within context.program.source)⟩

/-- A context after a pass. -/
def run (pass : Pass) (context : Context) : Outcome :=
  match pass with
  | intervalCheck => runCheck pass.name Check.intervals context
  | orderingCheck => runCheck pass.name Check.ordering context
  | inferExtents => runExtents context

/-- A context after some passes, up to the first one that fails. -/
def runAll : List Pass → Context → Outcome
  | [], context => ⟨context, [], none⟩
  | pass :: rest, context =>
    let first := pass.run context
    match first.failure with
    | some _ => first
    | none =>
      let more := runAll rest first.context
      { more with log := first.log ++ more.log }

end Pass

/-- The passes that can be asked for, and names for groups of them. -/
structure PassTable where
  passes : List Pass
  aliases : Name.Table (List Pass)

namespace PassTable

/-- No passes. -/
def empty : PassTable := ⟨[], .empty⟩

/-- The pass with a name. -/
def pass? (table : PassTable) (name : String) : Option Pass :=
  table.passes.find? (·.name == name)

/-- The passes that a name stands for. -/
def expand? (table : PassTable) (name : String) : Option (List Pass) :=
  match table.aliases.get? name with
  | some passes => some passes
  | none => (table.pass? name).map fun pass => [pass]

/-- The passes that some names stand for; a name without any is blamed in words of its own. -/
def expandAll (table : PassTable) (blame : String → Cause) :
    List String → Except Error (List Pass)
  | [] => .ok []
  | name :: rest =>
    match table.expand? name with
    | none => .error (.ofCause (blame name))
    | some passes => return passes ++ (← table.expandAll blame rest)

/-- The table with one more pass. -/
def register (table : PassTable) (pass : Pass) : Except Error PassTable :=
  if (table.pass? pass.name).isSome then .error (.ofCause (.duplicatePass pass.name))
  else .ok { table with passes := table.passes ++ [pass] }

/-- The table with one more name for a group of passes. -/
def addAlias (table : PassTable) (name : String) (members : List String) :
    Except Error PassTable :=
  if (table.aliases.get? name).isSome then .error (.ofCause (.duplicateAlias name))
  else do
    let passes ← table.expandAll .unknownMember members
    return { table with aliases := table.aliases.insert name passes }

/-- What there is to know about a name. -/
def help? (table : PassTable) (name : String) : Option String :=
  match table.pass? name with
  | some pass => some pass.help
  | none =>
    (table.aliases.get? name).map fun passes =>
      Text.quoted name ++ " is an alias for pass pipeline:\n" ++
        "\n".intercalate (passes.map ("- " ++ ·.name))

/-- What there is to know about all passes and groups. -/
def helpAll (table : PassTable) : String :=
  let passes := table.passes.mergeSort fun a b => a.name ≤ b.name
  let groups := table.aliases.entries.map fun (name, passes) =>
    "- " ++ name ++ ": " ++ ", ".intercalate (passes.map Pass.name)
  Text.unlines ("Passes:" :: passes.map Pass.help ++ "" :: "Aliases:" :: groups)

/-- The passes that `included` asks for, without those of `excluded`. -/
def plan (table : PassTable) (included excluded : List String) : Except Error (List Pass) := do
  let passes ← table.expandAll .unknownPass included
  let unwanted ← table.expandAll .unknownPass excluded
  return passes.filter fun pass => !unwanted.contains pass

/-- A context after a plan. -/
def run (table : PassTable) (context : Context) (included excluded : List String) : Outcome :=
  match table.plan included excluded with
  | .ok passes => Pass.runAll passes context
  | .error error => ⟨context, [], some error⟩

/-- The table of all passes, with a group of checks, one of analyses, and one of all. -/
def standard : PassTable where
  passes := [.intervalCheck, .orderingCheck, .inferExtents]
  aliases := .ofList [
    ("validate", [.intervalCheck, .orderingCheck]),
    ("analyze", [.inferExtents]),
    ("all", [.intervalCheck, .orderingCheck, .inferExtents])]

end PassTable

end GridStencil
