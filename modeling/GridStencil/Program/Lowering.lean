import GridStencil.Program.Scope

/-!
Turning a definition into a program.

A branch becomes a temporary for its condition and the statements of both sides, each of which
keeps what its target holds at the points that take the other side. A temporary first assigned
under a branch has to be assigned on both sides of it.
-/

namespace GridStencil.Program

/-- A side of a branch: the temporary that holds the condition and whether it is true there. -/
structure Guard where
  condition : String
  taken : Bool
deriving DecidableEq

namespace Guard

/-- The condition of a branch, read at the current point. -/
def read (guard : Guard) : Expr := .field guard.condition .zero

/-- An expression that is true on the side of the guard. -/
def test (guard : Guard) : Expr := if guard.taken then guard.read else .unary .not guard.read

/-- An expression that is true where all guards hold. -/
def testAll (first : Guard) (rest : List Guard) : Expr :=
  rest.foldl (fun test guard => .binary .and test guard.test) first.test

/-- `value` at the points where all guards hold, and `current` elsewhere. -/
def guarded (value current : Expr) : List Guard → Expr
  | [] => value
  | [guard] =>
    if guard.taken then .select guard.read value current else .select guard.read current value
  | first :: second :: rest => .select (testAll first (second :: rest)) value current

end Guard

/-- The first name, in the order of names, that stands in one of two lists only. -/
def oneSided (a b : List String) : Option String :=
  ((a.filter fun name => name ∉ b) ++ b.filter fun name => name ∉ a).mergeSort.head?

mutual

/-- The statements that a statement becomes under some guards, and the scope behind it. -/
def lower (guards : List Guard) (scope : Scope) :
    Definition.Statement → Except Fault (List Statement × Scope)
  | .assign target offset value span =>
    if offset.any (· ≠ .zero) then .error ⟨span, .shiftedAssignment target⟩
    else do
      let value ← scope.resolve value
      let (current, scope) ← located span (scope.assign target)
      return ([⟨target, Guard.guarded value current guards, span⟩], scope)
  | .branch condition whenTrue whenFalse span => do
    let condition ← scope.resolve condition
    let (name, scope) := scope.openCondition
    let (first, afterTrue) ← lowerAll (guards ++ [⟨name, true⟩]) scope whenTrue
    let (second, afterFalse) ← lowerAll (guards ++ [⟨name, false⟩])
      { afterTrue with defined := scope.defined } whenFalse
    match oneSided afterTrue.defined afterFalse.defined with
    | some name => .error ⟨span, .assignedInOneBranch name⟩
    | none =>
      return (⟨name, condition, span⟩ :: first ++ second,
        { afterFalse with defined := afterTrue.defined })

/-- The statements that a list of statements becomes under some guards, and the scope behind. -/
def lowerAll (guards : List Guard) (scope : Scope) :
    List Definition.Statement → Except Fault (List Statement × Scope)
  | [] => .ok ([], scope)
  | statement :: rest => do
    let (first, scope) ← lower guards scope statement
    let (more, scope) ← lowerAll guards scope rest
    return (first ++ more, scope)

end

/-- The sections of a computation, and the scope behind it. -/
def lowerSections (scope : Scope) :
    List Definition.Section → Except Fault (List Section × Scope)
  | [] => .ok ([], scope)
  | part :: rest => do
    let interval ← scope.interval part.range
    let (body, scope) ← lowerAll [] scope part.body
    let (more, scope) ← lowerSections scope rest
    return (⟨interval, body, part.span⟩ :: more, scope)

/-- The blocks of a definition, and the scope behind them. -/
def lowerComputations (scope : Scope) :
    List Definition.Computation → Except Fault (List Block × Scope)
  | [] => .ok ([], scope)
  | computation :: rest =>
    match Policy.named? computation.policy with
    | none => .error ⟨computation.span, .unknownPolicy computation.policy⟩
    | some policy => do
      let (sections, scope) ← lowerSections scope computation.sections
      let (more, scope) ← lowerComputations scope rest
      return (⟨policy, sections, computation.span⟩ :: more, scope)

/-- A name that a definition binds, what binds it, and where. -/
structure Binding where
  name : String
  owner : String
  span : Span

/-- The names that a definition binds. -/
def bindings (definition : Definition) : List Binding :=
  definition.fields.map (fun field => ⟨field.name, "field", field.span⟩) ++
    definition.scalars.map (fun scalar => ⟨scalar.name, "scalar parameter", scalar.span⟩) ++
    definition.externals.map fun (name, span) => ⟨name, "external", span⟩

/-- The first binding of a name that was bound before. -/
def clash? (seen : List Binding) : List Binding → Option Fault
  | [] => none
  | binding :: rest =>
    match seen.find? (·.name == binding.name) with
    | some earlier => some ⟨binding.span, .alreadyBound binding.name earlier.owner⟩
    | none => clash? (binding :: seen) rest

/-- The values of the externals that a definition declares. -/
def resolveExternals (definition : Definition) (externals : Externals) :
    Except Fault Externals := do
  let values ← definition.externals.mapM fun (name, span) =>
    match externals.get? name with
    | some value => .ok (name, value)
    | none => .error ⟨span, .unresolvedExternal name⟩
  return .ofList values

/-- Whether a definition has a parameter with this name. -/
def hasParameter (definition : Definition) (name : String) : Bool :=
  definition.fields.any (·.name == name) || definition.scalars.any (·.name == name)

mutual

/-- The targets of all assignments in a statement. -/
def targets : Definition.Statement → List String
  | .assign target _ _ _ => [target]
  | .branch _ whenTrue whenFalse _ => targetsAll whenTrue ++ targetsAll whenFalse

/-- The targets of all assignments in a list of statements. -/
def targetsAll : List Definition.Statement → List String
  | [] => []
  | statement :: rest => targets statement ++ targetsAll rest

end

/-- The names that a definition binds or assigns. -/
def namesIn (definition : Definition) : List String :=
  (bindings definition).map Binding.name ++
    definition.computations.flatMap fun computation =>
      computation.sections.flatMap fun part => targetsAll part.body

/-- The scope at the start of a definition. -/
def Scope.start (definition : Definition) (externals : Externals) (signature : Signature) :
    Scope where
  externals
  scalars := definition.scalars.map fun scalar =>
    ⟨scalar.name, (signature.get? scalar.name).getD scalar.type⟩
  fields := definition.fields.map fun field =>
    ⟨field.name, (signature.get? field.name).getD field.type, field.dimensions, .input⟩
  defined := []
  assigned := []
  fresh := .avoiding (namesIn definition)

/-- The program of a definition and the externals it uses, or the first fault of the
definition. -/
def ofDefinition? (definition : Definition) (externals : Externals) (signature : Signature) :
    Except Fault (Program × Externals) := do
  if let some fault := clash? [] (bindings definition) then .error fault
  let externals ← resolveExternals definition externals
  if let some name := signature.names.find? fun name => !hasParameter definition name then
    .error ⟨definition.span, .unknownParameter name definition.name⟩
  let (blocks, scope) ←
    lowerComputations (.start definition externals signature) definition.computations
  return (⟨definition.source, definition.name, scope.fields, scope.scalars, blocks⟩, externals)

end GridStencil.Program
