import GridStencil.Definition.Basic
import GridStencil.Error
import GridStencil.Name.Fresh
import GridStencil.Program.Fold

/-!
The names in view while a definition is resolved, and what reading or assigning one means.

A scope grows along the text. It knows the parameters and externals of the definition and the
temporaries met so far. A temporary may be read where it is `defined`, that is assigned on every
way to this place; it is `assigned` once any assignment to it has been met.
-/

namespace GridStencil.Program

/-- The names in view at some place of a definition. -/
structure Scope where
  externals : Externals
  scalars : List Scalar
  fields : List Field
  /-- The temporaries that hold a value on every way to this place. -/
  defined : List String
  /-- The names assigned so far, on any way. -/
  assigned : List String
  /-- The supply of names for conditions. -/
  fresh : Name.Fresh

/-- What a failing step is blamed on. -/
def located {α : Type} (span : Span) : Except Cause α → Except Fault α :=
  Except.mapError (⟨span, ·⟩)

namespace Scope

/-- The field with a name. -/
def field? (scope : Scope) (name : String) : Option Field :=
  scope.fields.find? (·.name == name)

/-- Whether a name is that of a scalar parameter. -/
def hasScalar (scope : Scope) (name : String) : Bool := scope.scalars.any (·.name == name)

/-- What reading a name means. -/
def read (scope : Scope) (name : String) (offset : Option Offset) : Except Cause Expr :=
  match scope.externals.get? name with
  | some value =>
    if offset.isSome then .error (.shiftedExternal name) else .ok (.literal value)
  | none =>
    if scope.hasScalar name then
      if offset.isSome then .error (.shiftedScalar name) else .ok (.scalar name)
    else
      match scope.field? name with
      | none => .error (.undefined "field" name)
      | some field =>
        let offset := offset.getD .zero
        if field.role = .temporary ∧ name ∉ scope.defined then .error (.readBeforeAssigned name)
        else if field.dimensions = .zero ∧ offset ≠ .zero then .error (.shiftedZeroDim name)
        else .ok (.field name offset)

/-- The resolved form of an expression, with its constants folded. -/
def resolve (scope : Scope) : Definition.Expr → Except Fault Expr
  | .literal value _ => .ok (.literal value)
  | .name name span => located span (scope.read name none)
  | .access name offset span => located span (scope.read name (some offset))
  | .unary op arg _ => return foldUnary op (← scope.resolve arg)
  | .binary op left right _ => do
    let left ← scope.resolve left
    return foldBinary op left (← scope.resolve right)
  | .conditional condition whenTrue whenFalse _ => do
    let condition ← scope.resolve condition
    let whenTrue ← scope.resolve whenTrue
    return foldSelect condition whenTrue (← scope.resolve whenFalse)

/-- The scope with `name` among the defined temporaries. -/
def holding (scope : Scope) (name : String) : Scope :=
  if name ∈ scope.defined then scope else { scope with defined := name :: scope.defined }

/-- The scope with one more temporary, which is defined. -/
def withTemporary (scope : Scope) (name : String) (type : ElementType) : Scope :=
  holding { scope with fields := scope.fields ++ [⟨name, type, .ijk, .temporary⟩] } name

/-- The scope in which the parameter `name` is an output. -/
def withOutput (scope : Scope) (name : String) : Scope :=
  { scope with fields := scope.fields.map fun field =>
      if field.name = name then { field with role := .output } else field }

/-- The scope behind an assignment to a name. -/
def define (scope : Scope) (name : String) : Except Cause Scope :=
  if scope.hasScalar name then .error (.assignedScalar name)
  else if (scope.externals.get? name).isSome then .error (.assignedExternal name)
  else
    match scope.field? name with
    | none => .ok (scope.withTemporary name .f64)
    | some field =>
      if field.dimensions = .zero then .error (.assignedZeroDim name)
      else
        match field.role with
        | .input => .ok (scope.withOutput name)
        | .output => .ok scope
        | .temporary => .ok (scope.holding name)

/-- Whether no assignment to the temporary `name` has been met. -/
def isFresh (scope : Scope) (name : String) : Bool :=
  (scope.field? name).all (·.role = .temporary) && !scope.assigned.contains name

/-- What the target of an assignment holds before it, and the scope behind. A temporary that was
never assigned holds nothing yet, which counts as zero. -/
def assign (scope : Scope) (target : String) : Except Cause (Expr × Scope) :=
  if scope.isFresh target then do
    let scope := { scope with assigned := target :: scope.assigned }
    return (.literal (.float 0.0), ← scope.define target)
  else do
    return (.field target .zero, ← scope.define target)

/-- The stem of the names for conditions. -/
def conditionStem : String := "__cond"

/-- A temporary for the condition of a branch, and the scope that holds it. -/
def openCondition (scope : Scope) : String × Scope :=
  let (name, fresh) := scope.fresh.next conditionStem
  (name, withTemporary { scope with fresh } name .bool)

/-- The height that an end of an interval stands for. -/
def bound (scope : Scope) : Definition.Bound → Except Fault AxisBound
  | .int value => .ok (.ofSource value)
  | .top => .ok (.top 0)
  | .external name span =>
    match scope.externals.get? name with
    | some (.int value) => .ok (.ofSource value)
    | some value => .error ⟨span, .boundNotInteger name value⟩
    | none => .error ⟨span, .undefined "external" name⟩

/-- The planes that a range stands for. -/
def interval (scope : Scope) : Definition.Range → Except Fault Interval
  | .full => .ok .full
  | .between lower upper => do
    let lower ← scope.bound lower
    return ⟨lower, ← scope.bound upper⟩

end Scope

end GridStencil.Program
