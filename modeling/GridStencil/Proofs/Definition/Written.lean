import GridStencil.Definition.Basic
import GridStencil.Definition.Printer
import GridStencil.Proofs.Grammar.Token

/-!
**What definitions that are read from a text are made of.**

Names are names of the grammar, integers lie in their range, constants carry no sign, and the
external of a bound does not start with the word for the top of the domain, which the grammar
prefers there (`Definition.Written`). Whether a double reads back from its shortest text is a
matter of how numbers are converted, so it is kept apart (`Number.ReadsBack`, `Definition.floats`).
-/

namespace GridStencil

open Grammar

/-- Whether a double carries no sign, is finite, and reads back from its shortest text. -/
def Number.ReadsBack (x : Float) : Prop :=
  (∃ mantissa exponent, Binary64.form x = .finite false mantissa exponent) ∧
    readFloat? (text x).toList = some x

namespace Definition

/-- Whether a constant can be written without a sign. -/
def WrittenLiteral : Literal → Prop
  | .int value => 0 ≤ value ∧ Number.InRange value
  | .float _ | .bool _ => True

/-- Whether an offset can be written. -/
def WrittenOffset (offset : Offset) : Prop :=
  Number.InRange offset.i ∧ Number.InRange offset.j ∧ Number.InRange offset.k

/-- Whether an expression can be written. -/
def Expr.Written : Expr → Prop
  | literal value _ => WrittenLiteral value
  | name n _ => IsName n
  | access n offset _ => IsName n ∧ WrittenOffset offset
  | unary _ arg _ => arg.Written
  | binary _ left right _ => left.Written ∧ right.Written
  | conditional condition whenTrue whenFalse _ =>
    condition.Written ∧ whenTrue.Written ∧ whenFalse.Written

/-- The doubles of a constant. -/
def literalFloats : Literal → List Float
  | .float value => [value]
  | .int _ | .bool _ => []

/-- The doubles in an expression. -/
def Expr.floats : Expr → List Float
  | literal value _ => literalFloats value
  | name _ _ | access _ _ _ => []
  | unary _ arg _ => arg.floats
  | binary _ left right _ => left.floats ++ right.floats
  | conditional condition whenTrue whenFalse _ =>
    condition.floats ++ whenTrue.floats ++ whenFalse.floats

mutual

/-- Whether a statement can be written. -/
def Statement.Written : Statement → Prop
  | .assign target offset value _ =>
    IsName target ∧ (∀ o, offset = some o → WrittenOffset o) ∧ value.Written
  | .branch condition whenTrue whenFalse _ =>
    condition.Written ∧ Statement.ListWritten whenTrue ∧ Statement.ListWritten whenFalse

/-- Whether statements can be written. -/
def Statement.ListWritten : List Statement → Prop
  | [] => True
  | s :: rest => s.Written ∧ Statement.ListWritten rest

end

mutual

/-- The doubles in a statement. -/
def Statement.floats : Statement → List Float
  | .assign _ _ value _ => value.floats
  | .branch condition whenTrue whenFalse _ =>
    condition.floats ++ Statement.listFloats whenTrue ++ Statement.listFloats whenFalse

/-- The doubles in statements. -/
def Statement.listFloats : List Statement → List Float
  | [] => []
  | s :: rest => s.floats ++ Statement.listFloats rest

end

/-- Whether a bound can be written. -/
def Bound.Written : Bound → Prop
  | int value => Number.InRange value
  | top => True
  | external name _ => IsName name ∧ ¬ "None".toList <+: name.toList

/-- Whether a range can be written. -/
def Range.Written : Range → Prop
  | full => True
  | between lower upper => lower.Written ∧ upper.Written

/-- Whether a section can be written. -/
def Section.Written (s : Section) : Prop := s.range.Written ∧ Statement.ListWritten s.body

/-- Whether a computation can be written. -/
def Computation.Written (c : Computation) : Prop :=
  IsName c.policy ∧ ∀ s ∈ c.sections, s.Written

/-- The doubles in a computation. -/
def Computation.floats (c : Computation) : List Float :=
  c.sections.flatMap fun s => Statement.listFloats s.body

end Definition

/-- Whether a definition can be written. -/
structure Definition.Written (d : Definition) : Prop where
  name : IsName d.name
  fields : ∀ f ∈ d.fields, IsName f.name
  scalars : ∀ s ∈ d.scalars, IsName s.name
  externals : ∀ e ∈ d.externals, IsName e.1
  computations : ∀ c ∈ d.computations, c.Written

/-- The doubles in a definition. -/
def Definition.floats (d : Definition) : List Float :=
  d.computations.flatMap Computation.floats

end GridStencil
