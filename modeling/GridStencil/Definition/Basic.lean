import GridStencil.ElementType
import GridStencil.Grid.Offset
import GridStencil.Literal
import GridStencil.Operator
import GridStencil.Source

/-!
Stencil definitions as they are written.

Every part carries the span of its text; `Definition.withoutSpans` forgets them, so that two
definitions are the same up to layout when it makes them equal.
-/

namespace GridStencil

namespace Definition

/-- An expression. The span of an operation with a sign or an infix operator is that of the
operator; all other spans are those of the whole text. -/
inductive Expr
  | literal (value : Literal) (span : Span)
  /-- A field at the current point, a scalar parameter or an external. -/
  | name (name : String) (span : Span)
  /-- A field at an offset. -/
  | access (name : String) (offset : Offset) (span : Span)
  | unary (op : UnaryOperator) (arg : Expr) (span : Span)
  | binary (op : BinaryOperator) (left right : Expr) (span : Span)
  /-- The second expression where the first is true, the third elsewhere. -/
  | conditional (condition whenTrue whenFalse : Expr) (span : Span)
deriving DecidableEq

/-- A statement of an interval. -/
inductive Statement
  /-- `target = value`; an offset behind the target has to be zero. -/
  | assign (target : String) (offset : Option Offset) (value : Expr) (span : Span)
  /-- One list of statements where the condition is true, another elsewhere. -/
  | branch (condition : Expr) (whenTrue whenFalse : List Statement) (span : Span)

/-- An end of a vertical interval. -/
inductive Bound
  /-- Counted from the bottom, or from the top if negative. -/
  | int (value : Int)
  /-- The top of the domain. -/
  | top
  /-- The value of an external. -/
  | external (name : String) (span : Span)
deriving DecidableEq

/-- The planes of an interval. -/
inductive Range
  | full
  | between (lower upper : Bound)
deriving DecidableEq

/-- Statements on the planes of one interval. -/
structure Section where
  range : Range
  body : List Statement
  span : Span

/-- The sections of one computation, under a policy that is not yet checked. -/
structure Computation where
  policy : String
  sections : List Section
  span : Span

/-- A field in the signature. -/
structure FieldParameter where
  name : String
  type : ElementType
  dimensions : Dimensions
  span : Span
deriving DecidableEq

/-- A scalar in the signature. -/
structure ScalarParameter where
  name : String
  type : ElementType
  span : Span
deriving DecidableEq

end Definition

/-- A stencil definition with the source it was read from. -/
structure Definition where
  source : Source
  name : String
  fields : List Definition.FieldParameter
  scalars : List Definition.ScalarParameter
  externals : List (String × Span)
  computations : List Definition.Computation
  span : Span

namespace Definition

/-- Whether a definition declares an external. -/
def declares (d : Definition) (name : String) : Bool := d.externals.any (·.1 == name)

/-- The place of a span of the definition. -/
def place (d : Definition) (span : Span) : Place := ⟨d.source, span⟩

/-- The span that stands in for a forgotten one. -/
def noSpan : Span := ⟨0, 0⟩

/-- An expression with its spans forgotten. -/
def Expr.withoutSpans : Expr → Expr
  | literal value _ => literal value noSpan
  | name n _ => name n noSpan
  | access n offset _ => access n offset noSpan
  | unary op arg _ => unary op arg.withoutSpans noSpan
  | binary op left right _ => binary op left.withoutSpans right.withoutSpans noSpan
  | conditional condition whenTrue whenFalse _ =>
    conditional condition.withoutSpans whenTrue.withoutSpans whenFalse.withoutSpans noSpan

mutual

/-- A statement with its spans forgotten. -/
def Statement.withoutSpans : Statement → Statement
  | .assign target offset value _ => .assign target offset value.withoutSpans noSpan
  | .branch condition whenTrue whenFalse _ =>
    .branch condition.withoutSpans (Statement.listWithoutSpans whenTrue)
      (Statement.listWithoutSpans whenFalse) noSpan

/-- Statements with their spans forgotten. -/
def Statement.listWithoutSpans : List Statement → List Statement
  | [] => []
  | s :: rest => s.withoutSpans :: Statement.listWithoutSpans rest

end

/-- A bound with its span forgotten. -/
def Bound.withoutSpans : Bound → Bound
  | int value => int value
  | top => top
  | external name _ => external name noSpan

/-- A range with its spans forgotten. -/
def Range.withoutSpans : Range → Range
  | full => full
  | between lower upper => between lower.withoutSpans upper.withoutSpans

/-- A section with its spans forgotten. -/
def Section.withoutSpans (s : Section) : Section :=
  ⟨s.range.withoutSpans, Statement.listWithoutSpans s.body, noSpan⟩

/-- A computation with its spans forgotten. -/
def Computation.withoutSpans (c : Computation) : Computation :=
  ⟨c.policy, c.sections.map Section.withoutSpans, noSpan⟩

/-- A definition with its source and all spans forgotten. -/
def withoutSpans (d : Definition) : Definition where
  source := ⟨"", ""⟩
  name := d.name
  fields := d.fields.map fun f => { f with span := noSpan }
  scalars := d.scalars.map fun s => { s with span := noSpan }
  externals := d.externals.map fun e => (e.1, noSpan)
  computations := d.computations.map Computation.withoutSpans
  span := noSpan

end Definition

end GridStencil
