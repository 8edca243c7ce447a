import GridStencil.Program.Basic

/-!
Folding of constants while an expression is built.

An operator whose operands are all constants becomes a constant. Its value is what the operator
gives on doubles. Comparisons and connectives give truth values; operators that keep integers give
an integer again where their value is one.
-/

namespace GridStencil.Program

/-- The kind of constant that an operator makes of constants. -/
inductive ConstantKind
  | truth
  /-- An integer where the value is one that fits, a double elsewhere. -/
  | whole
  | real
deriving DecidableEq

/-- The constant of a kind for a value. -/
def ConstantKind.literal (kind : ConstantKind) (value : Float) : Literal :=
  match kind with
  | .truth => .bool (value != 0.0)
  | .real => .float value
  | .whole =>
    match Number.Binary64.integer? value with
    | some n => if -Number.int64Bound < n ∧ n < Number.int64Bound then .int n else .float value
    | none => .float value

/-- Whether a constant is an integer. -/
def isInt : Literal → Bool
  | .int _ => true
  | .float _ | .bool _ => false

/-- The kind of constant that an operator of one argument gives. -/
def kindOfUnary (op : UnaryOperator) (arg : Literal) : ConstantKind :=
  match op with
  | .not => .truth
  | .neg | .pos | .abs => if isInt arg then .whole else .real
  | _ => .real

/-- The kind of constant that an operator of two arguments gives. -/
def kindOfBinary (op : BinaryOperator) (left right : Literal) : ConstantKind :=
  if op.isLogical then .truth
  else if op.keepsIntegers && isInt left && isInt right then .whole
  else .real

/-- An operator on an expression, folded if that is a constant. -/
def foldUnary (op : UnaryOperator) : Expr → Expr
  | .literal arg => .literal ((kindOfUnary op arg).literal (op.apply arg.toFloat))
  | arg => .unary op arg

/-- An operator on two expressions, folded if both are constants. -/
def foldBinary (op : BinaryOperator) : Expr → Expr → Expr
  | .literal left, .literal right =>
    .literal ((kindOfBinary op left right).literal (op.apply left.toFloat right.toFloat))
  | left, right => .binary op left right

/-- A choice between two expressions, made at once if the condition is a constant. -/
def foldSelect (condition whenTrue whenFalse : Expr) : Expr :=
  match condition with
  | .literal value => if value.toFloat != 0.0 then whenTrue else whenFalse
  | condition => .select condition whenTrue whenFalse

end GridStencil.Program
