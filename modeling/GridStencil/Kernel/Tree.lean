import GridStencil.Kernel.Frame

/-!
Expressions of a kernel, evaluated at one point at a time.

Both sides of a choice are evaluated before its condition, so whether a point can be computed does
not depend on values.
-/

namespace GridStencil

/-- An expression in which fields and scalars are numbers. -/
inductive Tree
  | field (slot : Nat) (offset : Offset)
  | scalar (slot : Nat)
  | constant (value : Float)
  | unary (op : UnaryOperator) (arg : Tree)
  | binary (op : BinaryOperator) (left right : Tree)
  | select (condition whenTrue whenFalse : Tree)

namespace Tree

/-- The tree of an expression. -/
def ofExpr? (interface : Interface) : Program.Expr → Except Cause Tree
  | .field name offset =>
    match interface.slot? name with
    | some slot => .ok (.field slot offset)
    | none => .error (.undeclaredField name)
  | .scalar name =>
    match interface.scalarSlot? name with
    | some slot => .ok (.scalar slot)
    | none => .error (.undeclaredScalar name)
  | .literal value => .ok (.constant value.toFloat)
  | .unary op arg => return .unary op (← ofExpr? interface arg)
  | .binary op left right => do
    let left ← ofExpr? interface left
    return .binary op left (← ofExpr? interface right)
  | .select condition whenTrue whenFalse => do
    let condition ← ofExpr? interface condition
    let whenTrue ← ofExpr? interface whenTrue
    return .select condition whenTrue (← ofExpr? interface whenFalse)

/-- The value of a tree at a point. -/
def eval (frame : Frame) (point : Offset) : Tree → Except Cause Float
  | field slot offset => (frame.view slot).read (point.add offset)
  | scalar slot => .ok (frame.scalar slot)
  | constant value => .ok value
  | unary op arg => return op.apply (← arg.eval frame point)
  | binary op left right => do
    let left ← left.eval frame point
    return op.apply left (← right.eval frame point)
  | select condition whenTrue whenFalse => do
    let whenTrue ← whenTrue.eval frame point
    let whenFalse ← whenFalse.eval frame point
    return if (← condition.eval frame point) != 0.0 then whenTrue else whenFalse

/-- The values of a tree at all points of a region. -/
def evalAll (tree : Tree) (frame : Frame) (region : Region) : Except Cause (List Float) :=
  region.points.mapM fun point => tree.eval frame point

/-- The text of a tree. -/
def render : Tree → String
  | field slot offset => "f" ++ toString slot ++ offset.render
  | scalar slot => "s" ++ toString slot
  | constant value => Number.text value
  | unary op arg => "(" ++ op.tag ++ " " ++ arg.render ++ ")"
  | binary op left right => "(" ++ op.tag ++ " " ++ left.render ++ " " ++ right.render ++ ")"
  | select condition whenTrue whenFalse =>
    "(select " ++ condition.render ++ " " ++ whenTrue.render ++ " " ++ whenFalse.render ++ ")"

/-- The lines of a tree in a listing. -/
def lines (tree : Tree) : List String := ["    " ++ tree.render]

end Tree

end GridStencil
