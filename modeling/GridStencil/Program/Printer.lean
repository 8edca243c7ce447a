import GridStencil.Definition.Printer
import GridStencil.Program.Basic

/-!
The text of resolved expressions.

Parentheses stand only where the operators need them. A constant with a sign binds like a sign, and
the operand of a sign has to bind tighter than a sign.
-/

namespace GridStencil.Program

open Definition (parenthesised leftAsks rightAsks)

/-- How tightly the text of a constant binds. -/
def literalPrecedence : Literal → Nat
  | .int value =>
    if value < 0 then UnaryOperator.neg.precedence else UnaryOperator.atomPrecedence
  | .float value =>
    if Number.Binary64.isNegative value then UnaryOperator.neg.precedence
    else UnaryOperator.atomPrecedence
  | .bool _ => UnaryOperator.atomPrecedence

/-- How tightly an expression binds. -/
def Expr.precedence : Expr → Nat
  | literal value => literalPrecedence value
  | field _ _ | scalar _ => UnaryOperator.atomPrecedence
  | unary op _ => op.precedence
  | binary op _ _ =>
    if op.functionName?.isSome then UnaryOperator.atomPrecedence else op.precedence
  | select _ _ _ => 0

/-- How tightly an operator without a name asks its operand to bind. -/
def operandAsks : UnaryOperator → Nat
  | .not => UnaryOperator.not.precedence
  | op => op.precedence + 1

/-- The text of an expression in a place that asks for `strength`. -/
def Expr.renderAt (strength : Nat) (e : Expr) : String :=
  parenthesised e.precedence strength <|
    match e with
    | literal value => value.render
    | field name offset => if offset = .zero then name else name ++ offset.render
    | scalar name => name
    | unary op arg =>
      match op.functionName? with
      | some function => function ++ "(" ++ arg.renderAt 0 ++ ")"
      | none => op.symbol ++ arg.renderAt (operandAsks op)
    | binary op left right =>
      match op.functionName? with
      | some function => function ++ "(" ++ left.renderAt 0 ++ ", " ++ right.renderAt 0 ++ ")"
      | none =>
        left.renderAt (leftAsks op) ++ " " ++ op.symbol ++ " " ++ right.renderAt (rightAsks op)
    | select condition whenTrue whenFalse =>
      whenTrue.renderAt 1 ++ " if " ++ condition.renderAt 1 ++ " else " ++ whenFalse.renderAt 0

/-- The text of an expression. -/
def Expr.render (e : Expr) : String := e.renderAt 0

end GridStencil.Program
