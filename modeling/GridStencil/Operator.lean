import GridStencil.Literal
import GridStencil.Number.Binary64

/-!
Operators and built-in functions on doubles.

Comparisons and connectives give one for true and zero for false, and take every value but zero
for true. The remainder has the sign of the divisor.
-/

namespace GridStencil

/-- Operators and functions of one argument. -/
inductive UnaryOperator
  | neg
  | pos
  | not
  | abs
  | sqrt
  | exp
  | log
  | floor
  | ceil
  | sin
  | cos
  | tan
deriving DecidableEq

namespace UnaryOperator

/-- The functions of one argument. -/
def functions : List UnaryOperator := [abs, sqrt, exp, log, floor, ceil, sin, cos, tan]

/-- The name of a function; signs and negation have none. -/
def functionName? : UnaryOperator → Option String
  | neg | pos | not => none
  | abs => some "abs"
  | sqrt => some "sqrt"
  | exp => some "exp"
  | log => some "log"
  | floor => some "floor"
  | ceil => some "ceil"
  | sin => some "sin"
  | cos => some "cos"
  | tan => some "tan"

/-- The function of one argument with this name. -/
def function? (name : String) : Option UnaryOperator :=
  functions.find? fun op => op.functionName? == some name

/-- What stands before the argument. -/
def symbol : UnaryOperator → String
  | neg => "-"
  | pos => "+"
  | not => "not "
  | op => op.functionName?.getD ""

/-- The name of an operator in kernel listings. -/
def tag : UnaryOperator → String
  | neg => "Neg"
  | pos => "Pos"
  | not => "Not"
  | abs => "Abs"
  | sqrt => "Sqrt"
  | exp => "Exp"
  | log => "Log"
  | floor => "Floor"
  | ceil => "Ceil"
  | sin => "Sin"
  | cos => "Cos"
  | tan => "Tan"

/-- The strength of a binding that never needs parentheses. -/
def atomPrecedence : Nat := 10

/-- How tightly an operator binds its argument. A call needs no parentheses anywhere. -/
def precedence : UnaryOperator → Nat
  | not => 3
  | neg | pos => 7
  | _ => atomPrecedence

/-- The value of an operator. -/
def apply (op : UnaryOperator) (x : Float) : Float :=
  match op with
  | neg => -x
  | pos => x
  | not => Literal.ofTruth (x == 0.0)
  | abs => x.abs
  | sqrt => x.sqrt
  | exp => x.exp
  | log => x.log
  | floor => Number.Binary64.floor x
  | ceil => Number.Binary64.ceil x
  | sin => x.sin
  | cos => x.cos
  | tan => x.tan

theorem function?_of_functionName? {op : UnaryOperator} {name : String}
    (h : op.functionName? = some name) : function? name = some op := by
  cases op <;> simp only [functionName?, Option.some.injEq, reduceCtorEq] at h <;>
    subst h <;> decide

end UnaryOperator

/-- Operators and functions of two arguments. -/
inductive BinaryOperator
  | add
  | sub
  | mul
  | div
  | mod
  | pow
  | eq
  | ne
  | lt
  | le
  | gt
  | ge
  | and
  | or
  | min
  | max
deriving DecidableEq

namespace BinaryOperator

/-- All operators of two arguments. -/
def all : List BinaryOperator :=
  [add, sub, mul, div, mod, pow, eq, ne, lt, le, gt, ge, and, or, min, max]

/-- The function of two arguments with this name. A power may be written as a call, too. -/
def function? (name : String) : Option BinaryOperator :=
  if name = "min" then some min
  else if name = "max" then some max
  else if name = "pow" then some pow
  else none

/-- The name of an operator that is always written as a call. -/
def functionName? : BinaryOperator → Option String
  | min => some "min"
  | max => some "max"
  | _ => none

/-- The text of an operator. -/
def symbol : BinaryOperator → String
  | add => "+"
  | sub => "-"
  | mul => "*"
  | div => "/"
  | mod => "%"
  | pow => "**"
  | eq => "=="
  | ne => "!="
  | lt => "<"
  | le => "<="
  | gt => ">"
  | ge => ">="
  | and => "and"
  | or => "or"
  | min => "min"
  | max => "max"

/-- The name of an operator in kernel listings. -/
def tag : BinaryOperator → String
  | add => "Add"
  | sub => "Sub"
  | mul => "Mul"
  | div => "Div"
  | mod => "Mod"
  | pow => "Pow"
  | eq => "Eq"
  | ne => "Ne"
  | lt => "Lt"
  | le => "Le"
  | gt => "Gt"
  | ge => "Ge"
  | and => "And"
  | or => "Or"
  | min => "Min"
  | max => "Max"

/-- How tightly an operator binds its arguments, on the scale of `UnaryOperator.precedence`. -/
def precedence : BinaryOperator → Nat
  | or => 1
  | and => 2
  | eq | ne | lt | le | gt | ge => 4
  | add | sub => 5
  | mul | div | mod => 6
  | pow => 8
  | min | max => 9

/-- Whether the value is a truth value. -/
def isLogical : BinaryOperator → Bool
  | eq | ne | lt | le | gt | ge | and | or => true
  | _ => false

/-- Whether the value of integers is an integer. -/
def keepsIntegers : BinaryOperator → Bool
  | add | sub | mul | mod | min | max => true
  | _ => false

/-- The smaller of two doubles; what is no number counts as missing. -/
def least (x y : Float) : Float := if x.isNaN then y else if y < x then y else x

/-- The larger of two doubles; what is no number counts as missing. -/
def greatest (x y : Float) : Float := if x.isNaN then y else if x < y then y else x

/-- The value of an operator. -/
def apply (op : BinaryOperator) (x y : Float) : Float :=
  match op with
  | add => x + y
  | sub => x - y
  | mul => x * y
  | div => x / y
  | mod => x - y * Number.Binary64.floor (x / y)
  | pow => x.pow y
  | eq => Literal.ofTruth (x == y)
  | ne => Literal.ofTruth (x != y)
  | lt => Literal.ofTruth (x < y)
  | le => Literal.ofTruth (x ≤ y)
  | gt => Literal.ofTruth (y < x)
  | ge => Literal.ofTruth (y ≤ x)
  | and => Literal.ofTruth (x != 0.0 && y != 0.0)
  | or => Literal.ofTruth (x != 0.0 || y != 0.0)
  | min => least x y
  | max => greatest x y

end BinaryOperator

end GridStencil
