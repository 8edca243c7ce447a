/-!
The rules of the grammar, by name.

`Rule.all` lists them in the order in which messages name them.
-/

namespace GridStencil.Grammar

/-- The parts that a text is made of and that messages may ask for. -/
inductive Rule
  | endOfInput
  | identifier
  | elementType
  | float
  | int
  | signedInt
  | trueLit
  | falseLit
  | neg
  | pos
  | notOp
  | pow
  | add
  | sub
  | mul
  | div
  | modulo
  | le
  | ge
  | lt
  | gt
  | eq
  | ne
  | andOp
  | orOp
  | offset
  | call
  | access
  | arith
  | expr
  | assign
  | ifStmt
  | block
  | wildcard
  | noneKw
  | bound
  | intervalRange
  | intervalDef
  | computation
  | computations
  | dimsIjk
  | dimsZero
  | fieldParam
  | scalarParam
  | kwStar
  | params
  | externals
  | stencilDef
  | file
deriving DecidableEq

namespace Rule

/-- All rules in the order in which messages name them. -/
def all : List Rule :=
  [endOfInput, identifier, elementType, float, int, signedInt, trueLit, falseLit, neg, pos, notOp,
    pow, add, sub, mul, div, modulo, le, ge, lt, gt, eq, ne, andOp, orOp, offset, call, access,
    arith, expr, assign, ifStmt, block, wildcard, noneKw, bound, intervalRange, intervalDef,
    computation, computations, dimsIjk, dimsZero, fieldParam, scalarParam, kwStar, params,
    externals, stencilDef, file]

/-- The name of a rule in messages. -/
def name : Rule → String
  | endOfInput => "EOI"
  | identifier => "identifier"
  | elementType => "dtype"
  | float => "float"
  | int => "int"
  | signedInt => "signed_int"
  | trueLit => "true_lit"
  | falseLit => "false_lit"
  | neg => "neg"
  | pos => "pos"
  | notOp => "not_op"
  | pow => "pow"
  | add => "add"
  | sub => "sub"
  | mul => "mul"
  | div => "div"
  | modulo => "modulo"
  | le => "le"
  | ge => "ge"
  | lt => "lt"
  | gt => "gt"
  | eq => "eq"
  | ne => "ne"
  | andOp => "and_op"
  | orOp => "or_op"
  | offset => "offset"
  | call => "call"
  | access => "access"
  | arith => "arith"
  | expr => "expr"
  | assign => "assign"
  | ifStmt => "if_stmt"
  | block => "block"
  | wildcard => "wildcard"
  | noneKw => "none_kw"
  | bound => "bound"
  | intervalRange => "interval_range"
  | intervalDef => "interval_def"
  | computation => "computation"
  | computations => "computations"
  | dimsIjk => "dims_ijk"
  | dimsZero => "dims_zero"
  | fieldParam => "field_param"
  | scalarParam => "scalar_param"
  | kwStar => "kw_star"
  | params => "params"
  | externals => "externals"
  | stencilDef => "stencil_def"
  | file => "file"

theorem mem_all (rule : Rule) : rule ∈ all := by
  cases rule <;> decide

end Rule

end GridStencil.Grammar
