import GridStencil.Definition.Precedence
import GridStencil.Error
import GridStencil.Grammar.Tree

/-!
Reading stencil definitions.

A text is first matched against the grammar; then its tree is turned into definitions from the
left to the right. What the grammar cannot say is checked on the way: integers fit into 64 bits,
types and functions exist, functions have the right number of arguments, and fields stand before
the marker `*` and scalars behind it. The first finding in the text is the one reported.
-/

namespace GridStencil.Definition

open Grammar

/-- What reading a part of the tree gives. -/
abbrev Reading := Except Fault

/-- The finding that a node says something wrong. -/
def refuse {α : Type} (node : Node) (cause : Cause) : Reading α := .error ⟨node.span, cause⟩

/-- The finding that a node does not have the parts that its rule asks for. -/
def misshapen {α : Type} (node : Node) : Reading α := refuse node (.expected [node.rule.name])

/-- An integer. -/
def readInt (node : Node) : Reading Int :=
  match Number.readInt? node.text.toList with
  | some value => .ok value
  | none => refuse node .integerOutOfRange

/-- A number with a point or a power of ten. -/
def readFloat (node : Node) : Reading Float :=
  match Number.readFloat? node.text.toList with
  | some value => .ok value
  | none => misshapen node

/-- An element type. -/
def readElementType (node : Node) : Reading ElementType :=
  match ElementType.named? node.text with
  | some type => .ok type
  | none => refuse node (.unknownElementType node.text)

/-- An offset. -/
def readOffset (node : Node) : Reading Offset :=
  match node.parts with
  | [i, j, k] => do return ⟨← readInt i, ← readInt j, ← readInt k⟩
  | _ => misshapen node

/-- The operator that a rule stands for between operands. -/
def infix? : Rule → Option BinaryOperator
  | .pow => some .pow
  | .add => some .add
  | .sub => some .sub
  | .mul => some .mul
  | .div => some .div
  | .modulo => some .mod
  | .le => some .le
  | .ge => some .ge
  | .lt => some .lt
  | .gt => some .gt
  | .eq => some .eq
  | .ne => some .ne
  | .andOp => some .and
  | .orOp => some .or
  | _ => none

/-- The operator that a rule stands for before an operand. -/
def sign? : Rule → Option UnaryOperator
  | .neg => some .neg
  | .pos => some .pos
  | .notOp => some .not
  | _ => none

/-- A call with its arguments. -/
def readCall (node : Node) (function : String) (arguments : List Expr) : Reading Expr :=
  match arguments with
  | [arg] =>
    match UnaryOperator.function? function with
    | some op => .ok (.unary op arg node.span)
    | none => refuse node (.unknownFunction function 1)
  | [left, right] =>
    match BinaryOperator.function? function with
    | some op => .ok (.binary op left right node.span)
    | none => refuse node (.unknownFunction function 2)
  | _ => refuse node (.argumentCount function arguments.length)

mutual

/-- An expression, an operand or a row of operands. -/
def readExpr : Node → Reading Expr
  | .mk .float span text parts => do
    return .literal (.float (← readFloat (.mk .float span text parts))) span
  | .mk .int span text parts => do
    return .literal (.int (← readInt (.mk .int span text parts))) span
  | .mk .trueLit span _ _ => .ok (.literal (.bool true) span)
  | .mk .falseLit span _ _ => .ok (.literal (.bool false) span)
  | .mk .identifier span text _ => .ok (.name text span)
  | .mk .access span _ [name, offset] => do
    return .access name.text (← readOffset offset) span
  | .mk .call span text (function :: arguments) => do
    readCall (.mk .call span text []) function.text (← readExprs arguments)
  | .mk .arith span text parts => do
    match bind? (← readItems parts) with
    | some value => return value
    | none => misshapen (.mk .arith span text [])
  | .mk .expr _ _ [arith] => readExpr arith
  | .mk .expr span _ [whenTrue, condition, whenFalse] => do
    let whenTrue ← readExpr whenTrue
    let condition ← readExpr condition
    let whenFalse ← readExpr whenFalse
    return .conditional condition whenTrue whenFalse span
  | .mk rule span text _ => misshapen (.mk rule span text [])

/-- The arguments of a call. -/
def readExprs : List Node → Reading (List Expr)
  | [] => .ok []
  | node :: rest => do return (← readExpr node) :: (← readExprs rest)

/-- The parts of a row of operands. -/
def readItems : List Node → Reading (List Item)
  | [] => .ok []
  | node :: rest => do
    let item ←
      match infix? node.rule, sign? node.rule with
      | some op, _ => pure (Item.between op node.span)
      | none, some op => pure (Item.before op node.span)
      | none, none => do pure (Item.operand (← readExpr node))
    return item :: (← readItems rest)

end

mutual

/-- A statement. -/
def readStatement : Node → Reading Statement
  | .mk .assign span _ [target, value] => do
    return .assign target.text none (← readExpr value) span
  | .mk .assign span _ [target, offset, value] => do
    let offset ← readOffset offset
    return .assign target.text (some offset) (← readExpr value) span
  | .mk .ifStmt span _ [condition, .mk .block _ _ whenTrue] => do
    let condition ← readExpr condition
    return .branch condition (← readStatements whenTrue) [] span
  | .mk .ifStmt span _ [condition, .mk .block _ _ whenTrue, .mk .block _ _ whenFalse] => do
    let condition ← readExpr condition
    let whenTrue ← readStatements whenTrue
    return .branch condition whenTrue (← readStatements whenFalse) span
  | .mk .ifStmt span _ [condition, .mk .block _ _ whenTrue, whenFalse] => do
    let condition ← readExpr condition
    let whenTrue ← readStatements whenTrue
    return .branch condition whenTrue [← readStatement whenFalse] span
  | .mk rule span text _ => misshapen (.mk rule span text [])

/-- The statements of a block. -/
def readStatements : List Node → Reading (List Statement)
  | [] => .ok []
  | node :: rest => do return (← readStatement node) :: (← readStatements rest)

end

/-- An end of an interval. -/
def readBound (node : Node) : Reading Bound :=
  match node.parts with
  | [part] =>
    match part.rule with
    | .signedInt => do return .int (← readInt part)
    | .noneKw => .ok .top
    | .identifier => .ok (.external part.text node.span)
    | _ => misshapen node
  | _ => misshapen node

/-- The planes of an interval. -/
def readRange (node : Node) : Reading Range :=
  match node.parts with
  | [_] => .ok .full
  | [lower, upper] => do return .between (← readBound lower) (← readBound upper)
  | _ => misshapen node

/-- A section. -/
def readSection (node : Node) : Reading Section :=
  match node.parts with
  | [range, block] => do
    return ⟨← readRange range, ← readStatements block.parts, node.span⟩
  | _ => misshapen node

/-- A computation. -/
def readComputation (node : Node) : Reading Computation :=
  match node.parts with
  | policy :: sections => do
    return ⟨policy.text, ← sections.mapM readSection, node.span⟩
  | [] => misshapen node

/-- A field of the signature. -/
def readField (node : Node) : Reading FieldParameter :=
  match node.parts with
  | [name, type] => do return ⟨name.text, ← readElementType type, .ijk, node.span⟩
  | [name, type, dimensions] => do
    let dimensions : Dimensions := if dimensions.rule = .dimsZero then .zero else .ijk
    return ⟨name.text, ← readElementType type, dimensions, node.span⟩
  | _ => misshapen node

/-- A scalar of the signature. -/
def readScalar (node : Node) : Reading ScalarParameter :=
  match node.parts with
  | [name, type] => do return ⟨name.text, ← readElementType type, node.span⟩
  | _ => misshapen node

/-- A signature: its fields, and its scalars behind the marker. -/
structure Signature where
  fields : List FieldParameter
  scalars : List ScalarParameter

/-- The parameters of a signature from some point on; `marked` says that the marker stands before
them. -/
def readParameters (marked : Bool) : List Node → Reading Signature
  | [] => .ok ⟨[], []⟩
  | node :: rest =>
    match node.rule with
    | .kwStar =>
      if marked then refuse node .duplicateMarker else readParameters true rest
    | .fieldParam => do
      if marked then refuse node .fieldBehindMarker
      else
        let field ← readField node
        let signature ← readParameters marked rest
        return { signature with fields := field :: signature.fields }
    | .scalarParam => do
      if marked then
        let scalar ← readScalar node
        let signature ← readParameters marked rest
        return { signature with scalars := scalar :: signature.scalars }
      else refuse node .scalarBeforeMarker
    | _ => misshapen node

/-- A stencil. -/
def readStencil (source : Source) (node : Node) : Reading Definition :=
  match node.parts with
  | [name, parameters, externals, computations] => do
    let signature ← readParameters false parameters.parts
    let computations ← computations.parts.mapM readComputation
    return {
      source
      name := name.text
      fields := signature.fields
      scalars := signature.scalars
      externals := externals.parts.map fun part => (part.text, part.span)
      computations
      span := node.span }
  | _ => misshapen node

/-- All stencils that a source defines. -/
def readAll (source : Source) : Except Error (List Definition) :=
  match readTree source.text with
  | .error attempts =>
    .error (Fault.within ⟨⟨attempts.offset, attempts.offset⟩,
      .expected (attempts.expected.map Rule.name)⟩ source)
  | .ok root =>
    let stencils := root.parts.filter (·.rule = .stencilDef)
    (stencils.mapM (readStencil source)).mapError (·.within source)

/-- The first stencil of a list with the given name. -/
def find? (definitions : List Definition) (name : String) : Option Definition :=
  definitions.find? (·.name == name)

end GridStencil.Definition
