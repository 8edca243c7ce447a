import GridStencil.Definition.Basic

/-!
The canonical text of a stencil definition.

Layout, comments and parentheses that the operators do not need are dropped, so definitions that
differ in nothing else have the same text. An operand gets parentheses exactly if it binds weaker
than its operator asks for: an infix operator asks for its own strength on the side where it
associates and for more on the other, a sign and a negation for their own.
-/

namespace GridStencil.Definition

/-- The text of an expression in a place that asks for `strength`, when it binds at `own`. -/
def parenthesised (own strength : Nat) (text : String) : String :=
  if own < strength then "(" ++ text ++ ")" else text

/-- The strength an infix operator asks of its left operand. -/
def leftAsks (op : BinaryOperator) : Nat :=
  if op = .pow then op.precedence + 1 else op.precedence

/-- The strength an infix operator asks of its right operand. -/
def rightAsks (op : BinaryOperator) : Nat :=
  if op = .pow then op.precedence else op.precedence + 1

/-- How tightly an expression binds. -/
def Expr.precedence : Expr → Nat
  | literal _ _ | name _ _ | access _ _ _ => UnaryOperator.atomPrecedence
  | unary op _ _ => op.precedence
  | binary op _ _ _ =>
    if op.functionName?.isSome then UnaryOperator.atomPrecedence else op.precedence
  | conditional _ _ _ _ => 0

/-- The text of an expression in a place that asks for `strength`. -/
def Expr.renderAt (strength : Nat) (e : Expr) : String :=
  parenthesised e.precedence strength <|
    match e with
    | literal value _ => value.render
    | name n _ => n
    | access n offset _ => n ++ offset.render
    | unary op arg _ =>
      match op.functionName? with
      | some function => function ++ "(" ++ arg.renderAt 0 ++ ")"
      | none => op.symbol ++ arg.renderAt op.precedence
    | binary op left right _ =>
      match op.functionName? with
      | some function => function ++ "(" ++ left.renderAt 0 ++ ", " ++ right.renderAt 0 ++ ")"
      | none =>
        left.renderAt (leftAsks op) ++ " " ++ op.symbol ++ " " ++ right.renderAt (rightAsks op)
    | conditional condition whenTrue whenFalse _ =>
      whenTrue.renderAt 1 ++ " if " ++ condition.renderAt 1 ++ " else " ++ whenFalse.renderAt 0

/-- The text of an expression. -/
def Expr.render (e : Expr) : String := e.renderAt 0

/-- The text of a bound. -/
def Bound.render : Bound → String
  | int value => toString value
  | top => "None"
  | external name _ => name

/-- The text of a range. -/
def Range.render : Range → String
  | full => "..."
  | between lower upper => lower.render ++ ", " ++ upper.render

mutual

/-- The lines of a statement, moved right by `indent`. -/
def Statement.lines (indent : Nat) : Statement → List String
  | .assign target offset value _ =>
    [Text.blanks indent ++ target ++ (offset.map Offset.render).getD "" ++ " = " ++ value.render]
  | .branch condition whenTrue whenFalse _ =>
    (Text.blanks indent ++ "if " ++ condition.render ++ " \x7b") ::
      Statement.listLines (indent + 4) whenTrue ++
      (if whenFalse.isEmpty then [Text.blanks indent ++ "\x7d"]
       else (Text.blanks indent ++ "\x7d else \x7b") ::
        Statement.listLines (indent + 4) whenFalse ++ [Text.blanks indent ++ "\x7d"])

/-- The lines of statements, moved right by `indent`. -/
def Statement.listLines (indent : Nat) : List Statement → List String
  | [] => []
  | s :: rest => s.lines indent ++ Statement.listLines indent rest

end

/-- The lines of a section. -/
def Section.lines (s : Section) : List String :=
  ("        interval(" ++ s.range.render ++ ") \x7b") ::
    Statement.listLines 12 s.body ++ ["        \x7d"]

/-- The lines of a computation. -/
def Computation.lines (c : Computation) : List String :=
  ("    with computation(" ++ c.policy ++ ") \x7b") ::
    c.sections.flatMap Section.lines ++ ["    \x7d"]

/-- The text of a field in the signature. -/
def FieldParameter.render (f : FieldParameter) : String :=
  match f.dimensions with
  | .ijk => f.name ++ ": Field[" ++ f.type.name ++ "]"
  | .zero => f.name ++ ": Field[" ++ f.type.name ++ ", ()]"

/-- The text of a scalar in the signature. -/
def ScalarParameter.render (s : ScalarParameter) : String := s.name ++ ": " ++ s.type.name

/-- The texts of all parameters, with the marker between fields and scalars if there are any. -/
def parameterTexts (d : Definition) : List String :=
  d.fields.map FieldParameter.render ++
    (if d.scalars.isEmpty then [] else "*" :: d.scalars.map ScalarParameter.render)

/-- The lines of a definition. -/
def lines (d : Definition) : List String :=
  ("stencil " ++ d.name ++ "(" ++ ", ".intercalate d.parameterTexts ++ ") \x7b") ::
    (if d.externals.isEmpty then []
     else ["    externals " ++ ", ".intercalate (d.externals.map (·.1))]) ++
    d.computations.flatMap Computation.lines ++ ["\x7d"]

/-- The canonical text of a definition. -/
def render (d : Definition) : String := Text.unlines d.lines

end GridStencil.Definition
