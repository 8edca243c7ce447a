import GridStencil.Kernel.Frame

/-!
Straight-line code, evaluated on all points of a region at once.

Every instruction fills a register of its own with one value per point of the region. A field is
loaded once per offset, however often the expression reads it.
-/

namespace GridStencil

/-- An instruction; operands are numbers of registers. -/
inductive Instruction
  | load (slot : Nat) (offset : Offset)
  | scalar (slot : Nat)
  | constant (value : Float)
  | unary (op : UnaryOperator) (arg : Nat)
  | binary (op : BinaryOperator) (left right : Nat)
  | select (condition whenTrue whenFalse : Nat)

/-- Code whose instruction number `n` fills register `n`, and the register of its result. -/
structure Registers where
  code : List Instruction
  result : Nat

namespace Instruction

/-- Whether an instruction loads a field at an offset. -/
def loads (slot : Nat) (offset : Offset) : Instruction → Bool
  | load other place => other = slot && place = offset
  | _ => false

/-- The text of an instruction. -/
def render : Instruction → String
  | load slot offset => "load f" ++ toString slot ++ offset.render
  | scalar slot => "scalar s" ++ toString slot
  | constant value => "const " ++ Number.text value
  | unary op arg => op.tag ++ " %" ++ toString arg
  | binary op left right => op.tag ++ " %" ++ toString left ++ ", %" ++ toString right
  | select condition whenTrue whenFalse =>
    "select %" ++ toString condition ++ ", %" ++ toString whenTrue ++ ", %" ++
      toString whenFalse

/-- The value of an instruction, where `registers` hold those of the instructions before it. -/
def eval (frame : Frame) (region : Region) (registers : List (List Float)) :
    Instruction → Except Cause (List Float)
  | load slot offset => (frame.view slot).gather offset region
  | scalar slot => .ok (List.replicate region.size (frame.scalar slot))
  | constant value => .ok (List.replicate region.size value)
  | unary op arg => .ok ((registers.getD arg []).map op.apply)
  | binary op left right =>
    .ok (List.zipWith op.apply (registers.getD left []) (registers.getD right []))
  | select condition whenTrue whenFalse =>
    .ok (List.zipWith (fun test (x, y) => if test != 0.0 then x else y)
      (registers.getD condition [])
      (List.zip (registers.getD whenTrue []) (registers.getD whenFalse [])))

end Instruction

namespace Registers

/-- The code with one more instruction, which holds the result. -/
def emit (code : List Instruction) (instruction : Instruction) : Registers :=
  ⟨code ++ [instruction], code.length⟩

/-- Code for an expression, behind `code`. -/
def extend? (interface : Interface) (code : List Instruction) :
    Program.Expr → Except Cause Registers
  | .field name offset =>
    match interface.slot? name with
    | none => .error (.undeclaredField name)
    | some slot =>
      match code.findIdx? (Instruction.loads slot offset) with
      | some register => .ok ⟨code, register⟩
      | none => .ok (emit code (.load slot offset))
  | .scalar name =>
    match interface.scalarSlot? name with
    | some slot => .ok (emit code (.scalar slot))
    | none => .error (.undeclaredScalar name)
  | .literal value => .ok (emit code (.constant value.toFloat))
  | .unary op arg => do
    let arg ← extend? interface code arg
    return emit arg.code (.unary op arg.result)
  | .binary op left right => do
    let left ← extend? interface code left
    let right ← extend? interface left.code right
    return emit right.code (.binary op left.result right.result)
  | .select condition whenTrue whenFalse => do
    let condition ← extend? interface code condition
    let whenTrue ← extend? interface condition.code whenTrue
    let whenFalse ← extend? interface whenTrue.code whenFalse
    return emit whenFalse.code (.select condition.result whenTrue.result whenFalse.result)

/-- The code of an expression. -/
def ofExpr? (interface : Interface) (expr : Program.Expr) : Except Cause Registers :=
  extend? interface [] expr

/-- The registers after some code. -/
def run (frame : Frame) (region : Region) :
    List Instruction → List (List Float) → Except Cause (List (List Float))
  | [], registers => .ok registers
  | instruction :: rest, registers => do
    let value ← instruction.eval frame region registers
    run frame region rest (registers ++ [value])

/-- The values of the result at all points of a region. -/
def evalAll (registers : Registers) (frame : Frame) (region : Region) :
    Except Cause (List Float) := do
  let values ← run frame region registers.code []
  return values.getD registers.result []

/-- The lines of the code in a listing. -/
def lines (registers : Registers) : List String :=
  registers.code.zipIdx.map (fun (instruction, n) =>
    "    %" ++ toString n ++ " = " ++ instruction.render) ++
    ["    store %" ++ toString registers.result]

end Registers

end GridStencil
