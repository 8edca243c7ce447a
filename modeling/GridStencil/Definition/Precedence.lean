import GridStencil.Definition.Basic

/-!
How the operators in a row of operands bind.

A row is read from the left by comparing strengths: an infix operator takes the operand before it
unless something that binds tighter is still open. A power takes what follows it first, all other
infix operators what stands before them; the operand of a sign or of a negation ends at the first
infix operator that binds weaker.
-/

namespace GridStencil.Definition

/-- A part of a row: an operand, an operator before an operand, or one between two. -/
inductive Item
  | operand (value : Expr)
  | before (op : UnaryOperator) (span : Span)
  | between (op : BinaryOperator) (span : Span)

/-- The strength from which on operators belong to the right operand of an infix operator. -/
def rightStrength (op : BinaryOperator) : Nat :=
  if op = .pow then op.precedence else op.precedence + 1

mutual

/-- Reads an operand with all operators behind it that bind at `strength` or tighter. The first
argument bounds the number of steps. -/
def climb : Nat → Nat → List Item → Option (Expr × List Item)
  | 0, _, _ => none
  | steps + 1, strength, items =>
    match items with
    | .operand value :: rest => extend steps strength value rest
    | .before op span :: rest =>
      match climb steps op.precedence rest with
      | some (arg, rest) => extend steps strength (.unary op arg span) rest
      | none => none
    | _ => none

/-- Goes on behind an operand that has been read. -/
def extend : Nat → Nat → Expr → List Item → Option (Expr × List Item)
  | 0, _, _, _ => none
  | steps + 1, strength, left, items =>
    match items with
    | .between op span :: rest =>
      if strength ≤ op.precedence then
        match climb steps (rightStrength op) rest with
        | some (right, rest) => extend steps strength (.binary op left right span) rest
        | none => none
      else some (left, items)
    | _ => some (left, items)

end

/-- The expression that a row stands for. Every step takes a part of the row or ends an operand,
so twice as many steps as parts suffice. -/
def bind? (items : List Item) : Option Expr :=
  match climb (2 * items.length + 2) 0 items with
  | some (value, []) => some value
  | _ => none

end GridStencil.Definition
