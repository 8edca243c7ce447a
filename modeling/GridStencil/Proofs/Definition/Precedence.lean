import GridStencil.Definition.Precedence
import GridStencil.Definition.Printer

/-!
**Where the printer leaves out parentheses, the row of operands still binds as before.**

`Expr.items` is the row that the text of an expression stands for: what the printer puts into
parentheses is one operand of it, everything else is spread out. An operand printed for a strength
is followed by an operator that asks for no more than that, and this keeps the operator out of it.

The main result is `bind?_items`: the row of an expression binds to that expression.
-/

namespace GridStencil.Definition

/-! ### Spans -/

/-- A part of a row with its spans forgotten. -/
def Item.withoutSpans : Item → Item
  | operand value => operand value.withoutSpans
  | before op _ => before op noSpan
  | between op _ => between op noSpan

/-- An operand and the row behind it with their spans forgotten. -/
def forgetSpans (result : Expr × List Item) : Expr × List Item :=
  (result.1.withoutSpans, result.2.map Item.withoutSpans)

/-- Operators bind in the same way whatever the spans are. -/
theorem climb_extend_withoutSpans (steps : Nat) :
    (∀ (strength : Nat) (items : List Item),
      climb steps strength (items.map Item.withoutSpans) =
        (climb steps strength items).map forgetSpans) ∧
    (∀ (strength : Nat) (left : Expr) (items : List Item),
      extend steps strength left.withoutSpans (items.map Item.withoutSpans) =
        (extend steps strength left items).map forgetSpans) := by
  induction steps with
  | zero => simp [climb, extend]
  | succ steps ih =>
    obtain ⟨climb_ih, extend_ih⟩ := ih
    constructor
    · intro strength items
      match items with
      | [] => rfl
      | .operand value :: rest => exact extend_ih strength value rest
      | .before op span :: rest =>
        simp only [List.map_cons, Item.withoutSpans, climb, climb_ih]
        cases climb steps op.precedence rest with
        | none => rfl
        | some found => exact extend_ih strength (.unary op found.1 span) found.2
      | .between op span :: rest => rfl
    · intro strength left items
      match items with
      | [] => rfl
      | .operand value :: rest => rfl
      | .before op span :: rest => rfl
      | .between op span :: rest =>
        simp only [List.map_cons, Item.withoutSpans, extend, climb_ih]
        split
        · cases climb steps (rightStrength op) rest with
          | none => rfl
          | some found => exact extend_ih strength (.binary op left found.1 span) found.2
        · rfl

theorem bind?_withoutSpans (items : List Item) :
    bind? (items.map Item.withoutSpans) = (bind? items).map Expr.withoutSpans := by
  unfold bind?
  rw [List.length_map, (climb_extend_withoutSpans _).1]
  rcases climb (2 * items.length + 2) 0 items with _ | ⟨value, _ | ⟨item, rest⟩⟩ <;> rfl

/-! ### More steps -/

/-- What was read with some steps is read with more. -/
theorem climb_extend_more (steps : Nat) :
    (∀ (strength : Nat) (items : List Item) (found : Expr × List Item),
      climb steps strength items = some found → climb (steps + 1) strength items = some found) ∧
    (∀ (strength : Nat) (left : Expr) (items : List Item) (found : Expr × List Item),
      extend steps strength left items = some found →
        extend (steps + 1) strength left items = some found) := by
  induction steps with
  | zero => simp [climb, extend]
  | succ steps ih =>
    obtain ⟨climb_ih, extend_ih⟩ := ih
    constructor
    · intro strength items found read
      match items with
      | [] => simp [climb] at read
      | .operand value :: rest => exact extend_ih strength value rest found read
      | .before op span :: rest =>
        rw [climb] at read ⊢
        cases inner : climb steps op.precedence rest with
        | none => simp [inner] at read
        | some arg =>
          simp only [inner] at read
          simp only [climb_ih _ _ _ inner]
          exact extend_ih _ _ _ _ read
      | .between op span :: rest => simp [climb] at read
    · intro strength left items found read
      match items with
      | [] => exact read
      | .operand value :: rest => exact read
      | .before op span :: rest => exact read
      | .between op span :: rest =>
        rw [extend] at read ⊢
        split at read
        · next binds =>
          rw [if_pos binds]
          cases inner : climb steps (rightStrength op) rest with
          | none => simp [inner] at read
          | some right =>
            simp only [inner] at read
            simp only [climb_ih _ _ _ inner]
            exact extend_ih _ _ _ _ read
        · next looser =>
          rw [if_neg looser]
          exact read

theorem climb_mono {steps more strength : Nat} {items : List Item} {found : Expr × List Item}
    (read : climb steps strength items = some found) (le : steps ≤ more) :
    climb more strength items = some found := by
  induction le with
  | refl => exact read
  | step _ ih => exact (climb_extend_more _).1 _ _ _ ih

theorem extend_mono {steps more strength : Nat} {left : Expr} {items : List Item}
    {found : Expr × List Item} (read : extend steps strength left items = some found)
    (le : steps ≤ more) : extend more strength left items = some found := by
  induction le with
  | refl => exact read
  | step _ ih => exact (climb_extend_more _).2 _ _ _ _ ih

/-! ### The row of an expression -/

/-- The row that an expression stands for in a place that asks for `strength`. -/
def Expr.items (strength : Nat) (e : Expr) : List Item :=
  if e.precedence < strength then [.operand e]
  else
    match e with
    | unary op arg span =>
      match op.functionName? with
      | some _ => [.operand e]
      | none => .before op span :: arg.items op.precedence
    | binary op left right span =>
      match op.functionName? with
      | some _ => [.operand e]
      | none => left.items (leftAsks op) ++ .between op span :: right.items (rightAsks op)
    | literal _ _ | name _ _ | access _ _ _ | conditional _ _ _ _ => [.operand e]

/-- Behind an expression printed for `strength` the row ends or goes on with an operator that asks
for no more. -/
def Follows (strength : Nat) : List Item → Prop
  | [] => True
  | .between op _ :: _ => leftAsks op ≤ strength
  | _ => False

theorem Follows.weaken {strength other : Nat} {rest : List Item} (follows : Follows strength rest)
    (le : strength ≤ other) : Follows other rest := by
  match rest with
  | [] => trivial
  | .between op _ :: _ => exact Nat.le_trans follows le

theorem precedence_lt_of_unary (op : BinaryOperator) (sign : UnaryOperator)
    (is_sign : sign.functionName? = none) (asks : leftAsks op ≤ sign.precedence) :
    op.precedence < sign.precedence := by
  cases sign <;> cases op <;> revert is_sign asks <;> decide

theorem precedence_lt_rightStrength (op next : BinaryOperator)
    (is_operator : op.functionName? = none) (asks : leftAsks next ≤ op.precedence) :
    next.precedence < rightStrength op := by
  cases op <;> cases next <;> revert is_operator asks <;> decide

theorem precedence_le_asks (op : BinaryOperator) :
    op.precedence ≤ leftAsks op ∧ op.precedence ≤ rightAsks op := by
  cases op <;> decide

/-- An operand ends in front of an operator that binds weaker. -/
theorem extend_stops {steps strength asked : Nat} {e : Expr} {rest : List Item}
    (follows : Follows asked rest)
    (looser : ∀ op, leftAsks op ≤ asked → op.precedence < strength) :
    extend (steps + 1) strength e rest = some (e, rest) := by
  match rest with
  | [] => rfl
  | .between op span :: more =>
    have weak := looser op follows
    rw [extend, if_neg (by omega)]

/-- What goes on behind an expression that has been read goes on behind its row. -/
theorem climb_items (e : Expr) {steps asked strength : Nat} {rest : List Item}
    {found : Expr × List Item} (follows : Follows strength rest) (le : asked ≤ strength)
    (goes_on : extend steps asked e rest = some found) :
    climb (steps + 2 * (e.items strength).length) asked (e.items strength ++ rest) =
      some found := by
  induction e generalizing steps asked strength rest found with
  | literal value span =>
    simp only [Expr.items, ite_self]
    exact extend_mono goes_on (Nat.le_succ steps)
  | name n span =>
    simp only [Expr.items, ite_self]
    exact extend_mono goes_on (Nat.le_succ steps)
  | access n offset span =>
    simp only [Expr.items, ite_self]
    exact extend_mono goes_on (Nat.le_succ steps)
  | conditional condition whenTrue whenFalse span =>
    simp only [Expr.items, ite_self]
    exact extend_mono goes_on (Nat.le_succ steps)
  | unary op arg span arg_ih =>
    rw [Expr.items]
    split
    · exact extend_mono goes_on (Nat.le_succ steps)
    · next unparenthesised =>
      cases function : op.functionName? with
      | some _ => exact extend_mono goes_on (Nat.le_succ steps)
      | none =>
        -- The operand ends where the operators stop being tighter than the sign.
        have asks : strength ≤ op.precedence := Nat.not_lt.mp unparenthesised
        have stays : Follows op.precedence rest := follows.weaken asks
        have arg_ends : extend (steps + 1) op.precedence arg rest = some (arg, rest) :=
          extend_stops stays fun next => precedence_lt_of_unary next op function
        have arg_read := arg_ih stays (Nat.le_refl _) arg_ends
        dsimp only
        rw [List.length_cons, List.cons_append,
          show steps + 2 * ((arg.items op.precedence).length + 1) =
            steps + 1 + 2 * (arg.items op.precedence).length + 1 by omega, climb, arg_read]
        exact extend_mono goes_on (by omega)
  | binary op left right span left_ih right_ih =>
    rw [Expr.items]
    split
    · exact extend_mono goes_on (Nat.le_succ steps)
    · next unparenthesised =>
      cases function : op.functionName? with
      | some _ => exact extend_mono goes_on (Nat.le_succ steps)
      | none =>
        have binds : strength ≤ op.precedence := by
          simpa [Expr.precedence, function] using unparenthesised
        obtain ⟨left_asks, right_asks⟩ := precedence_le_asks op
        have same_strength : rightStrength op = rightAsks op := rfl
        have stays : Follows op.precedence rest := follows.weaken binds
        have right_ends : extend (steps + 1) (rightStrength op) right rest = some (right, rest) :=
          extend_stops stays fun next => precedence_lt_rightStrength op next function
        have right_read :=
          right_ih (stays.weaken right_asks) (Nat.le_refl (rightAsks op)) right_ends
        -- The left operand goes on with this operator, and then with what follows the whole.
        have left_goes_on : extend (steps + 1 + 2 * (right.items (rightAsks op)).length + 1) asked
            left (.between op span :: (right.items (rightAsks op) ++ rest)) = some found := by
          have asked_le : asked ≤ op.precedence := by omega
          rw [extend, if_pos asked_le, same_strength, right_read]
          exact extend_mono goes_on (by omega)
        have stops_left : Follows (leftAsks op)
            (.between op span :: (right.items (rightAsks op) ++ rest)) := Nat.le_refl (leftAsks op)
        have all_read := left_ih stops_left (by omega) left_goes_on
        dsimp only
        rw [List.append_assoc, List.cons_append]
        refine climb_mono all_read ?_
        simp only [List.length_append, List.length_cons]
        omega

/-- **The row of an expression binds to that expression.** -/
theorem bind?_items (strength : Nat) (e : Expr) : bind? (e.items strength) = some e := by
  have read : climb (2 + 2 * (e.items strength).length) 0 (e.items strength ++ []) =
      some (e, []) := climb_items e trivial (Nat.zero_le _) rfl
  rw [List.append_nil, Nat.add_comm] at read
  rw [bind?, read]

end GridStencil.Definition
