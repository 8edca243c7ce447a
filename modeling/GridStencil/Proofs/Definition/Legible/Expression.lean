import GridStencil.Proofs.Definition.Legible.Operand

/-!
**Expressions can be told from their texts.**

The text of an expression is that of its row (`rowText_items`), in which operands and operators
between them alternate. So the parts of two rows with the same text are the same one by one
(`row_unique`), and a row binds to one expression only. A conditional is a row with more behind it:
a blank and the letter of a word that no operator starts with.

* `legible`: two expressions that make up the same text with what closes them are the same up to
  spans.
-/

namespace GridStencil.Definition

open Grammar

variable {e : Expr} {rest rest' : List Char}

/-! ### The text of a row -/

/-- The text of a part of a row. -/
def Item.text : Item → List Char
  | operand e => e.operand.text
  | before op _ => op.symbol.toList
  | between op _ => ' ' :: (op.symbol.toList ++ [' '])

/-- The text of a row. -/
def rowText (items : List Item) : List Char := items.flatMap Item.text

theorem rowText_append (items more : List Item) :
    rowText (items ++ more) = rowText items ++ rowText more := List.flatMap_append

theorem rowText_cons (item : Item) (items : List Item) :
    rowText (item :: items) = item.text ++ rowText items := List.flatMap_cons

theorem rowText_operand (e : Expr) : rowText [.operand e] = e.operand.text :=
  List.append_nil _

/-- The text of an expression where something is asked is that of its row. -/
theorem rowText_items (e : Expr) {strength : Nat} (asks : 1 ≤ strength)
    (most : strength ≤ UnaryOperator.atomPrecedence) :
    (e.renderAt strength).toList = rowText (e.items strength) := by
  -- An expression that is one operand of its row has the text of that operand.
  have single : ∀ {e : Expr} {strength : Nat}, strength ≤ UnaryOperator.atomPrecedence →
      e.items strength = [.operand e] → (strength ≤ e.precedence →
        UnaryOperator.atomPrecedence ≤ e.precedence) →
      (e.renderAt strength).toList = rowText (e.items strength) := by
    intro e strength most items closed
    rw [items, rowText_operand, text_operand]
    by_cases le : strength ≤ e.precedence
    · rw [renderAt_of_le le, renderAt_of_le (closed le)]
    · have less : e.precedence < strength := Nat.not_le.mp le
      rw [renderAt_of_lt less, renderAt_of_lt (less.trans_le most)]
  induction e generalizing strength with
  | literal value span =>
    exact single most (by simp only [Expr.items, ite_self]) fun _ => Nat.le_refl _
  | name n span => exact single most (by simp only [Expr.items, ite_self]) fun _ => Nat.le_refl _
  | access n offset span =>
    exact single most (by simp only [Expr.items, ite_self]) fun _ => Nat.le_refl _
  | unary op arg span ih =>
    cases function : op.functionName? with
    | some f =>
      have is_function : op.functionName?.isSome = true := Option.isSome_of_eq_some function
      have strong : UnaryOperator.atomPrecedence ≤ op.precedence := by
        cases op <;> revert is_function <;> decide
      exact single most (by simp only [Expr.items, function, ite_self]) fun _ => strong
    | none =>
      by_cases le : strength ≤ (Expr.unary op arg span).precedence
      · have bounds : 1 ≤ op.precedence ∧ op.precedence ≤ UnaryOperator.atomPrecedence := by
          cases op <;> decide
        rw [renderAt_of_le le, Expr.items, if_neg (Nat.not_lt.mpr le)]
        simp only [function, rowText_cons, ← ih bounds.1 bounds.2, Expr.renderAt, parenthesised,
          Nat.not_lt_zero, if_false, String.toList_append]
        rfl
      · exact single most (items_of_lt (Nat.not_le.mp le)) fun asked => absurd asked le
  | binary op left right span left_ih right_ih =>
    cases function : op.functionName? with
    | some f =>
      have strong : UnaryOperator.atomPrecedence ≤
          (Expr.binary op left right span).precedence := by
        simp only [Expr.precedence, function]
        exact Nat.le_refl _
      exact single most (by simp only [Expr.items, function, ite_self]) fun _ => strong
    | none =>
      by_cases le : strength ≤ (Expr.binary op left right span).precedence
      · have bounds : (1 ≤ leftAsks op ∧ leftAsks op ≤ UnaryOperator.atomPrecedence) ∧
            1 ≤ rightAsks op ∧ rightAsks op ≤ UnaryOperator.atomPrecedence := by
          cases op <;> decide
        rw [renderAt_of_le le, toList_render_between function, Expr.items,
          if_neg (Nat.not_lt.mpr le)]
        simp only [function, rowText_append, rowText_cons, ← left_ih bounds.1.1 bounds.1.2,
          ← right_ih bounds.2.1 bounds.2.2, Item.text, List.cons_append, List.append_assoc,
          List.nil_append]
      · exact single most (items_of_lt (Nat.not_le.mp le)) fun asked => absurd asked le
  | conditional condition whenTrue whenFalse span =>
    refine single most (by simp only [Expr.items, ite_self]) fun asked => ?_
    have nothing : strength ≤ 0 := asked
    omega

/-! ### Rows whose parts alternate -/

/-- Whether operands stand where they are expected, with operators in front of them and between
them, and nothing is missing at the end. -/
def Alternates : Bool → List Item → Prop
  | true, .operand _ :: rest => Alternates false rest
  | true, .before op _ :: rest => op.functionName? = none ∧ Alternates true rest
  | false, .between _ _ :: rest => Alternates true rest
  | false, [] => True
  | _, _ => False

/-- The row of an expression is a single operand, or made up of the rows of its operands. -/
theorem items_induction {motive : Expr → List Item → Prop}
    (single : ∀ e, motive e [.operand e])
    (sign : ∀ {op arg items} (span), op.functionName? = none → motive arg items →
      motive (.unary op arg span) (.before op span :: items))
    (between : ∀ {op left right items more} (span), motive left items → motive right more →
      motive (.binary op left right span) (items ++ .between op span :: more))
    (e : Expr) (strength : Nat) : motive e (e.items strength) := by
  induction e generalizing strength with
  | literal value span =>
    simp only [Expr.items, ite_self]
    exact single _
  | name n span =>
    simp only [Expr.items, ite_self]
    exact single _
  | access n offset span =>
    simp only [Expr.items, ite_self]
    exact single _
  | conditional condition whenTrue whenFalse span =>
    simp only [Expr.items, ite_self]
    exact single _
  | unary op arg span ih =>
    rw [Expr.items]
    split
    · exact single _
    · cases function : op.functionName? with
      | some f => exact single _
      | none => exact sign span function (ih op.precedence)
  | binary op left right span left_ih right_ih =>
    rw [Expr.items]
    split
    · exact single _
    · cases op.functionName? with
      | some f => exact single _
      | none => exact between span (left_ih (leftAsks op)) (right_ih (rightAsks op))

theorem alternates_items (e : Expr) (strength : Nat) : Alternates true (e.items strength) := by
  have goes_on : ∀ more, Alternates false more → Alternates true (e.items strength ++ more) := by
    refine items_induction
      (motive := fun _ items => ∀ more, Alternates false more → Alternates true (items ++ more))
      (fun _ _ behind => behind) (fun _ is_sign ih more behind => ⟨is_sign, ih more behind⟩)
      (fun _ left_ih right_ih more behind => ?_) e strength
    rw [List.append_assoc]
    exact left_ih _ (right_ih more behind)
  simpa only [List.append_nil] using goes_on [] trivial

/-- The operands of a row can be written if its expression can. -/
theorem clear_items {e : Expr} (clear : e.Clear) (strength : Nat) :
    ∀ x, .operand x ∈ e.items strength → x.Clear := by
  refine items_induction
    (motive := fun e items => e.Clear → ∀ x, .operand x ∈ items → x.Clear)
    (fun e clear x inside => ?_) (fun _ _ ih clear x inside => ?_)
    (fun _ left_ih right_ih clear x inside => ?_) e strength clear
  · cases List.mem_singleton.mp inside
    exact clear
  · exact ih clear.arg x (List.mem_of_ne_of_mem (by rintro ⟨⟩) inside)
  · rcases List.mem_append.mp inside with inside | inside
    · exact left_ih clear.operands.1 x inside
    · exact right_ih clear.operands.2 x (List.mem_of_ne_of_mem (by rintro ⟨⟩) inside)

/-! ### Rows can be told from their texts -/

/-- What stands behind an operand of a row. -/
theorem stops_row {items : List Item} (alternates : Alternates false items)
    (closed : Closed ['\x7b', 'i', 'e'] rest) : Stops (rowText items ++ rest) := by
  match items, alternates with
  | [], _ => exact closed.stops
  | .between op span :: more, _ =>
    rintro _ ⟨⟩
    exact List.mem_cons_self

theorem symbol_injective {op op' : BinaryOperator} (same : op.symbol = op'.symbol) : op = op' := by
  cases op <;> cases op' <;> first | rfl | exact absurd same (by decide)

/-- An operator between two operands ends at the blank behind it. -/
theorem symbol_unique {op op' : BinaryOperator}
    (same : op.symbol.toList ++ ' ' :: rest = op'.symbol.toList ++ ' ' :: rest') :
    op = op' ∧ rest = rest' := by
  have all : ∀ op : BinaryOperator, op.symbol.toList.all (· != ' ') = true := by
    intro op
    cases op <;> rfl
  have stops : ∀ (more : List Char) (c : Char), (' ' :: more).head? = some c →
      (c != ' ') = false := by
    rintro more _ ⟨⟩
    rfl
  obtain ⟨symbols, others⟩ := split_unique (Pattern.split_run (all op) (stops rest))
    (Pattern.split_run (all op') (stops rest')) same
  exact ⟨symbol_injective (String.toList_inj.mp symbols), (List.cons.inj others).2⟩

/-- No operator is taken for what stands behind a row. -/
theorem between_ne {op : BinaryOperator} (more : List Char)
    (closed : Closed ['\x7b', 'i', 'e'] rest) :
    ' ' :: (op.symbol.toList ++ ' ' :: more) ≠ rest := by
  rintro rfl
  have starts : ∃ c cs, op.symbol.toList = c :: cs ∧ c ∉ ['\x7b', 'i', 'e'] := by
    cases op <;> exact ⟨_, _, rfl, by decide⟩
  obtain ⟨c, cs, chars, outside⟩ := starts
  exact outside (closed.behind c (cs ++ ' ' :: more) (by rw [chars]; rfl))

theorem sign_unique {op op' : UnaryOperator} (is_sign : op.functionName? = none)
    (is_sign' : op'.functionName? = none)
    (same : op.symbol.toList ++ rest = op'.symbol.toList ++ rest') : op = op' ∧ rest = rest' := by
  have head := congrArg List.head? same
  cases op <;> cases is_sign <;> cases op' <;> cases is_sign' <;>
    first
    | exact ⟨rfl, List.append_cancel_left same⟩
    | exact absurd (Option.some.inj head) (by decide)

/-- **The parts of a row can be told from its text**, if its operands can. -/
theorem row_unique {expects : Bool} {items items' : List Item}
    (legible : ∀ x, .operand x ∈ items → LegibleOperand x ∧ x.Clear)
    (clear : ∀ x, .operand x ∈ items' → x.Clear) (alternates : Alternates expects items)
    (alternates' : Alternates expects items') (closed : Closed ['\x7b', 'i', 'e'] rest)
    (closed' : Closed ['\x7b', 'i', 'e'] rest')
    (same : rowText items ++ rest = rowText items' ++ rest') :
    items.map Item.withoutSpans = items'.map Item.withoutSpans ∧ rest = rest' := by
  have text_operand : ∀ (e : Expr) (more : List Item) (rest : List Char),
      rowText (.operand e :: more) ++ rest = e.operand.text ++ (rowText more ++ rest) := by
    simp [rowText_cons, Item.text]
  have text_before : ∀ (op : UnaryOperator) (span : Span) (more : List Item) (rest : List Char),
      rowText (.before op span :: more) ++ rest = op.symbol.toList ++ (rowText more ++ rest) := by
    simp [rowText_cons, Item.text]
  have text_between : ∀ (op : BinaryOperator) (span : Span) (more : List Item) (rest : List Char),
      rowText (.between op span :: more) ++ rest =
        ' ' :: (op.symbol.toList ++ ' ' :: (rowText more ++ rest)) := by
    simp [rowText_cons, Item.text]
  induction items generalizing expects items' with
  | nil =>
    match expects, items', alternates, alternates', same with
    | false, [], _, _, same => exact ⟨rfl, same⟩
    | false, .between op span :: more, _, _, same =>
      rw [text_between] at same
      exact absurd same.symm (between_ne _ closed)
  | cons item items ih =>
    have legible_items : ∀ x, .operand x ∈ items → LegibleOperand x ∧ x.Clear :=
      fun x inside => legible x (List.mem_cons_of_mem _ inside)
    match expects, item, items', alternates, alternates', legible, clear, same with
    | true, .operand e, .operand e' :: more, alternates, alternates', legible, clear, same =>
      rw [text_operand, text_operand] at same
      obtain ⟨operands, others⟩ := (legible e List.mem_cons_self).1 (clear e' List.mem_cons_self)
        (stops_row alternates closed) (stops_row alternates' closed') same
      obtain ⟨parts, behind⟩ := ih legible_items
        (fun x inside => clear x (List.mem_cons_of_mem _ inside)) alternates alternates' others
      exact ⟨by simp only [List.map_cons, Item.withoutSpans, operands, parts], behind⟩
    | true, .operand e, .before op span :: more, alternates, alternates', legible, _, same =>
      rw [text_operand, text_before] at same
      exact absurd same.symm (sign_ne_operand alternates'.1 (legible e List.mem_cons_self).2
        (stops_row alternates closed) _)
    | true, .before op span, .operand e' :: more, alternates, alternates', _, clear, same =>
      rw [text_before, text_operand] at same
      exact absurd same (sign_ne_operand alternates.1 (clear e' List.mem_cons_self)
        (stops_row alternates' closed') _)
    | true, .before op span, .before op' span' :: more, alternates, alternates', _, clear, same =>
      rw [text_before, text_before] at same
      obtain ⟨rfl, others⟩ := sign_unique alternates.1 alternates'.1 same
      obtain ⟨parts, behind⟩ := ih legible_items
        (fun x inside => clear x (List.mem_cons_of_mem _ inside)) alternates.2 alternates'.2 others
      exact ⟨by simp only [List.map_cons, Item.withoutSpans, parts], behind⟩
    | false, .between op span, [], _, _, _, _, same =>
      rw [text_between] at same
      exact absurd same (between_ne _ closed')
    | false, .between op span, .between op' span' :: more, alternates, alternates', _, clear,
        same =>
      rw [text_between, text_between] at same
      obtain ⟨rfl, others⟩ := symbol_unique (List.cons.inj same).2
      obtain ⟨parts, behind⟩ := ih legible_items
        (fun x inside => clear x (List.mem_cons_of_mem _ inside)) alternates alternates' others
      exact ⟨by simp only [List.map_cons, Item.withoutSpans, parts], behind⟩

/-- A row binds to one expression only. -/
theorem same_of_items {e e' : Expr} {strength strength' : Nat}
    (same : (e.items strength).map Item.withoutSpans = (e'.items strength').map Item.withoutSpans) :
    e.withoutSpans = e'.withoutSpans := by
  have bound := congrArg bind? same
  rw [bind?_withoutSpans, bind?_withoutSpans, bind?_items, bind?_items] at bound
  exact Option.some.inj bound

/-! ### Expressions -/

/-- The expression whose row the text of an expression starts with. -/
def Expr.front (e : Expr) : Expr :=
  match e with
  | conditional _ whenTrue _ _ => whenTrue
  | e => e

/-- The text of an expression behind its first row. -/
def Expr.behind : Expr → List Char
  | conditional condition _ whenFalse _ =>
    " if ".toList ++ (rowText (condition.items 1) ++ (" else ".toList ++ whenFalse.render.toList))
  | _ => []

/-- An expression is a conditional, or nothing stands behind its row. -/
theorem conditional_or_row (e : Expr) :
    (∃ condition whenTrue whenFalse span, e = .conditional condition whenTrue whenFalse span) ∨
      1 ≤ e.precedence ∧ e.front = e ∧ e.behind = [] := by
  cases e with
  | conditional condition whenTrue whenFalse span => exact .inl ⟨_, _, _, _, rfl⟩
  | literal _ _ => exact .inr ⟨binds_of_not_conditional id, rfl, rfl⟩
  | name _ _ => exact .inr ⟨binds_of_not_conditional id, rfl, rfl⟩
  | access _ _ _ => exact .inr ⟨binds_of_not_conditional id, rfl, rfl⟩
  | unary _ _ _ => exact .inr ⟨binds_of_not_conditional id, rfl, rfl⟩
  | binary _ _ _ _ => exact .inr ⟨binds_of_not_conditional id, rfl, rfl⟩

theorem render_eq (e : Expr) : e.render.toList = rowText (e.front.items 1) ++ e.behind := by
  have most : 1 ≤ UnaryOperator.atomPrecedence := by decide
  rcases conditional_or_row e with ⟨condition, whenTrue, whenFalse, span, rfl⟩ | ⟨binds, front, rest⟩
  · rw [Expr.render, toList_render_conditional, conditionalText,
      rowText_items whenTrue (Nat.le_refl 1) most, rowText_items condition (Nat.le_refl 1) most]
    rfl
  · rw [front, rest, List.append_nil, Expr.render, ← renderAt_of_le binds,
      rowText_items e (Nat.le_refl 1) most]

theorem front_clear (clear : e.Clear) : e.front.Clear := by
  rcases conditional_or_row e with ⟨condition, whenTrue, whenFalse, span, rfl⟩ | ⟨-, front, -⟩
  · exact clear.parts.2.1
  · rw [front]
    exact clear

/-- What stands behind the first row of an expression ends the row. -/
theorem closed_behind (e : Expr) (closed : Closed ['\x7b'] rest) :
    Closed ['\x7b', 'i', 'e'] (e.behind ++ rest) := by
  rcases conditional_or_row e with ⟨condition, whenTrue, whenFalse, span, rfl⟩ | ⟨-, -, nothing⟩
  · exact closed_blank (by decide) _
  · rw [nothing]
    refine ⟨closed.stops, fun c more same => ?_⟩
    rw [List.mem_singleton.mp (closed.behind c more same)]
    exact List.mem_cons_self

/-- An expression can be told from its text if the operands of its rows and what stands behind the
rows can. -/
theorem legible_of_parts (clear : e.Clear)
    (front : ∀ x, .operand x ∈ e.front.items 1 → LegibleOperand x)
    (choice : ∀ {condition whenTrue whenFalse span},
      e = .conditional condition whenTrue whenFalse span →
        (∀ x, .operand x ∈ condition.items 1 → LegibleOperand x) ∧ LegibleExpr whenFalse) :
    LegibleExpr e := by
  have rows : ∀ {first second : Expr} {rest rest' : List Char}, first.Clear → second.Clear →
      (∀ x, .operand x ∈ first.items 1 → LegibleOperand x) →
      Closed ['\x7b', 'i', 'e'] rest → Closed ['\x7b', 'i', 'e'] rest' →
      rowText (first.items 1) ++ rest = rowText (second.items 1) ++ rest' →
      first.withoutSpans = second.withoutSpans ∧ rest = rest' := by
    intro first second rest rest' clear clear' legible closed closed' same
    obtain ⟨parts, behind⟩ := row_unique
      (fun x inside => ⟨legible x inside, clear_items clear 1 x inside⟩) (clear_items clear' 1)
      (alternates_items first 1) (alternates_items second 1) closed closed' same
    exact ⟨same_of_items parts, behind⟩
  intro e' rest rest' clear' closed closed' same
  dsimp only at same
  rw [render_eq, render_eq, List.append_assoc, List.append_assoc] at same
  obtain ⟨fronts, behind⟩ := rows (front_clear clear) (front_clear clear') front
    (closed_behind e closed) (closed_behind e' closed') same
  -- A conditional goes on with a word that nothing else goes on with.
  have no_choice : ∀ {rest : List Char}, Closed ['\x7b'] rest → ∀ more,
      " if ".toList ++ more ≠ rest := by
    rintro _ closed more rfl
    exact absurd (closed.behind 'i' _ rfl) (by decide)
  rcases conditional_or_row e with ⟨condition, whenTrue, whenFalse, span, rfl⟩ | ⟨-, own, nothing⟩
  · rcases conditional_or_row e' with
      ⟨condition', whenTrue', whenFalse', span', rfl⟩ | ⟨-, -, nothing'⟩
    · obtain ⟨legible_condition, legible_false⟩ := choice rfl
      have word : ∀ more, Closed ['\x7b', 'i', 'e'] (" else ".toList ++ more) :=
        fun more => closed_blank (by decide) _
      simp only [Expr.behind, List.append_assoc] at behind
      obtain ⟨conditions, others⟩ := rows clear.parts.1 clear'.parts.1 legible_condition
        (word _) (word _) (List.append_cancel_left behind)
      obtain ⟨falses, last⟩ := legible_false clear'.parts.2.2 closed closed'
        (List.append_cancel_left others)
      have trues : whenTrue.withoutSpans = whenTrue'.withoutSpans := fronts
      exact ⟨by simp only [Expr.withoutSpans, conditions, trues, falses], last⟩
    · rw [nothing'] at behind
      simp only [Expr.behind, List.append_assoc, List.nil_append] at behind
      exact absurd behind (no_choice closed' _)
  · rcases conditional_or_row e' with
      ⟨condition', whenTrue', whenFalse', span', rfl⟩ | ⟨-, own', nothing'⟩
    · rw [nothing] at behind
      simp only [Expr.behind, List.append_assoc, List.nil_append] at behind
      exact absurd behind.symm (no_choice closed _)
    · rw [own, own'] at fronts
      rw [nothing, nothing'] at behind
      exact ⟨fronts, behind⟩

/-- An expression that is one operand of its row wherever it stands. -/
theorem legible_of_operand (clear : e.Clear) (all : e.operand.All LegibleExpr)
    (items : ∀ strength, e.items strength = [.operand e]) (no_choice : e.front = e)
    (binds : 1 ≤ e.precedence) :
    LegibleExpr e ∧ ∀ strength x, .operand x ∈ e.items strength → LegibleOperand x := by
  have operands : ∀ strength x, .operand x ∈ e.items strength → LegibleOperand x := by
    intro strength x inside
    rw [items] at inside
    cases List.mem_singleton.mp inside
    exact legible_operand clear all
  refine ⟨legible_of_parts clear (by rw [no_choice]; exact operands 1) ?_, operands⟩
  rintro condition whenTrue whenFalse span rfl
  exact absurd binds (Nat.not_succ_le_zero 0)

/-- An expression whose row is spread out, unless it stands in parentheses. -/
theorem legible_of_row (clear : e.Clear) (enclosed : e.operand = .enclosed e)
    (no_choice : e.front = e) (binds : 1 ≤ e.precedence)
    (operands : ∀ x, .operand x ∈ e.items 1 → LegibleOperand x) :
    LegibleExpr e ∧ ∀ strength x, .operand x ∈ e.items strength → LegibleOperand x := by
  have legible : LegibleExpr e := by
    refine legible_of_parts clear (by rw [no_choice]; exact operands) ?_
    rintro condition whenTrue whenFalse span rfl
    exact absurd binds (Nat.not_succ_le_zero 0)
  refine ⟨legible, fun strength x inside => ?_⟩
  by_cases le : strength ≤ e.precedence
  · rw [items_of_le le binds] at inside
    exact operands x inside
  · rw [items_of_lt (Nat.not_le.mp le)] at inside
    cases List.mem_singleton.mp inside
    exact legible_operand clear (by rw [enclosed]; exact legible)

/-- Every expression can be told from its text, and so can the operands of its row. -/
theorem legible_operands (e : Expr) (clear : e.Clear) :
    LegibleExpr e ∧ ∀ strength x, .operand x ∈ e.items strength → LegibleOperand x := by
  have atom_binds : 1 ≤ UnaryOperator.atomPrecedence := by decide
  induction e with
  | literal value span =>
    exact legible_of_operand clear (all_literal clear)
      (fun _ => by simp only [Expr.items, ite_self]) rfl atom_binds
  | name n span =>
    exact legible_of_operand clear ⟨isWord_of_isName clear.written, trivial⟩
      (fun _ => by simp only [Expr.items, ite_self]) rfl atom_binds
  | access n offset span =>
    exact legible_of_operand clear ⟨isWord_of_isName clear.written.1, trivial⟩
      (fun _ => by simp only [Expr.items, ite_self]) rfl atom_binds
  | unary op arg span ih =>
    obtain ⟨legible, operands⟩ := ih clear.arg
    have binds : 1 ≤ (Expr.unary op arg span).precedence := binds_of_not_conditional id
    cases function : op.functionName? with
    | some f =>
      have operand : (Expr.unary op arg span).operand = .word f (.one arg) := by
        simp only [Expr.operand, function]
      refine legible_of_operand clear ?_ (fun _ => by simp only [Expr.items, function, ite_self])
        rfl binds
      rw [operand]
      exact ⟨isWord_of_isName (functionName?_isName function), legible⟩
    | none =>
      refine legible_of_row clear (by simp only [Expr.operand, function]) rfl binds ?_
      have items : (Expr.unary op arg span).items 1 =
          .before op span :: arg.items op.precedence := by
        rw [Expr.items, if_neg (Nat.not_lt.mpr binds)]
        simp only [function]
      intro x inside
      rw [items] at inside
      exact operands _ x (List.mem_of_ne_of_mem (by rintro ⟨⟩) inside)
  | binary op left right span left_ih right_ih =>
    obtain ⟨left_legible, left_operands⟩ := left_ih clear.operands.1
    obtain ⟨right_legible, right_operands⟩ := right_ih clear.operands.2
    have binds : 1 ≤ (Expr.binary op left right span).precedence := binds_of_not_conditional id
    cases function : op.functionName? with
    | some f =>
      have operand : (Expr.binary op left right span).operand = .word f (.two left right) := by
        simp only [Expr.operand, function]
      refine legible_of_operand clear ?_ (fun _ => by simp only [Expr.items, function, ite_self])
        rfl binds
      rw [operand]
      exact ⟨isWord_of_isName (binaryName_isName function).1, left_legible, right_legible⟩
    | none =>
      refine legible_of_row clear (by simp only [Expr.operand, function]) rfl binds ?_
      have items : (Expr.binary op left right span).items 1 =
          left.items (leftAsks op) ++ .between op span :: right.items (rightAsks op) := by
        rw [Expr.items, if_neg (Nat.not_lt.mpr binds)]
        simp only [function]
      intro x inside
      rw [items] at inside
      rcases List.mem_append.mp inside with inside | inside
      · exact left_operands _ x inside
      · exact right_operands _ x (List.mem_of_ne_of_mem (by rintro ⟨⟩) inside)
  | conditional condition whenTrue whenFalse span condition_ih true_ih false_ih =>
    have legible : LegibleExpr (.conditional condition whenTrue whenFalse span) := by
      refine legible_of_parts clear ((true_ih clear.parts.2.1).2 1) ?_
      rintro _ _ _ _ ⟨⟩
      exact ⟨(condition_ih clear.parts.1).2 1, (false_ih clear.parts.2.2).1⟩
    refine ⟨legible, fun strength x inside => ?_⟩
    simp only [Expr.items, ite_self] at inside
    cases List.mem_singleton.mp inside
    exact legible_operand clear legible

/-- **Two expressions that make up the same text with what closes them are the same**, up to spans,
and are closed at the same place. -/
theorem legible {e : Expr} (clear : e.Clear) : LegibleExpr e := (legible_operands e clear).1

end GridStencil.Definition
