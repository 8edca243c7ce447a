import GridStencil.Proofs.Definition.Row

/-!
**Expressions read back from their text.**

The text of an expression is a row of operands, or a conditional made of three such texts. A row is
read from the left: its first operand, and behind it operators and operands as long as they follow.
So a row is described by what happens behind it (`RowOf`), and the rows of the operands of an
operator make up the row of the operation.

The main result is `textOf_render`, that an expression reads back wherever something follows that
closes expressions.
-/

namespace GridStencil.Definition

open Grammar

variable {e : Expr} {rest : List Char}

/-! ### Text -/

/-- Parentheses go around the text that stands where nothing is asked. -/
theorem renderAt_eq (strength : Nat) (e : Expr) :
    e.renderAt strength = parenthesised e.precedence strength (e.renderAt 0) := by
  cases e <;> simp [Expr.renderAt, parenthesised]

theorem renderAt_of_le {strength : Nat} (le : strength ≤ e.precedence) :
    e.renderAt strength = e.renderAt 0 := by
  rw [renderAt_eq, parenthesised, if_neg (by omega)]

theorem renderAt_of_lt {strength : Nat} (lt : e.precedence < strength) :
    (e.renderAt strength).toList = '(' :: ((e.renderAt 0).toList ++ [')']) := by
  rw [renderAt_eq, parenthesised, if_pos lt]
  simp only [String.toList_append]
  rfl

/-! ### Rows -/

/-- Whether a text is that of a row: behind its first operand, together with what goes on behind
the row, stands the rest of it. -/
def RowOf (items : List Item) (text : List Char) : Prop :=
  Solid text ∧ ∀ (rest after : List Char) (more : List Item), Boundary rest →
    Phrase.others.Resumes rest after (SpellsRow more) →
    ∃ middle first following,
      Phrase.signed.Resumes (text ++ rest) middle (SpellsRow first) ∧
      Phrase.others.Resumes middle after (SpellsRow following) ∧
      first ++ following = items ++ more

/-- An operand is a row. -/
theorem rowOf_operand {text : List Char} (solid : Solid text)
    (no_operator : ∀ rest, Boundary rest → Phrase.prefixOperator.Rejects (text ++ rest))
    (yields : ∀ rest, Boundary rest →
      Phrase.primary.Yields (text ++ rest) rest (SpellsRow [.operand e])) :
    RowOf [.operand e] text := by
  refine ⟨solid, fun rest after more boundary goes_on =>
    ⟨rest, [.operand e], more, ?_, goes_on, rfl⟩⟩
  have no_sign : (Phrase.many Phrase.prefixOperator).Resumes (text ++ rest) (text ++ rest)
      (· = []) := .many_nil (by rw [solid.skip]; exact no_operator rest boundary) rfl
  refine no_sign.seq (by rw [solid.skip]; exact yields rest boundary) ?_
  rintro _ _ rfl spells
  exact spells

/-- A sign in front of a row. -/
theorem rowOf_sign {op : UnaryOperator} (is_sign : op.functionName? = none) (span : Span)
    {items : List Item} {text : List Char} (row : RowOf items text) :
    RowOf (.before op span :: items) (op.symbol.toList ++ text) := by
  obtain ⟨-, parts⟩ := row
  have solid : Solid op.symbol.toList := by
    cases op with
    | neg => exact ⟨'-', [], rfl, rfl⟩
    | pos => exact ⟨'+', [], rfl, rfl⟩
    | not => exact ⟨'n', _, rfl, rfl⟩
    | _ => cases is_sign
  refine ⟨solid.append text, fun rest after more boundary goes_on => ?_⟩
  obtain ⟨middle, first, following, signed, others, same⟩ := parts rest after more boundary goes_on
  refine ⟨middle, .before op span :: first, following, ?_, others, by simp [same]⟩
  rw [List.append_assoc]
  refine .seq_many_cons (by decide)
    (by rw [solid.skip]; exact prefixOperator_yields is_sign span _) signed ?_
  exact fun left right left_spells right_spells => left_spells.append right_spells

/-- An operator between two rows. -/
theorem rowOf_between {op : BinaryOperator} (is_operator : op.functionName? = none) (span : Span)
    {left right : List Item} {left_text right_text : List Char} (left_row : RowOf left left_text)
    (right_row : RowOf right right_text) :
    RowOf (left ++ .between op span :: right)
      (left_text ++ ' ' :: (op.symbol.toList ++ ' ' :: right_text)) := by
  obtain ⟨left_solid, left_parts⟩ := left_row
  obtain ⟨-, right_parts⟩ := right_row
  have symbol : ∃ c cs, op.symbol.toList = c :: cs ∧ isSolid c = true ∧ c ≠ '(' ∧ c ≠ '[' := by
    cases op <;> exact ⟨_, _, rfl, by decide, by decide, by decide⟩
  obtain ⟨c, cs, symbol_eq, solid, no_arguments, no_offset⟩ := symbol
  refine ⟨left_solid.append _, fun rest after more boundary goes_on => ?_⟩
  obtain ⟨middle, first, following, signed, others, same⟩ :=
    right_parts rest after more boundary goes_on
  have skipped : skip (' ' :: (op.symbol.toList ++ ' ' :: (right_text ++ rest))) =
      op.symbol.toList ++ ' ' :: (right_text ++ rest) := by
    rw [skip_blank, symbol_eq]
    exact skip_cons_solid solid _
  -- The operator and the first operand of the right row are one step of the repetition.
  have step : (Phrase.seq Phrase.infixOperator Phrase.signed).Yields
      (op.symbol.toList ++ ' ' :: (right_text ++ rest)) middle
      (SpellsRow (.between op span :: first)) :=
    (infixOperator_yields is_operator span _).seq (signed _ (skip_skip _))
      fun _ _ => SpellsRow.append
  have left_goes_on : Phrase.others.Resumes
      (' ' :: (op.symbol.toList ++ ' ' :: (right_text ++ rest))) after
      (SpellsRow (.between op span :: first ++ following)) :=
    .many_cons (by rw [skipped]; exact step) others
      fun _ _ => SpellsRow.append
  have left_boundary : Boundary (' ' :: (op.symbol.toList ++ ' ' :: (right_text ++ rest))) := by
    constructor
    · exact endsToken_cons rfl _
    · rw [skipped, symbol_eq]
      simpa using no_arguments
    · rw [skipped, symbol_eq]
      simpa using no_offset
  obtain ⟨left_middle, left_first, left_following, left_signed, left_others, left_same⟩ :=
    left_parts _ after _ left_boundary left_goes_on
  refine ⟨left_middle, left_first, left_following, ?_, left_others, ?_⟩
  · simpa only [List.append_assoc, List.cons_append] using left_signed
  · rw [left_same, List.cons_append, same]
    simp

/-! ### Rows as phrases -/

/-- A row that nothing goes on behind. -/
theorem arith_yields {strength : Nat} {text : List Char} (row : RowOf (e.items strength) text)
    (ends : RowEnds rest) :
    (Phrase.rule .arith).Yields (text ++ rest) rest
      (fun nodes => ∃ node, nodes = [node] ∧ Spells e node) := by
  obtain ⟨middle, first, following, signed, others, same⟩ :=
    row.2 rest rest [] ends.toBoundary (others_resumes ends)
  rw [List.append_nil] at same
  have parts : (Phrase.seq (.many Phrase.prefixOperator) (.seq .primary .others)).Yields
      (text ++ rest) rest (SpellsRow (e.items strength)) := by
    refine .assoc (by decide) signed.yields (others _ (skip_skip middle)) ?_
    intro left right left_spells right_spells
    rw [← same]
    exact left_spells.append right_spells
  refine .rule rfl parts fun span nodes spells => ⟨_, rfl, ?_⟩
  obtain ⟨found, read, same_items⟩ := spells
  have bound := congrArg bind? same_items
  rw [bind?_withoutSpans, bind?_withoutSpans, bind?_items, Option.map_some,
    Option.map_eq_some_iff] at bound
  obtain ⟨value, value_eq, same_value⟩ := bound
  refine ⟨value, ?_, same_value⟩
  rw [readExpr, read]
  simp only [bind, Except.bind, value_eq]
  rfl

/-! ### Parentheses -/

theorem items_of_lt {strength : Nat} (lt : e.precedence < strength) :
    e.items strength = [.operand e] := by
  cases e <;> rw [Expr.items, if_pos lt]

theorem items_of_le {strength other : Nat} (le : strength ≤ e.precedence)
    (le_other : other ≤ e.precedence) : e.items strength = e.items other := by
  cases e <;> rw [Expr.items, Expr.items, if_neg (by omega), if_neg (by omega)]

/-- Parentheses around the text of an expression. -/
theorem rowOf_parentheses {text : List Char} (text_of : TextOf e text) :
    RowOf [.operand e] ('(' :: (text ++ [')'])) := by
  have same : ∀ rest, '(' :: (text ++ [')']) ++ rest = '(' :: (text ++ ')' :: rest) := by
    intro rest
    simp
  refine rowOf_operand ⟨'(', _, rfl, rfl⟩ (fun rest _ => ?_) fun rest _ => ?_
  · rw [same]
    exact prefixOperator_rejects (by rintro ⟨⟩) (by rintro ⟨⟩) rfl
  · rw [same]
    exact primary_yields_parentheses text_of rest

/-- A row in every place that it stands in without parentheses gives rows with parentheses, too. -/
theorem rowOf_renderAt {strength : Nat}
    (row : strength ≤ e.precedence → RowOf (e.items strength) (e.renderAt 0).toList)
    (text_of : TextOf e (e.renderAt 0).toList) :
    RowOf (e.items strength) (e.renderAt strength).toList := by
  by_cases le : strength ≤ e.precedence
  · rw [renderAt_of_le le]
    exact row le
  · have lt : e.precedence < strength := Nat.not_le.mp le
    rw [renderAt_of_lt lt, items_of_lt lt]
    exact rowOf_parentheses text_of

/-! ### Expressions -/

/-- A row is the text of an expression. -/
theorem textOf_row {strength : Nat} {text : List Char} (row : RowOf (e.items strength) text) :
    TextOf e text := by
  refine ⟨row.1, fun rest closes => ?_⟩
  have no_choice : (Phrase.optional Phrase.choiceTail).Yields (skip rest) (skip rest) (· = []) :=
    .optional_none closes.no_choice rfl
  refine .rule rfl ((arith_yields row closes.toRowEnds).next rfl
    (no_choice.congr (skip_skip rest))) ?_
  rintro span _ ⟨_, _, rfl, ⟨node, rfl, found, read, same⟩, rfl⟩
  refine ⟨_, rfl, rfl, found, ?_, same⟩
  rw [List.append_nil, readExpr, read]

/-- What starts the words inside a conditional and the blocks behind a condition. -/
theorem rowEnds_blank {c : Char} (rest : List Char) (starts : c = 'i' ∨ c = 'e' ∨ c = '\x7b') :
    RowEnds (' ' :: c :: rest) := by
  have skipped : skip (' ' :: c :: rest) = c :: rest := by
    rw [skip_blank]
    rcases starts with rfl | rfl | rfl <;> exact skip_cons_solid rfl rest
  constructor
  · constructor
    · exact endsToken_cons rfl _
    · rw [skipped]
      rcases starts with rfl | rfl | rfl <;> rintro ⟨⟩
    · rw [skipped]
      rcases starts with rfl | rfl | rfl <;> rintro ⟨⟩
  · rw [skipped]
    refine infixOperator_rejects ?_ ?_ ?_
    · rcases starts with rfl | rfl | rfl <;> simp [symbolStarts]
    · rcases starts with rfl | rfl | rfl <;> rfl
    · rcases starts with rfl | rfl | rfl <;> rfl

/-- The text of a conditional, given the texts of its parts. -/
def conditionalText (when_true condition when_false : List Char) : List Char :=
  when_true ++ (" if ".toList ++ (condition ++ (" else ".toList ++ when_false)))

/-- The parts of a conditional are read one by one. -/
theorem conditional_yields {condition whenTrue : Expr} {strength strength' : Nat}
    {true_text condition_text false_text after : List Char} {meaning : Node → Prop}
    (true_row : RowOf (whenTrue.items strength) true_text)
    (condition_row : RowOf (condition.items strength') condition_text)
    (solid : Solid false_text)
    (false_yields : (Phrase.rule .expr).Yields (false_text ++ rest) after
      (fun nodes => ∃ node, nodes = [node] ∧ meaning node)) :
    (Phrase.rule .expr).Yields
      (conditionalText true_text condition_text false_text ++ rest) after
      (fun nodes => ∃ span t c f, nodes = [.mk .expr span "" [t, c, f]] ∧
        Spells whenTrue t ∧ Spells condition c ∧ meaning f) := by
  have first := arith_yields true_row (rowEnds_blank ('f' :: ' ' :: (condition_text ++
    (" else ".toList ++ (false_text ++ rest)))) (.inl rfl))
  have second := arith_yields condition_row
    (rowEnds_blank ('l' :: 's' :: 'e' :: ' ' :: (false_text ++ rest)) (.inr (.inl rfl)))
  have tail : Phrase.choiceTail.Yields _ after _ :=
    (Phrase.Yields.text "if" (' ' :: (condition_text ++ (" else ".toList ++
      (false_text ++ rest))))).next ((skip_blank _).trans (condition_row.1.skip _)) <|
    second.next rfl <|
    (Phrase.Yields.text "else" (' ' :: (false_text ++ rest))).next
      ((skip_blank _).trans (solid.skip _)) <|
    false_yields
  have parts := first.next rfl tail.optional_some
  simp only [conditionalText, List.append_assoc]
  refine .rule rfl parts ?_
  rintro span _ ⟨_, _, rfl, ⟨t, rfl, t_spells⟩, _, _, rfl, rfl, _, _, rfl, ⟨c, rfl, c_spells⟩, _,
    _, rfl, rfl, f, rfl, f_meant⟩
  exact ⟨span, t, c, f, rfl, t_spells, c_spells, f_meant⟩

/-- The text of a conditional. -/
theorem toList_render_conditional (condition whenTrue whenFalse : Expr) (span : Span) :
    ((Expr.conditional condition whenTrue whenFalse span).renderAt 0).toList =
      conditionalText (whenTrue.renderAt 1).toList (condition.renderAt 1).toList
        (whenFalse.renderAt 0).toList := by
  simp only [Expr.renderAt, parenthesised, Nat.not_lt_zero, if_false, String.toList_append,
    conditionalText, List.append_assoc]

theorem readExpr_conditional {t c f : Node} {whenTrue condition whenFalse : Expr}
    (t_read : readExpr t = .ok whenTrue) (c_read : readExpr c = .ok condition)
    (f_read : readExpr f = .ok whenFalse) (span : Span) (text : String) :
    readExpr (.mk .expr span text [t, c, f]) =
      .ok (.conditional condition whenTrue whenFalse span) := by
  rw [readExpr, t_read, c_read, f_read]
  rfl

theorem textOf_conditional {condition whenTrue whenFalse : Expr} {strength strength' : Nat}
    {true_text condition_text false_text : List Char} (span : Span)
    (true_row : RowOf (whenTrue.items strength) true_text)
    (condition_row : RowOf (condition.items strength') condition_text)
    (false_text_of : TextOf whenFalse false_text) :
    TextOf (.conditional condition whenTrue whenFalse span)
      (conditionalText true_text condition_text false_text) := by
  refine ⟨true_row.1.append _, fun rest closes => ?_⟩
  refine (conditional_yields true_row condition_row false_text_of.1
    (false_text_of.2 rest closes)).imp ?_
  rintro _ ⟨at_span, t, c, f, rfl, ⟨_, t_read, t_same⟩, ⟨_, c_read, c_same⟩, -, _, f_read, f_same⟩
  refine ⟨_, rfl, rfl, _, readExpr_conditional t_read c_read f_read at_span "", ?_⟩
  simp only [Expr.withoutSpans, t_same, c_same, f_same]

/-! ### The text of an expression -/

/-- What the printer puts around and between the operands of an operator. -/
theorem toList_render_between {op : BinaryOperator} (is_operator : op.functionName? = none)
    (left right : Expr) (span : Span) :
    ((Expr.binary op left right span).renderAt 0).toList =
      (left.renderAt (leftAsks op)).toList ++
        ' ' :: (op.symbol.toList ++ ' ' :: (right.renderAt (rightAsks op)).toList) := by
  have blank : " ".toList = [' '] := rfl
  simp only [Expr.renderAt, parenthesised, Nat.not_lt_zero, if_false, is_operator,
    String.toList_append, blank, List.append_assoc, List.singleton_append]
  rfl

/-- Whether an expression is a row wherever something is asked, and reads back from its text where
nothing is. -/
structure ReadsAnywhere (e : Expr) : Prop where
  rows : ∀ strength, 1 ≤ strength → RowOf (e.items strength) (e.renderAt strength).toList
  text : TextOf e (e.renderAt 0).toList

/-- A row that needs no parentheses where anything is asked. -/
theorem ReadsAnywhere.of_row (binds : 1 ≤ e.precedence)
    (row : RowOf (e.items 1) (e.renderAt 0).toList) : ReadsAnywhere e := by
  have text_of := textOf_row row
  refine ⟨fun strength _ => rowOf_renderAt (fun le => ?_) text_of, text_of⟩
  rw [items_of_le le binds]
  exact row

/-- A number is a row. -/
theorem rowOf_number {text : List Char} {parts : List Char × List Char}
    (number : Pattern.float.split text = some parts ∨ Pattern.digits.split text = some parts)
    (yields : ∀ rest, Boundary rest →
      Phrase.primary.Yields (text ++ rest) rest (SpellsRow [.operand e])) :
    RowOf [.operand e] text := by
  obtain ⟨c, cs, rfl, starts⟩ := Pattern.number_starts number
  refine rowOf_operand ⟨c, cs, rfl, ?_⟩
    (fun rest _ => prefixOperator_rejects_number starts _) yields
  rcases starts with digit | rfl
  · exact isSolid_of_isNameChar (by simp [Pattern.isNameChar, digit])
  · rfl

theorem rowOf_literal {value : Literal} (span : Span) (written : WrittenLiteral value)
    (floats : ∀ x ∈ literalFloats value, Number.ReadsBack x) :
    RowOf [.operand (.literal value span)] value.render.toList := by
  cases value with
  | int value =>
    obtain ⟨n, rfl⟩ := Int.eq_ofNat_of_zero_le written.1
    have text_eq : toString (n : Int) = toString n := Number.toString_ofNat n
    have split := Pattern.split_digits_toString n endsToken_nil
    rw [List.append_nil, ← text_eq] at split
    exact rowOf_number (.inr split) fun rest boundary =>
      primary_yields_int written span boundary.ends
  | float value =>
    have reads_back := floats value (List.mem_singleton_self value)
    obtain ⟨mantissa, exponent, positive⟩ := reads_back.1
    exact rowOf_number (.inl (Number.split_text positive)) fun rest boundary =>
      primary_yields_float reads_back span boundary.ends
  | bool value =>
    refine rowOf_operand ?_ (fun rest boundary => ?_) fun rest boundary =>
      primary_yields_bool value span boundary.ends
    · cases value <;> exact ⟨_, _, rfl, rfl⟩
    · cases value <;> exact prefixOperator_rejects (by rintro ⟨⟩) (by rintro ⟨⟩) rfl

/-- An operand that starts with a name is a row. -/
theorem rowOf_named {name : String} {tail : List Char} (is_name : IsName name)
    (ends : ∀ rest, EndsToken (tail ++ rest))
    (yields : ∀ rest, Phrase.primary.Yields (name.toList ++ (tail ++ rest)) rest
      (SpellsRow [.operand e])) :
    RowOf [.operand e] (name.toList ++ tail) := by
  refine rowOf_operand (is_name.solid.append _) (fun rest _ => ?_) fun rest _ => ?_
  · rw [List.append_assoc]
    exact prefixOperator_rejects_name is_name (ends rest)
  · rw [List.append_assoc]
    exact yields rest

theorem rowOf_access {n : String} {offset : Offset} {span : Span}
    (written : (Expr.access n offset span).Written) :
    RowOf [.operand (.access n offset span)]
      ((Expr.access n offset span).renderAt 0).toList := by
  obtain ⟨is_name, in_range⟩ := written
  have text : ((Expr.access n offset span).renderAt 0).toList =
      n.toList ++ offset.render.toList := by
    simp only [Expr.renderAt, parenthesised, Nat.not_lt_zero, if_false, String.toList_append]
  rw [text]
  refine rowOf_named is_name (fun rest => ?_) (primary_yields_access is_name in_range span)
  obtain ⟨more, starts⟩ := offset_starts offset rest
  rw [starts]
  exact endsToken_cons rfl more

theorem rowOf_call {op : UnaryOperator} {name : String} (function : op.functionName? = some name)
    {arg : Expr} (arg_text : TextOf arg (arg.renderAt 0).toList) (span : Span) :
    RowOf [.operand (.unary op arg span)] ((Expr.unary op arg span).renderAt 0).toList := by
  have brackets : "(".toList = ['('] ∧ ")".toList = [')'] := ⟨rfl, rfl⟩
  have text : ((Expr.unary op arg span).renderAt 0).toList =
      name.toList ++ '(' :: ((arg.renderAt 0).toList ++ [')']) := by
    simp only [Expr.renderAt, parenthesised, Nat.not_lt_zero, if_false, function,
      String.toList_append, brackets, List.append_assoc, List.cons_append, List.nil_append]
  rw [text]
  refine rowOf_named (functionName?_isName function) (fun rest => endsToken_cons rfl _)
    fun rest => ?_
  simp only [List.cons_append, List.append_assoc, List.nil_append]
  exact primary_yields_call function arg_text span rest

theorem rowOf_call_two {op : BinaryOperator} {name : String}
    (function : op.functionName? = some name) {left right : Expr}
    (left_text : TextOf left (left.renderAt 0).toList)
    (right_text : TextOf right (right.renderAt 0).toList) (span : Span) :
    RowOf [.operand (.binary op left right span)]
      ((Expr.binary op left right span).renderAt 0).toList := by
  have signs : "(".toList = ['('] ∧ ", ".toList = [',', ' '] ∧ ")".toList = [')'] :=
    ⟨rfl, rfl, rfl⟩
  have text : ((Expr.binary op left right span).renderAt 0).toList =
      name.toList ++ '(' :: ((left.renderAt 0).toList ++
        ',' :: ' ' :: ((right.renderAt 0).toList ++ [')'])) := by
    simp only [Expr.renderAt, parenthesised, Nat.not_lt_zero, if_false, function,
      String.toList_append, signs, List.append_assoc, List.cons_append, List.nil_append]
  rw [text]
  refine rowOf_named (binaryName_isName function).1 (fun rest => endsToken_cons rfl _)
    fun rest => ?_
  simp only [List.cons_append, List.append_assoc, List.nil_append]
  exact primary_yields_call_two function left_text right_text span rest

/-! ### Expressions from their parts -/

theorem ReadsAnywhere.atom (binds : e.precedence = UnaryOperator.atomPrecedence)
    (items : e.items 1 = [.operand e]) (row : RowOf [.operand e] (e.renderAt 0).toList) :
    ReadsAnywhere e := by
  refine .of_row (by rw [binds]; decide) ?_
  rw [items]
  exact row

theorem ReadsAnywhere.unary {op : UnaryOperator} {arg : Expr} (span : Span)
    (arg_reads : ReadsAnywhere arg) : ReadsAnywhere (.unary op arg span) := by
  cases function : op.functionName? with
  | none =>
    have binds : 3 ≤ op.precedence := by cases op <;> revert function <;> decide
    have text : ((Expr.unary op arg span).renderAt 0).toList =
        op.symbol.toList ++ (arg.renderAt op.precedence).toList := by
      simp only [Expr.renderAt, parenthesised, Nat.not_lt_zero, if_false, function,
        String.toList_append]
    have items : (Expr.unary op arg span).items 1 =
        .before op span :: arg.items op.precedence := by
      simp only [Expr.items, function, Expr.precedence]
      rw [if_neg (by omega)]
    refine .of_row (by simp only [Expr.precedence]; omega) ?_
    rw [text, items]
    exact rowOf_sign function span (arg_reads.rows op.precedence (by omega))
  | some name =>
    have items : (Expr.unary op arg span).items 1 = [.operand (.unary op arg span)] := by
      simp only [Expr.items, function, ite_self]
    have binds : 1 ≤ op.precedence := by cases op <;> decide
    refine .of_row binds ?_
    rw [items]
    exact rowOf_call function arg_reads.text span

theorem ReadsAnywhere.binary {op : BinaryOperator} {left right : Expr} (span : Span)
    (left_reads : ReadsAnywhere left) (right_reads : ReadsAnywhere right) :
    ReadsAnywhere (.binary op left right span) := by
  have binds : 1 ≤ op.precedence := by cases op <;> decide
  cases function : op.functionName? with
  | none =>
    obtain ⟨left_asks, right_asks⟩ := precedence_le_asks op
    have own : (Expr.binary op left right span).precedence = op.precedence := by
      simp only [Expr.precedence, function]
      rfl
    have items : (Expr.binary op left right span).items 1 =
        left.items (leftAsks op) ++ .between op span :: right.items (rightAsks op) := by
      rw [Expr.items, if_neg (by omega)]
      simp only [function]
    refine .of_row (by omega) ?_
    rw [toList_render_between function, items]
    exact rowOf_between function span (left_reads.rows _ (by omega))
      (right_reads.rows _ (by omega))
  | some name =>
    refine .atom ?_ ?_ (rowOf_call_two function left_reads.text right_reads.text span)
    · simp only [Expr.precedence, function]
      rfl
    · simp only [Expr.items, function, ite_self]

theorem ReadsAnywhere.conditional {condition whenTrue whenFalse : Expr} (span : Span)
    (condition_reads : ReadsAnywhere condition) (true_reads : ReadsAnywhere whenTrue)
    (false_reads : ReadsAnywhere whenFalse) :
    ReadsAnywhere (.conditional condition whenTrue whenFalse span) := by
  have text_of : TextOf (.conditional condition whenTrue whenFalse span)
      ((Expr.conditional condition whenTrue whenFalse span).renderAt 0).toList := by
    rw [toList_render_conditional]
    exact textOf_conditional span (true_reads.rows 1 (Nat.le_refl 1))
      (condition_reads.rows 1 (Nat.le_refl 1)) false_reads.text
  refine ⟨fun strength asks => rowOf_renderAt (fun le => ?_) text_of, text_of⟩
  have conditional_binds : ¬ 1 ≤ 0 := by decide
  exact absurd (Nat.le_trans asks le) conditional_binds

/-- Every expression that can be written is a row wherever something is asked, and reads back from
its text where nothing is. -/
theorem readsAnywhere (e : Expr) (written : e.Written)
    (floats : ∀ x ∈ e.floats, Number.ReadsBack x) : ReadsAnywhere e := by
  induction e with
  | literal value span =>
    exact .atom rfl (by simp only [Expr.items, ite_self]) (rowOf_literal span written floats)
  | name n span =>
    exact .atom rfl (by simp only [Expr.items, ite_self]) (rowOf_operand written.solid
      (fun rest boundary => prefixOperator_rejects_name written boundary.ends)
      fun rest boundary => primary_yields_name written span boundary)
  | access n offset span =>
    exact .atom rfl (by simp only [Expr.items, ite_self]) (rowOf_access written)
  | unary op arg span arg_ih => exact (arg_ih written floats).unary span
  | binary op left right span left_ih right_ih =>
    refine (left_ih written.1 fun x inside => ?_).binary span
      (right_ih written.2 fun x inside => ?_)
    · exact floats x (List.mem_append_left _ inside)
    · exact floats x (List.mem_append_right _ inside)
  | conditional condition whenTrue whenFalse span condition_ih true_ih false_ih =>
    obtain ⟨condition_written, true_written, false_written⟩ := written
    refine .conditional span (condition_ih condition_written fun x inside => ?_)
      (true_ih true_written fun x inside => ?_) (false_ih false_written fun x inside => ?_)
    · exact floats x (by simp [Expr.floats, inside])
    · exact floats x (by simp [Expr.floats, inside])
    · exact floats x (by simp [Expr.floats, inside])

/-- **An expression reads back from its text**, wherever something follows that closes
expressions. -/
theorem textOf_render {e : Expr} (written : e.Written)
    (floats : ∀ x ∈ e.floats, Number.ReadsBack x) : TextOf e e.render.toList :=
  (readsAnywhere e written floats).text

/-! ### Conditionals -/

/-- Whether an expression is a conditional. -/
def IsConditional : Expr → Prop
  | .conditional _ _ _ _ => True
  | _ => False

theorem binds_of_not_conditional (no_conditional : ¬ IsConditional e) : 1 ≤ e.precedence := by
  have atom_binds : 1 ≤ UnaryOperator.atomPrecedence := by decide
  cases e with
  | literal _ _ | name _ _ | access _ _ _ => exact atom_binds
  | unary op _ _ =>
    have binds : 1 ≤ op.precedence := by cases op <;> decide
    exact binds
  | binary op _ _ _ =>
    have binds : 1 ≤ op.precedence := by cases op <;> decide
    rw [Expr.precedence]
    split
    · exact atom_binds
    · exact binds
  | conditional _ _ _ _ => exact absurd trivial no_conditional

end GridStencil.Definition
