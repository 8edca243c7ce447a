import GridStencil.Definition.Reader
import GridStencil.Proofs.Definition.Precedence
import GridStencil.Proofs.Definition.Written
import GridStencil.Proofs.Grammar.Numeral

/-!
**The parts of an expression in its text.**

Operators, constants, names, fields at offsets, calls and parentheses: each is read back from its
text wherever a boundary follows it (`Boundary`).
-/

namespace GridStencil

open Grammar

/-! ### Phrases of the grammar -/

namespace Grammar

/-- An operand with the operators before it. -/
def Phrase.signed : Phrase := seq (many prefixOperator) primary

/-- The operators and operands behind the first operand. -/
def Phrase.others : Phrase := many (seq infixOperator signed)

/-- The part of a conditional behind its first expression. -/
def Phrase.choiceTail : Phrase :=
  sequence [text "if", rule .arith, text "else", rule .expr]

/-- The part of a statement with a condition behind its first block. -/
def Phrase.elseTail : Phrase := seq (text "else") (alt (rule .ifStmt) (rule .block))

/-- The first of some tokens that matches, with what it takes and leaves. -/
def firstToken (input : List Char) : List Rule → Option (Rule × List Char × List Char)
  | [] => none
  | r :: rs =>
    match r.body with
    | .token pattern =>
      match pattern.split input with
      | some parts => some (r, parts)
      | none => firstToken input rs
    | .phrase _ => none

namespace Phrase

variable {r : Rule} {rs : List Rule} {input taken rest : List Char}
  {meaning : List Node → Prop}

theorem Yields.first_token (found : firstToken input rs = some (r, taken, rest))
    (meant : ∀ span, meaning [.mk r span (String.ofList taken) []]) :
    (Phrase.choice (rs.map Phrase.rule)).Yields input rest meaning := by
  induction rs with
  | nil => cases found
  | cons q qs ih =>
    rw [firstToken] at found
    split at found
    · next pattern is_body =>
      split at found
      · next parts split =>
        cases found
        have here := Yields.rule_token is_body split meant
        cases qs with
        | nil => exact here
        | cons q' qs => exact here.alt_first
      · next none_there =>
        have others := ih found
        cases qs with
        | nil => cases found
        | cons q' qs => exact others.alt_second (Rejects.rule_token is_body none_there)
    · cases found

theorem Rejects.no_token
    (none_there : ∀ r ∈ rs, ∃ pattern, r.body = .token pattern ∧ pattern.split input = none) :
    (Phrase.choice (rs.map Phrase.rule)).Rejects input := by
  refine Rejects.choice fun p inside => ?_
  obtain ⟨r, r_inside, rfl⟩ := List.mem_map.mp inside
  obtain ⟨pattern, is_body, split⟩ := none_there r r_inside
  exact Rejects.rule_token is_body split

end Phrase

end Grammar

namespace Definition

/-! ### What nodes say -/

/-- A part of a row. -/
def readItem (node : Node) : Reading Item :=
  match infix? node.rule, sign? node.rule with
  | some op, _ => pure (.between op node.span)
  | none, some op => pure (.before op node.span)
  | none, none => do pure (.operand (← readExpr node))

section Items

variable {node : Node}

theorem readItem_between {op : BinaryOperator} (is_operator : infix? node.rule = some op) :
    readItem node = .ok (.between op node.span) := by
  rw [readItem, is_operator]
  rfl

theorem readItem_before {op : UnaryOperator} (no_operator : infix? node.rule = none)
    (is_sign : sign? node.rule = some op) : readItem node = .ok (.before op node.span) := by
  rw [readItem, no_operator, is_sign]
  rfl

/-- What is no operator is an operand. -/
theorem readItem_operand (no_operator : infix? node.rule = none)
    (no_sign : sign? node.rule = none) :
    readItem node = (do return .operand (← readExpr node)) := by
  rw [readItem, no_operator, no_sign]

end Items

theorem readItems_cons (node : Node) (rest : List Node) :
    readItems (node :: rest) = (do return (← readItem node) :: (← readItems rest)) := by
  rw [readItems, readItem]
  cases infix? node.rule with
  | some op => rfl
  | none =>
    cases sign? node.rule with
    | some op => rfl
    | none => cases readExpr node <;> rfl

theorem readItems_append {left right : List Node} {first second : List Item}
    (left_read : readItems left = .ok first) (right_read : readItems right = .ok second) :
    readItems (left ++ right) = .ok (first ++ second) := by
  induction left generalizing first with
  | nil =>
    rw [readItems] at left_read
    cases left_read
    exact right_read
  | cons node rest ih =>
    rw [readItems_cons] at left_read
    rw [List.cons_append, readItems_cons]
    cases item_read : readItem node with
    | error fault => simp [item_read, bind, Except.bind] at left_read
    | ok item =>
      cases rest_read : readItems rest with
      | error fault => simp [item_read, rest_read, bind, Except.bind] at left_read
      | ok items =>
        simp only [item_read, rest_read] at left_read
        cases left_read
        rw [ih rest_read]
        rfl

/-- Whether a node reads as an expression, up to spans. -/
def Spells (e : Expr) (node : Node) : Prop :=
  ∃ found, readExpr node = .ok found ∧ found.withoutSpans = e.withoutSpans

/-- Whether nodes read as a row, up to spans. -/
def SpellsRow (items : List Item) (nodes : List Node) : Prop :=
  ∃ found, readItems nodes = .ok found ∧
    found.map Item.withoutSpans = items.map Item.withoutSpans

namespace SpellsRow

theorem nil : SpellsRow [] [] := ⟨[], by rw [readItems], rfl⟩

theorem append {first second : List Item} {left right : List Node} (spells : SpellsRow first left)
    (spells' : SpellsRow second right) : SpellsRow (first ++ second) (left ++ right) := by
  obtain ⟨found, read, same⟩ := spells
  obtain ⟨found', read', same'⟩ := spells'
  refine ⟨found ++ found', readItems_append read read', ?_⟩
  rw [List.map_append, List.map_append, same, same']

theorem single {item found : Item} {node : Node} (read : readItem node = .ok found)
    (same : found.withoutSpans = item.withoutSpans) : SpellsRow [item] [node] := by
  refine ⟨[found], ?_, by rw [List.map_singleton, List.map_singleton, same]⟩
  rw [readItems_cons, read, readItems]
  rfl

theorem operand {e : Expr} {node : Node} (spells : Spells e node)
    (no_operator : infix? node.rule = none ∧ sign? node.rule = none) :
    SpellsRow [.operand e] [node] := by
  obtain ⟨found, read, same⟩ := spells
  have item_read : readItem node = .ok (.operand found) := by
    rw [readItem_operand no_operator.1 no_operator.2, read]
    rfl
  exact single item_read (congrArg Item.operand same)

theorem before {op : UnaryOperator} {node : Node} (span : Span)
    (is_sign : infix? node.rule = none ∧ sign? node.rule = some op) :
    SpellsRow [.before op span] [node] :=
  single (readItem_before is_sign.1 is_sign.2) rfl

theorem between {op : BinaryOperator} {node : Node} (span : Span)
    (is_operator : infix? node.rule = some op) : SpellsRow [.between op span] [node] :=
  single (readItem_between is_operator) rfl

end SpellsRow

/-! ### Operators -/

variable {name : String} {rest input : List Char}

/-- The rules of the operators between operands. -/
def infixRules : List Rule :=
  [.pow, .add, .sub, .mul, .div, .modulo, .le, .ge, .lt, .gt, .eq, .ne, .andOp, .orOp]

theorem prefixOperator_yields {op : UnaryOperator} (is_sign : op.functionName? = none)
    (span : Span) (rest : List Char) :
    Phrase.prefixOperator.Yields (op.symbol.toList ++ rest) rest
      (SpellsRow [.before op span]) := by
  have token : ∀ (r : Rule) (taken left : List Char),
      firstToken (op.symbol.toList ++ rest) [.neg, .pos, .notOp] = some (r, taken, left) →
      infix? r = none ∧ sign? r = some op → skip left = skip rest →
      Phrase.prefixOperator.Yields (op.symbol.toList ++ rest) rest (SpellsRow [.before op span]) :=
    fun r taken left found is_rule same =>
      (Phrase.Yields.first_token found fun _ => SpellsRow.before span is_rule).congr same
  cases op with
  | neg => exact token .neg ['-'] rest rfl ⟨rfl, rfl⟩ rfl
  | pos => exact token .pos ['+'] rest rfl ⟨rfl, rfl⟩ rfl
  | not => exact token .notOp ['n', 'o', 't'] (' ' :: rest) rfl ⟨rfl, rfl⟩ (skip_blank rest)
  | _ => cases is_sign

theorem infixOperator_yields {op : BinaryOperator} (is_operator : op.functionName? = none)
    (span : Span) (rest : List Char) :
    Phrase.infixOperator.Yields (op.symbol.toList ++ ' ' :: rest) rest
      (SpellsRow [.between op span]) := by
  have token : ∀ (r : Rule) (taken : List Char),
      firstToken (op.symbol.toList ++ ' ' :: rest) infixRules = some (r, taken, ' ' :: rest) →
      infix? r = some op →
      Phrase.infixOperator.Yields (op.symbol.toList ++ ' ' :: rest) rest
        (SpellsRow [.between op span]) :=
    fun r taken found is_rule =>
      (Phrase.Yields.first_token found fun _ => SpellsRow.between span is_rule).congr
        (skip_blank rest)
  cases op with
  | add => exact token .add ['+'] rfl rfl
  | sub => exact token .sub ['-'] rfl rfl
  | mul => exact token .mul ['*'] rfl rfl
  | div => exact token .div ['/'] rfl rfl
  | mod => exact token .modulo ['%'] rfl rfl
  | pow => exact token .pow ['*', '*'] rfl rfl
  | eq => exact token .eq ['=', '='] rfl rfl
  | ne => exact token .ne ['!', '='] rfl rfl
  | lt => exact token .lt ['<'] rfl rfl
  | le => exact token .le ['<', '='] rfl rfl
  | gt => exact token .gt ['>'] rfl rfl
  | ge => exact token .ge ['>', '='] rfl rfl
  | and => exact token .andOp ['a', 'n', 'd'] rfl rfl
  | or => exact token .orOp ['o', 'r'] rfl rfl
  | min => cases is_operator
  | max => cases is_operator

/-- The characters that start operators that are no words. -/
def symbolStarts : List Char := ['*', '+', '-', '/', '%', '<', '>', '=', '!']

theorem not_symbolStart_of_isNameChar {c : Char} (inside : Pattern.isNameChar c = true) :
    c ∉ symbolStarts := by
  have none_inside : symbolStarts.all (fun d => !Pattern.isNameChar d) = true := rfl
  intro starts
  have outside := List.all_eq_true.mp none_inside c starts
  simp [inside] at outside

theorem infixOperator_rejects (no_symbol : ∀ c ∈ symbolStarts, input.head? ≠ some c)
    (no_and : (Pattern.wholeWord "and").split input = none)
    (no_or : (Pattern.wholeWord "or").split input = none) :
    Phrase.infixOperator.Rejects input := by
  have symbol : ∀ {w : String} {first : Char} {more : List Char}, w.toList = first :: more →
      first ∈ symbolStarts → (Pattern.text w).split input = none :=
    fun starts inside => Pattern.split_text_none starts (no_symbol _ inside)
  suffices none_there : ∀ r ∈ infixRules, ∃ pattern,
      r.body = .token pattern ∧ pattern.split input = none from Phrase.Rejects.no_token none_there
  intro r inside
  simp only [infixRules, List.mem_cons, List.not_mem_nil, or_false] at inside
  rcases inside with rfl | rfl | rfl | rfl | rfl | rfl | rfl | rfl | rfl | rfl | rfl | rfl | rfl |
    rfl
  · exact ⟨_, rfl, symbol rfl (by decide)⟩
  · exact ⟨_, rfl, symbol rfl (by decide)⟩
  · exact ⟨_, rfl, symbol rfl (by decide)⟩
  · exact ⟨_, rfl, symbol rfl (by decide)⟩
  · exact ⟨_, rfl, symbol rfl (by decide)⟩
  · exact ⟨_, rfl, symbol rfl (by decide)⟩
  · exact ⟨_, rfl, symbol rfl (by decide)⟩
  · exact ⟨_, rfl, symbol rfl (by decide)⟩
  · exact ⟨_, rfl, symbol rfl (by decide)⟩
  · exact ⟨_, rfl, symbol rfl (by decide)⟩
  · exact ⟨_, rfl, symbol rfl (by decide)⟩
  · exact ⟨_, rfl, symbol rfl (by decide)⟩
  · exact ⟨_, rfl, no_and⟩
  · exact ⟨_, rfl, no_or⟩

theorem infixOperator_rejects_name (is_name : IsName name) (ends : EndsToken rest) :
    Phrase.infixOperator.Rejects (name.toList ++ rest) := by
  have differs : ∀ w ∈ Pattern.keywords, name ≠ w := by
    rintro w inside rfl
    exact is_name.not_keyword inside
  refine infixOperator_rejects (fun c inside head => ?_)
    (is_name.split_wholeWord rfl (differs "and" (by decide)) ends)
    (is_name.split_wholeWord rfl (differs "or" (by decide)) ends)
  obtain ⟨d, ds, chars, -⟩ := is_name.head
  rw [chars] at head
  obtain rfl : d = c := Option.some.inj head
  exact not_symbolStart_of_isNameChar (is_name.all d (by simp [chars])) inside

theorem prefixOperator_rejects (no_minus : input.head? ≠ some '-')
    (no_plus : input.head? ≠ some '+')
    (no_not : (Pattern.wholeWord "not").split input = none) :
    Phrase.prefixOperator.Rejects input := by
  suffices none_there : ∀ r ∈ [Rule.neg, .pos, .notOp], ∃ pattern,
      r.body = .token pattern ∧ pattern.split input = none from Phrase.Rejects.no_token none_there
  intro r inside
  simp only [List.mem_cons, List.not_mem_nil, or_false] at inside
  rcases inside with rfl | rfl | rfl
  · exact ⟨_, rfl, Pattern.split_text_none rfl no_minus⟩
  · exact ⟨_, rfl, Pattern.split_text_none rfl no_plus⟩
  · exact ⟨_, rfl, no_not⟩

/-! ### Boundaries -/

/-- What may follow an operand: no character of a token, no arguments and no offset. -/
structure Boundary (rest : List Char) : Prop where
  ends : EndsToken rest
  no_arguments : (skip rest).head? ≠ some '('
  no_offset : (skip rest).head? ≠ some '['

/-- What may follow a row of operands. -/
structure RowEnds (rest : List Char) : Prop extends Boundary rest where
  no_operator : Phrase.infixOperator.Rejects (skip rest)

/-- What may follow an expression. -/
structure Closes (rest : List Char) : Prop extends RowEnds rest where
  no_choice : Phrase.choiceTail.Rejects (skip rest)

theorem others_resumes {rest : List Char} (ends : RowEnds rest) :
    Phrase.others.Resumes rest rest (SpellsRow []) :=
  Phrase.Resumes.many_nil (Phrase.Rejects.seq_first ends.no_operator) SpellsRow.nil

theorem choiceTail_rejects (no_if : input.head? ≠ some 'i') : Phrase.choiceTail.Rejects input :=
  Phrase.Rejects.seq_first (Phrase.Rejects.token (Pattern.split_text_none rfl no_if))

/-! ### Constants -/

/-- A number does not start an operator. -/
theorem prefixOperator_rejects_number {c : Char} (starts : Pattern.isDigit c = true ∨ c = '.')
    (rest : List Char) : Phrase.prefixOperator.Rejects (c :: rest) := by
  have differs : ∀ d : Char, Pattern.isDigit d = false → d ≠ '.' →
      (c :: rest).head? ≠ some d := by
    rintro d no_digit no_point ⟨⟩
    rcases starts with digit | point
    · rw [digit] at no_digit
      cases no_digit
    · exact no_point point
  have no_not : (Pattern.wholeWord "not").split (c :: rest) = none := by
    have no_text : (Pattern.text "not").split (c :: rest) = none :=
      Pattern.split_text_none rfl (differs 'n' rfl (by decide))
    rw [Pattern.wholeWord, Pattern.split, no_text, Option.bind_none]
  exact prefixOperator_rejects (differs '-' rfl (by decide)) (differs '+' rfl (by decide)) no_not

theorem primary_yields_int {value : Int} (written : WrittenLiteral (.int value)) (span : Span)
    (ends : EndsToken rest) :
    Phrase.primary.Yields ((toString value).toList ++ rest) rest
      (SpellsRow [.operand (.literal (.int value) span)]) := by
  obtain ⟨positive, in_range⟩ := written
  obtain ⟨n, rfl⟩ := Int.eq_ofNat_of_zero_le positive
  have text_eq : toString (n : Int) = toString n := Number.toString_ofNat n
  have no_float : Pattern.float.split ((toString n).toList ++ rest) = none :=
    Pattern.split_float_none (Number.toList_toString_ne_nil n) (Number.all_isDigit_toString n) ends
  have digits := Pattern.split_digits_toString n ends
  have spells : ∀ at_span, Spells (.literal (.int n) span)
      (.mk .int at_span (String.ofList (toString n).toList) []) := by
    intro at_span
    have read :
        readInt (.mk .int at_span (String.ofList (toString n).toList) []) = .ok (n : Int) := by
      rw [readInt]
      dsimp only [Node.text]
      rw [String.toList_ofList, ← text_eq, Number.readInt?_toString in_range]
    refine ⟨.literal (.int n) at_span, ?_, rfl⟩
    rw [readExpr, read]
    rfl
  rw [text_eq]
  refine Phrase.Yields.alt_second (.rule_token rfl no_float) (Phrase.Yields.alt_first
    (Phrase.Yields.rule_token rfl digits fun at_span => ?_))
  exact SpellsRow.operand (spells at_span) ⟨rfl, rfl⟩

theorem primary_yields_float {value : Float} (reads_back : Number.ReadsBack value) (span : Span)
    (ends : EndsToken rest) :
    Phrase.primary.Yields ((Number.text value).toList ++ rest) rest
      (SpellsRow [.operand (.literal (.float value) span)]) := by
  obtain ⟨⟨mantissa, exponent, positive⟩, read_value⟩ := reads_back
  have avoids : Pattern.float.AvoidsHead rest :=
    fun c head => Pattern.float_avoids (ends c head)
  have split := Pattern.split_append_of_all (Number.split_text positive) avoids
  refine Phrase.Yields.alt_first (Phrase.Yields.rule_token rfl split fun at_span => ?_)
  have read : readFloat (.mk .float at_span (String.ofList (Number.text value).toList) []) =
      .ok value := by
    rw [readFloat]
    dsimp only [Node.text]
    rw [String.toList_ofList, read_value]
  refine SpellsRow.operand ⟨.literal (.float value) at_span, ?_, rfl⟩ ⟨rfl, rfl⟩
  rw [readExpr, read]
  rfl

/-- A number starts with a digit or a point, a name does not. -/
theorem no_number (input : List Char)
    (starts : ∃ c cs, input = c :: cs ∧ Pattern.isDigit c = false ∧ c ≠ '.') :
    ∀ q ∈ [Phrase.rule .float, Phrase.rule .int], q.Rejects input := by
  obtain ⟨c, cs, rfl, no_digit, no_point⟩ := starts
  have none_there : Pattern.float.split (c :: cs) = none ∧ Pattern.digits.split (c :: cs) = none :=
    Pattern.split_number_none (by
      rintro d ⟨⟩
      exact ⟨no_digit, no_point⟩)
  simp only [List.mem_cons, List.not_mem_nil, or_false, forall_eq_or_imp, forall_eq]
  exact ⟨Phrase.Rejects.rule_token rfl none_there.1, Phrase.Rejects.rule_token rfl none_there.2⟩

theorem primary_yields_bool (value : Bool) (span : Span) (ends : EndsToken rest) :
    Phrase.primary.Yields ((Literal.bool value).render.toList ++ rest) rest
      (SpellsRow [.operand (.literal (.bool value) span)]) := by
  cases value with
  | true =>
    refine Phrase.Yields.choice (no_number _ ⟨'T', _, rfl, rfl, by decide⟩)
      (Phrase.Yields.rule_token rfl (Pattern.split_wholeWord "True" ends) fun at_span => ?_)
    refine SpellsRow.operand ⟨.literal (.bool true) at_span, ?_, rfl⟩ ⟨rfl, rfl⟩
    rw [readExpr]
  | false =>
    have no_true : (Phrase.rule .trueLit).Rejects ("False".toList ++ rest) :=
      Phrase.Rejects.rule_token rfl rfl
    have before : ∀ q ∈ [Phrase.rule .float, .rule .int, .rule .trueLit],
        q.Rejects ("False".toList ++ rest) := by
      have numbers := no_number ("False".toList ++ rest) ⟨'F', _, rfl, rfl, by decide⟩
      simp only [List.forall_mem_cons] at numbers ⊢
      exact ⟨numbers.1, numbers.2.1, no_true, numbers.2.2⟩
    refine Phrase.Yields.choice before
      (Phrase.Yields.rule_token rfl (Pattern.split_wholeWord "False" ends) fun at_span => ?_)
    refine SpellsRow.operand ⟨.literal (.bool false) at_span, ?_, rfl⟩ ⟨rfl, rfl⟩
    rw [readExpr]

/-! ### Names -/

theorem keyword_ne (is_name : IsName name) {w : String} (inside : w ∈ Pattern.keywords) :
    name ≠ w := by
  rintro rfl
  exact is_name.not_keyword inside

theorem not_isDigit_of_isNameStart {c : Char} (start : Pattern.isNameStart c = true) :
    Pattern.isDigit c = false ∧ c ≠ '.' := by
  constructor
  · have small : 'a'.val.toNat = 97 ∧ 'z'.val.toNat = 122 := ⟨rfl, rfl⟩
    have large : 'A'.val.toNat = 65 ∧ 'Z'.val.toNat = 90 := ⟨rfl, rfl⟩
    have digits : '0'.val.toNat = 48 ∧ '9'.val.toNat = 57 := ⟨rfl, rfl⟩
    simp only [Pattern.isNameStart, Pattern.isLetter, Bool.or_eq_true, Bool.and_eq_true,
      decide_eq_true_eq, Char.le_def, UInt32.le_iff_toNat_le] at start
    simp only [Pattern.isDigit, Bool.and_eq_false_iff, decide_eq_false_iff_not, Char.le_def,
      UInt32.le_iff_toNat_le]
    rcases start with (start | start) | rfl
    · omega
    · omega
    · decide
  · rintro rfl
    exact absurd start (by decide)

theorem prefixOperator_rejects_name (is_name : IsName name) (ends : EndsToken rest) :
    Phrase.prefixOperator.Rejects (name.toList ++ rest) := by
  obtain ⟨c, cs, chars, -⟩ := is_name.head
  have inside := is_name.all c (by simp [chars])
  have differs : ∀ d : Char, Pattern.isNameChar d = false →
      (name.toList ++ rest).head? ≠ some d := by
    intro d outside head
    rw [chars] at head
    obtain rfl : c = d := Option.some.inj head
    rw [inside] at outside
    cases outside
  exact prefixOperator_rejects (differs '-' rfl) (differs '+' rfl)
    (is_name.split_wholeWord rfl (keyword_ne is_name (by decide)) ends)

/-- A name is no constant. -/
theorem no_constant (is_name : IsName name) (ends : EndsToken rest) :
    ∀ q ∈ [Phrase.rule .float, .rule .int, .rule .trueLit, .rule .falseLit],
      q.Rejects (name.toList ++ rest) := by
  obtain ⟨c, cs, chars, start⟩ := is_name.head
  have numbers := no_number (name.toList ++ rest)
    ⟨c, cs ++ rest, by rw [chars]; rfl, not_isDigit_of_isNameStart start⟩
  simp only [List.forall_mem_cons] at numbers ⊢
  exact ⟨numbers.1, numbers.2.1,
    .rule_token rfl (is_name.split_wholeWord rfl (keyword_ne is_name (by decide)) ends),
    .rule_token rfl (is_name.split_wholeWord rfl (keyword_ne is_name (by decide)) ends),
    numbers.2.2⟩

theorem identifier_yields (is_name : IsName name) (ends : EndsToken rest) :
    (Phrase.rule .identifier).Yields (name.toList ++ rest) rest
      (fun nodes => ∃ span, nodes = [.mk .identifier span name []]) :=
  Phrase.Yields.rule_token rfl (is_name.split_append ends) fun span =>
    ⟨span, by rw [String.ofList_toList]⟩

theorem call_rejects (is_name : IsName name) (ends : EndsToken rest)
    (no_arguments : (skip rest).head? ≠ some '(') :
    (Phrase.rule .call).Rejects (name.toList ++ rest) :=
  .rule rfl (.seq_second (identifier_yields is_name ends)
    (.seq_first (.token (Pattern.split_text_none rfl no_arguments))))

theorem access_rejects (is_name : IsName name) (ends : EndsToken rest)
    (no_offset : (skip rest).head? ≠ some '[') :
    (Phrase.rule .access).Rejects (name.toList ++ rest) :=
  .rule rfl (.seq_second (identifier_yields is_name ends)
    (.rule rfl (.seq_first (.token (Pattern.split_text_none rfl no_offset)))))

theorem primary_yields_name (is_name : IsName name) (span : Span) (boundary : Boundary rest) :
    Phrase.primary.Yields (name.toList ++ rest) rest
      (SpellsRow [.operand (.name name span)]) := by
  have before : ∀ q ∈ [Phrase.rule .float, .rule .int, .rule .trueLit, .rule .falseLit,
      .rule .call, .rule .access], q.Rejects (name.toList ++ rest) := by
    have constants := no_constant is_name boundary.ends
    simp only [List.forall_mem_cons] at constants ⊢
    exact ⟨constants.1, constants.2.1, constants.2.2.1, constants.2.2.2.1,
      call_rejects is_name boundary.ends boundary.no_arguments,
      access_rejects is_name boundary.ends boundary.no_offset, constants.2.2.2.2⟩
  refine Phrase.Yields.choice before ((identifier_yields is_name boundary.ends).imp ?_)
  rintro _ ⟨at_span, rfl⟩
  refine SpellsRow.operand ⟨.name name at_span, ?_, rfl⟩ ⟨rfl, rfl⟩
  rw [readExpr]

/-! ### Fields at offsets -/

theorem toList_render_offset (offset : Offset) (rest : List Char) :
    offset.render.toList ++ rest =
      "[".toList ++ ((toString offset.i).toList ++ (",".toList ++ (' ' ::
        ((toString offset.j).toList ++ (",".toList ++ (' ' ::
          ((toString offset.k).toList ++ ("]".toList ++ rest)))))))) := by
  have separator : ", ".toList = ",".toList ++ [' '] := rfl
  simp only [Offset.render, Text.bracketed, String.intercalate_cons_cons,
    String.intercalate_singleton, String.toList_append, separator, List.append_assoc]
  rfl

theorem signedInt_yields (n : Int) (ends : EndsToken rest) :
    (Phrase.rule .signedInt).Yields ((toString n).toList ++ rest) rest
      (fun nodes => ∃ span, nodes = [.mk .signedInt span (toString n) []]) :=
  Phrase.Yields.rule_token rfl (Pattern.split_signedInt n ends) fun span =>
    ⟨span, by rw [String.ofList_toList]⟩

theorem readInt_toString {n : Int} (in_range : Number.InRange n) (r : Rule) (span : Span) :
    readInt (.mk r span (toString n) []) = .ok n := by
  rw [readInt]
  dsimp only [Node.text]
  rw [Number.readInt?_toString in_range]

theorem offset_yields {offset : Offset} (written : WrittenOffset offset) (rest : List Char) :
    (Phrase.rule .offset).Yields (offset.render.toList ++ rest) rest
      (fun nodes => ∃ node, nodes = [node] ∧ node.rule = .offset ∧
        readOffset node = .ok offset) := by
  have comma : ∀ text, EndsToken (",".toList ++ text) := fun text => endsToken_cons rfl _
  have bracket : ∀ text, EndsToken ("]".toList ++ text) := fun text => endsToken_cons rfl _
  have solid := fun (n : Int) (text : List Char) => (Pattern.solid_toString n).skip text
  have blank := fun (n : Int) (text : List Char) =>
    (skip_blank ((toString n).toList ++ text)).trans (solid n text)
  rw [toList_render_offset]
  refine Phrase.Yields.rule rfl
    ((Phrase.Yields.text "[" _).next (solid _ _) <|
      (signedInt_yields offset.i (comma _)).next rfl <|
      (Phrase.Yields.text "," _).next (blank _ _) <|
      (signedInt_yields offset.j (comma _)).next rfl <|
      (Phrase.Yields.text "," _).next (blank _ _) <|
      (signedInt_yields offset.k (bracket _)).next rfl <|
      Phrase.Yields.text "]" rest) ?_
  rintro span _ ⟨_, _, rfl, rfl, _, _, rfl, ⟨i_span, rfl⟩, _, _, rfl, rfl, _, _, rfl,
    ⟨j_span, rfl⟩, _, _, rfl, rfl, _, _, rfl, ⟨k_span, rfl⟩, rfl⟩
  refine ⟨_, rfl, rfl, ?_⟩
  obtain ⟨i_range, j_range, k_range⟩ := written
  simp only [readOffset, Node.parts, List.nil_append, List.cons_append,
    readInt_toString i_range, readInt_toString j_range, readInt_toString k_range]
  rfl

theorem offset_starts (offset : Offset) (rest : List Char) :
    ∃ more, offset.render.toList ++ rest = '[' :: more := by
  rw [toList_render_offset]
  exact ⟨_, rfl⟩

/-- A name and its offset are read as one operand. -/
theorem primary_yields_at {after : List Char} {meaning : List Node → Prop}
    (is_name : IsName name) (ends : EndsToken rest) (no_arguments : (skip rest).head? ≠ some '(')
    (offset : (Phrase.rule .offset).Yields (skip rest) after meaning) :
    Phrase.primary.Yields (name.toList ++ rest) after (fun nodes => ∃ at_span name_span parts,
      nodes = [.mk .access at_span "" (.mk .identifier name_span name [] :: parts)] ∧
        meaning parts) := by
  have before : ∀ q ∈ [Phrase.rule .float, .rule .int, .rule .trueLit, .rule .falseLit,
      .rule .call], q.Rejects (name.toList ++ rest) := by
    have constants := no_constant is_name ends
    simp only [List.forall_mem_cons] at constants ⊢
    exact ⟨constants.1, constants.2.1, constants.2.2.1, constants.2.2.2.1,
      call_rejects is_name ends no_arguments, constants.2.2.2.2⟩
  refine Phrase.Yields.choice before
    (Phrase.Yields.rule rfl ((identifier_yields is_name ends).next rfl offset) ?_)
  rintro at_span _ ⟨_, parts, rfl, ⟨name_span, rfl⟩, meant⟩
  exact ⟨at_span, name_span, parts, rfl, meant⟩

theorem primary_yields_access (is_name : IsName name) {offset : Offset}
    (written : WrittenOffset offset) (span : Span) (rest : List Char) :
    Phrase.primary.Yields (name.toList ++ (offset.render.toList ++ rest)) rest
      (SpellsRow [.operand (.access name offset span)]) := by
  obtain ⟨more, starts⟩ := offset_starts offset rest
  have skipped : skip (offset.render.toList ++ rest) = offset.render.toList ++ rest := by
    rw [starts]
    exact skip_cons_solid rfl more
  have ends : EndsToken (offset.render.toList ++ rest) := by
    rw [starts]
    exact endsToken_cons rfl more
  have no_arguments : (skip (offset.render.toList ++ rest)).head? ≠ some '(' := by
    rw [skipped, starts]
    rintro ⟨⟩
  refine (primary_yields_at is_name ends no_arguments
    (by rw [skipped]; exact offset_yields written rest)).imp ?_
  rintro _ ⟨at_span, name_span, _, rfl, node, rfl, -, read⟩
  refine SpellsRow.operand ⟨.access name offset at_span, ?_, rfl⟩ ⟨rfl, rfl⟩
  rw [readExpr, read]
  rfl

/-! ### Parentheses and calls -/

/-- Whether a text is that of an expression: wherever something follows that closes expressions,
it reads as that one. -/
def TextOf (e : Expr) (text : List Char) : Prop :=
  Solid text ∧ ∀ rest, Closes rest →
    (Phrase.rule .expr).Yields (text ++ rest) rest
      (fun nodes => ∃ node, nodes = [node] ∧ node.rule = .expr ∧ Spells e node)

theorem closes_cons {c : Char} (rest : List Char) (closing : c = ')' ∨ c = ',') :
    Closes (c :: rest) := by
  have skipped : skip (c :: rest) = c :: rest := by
    rcases closing with rfl | rfl <;> exact skip_cons_solid rfl rest
  constructor
  · constructor
    · constructor
      · rcases closing with rfl | rfl <;> exact endsToken_cons rfl rest
      · rw [skipped]
        rcases closing with rfl | rfl <;> rintro ⟨⟩
      · rw [skipped]
        rcases closing with rfl | rfl <;> rintro ⟨⟩
    · rw [skipped]
      refine infixOperator_rejects ?_ ?_ ?_
      · rcases closing with rfl | rfl <;> simp [symbolStarts]
      · rcases closing with rfl | rfl <;> rfl
      · rcases closing with rfl | rfl <;> rfl
  · rw [skipped]
    refine choiceTail_rejects ?_
    rcases closing with rfl | rfl <;> rintro ⟨⟩

theorem primary_yields_parentheses {e : Expr} {text : List Char} (text_of : TextOf e text)
    (rest : List Char) :
    Phrase.primary.Yields ('(' :: (text ++ ')' :: rest)) rest (SpellsRow [.operand e]) := by
  obtain ⟨solid, yields⟩ := text_of
  have no_name : (Phrase.rule .identifier).Rejects ('(' :: (text ++ ')' :: rest)) :=
    .rule_token rfl rfl
  have before : ∀ q ∈ [Phrase.rule .float, .rule .int, .rule .trueLit, .rule .falseLit,
      .rule .call, .rule .access, .rule .identifier], q.Rejects ('(' :: (text ++ ')' :: rest)) := by
    have numbers := no_number ('(' :: (text ++ ')' :: rest))
      ⟨'(', _, rfl, rfl, by decide⟩
    simp only [List.forall_mem_cons] at numbers ⊢
    exact ⟨numbers.1, numbers.2.1, .rule_token rfl rfl, .rule_token rfl rfl,
      .rule rfl (.seq_first no_name), .rule rfl (.seq_first no_name), no_name, numbers.2.2⟩
  have parts := (Phrase.Yields.text "(" (text ++ ')' :: rest)).next (solid.skip _) <|
    (yields (')' :: rest) (closes_cons rest (.inl rfl))).next (skip_cons_solid rfl rest) <|
    Phrase.Yields.text ")" rest
  refine Phrase.Yields.choice before (parts.imp ?_)
  rintro _ ⟨_, _, rfl, rfl, _, _, rfl, ⟨node, rfl, is_expr, spells⟩, rfl⟩
  exact SpellsRow.operand spells (by rw [is_expr]; exact ⟨rfl, rfl⟩)

theorem functionName?_isName {op : UnaryOperator} {function : String}
    (is_function : op.functionName? = some function) : IsName function := by
  cases op <;> simp only [UnaryOperator.functionName?, reduceCtorEq, Option.some.injEq]
    at is_function <;> subst is_function <;> rfl

/-- The arguments of a call behind the first one, and the bracket. -/
theorem arguments_end (rest : List Char) :
    (Phrase.many (.seq (.text ",") (.rule .expr))).Resumes (')' :: rest) (')' :: rest)
      (· = []) := by
  refine .many_nil ?_ rfl
  exact .seq_first (.text rfl (by rintro ⟨⟩))

theorem primary_yields_call {op : UnaryOperator} {function : String}
    (is_function : op.functionName? = some function) {arg : Expr} {text : List Char}
    (text_of : TextOf arg text) (span : Span) (rest : List Char) :
    Phrase.primary.Yields (function.toList ++ '(' :: (text ++ ')' :: rest)) rest
      (SpellsRow [.operand (.unary op arg span)]) := by
  obtain ⟨solid, yields⟩ := text_of
  have is_name := functionName?_isName is_function
  have ends : EndsToken ('(' :: (text ++ ')' :: rest)) := endsToken_cons rfl _
  have parts := (identifier_yields is_name ends).next (skip_cons_solid rfl _) <|
    (Phrase.Yields.text "(" (text ++ ')' :: rest)).next (solid.skip _) <|
    (yields (')' :: rest) (closes_cons rest (.inl rfl))).next (skip_cons_solid rfl rest) <|
    (arguments_end rest).yields.next (skip_cons_solid rfl rest) <|
    Phrase.Yields.text ")" rest
  refine Phrase.Yields.choice (no_constant is_name ends) (Phrase.Yields.rule rfl parts ?_)
  rintro at_span _ ⟨_, _, rfl, ⟨name_span, rfl⟩, _, _, rfl, rfl, _, _, rfl,
    ⟨node, rfl, -, found, read, same⟩, _, _, rfl, rfl, rfl⟩
  refine SpellsRow.operand ⟨.unary op found at_span, ?_, ?_⟩ ⟨rfl, rfl⟩
  · simp only [List.cons_append, List.nil_append, List.append_nil, readExpr, readExprs, read,
      bind, Except.bind, pure, Except.pure, readCall, Node.text,
      UnaryOperator.function?_of_functionName? is_function, Node.span]
  · simp only [Expr.withoutSpans, same]

theorem binaryName_isName {op : BinaryOperator} {function : String}
    (is_function : op.functionName? = some function) :
    IsName function ∧ BinaryOperator.function? function = some op := by
  cases op <;> simp only [BinaryOperator.functionName?, reduceCtorEq, Option.some.injEq]
    at is_function <;> subst is_function <;> exact ⟨rfl, by decide⟩

theorem primary_yields_call_two {op : BinaryOperator} {function : String}
    (is_function : op.functionName? = some function) {left right : Expr}
    {left_text right_text : List Char} (left_of : TextOf left left_text)
    (right_of : TextOf right right_text) (span : Span) (rest : List Char) :
    Phrase.primary.Yields
      (function.toList ++ '(' :: (left_text ++ ',' :: ' ' :: (right_text ++ ')' :: rest))) rest
      (SpellsRow [.operand (.binary op left right span)]) := by
  obtain ⟨left_solid, left_yields⟩ := left_of
  obtain ⟨right_solid, right_yields⟩ := right_of
  obtain ⟨is_name, is_binary⟩ := binaryName_isName is_function
  have ends : EndsToken ('(' :: (left_text ++ ',' :: ' ' :: (right_text ++ ')' :: rest))) :=
    endsToken_cons rfl _
  have second := (Phrase.Yields.text "," (' ' :: (right_text ++ ')' :: rest))).next
    ((skip_blank _).trans (right_solid.skip _))
    (right_yields (')' :: rest) (closes_cons rest (.inl rfl)))
  have both : (Phrase.many (.seq (.text ",") (.rule .expr))).Resumes
      (',' :: ' ' :: (right_text ++ ')' :: rest)) (')' :: rest) _ :=
    .many_next second (arguments_end rest)
  have parts := (identifier_yields is_name ends).next (skip_cons_solid rfl _) <|
    (Phrase.Yields.text "(" _).next (left_solid.skip _) <|
    (left_yields _ (closes_cons _ (.inr rfl))).next (skip_cons_solid rfl _) <|
    both.yields.next (skip_cons_solid rfl rest) <|
    Phrase.Yields.text ")" rest
  refine Phrase.Yields.choice (no_constant is_name ends) (Phrase.Yields.rule rfl parts ?_)
  rintro at_span _ ⟨_, _, rfl, ⟨name_span, rfl⟩, _, _, rfl, rfl, _, _, rfl,
    ⟨left_node, rfl, -, left_found, left_read, left_same⟩, _, _, rfl,
    ⟨_, _, rfl, ⟨_, _, rfl, rfl, right_node, rfl, -, right_found, right_read, right_same⟩, rfl⟩,
    rfl⟩
  refine SpellsRow.operand ⟨.binary op left_found right_found at_span, ?_, ?_⟩ ⟨rfl, rfl⟩
  · simp only [List.cons_append, List.nil_append, List.append_nil, readExpr, readExprs, left_read,
      right_read, bind, Except.bind, pure, Except.pure, readCall, Node.text, is_binary, Node.span]
  · simp only [Expr.withoutSpans, left_same, right_same]

end Definition

end GridStencil
