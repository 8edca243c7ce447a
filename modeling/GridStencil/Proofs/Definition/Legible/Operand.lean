import GridStencil.Proofs.Definition.Expression
import GridStencil.Proofs.Literal

/-!
**Operands can be told from their texts.**

A value is legible (`Legible`) if nothing else makes up the same text, whatever stands behind the
two: not only are the values the same, but they end at the same place. That is what lets the parts
of a text be told one after the other, and it needs no reader: neither has a double to read back
from its shortest text, nor do assignments have to stay apart.

An operand is a number, a word with something behind it, or an expression in parentheses
(`Operand`). Its first character says which of them it is, and the first one behind a word says
whether it is a name, a field at an offset or a call. The expressions inside of it are taken to be
legible here: `legible_operand`.
-/

namespace GridStencil

open Grammar

/-- Whether a double is written in digits, without a sign. -/
def Number.InDigits (x : Float) : Prop :=
  ∃ mantissa exponent, Binary64.form x = .finite false mantissa exponent

namespace Definition

/-! ### Legible values -/

/-- Whether a value can be told from its text: what can be written otherwise and makes up the same
text with what follows it has the same key, and is followed by the same. -/
def Legible {α β : Type} (text : α → List Char) (key : α → β) (Written : α → Prop)
    (Ends : List Char → Prop) (a : α) : Prop :=
  ∀ ⦃b : α⦄ ⦃rest rest' : List Char⦄, Written b → Ends rest → Ends rest' →
    text a ++ rest = text b ++ rest' → key a = key b ∧ rest = rest'

/-! ### Tokens -/

variable {taken taken' rest rest' : List Char}

/-- What a pattern takes off two texts is the same if the texts are. -/
theorem split_unique {p : Pattern} (first : p.split (taken ++ rest) = some (taken, rest))
    (second : p.split (taken' ++ rest') = some (taken', rest'))
    (same : taken ++ rest = taken' ++ rest') : taken = taken' ∧ rest = rest' := by
  rw [same, second] at first
  obtain ⟨rfl, rfl⟩ := Prod.mk.inj (Option.some.inj first)
  exact ⟨rfl, rfl⟩

/-- Whether no word goes on with a text. -/
def EndsWord (rest : List Char) : Prop := ∀ c, rest.head? = some c → Pattern.isNameChar c = false

theorem endsWord_cons {c : Char} (ends : Pattern.isNameChar c = false) (rest : List Char) :
    EndsWord (c :: rest) := by
  rintro _ ⟨⟩
  exact ends

/-- A word ends where no word goes on. -/
theorem word_unique {w w' : String} (all : ∀ c ∈ w.toList, Pattern.isNameChar c = true)
    (all' : ∀ c ∈ w'.toList, Pattern.isNameChar c = true) (ends : EndsWord rest)
    (ends' : EndsWord rest') (same : w.toList ++ rest = w'.toList ++ rest') :
    w = w' ∧ rest = rest' := by
  obtain ⟨words, others⟩ := split_unique (Pattern.split_run (List.all_eq_true.mpr all) ends)
    (Pattern.split_run (List.all_eq_true.mpr all') ends') same
  exact ⟨String.toList_inj.mp words, others⟩

theorem int_unique {n n' : Int} (ends : EndsToken rest) (ends' : EndsToken rest')
    (same : (toString n).toList ++ rest = (toString n').toList ++ rest') :
    n = n' ∧ rest = rest' := by
  obtain ⟨digits, others⟩ :=
    split_unique (Pattern.split_signedInt n ends) (Pattern.split_signedInt n' ends') same
  exact ⟨Number.toString_int_injective digits, others⟩

theorem offset_unique {o o' : Offset}
    (same : o.render.toList ++ rest = o'.render.toList ++ rest') : o = o' ∧ rest = rest' := by
  have comma : ∀ text, EndsToken (",".toList ++ text) := fun text => endsToken_cons rfl _
  have bracket : ∀ text, EndsToken ("]".toList ++ text) := fun text => endsToken_cons rfl _
  rw [toList_render_offset, toList_render_offset] at same
  obtain ⟨same_i, behind_i⟩ := int_unique (comma _) (comma _) (List.append_cancel_left same)
  obtain ⟨same_j, behind_j⟩ := int_unique (comma _) (comma _)
    (List.cons.inj (List.append_cancel_left behind_i)).2
  obtain ⟨same_k, behind_k⟩ := int_unique (bracket _) (bracket _)
    (List.cons.inj (List.append_cancel_left behind_j)).2
  cases o
  cases o'
  exact ⟨(Offset.mk.injEq ..).mpr ⟨same_i, same_j, same_k⟩, List.append_cancel_left behind_k⟩

/-! ### Numbers -/

/-- Whether a constant is a number in digits. -/
inductive IsNumber : Literal → Prop
  | int (n : Nat) : IsNumber (.int n)
  | float {x : Float} (digits : Number.InDigits x) : IsNumber (.float x)

theorem number_split {value : Literal} (number : IsNumber value) (ends : EndsToken rest) :
    (Pattern.float.split (value.render.toList ++ rest) = none ∧
        Pattern.digits.split (value.render.toList ++ rest) = some (value.render.toList, rest)) ∨
      Pattern.float.split (value.render.toList ++ rest) = some (value.render.toList, rest) := by
  cases number with
  | int n =>
    refine .inl ⟨?_, ?_⟩
    · exact Pattern.split_float_none (Number.toList_toString_ne_nil n)
        (Number.all_isDigit_toString n) ends
    · exact Pattern.split_digits_toString n ends
  | @float x digits =>
    obtain ⟨mantissa, exponent, form⟩ := digits
    exact .inr (Pattern.split_append_of_all (Number.split_text form)
      fun c head => Pattern.float_avoids (ends c head))

/-- Numbers can be told apart, integers from doubles by the point or the power of ten. -/
theorem number_unique {value value' : Literal} (number : IsNumber value)
    (number' : IsNumber value') (ends : EndsToken rest) (ends' : EndsToken rest')
    (same : value.render.toList ++ rest = value'.render.toList ++ rest') :
    value = value' ∧ rest = rest' := by
  have texts : value.render.toList = value'.render.toList ∧ rest = rest' := by
    rcases number_split number ends with ⟨no_float, digits⟩ | float <;>
      rcases number_split number' ends' with ⟨no_float', digits'⟩ | float'
    · exact split_unique digits digits' same
    · rw [same, float'] at no_float
      cases no_float
    · rw [same, no_float'] at float
      cases float
    · exact split_unique float float' same
  exact ⟨Literal.render_injective (String.toList_inj.mp texts.1), texts.2⟩

theorem number_head {value : Literal} (number : IsNumber value) :
    ∃ c cs, value.render.toList = c :: cs ∧ (Pattern.isDigit c = true ∨ c = '.') := by
  rcases number_split number endsToken_nil with ⟨-, digits⟩ | float
  · rw [List.append_nil] at digits
    exact Pattern.number_starts (.inr digits)
  · rw [List.append_nil] at float
    exact Pattern.number_starts (.inl float)

/-! ### The parts of an operand -/

/-- What stands behind a word: nothing, an offset, or arguments. -/
inductive Tail
  | nothing
  | offset (o : Offset)
  | one (arg : Expr)
  | two (left right : Expr)

/-- What an operand looks like. -/
inductive Operand
  | number (value : Literal)
  | word (w : String) (tail : Tail)
  | enclosed (e : Expr)

/-- The text behind a word. -/
def Tail.text : Tail → List Char
  | nothing => []
  | offset o => o.render.toList
  | one arg => '(' :: (arg.render.toList ++ [')'])
  | two left right => '(' :: (left.render.toList ++ ',' :: ' ' :: (right.render.toList ++ [')']))

/-- The text of an operand. -/
def Operand.text : Operand → List Char
  | number value => value.render.toList
  | word w tail => w.toList ++ tail.text
  | enclosed e => '(' :: (e.render.toList ++ [')'])

/-- What stands behind a word with all spans forgotten. -/
def Tail.withoutSpans : Tail → Tail
  | nothing => nothing
  | offset o => offset o
  | one arg => one arg.withoutSpans
  | two left right => two left.withoutSpans right.withoutSpans

/-- An operand with all spans forgotten. -/
def Operand.withoutSpans : Operand → Operand
  | number value => number value
  | word w tail => word w tail.withoutSpans
  | enclosed e => enclosed e.withoutSpans

/-- What an expression looks like where it is an operand. -/
def Expr.operand (e : Expr) : Operand :=
  match e with
  | literal (.bool true) _ => .word "True" .nothing
  | literal (.bool false) _ => .word "False" .nothing
  | literal value _ => .number value
  | name n _ => .word n .nothing
  | access n offset _ => .word n (.offset offset)
  | unary op arg _ =>
    match op.functionName? with
    | some function => .word function (.one arg)
    | none => .enclosed e
  | binary op left right _ =>
    match op.functionName? with
    | some function => .word function (.two left right)
    | none => .enclosed e
  | conditional _ _ _ _ => .enclosed e

/-- The expression that an operand is. -/
def Operand.expr : Operand → Expr
  | number value => .literal value noSpan
  | word w .nothing =>
    if w = "True" then .literal (.bool true) noSpan
    else if w = "False" then .literal (.bool false) noSpan
    else .name w noSpan
  | word w (.offset o) => .access w o noSpan
  | word w (.one arg) =>
    match UnaryOperator.function? w with
    | some op => .unary op arg noSpan
    | none => .name w noSpan
  | word w (.two left right) =>
    match BinaryOperator.function? w with
    | some op => .binary op left right noSpan
    | none => .name w noSpan
  | enclosed e => e

/-- The text of an expression in a place that asks for the most is that of an operand. -/
theorem text_operand (e : Expr) :
    e.operand.text = (e.renderAt UnaryOperator.atomPrecedence).toList := by
  have brackets : "(".toList = ['('] ∧ ", ".toList = [',', ' '] ∧ ")".toList = [')'] :=
    ⟨rfl, rfl, rfl⟩
  have parentheses : e.precedence < UnaryOperator.atomPrecedence →
      (Operand.enclosed e).text = (e.renderAt UnaryOperator.atomPrecedence).toList :=
    fun lt => (renderAt_of_lt lt).symm
  have none_there : UnaryOperator.atomPrecedence ≤ e.precedence →
      (e.renderAt UnaryOperator.atomPrecedence).toList = e.render.toList :=
    fun le => congrArg String.toList (renderAt_of_le le)
  cases e with
  | literal value span =>
    rw [none_there (Nat.le_refl _)]
    cases value with
    | bool value => cases value <;> exact List.append_nil _
    | int value => rfl
    | float value => rfl
  | name n span =>
    rw [none_there (Nat.le_refl _)]
    exact List.append_nil _
  | access n offset span =>
    rw [none_there (Nat.le_refl _)]
    simp only [Expr.operand, Operand.text, Tail.text, Expr.render, Expr.renderAt, parenthesised,
      Nat.not_lt_zero, if_false, String.toList_append]
  | unary op arg span =>
    cases function : op.functionName? with
    | none =>
      have weak : op.precedence < UnaryOperator.atomPrecedence := by
        cases op <;> revert function <;> decide
      simp only [Expr.operand, function]
      exact parentheses weak
    | some f =>
      have is_function : op.functionName?.isSome = true := Option.isSome_of_eq_some function
      have strong : UnaryOperator.atomPrecedence ≤ op.precedence := by
        cases op <;> revert is_function <;> decide
      rw [none_there strong]
      simp only [Expr.operand, Operand.text, Tail.text, Expr.renderAt, Expr.render, parenthesised,
        Nat.not_lt_zero, if_false, function, String.toList_append, brackets, List.append_assoc,
        List.cons_append, List.nil_append]
  | binary op left right span =>
    cases function : op.functionName? with
    | none =>
      have own : (Expr.binary op left right span).precedence < UnaryOperator.atomPrecedence := by
        simp only [Expr.precedence, function]
        cases op <;> decide
      simp only [Expr.operand, function]
      exact parentheses own
    | some f =>
      have strong : UnaryOperator.atomPrecedence ≤
          (Expr.binary op left right span).precedence := by
        simp only [Expr.precedence, function]
        exact Nat.le_refl _
      rw [none_there strong]
      simp only [Expr.operand, Operand.text, Tail.text, Expr.renderAt, Expr.render, parenthesised,
        Nat.not_lt_zero, if_false, function, String.toList_append, brackets, List.append_assoc,
        List.cons_append, List.nil_append]
  | conditional condition whenTrue whenFalse span =>
    have weak : 0 < UnaryOperator.atomPrecedence := by decide
    exact parentheses weak

/-- An operand says which expression it is. -/
theorem expr_operand {e : Expr} (written : e.Written) :
    e.operand.withoutSpans.expr = e.withoutSpans := by
  cases e with
  | literal value span =>
    cases value with
    | bool value => cases value <;> rfl
    | int value => rfl
    | float value => rfl
  | name n span =>
    have is_name : IsName n := written
    show (if n = "True" then _ else if n = "False" then _ else _) = _
    rw [if_neg (keyword_ne is_name (by decide)), if_neg (keyword_ne is_name (by decide))]
    rfl
  | access n offset span => rfl
  | unary op arg span =>
    cases function : op.functionName? with
    | none => simp only [Expr.operand, function, Operand.withoutSpans, Operand.expr]
    | some f =>
      simp only [Expr.operand, function, Operand.withoutSpans, Tail.withoutSpans, Operand.expr,
        UnaryOperator.function?_of_functionName? function]
      rfl
  | binary op left right span =>
    cases function : op.functionName? with
    | none => simp only [Expr.operand, function, Operand.withoutSpans, Operand.expr]
    | some f =>
      simp only [Expr.operand, function, Operand.withoutSpans, Tail.withoutSpans, Operand.expr,
        (binaryName_isName function).2]
      rfl
  | conditional condition whenTrue whenFalse span => rfl

/-! ### Expressions that can be written -/

/-- Whether an expression can be written with all its doubles in digits. -/
structure Expr.Clear (e : Expr) : Prop where
  written : e.Written
  digits : ∀ x ∈ e.floats, Number.InDigits x

namespace Expr.Clear

variable {e left right condition whenTrue whenFalse : Expr} {span : Span}

theorem arg {op : UnaryOperator} (clear : (Expr.unary op e span).Clear) : e.Clear :=
  ⟨clear.written, clear.digits⟩

theorem operands {op : BinaryOperator} (clear : (Expr.binary op left right span).Clear) :
    left.Clear ∧ right.Clear :=
  ⟨⟨clear.written.1, fun x inside => clear.digits x (List.mem_append_left _ inside)⟩,
    ⟨clear.written.2, fun x inside => clear.digits x (List.mem_append_right _ inside)⟩⟩

theorem parts (clear : (Expr.conditional condition whenTrue whenFalse span).Clear) :
    condition.Clear ∧ whenTrue.Clear ∧ whenFalse.Clear := by
  obtain ⟨⟨condition_written, true_written, false_written⟩, digits⟩ := clear
  exact ⟨⟨condition_written, fun x inside => digits x (by simp [Expr.floats, inside])⟩,
    ⟨true_written, fun x inside => digits x (by simp [Expr.floats, inside])⟩,
    ⟨false_written, fun x inside => digits x (by simp [Expr.floats, inside])⟩⟩

end Expr.Clear

/-- A word that no operator is taken for: a name, a truth value or the name of a function. -/
structure IsWord (w : String) : Prop where
  all : ∀ c ∈ w.toList, Pattern.isNameChar c = true
  head : ∃ c cs, w.toList = c :: cs ∧ Pattern.isNameStart c = true
  no_operator : w ≠ "not"

theorem isWord_of_isName {w : String} (is_name : IsName w) : IsWord w :=
  ⟨is_name.all, is_name.head, keyword_ne is_name (by decide)⟩

/-- Whether all expressions behind a word have a property. -/
def Tail.All (P : Expr → Prop) : Tail → Prop
  | nothing | offset _ => True
  | one arg => P arg
  | two left right => P left ∧ P right

/-- Whether an operand can be written, where all expressions in it have a property. -/
def Operand.All (P : Expr → Prop) : Operand → Prop
  | number value => IsNumber value
  | word w tail => IsWord w ∧ tail.All P
  | enclosed e => P e

/-- A constant that can be written is an operand without expressions in it. -/
theorem all_literal {P : Expr → Prop} {value : Literal} {span : Span}
    (clear : (Expr.literal value span).Clear) : (Expr.literal value span).operand.All P := by
  cases value with
  | bool value =>
    cases value <;>
      exact ⟨⟨List.all_eq_true.mp rfl, ⟨_, _, rfl, by decide⟩, by decide⟩, trivial⟩
  | int value =>
    obtain ⟨n, rfl⟩ := Int.eq_ofNat_of_zero_le clear.written.1
    exact .int n
  | float value => exact .float (clear.digits value (List.mem_singleton_self value))

/-- An expression that can be written is an operand that can. -/
theorem clear_operand {e : Expr} (clear : e.Clear) : e.operand.All Expr.Clear := by
  cases e with
  | literal value span => exact all_literal clear
  | name n span => exact ⟨isWord_of_isName clear.written, trivial⟩
  | access n offset span => exact ⟨isWord_of_isName clear.written.1, trivial⟩
  | unary op arg span =>
    cases function : op.functionName? with
    | none =>
      simp only [Expr.operand, function]
      exact clear
    | some f =>
      simp only [Expr.operand, function]
      exact ⟨isWord_of_isName (functionName?_isName function), clear.arg⟩
  | binary op left right span =>
    cases function : op.functionName? with
    | none =>
      simp only [Expr.operand, function]
      exact clear
    | some f =>
      simp only [Expr.operand, function]
      exact ⟨isWord_of_isName (binaryName_isName function).1, clear.operands⟩
  | conditional condition whenTrue whenFalse span => exact clear

/-! ### What stands behind -/

/-- What may stand behind an operand. -/
def Stops (rest : List Char) : Prop := ∀ c, rest.head? = some c → c ∈ [' ', ')', ',', '\n']

/-- What may stand behind an operand, with one of some characters behind a blank. -/
structure Closed (starts rest : List Char) : Prop where
  stops : Stops rest
  behind : ∀ c more, rest = ' ' :: c :: more → c ∈ starts

theorem closed_cons {starts : List Char} {c : Char} (closing : c ∈ [')', ',', '\n'])
    (more : List Char) : Closed starts (c :: more) := by
  refine ⟨?_, ?_⟩
  · rintro _ ⟨⟩
    exact List.mem_cons_of_mem _ closing
  · rintro _ _ ⟨⟩
    exact absurd closing (by decide)

theorem closed_blank {starts : List Char} {c : Char} (start : c ∈ starts) (more : List Char) :
    Closed starts (' ' :: c :: more) := by
  refine ⟨?_, ?_⟩
  · rintro _ ⟨⟩
    exact List.mem_cons_self
  · rintro _ _ ⟨⟩
    exact start

theorem Stops.endsToken (stops : Stops rest) : EndsToken rest := by
  intro c head
  have each : ∀ d ∈ [' ', ')', ',', '\n'], Grammar.endsToken d = true := List.all_eq_true.mp rfl
  exact each c (stops c head)

theorem Stops.endsWord (stops : Stops rest) : EndsWord rest :=
  fun c head => not_isNameChar_of_endsToken (stops.endsToken c head)

/-- Whether an expression can be told from its text, in front of a bracket, a comma, the end of a
line, or a block. -/
def LegibleExpr : Expr → Prop :=
  Legible (fun e => e.render.toList) Expr.withoutSpans Expr.Clear (Closed ['\x7b'])

/-- Whether an expression can be told from its text where it is an operand. -/
def LegibleOperand : Expr → Prop :=
  Legible (fun e => e.operand.text) Expr.withoutSpans Expr.Clear Stops

/-! ### Operands -/

/-- No word goes on with what stands behind a word. -/
theorem endsWord_tail (tail : Tail) (stops : Stops rest) : EndsWord (tail.text ++ rest) := by
  cases tail with
  | nothing => exact stops.endsWord
  | offset o =>
    obtain ⟨more, starts⟩ := offset_starts o rest
    rw [Tail.text, starts]
    exact endsWord_cons rfl more
  | one arg => exact endsWord_cons rfl _
  | two left right => exact endsWord_cons rfl _

/-- What stands behind a word can be told by its first character, and then by what stands behind
the first argument. -/
theorem tail_unique {tail tail' : Tail} (legible : tail.All LegibleExpr)
    (clear : tail'.All Expr.Clear) (stops : Stops rest) (stops' : Stops rest')
    (same : tail.text ++ rest = tail'.text ++ rest') :
    tail.withoutSpans = tail'.withoutSpans ∧ rest = rest' := by
  have bracket : ∀ more, Closed ['\x7b'] (')' :: more) := closed_cons (by decide)
  have comma : ∀ more, Closed ['\x7b'] (',' :: more) := closed_cons (by decide)
  have text_one : ∀ (arg : Expr) (more : List Char), (Tail.one arg).text ++ more =
      '(' :: (arg.render.toList ++ ')' :: more) := by simp [Tail.text]
  have text_two : ∀ (left right : Expr) (more : List Char), (Tail.two left right).text ++ more =
      '(' :: (left.render.toList ++ ',' :: ' ' :: (right.render.toList ++ ')' :: more)) := by
    simp [Tail.text]
  have text_offset : ∀ (o : Offset) (more : List Char),
      ((Tail.offset o).text ++ more).head? = some '[' := by
    intro o more
    obtain ⟨behind, starts⟩ := offset_starts o more
    exact congrArg List.head? starts
  cases tail with
  | nothing =>
    have head := congrArg List.head? same
    cases tail' with
    | nothing => exact ⟨rfl, same⟩
    | offset o => exact absurd (stops _ (head.trans (text_offset o rest'))) (by decide)
    | one arg => exact absurd (stops _ head) (by decide)
    | two left right => exact absurd (stops _ head) (by decide)
  | offset o =>
    have head := (congrArg List.head? same).symm.trans (text_offset o rest)
    cases tail' with
    | nothing => exact absurd (stops' _ head) (by decide)
    | offset o' =>
      obtain ⟨rfl, others⟩ := offset_unique same
      exact ⟨rfl, others⟩
    | one arg => cases head
    | two left right => cases head
  | one arg =>
    rw [text_one] at same
    have head := congrArg List.head? same
    cases tail' with
    | nothing => exact absurd (stops' _ head.symm) (by decide)
    | offset o => cases head.trans (text_offset o rest')
    | one arg' =>
      rw [text_one] at same
      obtain ⟨args, others⟩ := legible clear (bracket _) (bracket _) (List.cons.inj same).2
      exact ⟨congrArg Tail.one args, (List.cons.inj others).2⟩
    | two left right =>
      rw [text_two] at same
      obtain ⟨-, others⟩ := legible clear.1 (bracket _) (comma _) (List.cons.inj same).2
      cases others
  | two left right =>
    rw [text_two] at same
    have head := congrArg List.head? same
    cases tail' with
    | nothing => exact absurd (stops' _ head.symm) (by decide)
    | offset o => cases head.trans (text_offset o rest')
    | one arg =>
      rw [text_one] at same
      obtain ⟨-, others⟩ := legible.1 clear (comma _) (bracket _) (List.cons.inj same).2
      cases others
    | two left' right' =>
      rw [text_two] at same
      obtain ⟨lefts, others⟩ := legible.1 clear.1 (comma _) (comma _) (List.cons.inj same).2
      obtain ⟨rights, others⟩ := legible.2 clear.2 (bracket _) (bracket _)
        (List.cons.inj (List.cons.inj others).2).2
      exact ⟨(Tail.two.injEq ..).mpr ⟨lefts, rights⟩, (List.cons.inj others).2⟩

/-- The kinds of operands. -/
inductive Kind
  | number
  | word
  | enclosed

/-- The kind of an operand. -/
def Operand.kind : Operand → Kind
  | number _ => .number
  | word _ _ => .word
  | enclosed _ => .enclosed

/-- Whether operands of a kind start with a character. -/
def Kind.starts (c : Char) : Kind → Bool
  | number => Pattern.isDigit c || c == '.'
  | word => Pattern.isNameStart c
  | enclosed => c == '('

/-- Operands of different kinds start with different characters. -/
theorem Kind.eq_of_starts {c : Char} {kind kind' : Kind} (starts : kind.starts c = true)
    (starts' : kind'.starts c = true) : kind = kind' := by
  have no_number : Pattern.isNameStart c = true → (Pattern.isDigit c || c == '.') = true → False :=
    fun start number => by
      obtain ⟨no_digit, no_point⟩ := not_isDigit_of_isNameStart start
      rw [no_digit, Bool.false_or, beq_iff_eq] at number
      exact no_point number
  have no_bracket : ∀ kind : Kind, kind.starts '(' = true → kind = enclosed := by
    intro kind starts
    cases kind
    · exact absurd starts (by decide)
    · exact absurd starts (by decide)
    · rfl
  cases kind with
  | number =>
    cases kind' with
    | number => rfl
    | word => exact (no_number starts' starts).elim
    | enclosed =>
      obtain rfl := beq_iff_eq.mp starts'
      exact no_bracket _ starts
  | word =>
    cases kind' with
    | number => exact (no_number starts starts').elim
    | word => rfl
    | enclosed =>
      obtain rfl := beq_iff_eq.mp starts'
      exact no_bracket _ starts
  | enclosed =>
    obtain rfl := beq_iff_eq.mp starts
    exact (no_bracket _ starts').symm

theorem operand_starts {P : Expr → Prop} {o : Operand} (all : o.All P) :
    ∃ c cs, o.text = c :: cs ∧ o.kind.starts c = true := by
  cases o with
  | number value =>
    obtain ⟨c, cs, chars, starts⟩ := number_head all
    refine ⟨c, cs, chars, ?_⟩
    rcases starts with digit | rfl
    · exact Bool.or_eq_true_iff.mpr (.inl digit)
    · rfl
  | word w tail =>
    obtain ⟨c, cs, chars, start⟩ := all.1.head
    exact ⟨c, cs ++ tail.text, by rw [Operand.text, chars]; rfl, start⟩
  | enclosed e => exact ⟨'(', _, rfl, rfl⟩

/-- **An operand can be told from its text** if the expressions in it can. -/
theorem operand_unique {o o' : Operand} (legible : o.All LegibleExpr) (clear : o'.All Expr.Clear)
    (stops : Stops rest) (stops' : Stops rest') (same : o.text ++ rest = o'.text ++ rest') :
    o.withoutSpans = o'.withoutSpans ∧ rest = rest' := by
  obtain ⟨c, cs, chars, starts⟩ := operand_starts legible
  obtain ⟨c', cs', chars', starts'⟩ := operand_starts clear
  have same_kind : o.kind = o'.kind := by
    have both := same
    rw [chars, chars'] at both
    obtain rfl : c = c' := (List.cons.inj both).1
    exact Kind.eq_of_starts starts starts'
  cases o with
  | number value =>
    cases o' with
    | number value' =>
      obtain ⟨rfl, others⟩ := number_unique legible clear stops.endsToken stops'.endsToken same
      exact ⟨rfl, others⟩
    | word w tail => cases same_kind
    | enclosed e => cases same_kind
  | word w tail =>
    cases o' with
    | number value => cases same_kind
    | word w' tail' =>
      simp only [Operand.text, List.append_assoc] at same
      obtain ⟨rfl, behind⟩ := word_unique legible.1.all clear.1.all (endsWord_tail tail stops)
        (endsWord_tail tail' stops') same
      obtain ⟨tails, others⟩ := tail_unique legible.2 clear.2 stops stops' behind
      exact ⟨congrArg (Operand.word w) tails, others⟩
    | enclosed e => cases same_kind
  | enclosed e =>
    cases o' with
    | number value => cases same_kind
    | word w tail => cases same_kind
    | enclosed e' =>
      have bracket : ∀ more, Closed ['\x7b'] (')' :: more) := closed_cons (by decide)
      simp only [Operand.text, List.cons_append, List.append_assoc, List.nil_append] at same
      obtain ⟨inner, others⟩ := legible clear (bracket _) (bracket _) (List.cons.inj same).2
      exact ⟨congrArg Operand.enclosed inner, (List.cons.inj others).2⟩

/-- **An expression can be told from its text as an operand** if the expressions in it can. -/
theorem legible_operand {e : Expr} (clear : e.Clear) (all : e.operand.All LegibleExpr) :
    LegibleOperand e := by
  intro e' rest rest' clear' stops stops' same
  obtain ⟨operands, others⟩ := operand_unique all (clear_operand clear') stops stops' same
  have same_expr := congrArg Operand.expr operands
  rw [expr_operand clear.written, expr_operand clear'.written] at same_expr
  exact ⟨same_expr, others⟩

/-- No operator in front of an operand is taken for an operand. -/
theorem sign_ne_operand {op : UnaryOperator} (is_sign : op.functionName? = none) {e : Expr}
    (clear : e.Clear) (stops : Stops rest) (more : List Char) :
    op.symbol.toList ++ more ≠ e.operand.text ++ rest := by
  intro same
  have all := clear_operand clear
  obtain ⟨c, cs, chars, starts⟩ := operand_starts all
  have head : op.symbol.toList.head? = some c := by
    rw [chars] at same
    cases op <;> exact congrArg List.head? same
  cases op with
  | neg =>
    obtain rfl : '-' = c := Option.some.inj head
    cases kind : e.operand.kind <;> rw [kind] at starts <;> exact absurd starts (by decide)
  | pos =>
    obtain rfl : '+' = c := Option.some.inj head
    cases kind : e.operand.kind <;> rw [kind] at starts <;> exact absurd starts (by decide)
  | not =>
    obtain rfl : 'n' = c := Option.some.inj head
    cases operand : e.operand with
    | number value =>
      rw [operand] at starts
      exact absurd (show Kind.number.starts 'n' = true from starts) (by decide)
    | word w tail =>
      rw [operand] at same all
      rw [Operand.text, List.append_assoc] at same
      have word : "not".toList ++ (' ' :: more) = w.toList ++ (tail.text ++ rest) := same
      exact all.1.no_operator (word_unique (List.all_eq_true.mp rfl) all.1.all
        (endsWord_cons rfl more) (endsWord_tail tail stops) word).1.symm
    | enclosed inner =>
      rw [operand] at starts
      exact absurd (show Kind.enclosed.starts 'n' = true from starts) (by decide)
  | _ => cases is_sign

end Definition

end GridStencil
