import GridStencil.Proofs.Definition.Body
import GridStencil.Proofs.Definition.Legible.Expression

/-!
**Statements can be told from their lines.**

A line of a block starts with the blanks of its depth, the bracket that closes the block with fewer
of them, so it can be told where a block ends (`EndsBlock`). Behind the blanks stands the name of a
target or the word of a condition, which is no name. No two statements have to stay apart for this:
the end of a line ends the value of an assignment, whatever the next line is.

* `legible_body`: two lists of statements that make up the same text with what closes them are the
  same up to spans.
-/

namespace GridStencil.Definition

open Grammar

variable {rest rest' : List Char}

/-! ### Statements that can be written -/

/-- Whether a statement can be written with all its doubles in digits. -/
def Statement.Clear (s : Statement) : Prop := s.Written ∧ ∀ x ∈ s.floats, Number.InDigits x

/-- Whether statements can be written with all their doubles in digits. -/
def Statement.ListClear (body : List Statement) : Prop :=
  Statement.ListWritten body ∧ ∀ x ∈ Statement.listFloats body, Number.InDigits x

theorem clear_branch {condition : Expr} {whenTrue whenFalse : List Statement} {span : Span}
    (clear : (Statement.branch condition whenTrue whenFalse span).Clear) :
    condition.Clear ∧ Statement.ListClear whenTrue ∧ Statement.ListClear whenFalse := by
  obtain ⟨⟨condition_written, true_written, false_written⟩, digits⟩ := clear
  exact ⟨⟨condition_written, fun x inside =>
      digits x (List.mem_append_left _ (List.mem_append_left _ inside))⟩,
    ⟨true_written, fun x inside =>
      digits x (List.mem_append_left _ (List.mem_append_right _ inside))⟩,
    ⟨false_written, fun x inside => digits x (List.mem_append_right _ inside)⟩⟩

theorem clear_cons {s : Statement} {body : List Statement}
    (clear : Statement.ListClear (s :: body)) : s.Clear ∧ Statement.ListClear body :=
  ⟨⟨clear.1.1, fun x inside => clear.2 x (List.mem_append_left _ inside)⟩,
    ⟨clear.1.2, fun x inside => clear.2 x (List.mem_append_right _ inside)⟩⟩

/-! ### Blanks and brackets -/

/-- Blanks end where the first other character stands. -/
theorem blanks_unique {width width' : Nat} {c c' : Char} (solid : c ≠ ' ') (solid' : c' ≠ ' ')
    (same : List.replicate width ' ' ++ c :: rest = List.replicate width' ' ' ++ c' :: rest') :
    width = width' ∧ c = c' ∧ rest = rest' := by
  have all : ∀ width, (List.replicate width ' ').all (· == ' ') = true := by simp
  have stops : ∀ {d : Char}, d ≠ ' ' → ∀ (more : List Char) (e : Char),
      (d :: more).head? = some e → (e == ' ') = false := by
    rintro d other more _ ⟨⟩
    exact beq_eq_false_iff_ne.mpr other
  obtain ⟨blanks, others⟩ := split_unique (Pattern.split_run (all width) (stops solid rest))
    (Pattern.split_run (all width') (stops solid' rest')) same
  have widths := congrArg List.length blanks
  rw [List.length_replicate, List.length_replicate] at widths
  obtain ⟨rfl, rfl⟩ := List.cons.inj others
  exact ⟨widths, rfl, rfl⟩

/-- Whether a bracket follows that stands further left than the lines of a block. -/
def EndsBlock (indent : Nat) (rest : List Char) : Prop :=
  ∃ width more, width < indent ∧ rest = List.replicate width ' ' ++ '\x7d' :: more

/-- The lines of a statement. -/
def statementText (indent : Nat) (s : Statement) : List Char :=
  (Text.unlines (s.lines indent)).toList

/-- The first line of a statement starts with a letter behind the blanks. -/
theorem statement_starts (indent : Nat) {s : Statement} (clear : s.Clear) (rest : List Char) :
    ∃ c cs, statementText indent s ++ rest = List.replicate indent ' ' ++ c :: cs ∧ c ≠ ' ' := by
  cases s with
  | assign target offset value span =>
    obtain ⟨c, cs, chars, -⟩ := IsName.head clear.1.1
    refine ⟨c, cs ++ (targetOffset offset ++
      ' ' :: '=' :: ' ' :: (value.render.toList ++ '\n' :: rest)), ?_, ?_⟩
    · rw [statementText, text_assign, chars, List.cons_append]
    · rintro rfl
      exact absurd (IsName.all clear.1.1 ' ' (by simp [chars])) (by decide)
  | branch condition whenTrue whenFalse span =>
    exact ⟨'i', _, text_branch indent condition whenTrue whenFalse span rest, by decide⟩

/-- The bracket that closes a block is not taken for a statement of it. -/
theorem endsBlock_ne {indent : Nat} (ends : EndsBlock indent rest) {s : Statement}
    (clear : s.Clear) (more : List Char) : rest ≠ statementText indent s ++ more := by
  intro same
  obtain ⟨width, behind, less, rfl⟩ := ends
  obtain ⟨c, cs, starts, solid⟩ := statement_starts indent clear more
  rw [starts] at same
  exact absurd (blanks_unique (by decide) solid same).1 less.ne

/-! ### Statements -/

/-- The offset behind a target can be told by the bracket it starts with. -/
theorem target_unique {offset offset' : Option Offset}
    (same : targetOffset offset ++ ' ' :: '=' :: ' ' :: rest =
      targetOffset offset' ++ ' ' :: '=' :: ' ' :: rest') : offset = offset' ∧ rest = rest' := by
  have sign : ∀ {more more' : List Char}, ' ' :: '=' :: ' ' :: more = ' ' :: '=' :: ' ' :: more' →
      more = more' := fun same => by simpa using same
  have no_sign : ∀ (o : Offset) (behind more : List Char),
      o.render.toList ++ behind ≠ ' ' :: more := by
    intro o behind more same
    obtain ⟨cs, starts⟩ := offset_starts o behind
    rw [starts] at same
    cases same
  cases offset with
  | none =>
    cases offset' with
    | none => exact ⟨rfl, sign same⟩
    | some o' => exact absurd same.symm (no_sign o' _ _)
  | some o =>
    cases offset' with
    | none => exact absurd same (no_sign o _ _)
    | some o' =>
      obtain ⟨rfl, behind⟩ := offset_unique same
      exact ⟨rfl, sign behind⟩

/-- What stands behind a word is the same if all is. -/
theorem behind_word (word : List Char) (same : word ++ rest = word ++ rest') : rest = rest' :=
  List.append_cancel_left same

/-- The target of an assignment ends behind its name. -/
theorem endsWord_target {offset : Option Offset}
    (written : ∀ o, offset = some o → WrittenOffset o) (more : List Char) :
    EndsWord (targetOffset offset ++ ' ' :: '=' :: ' ' :: more) :=
  fun c head => not_isNameChar_of_endsToken ((targetEnd written more).rest.ends c head)

/-- An assignment does not start with the word of a condition. -/
theorem target_ne_if {target : String} {offset : Option Offset} (is_name : IsName target)
    (written : ∀ o, offset = some o → WrittenOffset o) (more more' : List Char) :
    target.toList ++ (targetOffset offset ++ ' ' :: '=' :: ' ' :: more) ≠
      'i' :: 'f' :: ' ' :: more' := by
  intro same
  have letters : ∀ c ∈ "if".toList, Pattern.isNameChar c = true := List.all_eq_true.mp rfl
  obtain ⟨is_if, -⟩ := word_unique is_name.all letters (endsWord_target written _)
    (endsWord_cons (c := ' ') rfl more') same
  exact keyword_ne is_name (by decide) is_if

mutual

/-- **A statement can be told from its lines.** -/
theorem legible_statement (indent : Nat) (s : Statement) (clear : s.Clear) :
    Legible (statementText indent) Statement.withoutSpans Statement.Clear (fun _ => True) s := by
  intro s' rest rest' clear' _ _ same
  match s, s' with
  | .assign target offset value span, .assign target' offset' value' span' =>
    obtain ⟨⟨is_name, offset_written, value_written⟩, digits⟩ := clear
    obtain ⟨⟨is_name', offset_written', value_written'⟩, digits'⟩ := clear'
    have line : ∀ more, Closed ['\x7b'] ('\n' :: more) := closed_cons (by decide)
    rw [statementText, statementText, text_assign, text_assign] at same
    obtain ⟨rfl, behind_name⟩ := word_unique is_name.all is_name'.all
      (endsWord_target offset_written _) (endsWord_target offset_written' _)
      (List.append_cancel_left same)
    obtain ⟨rfl, behind_sign⟩ := target_unique behind_name
    obtain ⟨values, others⟩ := legible ⟨value_written, digits⟩ ⟨value_written', digits'⟩
      (line _) (line _) behind_sign
    exact ⟨by simp only [Statement.withoutSpans, values], (List.cons.inj others).2⟩
  | .assign target offset value span, .branch condition whenTrue whenFalse span' =>
    obtain ⟨⟨is_name, offset_written, -⟩, -⟩ := clear
    rw [statementText, statementText, text_assign, text_branch] at same
    exact absurd (List.append_cancel_left same) (target_ne_if is_name offset_written _ _)
  | .branch condition whenTrue whenFalse span, .assign target offset value span' =>
    obtain ⟨⟨is_name, offset_written, -⟩, -⟩ := clear'
    rw [statementText, statementText, text_assign, text_branch] at same
    exact absurd (List.append_cancel_left same.symm) (target_ne_if is_name offset_written _ _)
  | .branch condition whenTrue whenFalse span, .branch condition' whenTrue' whenFalse' span' =>
    obtain ⟨condition_clear, true_clear, false_clear⟩ := clear_branch clear
    obtain ⟨condition_clear', true_clear', false_clear'⟩ := clear_branch clear'
    have block : ∀ more, Closed ['\x7b'] (' ' :: '\x7b' :: more) := closed_blank (by decide)
    have closing : ∀ more, EndsBlock (indent + 4) (List.replicate indent ' ' ++ '\x7d' :: more) :=
      fun more => ⟨indent, more, by omega, rfl⟩
    rw [statementText, statementText, text_branch, text_branch] at same
    obtain ⟨conditions, behind⟩ := legible condition_clear condition_clear' (block _) (block _)
      (behind_word ['i', 'f', ' '] (List.append_cancel_left same))
    obtain ⟨trues, behind⟩ := legible_body (indent + 4) whenTrue true_clear true_clear' (closing _)
      (closing _) (behind_word [' ', '\x7b', '\n'] behind)
    have others := (List.cons.inj (List.append_cancel_left behind)).2
    -- Behind the bracket of the first block stands the end of the line, or the second block.
    match whenFalse, whenFalse' with
    | [], [] =>
      exact ⟨by simp only [Statement.withoutSpans, conditions, trues], (List.cons.inj others).2⟩
    | [], s' :: body' => cases others
    | s :: body, [] => cases others
    | s :: body, s' :: body' =>
      obtain ⟨falses, last⟩ := legible_body (indent + 4) (s :: body) false_clear false_clear'
        (closing _) (closing _) (behind_word " else \x7b\n".toList others)
      exact ⟨by simp only [Statement.withoutSpans, conditions, trues, falses],
        behind_word ['\x7d', '\n'] (List.append_cancel_left last)⟩

/-- **The statements of a block can be told from its lines.** -/
theorem legible_body (indent : Nat) (body : List Statement) (clear : Statement.ListClear body) :
    Legible (bodyText indent) Statement.listWithoutSpans Statement.ListClear (EndsBlock indent)
      body := by
  intro body' rest rest' clear' ends ends' same
  match body, body' with
  | [], [] => exact ⟨rfl, same⟩
  | [], s' :: body' =>
    rw [bodyText_cons, List.append_assoc] at same
    exact absurd same (endsBlock_ne ends (clear_cons clear').1 _)
  | s :: body, [] =>
    rw [bodyText_cons, List.append_assoc] at same
    exact absurd same.symm (endsBlock_ne ends' (clear_cons clear).1 _)
  | s :: body, s' :: body' =>
    rw [bodyText_cons, bodyText_cons, List.append_assoc, List.append_assoc] at same
    obtain ⟨firsts, behind⟩ := legible_statement indent s (clear_cons clear).1 (clear_cons clear').1
      trivial trivial same
    obtain ⟨others, last⟩ := legible_body indent body (clear_cons clear).2 (clear_cons clear').2
      ends ends' behind
    exact ⟨by simp only [Statement.listWithoutSpans, firsts, others], last⟩

end

end GridStencil.Definition
