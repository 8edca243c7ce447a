import GridStencil.Proofs.Definition.Choice
import GridStencil.Proofs.Grammar.Suits

/-!
**What may follow the parts of a definition.**

A part of a definition may end where another reading of it would go on: a row of operands where no
operator stands, an expression where no conditional goes on, a statement where no `else` does.
`Rule.follow` says for every rule what has to be known behind it, and `Rule.suits_body` that, with
this, every rule of the grammar reads a text and the same text with more layout in step.

Words need no layout around them, so the name of a target may be read as the start of a condition.
That reading stops inside the target, whatever the layout behind the name
(`Phrase.Opens.assign_stops`).
-/

namespace GridStencil

open Grammar

/-! ### What is known behind a rule -/

/-- No operand goes on: there are neither arguments nor an offset. -/
structure OperandStops (input other : List Char) : Prop where
  no_arguments : other.head? ≠ some '('
  no_offset : other.head? ≠ some '['

/-- No row of operands goes on. -/
structure RowStops (input other : List Char) : Prop extends OperandStops input other where
  no_operator : Phrase.infixOperator.Rejects other

/-- No expression goes on in one text unless it does in the other. -/
structure ExprStops (input other : List Char) : Prop extends RowStops input other where
  choice : Phrase.choiceTail.Transfers input other

/-- No statement goes on in one text unless it does in the other. -/
structure StatementStops (input other : List Char) : Prop extends ExprStops input other where
  other_side : Phrase.elseTail.Transfers input other

/-- What has to be known behind a rule. -/
def Grammar.Rule.follow : Rule → Pairs
  | .arith => RowStops
  | .expr | .assign => ExprStops
  | .ifStmt => fun input other => Phrase.elseTail.Transfers input other
  | .params => fun _ other => other.head? = some ')'
  | .externals => fun _ other => other.head? = some 'w' ∨ other.head? = some '\x7d'
  | .computations => fun _ other => other.head? = some '\x7d'
  | .scalarParam => fun _ other => other.head? ≠ some '['
  | _ => fun _ _ => True

/-- Nothing has to be known behind a token. -/
theorem Grammar.Rule.follow_of_token {r : Rule} {pattern : Pattern} (is_body : r.body = .token pattern)
    (input other : List Char) : r.follow input other := by
  cases r <;> first | exact trivial | cases is_body

variable {input other : List Char} {behind : Pairs} {c : Char}

/-- The characters behind which a row of operands does not go on. -/
def rowClosers : List Char := [')', ',', '\x7b', '\x7d', ';', 'i', 'e']

/-- The characters behind which no statement goes on. -/
def statementClosers : List Char := [')', ',', '\x7b', '\x7d', ';']

theorem RowStops.of_head (skipped : skip other = other) (head : other.head? = some c)
    (closer : c ∈ rowClosers) : RowStops input other := by
  have apart : rowClosers.all (fun c => !Phrase.infixOperator.starts c && c != '(' && c != '[') =
      true := rfl
  have here := List.all_eq_true.mp apart c closer
  simp only [Bool.and_eq_true, Bool.not_eq_true', bne_iff_ne] at here
  refine ⟨⟨?_, ?_⟩, .of_head (by decide) rfl skipped head here.1.1⟩ <;> rw [head]
  · exact fun same => here.1.2 (Option.some.inj same)
  · exact fun same => here.2 (Option.some.inj same)

theorem StatementStops.of_head (skipped : skip other = other) (head : other.head? = some c)
    (closer : c ∈ statementClosers) : StatementStops input other := by
  have inside : statementClosers.all (fun c => rowClosers.contains c && c != 'i' && c != 'e') =
      true := rfl
  have here := List.all_eq_true.mp inside c closer
  simp only [Bool.and_eq_true, List.contains_iff_mem, bne_iff_ne] at here
  obtain ⟨⟨row, no_if⟩, no_else⟩ := here
  refine ⟨⟨.of_head skipped head row, ?_⟩, ?_⟩
  · exact Phrase.transfers_of_rejects (Definition.choiceTail_rejects
      (by rw [head]; exact fun same => no_if (Option.some.inj same)))
  · exact Phrase.transfers_of_rejects (.seq_first (.text rfl
      (by rw [head]; exact fun same => no_else (Option.some.inj same))))

namespace Grammar.Phrase

/-! ### Operands -/

/-- What the name of an operand is followed by. -/
theorem Opens.name {p : Phrase}
    (opens : (Phrase.seq (Phrase.rule .identifier) p).Opens behind input other) :
    ∃ parts rest, Pattern.identifier.split other = some (parts, rest) ∧
      ∃ rest', p.Opens behind (skip rest') (skip rest) := by
  obtain ⟨taken, rest, rest', -, split', known⟩ := opens.seq.rule_token rfl
  exact ⟨taken, rest', split', rest, known⟩

/-- The operands that start with a name, and those in brackets. -/
def nameOrBrackets : Phrase :=
  choice [rule .call, rule .access, rule .identifier, sequence [text "(", rule .expr, text ")"]]

theorem Opens.nameOrBrackets (opens : nameOrBrackets.Opens behind input other) :
    (∃ parts, Pattern.identifier.split other = some parts) ∨ other.head? = some '(' := by
  rcases opens.alt with call | opens
  · obtain ⟨parts, rest, split, -⟩ := (call.rule rfl).name
    exact .inl ⟨_, split⟩
  rcases opens.alt with access | opens
  · obtain ⟨parts, rest, split, -⟩ := (access.rule rfl).name
    exact .inl ⟨_, split⟩
  rcases opens.alt with name | bracket
  · obtain ⟨taken, rest, rest', -, split, -⟩ := name.rule_token rfl
    exact .inl ⟨_, split⟩
  · exact .inr (bracket.seq.text_head rfl)

/-- Where a named operand stands, no word does. -/
theorem Opens.no_word (opens : Phrase.nameOrBrackets.Opens behind input other) {w : String}
    (keyword : w ∈ Pattern.keywords) {more : List Char} (chars : w.toList = c :: more)
    (differs : c ≠ '(') : (Pattern.wholeWord w).split other = none := by
  rcases opens.nameOrBrackets with ⟨parts, split⟩ | bracket
  · exact IsName.no_wholeWord split keyword
  · refine Pattern.split_wholeWord_of_head chars fun head => ?_
    rw [bracket] at head
    exact differs (Option.some.inj head).symm

/-- No operator stands in front of an operand. -/
theorem Opens.no_prefixOperator (opens : primary.Opens behind input other)
    (trimmed : Trimmed input other) : prefixOperator.Rejects other := by
  have startsOn := opens.startsOn trimmed rfl
  refine Definition.prefixOperator_rejects (startsOn.head_ne rfl)
    (startsOn.head_ne rfl) ?_
  have constant : ∀ {r : Rule}, (Phrase.rule r).Opens behind input other →
      (Phrase.rule r).nullable = false → (Phrase.rule r).starts 'n' = false →
      (Pattern.wholeWord "not").split other = none := fun opens takes outside =>
    Pattern.split_wholeWord_of_head rfl ((opens.startsOn trimmed takes).head_ne outside)
  rcases opens.alt with float | opens
  · exact constant float rfl rfl
  rcases opens.alt with int | opens
  · exact constant int rfl rfl
  rcases opens.alt with is_true | opens
  · exact constant is_true rfl rfl
  rcases opens.alt with is_false | named
  · exact constant is_false rfl rfl
  · exact Opens.no_word named (by decide) rfl (by decide)

/-- A name without brackets behind it is neither a call nor a field at an offset. -/
theorem rejects_of_name {rest taken : List Char}
    (split : Pattern.identifier.split input = some (taken, rest)) :
    ((skip rest).head? ≠ some '(' → (rule .call).Rejects input) ∧
      ((skip rest).head? ≠ some '[' → (rule .access).Rejects input) := by
  have name : (rule .identifier).Yields input rest (fun _ => True) :=
    .rule_token rfl split fun _ => trivial
  exact ⟨fun no_arguments => .rule rfl (.seq_second name (.seq_first (.text rfl no_arguments))),
    fun no_offset =>
      .rule rfl (.seq_second name (.rule rfl (.seq_first (.text rfl no_offset))))⟩

/-- No named operand starts with a bracket. -/
theorem rejects_of_bracket (bracket : other.head? = some '(') (skipped : skip other = other) :
    (rule .call).Rejects other ∧ (rule .access).Rejects other ∧
      (rule .identifier).Rejects other :=
  ⟨.of_head (by decide) rfl skipped bracket rfl,
    .of_head (by decide) rfl skipped bracket rfl,
    .of_head (by decide) rfl skipped bracket rfl⟩

namespace Suits

theorem brackets : (sequence [Phrase.text "(", rule .expr, Phrase.text ")"]).Suits Rule.follow
    behind := by
  refine text_seq (by decide) ⟨fun _ _ aligned opens => ?_, text _ (by decide)⟩
  exact (StatementStops.of_head aligned.skipped' (opens.text_head rfl) (by decide)).toExprStops

variable (stops : ∀ ⦃input other⦄, Trimmed input other → behind input other →
  OperandStops input other)

include stops

theorem nameOrBrackets : nameOrBrackets.Suits Rule.follow behind := by
  refine ⟨fun _ _ _ _ => trivial, ⟨fun _ _ _ _ => trivial,
    ⟨fun _ _ _ _ => trivial, brackets, ?_⟩, ?_⟩, ?_⟩
  · exact fun _ _ aligned bracket => transfers_of_rejects
      (rejects_of_bracket (bracket.seq.text_head rfl) aligned.skipped').2.2
  · intro input other aligned opens
    refine transfers_of_rejects ?_
    rcases opens.alt with name | bracket
    · obtain ⟨taken, rest, rest', -, split, known⟩ := name.rule_token rfl
      exact (rejects_of_name split).2 (stops (trimmed_skip _ _) known).no_offset
    · exact (rejects_of_bracket (bracket.seq.text_head rfl) aligned.skipped').2.1
  · intro input other aligned opens
    refine transfers_of_rejects ?_
    rcases opens.alt with access | opens
    · obtain ⟨parts, rest, split, rest', offset⟩ := (access.rule rfl).name
      have bracket := (offset.rule rfl).seq.text_head rfl
      exact (rejects_of_name split).1 (by rw [bracket]; decide)
    rcases opens.alt with name | bracket
    · obtain ⟨taken, rest, rest', -, split, known⟩ := name.rule_token rfl
      exact (rejects_of_name split).1 (stops (trimmed_skip _ _) known).no_arguments
    · exact (rejects_of_bracket (bracket.seq.text_head rfl) aligned.skipped').1

theorem primary : primary.Suits Rule.follow behind := by
  refine tokens_or [.float, .int] Rule.follow_of_token rfl
    ⟨fun _ _ _ _ => trivial, ⟨fun _ _ _ _ => trivial, nameOrBrackets stops, ?_⟩, ?_⟩
  · exact fun _ _ _ named => transfers_of_rejects
      (.rule_token rfl (Opens.no_word named (by decide) rfl (by decide)))
  · intro input other aligned opens
    refine transfers_of_rejects (.rule_token rfl ?_)
    rcases opens.alt with is_false | named
    · exact Pattern.split_wholeWord_of_head rfl
        ((is_false.startsOn aligned.toTrimmed rfl).head_ne rfl)
    · exact Opens.no_word named (by decide) rfl (by decide)

omit stops

theorem prefixOperator : prefixOperator.Suits Rule.follow behind :=
  tokens_or [.neg, .pos] Rule.follow_of_token rfl fun _ _ _ _ => trivial

theorem infixOperator : infixOperator.Suits Rule.follow behind := by
  refine tokens_or [.pow, .add, .sub, .mul, .div, .modulo, .le, .ge, .lt, .gt, .eq, .ne]
    Rule.follow_of_token rfl ⟨fun _ _ _ _ => trivial, fun _ _ _ _ => trivial, ?_⟩
  intro input other aligned opens
  have no_a := (opens.startsOn aligned.toTrimmed rfl).head_ne (c := 'a') rfl
  exact transfers_of_rejects (.rule_token rfl (Pattern.split_wholeWord_of_head rfl no_a))

include stops

theorem signed : signed.Suits Rule.follow behind := by
  refine ⟨⟨prefixOperator, ?_⟩, primary stops⟩
  exact fun _ _ aligned opens =>
    transfers_of_rejects (Opens.no_prefixOperator opens aligned.toTrimmed)

omit stops

/-- Behind an operand stands an operator or the end of the row. -/
theorem others_stops ⦃input other : List Char⦄ (trimmed : Trimmed input other)
    (opens : others.Opens RowStops input other) : OperandStops input other := by
  rcases opens.many trimmed with item | row
  · have startsOn := item.seq.startsOn trimmed rfl
    exact ⟨startsOn.head_ne rfl, startsOn.head_ne rfl⟩
  · exact row.toOperandStops

theorem others : others.Suits Rule.follow RowStops :=
  ⟨⟨infixOperator, signed others_stops⟩, fun _ _ _ row =>
    transfers_of_rejects (.seq_first row.no_operator)⟩

/-- A row of operands. -/
theorem arith : (Phrase.sequence (operand ++ [Phrase.others])).Suits Rule.follow RowStops := by
  refine ⟨⟨prefixOperator, fun _ _ aligned opens => transfers_of_rejects ?_⟩,
    primary others_stops, others⟩
  exact Opens.no_prefixOperator opens.seq aligned.toTrimmed

/-- An expression goes on with a condition or does not. -/
theorem expr : (Phrase.seq (.rule .arith) (.optional choiceTail)).Suits Rule.follow
    ExprStops := by
  refine ⟨fun _ _ aligned opens => ?_, text_seq (by decide) ⟨fun _ _ aligned opens => ?_,
    text_seq (by decide) fun _ _ _ known => known⟩, fun _ _ _ known => known.choice⟩
  · rcases opens.optional aligned.toTrimmed with choice | known
    · exact .of_head aligned.skipped' (choice.seq.text_head rfl) (by decide)
    · exact known.toRowStops
  · exact .of_head aligned.skipped' (opens.seq.text_head rfl) (by decide)

end Suits

/-! ### Statements -/

section Statements

/-- Behind the target of an assignment stands its sign. -/
theorem Opens.atSign
    (opens : (Phrase.seq (.text "=") (.rule .expr)).Opens behind input other) :
    Definition.AtSign other := by
  obtain ⟨rest, rest', -, rfl, known⟩ := opens.seq.text rfl
  refine ⟨rest', rfl, fun head => ?_⟩
  obtain ⟨more, rfl⟩ : ∃ more, rest' = '=' :: more := List.head?_eq_some_iff.mp head
  exact (known.startsOn (trimmed_skip _ _) rfl).head_ne (c := '=') rfl
    (by rw [skip_cons_solid rfl]; rfl)

theorem Opens.targetRest {rest rest' : List Char}
    (opens : (Phrase.seq (.optional (.rule .offset)) (.seq (.text "=") (.rule .expr))).Opens behind
      (skip rest) (skip rest')) : Definition.TargetRest rest' := by
  rcases opens.seq.optional (trimmed_skip _ _) with offset | sign
  · obtain ⟨-, more, -, skipped, -⟩ := (offset.rule rfl).seq.text rfl
    obtain ⟨after, after', inStep, sign⟩ := offset
    exact .offset skipped inStep.yields sign.atSign
  · exact .sign sign.atSign

/-- A statement with a condition is not read as the rest of a conditional: there is no `else` behind
its condition. -/
theorem Opens.ifStmt_stops (trimmed : Trimmed input other)
    (opens : (Phrase.rule .ifStmt).Opens behind input other) : StatementStops input other := by
  have startsOn := opens.startsOn trimmed rfl
  obtain ⟨rest, rest', -, rfl, known⟩ := (opens.rule rfl).seq.text rfl
  obtain ⟨after, after', inStep, tail⟩ := (known.seq.rule rfl).seq
  have no_else : (Phrase.text "else").Rejects (skip after') := by
    refine .text rfl ?_
    rcases tail.optional (trimmed_skip _ _) with choice | block
    · rw [choice.seq.text_head rfl]
      decide
    · rw [(block.seq.rule rfl).seq.text_head rfl]
      decide
  have no_choice : choiceTail.Rejects ('i' :: (['f'] ++ rest')) :=
    .seq_second (Yields.text "if" rest') (.seq_second inStep.yields (.seq_first no_else))
  exact ⟨⟨.of_head trimmed.skipped' rfl (by decide), transfers_of_rejects no_choice⟩,
    transfers_of_rejects (.seq_first (.text rfl (startsOn.head_ne rfl)))⟩

/-- An assignment starts with the same name in both texts, and the rest of a target. -/
theorem Opens.target (opens : (Phrase.rule .assign).Opens behind input other) :
    ∃ name rest rest', IsName name ∧ input = name.toList ++ rest ∧ other = name.toList ++ rest' ∧
      Definition.TargetRest rest ∧ Definition.TargetRest rest' := by
  obtain ⟨taken, rest, rest', split, split', known⟩ := (opens.rule rfl).seq.rule_token rfl
  refine ⟨.ofList taken, rest, rest', .of_split split, ?_, ?_, known.symm.targetRest,
    known.targetRest⟩
  · rw [String.toList_ofList]
    exact Pattern.append_of_split split
  · rw [String.toList_ofList]
    exact Pattern.append_of_split split'

/-- Whether the target of an assignment is read as the rest of a conditional is told by its name. -/
theorem Opens.assign_stops (trimmed : Trimmed input other)
    (opens : (Phrase.rule .assign).Opens behind input other) : StatementStops input other := by
  have startsOn := opens.startsOn trimmed rfl
  have skipped' := trimmed.skipped'
  obtain ⟨name, rest, rest', is_name, rfl, rfl, target_rest, target_rest'⟩ := opens.target
  have no_else := Definition.elseTail_rejects_word target_rest' is_name.all
  rw [skipped'] at no_else
  refine ⟨⟨⟨⟨startsOn.head_ne rfl, startsOn.head_ne rfl⟩,
    Definition.infixOperator_rejects_name is_name target_rest'.ends⟩, fun rejects => ?_⟩,
    transfers_of_rejects no_else⟩
  rcases Definition.choiceTail_target is_name target_rest with ⟨-, after, yields⟩ | ⟨no_choice, -⟩
  · exact absurd yields rejects.not_yields
  rcases Definition.choiceTail_target is_name target_rest' with ⟨some_choice, -⟩ | ⟨-, rejects'⟩
  · exact absurd some_choice no_choice
  · exact rejects'

/-- The target of an assignment is not read as the condition of a statement. -/
theorem Opens.no_ifStmt (trimmed : Trimmed input other)
    (opens : (Phrase.rule .assign).Opens behind input other) :
    (Phrase.rule .ifStmt).Rejects other := by
  have skipped' := trimmed.skipped'
  obtain ⟨name, rest, rest', is_name, rfl, rfl, -, target_rest'⟩ := opens.target
  have rejects := Definition.ifStmt_rejects_word target_rest' is_name.all
  rwa [skipped'] at rejects

/-- Behind a statement stands another one or the end of the block. -/
theorem Opens.statements_stop (trimmed : Trimmed input other)
    (opens : (Phrase.many statement).Opens ((Phrase.text "\x7d").Opens behind) input other) :
    StatementStops input other := by
  rcases opens.many trimmed with statement | closing
  · rcases statement.seq.alt with conditional | assign
    · exact conditional.ifStmt_stops trimmed
    · exact assign.assign_stops trimmed
  · exact .of_head trimmed.skipped' (closing.text_head rfl) (by decide)

end Statements

namespace Suits

theorem call : (Phrase.sequence [.rule .identifier, .text "(", .rule .expr,
    .many (.seq (.text ",") (.rule .expr)), .text ")"]).Suits Rule.follow behind := by
  have stops : ∀ ⦃input other : List Char⦄, Trimmed input other →
      (Phrase.many (.seq (.text ",") (.rule .expr))).Opens ((Phrase.text ")").Opens behind)
        input other → ExprStops input other := by
    intro input other trimmed opens
    have head : other.head? = some ',' ∨ other.head? = some ')' :=
      (opens.many trimmed).imp (·.seq.text_head rfl) (·.text_head rfl)
    rcases head with head | head
    · exact (StatementStops.of_head trimmed.skipped' head (by decide)).toExprStops
    · exact (StatementStops.of_head trimmed.skipped' head (by decide)).toExprStops
  refine rule_seq (fun _ _ => trivial) (text_seq (by decide)
    ⟨fun _ _ aligned opens => stops aligned.toTrimmed opens.seq,
      ⟨text_seq (by decide) fun _ _ aligned opens => stops aligned.toTrimmed opens, ?_⟩,
      text _ (by decide)⟩)
  exact fun _ _ _ closing => transfers_of_rejects
    (.seq_first (.text_of_head rfl (closing.text_head rfl) (by decide)))

theorem assign : (Phrase.sequence [.rule .identifier, .optional (.rule .offset), .text "=",
    .rule .expr]).Suits Rule.follow ExprStops := by
  refine rule_seq (fun _ _ => trivial) ⟨⟨fun _ _ _ _ => trivial, ?_⟩,
    text_seq (by decide) fun _ _ _ known => known⟩
  exact fun _ _ _ sign => transfers_of_rejects
    (.rule rfl (.seq_first (.text_of_head rfl (sign.seq.text_head rfl) (by decide))))

theorem ifStmt : (Phrase.sequence [.text "if", .rule .expr, .rule .block,
    .optional elseTail]).Suits Rule.follow elseTail.Transfers := by
  have at_block : ∀ {behind : Pairs} {input other : List Char},
      (Phrase.rule .block).Opens behind input other →
      other.head? = some '\x7b' := fun block => (block.rule rfl).seq.text_head rfl
  refine text_seq (by decide) ⟨fun _ _ aligned block => ?_, fun _ _ _ _ => trivial,
    text_seq (by decide) ⟨fun _ _ _ known => known, fun _ _ _ _ => trivial,
      fun _ _ aligned block => ?_⟩, fun _ _ _ known => known⟩
  · exact (StatementStops.of_head aligned.skipped' (at_block block.seq) (by decide)).toExprStops
  · exact transfers_of_rejects (.rule rfl (.seq_first (.text_of_head rfl (at_block block)
      (by decide))))

theorem block : (Phrase.sequence [.text "\x7b", .many statement, .text "\x7d"]).Suits
    Rule.follow behind := by
  have stops : ∀ ⦃input other : List Char⦄, Trimmed input other →
      (Phrase.optional (.text ";")).Opens ((many statement).Opens ((Phrase.text "\x7d").Opens behind))
        input other → StatementStops input other := by
    intro input other trimmed opens
    rcases opens.optional trimmed with semicolon | more
    · exact .of_head trimmed.skipped' (semicolon.text_head rfl) (by decide)
    · exact Opens.statements_stop trimmed more
  refine text_seq (by decide) ⟨⟨⟨⟨fun _ _ aligned opens => ?_, fun _ _ aligned opens => ?_,
    fun _ _ aligned assign => ?_⟩, optional_text ";" (by decide)⟩, fun _ _ aligned closing => ?_⟩,
    text _ (by decide)⟩
  · exact (stops aligned.toTrimmed opens).other_side
  · exact (stops aligned.toTrimmed opens).toExprStops
  · exact transfers_of_rejects (assign.no_ifStmt aligned.toTrimmed)
  · exact transfers_of_rejects (.of_head (by decide) rfl aligned.skipped'
      (closing.text_head rfl) rfl)

end Suits

end Grammar.Phrase

end GridStencil
