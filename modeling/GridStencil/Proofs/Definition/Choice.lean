import GridStencil.Proofs.Definition.Expression

/-!
**Names that read as the rest of a conditional.**

The words of a conditional need no layout around them: `if1else2` is a name, and behind an
expression it is read as `if 1 else 2`. `ReadsAsChoice` tells such names by a pattern, and
`choiceTail_target` says that these are all: behind an expression, the target of an assignment is
read as the rest of a conditional exactly if its name is one of them.
-/

namespace GridStencil

open Grammar

/-- The start of an operand that is no call and has no brackets. -/
def Grammar.Pattern.operandStart : Pattern :=
  choice [digits, wholeWord "True", wholeWord "False", identifier]

/-- The word `if`, a number, the word `else` and the start of an operand, with nothing in
between. -/
def Grammar.Pattern.choiceWord : Pattern :=
  sequence [text "if", alt float digits, text "else", operandStart]

namespace Definition

/-- Whether a name reads as the rest of a conditional. -/
def ReadsAsChoice (name : String) : Prop :=
  (Pattern.choiceWord.scan (.ofText name)).isSome = true

instance (name : String) : Decidable (ReadsAsChoice name) :=
  inferInstanceAs (Decidable (_ = _))

theorem readsAsChoice_iff (name : String) :
    ReadsAsChoice name ↔ (Pattern.choiceWord.split name.toList).isSome = true := by
  rw [ReadsAsChoice, Pattern.scan_eq, Option.isSome_map]
  rfl

/-! ### Behind the name of a target -/

/-- What stands behind the name of a target: an offset or nothing, and then the sign of an
assignment. -/
inductive TargetEnd : List Char → Prop
  | plain (more : List Char) : TargetEnd (' ' :: '=' :: ' ' :: more)
  | offset {o : Offset} (written : WrittenOffset o) (more : List Char) :
      TargetEnd (o.render.toList ++ ' ' :: '=' :: ' ' :: more)

/-- Whether a text starts with the sign of an assignment, and not with a comparison. -/
def AtSign (rest : List Char) : Prop := ∃ more, rest = '=' :: more ∧ more.head? ≠ some '='

/-- What stands behind the name of a target in a source, with any layout: an offset or nothing, and
then the sign of an assignment. -/
inductive TargetRest : List Char → Prop
  | sign {behind : List Char} (sign : AtSign (skip behind)) : TargetRest behind
  | offset {behind more after : List Char} (skipped : skip behind = '[' :: more)
      (yields : (Phrase.rule .offset).Yields (skip behind) after (fun _ => True))
      (sign : AtSign (skip after)) : TargetRest behind

theorem TargetEnd.rest {behind : List Char} (target_end : TargetEnd behind) :
    TargetRest behind := by
  cases target_end with
  | plain more => exact .sign ⟨' ' :: more, rfl, by rintro ⟨⟩⟩
  | @offset o written more =>
    obtain ⟨rest, starts⟩ := offset_starts o (' ' :: '=' :: ' ' :: more)
    have skipped := skip_cons_solid (c := '[') rfl rest
    have yields := offset_yields written (' ' :: '=' :: ' ' :: more)
    rw [starts] at yields ⊢
    have some : (Phrase.rule .offset).Yields (skip ('[' :: rest)) (' ' :: '=' :: ' ' :: more)
        fun _ => True := by
      rw [skipped]
      exact yields.imp fun _ _ => trivial
    exact .offset skipped some ⟨' ' :: more, rfl, by rintro ⟨⟩⟩

theorem rejects_of_firstToken {rs : List Rule} {input : List Char}
    (tokens : ∀ r ∈ rs, ∃ pattern, r.body = .token pattern)
    (none_there : firstToken input rs = none) :
    (Phrase.choice (rs.map Phrase.rule)).Rejects input := by
  refine Phrase.Rejects.no_token fun r inside => ?_
  induction rs with
  | nil => cases inside
  | cons q qs ih =>
    obtain ⟨pattern, is_body⟩ := tokens q List.mem_cons_self
    rw [firstToken, is_body] at none_there
    cases split : pattern.split input with
    | some parts => simp [split] at none_there
    | none =>
      simp only [split] at none_there
      rcases List.mem_cons.mp inside with rfl | inside
      · exact ⟨pattern, is_body, split⟩
      · exact ih (fun r r_inside => tokens r (List.mem_cons_of_mem q r_inside)) none_there inside

theorem infixRules_tokens : ∀ r ∈ infixRules, ∃ pattern, r.body = .token pattern := by
  intro r inside
  simp only [infixRules, List.mem_cons, List.not_mem_nil, or_false] at inside
  rcases inside with rfl | rfl | rfl | rfl | rfl | rfl | rfl | rfl | rfl | rfl | rfl | rfl | rfl |
    rfl <;> exact ⟨_, rfl⟩

theorem primary_rejects {input : List Char}
    (starts : ∃ c cs, input = c :: cs ∧ Pattern.isDigit c = false ∧ c ≠ '.' ∧ c ≠ '(')
    (no_true : (Pattern.wholeWord "True").split input = none)
    (no_false : (Pattern.wholeWord "False").split input = none)
    (no_name : Pattern.identifier.split input = none) : Phrase.primary.Rejects input := by
  obtain ⟨c, cs, rfl, no_digit, no_point, no_bracket⟩ := starts
  have numbers := no_number (c :: cs) ⟨c, cs, rfl, no_digit, no_point⟩
  have no_identifier : (Phrase.rule .identifier).Rejects (c :: cs) := .rule_token rfl no_name
  refine Phrase.Rejects.choice ?_
  simp only [List.forall_mem_cons] at numbers ⊢
  refine ⟨numbers.1, numbers.2.1, .rule_token rfl no_true, .rule_token rfl no_false,
    .rule rfl (.seq_first no_identifier), .rule rfl (.seq_first no_identifier), no_identifier,
    .seq_first (.text rfl ?_), numbers.2.2⟩
  rintro ⟨⟩
  exact no_bracket rfl

namespace TargetRest

variable {behind : List Char}

/-- Behind layout stands the sign of the assignment or a bracket. -/
theorem skipped (target_rest : TargetRest behind) :
    AtSign (skip behind) ∨ ∃ more, skip behind = '[' :: more := by
  cases target_rest with
  | sign sign => exact .inl sign
  | offset skipped => exact .inr ⟨_, skipped⟩

theorem starts (target_rest : TargetRest behind) :
    ∃ c more, skip behind = c :: more ∧ (c = '=' ∨ c = '[') := by
  rcases target_rest.skipped with ⟨more, skipped, -⟩ | ⟨more, skipped⟩
  · exact ⟨'=', more, skipped, .inl rfl⟩
  · exact ⟨'[', more, skipped, .inr rfl⟩

theorem ends (target_rest : TargetRest behind) : EndsToken behind := by
  obtain ⟨c, more, skipped, rfl | rfl⟩ := target_rest.starts
  · exact endsToken_of_skip skipped rfl
  · exact endsToken_of_skip skipped rfl

/-- The sign of an assignment is no operator. -/
theorem infixOperator_rejects_sign {rest : List Char} (sign : AtSign rest) :
    Phrase.infixOperator.Rejects rest := by
  obtain ⟨more, rfl, single⟩ := sign
  cases more with
  | nil => exact rejects_of_firstToken infixRules_tokens rfl
  | cons c cs =>
    have differs : '=' ≠ c := fun same => single (by rw [← same]; rfl)
    refine rejects_of_firstToken infixRules_tokens ?_
    simp [firstToken, Rule.body, Pattern.text, Pattern.wholeWord, Pattern.split,
      List.isPrefixOf, differs]

/-- Neither an operator nor an operand starts there. -/
theorem rejects (target_rest : TargetRest behind) :
    Phrase.infixOperator.Rejects (skip behind) ∧ Phrase.prefixOperator.Rejects (skip behind) ∧
      Phrase.primary.Rejects (skip behind) := by
  rcases target_rest.skipped with sign | ⟨more, skipped⟩
  · refine ⟨infixOperator_rejects_sign sign, ?_⟩
    obtain ⟨more, skipped, -⟩ := sign
    rw [skipped]
    exact ⟨prefixOperator_rejects (by rintro ⟨⟩) (by rintro ⟨⟩) rfl,
      primary_rejects ⟨'=', _, rfl, rfl, by decide, by decide⟩ rfl rfl rfl⟩
  · rw [skipped]
    exact ⟨rejects_of_firstToken infixRules_tokens rfl,
      prefixOperator_rejects (by rintro ⟨⟩) (by rintro ⟨⟩) rfl,
      primary_rejects ⟨'[', _, rfl, rfl, by decide, by decide⟩ rfl rfl rfl⟩

theorem signed_rejects (target_rest : TargetRest behind) :
    Phrase.signed.Rejects (skip behind) := by
  obtain ⟨-, no_sign, no_operand⟩ := target_rest.rejects
  have none_more : (Phrase.many Phrase.prefixOperator).Resumes (skip behind) (skip behind)
      (· = []) := .many_nil (by rw [skip_skip]; exact no_sign) rfl
  exact .seq_second none_more.yields (by rw [skip_skip]; exact no_operand)

theorem not_text (target_rest : TargetRest behind) {w : String} {first : Char} {more : List Char}
    (starts : w.toList = first :: more) (no_sign : first ≠ '=') (no_bracket : first ≠ '[') :
    (Phrase.text w).Rejects (skip behind) := by
  obtain ⟨c, rest, skipped, is_start⟩ := target_rest.starts
  refine .text starts fun head => ?_
  rw [skipped] at head
  obtain rfl : c = first := Option.some.inj head
  exact is_start.elim no_sign no_bracket

end TargetRest

/-! ### Words in front of the end of a target -/

section Words

variable {word behind : List Char}

theorem skip_word (behind : List Char) (all : ∀ c ∈ word, Pattern.isNameChar c = true)
    (nonempty : word ≠ []) :
    skip (word ++ behind) = word ++ behind := by
  cases word with
  | nil => exact absurd rfl nonempty
  | cons c cs =>
    exact skip_cons_solid (isSolid_of_isNameChar (all c List.mem_cons_self)) _

/-- Behind a number or a name that a word starts with, no operator goes on. -/
theorem others_word (target_rest : TargetRest behind)
    (all : ∀ c ∈ word, Pattern.isNameChar c = true) :
    Phrase.others.Resumes (word ++ behind) (word ++ behind) (SpellsRow []) := by
  refine .many_nil ?_ SpellsRow.nil
  by_cases nonempty : word = []
  · subst nonempty
    exact .seq_first target_rest.rejects.1
  · rw [skip_word behind all nonempty]
    have no_symbol : ∀ c ∈ symbolStarts, (word ++ behind).head? ≠ some c := by
      intro c inside head
      cases word with
      | nil => exact nonempty rfl
      | cons d ds =>
        obtain rfl : d = c := Option.some.inj head
        exact not_symbolStart_of_isNameChar (all d List.mem_cons_self) inside
    have word_operator : ∀ (r : Rule) (w : String),
        firstToken (word ++ behind) infixRules = some (r, w.toList, behind) →
        (Phrase.seq Phrase.infixOperator Phrase.signed).Rejects (word ++ behind) := by
      intro r w found
      have yields : Phrase.infixOperator.Yields (word ++ behind) behind (fun _ => True) :=
        Phrase.Yields.first_token found fun _ => trivial
      exact .seq_second yields target_rest.signed_rejects
    by_cases is_and : word = "and".toList
    · refine word_operator .andOp "and" ?_
      rw [is_and]
      have split := Pattern.split_wholeWord "and" target_rest.ends
      show firstToken ("and".toList ++ behind) [.andOp, .orOp] = _
      simp only [firstToken, Rule.body, split]
    · by_cases is_or : word = "or".toList
      · refine word_operator .orOp "or" ?_
        rw [is_or]
        have split := Pattern.split_wholeWord "or" target_rest.ends
        show firstToken ("or".toList ++ behind) [.orOp] = _
        simp only [firstToken, Rule.body, split]
      · exact .seq_first (infixOperator_rejects no_symbol
          (Pattern.split_wholeWord_none all rfl is_and target_rest.ends)
          (Pattern.split_wholeWord_none all rfl is_or target_rest.ends))

/-- Whether nodes are a single one. -/
def OneNode (nodes : List Node) : Prop := ∃ node, nodes = [node]

/-- An operand that nothing is joined to is a row. -/
theorem arith_of_primary {input rest : List Char} {meaning : List Node → Prop}
    (no_sign : Phrase.prefixOperator.Rejects (skip input))
    (yields : Phrase.primary.Yields (skip input) rest meaning)
    (no_others : Phrase.others.Resumes rest rest (SpellsRow [])) :
    (Phrase.rule .arith).Yields (skip input) rest OneNode := by
  have no_signs : (Phrase.many Phrase.prefixOperator).Resumes (skip input) (skip input)
      (· = []) := .many_nil (by rw [skip_skip]; exact no_sign) rfl
  exact .rule rfl (no_signs.yields.next (skip_skip input) (yields.next rfl no_others.yields_skip))
    fun span nodes _ => ⟨_, rfl⟩

theorem arith_rejects {input : List Char} (no_sign : Phrase.prefixOperator.Rejects (skip input))
    (no_operand : Phrase.primary.Rejects (skip input)) :
    (Phrase.rule .arith).Rejects (skip input) := by
  have no_signs : (Phrase.many Phrase.prefixOperator).Resumes (skip input) (skip input)
      (· = []) := .many_nil (by rw [skip_skip]; exact no_sign) rfl
  exact .rule rfl (.seq_second no_signs.yields (.seq_first (by rw [skip_skip]; exact no_operand)))

/-- A word that starts with a number is read up to where the number ends. -/
theorem arith_number (target_rest : TargetRest behind)
    (all : ∀ c ∈ word, Pattern.isNameChar c = true) {number left : List Char}
    (split : (Pattern.alt .float .digits).split word = some (number, left)) :
    (Phrase.rule .arith).Yields (skip (word ++ behind)) (left ++ behind) OneNode := by
  have ends := target_rest.ends
  have word_eq := Pattern.append_of_split split
  have left_all : ∀ c ∈ left, Pattern.isNameChar c = true := fun c inside =>
    all c (by rw [word_eq]; exact List.mem_append_right _ inside)
  have float_avoids : Pattern.float.AvoidsHead behind := fun c head =>
    Pattern.float_avoids (ends c head)
  have digits_avoids : Pattern.digits.AvoidsHead behind := fun c head =>
    Pattern.digits_avoids (not_isNameChar_of_endsToken (ends c head))
  have is_number : Pattern.float.split word = some (number, left) ∨
      (Pattern.float.split word = none ∧ Pattern.digits.split word = some (number, left)) :=
    Option.or_eq_some_iff.mp split
  have starts : ∃ c cs, word = c :: cs ∧ (Pattern.isDigit c = true ∨ c = '.') :=
    Pattern.number_starts (is_number.imp id And.right)
  obtain ⟨c, cs, chars, first⟩ := starts
  have nonempty : word ≠ [] := by
    rw [chars]
    exact List.cons_ne_nil c cs
  have no_sign : Phrase.prefixOperator.Rejects (word ++ behind) := by
    rw [chars]
    exact prefixOperator_rejects_number first _
  have yields : Phrase.primary.Yields (word ++ behind) (left ++ behind) (fun _ => True) := by
    rcases is_number with float | ⟨no_float, digits⟩
    · have here := Pattern.split_append float_avoids word
      rw [float] at here
      exact .alt_first (.rule_token rfl here fun _ => trivial)
    · have not_here := Pattern.split_append float_avoids word
      have here := Pattern.split_append digits_avoids word
      rw [no_float] at not_here
      rw [digits] at here
      exact .alt_second (.rule_token rfl not_here)
        (.alt_first (.rule_token rfl here fun _ => trivial))
  have skipped := skip_word behind all nonempty
  exact arith_of_primary (by rw [skipped]; exact no_sign) (by rw [skipped]; exact yields)
    (others_word target_rest left_all)

/-- Whether a word is an operand without being a number. -/
def IsOperand (word : List Char) : Prop :=
  word = "True".toList ∨ word = "False".toList ∨ IsName (String.ofList word)

/-- A word that is an operand is read in full, and its offset with it. -/
theorem arith_operand (target_rest : TargetRest behind) (operand : IsOperand word) :
    ∃ left, TargetRest left ∧
      (Phrase.rule .arith).Yields (skip (word ++ behind)) left OneNode := by
  have ends := target_rest.ends
  have nothing : ∀ c ∈ ([] : List Char), Pattern.isNameChar c = true := by
    rintro c ⟨⟩
  have stops : ∀ {left}, TargetRest left → Phrase.others.Resumes left left (SpellsRow []) :=
    fun left_rest => others_word left_rest nothing
  rcases operand with rfl | rfl | is_name
  · have skipped : skip ("True".toList ++ behind) = "True".toList ++ behind :=
      skip_cons_solid rfl _
    exact ⟨behind, target_rest, arith_of_primary
      (by rw [skipped]; exact prefixOperator_rejects (by rintro ⟨⟩) (by rintro ⟨⟩) rfl)
      (by rw [skipped]; exact primary_yields_bool true noSpan ends) (stops target_rest)⟩
  · have skipped : skip ("False".toList ++ behind) = "False".toList ++ behind :=
      skip_cons_solid rfl _
    exact ⟨behind, target_rest, arith_of_primary
      (by rw [skipped]; exact prefixOperator_rejects (by rintro ⟨⟩) (by rintro ⟨⟩) rfl)
      (by rw [skipped]; exact primary_yields_bool false noSpan ends) (stops target_rest)⟩
  · have solid := is_name.solid
    have no_sign := prefixOperator_rejects_name is_name ends
    rw [String.toList_ofList] at solid no_sign
    cases id target_rest with
    | sign sign =>
      obtain ⟨more, skipped, -⟩ := sign
      have boundary : Boundary behind := by
        refine ⟨ends, ?_, ?_⟩ <;> rw [skipped] <;> rintro ⟨⟩
      have yields := primary_yields_name is_name noSpan boundary
      rw [String.toList_ofList] at yields
      exact ⟨behind, target_rest, arith_of_primary (by rw [solid.skip]; exact no_sign)
        (by rw [solid.skip]; exact yields) (stops target_rest)⟩
    | @offset _ after skipped offset sign =>
      have yields := primary_yields_at is_name ends (by rw [skipped]; rintro ⟨⟩) offset
      rw [String.toList_ofList] at yields
      exact ⟨after, .sign sign, arith_of_primary (by rw [solid.skip]; exact no_sign)
        (by rw [solid.skip]; exact yields) (stops (.sign sign))⟩

/-- A name that a word starts with is all of the word. -/
theorem isName_of_split (all : ∀ c ∈ word, Pattern.isNameChar c = true)
    {parts : List Char × List Char} (split : Pattern.identifier.split word = some parts) :
    IsName (String.ofList word) := by
  obtain ⟨taken, left⟩ := parts
  have stops := (Pattern.identifier_split split).2.2
  have is_name := IsName.of_split split
  have word_eq := Pattern.append_of_split split
  cases left with
  | nil =>
    rw [word_eq, List.append_nil]
    exact is_name
  | cons c cs =>
    have outside := stops c rfl
    rw [all c (by simp [word_eq])] at outside
    cases outside

/-- No primary expression starts with a word that is neither a number nor another operand. -/
theorem primary_no_operand (ends : EndsToken behind)
    (all : ∀ c ∈ word, Pattern.isNameChar c = true) (nonempty : word ≠ [])
    (no_number : (Pattern.alt .float .digits).split word = none) (no_operand : ¬ IsOperand word) :
    Phrase.primary.Rejects (word ++ behind) := by
  rw [IsOperand, not_or, not_or] at no_operand
  obtain ⟨not_true, not_false, not_name⟩ := no_operand
  have no_name : Pattern.identifier.split (word ++ behind) = none := by
    have avoids : Pattern.identifier.AvoidsHead behind := fun c head =>
      Pattern.identifier_avoids (not_isNameChar_of_endsToken (ends c head))
    rw [Pattern.split_append avoids, Option.map_eq_none_iff]
    cases split : Pattern.identifier.split word with
    | none => rfl
    | some parts =>
      exact absurd (isName_of_split all split) not_name
  obtain ⟨c, cs, rfl⟩ := List.exists_cons_of_ne_nil nonempty
  have no_digit : Pattern.isDigit c = false := by
    have no_digits : Pattern.digits.split (c :: cs) = none := (Option.or_eq_none_iff.mp no_number).2
    cases digit : Pattern.isDigit c with
    | false => rfl
    | true => simp [Pattern.digits, Pattern.split, digit] at no_digits
  have inside := all c List.mem_cons_self
  have differs : ∀ d : Char, Pattern.isNameChar d = false → c ≠ d := by
    rintro d outside rfl
    rw [inside] at outside
    cases outside
  exact primary_rejects ⟨c, cs ++ behind, rfl, no_digit, differs '.' rfl, differs '(' rfl⟩
    (Pattern.split_wholeWord_none all rfl not_true ends)
    (Pattern.split_wholeWord_none all rfl not_false ends) no_name

/-- Behind a `not`, the operand is missing. -/
theorem arith_not (target_rest : TargetRest behind) :
    (Phrase.rule .arith).Rejects ("not".toList ++ behind) := by
  obtain ⟨-, no_sign_behind, no_primary_behind⟩ := target_rest.rejects
  have found : firstToken ("not".toList ++ behind) [.neg, .pos, .notOp] =
      some (.notOp, "not".toList, behind) := by
    have split := Pattern.split_wholeWord "not" target_rest.ends
    show firstToken ("not".toList ++ behind) [.notOp] = _
    simp only [firstToken, Rule.body, split]
  have sign : Phrase.prefixOperator.Yields ("not".toList ++ behind) behind (fun _ => True) :=
    Phrase.Yields.first_token found fun _ => trivial
  have no_more : (Phrase.many Phrase.prefixOperator).Resumes behind behind (· = []) :=
    .many_nil no_sign_behind rfl
  have signs : (Phrase.many Phrase.prefixOperator).Resumes ("not".toList ++ behind) behind
      (fun _ => True) := .many_cons sign no_more fun _ _ _ _ => trivial
  exact .rule rfl (.seq_second signs.yields_skip (.seq_first no_primary_behind))

/-- No operand starts with another word. -/
theorem arith_no_operand (target_rest : TargetRest behind)
    (all : ∀ c ∈ word, Pattern.isNameChar c = true)
    (no_number : (Pattern.alt .float .digits).split word = none) (no_operand : ¬ IsOperand word) :
    (Phrase.rule .arith).Rejects (skip (word ++ behind)) := by
  have ends := target_rest.ends
  by_cases nonempty : word = []
  · subst nonempty
    obtain ⟨-, no_sign_behind, no_primary_behind⟩ := target_rest.rejects
    exact arith_rejects no_sign_behind no_primary_behind
  have skipped := skip_word behind all nonempty
  by_cases is_not : word = "not".toList
  · rw [skipped, is_not]
    exact arith_not target_rest
  · have no_symbol : ∀ d : Char, Pattern.isNameChar d = false →
        (word ++ behind).head? ≠ some d := by
      intro d outside head
      cases word with
      | nil => exact nonempty rfl
      | cons c cs =>
        obtain rfl : c = d := Option.some.inj head
        rw [all c List.mem_cons_self] at outside
        cases outside
    have no_primary := primary_no_operand ends all nonempty no_number no_operand
    refine arith_rejects ?_ (by rw [skipped]; exact no_primary)
    rw [skipped]
    exact prefixOperator_rejects (no_symbol '-' rfl) (no_symbol '+' rfl)
      (Pattern.split_wholeWord_none all rfl is_not ends)

/-- What operands start with, number or not. -/
theorem operandStart_isSome_iff (all : ∀ c ∈ word, Pattern.isNameChar c = true) :
    (Pattern.operandStart.split word).isSome = true ↔
      ((Pattern.alt .float .digits).split word).isSome = true ∨ IsOperand word := by
  have whole : ∀ w : String, w.toList.all Pattern.isNameChar = true →
      ((Pattern.wholeWord w).split word).isSome = true → word = w.toList := by
    intro w letters found
    by_cases same : word = w.toList
    · exact same
    · have none_there := Pattern.split_wholeWord_none all letters same endsToken_nil
      rw [List.append_nil] at none_there
      rw [none_there] at found
      cases found
  have whole_self : ∀ w : String, ((Pattern.wholeWord w).split w.toList).isSome = true := by
    intro w
    have split := Pattern.split_wholeWord w endsToken_nil
    rw [List.append_nil] at split
    rw [split]
    rfl
  simp only [Pattern.operandStart, Pattern.choice, Pattern.split, Option.isSome_or,
    Bool.or_eq_true, IsOperand]
  constructor
  · rintro (digits | is_true | is_false | is_name)
    · exact .inl (.inr digits)
    · exact .inr (.inl (whole "True" rfl is_true))
    · exact .inr (.inr (.inl (whole "False" rfl is_false)))
    · obtain ⟨parts, split⟩ := Option.isSome_iff_exists.mp is_name
      exact .inr (.inr (.inr (isName_of_split all split)))
  · rintro ((float | digits) | rfl | rfl | is_name)
    · obtain ⟨parts, split⟩ := Option.isSome_iff_exists.mp float
      obtain ⟨c, cs, rfl, digit | rfl⟩ := Pattern.number_starts (.inl split)
      · refine .inl ?_
        simp [Pattern.digits, Pattern.split, digit]
      · exact absurd (all '.' List.mem_cons_self) (by decide)
    · exact .inl digits
    · exact .inr (.inl (whole_self "True"))
    · exact .inr (.inr (.inl (whole_self "False")))
    · refine .inr (.inr (.inr ?_))
      have split : Pattern.identifier.split _ = _ := is_name
      rw [String.toList_ofList] at split
      rw [split]
      rfl

/-- Whether nodes are two. -/
def TwoNodes (nodes : List Node) : Prop := ∃ first second, nodes = [first, second]

/-- Where reading may stop in a target: inside its name or behind it. -/
def InTarget (rest : List Char) : Prop :=
  ∃ word behind, rest = word ++ behind ∧ (∀ c ∈ word, Pattern.isNameChar c = true) ∧
    TargetRest behind

/-- The rest of a conditional is read at a word exactly if the word starts like one. -/
def ChoiceAt (word behind : List Char) : Prop :=
  ((Pattern.choiceWord.split word).isSome = true ∧
      ∃ after, InTarget after ∧
        Phrase.choiceTail.Yields (skip (word ++ behind)) after TwoNodes) ∨
    (Pattern.choiceWord.split word = none ∧
      Phrase.choiceTail.Rejects (skip (word ++ behind)))

/-- An expression is read at a word exactly if the word starts like an operand. -/
theorem expr_word (target_rest : TargetRest behind)
    (all : ∀ c ∈ word, Pattern.isNameChar c = true)
    (shorter : ∀ left behind, TargetRest behind → (∀ c ∈ left, Pattern.isNameChar c = true) →
      left.length < word.length → ChoiceAt left behind) :
    ((Pattern.operandStart.split word).isSome = true ∧
        ∃ after, InTarget after ∧
          (Phrase.rule .expr).Yields (skip (word ++ behind)) after OneNode) ∨
      (Pattern.operandStart.split word = none ∧
        (Phrase.rule .expr).Rejects (skip (word ++ behind))) := by
  have finish : ∀ {left behind'}, InTarget (left ++ behind') → ChoiceAt left behind' →
      (Phrase.rule .arith).Yields (skip (word ++ behind)) (left ++ behind') OneNode →
      ∃ after, InTarget after ∧
        (Phrase.rule .expr).Yields (skip (word ++ behind)) after OneNode := by
    rintro left behind' stops (⟨-, after, later, choice⟩ | ⟨-, no_choice⟩) first
    · exact ⟨after, later,
        .rule rfl (first.next rfl choice.optional_some) fun _ _ _ => ⟨_, rfl⟩⟩
    · have nothing : (Phrase.optional Phrase.choiceTail).Yields _ _ (· = []) :=
        .optional_none no_choice rfl
      exact ⟨_, stops, .rule rfl (first.next rfl (nothing.congr (skip_skip _)))
        fun _ _ _ => ⟨_, rfl⟩⟩
  have starts := operandStart_isSome_iff all
  cases number : (Pattern.alt .float .digits).split word with
  | some parts =>
    obtain ⟨digits, left⟩ := parts
    have first := arith_number target_rest all number
    have left_all : ∀ c ∈ left, Pattern.isNameChar c = true := fun c inside =>
      all c (by rw [Pattern.append_of_split number]; exact List.mem_append_right _ inside)
    have left_shorter : left.length < word.length := Pattern.shorter_of_split number rfl
    exact .inl ⟨starts.mpr (.inl (by rw [number]; rfl)),
      finish ⟨left, behind, rfl, left_all, target_rest⟩
        (shorter left behind target_rest left_all left_shorter) first⟩
  | none =>
    by_cases operand : IsOperand word
    · obtain ⟨left, left_rest, first⟩ := arith_operand target_rest operand
      have nonempty : word ≠ [] := by
        rintro rfl
        rcases operand with empty | empty | empty
        · cases empty
        · cases empty
        · exact absurd empty (by decide)
      have no_chars : ∀ c ∈ ([] : List Char), Pattern.isNameChar c = true := by
        rintro c ⟨⟩
      exact .inl ⟨starts.mpr (.inr operand),
        finish ⟨[], left, rfl, no_chars, left_rest⟩
          (shorter [] left left_rest no_chars (List.length_pos_iff.mpr nonempty)) first⟩
    · refine .inr ⟨?_, .rule rfl (.seq_first (arith_no_operand target_rest all number operand))⟩
      refine Option.not_isSome_iff_eq_none.mp fun found => ?_
      rcases starts.mp found with some_number | some_operand
      · rw [number] at some_number
        cases some_number
      · exact operand some_operand

/-- A fixed text is read at a word exactly if the word starts with it. -/
theorem text_word (target_rest : TargetRest behind) (all : ∀ c ∈ word, Pattern.isNameChar c = true)
    {w : String} {first : Char} {more : List Char} (starts : w.toList = first :: more)
    (letters : w.toList.all Pattern.isNameChar = true) :
    (∃ taken left, (Pattern.text w).split word = some (taken, left) ∧
        (Phrase.text w).Yields (skip (word ++ behind)) (left ++ behind) (· = [])) ∨
      ((Pattern.text w).split word = none ∧ (Phrase.text w).Rejects (skip (word ++ behind))) := by
  have letter : Pattern.isNameChar first = true :=
    List.all_eq_true.mp letters first (by simp [starts])
  by_cases nonempty : word = []
  · subst nonempty
    have differs : ∀ {c : Char}, Pattern.isNameChar c = false → first ≠ c := by
      rintro _ outside rfl
      rw [letter] at outside
      cases outside
    exact .inr ⟨Pattern.split_text_none starts (by rintro ⟨⟩),
      target_rest.not_text starts (differs rfl) (differs rfl)⟩
  · have avoids : (Pattern.text w).AvoidsHead behind := fun c head =>
      Pattern.text_avoids_of_all letters (not_isNameChar_of_endsToken (target_rest.ends c head))
    have here := Pattern.split_append avoids word
    rw [skip_word behind all nonempty]
    cases split : (Pattern.text w).split word with
    | none =>
      rw [split] at here
      exact .inr ⟨rfl, .token here⟩
    | some parts =>
      rw [split] at here
      exact .inl ⟨parts.1, parts.2, rfl, .token here rfl⟩

theorem choiceAt (target_rest : TargetRest behind)
    (all : ∀ c ∈ word, Pattern.isNameChar c = true) : ChoiceAt word behind := by
  -- The operand behind `else` may end in another such word, which is shorter.
  induction size : word.length using Nat.strongRecOn generalizing word behind with
  | ind n ih =>
    subst size
    have inside : ∀ {p : Pattern} {input taken left : List Char},
        p.split input = some (taken, left) → (∀ c ∈ input, Pattern.isNameChar c = true) →
        ∀ c ∈ left, Pattern.isNameChar c = true :=
      fun split all c there =>
        all c (by rw [Pattern.append_of_split split]; exact List.mem_append_right _ there)
    simp only [ChoiceAt, Pattern.choiceWord, Pattern.sequence]
    rw [Pattern.split]
    rcases text_word target_rest all (w := "if") rfl rfl with
      ⟨_, operand, if_split, if_yields⟩ | ⟨if_split, if_rejects⟩
    · have operand_all := inside if_split all
      rw [if_split, Option.bind_some, Pattern.split]
      cases number : (Pattern.alt .float .digits).split operand with
      | none =>
        rw [Option.bind_none, Option.map_none]
        refine .inr ⟨rfl, .seq_second if_yields ?_⟩
        by_cases is_operand : IsOperand operand
        · obtain ⟨left, left_rest, first⟩ := arith_operand target_rest is_operand
          exact .seq_second first (.seq_first (left_rest.not_text rfl (by decide) (by decide)))
        · exact .seq_first (arith_no_operand target_rest operand_all number is_operand)
      | some parts =>
        obtain ⟨digits, left⟩ := parts
        have left_all := inside number operand_all
        have first := arith_number target_rest operand_all number
        rw [Option.bind_some, Pattern.split]
        rcases text_word target_rest left_all (w := "else") rfl rfl with
          ⟨_, last, else_split, else_yields⟩ | ⟨else_split, else_rejects⟩
        · have last_all := inside else_split left_all
          have last_shorter : last.length < word.length := by
            have if_shorter := (Pattern.suffix_of_split if_split).length_le
            have number_shorter := (Pattern.suffix_of_split number).length_le
            have else_shorter := Pattern.shorter_of_split else_split rfl
            dsimp only at if_shorter number_shorter else_shorter
            omega
          rw [else_split, Option.bind_some]
          rcases expr_word target_rest last_all fun left behind left_rest left_all shorter =>
              ih left.length (by omega) left_rest left_all rfl with
            ⟨starts, after, stops, expr⟩ | ⟨starts, no_expr⟩
          · obtain ⟨start, start_eq⟩ := Option.isSome_iff_exists.mp starts
            rw [start_eq]
            refine .inl ⟨rfl, after, stops, (if_yields.next rfl (first.next rfl
              (else_yields.next rfl expr))).imp ?_⟩
            rintro _ ⟨_, _, rfl, rfl, _, _, rfl, ⟨condition, rfl⟩, _, _, rfl, rfl, other, rfl⟩
            exact ⟨condition, other, rfl⟩
          · rw [starts]
            exact .inr ⟨rfl, .seq_second if_yields (.seq_second first
              (.seq_second else_yields no_expr))⟩
        · rw [else_split]
          exact .inr ⟨rfl, .seq_second if_yields (.seq_second first (.seq_first else_rejects))⟩
    · rw [if_split]
      exact .inr ⟨rfl, .seq_first if_rejects⟩

/-- No block starts in a target. -/
theorem block_rejects_target {rest : List Char} (inside : InTarget rest) :
    (Phrase.rule .block).Rejects (skip rest) := by
  obtain ⟨word, behind, rfl, all, target_rest⟩ := inside
  refine .rule rfl (.seq_first ?_)
  by_cases nonempty : word = []
  · subst nonempty
    exact target_rest.not_text rfl (by decide) (by decide)
  · rw [skip_word behind all nonempty]
    obtain ⟨c, cs, rfl⟩ := List.exists_cons_of_ne_nil nonempty
    refine .text rfl fun head => ?_
    obtain rfl : c = '\x7b' := Option.some.inj head
    exact absurd (all _ List.mem_cons_self) (by decide)

/-- A word of a target is not taken for the condition of a statement. -/
theorem ifStmt_rejects_word (target_rest : TargetRest behind)
    (all : ∀ c ∈ word, Pattern.isNameChar c = true) :
    (Phrase.rule .ifStmt).Rejects (skip (word ++ behind)) := by
  refine .rule rfl ?_
  rcases text_word target_rest all (w := "if") rfl rfl with
    ⟨_, condition, split, if_yields⟩ | ⟨-, if_rejects⟩
  · have condition_all : ∀ c ∈ condition, Pattern.isNameChar c = true := fun c there =>
      all c (by rw [Pattern.append_of_split split]; exact List.mem_append_right _ there)
    rcases expr_word target_rest condition_all fun _ _ left_rest left_all _ =>
        choiceAt left_rest left_all with ⟨-, after, stops, expr⟩ | ⟨-, no_expr⟩
    · exact .seq_second if_yields (.seq_second expr (.seq_first (block_rejects_target stops)))
    · exact .seq_second if_yields (.seq_first no_expr)
  · exact .seq_first if_rejects

/-- A word of a target is not taken for the other side of a statement with a condition. -/
theorem elseTail_rejects_word (target_rest : TargetRest behind)
    (all : ∀ c ∈ word, Pattern.isNameChar c = true) :
    Phrase.elseTail.Rejects (skip (word ++ behind)) := by
  rcases text_word target_rest all (w := "else") rfl rfl with
    ⟨_, side, split, else_yields⟩ | ⟨-, else_rejects⟩
  · have side_all : ∀ c ∈ side, Pattern.isNameChar c = true := fun c there =>
      all c (by rw [Pattern.append_of_split split]; exact List.mem_append_right _ there)
    exact .seq_second else_yields (.alt (ifStmt_rejects_word target_rest side_all)
      (block_rejects_target ⟨side, behind, rfl, side_all, target_rest⟩))
  · exact .seq_first else_rejects

end Words

/-- Behind an expression, the target of an assignment is read as the rest of a conditional exactly
if its name reads as one. -/
theorem choiceTail_target {name : String} {behind : List Char} (is_name : IsName name)
    (target_rest : TargetRest behind) :
    (ReadsAsChoice name ∧
        ∃ after, Phrase.choiceTail.Yields (name.toList ++ behind) after TwoNodes) ∨
      (¬ ReadsAsChoice name ∧ Phrase.choiceTail.Rejects (name.toList ++ behind)) := by
  have at_word := choiceAt target_rest is_name.all
  rw [ChoiceAt, is_name.solid.skip] at at_word
  rw [readsAsChoice_iff]
  rcases at_word with ⟨starts, after, -, choice⟩ | ⟨none_there, rejects⟩
  · exact .inl ⟨starts, after, choice⟩
  · exact .inr ⟨by simp [none_there], rejects⟩

example : ReadsAsChoice "if1else2" ∧ ¬ ReadsAsChoice "if_else" := by decide +kernel

end Definition

end GridStencil
