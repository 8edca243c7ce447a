import GridStencil.Proofs.Definition.Follow

/-!
**Every rule suits what stands behind it.**

The lists of a definition (its parameters, its external values, the blocks and intervals of its
computations) end where their separator does not stand, and the lists behind them start with
characters of their own. With the expressions and statements of `Phrase.Suits.arith` and the others,
this makes `Rule.suits_body`: every rule of the grammar reads a text and the same text with more
layout in step, in front of what stands behind it.
-/

namespace GridStencil.Grammar

variable {input other : List Char} {behind : Pairs}

/-- Where a bracket stands behind the word of fields, read as the name of a type, it stands behind
this name. -/
theorem Pattern.head_of_field {text field left taken after : List Char}
    (word : (Pattern.text "Field").split text = some (field, left))
    (split : elementType.split text = some (taken, after)) (bracket : (skip left).head? = some '[') :
    (skip after).head? = some '[' := by
  obtain rfl := eq_of_split_text word
  have after_eq : left.dropWhile isNameChar = after :=
    congrArg Prod.snd (Option.some.inj split)
  subst after_eq
  cases left with
  | nil => exact bracket
  | cons c cs =>
    cases inside : isNameChar c with
    | false => rwa [List.dropWhile_cons, inside]
    | true =>
      rw [skip_cons_solid (isSolid_of_isNameChar inside)] at bracket
      obtain rfl : c = '[' := Option.some.inj bracket
      exact absurd inside (by decide)

theorem Pattern.eq_nil_of_endOfInput {input : List Char} {parts : List Char × List Char}
    (split : endOfInput.split input = some parts) : input = [] := by
  cases input with
  | nil => rfl
  | cons c cs => simp [endOfInput, Pattern.split] at split

namespace Phrase

/-! ### Intervals and computations -/

namespace Suits

theorem intervalDef : (Phrase.sequence [.text "interval", .text "(", .rule .intervalRange,
    .text ")", .rule .block]).Suits Rule.follow behind :=
  text_seq (by decide) (text_seq (by decide) (rule_seq (fun _ _ => trivial)
    (text_seq (by decide) fun _ _ _ _ => trivial)))

/-- Intervals go on up to the end of their block. -/
theorem intervals : (Phrase.sequence [.text "\x7b", .many (.rule .intervalDef),
    .text "\x7d"]).Suits Rule.follow behind := by
  refine text_seq (by decide) ⟨⟨fun _ _ _ _ => trivial, fun _ _ aligned closing => ?_⟩,
    text _ (by decide)⟩
  exact transfers_of_rejects (.of_head (by decide) rfl aligned.skipped'
    (closing.text_head rfl) rfl)

theorem computation : (Phrase.sequence [.text "with", .text "computation", .text "(",
    .rule .identifier, .text ")", .alt (.seq (.text ",") (.rule .intervalDef))
      (.sequence [.text "\x7b", .many (.rule .intervalDef), .text "\x7d"])]).Suits
        Rule.follow behind := by
  refine text_seq (by decide) (text_seq (by decide) (text_seq (by decide)
    (rule_seq (fun _ _ => trivial) (text_seq (by decide)
      ⟨text_seq (by decide) fun _ _ _ _ => trivial, intervals, fun _ _ _ block => ?_⟩))))
  exact transfers_of_rejects
    (.seq_first (.text_of_head rfl (block.seq.text_head rfl) (by decide)))

theorem computations : (Phrase.many (.rule .computation)).Suits Rule.follow
    (Rule.follow .computations) :=
  ⟨fun _ _ _ _ => trivial, fun _ _ aligned closing => transfers_of_rejects
    (.of_head (by decide) rfl aligned.skipped' closing rfl)⟩

/-! ### External values -/

theorem externals : (Phrase.many (.sequence [.text "externals", .rule .identifier,
    .many (.seq (.text ",") (.rule .identifier)), .optional (.text ";")])).Suits Rule.follow
      (Rule.follow .externals) := by
  refine ⟨text_seq (by decide) (rule_seq (fun _ _ => trivial) ⟨⟨text_seq (by decide)
    fun _ _ _ _ => trivial, fun _ _ aligned opens => ?_⟩, optional_text ";" (by decide)⟩),
    fun _ _ aligned closing => transfers_of_rejects ?_⟩
  · have no_comma : ∀ {d : Char} {input : List Char}, input.head? = some d → d ≠ ',' →
        (Phrase.text ",").Rejects input := fun head => .text_of_head rfl head
    refine transfers_of_rejects (.seq_first ?_)
    rcases opens.optional aligned.toTrimmed with semicolon | more
    · exact no_comma (semicolon.text_head rfl) (by decide)
    rcases more.many aligned.toTrimmed with item | computation | closing
    · exact no_comma (item.seq.text_head rfl) (by decide)
    · exact no_comma computation (by decide)
    · exact no_comma closing (by decide)
  · rcases closing with computation | closing
    · exact .seq_first (.text_of_head rfl computation (by decide))
    · exact .seq_first (.text_of_head rfl closing (by decide))

/-! ### Parameters -/

theorem fieldParam : (Phrase.sequence [.rule .identifier, .text ":", .text "Field", .text "[",
    .rule .elementType, .optional (.seq (.text ",") (.alt (.rule .dimsIjk) (.rule .dimsZero))),
    .text "]"]).Suits Rule.follow behind := by
  refine rule_seq (fun _ _ => trivial) (text_seq (by decide) (text_seq (by decide)
    (text_seq (by decide) (rule_seq (fun _ _ => trivial) ⟨⟨text_seq (by decide)
      (tokens_or [.dimsIjk] Rule.follow_of_token rfl fun _ _ _ _ => trivial),
      fun _ _ _ closing => ?_⟩, text _ (by decide)⟩))))
  exact transfers_of_rejects (.seq_first (.text_of_head rfl (closing.text_head rfl) (by decide)))

/-- A parameter is not taken for a field unless a bracket stands behind its type. -/
theorem parameter (stops : ∀ ⦃input other⦄, Trimmed input other → behind input other →
    other.head? ≠ some '[') : parameter.Suits Rule.follow behind := by
  refine tokens_or [.kwStar] Rule.follow_of_token rfl
    ⟨fun _ _ _ _ => trivial, fun _ _ aligned known => stops aligned.toTrimmed known,
      fun input other aligned opens => transfers_of_rejects (.rule rfl ?_)⟩
  obtain ⟨name, rest, name_split, _, tail⟩ := (opens.rule rfl).name
  obtain ⟨_, rest', -, colon, tail⟩ := tail.seq.text rfl
  obtain ⟨_, _, after, -, type_split, known⟩ := tail.rule_token rfl
  have name_yields : (Phrase.rule .identifier).Yields other rest (fun _ => True) :=
    .rule_token rfl name_split fun _ => trivial
  have colon_yields : (Phrase.text ":").Yields (skip rest) rest' (· = []) := by
    rw [colon]
    exact .text ":" rest'
  refine .seq_second name_yields (.seq_second colon_yields ?_)
  cases word : (Pattern.text "Field").split (skip rest') with
  | none => exact .seq_first (.token word)
  | some parts =>
    obtain ⟨field, left⟩ := parts
    have field_yields : (Phrase.text "Field").Yields (skip rest') left (· = []) := .token word rfl
    refine .seq_second field_yields (.seq_first (.text rfl fun bracket => ?_))
    exact stops (trimmed_skip _ _) known (Pattern.head_of_field word type_split bracket)

theorem params : (Phrase.optional (.sequence [Phrase.parameter,
    .many (.seq (.text ",") Phrase.parameter), .optional (.text ",")])).Suits Rule.follow
      (Rule.follow .params) := by
  have comma_or_end : ∀ ⦃input other : List Char⦄, Trimmed input other →
      (Phrase.many (.seq (.text ",") Phrase.parameter)).Opens
        ((Phrase.optional (.text ",")).Opens (Rule.follow .params)) input other →
      other.head? = some ',' ∨ other.head? = some ')' := by
    intro input other trimmed opens
    rcases opens.many trimmed with item | last
    · exact .inl (item.seq.text_head rfl)
    · exact (last.optional trimmed).imp_left (·.text_head rfl)
  have no_bracket : ∀ ⦃input other : List Char⦄, Trimmed input other →
      (Phrase.many (.seq (.text ",") Phrase.parameter)).Opens
        ((Phrase.optional (.text ",")).Opens (Rule.follow .params)) input other →
      other.head? ≠ some '[' := by
    intro input other trimmed opens head
    rcases comma_or_end trimmed opens with comma | closing
    · exact absurd (comma.symm.trans head) (by decide)
    · exact absurd (closing.symm.trans head) (by decide)
  refine ⟨⟨parameter fun _ _ trimmed opens => no_bracket trimmed opens.seq,
    ⟨text_seq (by decide) (parameter no_bracket), fun input other aligned opens => ?_⟩,
    optional_text "," (by decide)⟩, fun _ _ aligned closing => ?_⟩
  · refine transfers_of_rejects ?_
    rcases opens.optional aligned.toTrimmed with comma | closing
    · obtain ⟨_, rest, -, rfl, closing⟩ := comma.text rfl
      exact .seq_second (Yields.text "," rest)
        (.of_head (by decide) rfl (skip_skip rest) closing rfl)
    · exact .seq_first (.text_of_head rfl closing (by decide))
  · exact transfers_of_rejects (.of_head (by decide) rfl aligned.skipped' closing
      rfl)

/-! ### Definitions -/

theorem stencilDef : (Phrase.sequence [.text "stencil", .rule .identifier, .text "(",
    .rule .params, .text ")", .text "\x7b", .rule .externals, .rule .computations,
    .text "\x7d"]).Suits Rule.follow behind := by
  refine text_seq (by decide) (rule_seq (fun _ _ => trivial) (text_seq (by decide)
    ⟨fun _ _ _ closing => closing.seq.text_head rfl, text_seq (by decide) (text_seq (by decide)
      ⟨fun _ _ aligned opens => ?_, fun _ _ _ closing => closing.text_head rfl,
        text _ (by decide)⟩)⟩))
  exact ((opens.seq.rule rfl).many aligned.toTrimmed).imp
    (fun computation => (computation.rule rfl).seq.text_head rfl) (·.text_head rfl)

theorem file : (Phrase.sequence [.empty, .many (.rule .stencilDef),
    .rule .endOfInput]).Suits Rule.follow behind := by
  refine ⟨trivial, ⟨fun _ _ _ _ => trivial, fun input other _ at_end => ?_⟩,
    fun _ _ _ _ => trivial⟩
  obtain ⟨_, _, _, -, split, -⟩ := at_end.rule_token rfl
  obtain rfl := Pattern.eq_nil_of_endOfInput split
  exact transfers_of_rejects (.rule rfl (.seq_first (.text rfl (by rintro ⟨⟩))))

end Suits

end Phrase

/-- **Every rule suits what stands behind it.** -/
theorem Rule.suits_body {r : Rule} {body : Phrase} (is_body : r.body = .phrase body) :
    body.Suits Rule.follow r.follow := by
  cases r with
  | offset =>
    cases is_body
    exact .text_seq (by decide) (.rule_seq (fun _ _ => trivial) (.text_seq (by decide)
      (.rule_seq (fun _ _ => trivial) (.text_seq (by decide) (.rule_seq (fun _ _ => trivial)
        (.text _ (by decide)))))))
  | call => cases is_body; exact .call
  | access => cases is_body; exact .rule_seq (fun _ _ => trivial) fun _ _ _ _ => trivial
  | arith => cases is_body; exact .arith
  | expr => cases is_body; exact .expr
  | assign => cases is_body; exact .assign
  | ifStmt => cases is_body; exact .ifStmt
  | block => cases is_body; exact .block
  | bound =>
    cases is_body
    exact .tokens_or [.signedInt, .noneKw] follow_of_token rfl
      fun _ _ _ _ => trivial
  | intervalRange =>
    cases is_body
    exact .tokens_or [.wildcard] follow_of_token rfl
      (.rule_seq (fun _ _ => trivial) (.text_seq (by decide) fun _ _ _ _ => trivial))
  | intervalDef => cases is_body; exact .intervalDef
  | computation => cases is_body; exact .computation
  | computations => cases is_body; exact .computations
  | dimsZero => cases is_body; exact .text_seq (by decide) (.text _ (by decide))
  | fieldParam => cases is_body; exact .fieldParam
  | scalarParam =>
    cases is_body
    exact .rule_seq (fun _ _ => trivial) (.text_seq (by decide) fun _ _ _ _ => trivial)
  | params => cases is_body; exact .params
  | externals => cases is_body; exact .externals
  | stencilDef => cases is_body; exact .stencilDef
  | file => cases is_body; exact .file
  | _ => cases is_body

end GridStencil.Grammar
