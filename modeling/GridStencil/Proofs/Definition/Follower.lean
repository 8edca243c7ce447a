import GridStencil.Proofs.Definition.Choice

/-!
**What stands behind a statement.**

Statements are separated by nothing but layout, so each of them has to end where the next one
starts. Behind it stands a bracket, an assignment or a statement with a condition (`Follower`), and
none of them is taken for a further part of the statement, except that an assignment may read as
the rest of a conditional (`Follower.choice`).
-/

namespace GridStencil.Definition

open Grammar

/-! ### The front of a condition -/

/-- The first row of an expression ends where the expression does or in front of a choice. -/
theorem arith_front {e : Expr} {rest : List Char} (written : e.Written)
    (floats : ∀ x ∈ e.floats, Number.ReadsBack x) (ends : RowEnds rest) :
    ∃ middle, (Phrase.rule .arith).Yields (e.render.toList ++ rest) middle OneNode ∧
      (skip middle = skip rest ∨ (skip middle).head? = some 'i') := by
  have row_front : ¬ IsConditional e →
      (Phrase.rule .arith).Yields (e.render.toList ++ rest) rest OneNode := by
    intro no_conditional
    have row := (readsAnywhere e written floats).rows 1 (Nat.le_refl 1)
    rw [renderAt_of_le (binds_of_not_conditional no_conditional)] at row
    refine (arith_yields row ends).imp ?_
    rintro _ ⟨node, rfl, -⟩
    exact ⟨node, rfl⟩
  cases e with
  | conditional condition whenTrue whenFalse span =>
    obtain ⟨-, true_written, -⟩ := written
    have true_row := (readsAnywhere whenTrue true_written fun x inside =>
      floats x (by simp [Expr.floats, inside])).rows 1 (Nat.le_refl 1)
    have text : ((Expr.conditional condition whenTrue whenFalse span).render).toList ++ rest =
        (whenTrue.renderAt 1).toList ++ (' ' :: 'i' :: 'f' :: ' ' ::
          ((condition.renderAt 1).toList ++ (" else ".toList ++
            ((whenFalse.renderAt 0).toList ++ rest)))) := by
      rw [Expr.render, toList_render_conditional, conditionalText]
      simp only [List.append_assoc]
      rfl
    rw [text]
    refine ⟨_, (arith_yields true_row (rowEnds_blank _ (.inl rfl))).imp ?_, .inr rfl⟩
    rintro _ ⟨node, rfl, -⟩
    exact ⟨node, rfl⟩
  | literal _ _ => exact ⟨rest, row_front id, .inl rfl⟩
  | name _ _ => exact ⟨rest, row_front id, .inl rfl⟩
  | access _ _ _ => exact ⟨rest, row_front id, .inl rfl⟩
  | unary _ _ _ => exact ⟨rest, row_front id, .inl rfl⟩
  | binary _ _ _ _ => exact ⟨rest, row_front id, .inl rfl⟩

/-! ### Followers -/

/-- Whether the target of an assignment is read as a part of the assignment before it. -/
def Collides : Statement → Option Statement → Prop
  | .assign _ _ _ _, some (.assign target _ _ _) => ReadsAsChoice target
  | _, _ => False

/-- What stands behind a statement, without the layout in front of it: the bracket that closes the
block, or the statement that follows. -/
inductive Follower : Option Statement → List Char → Prop
  | closing (more : List Char) : Follower none ('\x7d' :: more)
  | assign {target : String} {offset : Option Offset} {value : Expr} {span : Span}
      {behind : List Char} (is_name : IsName target) (target_end : TargetEnd behind) :
      Follower (some (.assign target offset value span)) (target.toList ++ behind)
  | branch {condition : Expr} {whenTrue whenFalse : List Statement} {span : Span}
      (written : condition.Written) (floats : ∀ x ∈ condition.floats, Number.ReadsBack x)
      (more : List Char) :
      Follower (some (.branch condition whenTrue whenFalse span))
        ('i' :: 'f' :: ' ' :: (condition.render.toList ++ ' ' :: '\x7b' :: more))

namespace Follower

variable {next : Option Statement} {input : List Char}

theorem head (follower : Follower next input) :
    ∃ c cs, input = c :: cs ∧ isSolid c = true ∧ c ≠ '(' ∧ c ≠ '[' ∧ c ≠ ';' := by
  cases follower with
  | closing more => exact ⟨_, _, rfl, rfl, by decide, by decide, by decide⟩
  | @assign target _ _ _ behind is_name _ =>
    obtain ⟨c, cs, chars, -⟩ := is_name.head
    have inside := is_name.all c (by simp [chars])
    have differs : ∀ d : Char, Pattern.isNameChar d = false → c ≠ d := by
      rintro d outside rfl
      rw [inside] at outside
      cases outside
    exact ⟨c, cs ++ behind, by rw [chars]; rfl, isSolid_of_isNameChar inside, differs '(' rfl,
      differs '[' rfl, differs ';' rfl⟩
  | branch _ _ more => exact ⟨_, _, rfl, rfl, by decide, by decide, by decide⟩

theorem no_operator (follower : Follower next input) : Phrase.infixOperator.Rejects input := by
  cases follower with
  | closing more => exact infixOperator_rejects (by simp [symbolStarts]) rfl rfl
  | assign is_name target_end => exact infixOperator_rejects_name is_name target_end.rest.ends
  | branch _ _ more => exact infixOperator_rejects (by simp [symbolStarts]) rfl rfl

/-- A statement with a condition does not go on with `else` behind a row. -/
theorem branch_no_choice {condition : Expr} (written : condition.Written)
    (floats : ∀ x ∈ condition.floats, Number.ReadsBack x) (more : List Char) :
    Phrase.choiceTail.Rejects
      ('i' :: 'f' :: ' ' :: (condition.render.toList ++ ' ' :: '\x7b' :: more)) := by
  obtain ⟨middle, front, stops⟩ :=
    arith_front written floats (rowEnds_blank more (.inr (.inr rfl)))
  have solid := (textOf_render written floats).1
  have no_else : (Phrase.text "else").Rejects (skip middle) := by
    refine .text rfl ?_
    rcases stops with stops | stops
    · rw [stops]
      rintro ⟨⟩
    · rw [stops]
      rintro ⟨⟩
  have first : (Phrase.rule .arith).Yields
      (skip (' ' :: (condition.render.toList ++ ' ' :: '\x7b' :: more))) middle OneNode := by
    rw [skip_blank, solid.skip]
    exact front
  exact .seq_second (Phrase.Yields.text "if" _) (.seq_second first (.seq_first no_else))

/-- Behind an assignment, the rest of a conditional is read exactly where the next assignment
collides with it. -/
theorem choice (follower : Follower next input) (target : String) (offset : Option Offset)
    (value : Expr) (span : Span) :
    (Collides (.assign target offset value span) next ∧
        ∃ after, Phrase.choiceTail.Yields input after TwoNodes) ∨
      (¬ Collides (.assign target offset value span) next ∧ Phrase.choiceTail.Rejects input) := by
  cases follower with
  | closing more => exact .inr ⟨id, choiceTail_rejects (by rintro ⟨⟩)⟩
  | assign is_name target_end => exact choiceTail_target is_name target_end.rest
  | branch written floats more => exact .inr ⟨id, branch_no_choice written floats more⟩

theorem no_else (follower : Follower next input) : Phrase.elseTail.Rejects input := by
  cases follower with
  | closing more => exact .seq_first (.text rfl (by rintro ⟨⟩))
  | assign is_name target_end =>
    have rejects := elseTail_rejects_word target_end.rest is_name.all
    rwa [is_name.solid.skip] at rejects
  | branch _ _ more => exact .seq_first (.text rfl (by rintro ⟨⟩))

/-- A value ends in front of a follower on a line of its own. -/
theorem rowEnds {rest : List Char} (follower : Follower next (skip rest)) :
    RowEnds ('\n' :: rest) := by
  obtain ⟨c, cs, skipped, -, no_arguments, no_offset, -⟩ := follower.head
  constructor
  · constructor
    · exact endsToken_cons rfl rest
    · rw [skip_newline, skipped]
      simpa using no_arguments
    · rw [skip_newline, skipped]
      simpa using no_offset
  · rw [skip_newline]
    exact follower.no_operator

end Follower

end GridStencil.Definition
