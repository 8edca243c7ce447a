import GridStencil.Proofs.Grammar.Matching

/-!
**The tree of a text follows the grammar.**

The rules of the nodes that a phrase gives follow the phrase (`Phrase.Shape`), and so do the parts
of each of these nodes, down to the tokens, whose text is what their pattern took (`Node.Formed`).
-/

namespace GridStencil.Grammar

/-- In which orders the parts of a phrase may follow each other. -/
inductive Phrase.Shape : Phrase → List Rule → Prop
  | empty : Shape .empty []
  | token {pattern : Pattern} : Shape (.token pattern) []
  | rule {part : Rule} : Shape (.rule part) [part]
  | seq {first second : Phrase} {left right : List Rule} (first_shape : Shape first left)
      (second_shape : Shape second right) : Shape (.seq first second) (left ++ right)
  | alt_first {first second : Phrase} {rules : List Rule} (shape : Shape first rules) :
      Shape (.alt first second) rules
  | alt_second {first second : Phrase} {rules : List Rule} (shape : Shape second rules) :
      Shape (.alt first second) rules
  | many_nil {item : Phrase} : Shape (.many item) []
  | many_cons {item : Phrase} {left right : List Rule} (item_shape : Shape item left)
      (many_shape : Shape (.many item) right) : Shape (.many item) (left ++ right)
  | optional_none {item : Phrase} : Shape (.optional item) []
  | optional_some {item : Phrase} {rules : List Rule} (shape : Shape item rules) :
      Shape (.optional item) rules

/-- Whether a node and its parts are what the grammar gives. -/
inductive Node.Formed : Node → Prop
  | token {r : Rule} {pattern : Pattern} (is_body : r.body = .token pattern) {span : Span}
      {input taken rest : List Char} (split : pattern.split input = some (taken, rest)) :
      Formed (.mk r span (String.ofList taken) [])
  | phrase {r : Rule} {body : Phrase} (is_body : r.body = .phrase body) {span : Span}
      {depth : Nat} {cursor : Cursor} {found : Match}
      (outcome : body.outcome depth cursor = some found)
      (parts : ∀ node ∈ found.nodes, Formed node) : Formed (.mk r span "" found.nodes)

/-- The nodes of a phrase have its shape and are formed by the grammar. -/
theorem Phrase.outcome_formed {depth : Nat} {p : Phrase} {cursor : Cursor} {found : Match}
    (outcome : p.outcome depth cursor = some found) :
    p.Shape (found.nodes.map Node.rule) ∧ ∀ node ∈ found.nodes, node.Formed := by
  induction depth generalizing p cursor found with
  | zero => simp [Phrase.outcome] at outcome
  | succ depth ih =>
    have append : ∀ {left right : List Node}, (∀ node ∈ left, node.Formed) →
        (∀ node ∈ right, node.Formed) → ∀ node ∈ left ++ right, node.Formed :=
      fun left_formed right_formed node inside =>
        (List.mem_append.mp inside).elim (left_formed node) (right_formed node)
    cases p with
    | empty =>
      simp only [Phrase.outcome, Option.some.injEq] at outcome
      subst outcome
      exact ⟨.empty, by simp⟩
    | token pattern =>
      simp only [Phrase.outcome, Option.map_eq_some_iff] at outcome
      obtain ⟨parts, split, rfl⟩ := outcome
      exact ⟨.token, by simp⟩
    | rule part =>
      simp only [Phrase.outcome] at outcome
      cases is_body : part.body with
      | token pattern =>
        simp only [is_body, Option.map_eq_some_iff] at outcome
        obtain ⟨parts, split, rfl⟩ := outcome
        refine ⟨.rule, fun node inside => ?_⟩
        obtain rfl := List.mem_singleton.mp inside
        exact .token is_body split
      | phrase body =>
        simp only [is_body, Option.map_eq_some_iff] at outcome
        obtain ⟨inner, inner_eq, rfl⟩ := outcome
        refine ⟨.rule, fun node inside => ?_⟩
        obtain rfl := List.mem_singleton.mp inside
        exact .phrase is_body inner_eq (ih inner_eq).2
    | seq first second =>
      simp only [Phrase.outcome, Option.bind_eq_some_iff, Option.map_eq_some_iff] at outcome
      obtain ⟨left, left_eq, right, right_eq, rfl⟩ := outcome
      refine ⟨?_, append (ih left_eq).2 (ih right_eq).2⟩
      rw [List.map_append]
      exact .seq (ih left_eq).1 (ih right_eq).1
    | alt first second =>
      simp only [Phrase.outcome, Option.or_eq_some_iff] at outcome
      rcases outcome with taken | ⟨-, taken⟩
      · exact ⟨.alt_first (ih taken).1, (ih taken).2⟩
      · exact ⟨.alt_second (ih taken).1, (ih taken).2⟩
    | many item =>
      simp only [Phrase.outcome] at outcome
      split at outcome
      · cases outcome
        exact ⟨.many_nil, by simp⟩
      · next first first_eq =>
        split at outcome
        · cases outcome
          refine ⟨?_, (ih first_eq).2⟩
          have once := Phrase.Shape.many_cons (ih first_eq).1 .many_nil
          rwa [List.append_nil] at once
        · next rest rest_eq =>
          cases outcome
          refine ⟨?_, append (ih first_eq).2 (ih rest_eq).2⟩
          rw [List.map_append]
          exact .many_cons (ih first_eq).1 (ih rest_eq).1
    | optional item =>
      simp only [Phrase.outcome, Option.some.injEq] at outcome
      cases inner : item.outcome depth cursor with
      | none =>
        simp only [inner, Option.getD_none] at outcome
        subst outcome
        exact ⟨.optional_none, by simp⟩
      | some taken =>
        simp only [inner, Option.getD_some] at outcome
        subst outcome
        exact ⟨.optional_some (ih inner).1, (ih inner).2⟩

theorem Phrase.gives_formed {p : Phrase} {cursor : Cursor} {found : Match}
    (gives : p.Gives cursor (some found)) :
    p.Shape (found.nodes.map Node.rule) ∧ ∀ node ∈ found.nodes, node.Formed := by
  obtain ⟨least, all⟩ := gives
  exact outcome_formed (all least (Nat.le_refl least))

end GridStencil.Grammar
