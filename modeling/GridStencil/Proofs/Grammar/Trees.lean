import Mathlib.Data.List.Forall2
import GridStencil.Proofs.Grammar.InStep

/-!
**Texts that are read in step have the same trees up to spans.**

`Phrase.InStep.gives` is what reading in step means for the reader: a phrase gives nodes for both
texts, and these are the same up to their spans
(`Node.Same`).
-/

namespace GridStencil.Grammar

/-- Whether two nodes are the same up to the spans in them. -/
inductive Node.Same : Node → Node → Prop
  | mk {rule : Rule} {span span' : Span} {text : String} {parts parts' : List Node}
      (parts_same : List.Forall₂ Same parts parts') :
      Same (.mk rule span text parts) (.mk rule span' text parts')

namespace Node.Same

variable {node node' : Node}

theorem rule (same : node.Same node') : node.rule = node'.rule := by
  cases same
  rfl

theorem text (same : node.Same node') : node.text = node'.text := by
  cases same
  rfl

theorem parts (same : node.Same node') : List.Forall₂ Same node.parts node'.parts := by
  cases same
  assumption

end Node.Same

namespace Phrase

variable {p : Phrase} {input other rest rest' : List Char}

/-- Two matches that leave given texts and have the same nodes up to spans. -/
structure SameNodes (found found' : Match) (rest rest' : List Char) : Prop where
  at_rest : found.cursor.rest = rest
  at_rest' : found'.cursor.rest = rest'
  nodes : List.Forall₂ Node.Same found.nodes found'.nodes

/-- **What is read in step has the same nodes up to spans.** -/
theorem InStep.gives (inStep : p.InStep input other rest rest') {cursor cursor' : Cursor}
    (at_input : cursor.rest = input) (at_other : cursor'.rest = other) :
    ∃ found found', p.Gives cursor (some found) ∧ p.Gives cursor' (some found') ∧
      SameNodes found found' rest rest' := by
  induction inStep generalizing cursor cursor' with
  | empty => exact ⟨_, _, gives_empty, gives_empty, at_input, at_other, .nil⟩
  | @token pattern _ _ _ _ _ split split' =>
    have gives : (Phrase.token pattern).Gives cursor _ := gives_token
    have gives' : (Phrase.token pattern).Gives cursor' _ := gives_token
    rw [at_input, split] at gives
    rw [at_other, split'] at gives'
    exact ⟨_, _, gives, gives', rfl, rfl, .nil⟩
  | @rule_token r pattern _ _ _ _ _ is_body split split' =>
    have gives : (Phrase.rule r).Gives cursor _ := gives_rule_token is_body
    have gives' : (Phrase.rule r).Gives cursor' _ := gives_rule_token is_body
    rw [at_input, split] at gives
    rw [at_other, split'] at gives'
    exact ⟨_, _, gives, gives', rfl, rfl, .cons (.mk .nil) .nil⟩
  | rule is_body _ ih =>
    obtain ⟨found, found', gives, gives', same⟩ := ih at_input at_other
    exact ⟨_, _, gives_rule is_body gives, gives_rule is_body gives', same.at_rest,
      same.at_rest', .cons (.mk same.nodes) .nil⟩
  | seq _ _ first_ih second_ih =>
    obtain ⟨left, left', first_gives, first_gives', first_same⟩ := first_ih at_input at_other
    obtain ⟨right, right', second_gives, second_gives', second_same⟩ :=
      second_ih (first_same.at_rest ▸ Cursor.rest_skipLayout left.cursor)
        (first_same.at_rest' ▸ Cursor.rest_skipLayout left'.cursor)
    exact ⟨_, _, gives_seq first_gives second_gives, gives_seq first_gives' second_gives',
      second_same.at_rest, second_same.at_rest', List.rel_append first_same.nodes second_same.nodes⟩
  | alt_first _ ih =>
    obtain ⟨found, found', gives, gives', same⟩ := ih at_input at_other
    exact ⟨_, _, gives_alt_first gives, gives_alt_first gives', same⟩
  | alt_second rejects rejects' _ ih =>
    obtain ⟨found, found', gives, gives', same⟩ := ih at_input at_other
    exact ⟨_, _, gives_alt_second (rejects cursor at_input) gives,
      gives_alt_second (rejects' cursor' at_other) gives', same⟩
  | many_nil rejects rejects' =>
    have item_gives := rejects cursor.skipLayout (by rw [Cursor.rest_skipLayout, at_input])
    have item_gives' := rejects' cursor'.skipLayout (by rw [Cursor.rest_skipLayout, at_other])
    exact ⟨_, _, gives_many_nil item_gives, gives_many_nil item_gives', at_input, at_other, .nil⟩
  | many_cons _ _ item_ih many_ih =>
    obtain ⟨left, left', item_gives, item_gives', item_same⟩ :=
      item_ih (at_input ▸ Cursor.rest_skipLayout cursor)
        (at_other ▸ Cursor.rest_skipLayout cursor')
    obtain ⟨right, right', many_gives, many_gives', many_same⟩ :=
      many_ih item_same.at_rest item_same.at_rest'
    exact ⟨_, _, gives_many_cons item_gives many_gives, gives_many_cons item_gives' many_gives',
      many_same.at_rest, many_same.at_rest', List.rel_append item_same.nodes many_same.nodes⟩
  | optional_none rejects rejects' =>
    exact ⟨_, _, gives_optional (rejects cursor at_input),
      gives_optional (rejects' cursor' at_other), at_input, at_other, .nil⟩
  | optional_some _ ih =>
    obtain ⟨found, found', gives, gives', same⟩ := ih at_input at_other
    exact ⟨_, _, gives_optional gives, gives_optional gives', same⟩

/-- What is read in step is read from the second text. -/
theorem InStep.yields (inStep : p.InStep input other rest rest') :
    p.Yields other rest' (fun _ => True) := by
  intro cursor at_other
  have at_input : (Cursor.mk input 0).rest = input := rfl
  obtain ⟨_, found, _, gives, same⟩ := inStep.gives at_input at_other
  exact ⟨found, gives, congrArg skip same.at_rest', trivial⟩

end Phrase

end GridStencil.Grammar
