import GridStencil.Proofs.Grammar.Matching

/-!
**The tokens that are read from a text.**

`Phrase.tokens?` reads a phrase as `Phrase.read` does, and keeps the texts of the tokens in place of
a tree: `Phrase.tokens?_outcome` says that both stop at the same place. `Phrase.Takes` tells how the
tokens of a match come about, one case for each way in which phrases follow each other, with the
phrases that were tried before and do not match at all. With depth enough, what is read is taken
that way (`Phrase.takes_of_tokens?`).
-/

namespace GridStencil.Grammar

/-! ### Reading tokens -/

/-- The text of a token, unless it is the empty one at the end of a text. -/
def nonempty (taken : List Char) : List (List Char) := if taken.isEmpty then [] else [taken]

/-- The tokens that a phrase takes of a text, and what it leaves. Phrases nest at most `depth`
deep. -/
def Phrase.tokens? : Nat → Phrase → List Char → Option (List (List Char) × List Char)
  | 0, _, _ => none
  | depth + 1, phrase, input =>
    match phrase with
    | .empty => some ([], input)
    | .token pattern => (pattern.split input).map fun parts => (nonempty parts.1, parts.2)
    | .rule part =>
      match part.body with
      | .token pattern => (pattern.split input).map fun parts => (nonempty parts.1, parts.2)
      | .phrase body => body.tokens? depth input
    | .seq first second =>
      (first.tokens? depth input).bind fun left =>
        (second.tokens? depth (skip left.2)).map fun right => (left.1 ++ right.1, right.2)
    | .alt first second => (first.tokens? depth input).or (second.tokens? depth input)
    | .many item =>
      match item.tokens? depth (skip input) with
      | none => some ([], input)
      | some first =>
        match (Phrase.many item).tokens? depth first.2 with
        | none => some first
        | some rest => some (first.1 ++ rest.1, rest.2)
    | .optional item => some ((item.tokens? depth input).getD ([], input))

/-- The tokens of a text that the grammar matches. -/
def tokens (text : String) : List (List Char) :=
  (((Phrase.rule .file).tokens? (depthFor text) text.toList).map Prod.fst).getD []

namespace Phrase

variable {p first second item : Phrase} {r : Rule} {pattern : Pattern} {depth : Nat}
  {input middle rest taken : List Char} {left right found : List (List Char)}

/-- Tokens are read where nodes are, and up to the same place. -/
theorem tokens?_outcome (depth : Nat) (p : Phrase) (cursor : Cursor) :
    (p.tokens? depth cursor.rest).map Prod.snd =
      (p.outcome depth cursor).map fun found => found.cursor.rest := by
  induction depth generalizing p cursor with
  | zero => rfl
  | succ depth ih =>
    cases p with
    | empty => rfl
    | token pattern =>
      simp only [tokens?, outcome, Option.map_map]
      rfl
    | rule part =>
      simp only [tokens?, outcome]
      cases part.body with
      | token pattern =>
        simp only [Option.map_map]
        rfl
      | phrase body =>
        simp only [Option.map_map]
        exact ih body cursor
    | seq first second =>
      have first_same := ih first cursor
      simp only [tokens?, outcome]
      cases read : first.outcome depth cursor with
      | none =>
        rw [read, Option.map_none, Option.map_eq_none_iff] at first_same
        rw [first_same]
        rfl
      | some found =>
        rw [read] at first_same
        obtain ⟨⟨tokens, behind⟩, tokens_eq, same⟩ := Option.map_eq_some_iff.mp first_same
        have second_same := ih second found.cursor.skipLayout
        rw [Cursor.rest_skipLayout] at second_same
        dsimp only at same
        subst same
        simp only [tokens_eq, Option.bind_some, Option.map_map]
        exact second_same
    | alt first second =>
      simp only [tokens?, outcome, Option.map_or, ih]
    | many item =>
      have item_same := ih item cursor.skipLayout
      rw [Cursor.rest_skipLayout] at item_same
      simp only [tokens?, outcome]
      cases read : item.outcome depth cursor.skipLayout with
      | none =>
        rw [read, Option.map_none, Option.map_eq_none_iff] at item_same
        rw [item_same]
        rfl
      | some found =>
        rw [read] at item_same
        obtain ⟨⟨tokens, behind⟩, tokens_eq, same⟩ := Option.map_eq_some_iff.mp item_same
        have many_same := ih (many item) found.cursor
        dsimp only at same
        subst same
        simp only [tokens_eq]
        cases more : (many item).outcome depth found.cursor with
        | none =>
          rw [more, Option.map_none, Option.map_eq_none_iff] at many_same
          rw [many_same]
          rfl
        | some others =>
          rw [more] at many_same
          obtain ⟨⟨more_tokens, end_⟩, more_eq, same⟩ := Option.map_eq_some_iff.mp many_same
          rw [more_eq]
          exact congrArg some same
    | optional item =>
      have item_same := ih item cursor
      simp only [tokens?, outcome]
      cases read : item.outcome depth cursor with
      | none =>
        rw [read, Option.map_none, Option.map_eq_none_iff] at item_same
        rw [item_same]
        rfl
      | some found =>
        rw [read] at item_same
        obtain ⟨parts, parts_eq, same⟩ := Option.map_eq_some_iff.mp item_same
        rw [parts_eq]
        exact congrArg some same

theorem outcome_of_tokens? (cursor : Cursor)
    (read : p.tokens? depth cursor.rest = some (found, rest)) :
    ∃ result, p.outcome depth cursor = some result ∧ result.cursor.rest = rest := by
  have same := tokens?_outcome depth p cursor
  rw [read] at same
  exact Option.map_eq_some_iff.mp same.symm

/-! ### Depth enough -/

/-- Whether the depth does not stop a phrase in front of a text. -/
structure Enough (depth : Nat) (p : Phrase) (input : List Char) : Prop where
  progresses : p.Progresses
  covered : p.rank + 256 * input.length ≤ depth

namespace Enough

theorem rule {body : Phrase} (enough : Enough (depth + 1) (.rule r) input)
    (is_body : r.body = .phrase body) : Enough depth body input := by
  have bounded := Rule.bounded_of_body is_body
  have opens : (Phrase.rule r).rank = r.rank + 1 := rfl
  have := bounded.rank
  have := enough.covered
  exact ⟨bounded.progresses, by omega⟩

theorem seq_first (enough : Enough (depth + 1) (.seq first second) input) :
    Enough depth first input := by
  refine ⟨enough.progresses.1, ?_⟩
  have covered := enough.covered
  simp only [rank, rankWith] at covered ⊢
  omega

theorem seq_second (enough : Enough (depth + 1) (.seq first second) input)
    (read : first.tokens? depth input = some (left, middle)) :
    Enough depth second (skip middle) := by
  refine ⟨enough.progresses.2, ?_⟩
  obtain ⟨result, outcome, rfl⟩ := outcome_of_tokens? ⟨input, 0⟩ read
  obtain ⟨suffix, shorter⟩ := outcome_takes outcome
  have skipped := (suffix_skip result.cursor.rest).length_le
  have length_le := suffix.length_le
  have covered := enough.covered
  simp only [rank, rankWith] at covered ⊢
  dsimp only at length_le shorter
  split at covered
  · omega
  · next takes =>
    have := shorter (by simpa using takes)
    omega

theorem alt (enough : Enough (depth + 1) (.alt first second) input) :
    Enough depth first input ∧ Enough depth second input := by
  have covered := enough.covered
  refine ⟨⟨enough.progresses.1, ?_⟩, enough.progresses.2, ?_⟩ <;>
    simp only [rank, rankWith] at covered ⊢ <;> omega

theorem many_item (enough : Enough (depth + 1) (.many item) input) :
    Enough depth item (skip input) := by
  refine ⟨enough.progresses.2, ?_⟩
  have skipped := (suffix_skip input).length_le
  have covered := enough.covered
  simp only [rank, rankWith] at covered ⊢
  omega

theorem many_rest (enough : Enough (depth + 1) (.many item) input)
    (read : item.tokens? depth (skip input) = some (left, middle)) :
    Enough depth (.many item) middle := by
  refine ⟨enough.progresses, ?_⟩
  obtain ⟨result, outcome, rfl⟩ := outcome_of_tokens? ⟨skip input, 0⟩ read
  have shorter := (outcome_takes outcome).2 enough.progresses.1
  have skipped := (suffix_skip input).length_le
  have covered := enough.covered
  dsimp only at shorter
  omega

theorem optional (enough : Enough (depth + 1) (.optional item) input) :
    Enough depth item input := by
  refine ⟨enough.progresses, ?_⟩
  have covered := enough.covered
  simp only [rank, rankWith] at covered ⊢
  omega

/-- What is repeated is read, be it no times. -/
theorem many_ne_none (enough : Enough depth (.many item) input) :
    (Phrase.many item).tokens? depth input ≠ none := by
  cases depth with
  | zero =>
    have covered := enough.covered
    simp only [rank, rankWith] at covered
    omega
  | succ depth =>
    simp only [tokens?]
    split
    · rintro ⟨⟩
    · split <;> rintro ⟨⟩

/-- Where no tokens are read with depth enough, a phrase does not match. -/
theorem rejects (enough : Enough depth p input) (none_read : p.tokens? depth input = none) :
    p.Rejects input := by
  rintro cursor rfl
  have same := tokens?_outcome depth p cursor
  rw [none_read, Option.map_none] at same
  have gives := gives_outcome enough.progresses enough.covered
  rwa [Option.map_eq_none_iff.mp same.symm] at gives

end Enough

/-! ### How tokens are taken -/

/-- A phrase takes tokens of a text and leaves its end. -/
inductive Takes : Phrase → List Char → List (List Char) → List Char → Prop
  | empty {input : List Char} : Takes .empty input [] input
  | token {pattern : Pattern} {input taken rest : List Char}
      (split : pattern.split input = some (taken, rest)) :
      Takes (.token pattern) input (nonempty taken) rest
  | rule_token {r : Rule} {pattern : Pattern} {input taken rest : List Char}
      (is_body : r.body = .token pattern) (split : pattern.split input = some (taken, rest)) :
      Takes (.rule r) input (nonempty taken) rest
  | rule {r : Rule} {body : Phrase} {input rest : List Char} {found : List (List Char)}
      (is_body : r.body = .phrase body) (takes : Takes body input found rest) :
      Takes (.rule r) input found rest
  | seq {first second : Phrase} {input middle rest : List Char} {left right : List (List Char)}
      (first_takes : Takes first input left middle)
      (second_takes : Takes second (skip middle) right rest) :
      Takes (.seq first second) input (left ++ right) rest
  | alt_first {first second : Phrase} {input rest : List Char} {found : List (List Char)}
      (takes : Takes first input found rest) : Takes (.alt first second) input found rest
  | alt_second {first second : Phrase} {input rest : List Char} {found : List (List Char)}
      (rejects : first.Rejects input) (takes : Takes second input found rest) :
      Takes (.alt first second) input found rest
  | many_nil {item : Phrase} {input : List Char} (rejects : item.Rejects (skip input)) :
      Takes (.many item) input [] input
  | many_cons {item : Phrase} {input middle rest : List Char} {left right : List (List Char)}
      (item_takes : Takes item (skip input) left middle)
      (many_takes : Takes (.many item) middle right rest) :
      Takes (.many item) input (left ++ right) rest
  | optional_none {item : Phrase} {input : List Char} (rejects : item.Rejects input) :
      Takes (.optional item) input [] input
  | optional_some {item : Phrase} {input rest : List Char} {found : List (List Char)}
      (takes : Takes item input found rest) : Takes (.optional item) input found rest

/-- With depth enough, the tokens that are read are taken. -/
theorem takes_of_tokens? (enough : Enough depth p input)
    (read : p.tokens? depth input = some (found, rest)) : p.Takes input found rest := by
  induction depth generalizing p input found rest with
  | zero => cases read
  | succ depth ih =>
    cases p with
    | empty =>
      cases read
      exact .empty
    | token pattern =>
      simp only [tokens?, Option.map_eq_some_iff] at read
      obtain ⟨parts, split, same⟩ := read
      cases same
      exact .token split
    | rule part =>
      simp only [tokens?] at read
      cases is_body : part.body with
      | token pattern =>
        simp only [is_body, Option.map_eq_some_iff] at read
        obtain ⟨parts, split, same⟩ := read
        cases same
        exact .rule_token is_body split
      | phrase body =>
        simp only [is_body] at read
        exact .rule is_body (ih (enough.rule is_body) read)
    | seq first second =>
      simp only [tokens?, Option.bind_eq_some_iff, Option.map_eq_some_iff] at read
      obtain ⟨⟨left, middle⟩, first_read, right, second_read, same⟩ := read
      cases same
      exact .seq (ih enough.seq_first first_read)
        (ih (enough.seq_second first_read) second_read)
    | alt first second =>
      simp only [tokens?, Option.or_eq_some_iff] at read
      rcases read with here | ⟨not_here, there⟩
      · exact .alt_first (ih enough.alt.1 here)
      · exact .alt_second (enough.alt.1.rejects not_here) (ih enough.alt.2 there)
    | many item =>
      simp only [tokens?] at read
      split at read
      · next none_read =>
        cases read
        exact .many_nil (enough.many_item.rejects none_read)
      · next left item_read =>
        have item_takes := ih enough.many_item item_read
        have enough_rest := enough.many_rest item_read
        split at read
        · next none_read =>
          exact absurd none_read enough_rest.many_ne_none
        · next right many_read =>
          cases read
          exact .many_cons item_takes (ih enough_rest many_read)
    | optional item =>
      simp only [tokens?, Option.some.injEq] at read
      cases inner : item.tokens? depth input with
      | none =>
        rw [inner] at read
        cases read
        exact .optional_none (enough.optional.rejects inner)
      | some parts =>
        rw [inner, Option.getD_some] at read
        subst read
        exact .optional_some (ih enough.optional inner)

end Phrase

end GridStencil.Grammar
