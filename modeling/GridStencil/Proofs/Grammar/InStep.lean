import GridStencil.Proofs.Grammar.Derivation
import GridStencil.Proofs.Grammar.Spacing

/-!
**Texts with more layout are read in step.**

`Phrase.InStep` says that a phrase reads two texts alike: the same alternatives match, the same ones
fail, and the same tokens are taken. Whether it does depends on what stands behind it in both texts.
`Phrase.Suits` is the condition on a phrase in front of texts of which something is known: whatever
fails in front of the first text fails in front of the second one too (`Phrase.Transfers`), at every
place where the phrase may turn to another alternative or end.

* `Phrase.inStep_of_takes`: a phrase that suits what stands behind it reads a text and the same text
  with more layout in step.
-/

namespace GridStencil.Grammar

/-- What is known of two texts. -/
abbrev Pairs := List Char → List Char → Prop

/-- Two texts without layout at their starts. -/
structure Trimmed (input other : List Char) : Prop where
  skipped : skip input = input
  skipped' : skip other = other

theorem trimmed_skip (input other : List Char) : Trimmed (skip input) (skip other) :=
  ⟨skip_skip input, skip_skip other⟩

/-- Two near texts without layout at their starts. -/
structure Aligned (input other : List Char) : Prop extends Trimmed input other where
  near : Near input other

theorem Loosened.aligned {tokens : List (List Char)} {input other : List Char}
    (loosened : Loosened tokens input other) (solid : ∀ token ∈ tokens, Solid token) :
    Aligned (Grammar.skip input) (Grammar.skip other) :=
  ⟨trimmed_skip input other, (loosened.skip solid).near⟩

namespace Phrase

variable {p first second item : Phrase} {r : Rule} {pattern : Pattern}
  {input other rest rest' taken : List Char} {behind : Pairs}

/-! ### Reading two texts -/

/-- A phrase reads two texts in the same way and leaves an end of each. -/
inductive InStep : Phrase → List Char → List Char → List Char → List Char → Prop
  | empty {input other : List Char} : InStep .empty input other input other
  | token {pattern : Pattern} {input other taken rest rest' : List Char}
      (split : pattern.split input = some (taken, rest))
      (split' : pattern.split other = some (taken, rest')) :
      InStep (.token pattern) input other rest rest'
  | rule_token {r : Rule} {pattern : Pattern} {input other taken rest rest' : List Char}
      (is_body : r.body = .token pattern) (split : pattern.split input = some (taken, rest))
      (split' : pattern.split other = some (taken, rest')) :
      InStep (.rule r) input other rest rest'
  | rule {r : Rule} {body : Phrase} {input other rest rest' : List Char}
      (is_body : r.body = .phrase body) (inStep : InStep body input other rest rest') :
      InStep (.rule r) input other rest rest'
  | seq {first second : Phrase} {input other middle middle' rest rest' : List Char}
      (first_inStep : InStep first input other middle middle')
      (second_inStep : InStep second (skip middle) (skip middle') rest rest') :
      InStep (.seq first second) input other rest rest'
  | alt_first {first second : Phrase} {input other rest rest' : List Char}
      (inStep : InStep first input other rest rest') :
      InStep (.alt first second) input other rest rest'
  | alt_second {first second : Phrase} {input other rest rest' : List Char}
      (rejects : first.Rejects input) (rejects' : first.Rejects other)
      (inStep : InStep second input other rest rest') :
      InStep (.alt first second) input other rest rest'
  | many_nil {item : Phrase} {input other : List Char} (rejects : item.Rejects (skip input))
      (rejects' : item.Rejects (skip other)) : InStep (.many item) input other input other
  | many_cons {item : Phrase} {input other middle middle' rest rest' : List Char}
      (item_inStep : InStep item (skip input) (skip other) middle middle')
      (many_inStep : InStep (.many item) middle middle' rest rest') :
      InStep (.many item) input other rest rest'
  | optional_none {item : Phrase} {input other : List Char} (rejects : item.Rejects input)
      (rejects' : item.Rejects other) : InStep (.optional item) input other input other
  | optional_some {item : Phrase} {input other rest rest' : List Char}
      (inStep : InStep item input other rest rest') :
      InStep (.optional item) input other rest rest'

/-- The two texts may change places. -/
theorem InStep.symm (inStep : p.InStep input other rest rest') :
    p.InStep other input rest' rest := by
  induction inStep with
  | empty => exact .empty
  | token split split' => exact .token split' split
  | rule_token is_body split split' => exact .rule_token is_body split' split
  | rule is_body _ ih => exact .rule is_body ih
  | seq _ _ first_ih second_ih => exact .seq first_ih second_ih
  | alt_first _ ih => exact .alt_first ih
  | alt_second rejects rejects' _ ih => exact .alt_second rejects' rejects ih
  | many_nil rejects rejects' => exact .many_nil rejects' rejects
  | many_cons _ _ item_ih many_ih => exact .many_cons item_ih many_ih
  | optional_none rejects rejects' => exact .optional_none rejects' rejects
  | optional_some _ ih => exact .optional_some ih

/-- Where a phrase starts that reads two texts in step up to something known. -/
def Opens (p : Phrase) (behind : Pairs) : Pairs := fun input other =>
  ∃ rest rest', p.InStep input other rest rest' ∧ behind (skip rest) (skip rest')

/-- Whether a phrase that does not match the first of two texts does not match the second. -/
def Transfers (p : Phrase) (input other : List Char) : Prop := p.Rejects input → p.Rejects other

/-! ### What suits what -/

/-- Whether a phrase reads texts in step in front of texts that are known: `follow` tells what has
to be known behind a rule. -/
def Suits (follow : Rule → Pairs) : Phrase → Pairs → Prop
  | empty, _ => True
  | token pattern, _ => pattern.Steady
  | rule r, behind => ∀ ⦃input other⦄, Aligned input other → behind input other →
      follow r input other
  | seq first second, behind =>
    first.Suits follow (second.Opens behind) ∧ second.Suits follow behind
  | alt first second, behind =>
    first.Suits follow behind ∧ second.Suits follow behind ∧
      ∀ ⦃input other⦄, Aligned input other → second.Opens behind input other →
        first.Transfers input other
  | many item, behind =>
    item.Suits follow ((many item).Opens behind) ∧
      ∀ ⦃input other⦄, Aligned input other → behind input other → item.Transfers input other
  | optional item, behind =>
    item.Suits follow behind ∧
      ∀ ⦃input other⦄, Aligned input other → behind input other → item.Transfers input other

/-! ### What opens a phrase -/

namespace Opens

theorem symm (opens : p.Opens behind input other) :
    p.Opens (fun input other => behind other input) other input := by
  obtain ⟨rest, rest', inStep, known⟩ := opens
  exact ⟨rest', rest, inStep.symm, known⟩

theorem seq (opens : (Phrase.seq first second).Opens behind input other) :
    first.Opens (second.Opens behind) input other := by
  obtain ⟨rest, rest', inStep, known⟩ := opens
  cases inStep with
  | seq first_inStep second_inStep =>
    exact ⟨_, _, first_inStep, _, _, second_inStep, known⟩

theorem alt (opens : (Phrase.alt first second).Opens behind input other) :
    first.Opens behind input other ∨ second.Opens behind input other := by
  obtain ⟨rest, rest', inStep, known⟩ := opens
  cases inStep with
  | alt_first inStep => exact .inl ⟨_, _, inStep, known⟩
  | alt_second _ _ inStep => exact .inr ⟨_, _, inStep, known⟩

theorem optional (opens : (Phrase.optional item).Opens behind input other)
    (trimmed : Trimmed input other) : item.Opens behind input other ∨ behind input other := by
  obtain ⟨rest, rest', inStep, known⟩ := opens
  cases inStep with
  | optional_none =>
    rw [trimmed.skipped, trimmed.skipped'] at known
    exact .inr known
  | optional_some inStep => exact .inl ⟨_, _, inStep, known⟩

theorem rule {body : Phrase} (opens : (Phrase.rule r).Opens behind input other)
    (is_body : r.body = .phrase body) : body.Opens behind input other := by
  obtain ⟨rest, rest', inStep, known⟩ := opens
  cases inStep with
  | rule_token other_body => cases other_body.symm.trans is_body
  | rule other_body inStep =>
    cases other_body.symm.trans is_body
    exact ⟨_, _, inStep, known⟩

theorem token (opens : (Phrase.token pattern).Opens behind input other) :
    ∃ taken rest rest', pattern.split input = some (taken, rest) ∧
      pattern.split other = some (taken, rest') ∧ behind (skip rest) (skip rest') := by
  obtain ⟨rest, rest', inStep, known⟩ := opens
  cases inStep with
  | token split split' => exact ⟨_, _, _, split, split', known⟩

theorem rule_token (opens : (Phrase.rule r).Opens behind input other)
    (is_body : r.body = .token pattern) :
    ∃ taken rest rest', pattern.split input = some (taken, rest) ∧
      pattern.split other = some (taken, rest') ∧ behind (skip rest) (skip rest') := by
  obtain ⟨rest, rest', inStep, known⟩ := opens
  cases inStep with
  | rule other_body => cases other_body.symm.trans is_body
  | rule_token other_body split split' =>
    cases other_body.symm.trans is_body
    exact ⟨_, _, _, split, split', known⟩

/-- A repetition may start behind the layout in front of it. -/
theorem of_many (inStep : (Phrase.many item).InStep input other rest rest')
    (known : behind (skip rest) (skip rest')) :
    (Phrase.many item).Opens behind (skip input) (skip other) := by
  cases inStep with
  | many_nil rejects rejects' =>
    refine ⟨_, _, .many_nil ?_ ?_, ?_⟩
    · rwa [skip_skip]
    · rwa [skip_skip]
    · rwa [skip_skip, skip_skip]
  | many_cons item_inStep many_inStep =>
    refine ⟨_, _, .many_cons ?_ many_inStep, known⟩
    rwa [skip_skip, skip_skip]

theorem many (opens : (Phrase.many item).Opens behind input other)
    (trimmed : Trimmed input other) :
    item.Opens ((Phrase.many item).Opens behind) input other ∨ behind input other := by
  obtain ⟨rest, rest', inStep, known⟩ := opens
  cases inStep with
  | many_nil =>
    rw [trimmed.skipped, trimmed.skipped'] at known
    exact .inr known
  | many_cons item_inStep many_inStep =>
    rw [trimmed.skipped, trimmed.skipped'] at item_inStep
    exact .inl ⟨_, _, item_inStep, of_many many_inStep known⟩

end Opens

/-! ### Loosened texts -/

theorem solid_of_split {token : List Char} (split : pattern.split input = some (taken, rest))
    (skipped : skip input = input) (inside : token ∈ nonempty taken) : Solid token := by
  have parts := Pattern.append_of_split split
  cases taken with
  | nil => cases inside
  | cons c cs =>
    obtain rfl := List.mem_singleton.mp inside
    rw [parts] at skipped
    exact ⟨c, cs, rfl, isSolid_of_skip skipped⟩

/-- No token starts with layout. -/
theorem Takes.solid {found : List (List Char)} (takes : p.Takes input found rest)
    (at_token : (∀ item, p ≠ .many item) → skip input = input) :
    ∀ token ∈ found, Solid token := by
  induction takes with
  | empty | many_nil _ | optional_none _ => exact fun token inside => nomatch inside
  | token split | rule_token _ split =>
    exact fun token inside => solid_of_split split (at_token nofun) inside
  | rule is_body takes ih => exact ih fun _ => at_token nofun
  | seq first_takes second_takes first_ih second_ih =>
    exact List.forall_mem_append.mpr
      ⟨first_ih fun _ => at_token nofun, second_ih fun _ => skip_skip _⟩
  | alt_first takes ih | alt_second _ takes ih | optional_some takes ih =>
    exact ih fun _ => at_token nofun
  | many_cons item_takes many_takes item_ih many_ih =>
    exact List.forall_mem_append.mpr
      ⟨item_ih fun _ => skip_skip _, many_ih fun not_many => absurd rfl (not_many _)⟩

/-- A token that is taken of a text is taken of the text with more layout. -/
theorem split_loosened {more : List (List Char)} (steady : pattern.Steady)
    (split : pattern.split input = some (taken, rest))
    (loosened : Loosened (nonempty taken ++ more) input other)
    (trimmed : Trimmed input other) :
    ∃ rest', Loosened more rest rest' ∧ pattern.split other = some (taken, rest') := by
  have parts := Pattern.append_of_split split
  cases taken with
  | nil =>
    subst parts
    have split' : pattern.split ([] ++ other) = some ([], other) :=
      steady split loosened.near fun _ => trimmed.skipped'
    exact ⟨other, loosened, split'⟩
  | cons c cs =>
    have solid : Solid (c :: cs) := solid_of_split split trimmed.skipped List.mem_cons_self
    obtain ⟨rest₀, rest', same, rfl, behind⟩ :=
      loosened.behind solid trimmed.skipped trimmed.skipped'
    obtain rfl := List.append_cancel_left (parts.symm.trans same)
    rw [parts] at split
    exact ⟨rest', behind, steady split behind.near nofun⟩

variable {follow : Rule → Pairs}

/-- **A phrase that suits what stands behind it reads a text and the same text with more layout in
step.** -/
theorem inStep_of_takes
    (suits_body : ∀ {r : Rule} {body : Phrase}, r.body = .phrase body →
      body.Suits follow (follow r))
    {found more : List (List Char)} (takes : p.Takes input found rest)
    (suits : p.Suits follow behind) (solid : ∀ token ∈ more, Solid token)
    (loosened : Loosened (found ++ more) input other)
    (at_token : (∀ item, p ≠ .many item) → Trimmed input other) :
    ∃ rest', Loosened more rest rest' ∧
      (behind (skip rest) (skip rest') → p.InStep input other rest rest') := by
  induction takes generalizing behind more other with
  | empty => exact ⟨other, loosened, fun _ => .empty⟩
  | token split =>
    obtain ⟨rest', loosened_rest, split'⟩ :=
      split_loosened suits split loosened (at_token nofun)
    exact ⟨rest', loosened_rest, fun _ => .token split split'⟩
  | rule_token is_body split =>
    obtain ⟨rest', loosened_rest, split'⟩ :=
      split_loosened (Rule.steady is_body) split loosened (at_token nofun)
    exact ⟨rest', loosened_rest, fun _ => .rule_token is_body split split'⟩
  | rule is_body takes ih =>
    obtain ⟨rest', loosened_rest, inStep⟩ :=
      ih (suits_body is_body) solid loosened fun _ => at_token nofun
    exact ⟨rest', loosened_rest, fun known =>
      .rule is_body (inStep (suits (loosened_rest.aligned solid) known))⟩
  | seq first_takes second_takes first_ih second_ih =>
    have right_solid := List.forall_mem_append.mpr
      ⟨second_takes.solid fun _ => skip_skip _, solid⟩
    rw [List.append_assoc] at loosened
    obtain ⟨middle', loosened_middle, first_inStep⟩ :=
      first_ih suits.1 right_solid loosened fun _ => at_token nofun
    obtain ⟨rest', loosened_rest, second_inStep⟩ :=
      second_ih suits.2 solid (loosened_middle.skip right_solid)
        fun _ => trimmed_skip _ _
    exact ⟨rest', loosened_rest, fun known =>
      .seq (first_inStep ⟨_, _, second_inStep known, known⟩) (second_inStep known)⟩
  | alt_first takes ih =>
    obtain ⟨rest', loosened_rest, inStep⟩ := ih suits.1 solid loosened fun _ => at_token nofun
    exact ⟨rest', loosened_rest, fun known => .alt_first (inStep known)⟩
  | alt_second rejects takes ih =>
    have trimmed := at_token nofun
    obtain ⟨rest', loosened_rest, inStep⟩ := ih suits.2.1 solid loosened fun _ => trimmed
    exact ⟨rest', loosened_rest, fun known => .alt_second rejects
      (suits.2.2 ⟨trimmed, loosened.near⟩ ⟨_, _, inStep known, known⟩ rejects)
      (inStep known)⟩
  | many_nil rejects =>
    exact ⟨other, loosened, fun known =>
      .many_nil rejects (suits.2 (loosened.aligned solid) known rejects)⟩
  | many_cons item_takes many_takes item_ih many_ih =>
    have many_solid := List.forall_mem_append.mpr
      ⟨many_takes.solid fun not_many => absurd rfl (not_many _), solid⟩
    have all_solid := List.forall_mem_append.mpr
      ⟨item_takes.solid fun _ => skip_skip _, many_solid⟩
    rw [List.append_assoc] at loosened
    obtain ⟨middle', loosened_middle, item_inStep⟩ :=
      item_ih suits.1 many_solid (loosened.skip all_solid) fun _ => trimmed_skip _ _
    obtain ⟨rest', loosened_rest, many_inStep⟩ :=
      many_ih suits solid loosened_middle fun not_many => absurd rfl (not_many _)
    exact ⟨rest', loosened_rest, fun known =>
      .many_cons (item_inStep (Opens.of_many (many_inStep known) known)) (many_inStep known)⟩
  | optional_none rejects =>
    have trimmed := at_token nofun
    refine ⟨other, loosened, fun known => .optional_none rejects ?_⟩
    rw [trimmed.skipped, trimmed.skipped'] at known
    exact suits.2 ⟨trimmed, loosened.near⟩ known rejects
  | optional_some takes ih =>
    obtain ⟨rest', loosened_rest, inStep⟩ := ih suits.1 solid loosened fun _ => at_token nofun
    exact ⟨rest', loosened_rest, fun known => .optional_some (inStep known)⟩

end Phrase

end GridStencil.Grammar
