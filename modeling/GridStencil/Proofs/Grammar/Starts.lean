import GridStencil.Proofs.Grammar.InStep

/-!
**The characters that phrases start with.**

`Phrase.starts` says whether a phrase may start with a character: a token has the characters that
its pattern may take first, and a rule those of what it stands for. A phrase that takes something
does not match in front of another character (`Phrase.Rejects.of_starts`), and what is read in step
starts with one of its characters (`Phrase.Opens.starts`).
-/

namespace GridStencil.Grammar

/-- Whether what a pattern takes may start with a character. -/
def Pattern.starts : Pattern → Char → Bool
  | char test, c | run test, c => test c
  | word text, c => text.head? == some c
  | seq first second, c => first.starts c || (first.nullable && second.starts c)
  | alt first second, c => first.starts c || second.starts c
  | optional pattern, c => pattern.starts c
  | absent _, _ => false

/-- Whether what a phrase takes may start with a character, when that is known of the rules. -/
def Phrase.startsWith (rules : Rule → Char → Bool) : Phrase → Char → Bool
  | empty, _ => false
  | token pattern, c => pattern.starts c
  | rule r, c => rules r c
  | seq first second, c =>
    first.startsWith rules c || (first.nullable && second.startsWith rules c)
  | alt first second, c => first.startsWith rules c || second.startsWith rules c
  | many item, c | optional item, c => item.startsWith rules c

/-- Whether what a rule stands for may start with a character, when rules are followed into each
other `levels` times. -/
def Rule.startsWithin : Nat → Rule → Char → Bool
  | 0, _, _ => false
  | levels + 1, r, c =>
    match r.body with
    | .token pattern => pattern.starts c
    | .phrase body => body.startsWith (startsWithin levels) c

/-- Whether what a rule stands for may start with a character. No rule is followed through more than
three others without taking one. -/
def Rule.starts (r : Rule) : Char → Bool := startsWithin 4 r

/-- Whether what a phrase takes may start with a character. -/
def Phrase.starts (p : Phrase) : Char → Bool := p.startsWith Rule.starts

theorem Rule.starts_of_body {r : Rule} {body : Phrase} (is_body : r.body = .phrase body) (c : Char) :
    r.starts c = body.starts c := by
  cases r <;> simp only [Rule.body, reduceCtorEq, Body.phrase.injEq] at is_body <;>
    subst is_body <;> rfl

theorem Rule.starts_of_token {r : Rule} {pattern : Pattern} (is_body : r.body = .token pattern)
    (c : Char) : r.starts c = pattern.starts c := by
  simp only [Rule.starts, Rule.startsWithin, is_body]

/-! ### Where nothing starts -/

theorem Pattern.starts_of_split {p : Pattern} {c : Char} {taken rest : List Char}
    {input : List Char} (split : p.split input = some (c :: taken, rest)) : p.starts c = true := by
  induction p generalizing c taken rest input with
  | char test =>
    cases input with
    | nil => cases split
    | cons d ds =>
      simp only [Pattern.split, Option.ite_none_right_eq_some, Option.some.injEq,
        Prod.mk.injEq] at split
      obtain ⟨inside, same, -⟩ := split
      obtain ⟨rfl, -⟩ := List.cons.inj same
      exact inside
  | run test =>
    simp only [Pattern.split, Option.some.injEq, Prod.mk.injEq] at split
    have all := List.all_takeWhile (p := test) (l := input)
    rw [split.1] at all
    exact List.all_eq_true.mp all c List.mem_cons_self
  | word text =>
    simp only [Pattern.split, Option.ite_none_right_eq_some, Option.some.injEq,
      Prod.mk.injEq] at split
    simp [Pattern.starts, split.2.1]
  | seq first second first_ih second_ih =>
    simp only [Pattern.split, Option.bind_eq_some_iff, Option.map_eq_some_iff] at split
    obtain ⟨⟨front, middle⟩, front_eq, ⟨behind, left⟩, behind_eq, same⟩ := split
    obtain ⟨both, -⟩ := Prod.mk.inj same
    simp only [Pattern.starts, Bool.or_eq_true, Bool.and_eq_true]
    cases front with
    | cons d ds =>
      obtain ⟨rfl, -⟩ := List.cons.inj both
      exact .inl (first_ih front_eq)
    | nil =>
      obtain rfl : behind = c :: taken := both
      refine .inr ⟨?_, second_ih behind_eq⟩
      cases takes : first.nullable with
      | true => rfl
      | false =>
        have shorter := shorter_of_split front_eq takes
        rw [append_of_split front_eq] at shorter
        exact absurd shorter (Nat.lt_irrefl _)
  | alt first second first_ih second_ih =>
    simp only [Pattern.starts, Bool.or_eq_true]
    exact (Option.or_eq_some_iff.mp split).imp first_ih fun there => second_ih there.2
  | optional pattern ih =>
    simp only [Pattern.split, Option.some.injEq] at split
    cases found : pattern.split input with
    | none =>
      rw [found] at split
      cases split
    | some parts =>
      rw [found, Option.getD_some] at split
      exact ih (found.trans (congrArg some split))
  | absent pattern _ => simp [Pattern.split] at split

namespace Phrase

variable {p first second item : Phrase} {r : Rule} {pattern : Pattern}
  {input other rest rest' taken : List Char} {behind : Pairs} {c : Char} {cs : List Char}
  {found : List (List Char)}

/-- Whether a text starts with a character that a phrase may start with. -/
def StartsOn (p : Phrase) (input : List Char) : Prop :=
  ∃ c cs, input = c :: cs ∧ p.starts c = true

theorem startsOn_of_split (split : pattern.split input = some (taken, rest)) :
    (rest = input ∧ pattern.nullable = true) ∨ (token pattern).StartsOn input := by
  have parts := Pattern.append_of_split split
  cases taken with
  | nil =>
    obtain rfl : input = rest := parts
    refine .inl ⟨rfl, ?_⟩
    cases takes : pattern.nullable with
    | true => rfl
    | false => exact absurd (Pattern.shorter_of_split split takes) (Nat.lt_irrefl _)
  | cons c cs => exact .inr ⟨c, cs ++ rest, parts, Pattern.starts_of_split split⟩

/-- A phrase takes nothing or starts with one of its characters. -/
theorem Takes.startsOn (takes : p.Takes input found rest) (skipped : skip input = input) :
    (rest = input ∧ p.nullable = true) ∨ p.StartsOn input := by
  induction takes with
  | empty | many_nil _ | optional_none _ => exact .inl ⟨rfl, rfl⟩
  | token split => exact startsOn_of_split split
  | @rule_token r _ _ _ _ is_body split =>
    refine (startsOn_of_split split).imp (fun nothing => ⟨nothing.1, ?_⟩) ?_
    · cases takes : r.nullable with
      | true => exact takes
      | false =>
        rw [Rule.nullable_of_body is_body takes] at nothing
        exact absurd nothing.2 Bool.false_ne_true
    · rintro ⟨c, cs, at_char, starts⟩
      exact ⟨c, cs, at_char, (Rule.starts_of_token is_body c).trans starts⟩
  | @rule r _ _ _ _ is_body takes ih =>
    refine (ih skipped).imp (fun nothing => ⟨nothing.1, ?_⟩) ?_
    · cases takes : r.nullable with
      | true => exact takes
      | false =>
        rw [(Rule.bounded_of_body is_body).nullable takes] at nothing
        exact absurd nothing.2 Bool.false_ne_true
    · rintro ⟨c, cs, at_char, starts⟩
      exact ⟨c, cs, at_char, (Rule.starts_of_body is_body c).trans starts⟩
  | @seq first second _ _ _ _ _ _ _ first_ih second_ih =>
    rcases first_ih skipped with ⟨rfl, first_nullable⟩ | ⟨c, cs, at_char, starts⟩
    · rw [skipped] at second_ih
      refine (second_ih skipped).imp
        (fun nothing => ⟨nothing.1, by simp [nullable, first_nullable, nothing.2]⟩) ?_
      rintro ⟨c, cs, at_char, starts⟩
      exact ⟨c, cs, at_char, Bool.or_eq_true_iff.mpr (.inr (by rw [first_nullable]; exact starts))⟩
    · exact .inr ⟨c, cs, at_char, Bool.or_eq_true_iff.mpr (.inl starts)⟩
  | alt_first _ ih =>
    refine (ih skipped).imp (fun nothing => ⟨nothing.1, by simp [nullable, nothing.2]⟩) ?_
    rintro ⟨c, cs, at_char, starts⟩
    exact ⟨c, cs, at_char, Bool.or_eq_true_iff.mpr (.inl starts)⟩
  | alt_second _ _ ih =>
    refine (ih skipped).imp (fun nothing => ⟨nothing.1, by simp [nullable, nothing.2]⟩) ?_
    rintro ⟨c, cs, at_char, starts⟩
    exact ⟨c, cs, at_char, Bool.or_eq_true_iff.mpr (.inr starts)⟩
  | many_cons _ _ item_ih many_ih =>
    rw [skipped] at item_ih
    rcases item_ih skipped with ⟨rfl, -⟩ | startsOn
    · exact many_ih skipped
    · exact .inr startsOn
  | optional_some _ ih => exact (ih skipped).imp (fun nothing => ⟨nothing.1, rfl⟩) id

/-- A phrase does not match, or it takes tokens. -/
theorem rejects_or_takes (progresses : p.Progresses) (input : List Char) :
    p.Rejects input ∨ ∃ found rest, p.Takes input found rest := by
  have enough : Enough (p.rank + 256 * input.length) p input := ⟨progresses, Nat.le_refl _⟩
  cases read : p.tokens? (p.rank + 256 * input.length) input with
  | none => exact .inl (enough.rejects read)
  | some parts => exact .inr ⟨parts.1, parts.2, takes_of_tokens? enough read⟩

/-- Where none of its characters stands, a phrase that takes something does not match. -/
theorem Rejects.of_starts (progresses : p.Progresses) (takes : p.nullable = false)
    (skipped : skip input = input) (other : ¬ p.StartsOn input) : p.Rejects input := by
  rcases rejects_or_takes progresses input with rejects | ⟨found, rest, taken⟩
  · exact rejects
  · rcases taken.startsOn skipped with ⟨-, nothing⟩ | startsOn
    · rw [takes] at nothing
      cases nothing
    · exact absurd startsOn other

/-! ### Texts that are read in step -/

theorem InStep.takes (inStep : p.InStep input other rest rest') :
    ∃ found, p.Takes other found rest' := by
  induction inStep with
  | empty => exact ⟨_, .empty⟩
  | token _ split' => exact ⟨_, .token split'⟩
  | rule_token is_body _ split' => exact ⟨_, .rule_token is_body split'⟩
  | rule is_body _ ih => exact ih.imp fun _ => .rule is_body
  | seq _ _ first_ih second_ih =>
    obtain ⟨left, first_takes⟩ := first_ih
    obtain ⟨right, second_takes⟩ := second_ih
    exact ⟨_, .seq first_takes second_takes⟩
  | alt_first _ ih => exact ih.imp fun _ => .alt_first
  | alt_second _ rejects' _ ih => exact ih.imp fun _ => .alt_second rejects'
  | many_nil _ rejects' => exact ⟨_, .many_nil rejects'⟩
  | many_cons _ _ item_ih many_ih =>
    obtain ⟨left, item_takes⟩ := item_ih
    obtain ⟨right, many_takes⟩ := many_ih
    exact ⟨_, .many_cons item_takes many_takes⟩
  | optional_none _ rejects' => exact ⟨_, .optional_none rejects'⟩
  | optional_some _ ih => exact ih.imp fun _ => .optional_some

/-- Where a phrase opens that takes something, one of its characters stands. -/
theorem Opens.startsOn (opens : p.Opens behind input other) (trimmed : Trimmed input other)
    (takes : p.nullable = false) : p.StartsOn other := by
  obtain ⟨rest, rest', inStep, -⟩ := opens
  obtain ⟨found, taken⟩ := inStep.takes
  rcases taken.startsOn trimmed.skipped' with ⟨-, nothing⟩ | startsOn
  · rw [takes] at nothing
    cases nothing
  · exact startsOn

end Phrase

end GridStencil.Grammar
