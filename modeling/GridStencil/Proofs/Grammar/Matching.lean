import GridStencil.Proofs.Grammar.Depth

/-!
**How the matches of phrases are put together.**

`Phrase.Yields` says what a phrase takes of a text and what its nodes mean, wherever in a source
the text stands, and `Phrase.Rejects` that it does not match there. There is one rule for each way
in which phrases follow each other. What is left of a text counts up to layout, as every phrase
behind another skips it; `Phrase.Resumes` is for phrases that skip layout themselves.
-/

namespace GridStencil.Grammar.Phrase

variable {p first second item : Phrase} {r : Rule} {cursor : Cursor} {result : Option Match}
  {found left right : Match} {pattern : Pattern} {input middle rest taken : List Char}
  {meaning left_meaning right_meaning : List Node → Prop}

/-! ### One phrase at a position -/

/-- Depths that do not open a phrase do not count. -/
theorem gives_of_succ (least : Nat)
    (all : ∀ depth, least ≤ depth → p.outcome (depth + 1) cursor = result) :
    p.Gives cursor result := by
  refine ⟨least + 1, fun depth le => ?_⟩
  cases depth with
  | zero => omega
  | succ depth => exact all depth (by omega)

theorem gives_empty : empty.Gives cursor (some ⟨[], cursor⟩) :=
  gives_of_succ 0 fun _ _ => rfl

theorem gives_token : (token pattern).Gives cursor
    ((pattern.split cursor.rest).map fun parts => ⟨[], cursor.behind parts.1 parts.2⟩) :=
  gives_of_succ 0 fun _ _ => rfl

theorem gives_rule_token (is_body : r.body = .token pattern) : (rule r).Gives cursor
    ((pattern.split cursor.rest).map fun parts =>
      ⟨[.mk r ⟨cursor.offset, (cursor.behind parts.1 parts.2).offset⟩ (String.ofList parts.1) []],
        cursor.behind parts.1 parts.2⟩) :=
  gives_of_succ 0 fun depth _ => by simp only [outcome, is_body]

theorem gives_rule {body : Phrase} (is_body : r.body = .phrase body)
    (gives : body.Gives cursor result) : (rule r).Gives cursor
      (result.map fun found =>
        ⟨[.mk r ⟨cursor.offset, found.cursor.offset⟩ "" found.nodes], found.cursor⟩) := by
  obtain ⟨least, all⟩ := gives
  refine gives_of_succ least fun depth le => ?_
  simp only [outcome, is_body, all depth le]

theorem gives_seq (first_gives : first.Gives cursor (some left))
    (second_gives : second.Gives left.cursor.skipLayout result) : (seq first second).Gives cursor
      (result.map fun right => ⟨left.nodes ++ right.nodes, right.cursor⟩) := by
  obtain ⟨least, all⟩ := first_gives
  obtain ⟨least', all'⟩ := second_gives
  refine gives_of_succ (max least least') fun depth le => ?_
  simp only [outcome, all depth (by omega), all' depth (by omega), Option.bind_some]

theorem gives_seq_none (first_gives : first.Gives cursor none) :
    (seq first second).Gives cursor none := by
  obtain ⟨least, all⟩ := first_gives
  refine gives_of_succ least fun depth le => ?_
  simp only [outcome, all depth le, Option.bind_none]

theorem gives_alt_first (first_gives : first.Gives cursor (some found)) :
    (alt first second).Gives cursor (some found) := by
  obtain ⟨least, all⟩ := first_gives
  refine gives_of_succ least fun depth le => ?_
  simp only [outcome, all depth le, Option.some_or]

theorem gives_alt_second (first_gives : first.Gives cursor none)
    (second_gives : second.Gives cursor result) : (alt first second).Gives cursor result := by
  obtain ⟨least, all⟩ := first_gives
  obtain ⟨least', all'⟩ := second_gives
  refine gives_of_succ (max least least') fun depth le => ?_
  simp only [outcome, all depth (by omega), all' depth (by omega), Option.none_or]

theorem gives_many_nil (item_gives : item.Gives cursor.skipLayout none) :
    (many item).Gives cursor (some ⟨[], cursor⟩) := by
  obtain ⟨least, all⟩ := item_gives
  refine gives_of_succ least fun depth le => ?_
  simp only [outcome, all depth le]

theorem gives_many_cons (item_gives : item.Gives cursor.skipLayout (some left))
    (many_gives : (many item).Gives left.cursor (some right)) :
    (many item).Gives cursor (some ⟨left.nodes ++ right.nodes, right.cursor⟩) := by
  obtain ⟨least, all⟩ := item_gives
  obtain ⟨least', all'⟩ := many_gives
  refine gives_of_succ (max least least') fun depth le => ?_
  simp only [outcome, all depth (by omega), all' depth (by omega)]

theorem gives_optional (item_gives : item.Gives cursor result) :
    (optional item).Gives cursor (some (result.getD ⟨[], cursor⟩)) := by
  obtain ⟨least, all⟩ := item_gives
  refine gives_of_succ least fun depth le => ?_
  simp only [outcome, all depth le]

/-! ### What a match is made of -/

theorem seq_of_gives (progresses : (seq first second).Progresses)
    (gives : (seq first second).Gives cursor (some found)) :
    ∃ left right, first.Gives cursor (some left) ∧
      second.Gives left.cursor.skipLayout (some right) ∧
      found = ⟨left.nodes ++ right.nodes, right.cursor⟩ := by
  obtain ⟨_ | left, first_gives⟩ := gives_total progresses.1 cursor
  · cases gives.unique (gives_seq_none first_gives)
  · obtain ⟨_ | right, second_gives⟩ := gives_total progresses.2 left.cursor.skipLayout
    · cases gives.unique (gives_seq first_gives second_gives)
    · exact ⟨left, right, first_gives, second_gives,
        Option.some.inj (gives.unique (gives_seq first_gives second_gives))⟩

/-! ### What phrases take of a text -/

/-- In front of `input`, a phrase gives nodes with a meaning and leaves `rest` up to layout. -/
def Yields (p : Phrase) (input rest : List Char) (meaning : List Node → Prop) : Prop :=
  ∀ cursor : Cursor, cursor.rest = input →
    ∃ found, p.Gives cursor (some found) ∧ skip found.cursor.rest = skip rest ∧
      meaning found.nodes

/-- A phrase does not match in front of `input`. -/
def Rejects (p : Phrase) (input : List Char) : Prop :=
  ∀ cursor : Cursor, cursor.rest = input → p.Gives cursor none

/-- A phrase that skips layout yields the same wherever in the layout before `input` it starts. -/
def Resumes (p : Phrase) (input rest : List Char) (meaning : List Node → Prop) : Prop :=
  ∀ before, skip before = skip input → p.Yields before rest meaning

/-- Nodes of which the first ones have a meaning and the others have another. -/
def Both (first second : List Node → Prop) (nodes : List Node) : Prop :=
  ∃ left right, nodes = left ++ right ∧ first left ∧ second right

namespace Yields

theorem imp (yields : p.Yields input rest left_meaning)
    (imp : ∀ nodes, left_meaning nodes → meaning nodes) : p.Yields input rest meaning := by
  intro cursor at_input
  obtain ⟨found, gives, at_rest, meant⟩ := yields cursor at_input
  exact ⟨found, gives, at_rest, imp _ meant⟩

/-- Layout in front of what is left does not count. -/
theorem congr {other : List Char} (yields : p.Yields input rest meaning)
    (same : skip rest = skip other) : p.Yields input other meaning := by
  intro cursor at_input
  obtain ⟨found, gives, at_rest, meant⟩ := yields cursor at_input
  exact ⟨found, gives, at_rest.trans same, meant⟩

theorem empty (meant : meaning []) : Phrase.empty.Yields input input meaning := by
  rintro cursor rfl
  exact ⟨⟨[], cursor⟩, gives_empty, rfl, meant⟩

theorem token (split : pattern.split input = some (taken, rest)) (meant : meaning []) :
    (Phrase.token pattern).Yields input rest meaning := by
  rintro cursor rfl
  have gives : (Phrase.token pattern).Gives cursor _ := gives_token
  rw [split] at gives
  exact ⟨_, gives, rfl, meant⟩

theorem rule_token (is_body : r.body = .token pattern)
    (split : pattern.split input = some (taken, rest))
    (meant : ∀ span, meaning [.mk r span (String.ofList taken) []]) :
    (Phrase.rule r).Yields input rest meaning := by
  rintro cursor rfl
  have gives : (Phrase.rule r).Gives cursor _ := gives_rule_token is_body
  rw [split] at gives
  exact ⟨_, gives, rfl, meant _⟩

theorem rule {body : Phrase} (is_body : r.body = .phrase body)
    (yields : body.Yields input rest left_meaning)
    (meant : ∀ span nodes, left_meaning nodes → meaning [.mk r span "" nodes]) :
    (Phrase.rule r).Yields input rest meaning := by
  intro cursor at_input
  obtain ⟨found, gives, at_rest, inner⟩ := yields cursor at_input
  exact ⟨_, gives_rule is_body gives, at_rest, meant _ _ inner⟩

theorem seq (first_yields : first.Yields input middle left_meaning)
    (second_yields : second.Yields (skip middle) rest right_meaning)
    (join : ∀ left right, left_meaning left → right_meaning right → meaning (left ++ right)) :
    (Phrase.seq first second).Yields input rest meaning := by
  intro cursor at_input
  obtain ⟨left, first_gives, at_middle, left_meant⟩ := first_yields cursor at_input
  obtain ⟨right, second_gives, at_rest, right_meant⟩ :=
    second_yields left.cursor.skipLayout (by rw [Cursor.rest_skipLayout, at_middle])
  exact ⟨_, gives_seq first_gives second_gives, at_rest, join _ _ left_meant right_meant⟩

/-- A phrase and then another, from where the layout between them ends. -/
theorem next {between : List Char} (first_yields : first.Yields input middle left_meaning)
    (skipped : skip middle = between)
    (second_yields : second.Yields between rest right_meaning) :
    (Phrase.seq first second).Yields input rest (Both left_meaning right_meaning) :=
  first_yields.seq (skipped ▸ second_yields) fun left right left_meant right_meant =>
    ⟨left, right, rfl, left_meant, right_meant⟩

/-- Three phrases that follow each other may be put into pairs in both ways. -/
theorem assoc {third : Phrase} (progresses : (Phrase.seq first second).Progresses)
    (pair_yields : (Phrase.seq first second).Yields input middle left_meaning)
    (third_yields : third.Yields (skip middle) rest right_meaning)
    (join : ∀ left right, left_meaning left → right_meaning right → meaning (left ++ right)) :
    (Phrase.seq first (Phrase.seq second third)).Yields input rest meaning := by
  intro cursor at_input
  obtain ⟨pair, pair_gives, at_middle, left_meant⟩ := pair_yields cursor at_input
  obtain ⟨left, right, first_gives, second_gives, rfl⟩ := seq_of_gives progresses pair_gives
  obtain ⟨last, third_gives, at_rest, right_meant⟩ :=
    third_yields right.cursor.skipLayout (by rw [Cursor.rest_skipLayout, at_middle])
  refine ⟨_, gives_seq first_gives (gives_seq second_gives third_gives), at_rest, ?_⟩
  dsimp only
  rw [← List.append_assoc]
  exact join _ _ left_meant right_meant

theorem alt_first (yields : first.Yields input rest meaning) :
    (Phrase.alt first second).Yields input rest meaning := by
  intro cursor at_input
  obtain ⟨found, gives, at_rest, meant⟩ := yields cursor at_input
  exact ⟨found, gives_alt_first gives, at_rest, meant⟩

theorem alt_second (rejects : first.Rejects input) (yields : second.Yields input rest meaning) :
    (Phrase.alt first second).Yields input rest meaning := by
  intro cursor at_input
  obtain ⟨found, gives, at_rest, meant⟩ := yields cursor at_input
  exact ⟨found, gives_alt_second (rejects cursor at_input) gives, at_rest, meant⟩

/-- A choice takes the first phrase that matches. -/
theorem choice {before after : List Phrase} (rejects : ∀ q ∈ before, q.Rejects input)
    (yields : p.Yields input rest meaning) :
    (Phrase.choice (before ++ p :: after)).Yields input rest meaning := by
  induction before with
  | nil =>
    cases after with
    | nil => exact yields
    | cons q qs => exact alt_first yields
  | cons q qs ih =>
    have others := ih fun other inside => rejects other (List.mem_cons_of_mem q inside)
    cases qs with
    | nil => exact alt_second (rejects q List.mem_cons_self) others
    | cons q' qs => exact alt_second (rejects q List.mem_cons_self) others

theorem optional_some (yields : item.Yields input rest meaning) :
    (optional item).Yields input rest meaning := by
  intro cursor at_input
  obtain ⟨found, gives, at_rest, meant⟩ := yields cursor at_input
  exact ⟨found, gives_optional gives, at_rest, meant⟩

theorem optional_none (rejects : item.Rejects input) (meant : meaning []) :
    (optional item).Yields input input meaning := by
  intro cursor at_input
  exact ⟨_, gives_optional (rejects cursor at_input), congrArg skip at_input, meant⟩

end Yields

namespace Resumes

theorem yields (resumes : p.Resumes input rest meaning) : p.Yields input rest meaning :=
  resumes input rfl

/-- The layout in front of what a phrase takes may be skipped before. -/
theorem yields_skip (resumes : p.Resumes input rest meaning) :
    p.Yields (skip input) rest meaning :=
  resumes (skip input) (skip_skip input)

theorem many_nil (rejects : item.Rejects (skip input)) (meant : meaning []) :
    (many item).Resumes input input meaning := by
  rintro before same cursor rfl
  have none_given := rejects cursor.skipLayout (by rw [Cursor.rest_skipLayout, same])
  exact ⟨_, gives_many_nil none_given, same, meant⟩

theorem many_cons (item_yields : item.Yields (skip input) middle left_meaning)
    (many_resumes : (many item).Resumes middle rest right_meaning)
    (join : ∀ left right, left_meaning left → right_meaning right → meaning (left ++ right)) :
    (many item).Resumes input rest meaning := by
  rintro before same cursor rfl
  obtain ⟨left, item_gives, at_middle, left_meant⟩ :=
    item_yields cursor.skipLayout (by rw [Cursor.rest_skipLayout, same])
  obtain ⟨right, many_gives, at_rest, right_meant⟩ :=
    many_resumes left.cursor.rest at_middle left.cursor rfl
  exact ⟨_, gives_many_cons item_gives many_gives, at_rest, join _ _ left_meant right_meant⟩

/-- What is repeated, once and then as often as it follows. -/
theorem many_next (item_yields : item.Yields (skip input) middle left_meaning)
    (many_resumes : (many item).Resumes middle rest right_meaning) :
    (many item).Resumes input rest (Both left_meaning right_meaning) :=
  many_cons item_yields many_resumes fun left right left_meant right_meant =>
    ⟨left, right, rfl, left_meant, right_meant⟩

theorem seq (first_resumes : first.Resumes input middle left_meaning)
    (second_yields : second.Yields (skip middle) rest right_meaning)
    (join : ∀ left right, left_meaning left → right_meaning right → meaning (left ++ right)) :
    (Phrase.seq first second).Resumes input rest meaning :=
  fun before same => (first_resumes before same).seq second_yields join

/-- One more of what is repeated in front of a phrase. -/
theorem seq_many_cons (progresses : (Phrase.seq (many item) second).Progresses)
    (item_yields : item.Yields (skip input) middle left_meaning)
    (resumes : (Phrase.seq (many item) second).Resumes middle rest right_meaning)
    (join : ∀ left right, left_meaning left → right_meaning right → meaning (left ++ right)) :
    (Phrase.seq (many item) second).Resumes input rest meaning := by
  rintro before same cursor rfl
  obtain ⟨one, item_gives, at_middle, left_meant⟩ :=
    item_yields cursor.skipLayout (by rw [Cursor.rest_skipLayout, same])
  obtain ⟨pair, pair_gives, at_rest, right_meant⟩ :=
    resumes one.cursor.rest at_middle one.cursor rfl
  obtain ⟨left, right, many_gives, second_gives, rfl⟩ := seq_of_gives progresses pair_gives
  refine ⟨_, gives_seq (gives_many_cons item_gives many_gives) second_gives, at_rest, ?_⟩
  dsimp only
  rw [List.append_assoc]
  exact join _ _ left_meant right_meant

end Resumes

namespace Rejects

theorem token (split : pattern.split input = none) : (Phrase.token pattern).Rejects input := by
  rintro cursor rfl
  have gives : (Phrase.token pattern).Gives cursor _ := gives_token
  rwa [split] at gives

theorem rule_token (is_body : r.body = .token pattern) (split : pattern.split input = none) :
    (Phrase.rule r).Rejects input := by
  rintro cursor rfl
  have gives : (Phrase.rule r).Gives cursor _ := gives_rule_token is_body
  rwa [split] at gives

theorem rule {body : Phrase} (is_body : r.body = .phrase body) (rejects : body.Rejects input) :
    (Phrase.rule r).Rejects input :=
  fun cursor at_input => gives_rule is_body (rejects cursor at_input)

theorem seq_first (rejects : first.Rejects input) : (Phrase.seq first second).Rejects input :=
  fun cursor at_input => gives_seq_none (rejects cursor at_input)

theorem seq_second (yields : first.Yields input middle meaning)
    (rejects : second.Rejects (skip middle)) : (Phrase.seq first second).Rejects input := by
  intro cursor at_input
  obtain ⟨left, gives, at_middle, -⟩ := yields cursor at_input
  exact gives_seq gives
    (rejects left.cursor.skipLayout (by rw [Cursor.rest_skipLayout, at_middle]))

theorem alt (first_rejects : first.Rejects input) (second_rejects : second.Rejects input) :
    (Phrase.alt first second).Rejects input :=
  fun cursor at_input =>
    gives_alt_second (first_rejects cursor at_input) (second_rejects cursor at_input)

theorem choice {ps : List Phrase} (rejects : ∀ q ∈ ps, q.Rejects input) :
    (Phrase.choice ps).Rejects input := by
  induction ps with
  | nil => exact token rfl
  | cons q qs ih =>
    have others := ih fun other inside => rejects other (List.mem_cons_of_mem q inside)
    cases qs with
    | nil => exact rejects q List.mem_cons_self
    | cons q' qs => exact alt (rejects q List.mem_cons_self) others

end Rejects

end GridStencil.Grammar.Phrase
