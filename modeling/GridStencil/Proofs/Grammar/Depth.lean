import GridStencil.Grammar.Tree
import GridStencil.Proofs.Grammar.Pattern

/-!
**The bound on the depth never decides what a phrase matches.**

Reading a phrase opens other phrases; how many before it takes a character is its rank
(`Phrase.rank`), which for the rules of the grammar stays below 256. So a phrase of rank `n` in
front of `k` characters never nests deeper than `n + 256 * k` phrases, and with that depth its
match is the same as with any greater one (`Phrase.read_deeper`). `Phrase.Gives` is what a phrase
gives with depth enough; every phrase of the grammar gives something (`Phrase.gives_total`), and
`readTree_ok_iff` says that the tree of a text is what the phrase of a whole file gives.
-/

namespace GridStencil.Grammar

/-! ### Phrases that may take nothing -/

/-- Whether a pattern may take nothing. -/
def Pattern.nullable : Pattern → Bool
  | char _ => false
  | run _ | optional _ | absent _ => true
  | word text => text.isEmpty
  | seq first second => first.nullable && second.nullable
  | alt first second => first.nullable || second.nullable

/-- Whether a rule may take nothing. -/
def Rule.nullable : Rule → Bool
  | endOfInput | computations | params | externals | file => true
  | _ => false

/-- Whether a phrase may take nothing. -/
def Phrase.nullable : Phrase → Bool
  | empty | many _ | optional _ => true
  | token pattern => pattern.nullable
  | rule part => part.nullable
  | seq first second => first.nullable && second.nullable
  | alt first second => first.nullable || second.nullable

/-- How many phrases open before a character is taken, when rules open as many as given. Behind a
phrase that takes a character there are 256 more to spend. -/
def Phrase.rankWith (ranks : Rule → Nat) : Phrase → Nat
  | empty | token _ => 1
  | rule part => ranks part + 1
  | seq first second =>
    max (first.rankWith ranks)
      (if first.nullable then second.rankWith ranks else second.rankWith ranks - 256) + 1
  | alt first second => max (first.rankWith ranks) (second.rankWith ranks) + 1
  | many item | optional item => item.rankWith ranks + 1

/-- How many phrases a rule opens, when rules are followed into each other `levels` times. -/
def Rule.rankWithin : Nat → Rule → Nat
  | 0, _ => 0
  | levels + 1, r =>
    match r.body with
    | .token _ => 0
    | .phrase body => body.rankWith (rankWithin levels)

/-- How many phrases a rule opens before it takes a character. No rule is followed through more
than three others without taking one. -/
def Rule.rank (r : Rule) : Nat := rankWithin 4 r

/-- How many phrases a phrase opens before it takes a character. -/
def Phrase.rank (p : Phrase) : Nat := p.rankWith Rule.rank

/-- Whether everything that a phrase repeats takes a character each time. -/
def Phrase.Progresses : Phrase → Prop
  | empty | token _ | rule _ => True
  | seq first second | alt first second => first.Progresses ∧ second.Progresses
  | many item => item.nullable = false ∧ item.Progresses
  | optional item => item.Progresses

instance Phrase.decidableProgresses : (p : Phrase) → Decidable p.Progresses
  | empty | token _ | rule _ => inferInstanceAs (Decidable True)
  | seq first second | alt first second =>
    have := decidableProgresses first
    have := decidableProgresses second
    inferInstanceAs (Decidable (_ ∧ _))
  | many item =>
    have := decidableProgresses item
    inferInstanceAs (Decidable (_ ∧ _))
  | optional item => decidableProgresses item

/-- What the ranks say about the body of a rule. -/
structure Rule.Bounded (r : Rule) (body : Phrase) : Prop where
  rank : body.rank ≤ r.rank
  progresses : body.Progresses
  nullable : r.nullable = false → body.nullable = false

theorem Rule.bounded_of_body {r : Rule} {body : Phrase} (is_body : r.body = .phrase body) :
    r.Bounded body := by
  cases r <;> simp only [Rule.body, reduceCtorEq, Body.phrase.injEq] at is_body <;>
    subst is_body <;> constructor <;> decide +kernel

theorem Rule.nullable_of_body {r : Rule} {pattern : Pattern} (is_body : r.body = .token pattern)
    (takes : r.nullable = false) : pattern.nullable = false := by
  cases r <;> simp only [Rule.body, reduceCtorEq, Body.token.injEq] at is_body <;>
    subst is_body <;> first | rfl | exact absurd takes (by decide)

theorem Pattern.suffix_of_split {pattern : Pattern} {input : List Char}
    {parts : List Char × List Char} (split : pattern.split input = some parts) :
    parts.2 <:+ input :=
  ⟨parts.1, (append_of_split split).symm⟩

theorem Pattern.shorter_of_split {pattern : Pattern} {input : List Char}
    {parts : List Char × List Char} (split : pattern.split input = some parts)
    (takes : pattern.nullable = false) : parts.2.length < input.length := by
  induction pattern generalizing input parts with
  | char test =>
    cases input with
    | nil => simp [Pattern.split] at split
    | cons c cs =>
      simp only [Pattern.split, Option.ite_none_right_eq_some, Option.some.injEq] at split
      simp [← split.2]
  | run test | optional _ | absent _ => simp [nullable] at takes
  | word text =>
    have all := append_of_split split
    simp only [Pattern.split, Option.ite_none_right_eq_some, Option.some.injEq] at split
    have nonempty : text ≠ [] := by simpa [nullable] using takes
    have positive : 0 < text.length := List.length_pos_iff.mpr nonempty
    rw [all, List.length_append, ← split.2]
    dsimp only
    omega
  | seq first second first_ih second_ih =>
    simp only [Pattern.split, Option.bind_eq_some_iff, Option.map_eq_some_iff] at split
    obtain ⟨left, left_eq, right, right_eq, rfl⟩ := split
    have left_le := (suffix_of_split left_eq).length_le
    have right_le := (suffix_of_split right_eq).length_le
    dsimp only
    simp only [nullable, Bool.and_eq_false_iff] at takes
    rcases takes with takes | takes
    · have := first_ih left_eq takes
      omega
    · have := second_ih right_eq takes
      omega
  | alt first second first_ih second_ih =>
    simp only [nullable, Bool.or_eq_false_iff] at takes
    rcases Option.or_eq_some_iff.mp split with taken | ⟨-, taken⟩
    · exact first_ih taken takes.1
    · exact second_ih taken takes.2

/-! ### Layout -/

/-- A text without the layout at its start. -/
def skip (input : List Char) : List Char := (Cursor.mk input 0).skipLayout.rest

namespace Cursor

theorem rest_skipFrom (inComment : Bool) (input : List Char) (offset other : Nat) :
    (skipFrom inComment input offset).rest = (skipFrom inComment input other).rest := by
  induction input generalizing inComment offset other with
  | nil => rfl
  | cons c cs ih =>
    unfold skipFrom
    split
    · exact ih _ _ _
    · split
      · exact ih _ _ _
      · split
        · exact ih _ _ _
        · rfl

@[simp] theorem rest_skipLayout (cursor : Cursor) : cursor.skipLayout.rest = skip cursor.rest :=
  rest_skipFrom false cursor.rest cursor.offset 0

theorem suffix_skipFrom (inComment : Bool) (input : List Char) (offset : Nat) :
    (skipFrom inComment input offset).rest <:+ input := by
  induction input generalizing inComment offset with
  | nil => exact List.suffix_refl []
  | cons c cs ih =>
    unfold skipFrom
    split
    · exact (ih _ _).trans (List.suffix_cons c cs)
    · split
      · exact (ih _ _).trans (List.suffix_cons c cs)
      · split
        · exact (ih _ _).trans (List.suffix_cons c cs)
        · exact List.suffix_refl _

end Cursor

theorem suffix_skip (input : List Char) : skip input <:+ input :=
  Cursor.suffix_skipFrom false input 0

@[simp] theorem skip_skip (input : List Char) : skip (skip input) = skip input := by
  have twice := congrArg Cursor.rest (Cursor.skipLayout_skipLayout ⟨input, 0⟩)
  rwa [Cursor.rest_skipLayout, Cursor.rest_skipLayout] at twice

/-! ### Reading without the record of what was tried -/

/-- What a phrase matches at a position when phrases nest at most `depth` deep. -/
def Phrase.outcome : Nat → Phrase → Cursor → Option Match
  | 0, _, _ => none
  | depth + 1, phrase, cursor =>
    match phrase with
    | .empty => some ⟨[], cursor⟩
    | .token pattern =>
      (pattern.split cursor.rest).map fun parts => ⟨[], cursor.behind parts.1 parts.2⟩
    | .rule part =>
      match part.body with
      | .token pattern =>
        (pattern.split cursor.rest).map fun parts =>
          let next := cursor.behind parts.1 parts.2
          ⟨[.mk part ⟨cursor.offset, next.offset⟩ (String.ofList parts.1) []], next⟩
      | .phrase body =>
        (body.outcome depth cursor).map fun found =>
          ⟨[.mk part ⟨cursor.offset, found.cursor.offset⟩ "" found.nodes], found.cursor⟩
    | .seq first second =>
      (first.outcome depth cursor).bind fun left =>
        (second.outcome depth left.cursor.skipLayout).map fun right =>
          ⟨left.nodes ++ right.nodes, right.cursor⟩
    | .alt first second => (first.outcome depth cursor).or (second.outcome depth cursor)
    | .many item =>
      match item.outcome depth cursor.skipLayout with
      | none => some ⟨[], cursor⟩
      | some first =>
        match (Phrase.many item).outcome depth first.cursor with
        | none => some first
        | some rest => some ⟨first.nodes ++ rest.nodes, rest.cursor⟩
    | .optional item => some ((item.outcome depth cursor).getD ⟨[], cursor⟩)

namespace Phrase

variable {p first second item : Phrase} {r : Rule} {cursor : Cursor} {found : Match}

theorem snd_read (depth : Nat) (p : Phrase) (cursor : Cursor) (attempts : Attempts) :
    (p.read depth cursor attempts).2 = p.outcome depth cursor := by
  induction depth generalizing p cursor attempts with
  | zero => rfl
  | succ depth ih =>
    cases p with
    | empty => rfl
    | token pattern =>
      simp only [read, outcome, Pattern.scan_eq, Option.map_map]
      rfl
    | rule part =>
      simp only [read, outcome]
      cases part.body with
      | token pattern =>
        simp only [Pattern.scan_eq]
        cases split : pattern.split cursor.rest with
        | none => rfl
        | some parts =>
          have all : cursor.rest = parts.1 ++ parts.2 := Pattern.append_of_split split
          simp only [Option.map_some, Cursor.textTo_behind all]
      | phrase body =>
        simp only [← ih body cursor attempts]
        rcases body.read depth cursor attempts with ⟨tried, _ | inner⟩ <;> rfl
    | seq first second =>
      simp only [read, outcome, ← ih first cursor attempts]
      rcases first.read depth cursor attempts with ⟨tried, _ | left⟩
      · rfl
      · simp only [Option.bind_some, ← ih second left.cursor.skipLayout tried]
        rcases second.read depth left.cursor.skipLayout tried with ⟨tried, _ | right⟩ <;> rfl
    | alt first second =>
      simp only [read, outcome, ← ih first cursor attempts]
      rcases first.read depth cursor attempts with ⟨tried, _ | left⟩
      · simp only [Option.none_or, ← ih second cursor tried]
      · rfl
    | many item =>
      simp only [read, outcome, ← ih item cursor.skipLayout attempts]
      rcases item.read depth cursor.skipLayout attempts with ⟨tried, _ | left⟩
      · rfl
      · simp only [← ih (many item) left.cursor tried]
        rcases (many item).read depth left.cursor tried with ⟨tried, _ | rest⟩ <;> rfl
    | optional item =>
      simp only [read, outcome, ← ih item cursor attempts]
      rcases item.read depth cursor attempts with ⟨tried, _ | inner⟩ <;> rfl

/-! ### What is taken -/

/-- A phrase leaves an end of the text, a shorter one unless it may take nothing. -/
theorem outcome_takes {depth : Nat} (outcome : p.outcome depth cursor = some found) :
    found.cursor.rest <:+ cursor.rest ∧
      (p.nullable = false → found.cursor.rest.length < cursor.rest.length) := by
  induction depth generalizing p cursor found with
  | zero => simp [Phrase.outcome] at outcome
  | succ depth ih =>
    cases p with
    | empty =>
      simp only [Phrase.outcome, Option.some.injEq] at outcome
      subst outcome
      exact ⟨List.suffix_refl _, by simp [nullable]⟩
    | token pattern =>
      simp only [Phrase.outcome, Option.map_eq_some_iff] at outcome
      obtain ⟨parts, split, rfl⟩ := outcome
      exact ⟨Pattern.suffix_of_split split, Pattern.shorter_of_split split⟩
    | rule part =>
      simp only [Phrase.outcome] at outcome
      cases is_body : part.body with
      | token pattern =>
        simp only [is_body, Option.map_eq_some_iff] at outcome
        obtain ⟨parts, split, rfl⟩ := outcome
        exact ⟨Pattern.suffix_of_split split, fun takes =>
          Pattern.shorter_of_split split (Rule.nullable_of_body is_body takes)⟩
      | phrase body =>
        simp only [is_body, Option.map_eq_some_iff] at outcome
        obtain ⟨inner, inner_eq, rfl⟩ := outcome
        obtain ⟨suffix, shorter⟩ := ih inner_eq
        exact ⟨suffix, fun takes => shorter ((Rule.bounded_of_body is_body).nullable takes)⟩
    | seq first second =>
      simp only [Phrase.outcome, Option.bind_eq_some_iff, Option.map_eq_some_iff] at outcome
      obtain ⟨left, left_eq, right, right_eq, rfl⟩ := outcome
      obtain ⟨left_suffix, left_shorter⟩ := ih left_eq
      obtain ⟨right_suffix, right_shorter⟩ := ih right_eq
      rw [Cursor.rest_skipLayout] at right_suffix right_shorter
      have skipped := (suffix_skip left.cursor.rest).length_le
      have left_le := left_suffix.length_le
      have right_le := right_suffix.length_le
      refine ⟨right_suffix.trans ((suffix_skip _).trans left_suffix), fun takes => ?_⟩
      simp only [nullable, Bool.and_eq_false_iff] at takes
      rcases takes with takes | takes
      · have := left_shorter takes
        dsimp only
        omega
      · have := right_shorter takes
        dsimp only
        omega
    | alt first second =>
      simp only [Phrase.outcome, Option.or_eq_some_iff] at outcome
      simp only [nullable, Bool.or_eq_false_iff]
      rcases outcome with taken | ⟨-, taken⟩
      · exact ⟨(ih taken).1, fun takes => (ih taken).2 takes.1⟩
      · exact ⟨(ih taken).1, fun takes => (ih taken).2 takes.2⟩
    | many item =>
      refine ⟨?_, by simp [nullable]⟩
      simp only [Phrase.outcome] at outcome
      split at outcome
      · cases outcome
        exact List.suffix_refl _
      · next first first_eq =>
        have first_suffix := (ih first_eq).1
        rw [Cursor.rest_skipLayout] at first_suffix
        replace first_suffix := first_suffix.trans (suffix_skip _)
        split at outcome
        · cases outcome
          exact first_suffix
        · next rest rest_eq =>
          cases outcome
          exact (ih rest_eq).1.trans first_suffix
    | optional item =>
      refine ⟨?_, by simp [nullable]⟩
      simp only [Phrase.outcome, Option.some.injEq] at outcome
      cases inner : item.outcome depth cursor with
      | none =>
        simp only [inner, Option.getD_none] at outcome
        subst outcome
        exact List.suffix_refl _
      | some taken =>
        simp only [inner, Option.getD_some] at outcome
        subst outcome
        exact (ih inner).1

/-! ### Depth enough -/

/-- With the depth that the rank asks for, more depth changes nothing. -/
theorem outcome_deeper {depth : Nat} (progresses : p.Progresses)
    (enough : p.rank + 256 * cursor.rest.length ≤ depth) (more : Nat) :
    p.outcome (depth + more) cursor = p.outcome depth cursor := by
  induction depth generalizing p cursor with
  | zero =>
    have positive : 0 < p.rank := by cases p <;> simp [rank, rankWith]
    omega
  | succ depth ih =>
    rw [show depth + 1 + more = depth + more + 1 by omega]
    cases p with
    | empty => rfl
    | token pattern => rfl
    | rule part =>
      simp only [Phrase.outcome]
      cases is_body : part.body with
      | token pattern => rfl
      | phrase body =>
        have bounded := Rule.bounded_of_body is_body
        have below : body.rank + 256 * cursor.rest.length ≤ depth := by
          have opens : (rule part).rank = part.rank + 1 := rfl
          have := bounded.rank
          omega
        simp only [ih bounded.progresses below]
    | seq first second =>
      have first_below : first.rank + 256 * cursor.rest.length ≤ depth := by
        simp only [rank, rankWith] at enough ⊢
        omega
      simp only [Phrase.outcome, ih progresses.1 first_below]
      cases left_eq : first.outcome depth cursor with
      | none => rfl
      | some left =>
        have second_below : second.rank + 256 * left.cursor.skipLayout.rest.length ≤ depth := by
          obtain ⟨suffix, shorter⟩ := outcome_takes left_eq
          have skipped := (suffix_skip left.cursor.rest).length_le
          have length_le := suffix.length_le
          rw [Cursor.rest_skipLayout]
          simp only [rank, rankWith] at enough ⊢
          split at enough
          · omega
          · next takes =>
            have := shorter (by simpa using takes)
            omega
        simp only [Option.bind_some, ih progresses.2 second_below]
    | alt first second =>
      have both : first.rank + 256 * cursor.rest.length ≤ depth ∧
          second.rank + 256 * cursor.rest.length ≤ depth := by
        simp only [rank, rankWith] at enough ⊢
        omega
      simp only [Phrase.outcome, ih progresses.1 both.1, ih progresses.2 both.2]
    | many item =>
      have skipped := (suffix_skip cursor.rest).length_le
      have item_below : item.rank + 256 * cursor.skipLayout.rest.length ≤ depth := by
        rw [Cursor.rest_skipLayout]
        simp only [rank, rankWith] at enough ⊢
        omega
      simp only [Phrase.outcome, ih progresses.2 item_below]
      cases first_eq : item.outcome depth cursor.skipLayout with
      | none => rfl
      | some first =>
        have many_below : (many item).rank + 256 * first.cursor.rest.length ≤ depth := by
          have shorter := (outcome_takes first_eq).2 progresses.1
          rw [Cursor.rest_skipLayout] at shorter
          omega
        simp only [ih progresses many_below]
    | optional item =>
      have item_below : item.rank + 256 * cursor.rest.length ≤ depth := by
        simp only [rank, rankWith] at enough ⊢
        omega
      have item_progresses : item.Progresses := progresses
      simp only [Phrase.outcome, ih item_progresses item_below]

/-- What a phrase matches when the depth does not stop it. -/
def Gives (p : Phrase) (cursor : Cursor) (result : Option Match) : Prop :=
  ∃ least, ∀ depth, least ≤ depth → p.outcome depth cursor = result

theorem Gives.unique {result other : Option Match} (gives : p.Gives cursor result)
    (gives_other : p.Gives cursor other) : result = other := by
  obtain ⟨least, all⟩ := gives
  obtain ⟨least_other, all_other⟩ := gives_other
  rw [← all (max least least_other) (by omega), all_other _ (by omega)]

theorem gives_outcome {depth : Nat} (progresses : p.Progresses)
    (enough : p.rank + 256 * cursor.rest.length ≤ depth) :
    p.Gives cursor (p.outcome depth cursor) := by
  refine ⟨depth, fun deeper le => ?_⟩
  obtain ⟨more, rfl⟩ := Nat.exists_eq_add_of_le le
  exact outcome_deeper progresses enough more

/-- A phrase that progresses gives something, be it nothing. -/
theorem gives_total (progresses : p.Progresses) (cursor : Cursor) :
    ∃ result, p.Gives cursor result :=
  ⟨_, gives_outcome progresses (Nat.le_refl _)⟩

end Phrase

/-- The tree of a text is what the phrase of a whole file gives for it. -/
theorem readTree_ok_iff {text : String} {root : Node} :
    readTree text = .ok root ↔
      ∃ cursor, (Phrase.rule .file).Gives (.ofText text) (some ⟨[root], cursor⟩) := by
  have enough : (Phrase.rule .file).rank + 256 * (Cursor.ofText text).rest.length ≤
      depthFor text := by
    have rank_le : (Phrase.rule .file).rank ≤ 256 := by decide +kernel
    have width : (Cursor.ofText text).rest.length = text.length := String.length_toList
    simp only [depthFor, width]
    omega
  have progresses : (Phrase.rule .file).Progresses := trivial
  have gives := Phrase.gives_outcome progresses enough
  rw [← Phrase.snd_read _ _ _ .none] at gives
  unfold readTree
  constructor
  · intro read
    split at read
    · next found eq =>
      cases read
      rw [eq] at gives
      exact ⟨_, gives⟩
    · cases read
  · rintro ⟨cursor, given⟩
    have same := gives.unique given
    split
    · next found eq =>
      rw [eq] at same
      simp_all
    · next attempts result none_fits eq =>
      rw [eq] at same
      exact absurd same (none_fits root cursor)

end GridStencil.Grammar
