import GridStencil.Proofs.Grammar.Numeral

/-!
**What a pattern takes does not depend on what stands far behind it.**

A text may be cut behind what a pattern takes of it (`Pattern.cuts`), and a pattern that matches in
front of the cut matches in front of everything that may follow (`Pattern.rises`); both are read
off the pattern. Two texts are `Near` each other if they agree up to a place from which the second
one goes on with layout. No token has layout in it, so a token of the first text is a token of the
second (`Pattern.Steady`), and most patterns that fail in front of the first text fail in front of
the second (`Pattern.split_none_of_near`).

* `Rule.steady`: every token of the grammar is read alike in front of near texts.
-/

namespace GridStencil.Grammar

/-! ### Near texts -/

/-- The characters that layout starts with. -/
def layoutStarts : List Char := [' ', '\t', '\n', '\r', '#']

theorem mem_layoutStarts {c : Char} : c ∈ layoutStarts ↔ isSolid c = false := by
  simp only [layoutStarts, List.mem_cons, List.not_mem_nil, or_false, isSolid, Cursor.isLayout,
    Bool.and_eq_false_iff, Bool.not_eq_false', Bool.or_eq_true, decide_eq_true_eq, bne_eq_false_iff_eq,
    or_assoc]

/-- Whether two texts agree up to a place where the second one ends or goes on with layout. -/
def Near (input other : List Char) : Prop :=
  ∃ front back back', input = front ++ back ∧ other = front ++ back' ∧
    ∀ c, back'.head? = some c → isSolid c = false

theorem Near.append {input other : List Char} (near : Near input other) (taken : List Char) :
    Near (taken ++ input) (taken ++ other) := by
  obtain ⟨front, back, back', rfl, rfl, starts⟩ := near
  exact ⟨taken ++ front, back, back', by simp, by simp, starts⟩

/-! ### Patterns and the end of a text -/

namespace Pattern

/-- Whether a pattern matches everywhere. -/
def total : Pattern → Bool
  | run _ | optional _ => true
  | seq first second => first.total && second.total
  | alt first second => first.total || second.total
  | _ => false

/-- Whether a pattern that does not match in front of a character does not match in front of any
text that starts with it. -/
def firstDecides : Pattern → Bool
  | char _ | run _ | optional _ => true
  | word text => text.length ≤ 1
  | alt first second => first.firstDecides && second.firstDecides
  | seq _ _ | absent _ => false

/-- Whether what a pattern takes depends on no more than one character behind it. -/
def oneAhead : Pattern → Bool
  | char _ | run _ | word _ => true
  | seq first second => first.oneAhead && second.oneAhead
  | alt first second => first.oneAhead && second.oneAhead && first.firstDecides
  | optional pattern => pattern.oneAhead && pattern.firstDecides
  | absent pattern => pattern.firstDecides

/-- Whether a pattern that matches a text matches every longer text. -/
def rises : Pattern → Bool
  | char _ | run _ | word _ | optional _ => true
  | seq first second =>
    (first.rises && second.total) || (first.oneAhead && second.rises && !second.nullable)
  | alt first second => first.rises && second.rises
  | absent _ => false

/-- Whether a pattern takes of a text what it takes of any longer text, if that is there. -/
def cuts : Pattern → Bool
  | char _ | run _ | word _ => true
  | seq first second => first.cuts && second.cuts
  | alt first second => first.cuts && second.cuts && first.rises
  | optional pattern => pattern.cuts && pattern.rises
  | absent pattern => pattern.rises

variable {p : Pattern} {input taken left back : List Char}

theorem split_isSome_of_total (total : p.total = true) (input : List Char) :
    (p.split input).isSome = true := by
  induction p generalizing input with
  | char _ | word _ | absent _ => cases total
  | run _ | optional _ => rfl
  | seq first second first_ih second_ih =>
    simp only [Pattern.total, Bool.and_eq_true] at total
    obtain ⟨front, front_eq⟩ := Option.isSome_iff_exists.mp (first_ih total.1 input)
    obtain ⟨behind, behind_eq⟩ := Option.isSome_iff_exists.mp (second_ih total.2 front.2)
    simp [split, front_eq, behind_eq]
  | alt first second first_ih second_ih =>
    simp only [Pattern.total, Bool.or_eq_true] at total
    simp only [split, Option.isSome_or, Bool.or_eq_true]
    exact total.imp (first_ih · input) (second_ih · input)

theorem split_none_of_firstDecides (decides : p.firstDecides = true) (nonempty : input ≠ [])
    (fails : p.split input = none) (back : List Char) : p.split (input ++ back) = none := by
  obtain ⟨c, cs, rfl⟩ := List.exists_cons_of_ne_nil nonempty
  induction p with
  | char test =>
    simp only [split, ite_eq_right_iff, reduceCtorEq, imp_false] at fails
    simp [split, fails]
  | run _ | optional _ => cases fails
  | seq _ _ | absent _ => cases decides
  | word text =>
    rcases text with - | ⟨w, - | ⟨v, more⟩⟩
    · cases fails
    · have differs : w ≠ c := by
        rintro rfl
        simp [split, List.isPrefixOf] at fails
      simp [split, List.isPrefixOf, differs]
    · cases decides
  | alt first second first_ih second_ih =>
    simp only [firstDecides, Bool.and_eq_true] at decides
    simp only [split, Option.or_eq_none_iff] at fails ⊢
    exact ⟨first_ih decides.1 fails.1, second_ih decides.2 fails.2⟩

theorem split_append_of_oneAhead (ahead : p.oneAhead = true) (nonempty : left ≠ [])
    (split : p.split input = some (taken, left)) (back : List Char) :
    p.split (input ++ back) = some (taken, left ++ back) := by
  induction p generalizing input taken left with
  | char test =>
    cases input with
    | nil => cases split
    | cons c cs =>
      simp only [Pattern.split, Option.ite_none_right_eq_some, Option.some.injEq,
        Prod.mk.injEq] at split
      obtain ⟨inside, rfl, rfl⟩ := split
      simp [Pattern.split, inside]
  | run test =>
    simp only [Pattern.split, Option.some.injEq, Prod.mk.injEq] at split
    obtain ⟨rfl, rfl⟩ := split
    induction input with
    | nil => exact absurd rfl nonempty
    | cons c cs ih =>
      by_cases inside : test c = true
      · simp only [List.dropWhile_cons, inside, if_true] at nonempty
        have rest := ih nonempty
        simp only [Pattern.split, Option.some.injEq, Prod.mk.injEq] at rest
        simp [Pattern.split, inside, rest]
      · simp [Pattern.split, inside]
  | word text =>
    simp only [Pattern.split, Option.ite_none_right_eq_some, Option.some.injEq,
      Prod.mk.injEq] at split
    obtain ⟨starts, rfl, rfl⟩ := split
    obtain ⟨more, rfl⟩ := List.isPrefixOf_iff_prefix.mp starts
    simp [Pattern.split]
  | seq first second first_ih second_ih =>
    simp only [oneAhead, Bool.and_eq_true] at ahead
    simp only [Pattern.split, Option.bind_eq_some_iff, Option.map_eq_some_iff] at split
    obtain ⟨⟨front, middle⟩, front_eq, ⟨behind, rest⟩, behind_eq, same⟩ := split
    obtain ⟨rfl, rfl⟩ := Prod.mk.inj same
    have middle_eq : middle = behind ++ rest := append_of_split behind_eq
    have middle_nonempty : middle ≠ [] := by
      rw [middle_eq]
      exact List.append_ne_nil_of_right_ne_nil _ nonempty
    rw [Pattern.split, first_ih ahead.1 middle_nonempty front_eq, Option.bind_some,
      second_ih ahead.2 nonempty behind_eq]
    rfl
  | alt first second first_ih second_ih =>
    simp only [oneAhead, Bool.and_eq_true] at ahead
    simp only [Pattern.split, Option.or_eq_some_iff] at split ⊢
    rcases split with here | ⟨not_here, there⟩
    · exact .inl (first_ih ahead.1.1 nonempty here)
    · have input_nonempty : input ≠ [] := by
        rw [append_of_split there]
        exact List.append_ne_nil_of_right_ne_nil _ nonempty
      exact .inr ⟨split_none_of_firstDecides ahead.2 input_nonempty not_here back,
        second_ih ahead.1.2 nonempty there⟩
  | optional pattern ih =>
    simp only [oneAhead, Bool.and_eq_true] at ahead
    simp only [Pattern.split, Option.some.injEq] at split ⊢
    cases found : pattern.split input with
    | none =>
      rw [found] at split
      obtain ⟨rfl, rfl⟩ := Prod.mk.inj split
      rw [split_none_of_firstDecides ahead.2 nonempty found back]
      rfl
    | some parts =>
      rw [found, Option.getD_some] at split
      subst split
      rw [ih ahead.1 nonempty found]
      rfl
  | absent pattern ih =>
    simp only [Pattern.split, Option.ite_none_left_eq_some, Option.some.injEq,
      Prod.mk.injEq] at split
    obtain ⟨fails, rfl, rfl⟩ := split
    have still_fails := split_none_of_firstDecides ahead nonempty
      (Option.not_isSome_iff_eq_none.mp fails) back
    simp [Pattern.split, still_fails]

theorem split_nil_of_nullable (takes : p.nullable = false) : p.split [] = none := by
  cases split : p.split [] with
  | none => rfl
  | some parts => exact absurd (shorter_of_split split takes) (Nat.not_lt_zero _)

theorem split_isSome_append (rises : p.rises = true) (found : (p.split input).isSome = true)
    (back : List Char) : (p.split (input ++ back)).isSome = true := by
  induction p generalizing input with
  | char test =>
    cases input with
    | nil => cases found
    | cons c cs =>
      by_cases inside : test c = true
      · simp [split, inside]
      · simp [split, inside] at found
  | run _ | optional _ => rfl
  | word text =>
    obtain ⟨parts, split⟩ := Option.isSome_iff_exists.mp found
    simp only [Pattern.split, Option.ite_none_right_eq_some] at split
    obtain ⟨more, rfl⟩ := List.isPrefixOf_iff_prefix.mp split.1
    simp [Pattern.split]
  | seq first second first_ih second_ih =>
    obtain ⟨parts, split⟩ := Option.isSome_iff_exists.mp found
    simp only [Pattern.split, Option.bind_eq_some_iff, Option.map_eq_some_iff] at split
    obtain ⟨⟨front, middle⟩, front_eq, behind, behind_eq, -⟩ := split
    simp only [Pattern.rises, Bool.or_eq_true, Bool.and_eq_true, Bool.not_eq_true'] at rises
    rcases rises with ⟨first_rises, second_total⟩ | ⟨⟨ahead, second_rises⟩, takes⟩
    · obtain ⟨longer, longer_eq⟩ := Option.isSome_iff_exists.mp
        (first_ih first_rises (by rw [front_eq]; rfl))
      rw [Pattern.split, longer_eq, Option.bind_some, Option.isSome_map]
      exact split_isSome_of_total second_total _
    · have nonempty : middle ≠ [] := by
        rintro rfl
        rw [split_nil_of_nullable takes] at behind_eq
        cases behind_eq
      rw [Pattern.split, split_append_of_oneAhead ahead nonempty front_eq, Option.bind_some,
        Option.isSome_map]
      exact second_ih second_rises (by rw [behind_eq]; rfl)
  | alt first second first_ih second_ih =>
    simp only [Pattern.rises, Bool.and_eq_true] at rises
    simp only [split, Option.isSome_or, Bool.or_eq_true] at found ⊢
    exact found.imp (first_ih rises.1) (second_ih rises.2)
  | absent _ => cases rises

/-- A pattern that fails in front of a text fails in front of every beginning of it. -/
theorem split_none_of_append (rises : p.rises = true) (fails : p.split (input ++ back) = none) :
    p.split input = none := by
  refine Option.not_isSome_iff_eq_none.mp fun found => ?_
  have longer := split_isSome_append rises found back
  rw [fails] at longer
  cases longer

/-- A text may be cut behind what is taken of it. -/
theorem split_of_append (cuts : p.cuts = true)
    (split : p.split (input ++ back) = some (taken, left ++ back)) :
    p.split input = some (taken, left) := by
  have input_eq : input = taken ++ left :=
    List.append_cancel_right ((append_of_split split).trans (List.append_assoc _ _ _).symm)
  induction p generalizing input taken left with
  | char test =>
    subst input_eq
    cases taken with
    | nil =>
      cases whole : [] ++ left ++ back with
      | nil =>
        rw [whole] at split
        cases split
      | cons c cs =>
        rw [whole] at split
        simp [Pattern.split] at split
    | cons c cs =>
      simp only [List.cons_append, Pattern.split, Option.ite_none_right_eq_some, Option.some.injEq,
        Prod.mk.injEq] at split ⊢
      obtain ⟨inside, same, -⟩ := split
      obtain ⟨-, rfl⟩ := List.cons.inj same
      exact ⟨inside, rfl, rfl⟩
  | run test =>
    simp only [Pattern.split, Option.some.injEq, Prod.mk.injEq] at split
    have all : taken.all test = true := split.1 ▸ List.all_takeWhile
    have stops : ∀ c, left.head? = some c → test c = false := by
      intro c head
      have outside := List.head?_dropWhile_not test (input ++ back)
      rw [split.2, List.head?_append, head] at outside
      simpa using outside
    rw [input_eq]
    exact split_run all stops
  | word text =>
    subst input_eq
    simp only [Pattern.split, Option.ite_none_right_eq_some, Option.some.injEq,
      Prod.mk.injEq] at split ⊢
    obtain ⟨-, rfl, -⟩ := split
    simp
  | seq first second first_ih second_ih =>
    simp only [Pattern.cuts, Bool.and_eq_true] at cuts
    simp only [Pattern.split, Option.bind_eq_some_iff, Option.map_eq_some_iff] at split ⊢
    obtain ⟨⟨front, middle⟩, front_eq, ⟨behind, rest⟩, behind_eq, same⟩ := split
    obtain ⟨rfl, rfl⟩ := Prod.mk.inj same
    have middle_eq : middle = (behind ++ left) ++ back :=
      (append_of_split behind_eq).trans (List.append_assoc _ _ _).symm
    subst middle_eq
    exact ⟨_, first_ih cuts.1 front_eq (by rw [input_eq, List.append_assoc]), _,
      second_ih cuts.2 behind_eq rfl, rfl⟩
  | alt first second first_ih second_ih =>
    simp only [Pattern.cuts, Bool.and_eq_true] at cuts
    simp only [Pattern.split, Option.or_eq_some_iff] at split ⊢
    rcases split with here | ⟨fails, there⟩
    · exact .inl (first_ih cuts.1.1 here input_eq)
    · exact .inr ⟨split_none_of_append cuts.2 fails, second_ih cuts.1.2 there input_eq⟩
  | optional pattern ih =>
    simp only [Pattern.cuts, Bool.and_eq_true] at cuts
    simp only [Pattern.split, Option.some.injEq] at split ⊢
    cases found : pattern.split (input ++ back) with
    | none =>
      rw [found] at split
      obtain ⟨rfl, -⟩ := Prod.mk.inj split
      rw [split_none_of_append cuts.2 found, input_eq]
      rfl
    | some parts =>
      rw [found, Option.getD_some] at split
      subst split
      rw [ih cuts.1 found input_eq]
      rfl
  | absent pattern ih =>
    simp only [Pattern.split, Option.ite_none_left_eq_some, Option.some.injEq,
      Prod.mk.injEq] at split
    obtain ⟨fails, rfl, -⟩ := split
    have still_fails := split_none_of_append cuts (Option.not_isSome_iff_eq_none.mp fails)
    rw [Pattern.split, still_fails, input_eq]
    rfl

/-! ### Tokens in front of near texts -/

/-- Whether a pattern takes nothing of layout. -/
def avoidsLayout (p : Pattern) : Bool := layoutStarts.all p.avoids

theorem avoidsHead_of_layout {back : List Char} (avoids : p.avoidsLayout = true)
    (starts : ∀ c, back.head? = some c → isSolid c = false) : p.AvoidsHead back := fun c head =>
  List.all_eq_true.mp avoids c (mem_layoutStarts.mpr (starts c head))

/-- A pattern that fails in front of a text fails in front of a near one. -/
theorem split_none_of_near (rises : p.rises = true) (avoids : p.avoidsLayout = true)
    {other : List Char} (near : Near input other) (fails : p.split input = none) :
    p.split other = none := by
  obtain ⟨front, back, back', rfl, rfl, starts⟩ := near
  rw [split_append (avoidsHead_of_layout avoids starts), split_none_of_append rises fails]
  rfl

/-- Whether a pattern takes a token in front of a text and in front of all near ones. Where it takes
nothing, the other text must not start with layout. -/
def Steady (p : Pattern) : Prop :=
  ∀ ⦃taken rest rest' : List Char⦄, p.split (taken ++ rest) = some (taken, rest) →
    Near rest rest' → (taken = [] → skip rest' = rest') →
    p.split (taken ++ rest') = some (taken, rest')

theorem steady_of_cuts (cuts : p.cuts = true) (avoids : p.avoidsLayout = true) : p.Steady := by
  rintro taken rest rest' split ⟨front, back, back', rfl, rfl, starts⟩ -
  rw [← List.append_assoc] at split ⊢
  rw [split_append (avoidsHead_of_layout avoids starts), split_of_append cuts split]
  rfl

/-- Names end where they cannot go on, so they are not cut by what follows. -/
theorem identifier_steady : identifier.Steady := by
  rintro taken rest rest' split near -
  have ends := (identifier_split split).2.2
  have whole := split_all_of_avoids split fun c head => identifier_avoids (ends c head)
  refine split_append_of_all whole fun c head => identifier_avoids ?_
  obtain ⟨front, back, back', rfl, rfl, starts⟩ := near
  cases front with
  | nil =>
    cases inside : isNameChar c with
    | false => rfl
    | true =>
      have outside := starts c head
      rw [isSolid_of_isNameChar inside] at outside
      cases outside
  | cons d ds => exact ends c head

theorem endOfInput_steady : endOfInput.Steady := by
  rintro taken rest rest' split near skipped
  simp only [endOfInput, Pattern.split, Option.ite_none_left_eq_some, Option.some.injEq,
    Prod.mk.injEq] at split
  obtain ⟨fails, rfl, -⟩ := split
  obtain ⟨front, back, back', rfl, rfl, starts⟩ := near
  cases front with
  | cons c cs => simp [Pattern.split] at fails
  | nil =>
    cases back' with
    | nil => rfl
    | cons c cs =>
      have solid := isSolid_of_skip (skipped rfl)
      rw [starts c rfl] at solid
      cases solid

end Pattern

/-- **Every token of the grammar is taken in front of all near texts.** -/
theorem Rule.steady {r : Rule} {pattern : Pattern} (is_body : r.body = .token pattern) :
    pattern.Steady := by
  cases r <;> simp only [Rule.body, reduceCtorEq, Body.token.injEq] at is_body <;>
    subst is_body <;>
    first
    | exact Pattern.identifier_steady
    | exact Pattern.endOfInput_steady
    | exact Pattern.steady_of_cuts (by decide) (by decide)

end GridStencil.Grammar
