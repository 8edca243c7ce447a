import GridStencil.Proofs.Grammar.Matching

/-!
**Names, words and layout in front of other text.**

Names and words end where a character follows that no name goes on with (`EndsToken`). In front of
such a character a name is taken in full (`IsName.split_append`), and a keyword is not mistaken for
the start of a name (`IsName.split_wholeWord`).
-/

namespace GridStencil.Grammar

/-! ### Layout -/

/-- Whether a character is neither layout nor the start of a comment. -/
def isSolid (c : Char) : Bool := !Cursor.isLayout c && c != '#'

theorem skip_cons_layout {c : Char} (layout : Cursor.isLayout c = true) (rest : List Char) :
    skip (c :: rest) = skip rest := by
  show (Cursor.skipFrom false (c :: rest) 0).rest = (Cursor.skipFrom false rest 0).rest
  simp only [Cursor.skipFrom, layout, Bool.false_eq_true, if_false, if_true]
  exact Cursor.rest_skipFrom false rest _ _

@[simp] theorem skip_blank (rest : List Char) : skip (' ' :: rest) = skip rest :=
  skip_cons_layout rfl rest

@[simp] theorem skip_newline (rest : List Char) : skip ('\n' :: rest) = skip rest :=
  skip_cons_layout rfl rest

theorem skip_cons_solid {c : Char} (solid : isSolid c = true) (rest : List Char) :
    skip (c :: rest) = c :: rest := by
  simp only [isSolid, Bool.and_eq_true, Bool.not_eq_true', bne_iff_ne] at solid
  simp [skip, Cursor.skipLayout, Cursor.skipFrom, solid.1, solid.2]

/-- Where there is nothing to skip, no layout starts. -/
theorem isSolid_of_skip {c : Char} {rest : List Char} (skipped : skip (c :: rest) = c :: rest) :
    isSolid c = true := by
  cases solid : isSolid c with
  | true => rfl
  | false =>
    have inside : skip (c :: rest) <:+ rest := by
      by_cases layout : Cursor.isLayout c = true
      · rw [skip_cons_layout layout]
        exact suffix_skip rest
      · have comment : c = '#' := by simpa [isSolid, layout] using solid
        subst comment
        exact Cursor.suffix_skipFrom true rest _
    have shorter := inside.length_le
    rw [skipped, List.length_cons] at shorter
    omega

@[simp] theorem skip_blanks (width : Nat) (rest : List Char) :
    skip (List.replicate width ' ' ++ rest) = skip rest := by
  induction width with
  | zero => rfl
  | succ width ih => rw [List.replicate_succ, List.cons_append, skip_blank, ih]

/-- Whether a text starts with neither layout nor a comment. -/
def Solid (text : List Char) : Prop := ∃ c cs, text = c :: cs ∧ isSolid c = true

theorem Solid.skip {text : List Char} (solid : Solid text) (rest : List Char) :
    skip (text ++ rest) = text ++ rest := by
  obtain ⟨c, cs, rfl, solid⟩ := solid
  exact skip_cons_solid solid (cs ++ rest)

theorem Solid.append {text : List Char} (solid : Solid text) (rest : List Char) :
    Solid (text ++ rest) := by
  obtain ⟨c, cs, rfl, solid⟩ := solid
  exact ⟨c, cs ++ rest, rfl, solid⟩

theorem isSolid_of_isNameChar {c : Char} (inside : Pattern.isNameChar c = true) :
    isSolid c = true := by
  simp only [isSolid, Cursor.isLayout, Bool.and_eq_true, Bool.not_eq_true', bne_iff_ne,
    Bool.or_eq_false_iff, decide_eq_false_iff_not]
  refine ⟨⟨⟨⟨?_, ?_⟩, ?_⟩, ?_⟩, ?_⟩ <;> rintro rfl <;> revert inside <;> decide

/-! ### Where tokens end -/

/-- Whether neither a name nor a number goes on with a character. -/
def endsToken (c : Char) : Bool :=
  !Pattern.isNameChar c && c != '.' && c != '+' && c != '-'

/-- Whether a text starts with a character that ends tokens. -/
def EndsToken (rest : List Char) : Prop := ∀ c, rest.head? = some c → endsToken c = true

theorem endsToken_cons {c : Char} (ends : endsToken c = true) (rest : List Char) :
    EndsToken (c :: rest) := by
  rintro _ ⟨⟩
  exact ends

theorem endsToken_nil : EndsToken [] := by
  rintro _ ⟨⟩

/-- Layout ends tokens. -/
theorem endsToken_of_not_isSolid {c : Char} (layout : isSolid c = false) : endsToken c = true := by
  have not_name : Pattern.isNameChar c = false := by
    cases inside : Pattern.isNameChar c with
    | false => rfl
    | true =>
      rw [isSolid_of_isNameChar inside] at layout
      cases layout
  simp only [endsToken, not_name, Bool.not_false, Bool.true_and, Bool.and_eq_true, bne_iff_ne]
  refine ⟨⟨?_, ?_⟩, ?_⟩ <;> rintro rfl <;> cases layout

/-- What stands behind layout is seen in front of it. -/
theorem endsToken_of_skip {c : Char} {rest more : List Char} (skipped : skip rest = c :: more)
    (ends : endsToken c = true) : EndsToken rest := by
  intro d head
  cases rest with
  | nil => cases head
  | cons first others =>
    obtain rfl : first = d := Option.some.inj head
    cases solid : isSolid first with
    | false => exact endsToken_of_not_isSolid solid
    | true =>
      rw [skip_cons_solid solid] at skipped
      rwa [(List.cons.inj skipped).1]

theorem not_isNameChar_of_endsToken {c : Char} (ends : endsToken c = true) :
    Pattern.isNameChar c = false := by
  simp only [endsToken, Bool.and_eq_true, Bool.not_eq_true'] at ends
  exact ends.1.1.1

theorem not_isDigit {c : Char} (outside : Pattern.isNameChar c = false) :
    Pattern.isDigit c = false := by
  simp only [Pattern.isNameChar, Bool.or_eq_false_iff] at outside
  exact outside.1.2

namespace Pattern

theorem text_avoids {w : String} {c : Char} (outside : c ∉ w.toList) :
    (text w).avoids c = true := by
  simp [text, avoids, outside]

theorem text_avoids_of_all {w : String} (all : w.toList.all isNameChar = true) {c : Char}
    (outside : isNameChar c = false) : (text w).avoids c = true := by
  refine text_avoids fun inside => ?_
  rw [List.all_eq_true.mp all c inside] at outside
  cases outside

theorem wholeWord_avoids {w : String} (all : w.toList.all isNameChar = true) {c : Char}
    (outside : isNameChar c = false) : (wholeWord w).avoids c = true := by
  simp [wholeWord, avoids, text_avoids_of_all all outside, outside]

theorem digits_avoids {c : Char} (outside : isNameChar c = false) : digits.avoids c = true := by
  simp [digits, avoids, not_isDigit outside]

theorem float_avoids {c : Char} (ends : endsToken c = true) : float.avoids c = true := by
  have outside := not_isNameChar_of_endsToken ends
  have letters : (text "e").avoids c = true ∧ (text "E").avoids c = true :=
    ⟨text_avoids_of_all (by decide) outside, text_avoids_of_all (by decide) outside⟩
  simp only [endsToken, Bool.and_eq_true, bne_iff_ne] at ends
  have signs : (text ".").avoids c = true ∧ (text "+").avoids c = true ∧
      (text "-").avoids c = true :=
    ⟨text_avoids (by simpa using ends.1.1.2), text_avoids (by simpa using ends.1.2),
      text_avoids (by simpa using ends.2)⟩
  simp [float, choice, sequence, exponent, avoids, digits_avoids outside, not_isDigit outside,
    letters, signs]

theorem choice_avoids {ps : List Pattern} {c : Char} (all : ∀ p ∈ ps, p.avoids c = true) :
    (choice ps).avoids c = true := by
  induction ps with
  | nil => rfl
  | cons p ps ih =>
    cases ps with
    | nil => exact all p (by simp)
    | cons q qs =>
      simp only [choice, avoids, Bool.and_eq_true]
      exact ⟨all p (by simp), ih fun q inside => all q (List.mem_cons_of_mem p inside)⟩

theorem keywords_all_isNameChar : ∀ w ∈ keywords, w.toList.all isNameChar = true := by
  decide

theorem identifier_avoids {c : Char} (outside : isNameChar c = false) :
    identifier.avoids c = true := by
  have words : (choice (keywords.map text)).avoids c = true := by
    refine choice_avoids fun p inside => ?_
    obtain ⟨w, is_keyword, rfl⟩ := List.mem_map.mp inside
    exact text_avoids_of_all (keywords_all_isNameChar w is_keyword) outside
  have start : isNameStart c = false := by
    simp only [isNameChar, Bool.or_eq_false_iff] at outside
    simp [isNameStart, outside]
  simp [identifier, sequence, keyword, avoids, words, outside, start]

/-! ### Words -/

theorem split_text (w : String) (rest : List Char) :
    (text w).split (w.toList ++ rest) = some (w.toList, rest) := by
  simp [text, split]

theorem eq_of_split_text {w : String} {input taken rest : List Char}
    (split : (text w).split input = some (taken, rest)) : input = w.toList ++ rest := by
  have parts := append_of_split split
  simp only [text, Pattern.split, Option.ite_none_right_eq_some, Option.some.injEq,
    Prod.mk.injEq] at split
  rwa [← split.2.1] at parts

theorem split_text_none {w : String} {first : Char} {more input : List Char}
    (starts : w.toList = first :: more) (differs : input.head? ≠ some first) :
    (text w).split input = none := by
  cases input with
  | nil => simp [text, split, starts]
  | cons c cs =>
    have other : first ≠ c := fun same => differs (by rw [same]; rfl)
    simp [text, split, starts, List.isPrefixOf, other]

theorem split_wholeWord (w : String) {rest : List Char} (ends : EndsToken rest) :
    (wholeWord w).split (w.toList ++ rest) = some (w.toList, rest) := by
  have stops : (absent (char isNameChar)).split rest = some ([], rest) := by
    cases rest with
    | nil => rfl
    | cons c cs =>
      have outside := not_isNameChar_of_endsToken (ends c rfl)
      simp [split, outside]
  rw [wholeWord, split, split_text]
  simp [stops]

/-- A longer or another word is not taken for a word. -/
theorem split_wholeWord_of_ne {w : String} {taken rest : List Char}
    (all : ∀ c ∈ taken, isNameChar c = true) (word : w.toList.all isNameChar = true)
    (differs : taken ≠ w.toList) (stops : ∀ c, rest.head? = some c → isNameChar c = false) :
    (wholeWord w).split (taken ++ rest) = none := by
  have avoids : (wholeWord w).AvoidsHead rest := fun c head => wholeWord_avoids word (stops c head)
  rw [split_append avoids, Option.map_eq_none_iff]
  simp only [wholeWord, text, split]
  split
  · next starts =>
    obtain ⟨more, rfl⟩ := List.isPrefixOf_iff_prefix.mp starts
    cases more with
    | nil => exact absurd (List.append_nil _) differs
    | cons c cs =>
      have inside : isNameChar c = true := all c (by simp)
      simp [split, inside]
  · rfl

theorem split_wholeWord_none {w : String} {taken rest : List Char}
    (all : ∀ c ∈ taken, isNameChar c = true) (word : w.toList.all isNameChar = true)
    (differs : taken ≠ w.toList) (ends : EndsToken rest) :
    (wholeWord w).split (taken ++ rest) = none :=
  split_wholeWord_of_ne all word differs fun c head => not_isNameChar_of_endsToken (ends c head)

/-- A word does not stand where another character does. -/
theorem split_wholeWord_of_head {w : String} {first : Char} {more input : List Char}
    (starts : w.toList = first :: more) (differs : input.head? ≠ some first) :
    (wholeWord w).split input = none := by
  rw [wholeWord, split, split_text_none starts differs, Option.bind_none]

end Pattern

/-! ### Names -/

/-- Whether a text is a name. -/
def IsName (name : String) : Prop := Pattern.identifier.split name.toList = some (name.toList, [])

instance (name : String) : Decidable (IsName name) :=
  inferInstanceAs (Decidable (_ = _))

theorem Pattern.identifier_split {input taken rest : List Char}
    (split : identifier.split input = some (taken, rest)) :
    (∃ c cs, taken = c :: cs ∧ isNameStart c = true) ∧ (∀ c ∈ taken, isNameChar c = true) ∧
      ∀ c, rest.head? = some c → isNameChar c = false := by
  simp only [identifier, sequence, Pattern.split, Option.bind_eq_some_iff,
    Option.map_eq_some_iff] at split
  obtain ⟨before, none_there, after, ⟨first, first_eq, more, more_eq, rfl⟩, same⟩ := split
  obtain ⟨rfl, rfl⟩ := Prod.mk.inj same
  split at none_there
  · cases none_there
  · cases none_there
    cases input with
    | nil => cases first_eq
    | cons c cs =>
      simp only [Pattern.split, Option.ite_none_right_eq_some, Option.some.injEq] at first_eq
      obtain ⟨start, rfl⟩ := first_eq
      simp only [Option.some.injEq] at more_eq
      subst more_eq
      refine ⟨⟨c, _, rfl, start⟩, ?_, ?_⟩
      · intro d inside
        rcases List.mem_cons.mp inside with rfl | inside
        · simp only [isNameStart, Bool.or_eq_true] at start
          simp only [isNameChar, Bool.or_eq_true]
          rcases start with start | start
          · exact .inl (.inl start)
          · exact .inr start
        · exact List.all_eq_true.mp List.all_takeWhile d inside
      · intro d head
        have := List.head?_dropWhile_not isNameChar cs
        dsimp only at head
        rw [head] at this
        exact this

namespace IsName

variable {name : String} {rest : List Char}

theorem head (is_name : IsName name) :
    ∃ c cs, name.toList = c :: cs ∧ Pattern.isNameStart c = true :=
  (Pattern.identifier_split is_name).1

theorem all (is_name : IsName name) : ∀ c ∈ name.toList, Pattern.isNameChar c = true :=
  (Pattern.identifier_split is_name).2.1

theorem split_append (is_name : IsName name) (ends : EndsToken rest) :
    Pattern.identifier.split (name.toList ++ rest) = some (name.toList, rest) :=
  Pattern.split_append_of_all is_name fun c head =>
    Pattern.identifier_avoids (not_isNameChar_of_endsToken (ends c head))

theorem solid (is_name : IsName name) : Solid name.toList := by
  obtain ⟨c, cs, chars, -⟩ := is_name.head
  exact ⟨c, cs, chars, isSolid_of_isNameChar (is_name.all c (by simp [chars]))⟩

/-- What is read as a name is a name. -/
theorem of_split {input taken : List Char}
    (split : Pattern.identifier.split input = some (taken, rest)) :
    IsName (String.ofList taken) := by
  have stops := (Pattern.identifier_split split).2.2
  rw [Pattern.append_of_split split] at split
  rw [IsName, String.toList_ofList]
  exact Pattern.split_all_of_avoids split fun c head => Pattern.identifier_avoids (stops c head)

theorem not_keyword (is_name : IsName name) : name ∉ Pattern.keywords := by
  have none_is_name : ∀ w ∈ Pattern.keywords, ¬ IsName w := by decide +kernel
  exact fun inside => none_is_name name inside is_name

/-- Where a name is read, no word is. -/
theorem no_wholeWord {w : String} {input : List Char} {parts : List Char × List Char}
    (split : Pattern.identifier.split input = some parts) (keyword : w ∈ Pattern.keywords) :
    (Pattern.wholeWord w).split input = none := by
  obtain ⟨taken, rest⟩ := parts
  obtain ⟨-, all, stops⟩ := Pattern.identifier_split split
  rw [Pattern.append_of_split split]
  refine Pattern.split_wholeWord_of_ne all (Pattern.keywords_all_isNameChar w keyword) ?_ stops
  rintro rfl
  have is_name := of_split split
  rw [String.ofList_toList] at is_name
  exact is_name.not_keyword keyword

/-- A name is not mistaken for another word. -/
theorem split_wholeWord {w : String} (is_name : IsName name)
    (word : w.toList.all Pattern.isNameChar = true) (differs : name ≠ w) (ends : EndsToken rest) :
    (Pattern.wholeWord w).split (name.toList ++ rest) = none :=
  Pattern.split_wholeWord_none is_name.all word (fun same => differs (String.toList_inj.mp same))
    ends

end IsName

/-! ### Words as phrases -/

theorem Phrase.Yields.text (w : String) (rest : List Char) :
    (Phrase.text w).Yields (w.toList ++ rest) rest (· = []) :=
  .token (Pattern.split_text w rest) rfl

theorem Phrase.Rejects.text {w : String} {first : Char} {more input : List Char}
    (starts : w.toList = first :: more) (differs : input.head? ≠ some first) :
    (Phrase.text w).Rejects input :=
  .token (Pattern.split_text_none starts differs)

end GridStencil.Grammar
