import GridStencil.Grammar.Pattern
import GridStencil.Text.Lines

/-!
**What a pattern matches does not depend on where in a text it is matched.**

`Pattern.split` is the matching of a pattern without positions: it cuts the text that the pattern
takes off the front. A pattern that takes nothing of what begins with a given character
(`Pattern.avoids`) takes of a longer text what it takes of the part before that character
(`Pattern.split_append`).
-/

namespace GridStencil.Grammar

/-! ### Positions -/

namespace Cursor

/-- The position behind some characters, in front of others. -/
def behind (cursor : Cursor) (taken rest : List Char) : Cursor :=
  ⟨rest, cursor.offset + Text.byteCount taken⟩

@[simp] theorem rest_behind (cursor : Cursor) (taken rest : List Char) :
    (cursor.behind taken rest).rest = rest := rfl

theorem behind_behind (cursor : Cursor) (first second middle rest : List Char) :
    (cursor.behind first middle).behind second rest = cursor.behind (first ++ second) rest := by
  simp [behind, Nat.add_assoc]

theorem takeBytes_byteCount (taken rest : List Char) :
    takeBytes (Text.byteCount taken) (taken ++ rest) = taken := by
  induction taken with
  | nil =>
    cases rest with
    | nil => rfl
    | cons c cs =>
      have positive : 0 < c.utf8Size := Char.utf8Size_pos c
      have nothing : ¬ c.utf8Size ≤ 0 := by omega
      simp [Text.byteCount, takeBytes, nothing]
  | cons c cs ih => simp [Text.byteCount, takeBytes, ih]

theorem textTo_behind {cursor : Cursor} {taken rest : List Char}
    (split : cursor.rest = taken ++ rest) :
    cursor.textTo (cursor.behind taken rest) = String.ofList taken := by
  have width : (cursor.behind taken rest).offset - cursor.offset = Text.byteCount taken := by
    simp [behind]
  rw [textTo, width, split, takeBytes_byteCount]

end Cursor

/-! ### Splitting a text -/

namespace Pattern

/-- What a pattern takes of a text, and what it leaves. -/
def split : Pattern → List Char → Option (List Char × List Char)
  | char _, [] => none
  | char test, c :: cs => if test c then some ([c], cs) else none
  | run test, input => some (input.takeWhile test, input.dropWhile test)
  | word text, input =>
    if text.isPrefixOf input then some (text, input.drop text.length) else none
  | seq first second, input =>
    (first.split input).bind fun left =>
      (second.split left.2).map fun right => (left.1 ++ right.1, right.2)
  | alt first second, input => (first.split input).or (second.split input)
  | optional pattern, input => some ((pattern.split input).getD ([], input))
  | absent pattern, input => if (pattern.split input).isSome then none else some ([], input)

theorem scanRun_eq (test : Char → Bool) (input : List Char) (offset : Nat) :
    scanRun test input offset =
      (Cursor.mk input offset).behind (input.takeWhile test) (input.dropWhile test) := by
  induction input generalizing offset with
  | nil => rfl
  | cons c cs ih =>
    by_cases inside : test c = true
    · simp [scanRun, inside, ih, Cursor.behind, Text.byteCount, Nat.add_assoc]
    · simp [scanRun, inside, Cursor.behind, Text.byteCount]

theorem scanWord_eq (text : List Char) (cursor : Cursor) :
    scanWord text cursor =
      if text.isPrefixOf cursor.rest then
        some (cursor.behind text (cursor.rest.drop text.length)) else none := by
  induction text generalizing cursor with
  | nil => simp [scanWord, Cursor.behind, Text.byteCount]
  | cons w ws ih =>
    obtain ⟨rest, offset⟩ := cursor
    cases rest with
    | nil => simp [scanWord, List.isPrefixOf]
    | cons c cs =>
      by_cases same : c = w
      · subst same
        simp [scanWord, ih, List.isPrefixOf, Cursor.behind, Text.byteCount, Nat.add_assoc]
      · simp [scanWord, List.isPrefixOf, same, Ne.symm same]

/-- Matching at a position is splitting the text there. -/
theorem scan_eq (p : Pattern) (cursor : Cursor) :
    p.scan cursor = (p.split cursor.rest).map fun parts => cursor.behind parts.1 parts.2 := by
  induction p generalizing cursor with
  | char test =>
    obtain ⟨rest, offset⟩ := cursor
    cases rest with
    | nil => rfl
    | cons c cs =>
      by_cases inside : test c = true <;>
        simp [scan, scanChar, split, inside, Cursor.behind, Text.byteCount]
  | run test => simp [scan, split, scanRun_eq]
  | word text =>
    rw [scan, scanWord_eq, split]
    split <;> simp
  | seq first second first_ih second_ih =>
    rw [scan, split, first_ih]
    cases first.split cursor.rest with
    | none => rfl
    | some left =>
      simp only [Option.map_some, Option.bind_some, second_ih, Cursor.rest_behind, Option.map_map]
      congr 1
      funext right
      exact Cursor.behind_behind cursor left.1 right.1 left.2 right.2
  | alt first second first_ih second_ih =>
    rw [scan, split, first_ih, second_ih]
    cases first.split cursor.rest <;> simp
  | optional pattern ih =>
    rw [scan, split, ih]
    cases pattern.split cursor.rest <;> simp [Cursor.behind, Text.byteCount]
  | absent pattern ih =>
    rw [scan, split, ih]
    cases pattern.split cursor.rest <;> simp [Cursor.behind, Text.byteCount]

/-- What is taken and what is left make up the text. -/
theorem append_of_split {p : Pattern} {input taken rest : List Char}
    (split : p.split input = some (taken, rest)) : input = taken ++ rest := by
  induction p generalizing input taken rest with
  | char test =>
    cases input with
    | nil => simp [Pattern.split] at split
    | cons c cs =>
      simp only [Pattern.split, Option.ite_none_right_eq_some, Option.some.injEq,
        Prod.mk.injEq] at split
      obtain ⟨-, rfl, rfl⟩ := split
      rfl
  | run test =>
    simp only [Pattern.split, Option.some.injEq, Prod.mk.injEq] at split
    obtain ⟨rfl, rfl⟩ := split
    exact (List.takeWhile_append_dropWhile).symm
  | word text =>
    simp only [Pattern.split, Option.ite_none_right_eq_some, Option.some.injEq,
      Prod.mk.injEq] at split
    obtain ⟨starts, rfl, rfl⟩ := split
    obtain ⟨more, rfl⟩ := List.isPrefixOf_iff_prefix.mp starts
    simp
  | seq first second first_ih second_ih =>
    simp only [Pattern.split, Option.bind_eq_some_iff, Option.map_eq_some_iff] at split
    obtain ⟨left, left_eq, right, right_eq, same⟩ := split
    obtain ⟨rfl, rfl⟩ := Prod.mk.inj same
    rw [first_ih left_eq, second_ih right_eq, List.append_assoc]
  | alt first second first_ih second_ih =>
    rcases Option.or_eq_some_iff.mp split with taken | ⟨-, taken⟩
    · exact first_ih taken
    · exact second_ih taken
  | optional pattern ih =>
    simp only [Pattern.split, Option.some.injEq] at split
    cases found : pattern.split input with
    | none =>
      rw [found] at split
      obtain ⟨rfl, rfl⟩ := Prod.mk.inj split
      rfl
    | some parts =>
      rw [found, Option.getD_some] at split
      exact ih (found.trans (congrArg some split))
  | absent pattern ih =>
    simp only [Pattern.split, Option.ite_none_left_eq_some, Option.some.injEq,
      Prod.mk.injEq] at split
    obtain ⟨-, rfl, rfl⟩ := split
    rfl

/-! ### Characters that end a token -/

/-- Whether a pattern takes nothing of what begins with a character, wherever it meets it. -/
def avoids (c : Char) : Pattern → Bool
  | char test | run test => !test c
  | word text => !text.contains c
  | seq first second | alt first second => first.avoids c && second.avoids c
  | optional pattern | absent pattern => pattern.avoids c

theorem isPrefixOf_append_cons {text : List Char} {c : Char} (outside : c ∉ text)
    (front back : List Char) : text.isPrefixOf (front ++ c :: back) = text.isPrefixOf front := by
  induction text generalizing front with
  | nil => simp
  | cons w ws ih =>
    cases front with
    | nil =>
      have differs : (w == c) = false := by
        simpa using fun same : w = c => outside (by simp [same])
      simp [List.isPrefixOf, differs]
    | cons f fs =>
      simp [List.isPrefixOf, ih fun inside => outside (List.mem_cons_of_mem w inside)]

/-- Behind a text that stops in front of such a character, nothing more is taken. -/
theorem split_append_cons {p : Pattern} {c : Char} (avoids : p.avoids c = true)
    (front back : List Char) :
    p.split (front ++ c :: back) =
      (p.split front).map fun parts => (parts.1, parts.2 ++ c :: back) := by
  induction p generalizing front with
  | char test =>
    simp only [Pattern.avoids, Bool.not_eq_true'] at avoids
    cases front with
    | nil => simp [split, avoids]
    | cons f fs => by_cases inside : test f = true <;> simp [split, inside]
  | run test =>
    simp only [Pattern.avoids, Bool.not_eq_true'] at avoids
    have cut : (front ++ c :: back).takeWhile test = front.takeWhile test ∧
        (front ++ c :: back).dropWhile test = front.dropWhile test ++ c :: back := by
      induction front with
      | nil => simp [avoids]
      | cons f fs ih => by_cases inside : test f = true <;> simp [inside, ih]
    simp [split, cut]
  | word text =>
    simp only [Pattern.avoids, Bool.not_eq_true', List.contains_eq_mem,
      decide_eq_false_iff_not] at avoids
    simp only [split, isPrefixOf_append_cons avoids]
    split
    · next starts =>
      obtain ⟨more, rfl⟩ := List.isPrefixOf_iff_prefix.mp starts
      simp
    · rfl
  | seq first second first_ih second_ih =>
    simp only [Pattern.avoids, Bool.and_eq_true] at avoids
    simp only [split, first_ih avoids.1]
    cases first.split front with
    | none => rfl
    | some left =>
      simp only [Option.map_some, Option.bind_some, second_ih avoids.2, Option.map_map]
      rfl
  | alt first second first_ih second_ih =>
    simp only [Pattern.avoids, Bool.and_eq_true] at avoids
    simp only [split, first_ih avoids.1, second_ih avoids.2]
    cases first.split front <;> simp
  | optional pattern ih =>
    simp only [Pattern.avoids] at avoids
    simp only [split, ih avoids]
    cases pattern.split front <;> simp
  | absent pattern ih =>
    simp only [Pattern.avoids] at avoids
    simp only [split, ih avoids]
    cases pattern.split front <;> simp

/-- Whether a pattern takes nothing of a text, wherever it meets it. -/
def AvoidsHead (p : Pattern) (rest : List Char) : Prop :=
  ∀ c, rest.head? = some c → p.avoids c = true

theorem split_append {p : Pattern} {rest : List Char} (avoids : p.AvoidsHead rest)
    (front : List Char) :
    p.split (front ++ rest) = (p.split front).map fun parts => (parts.1, parts.2 ++ rest) := by
  cases rest with
  | nil => simp
  | cons c back => exact split_append_cons (avoids c rfl) front back

/-- A pattern that takes all of a text takes just that of a longer one. -/
theorem split_append_of_all {p : Pattern} {text rest : List Char}
    (all : p.split text = some (text, [])) (avoids : p.AvoidsHead rest) :
    p.split (text ++ rest) = some (text, rest) := by
  rw [split_append avoids, all]
  rfl

/-- What a pattern takes of a text, it takes of that part alone if it avoids the rest. -/
theorem split_all_of_avoids {p : Pattern} {taken rest : List Char}
    (split : p.split (taken ++ rest) = some (taken, rest)) (avoids : p.AvoidsHead rest) :
    p.split taken = some (taken, []) := by
  rw [split_append avoids] at split
  obtain ⟨parts, found, same⟩ := Option.map_eq_some_iff.mp split
  obtain ⟨front, back⟩ := parts
  obtain ⟨rfl, back_eq⟩ := Prod.mk.inj same
  have nothing : back = [] := by simpa using back_eq
  rw [found, nothing]

end Pattern

end GridStencil.Grammar
