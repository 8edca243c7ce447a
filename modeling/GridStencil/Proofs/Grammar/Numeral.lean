import GridStencil.Number.Notation
import GridStencil.Number.Reader
import GridStencil.Proofs.Grammar.Token

/-!
**Numbers in text.**

The text of an integer of the signed 64-bit range reads back (`Number.readInt?_toString`). It is
never taken for a double, and the text of a double that carries no sign always is
(`Number.split_text`).
-/

namespace GridStencil

open Grammar

/-! ### Digits -/

namespace Number

theorem isDigit_eq (c : Char) : isDigit c = c.isDigit := by
  simp only [isDigit, Char.isDigit, Char.le_def, ge_iff_le]

theorem all_isDigit_toString (n : Nat) : (toString n).toList.all Pattern.isDigit = true := by
  rw [Nat.toString_eq_repr, Nat.toList_repr, List.all_eq_true]
  intro c inside
  exact (isDigit_eq c).trans (Nat.isDigit_of_mem_toDigits (by decide) (by decide) inside)

theorem toList_toString_ne_nil (n : Nat) : (toString n).toList ≠ [] := by
  rw [Nat.toString_eq_repr, Nat.toList_repr]
  exact Nat.toDigits_ne_nil

theorem ofDigits_toString (n : Nat) : ofDigits (toString n).toList = n := by
  rw [Nat.toString_eq_repr, Nat.toList_repr, ofDigits]
  exact Nat.ofDigitChars_eq_foldl.symm.trans Nat.ofDigitChars_ten_toDigits

theorem splitSign_cons {c : Char} {cs : List Char} (plus : c ≠ '+') (minus : c ≠ '-') :
    splitSign (c :: cs) = (false, c :: cs) := by
  unfold splitSign
  split
  next same => exact absurd (List.cons.inj same).1 plus
  next same => exact absurd (List.cons.inj same).1 minus
  next => rfl

theorem splitSign_of_isDigit {c : Char} {cs : List Char} (digit : Pattern.isDigit c = true) :
    splitSign (c :: cs) = (false, c :: cs) :=
  splitSign_cons (fun same => absurd (same ▸ digit) (by decide))
    fun same => absurd (same ▸ digit) (by decide)

theorem splitSign_toString_nat (n : Nat) :
    splitSign (toString n).toList = (false, (toString n).toList) := by
  have digits := all_isDigit_toString n
  cases chars : (toString n).toList with
  | nil => exact absurd chars (toList_toString_ne_nil n)
  | cons c cs =>
    exact splitSign_of_isDigit (List.all_eq_true.mp digits c (chars ▸ List.mem_cons_self))

theorem readInteger?_toString_nat (n : Nat) :
    readInteger? (toString n).toList = some (n : Int) := by
  have all : (toString n).toList.all isDigit = true := all_isDigit_toString n
  rw [readInteger?, splitSign_toString_nat]
  simp only [if_pos (And.intro (toList_toString_ne_nil n) all), ofDigits_toString, signed,
    Bool.false_eq_true, if_false]

theorem toString_negSucc (n : Nat) :
    (toString (Int.negSucc n)).toList = '-' :: (toString (n + 1)).toList := by
  rw [Int.toString_eq_repr, Int.repr_eq_if]
  have negative : ¬ 0 ≤ Int.negSucc n := by omega
  have size : (-Int.negSucc n).toNat = n + 1 := rfl
  rw [if_neg negative, size, String.toList_append, Nat.toString_eq_repr]
  rfl

theorem toString_ofNat (n : Nat) : toString (Int.ofNat n) = toString n := by
  rw [Int.toString_eq_repr, Int.repr_eq_if, Nat.toString_eq_repr]
  have positive : 0 ≤ Int.ofNat n := Int.natCast_nonneg n
  rw [if_pos positive]
  rfl

theorem readInteger?_toString (n : Int) : readInteger? (toString n).toList = some n := by
  cases n with
  | ofNat n =>
    rw [toString_ofNat]
    exact readInteger?_toString_nat n
  | negSucc n =>
    have digits := all_isDigit_toString (n + 1)
    have value := ofDigits_toString (n + 1)
    have nonempty := toList_toString_ne_nil (n + 1)
    rw [toString_negSucc, readInteger?]
    have all : (toString (n + 1)).toList.all isDigit = true := digits
    simp only [splitSign, value, signed, if_pos (And.intro nonempty all)]
    rfl

theorem splitSign_toString (n : Int) :
    splitSign (toString n).toList = (decide (n < 0), (toString n.natAbs).toList) := by
  cases n with
  | ofNat n =>
    have positive : ¬ Int.ofNat n < 0 := Int.not_lt.mpr (Int.natCast_nonneg n)
    rw [toString_ofNat, splitSign_toString_nat, decide_eq_false positive]
    rfl
  | negSucc n =>
    rw [toString_negSucc, decide_eq_true (Int.negSucc_lt_zero n)]
    rfl

theorem toString_int_injective {n n' : Int} (same : (toString n).toList = (toString n').toList) :
    n = n' := by
  have read := readInteger?_toString n
  rw [same, readInteger?_toString n'] at read
  exact (Option.some.inj read).symm

theorem readInt?_toString {n : Int} (in_range : InRange n) :
    readInt? (toString n).toList = some n := by
  rw [readInt?, readInteger?_toString, Option.bind_some]
  exact checked_eq_some.mpr ⟨in_range, rfl⟩

end Number

/-! ### Integers as tokens -/

namespace Grammar.Pattern

theorem split_run {test : Char → Bool} {taken rest : List Char} (all : taken.all test = true)
    (stops : ∀ c, rest.head? = some c → test c = false) :
    (run test).split (taken ++ rest) = some (taken, rest) := by
  have inside : ∀ c ∈ taken, test c = true := List.all_eq_true.mp all
  have front : rest.takeWhile test = [] := by
    cases rest with
    | nil => rfl
    | cons c cs => simp [stops c rfl]
  have back : rest.dropWhile test = rest := by
    cases rest with
    | nil => rfl
    | cons c cs => simp [stops c rfl]
  rw [split, List.takeWhile_append_of_pos inside, List.dropWhile_append_of_pos inside, front,
    back, List.append_nil]

theorem split_digits {taken rest : List Char} (nonempty : taken ≠ [])
    (all : taken.all isDigit = true) (stops : ∀ c, rest.head? = some c → isDigit c = false) :
    digits.split (taken ++ rest) = some (taken, rest) := by
  cases taken with
  | nil => exact absurd rfl nonempty
  | cons c cs =>
    simp only [List.all_cons, Bool.and_eq_true] at all
    have others := split_run all.2 stops
    simp only [digits, split, List.cons_append, all.1, if_true, Option.bind_some]
    simp only [split, Option.some.injEq, Prod.mk.injEq] at others
    simp [others.1, others.2]

theorem split_digits_none {c : Char} (outside : isDigit c = false) (rest : List Char) :
    digits.split (c :: rest) = none := by
  simp [digits, split, outside]

variable {rest : List Char}

theorem not_isDigit_of_endsToken (ends : EndsToken rest) :
    ∀ c, rest.head? = some c → isDigit c = false :=
  fun c head => not_isDigit (not_isNameChar_of_endsToken (ends c head))

theorem split_digits_toString (n : Nat) (ends : EndsToken rest) :
    digits.split ((toString n).toList ++ rest) = some ((toString n).toList, rest) :=
  split_digits (Number.toList_toString_ne_nil n) (Number.all_isDigit_toString n)
    (not_isDigit_of_endsToken ends)

theorem split_signedInt (n : Int) (ends : EndsToken rest) :
    signedInt.split ((toString n).toList ++ rest) = some ((toString n).toList, rest) := by
  cases n with
  | ofNat n =>
    rw [Number.toString_ofNat]
    have digits := split_digits_toString n ends
    have first := List.all_eq_true.mp (Number.all_isDigit_toString n)
    cases chars : (toString n).toList with
    | nil => exact absurd chars (Number.toList_toString_ne_nil n)
    | cons c cs =>
      rw [chars] at digits first
      have no_sign : (text "-").split (c :: (cs ++ rest)) = none := by
        refine split_text_none rfl ?_
        rintro ⟨⟩
        exact absurd (first '-' List.mem_cons_self) (by decide)
      rw [List.cons_append] at digits ⊢
      simp [signedInt, split, no_sign, digits]
  | negSucc n =>
    have digits := split_digits_toString (n + 1) ends
    have sign : (text "-").split ('-' :: ((toString (n + 1)).toList ++ rest)) =
        some (['-'], (toString (n + 1)).toList ++ rest) := rfl
    rw [Number.toString_negSucc, List.cons_append]
    simp only [signedInt, split, sign, Option.getD_some, Option.bind_some, digits,
      Option.map_some, List.singleton_append]

theorem solid_toString (n : Int) : Solid (toString n).toList := by
  cases n with
  | ofNat n =>
    rw [Number.toString_ofNat]
    have first := List.all_eq_true.mp (Number.all_isDigit_toString n)
    cases chars : (toString n).toList with
    | nil => exact absurd chars (Number.toList_toString_ne_nil n)
    | cons c cs =>
      have digit := first c (chars ▸ List.mem_cons_self)
      exact ⟨c, cs, rfl, isSolid_of_isNameChar (by simp [isNameChar, digit])⟩
  | negSucc n =>
    rw [Number.toString_negSucc]
    exact ⟨'-', _, rfl, rfl⟩

/-- Digits that nothing follows are no double. -/
theorem split_float_none {taken : List Char} (nonempty : taken ≠ [])
    (all : taken.all isDigit = true) (ends : EndsToken rest) :
    float.split (taken ++ rest) = none := by
  have whole := split_digits nonempty all (not_isDigit_of_endsToken ends)
  have no_point : (text ".").split rest = none := by
    refine split_text_none rfl fun head => ?_
    exact absurd (ends '.' head) (by decide)
  have small : (text "e").split rest = none := by
    refine split_text_none rfl fun head => ?_
    exact absurd (ends 'e' head) (by decide)
  have large : (text "E").split rest = none := by
    refine split_text_none rfl fun head => ?_
    exact absurd (ends 'E' head) (by decide)
  have starts : (text ".").split (taken ++ rest) = none := by
    cases taken with
    | nil => exact absurd rfl nonempty
    | cons c cs =>
      have digit : isDigit c = true := List.all_eq_true.mp all c (by simp)
      refine split_text_none rfl ?_
      rintro ⟨⟩
      exact absurd digit (by decide)
  simp [float, choice, sequence, exponent, split, whole, no_point, small, large, starts]

/-- A number starts with a digit or a point. -/
theorem split_number_none {input : List Char}
    (outside : ∀ c, input.head? = some c → isDigit c = false ∧ c ≠ '.') :
    float.split input = none ∧ digits.split input = none := by
  cases input with
  | nil => exact ⟨rfl, rfl⟩
  | cons c cs =>
    obtain ⟨no_digit, no_point⟩ := outside c rfl
    have whole : digits.split (c :: cs) = none := split_digits_none no_digit cs
    have point : (text ".").split (c :: cs) = none :=
      split_text_none rfl fun head => no_point (Option.some.inj head)
    exact ⟨by simp [float, choice, sequence, split, whole, point], whole⟩

theorem number_starts {input : List Char} {parts : List Char × List Char}
    (number : float.split input = some parts ∨ digits.split input = some parts) :
    ∃ c cs, input = c :: cs ∧ (isDigit c = true ∨ c = '.') := by
  cases input with
  | nil => rcases number with number | number <;> cases number
  | cons c cs =>
    refine ⟨c, cs, rfl, ?_⟩
    by_cases digit : isDigit c = true
    · exact .inl digit
    · by_cases point : c = '.'
      · exact .inr point
      · have outside : ∀ d, (c :: cs).head? = some d → isDigit d = false ∧ d ≠ '.' := by
          rintro d ⟨⟩
          exact ⟨Bool.eq_false_iff.mpr digit, point⟩
        obtain ⟨no_float, no_digits⟩ := split_number_none outside
        rcases number with number | number
        · rw [no_float] at number
          cases number
        · rw [no_digits] at number
          cases number

/-! ### Doubles as tokens -/

theorem split_exponent (n : Int) :
    exponent.split ('e' :: (toString n).toList) = some ('e' :: (toString n).toList, []) := by
  have signed := split_signedInt n endsToken_nil
  rw [List.append_nil] at signed
  have letter : (text "e").split ('e' :: (toString n).toList) =
      some (['e'], (toString n).toList) := rfl
  cases n with
  | ofNat n =>
    rw [Number.toString_ofNat] at letter ⊢
    have digits := split_digits_toString n endsToken_nil
    rw [List.append_nil] at digits
    have first := List.all_eq_true.mp (Number.all_isDigit_toString n)
    cases chars : (toString n).toList with
    | nil => exact absurd chars (Number.toList_toString_ne_nil n)
    | cons c cs =>
      rw [chars] at digits first letter
      have no_sign : (text "+").split (c :: cs) = none ∧ (text "-").split (c :: cs) = none := by
        constructor <;> refine split_text_none rfl ?_ <;> rintro ⟨⟩ <;>
          exact absurd (first _ List.mem_cons_self) (by decide)
      simp [exponent, sequence, split, letter, no_sign, digits]
  | negSucc n =>
    have digits := split_digits_toString (n + 1) endsToken_nil
    rw [List.append_nil] at digits
    rw [Number.toString_negSucc] at letter ⊢
    have no_plus : (text "+").split ('-' :: (toString (n + 1)).toList) = none := rfl
    have minus : (text "-").split ('-' :: (toString (n + 1)).toList) =
        some (['-'], (toString (n + 1)).toList) := rfl
    simp only [exponent, sequence, split, letter, no_plus, minus, digits, Option.some_or,
      Option.none_or, Option.getD_some, Option.bind_some, Option.map_some]
    rfl

/-- Digits, a point and digits are a double. -/
theorem split_float_point {whole fraction power : List Char} (nonempty : whole ≠ [])
    (whole_all : whole.all isDigit = true) (fraction_all : fraction.all isDigit = true)
    (ends : power = [] ∨ ∃ n : Int, power = 'e' :: (toString n).toList) :
    float.split (whole ++ '.' :: (fraction ++ power)) =
      some (whole ++ '.' :: (fraction ++ power), []) := by
  have digits : digits.split (whole ++ '.' :: (fraction ++ power)) =
      some (whole, '.' :: (fraction ++ power)) :=
    split_digits nonempty whole_all (by
      rintro c ⟨⟩
      rfl)
  have point : (text ".").split ('.' :: (fraction ++ power)) = some (['.'], fraction ++ power) :=
    rfl
  have others : (run isDigit).split (fraction ++ power) = some (fraction, power) :=
    split_run fraction_all (by
      rcases ends with rfl | ⟨n, rfl⟩
      · rintro c ⟨⟩
      · rintro c ⟨⟩
        rfl)
  have last : exponent.split power = some (power, []) ∨
      (exponent.split power = none ∧ power = []) := by
    rcases ends with rfl | ⟨n, rfl⟩
    · exact .inr ⟨rfl, rfl⟩
    · exact .inl (split_exponent n)
  simp only [float, choice, sequence, split, digits, point, Option.bind_some, Option.map_some]
  rw [split] at others
  obtain ⟨taken, left⟩ := Prod.mk.inj (Option.some.inj others)
  rw [taken, left]
  rcases last with last | ⟨last, rfl⟩ <;> simp [last]

/-- Digits and a power of ten are a double. -/
theorem split_float_power {whole : List Char} (nonempty : whole ≠ [])
    (whole_all : whole.all isDigit = true) (n : Int) :
    float.split (whole ++ 'e' :: (toString n).toList) =
      some (whole ++ 'e' :: (toString n).toList, []) := by
  have digits : digits.split (whole ++ 'e' :: (toString n).toList) =
      some (whole, 'e' :: (toString n).toList) :=
    split_digits nonempty whole_all (by
      rintro c ⟨⟩
      rfl)
  have no_point : (text ".").split ('e' :: (toString n).toList) = none := rfl
  simp only [float, choice, sequence, split, digits, no_point, split_exponent n,
    Option.bind_some, Option.bind_none, Option.map_none, Option.map_some, Option.none_or,
    Option.some_or]

end Grammar.Pattern

namespace Number

open Grammar.Pattern

theorem split_pointed (digits : Nat) (exponent : Int) :
    float.split (pointed digits exponent).toList =
      some ((pointed digits exponent).toList, []) := by
  have all := all_isDigit_toString digits
  have nonempty := toList_toString_ne_nil digits
  unfold pointed
  generalize toString digits = text at all nonempty ⊢
  have zero : Pattern.isDigit '0' = true := rfl
  cases exponent with
  | ofNat zeros =>
    have same : (text ++ String.ofList (List.replicate zeros '0') ++ ".0").toList =
        (text.toList ++ List.replicate zeros '0') ++ '.' :: (['0'] ++ []) := by
      simp only [String.toList_append, String.toList_ofList]
      rfl
    dsimp only
    rw [same]
    exact split_float_point (by simp [nonempty])
      (by simp only [List.all_append, all, List.all_replicate, zero, ite_self, Bool.and_self])
      rfl (.inl rfl)
  | negSucc places =>
    generalize padded_eq :
      List.replicate (places + 1 + 1 - text.length) '0' ++ text.toList = padded
    have padded_all : padded.all Pattern.isDigit = true := by
      simp only [← padded_eq, List.all_append, all, List.all_replicate, zero, ite_self,
        Bool.and_self]
    have long : places + 1 < padded.length := by
      have width : text.toList.length = text.length := String.length_toList
      simp only [← padded_eq, List.length_append, List.length_replicate, width]
      omega
    have same : (String.ofList (padded.take (padded.length - (places + 1))) ++ "." ++
        String.ofList (padded.drop (padded.length - (places + 1)))).toList =
          padded.take (padded.length - (places + 1)) ++
            '.' :: (padded.drop (padded.length - (places + 1)) ++ []) := by
      simp only [String.toList_append, String.toList_ofList, List.append_nil, List.append_assoc]
      rfl
    dsimp only
    rw [padded_eq, same]
    refine split_float_point ?_ ?_ ?_ (.inl rfl)
    · exact List.ne_nil_of_length_pos (by rw [List.length_take]; omega)
    · exact List.all_eq_true.mpr fun c inside =>
        List.all_eq_true.mp padded_all c (List.mem_of_mem_take inside)
    · exact List.all_eq_true.mpr fun c inside =>
        List.all_eq_true.mp padded_all c (List.mem_of_mem_drop inside)

theorem toList_scientific (digits : Nat) (exponent : Int) :
    ∃ (first : Char) (tail : List Char) (power : Int),
      Pattern.isDigit first = true ∧ tail.all Pattern.isDigit = true ∧
      (scientific digits exponent).toList =
        [first] ++ ((if tail.isEmpty then [] else '.' :: tail) ++
          'e' :: (toString power).toList) := by
  have all := all_isDigit_toString digits
  have nonempty := toList_toString_ne_nil digits
  cases chars : (toString digits).toList with
  | nil => exact absurd chars nonempty
  | cons c cs =>
    rw [chars, List.all_cons, Bool.and_eq_true] at all
    refine ⟨c, cs, exponent + ((c :: cs).length : Int) - 1, all.1, all.2, ?_⟩
    have power_letter : "e".toList = ['e'] := rfl
    have point : ".".toList = ['.'] := rfl
    unfold scientific
    rw [chars]
    simp only [String.toList_append, String.toList_ofList, List.take_succ_cons, List.take_zero,
      List.drop_succ_cons, List.drop_zero, List.append_assoc, power_letter]
    split
    · rfl
    · simp only [String.toList_append, String.toList_ofList, point]
      rfl

theorem split_scientific (digits : Nat) (exponent : Int) :
    float.split (scientific digits exponent).toList =
      some ((scientific digits exponent).toList, []) := by
  obtain ⟨first, tail, power, first_digit, tail_all, same⟩ := toList_scientific digits exponent
  have all : [first].all Pattern.isDigit = true := by simp [first_digit]
  rw [same]
  split
  · exact split_float_power (by simp) all power
  · exact split_float_point (by simp) all tail_all (.inr ⟨power, rfl⟩)

/-- The text of a finite double behind its sign. -/
def magnitudeText (mantissa : Nat) (exponent : Int) : String :=
  if mantissa = 0 then "0.0" else decimalText (Shortest.ofDouble mantissa exponent)

section Doubles

variable {x : Float} {negative : Bool} {mantissa : Nat} {exponent : Int}

theorem text_of_form (finite : Binary64.form x = .finite negative mantissa exponent) :
    text x = (if negative then "-" else "") ++ magnitudeText mantissa exponent := by
  unfold text magnitudeText
  rw [finite]
  dsimp only
  split <;> rfl

theorem split_magnitudeText (mantissa : Nat) (exponent : Int) :
    float.split (magnitudeText mantissa exponent).toList =
      some ((magnitudeText mantissa exponent).toList, []) := by
  unfold magnitudeText decimalText
  split
  · rfl
  · dsimp only
    split
    · exact split_pointed _ _
    · exact split_scientific _ _

/-- The text of a double without a sign is a double. -/
theorem split_text (positive : Binary64.form x = .finite false mantissa exponent) :
    float.split (text x).toList = some ((text x).toList, []) := by
  rw [text_of_form positive, if_neg Bool.false_ne_true, String.empty_append]
  exact split_magnitudeText mantissa exponent

/-- The sign of a finite double can be told from its text, and so can what stands behind it. -/
theorem splitSign_text (finite : Binary64.form x = .finite negative mantissa exponent) :
    splitSign (text x).toList = (negative, (magnitudeText mantissa exponent).toList) := by
  rw [text_of_form finite, String.toList_append]
  cases negative with
  | true => rfl
  | false =>
    rw [if_neg Bool.false_ne_true, String.toList_empty, List.nil_append]
    obtain ⟨c, cs, text_eq, starts⟩ :=
      Pattern.number_starts (.inl (split_magnitudeText mantissa exponent))
    rw [text_eq]
    rcases starts with digit | rfl
    · exact splitSign_of_isDigit digit
    · rfl

end Doubles

end Number

end GridStencil
