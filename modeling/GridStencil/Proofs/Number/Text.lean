import GridStencil.Proofs.Grammar.Numeral
import GridStencil.Proofs.Number.Shortest

/-!
**Different doubles have different texts.**

Both layouts of a decimal, with a point only and with a power of ten, say which number it is: the
reader finds its digits and its power of ten in the text (`readDecimal`), and these make up the same
number as before (`value_decimalText`). As the shortest decimals of two doubles are different
numbers, so are their texts. A sign stands in front of the digits, and what is not finite is written
as a word.

* `text_injective`: doubles that have the same text are the same.
-/

namespace GridStencil.Number

open Shortest

/-! ### The decimal of a text -/

/-- The decimal that the reader takes a text for. -/
def readDecimal (text : List Char) : Decimal :=
  let (fraction, rest) := splitFraction (text.dropWhile isDigit)
  ⟨ofDigits (text.takeWhile isDigit ++ fraction), (readExponent? rest).getD 0 - fraction.length⟩

theorem ofDigits_append (front back : List Char) :
    ofDigits (front ++ back) = ofDigits front * 10 ^ back.length + ofDigits back := by
  have from_any : ∀ (n : Nat) (chars : List Char),
      chars.foldl (fun n c => 10 * n + (c.toNat - '0'.toNat)) n =
        n * 10 ^ chars.length + ofDigits chars := by
    intro n chars
    unfold ofDigits
    induction chars generalizing n with
    | nil => simp
    | cons c cs ih =>
      rw [List.foldl_cons, List.foldl_cons, ih, ih (10 * 0 + _), List.length_cons, pow_succ]
      ring
  unfold ofDigits
  rw [List.foldl_append, from_any]
  rfl

theorem ofDigits_zeros (count : Nat) : ofDigits (List.replicate count '0') = 0 := by
  induction count with
  | zero => rfl
  | succ count ih =>
    rw [List.replicate_succ', ofDigits_append, ih]
    rfl

section Parts

variable {whole fraction power : List Char}

/-- A text with a point. -/
theorem readDecimal_point (whole_all : whole.all isDigit = true)
    (fraction_all : fraction.all isDigit = true)
    (stops : ∀ c, power.head? = some c → isDigit c = false) :
    readDecimal (whole ++ '.' :: (fraction ++ power)) =
      ⟨ofDigits (whole ++ fraction), (readExponent? power).getD 0 - fraction.length⟩ := by
  have point : isDigit '.' = false := rfl
  have first := List.all_eq_true.mp whole_all
  have second := List.all_eq_true.mp fraction_all
  have front : power.takeWhile isDigit = [] := by
    cases power with
    | nil => rfl
    | cons c cs => rw [List.takeWhile_cons_of_neg (by rw [stops c rfl]; decide)]
  have back : power.dropWhile isDigit = power := by
    cases power with
    | nil => rfl
    | cons c cs => rw [List.dropWhile_cons_of_neg (by rw [stops c rfl]; decide)]
  unfold readDecimal
  rw [List.takeWhile_append_of_pos first, List.dropWhile_append_of_pos first,
    List.takeWhile_cons_of_neg (by rw [point]; decide),
    List.dropWhile_cons_of_neg (by rw [point]; decide), List.append_nil,
    show splitFraction ('.' :: (fraction ++ power)) =
      ((fraction ++ power).takeWhile isDigit, (fraction ++ power).dropWhile isDigit) from rfl]
  dsimp only
  rw [List.takeWhile_append_of_pos second, List.dropWhile_append_of_pos second, front, back,
    List.append_nil]

/-- A text without a point. -/
theorem readDecimal_power (whole_all : whole.all isDigit = true)
    (letter : power.head? = some 'e') :
    readDecimal (whole ++ power) = ⟨ofDigits whole, (readExponent? power).getD 0⟩ := by
  have first := List.all_eq_true.mp whole_all
  cases power with
  | nil => cases letter
  | cons c cs =>
    obtain rfl : c = 'e' := Option.some.inj letter
    have stops : isDigit 'e' = false := rfl
    unfold readDecimal
    rw [List.takeWhile_append_of_pos first, List.dropWhile_append_of_pos first,
      List.takeWhile_cons_of_neg (by rw [stops]; decide),
      List.dropWhile_cons_of_neg (by rw [stops]; decide), List.append_nil,
      show splitFraction ('e' :: cs) = ([], 'e' :: cs) from rfl]
    dsimp only
    rw [List.append_nil, List.length_nil, Nat.cast_zero, sub_zero]

end Parts

/-! ### Layouts -/

/-- The text with a point stands for the decimal. -/
theorem value_pointed (digits : Nat) (exponent : Int) :
    (readDecimal (pointed digits exponent).toList).value = (⟨digits, exponent⟩ : Decimal).value := by
  have all : (toString digits).toList.all isDigit = true := all_isDigit_toString digits
  have number := ofDigits_toString digits
  have zero : isDigit '0' = true := rfl
  unfold pointed
  cases exponent with
  | ofNat zeros =>
    have same : (toString digits ++ String.ofList (List.replicate zeros '0') ++ ".0").toList =
        ((toString digits).toList ++ List.replicate zeros '0') ++ '.' :: (['0'] ++ []) := by
      simp only [String.toList_append, String.toList_ofList]
      rfl
    dsimp only
    have whole_all : ((toString digits).toList ++ List.replicate zeros '0').all isDigit = true := by
      simp only [List.all_append, all, List.all_replicate, zero, ite_self, Bool.and_self]
    rw [same, readDecimal_point whole_all rfl (by rintro c ⟨⟩), List.append_assoc,
      ofDigits_append, number, ← List.replicate_succ', ofDigits_zeros, List.length_replicate]
    unfold Decimal.value
    rw [show ((readExponent? []).getD 0 - (['0'] : List Char).length : Int) = -1 from rfl,
      Int.ofNat_eq_natCast, zpow_natCast, zpow_neg_one]
    push_cast
    rw [pow_succ]
    ring
  | negSucc places =>
    dsimp only
    generalize padded_eq : List.replicate (places + 1 + 1 - (toString digits).length) '0' ++
      (toString digits).toList = padded
    have padded_all : padded.all isDigit = true := by
      simp only [← padded_eq, List.all_append, all, List.all_replicate, zero, ite_self,
        Bool.and_self]
    have padded_number : ofDigits padded = digits := by
      rw [← padded_eq, ofDigits_append, ofDigits_zeros, number, Nat.zero_mul, Nat.zero_add]
    have long : places + 1 < padded.length := by
      have width : (toString digits).toList.length = (toString digits).length :=
        String.length_toList
      simp only [← padded_eq, List.length_append, List.length_replicate, width]
      omega
    have same : (String.ofList (padded.take (padded.length - (places + 1))) ++ "." ++
        String.ofList (padded.drop (padded.length - (places + 1)))).toList =
          padded.take (padded.length - (places + 1)) ++
            '.' :: (padded.drop (padded.length - (places + 1)) ++ []) := by
      simp only [String.toList_append, String.toList_ofList, List.append_nil, List.append_assoc]
      rfl
    have parts : ∀ {part : List Char}, (∀ c ∈ part, c ∈ padded) → part.all isDigit = true :=
      fun inside => List.all_eq_true.mpr fun c member =>
        List.all_eq_true.mp padded_all c (inside c member)
    rw [same, readDecimal_point (parts fun _ => List.mem_of_mem_take)
      (parts fun _ => List.mem_of_mem_drop) (by rintro c ⟨⟩), List.take_append_drop, padded_number]
    have places_eq : ((readExponent? []).getD 0 -
        (padded.drop (padded.length - (places + 1))).length : Int) = Int.negSucc places := by
      rw [List.length_drop, show (readExponent? []).getD 0 = 0 from rfl]
      omega
    rw [places_eq]

theorem readExponent?_toString (n : Int) : readExponent? ('e' :: (toString n).toList) = some n := by
  show (if 'e' = 'e' ∨ 'e' = 'E' then readInteger? (toString n).toList else none) = some n
  rw [if_pos (.inl rfl), readInteger?_toString]

/-- The text with a power of ten stands for the decimal. -/
theorem value_scientific (digits : Nat) (exponent : Int) :
    (readDecimal (scientific digits exponent).toList).value =
      (⟨digits, exponent⟩ : Decimal).value := by
  have all : (toString digits).toList.all isDigit = true := all_isDigit_toString digits
  have number := ofDigits_toString digits
  have letter : "e".toList = ['e'] := rfl
  have point : ".".toList = ['.'] := rfl
  cases chars : (toString digits).toList with
  | nil => exact absurd chars (toList_toString_ne_nil digits)
  | cons c cs =>
    rw [chars] at all number
    obtain ⟨first, others⟩ := Bool.and_eq_true_iff.mp all
    generalize power_eq : exponent + ((c :: cs).length : Int) - 1 = power
    have text : (scientific digits exponent).toList =
        if cs.isEmpty then [c] ++ 'e' :: (toString power).toList
        else [c] ++ '.' :: (cs ++ 'e' :: (toString power).toList) := by
      unfold scientific
      rw [chars]
      simp only [String.toList_append, String.toList_ofList, List.take_succ_cons, List.take_zero,
        List.drop_succ_cons, List.drop_zero, List.append_assoc, letter, power_eq]
      split
      · rfl
      · simp only [String.toList_append, String.toList_ofList, point]
        rfl
    have single : [c].all isDigit = true := by simp [first]
    rw [text]
    split
    next nothing =>
      obtain rfl := List.isEmpty_iff.mp nothing
      rw [readDecimal_power single rfl, readExponent?_toString, number]
      rw [← power_eq]
      simp
    next some =>
      rw [readDecimal_point single others (by rintro d ⟨⟩; rfl), readExponent?_toString,
        List.singleton_append, number, Option.getD_some]
      have same_power : power - cs.length = exponent := by
        rw [← power_eq, List.length_cons]
        omega
      rw [same_power]

/-- **The text of a decimal stands for the same number.** -/
theorem value_decimalText (d : Decimal) :
    (readDecimal (decimalText d).toList).value = d.value := by
  unfold decimalText
  dsimp only
  split
  · exact value_pointed _ _
  · exact value_scientific _ _

/-! ### Doubles -/

/-- The number that the text of a finite double stands for behind its sign. -/
theorem value_magnitudeText (mantissa : Nat) (exponent : Int) :
    (readDecimal (magnitudeText mantissa exponent).toList).value =
      if mantissa = 0 then 0 else (ofDouble mantissa exponent).value := by
  unfold magnitudeText
  split
  · have nothing : readDecimal "0.0".toList = ⟨0, -1⟩ := by decide
    rw [nothing, Decimal.value, Nat.cast_zero, zero_mul]
  · exact value_decimalText _

theorem eq_of_magnitudeText_eq {mantissa mantissa' : Nat} {exponent exponent' : Int}
    (normal : Normal mantissa exponent) (normal' : Normal mantissa' exponent')
    (same : magnitudeText mantissa exponent = magnitudeText mantissa' exponent') :
    mantissa = mantissa' ∧ exponent = exponent' := by
  have values := value_magnitudeText mantissa exponent
  rw [same, value_magnitudeText] at values
  split at values
  next zero' =>
    subst zero'
    split at values
    next zero =>
      subst zero
      have small : ¬ twoTo 52 ≤ 0 := by decide
      rw [normal.full.resolve_left small, normal'.full.resolve_left small]
      exact ⟨rfl, rfl⟩
    next some => exact absurd values (value_pos normal (Nat.pos_of_ne_zero some)).ne
  next some' =>
    split at values
    · exact absurd values (value_pos normal' (Nat.pos_of_ne_zero some')).ne'
    next some =>
      exact eq_of_value_eq normal normal' (Nat.pos_of_ne_zero some) (Nat.pos_of_ne_zero some')
        values.symm

/-- The text of a double is digits behind its sign exactly where the double is finite. -/
theorem isSome_split_text (x : Float) :
    (Grammar.Pattern.float.split (splitSign (text x).toList).2).isSome ↔
      ∃ negative mantissa exponent, Binary64.form x = .finite negative mantissa exponent := by
  cases form_x : Binary64.form x with
  | finite negative mantissa exponent =>
    rw [splitSign_text form_x, split_magnitudeText]
    exact iff_of_true rfl ⟨negative, mantissa, exponent, rfl⟩
  | nan =>
    unfold text
    rw [form_x]
    exact iff_of_false (by decide) fun ⟨_, _, _, finite⟩ => nomatch finite
  | infinite negative =>
    unfold text
    rw [form_x]
    refine iff_of_false ?_ fun ⟨_, _, _, finite⟩ => nomatch finite
    cases negative <;> decide

/-- What is not finite is written as one of three words. -/
theorem form_of_word {x : Float}
    (infinite : ¬ ∃ negative mantissa exponent,
      Binary64.form x = .finite negative mantissa exponent) :
    Binary64.form x = if text x = "NaN" then .nan else .infinite (text x == "-inf") := by
  unfold text
  cases form_x : Binary64.form x with
  | finite negative mantissa exponent => exact absurd ⟨_, _, _, form_x⟩ infinite
  | nan => rfl
  | infinite negative => cases negative <;> decide

/-- **Different doubles have different texts.** -/
theorem text_injective : Function.Injective text := by
  intro x y same
  have digits := isSome_split_text x
  rw [same, isSome_split_text y] at digits
  refine form_injective ?_
  by_cases finite : ∃ negative mantissa exponent,
    Binary64.form y = .finite negative mantissa exponent
  · obtain ⟨negative, mantissa, exponent, form_x⟩ := digits.mp finite
    obtain ⟨negative', mantissa', exponent', form_y⟩ := finite
    have parts := splitSign_text form_x
    rw [same, splitSign_text form_y] at parts
    obtain ⟨rfl, magnitudes⟩ := Prod.mk.inj parts
    obtain ⟨rfl, rfl⟩ := eq_of_magnitudeText_eq (normal_of_form form_x) (normal_of_form form_y)
      (String.toList_injective magnitudes.symm)
    exact form_x.trans form_y.symm
  · rw [form_of_word (mt digits.mpr finite), form_of_word finite, same]

end GridStencil.Number
