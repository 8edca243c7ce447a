import GridStencil.Number.Shortest
import Mathlib.Algebra.Order.Field.Power
import Mathlib.Algebra.Order.Field.Rat
import Mathlib.Tactic.FieldSimp
import Mathlib.Tactic.Linarith
import Mathlib.Tactic.NormNum
import Mathlib.Tactic.Positivity
import Mathlib.Tactic.Ring

/-!
**The shortest decimal of a double rounds to this double, and to no other.**

Around a double lies the interval of the numbers that round to it (`Target.Contains`). A grid of
decimals that is finer than the upper half of the interval has a point in it, and the search comes
down to such a grid before it runs out of room: what it finds lies in the interval
(`ofDouble_contained`). The intervals of two doubles have no number in common, as an end that both
have belongs to the even one only (`not_contains_of_below`).

* `Shortest.eq_of_value_eq`: doubles with the same shortest decimal have the same form.
* `form_injective`: doubles of the same form are the same.
-/

namespace GridStencil.Number

open Binary64
open Float.Model (UnpackedFloat Format)

namespace Shortest

/-- The number that a decimal stands for. -/
def Decimal.value (d : Decimal) : ℚ := d.digits * 10 ^ d.exponent

/-! ### Powers -/

theorem cast_tenTo (n : Nat) : (tenTo n : ℚ) = 10 ^ n := by
  rw [show tenTo n = 10 ^ n from rfl]
  push_cast
  rfl

theorem cast_twoTo (n : Nat) : (twoTo n : ℚ) = 2 ^ n := by
  rw [show twoTo n = 2 ^ n from rfl]
  push_cast
  rfl

/-- A power of ten as a quotient of natural numbers. -/
theorem tenTo_div (power : Int) :
    (10 : ℚ) ^ power = tenTo power.toNat / tenTo (-power).toNat := by
  rw [cast_tenTo, cast_tenTo, eq_div_iff (by positivity), ← zpow_natCast, ← zpow_natCast,
    ← zpow_add₀ (by norm_num)]
  congr 1
  omega

theorem tenTo_cast_pos (n : Nat) : (0 : ℚ) < tenTo n := by
  exact_mod_cast tenTo_pos n

/-! ### Intervals -/

namespace Target

variable {t : Target} {power : Int} {q : ℚ}

/-- Whether a number lies in the interval. -/
def Contains (t : Target) (q : ℚ) : Prop :=
  if t.closed then (t.low : ℚ) ≤ q * t.unit ∧ q * t.unit ≤ t.high
  else (t.low : ℚ) < q * t.unit ∧ q * t.unit < t.high

/-- What lies properly between the ends is in the interval. -/
theorem contains_of_lt (above : (t.low : ℚ) < q * t.unit) (below : q * t.unit < t.high) :
    t.Contains q := by
  unfold Contains
  split
  · exact ⟨above.le, below.le⟩
  · exact ⟨above, below⟩

theorem holds_iff {count : Nat} : t.holds count power = true ↔ t.Contains (count * 10 ^ power) := by
  have scale : (count * 10 ^ power : ℚ) * t.unit =
      (count * t.unit * tenTo power.toNat : ℕ) / (tenTo (-power).toNat : ℚ) := by
    rw [tenTo_div]
    push_cast
    ring
  have positive := tenTo_cast_pos (-power).toNat
  unfold holds Contains
  dsimp only
  rw [scale, le_div_iff₀ positive, div_le_iff₀ positive, lt_div_iff₀ positive,
    div_lt_iff₀ positive]
  split
  · simp only [Bool.and_eq_true, decide_eq_true_eq]
    norm_cast
  · simp only [Bool.and_eq_true, decide_eq_true_eq]
    norm_cast

/-- The value lies between two neighbours on a grid. -/
theorem below_bounds (power : Int) (unit : 0 < t.unit) :
    (t.below power : ℚ) * 10 ^ power * t.unit ≤ t.value ∧
      (t.value : ℚ) < (t.below power + 1) * 10 ^ power * t.unit := by
  have positive := tenTo_cast_pos (-power).toNat
  have divisor : 0 < t.unit * tenTo power.toNat := Nat.mul_pos unit (tenTo_pos _)
  have low := Nat.div_mul_le_self (t.value * tenTo (-power).toNat) (t.unit * tenTo power.toNat)
  have high := Nat.lt_div_mul_add (a := t.value * tenTo (-power).toNat) divisor
  have scale : ∀ n : ℚ, n * 10 ^ power * t.unit =
      n * (t.unit * tenTo power.toNat) / tenTo (-power).toNat := by
    intro n
    rw [tenTo_div]
    ring
  rw [scale, scale, div_le_iff₀ positive, lt_div_iff₀ positive]
  unfold below
  constructor
  · exact_mod_cast low
  · rw [add_mul, one_mul]
    exact_mod_cast high

/-! ### Grids -/

/-- What is taken from a grid lies in the interval. -/
theorem contains_of_onGrid? {count : Nat} (found : t.onGrid? power = some count) :
    t.Contains (count * 10 ^ power) := by
  unfold onGrid? at found
  dsimp only at found
  split at found
  next lower =>
    obtain rfl := Option.some.inj found
    exact holds_iff.mp (Bool.and_eq_true_iff.mp lower).1
  · split at found
    next upper =>
      obtain rfl := Option.some.inj found
      exact holds_iff.mp upper
    · cases found

/-- A grid that is finer than the upper half of the interval has a point in it. -/
theorem onGrid?_isSome (unit : 0 < t.unit) (proper : t.low < t.value)
    (fine : (10 : ℚ) ^ power * t.unit < t.high - t.value) : (t.onGrid? power).isSome = true := by
  obtain ⟨low, high⟩ := below_bounds power unit
  have upper : t.holds (t.below power + 1) power = true := by
    rw [holds_iff]
    have less : (t.low : ℚ) < t.value := by exact_mod_cast proper
    push_cast
    refine contains_of_lt (less.trans high) ?_
    calc ((t.below power : ℚ) + 1) * 10 ^ power * t.unit
        = t.below power * 10 ^ power * t.unit + 10 ^ power * t.unit := by ring
      _ < t.high := by linarith
  unfold onGrid?
  dsimp only
  rw [upper]
  split <;> rfl

/-- What the search finds lies in the interval, if it comes down to a grid that is fine enough. -/
theorem contains_coarsest (unit : 0 < t.unit) (proper : t.low < t.value) {room : Nat}
    (fine : ∃ n < room, (10 : ℚ) ^ (power - n) * t.unit < t.high - t.value) :
    t.Contains (t.coarsest room power).value := by
  induction room generalizing power with
  | zero =>
    obtain ⟨n, absurd, -⟩ := fine
    exact (Nat.not_lt_zero n absurd).elim
  | succ room ih =>
    unfold coarsest
    cases found : t.onGrid? power with
    | some count => exact contains_of_onGrid? found
    | none =>
      refine ih ?_
      obtain ⟨n, less, narrow⟩ := fine
      cases n with
      | zero =>
        rw [Nat.cast_zero, sub_zero] at narrow
        have isSome := onGrid?_isSome unit proper narrow
        rw [found] at isSome
        cases isSome
      | succ n =>
        refine ⟨n, Nat.lt_of_succ_lt_succ less, ?_⟩
        rwa [show power - 1 - (n : Int) = power - ((n + 1 : ℕ) : Int) by push_cast; ring]

end Target

/-! ### The first digit -/

theorem digitCount_pos (n : Nat) : 0 < digitCount n := by
  unfold digitCount
  rw [Nat.toString_eq_repr]
  exact Nat.length_repr_pos

/-- Where the first digit of a number stands. -/
theorem digitCount_bounds {n : Nat} (positive : 0 < n) :
    tenTo (digitCount n - 1) ≤ n ∧ n < tenTo (digitCount n) := by
  have count := digitCount_pos n
  have atMost : ∀ k, 0 < k → (digitCount n ≤ k ↔ n < tenTo k) := fun k some => by
    unfold digitCount
    rw [Nat.toString_eq_repr]
    exact Nat.length_repr_le_iff some
  refine ⟨?_, (atMost _ count).mp (Nat.le_refl _)⟩
  by_cases single : digitCount n = 1
  · rw [single]
    exact positive
  · exact Nat.not_lt.mp fun less => by
      have fewer := (atMost (digitCount n - 1) (by omega)).mpr less
      omega

/-- The first digit of a value is not above the value. -/
theorem Target.leading_le {t : Target} (unit : 0 < t.unit) (positive : 0 < t.value) :
    (10 : ℚ) ^ t.leading * t.unit ≤ t.value := by
  have unitPos : (0 : ℚ) < t.unit := by exact_mod_cast unit
  have valuePos : (0 : ℚ) < t.value := by exact_mod_cast positive
  unfold leading
  dsimp only
  split
  next above =>
    have count := digitCount_pos (t.value / t.unit)
    have digits := (digitCount_bounds (Nat.pos_of_ne_zero above)).1
    have whole : tenTo (digitCount (t.value / t.unit) - 1) * t.unit ≤ t.value :=
      (Nat.mul_le_mul_right _ digits).trans (Nat.div_mul_le_self _ _)
    rw [show ((digitCount (t.value / t.unit) : ℕ) : Int) - 1 =
      ((digitCount (t.value / t.unit) - 1 : ℕ) : Int) by omega, zpow_natCast, ← cast_tenTo]
    exact_mod_cast whole
  next below =>
    -- one over the value lies below its integer from above, and so does its power of ten
    generalize inverse_eq : (t.unit + t.value - 1) / t.value = inverse
    have enough : t.unit ≤ inverse * t.value := by
      have quotient := Nat.lt_div_mul_add (a := t.unit + t.value - 1) positive
      rw [inverse_eq] at quotient
      omega
    have some : 0 < inverse := Nat.pos_of_ne_zero fun zero => by
      rw [zero, Nat.zero_mul] at enough
      omega
    obtain ⟨-, high⟩ := digitCount_bounds some
    have count := digitCount_pos inverse
    have reaches : ∀ n, inverse ≤ tenTo n → (10 : ℚ) ^ (-(n : Int)) * t.unit ≤ t.value := by
      intro n le
      have product : t.unit ≤ tenTo n * t.value := enough.trans (Nat.mul_le_mul_right _ le)
      rw [zpow_neg, zpow_natCast, ← cast_tenTo, inv_mul_le_iff₀ (tenTo_cast_pos n)]
      exact_mod_cast product
    split
    next exact =>
      rw [show ((digitCount inverse : ℕ) : Int) - 1 = ((digitCount inverse - 1 : ℕ) : Int) by omega]
      exact reaches _ (Nat.le_of_eq exact)
    next => exact reaches _ high.le

/-! ### Doubles -/

/-- Zeros at the end do not count. -/
theorem value_stripZeros (room : Nat) (d : Decimal) : (stripZeros room d).value = d.value := by
  induction room generalizing d with
  | zero => rfl
  | succ room ih =>
    unfold stripZeros
    split
    next zeros =>
      rw [ih]
      have digits : d.digits = d.digits / 10 * 10 := by omega
      have cast : (d.digits : ℚ) = (d.digits / 10 : ℕ) * 10 := by exact_mod_cast digits
      unfold Decimal.value
      rw [cast, zpow_add_one₀ (by norm_num)]
      ring
    · rfl

/-- What a double in the shape of its bits satisfies. -/
structure Normal (mantissa : Nat) (exponent : Int) : Prop where
  small : mantissa < twoTo 53
  least : -1074 ≤ exponent
  full : twoTo 52 ≤ mantissa ∨ exponent = -1074

section Target

variable {mantissa : Nat} {exponent : Int}

/-- The unit of a double, and how many of it the mantissa counts. -/
theorem unit_target (mantissa : Nat) (exponent : Int) : ∃ up : Nat, 0 < up ∧
    0 < (target mantissa exponent).unit ∧
    4 * (up : ℚ) = 2 ^ exponent * (target mantissa exponent).unit ∧
    (target mantissa exponent).value = 4 * mantissa * up ∧
    (target mantissa exponent).high = 4 * mantissa * up + 2 * up ∧
    (target mantissa exponent).low = 4 * mantissa * up -
      if mantissa = twoTo 52 ∧ -1074 < exponent then up else 2 * up := by
  refine ⟨if 0 ≤ exponent then twoTo exponent.toNat else 1, ?_, ?_, ?_, rfl, rfl, rfl⟩
  · split
    · exact twoTo_pos _
    · exact Nat.one_pos
  · unfold target
    dsimp only
    split
    · decide
    · exact Nat.mul_pos (by decide) (twoTo_pos _)
  · unfold target
    dsimp only
    split
    next above =>
      obtain ⟨n, rfl⟩ := Int.eq_ofNat_of_zero_le above
      rw [Int.toNat_natCast, cast_twoTo, zpow_natCast]
      push_cast
      ring
    next below =>
      obtain ⟨n, rfl⟩ : ∃ n : ℕ, exponent = -n := ⟨(-exponent).toNat, by omega⟩
      rw [neg_neg, Int.toNat_natCast, Nat.cast_mul, cast_twoTo, zpow_neg, zpow_natCast]
      push_cast
      field_simp

/-- The lower end of the interval of a double. -/
def lowEnd (mantissa : Nat) (exponent : Int) : ℚ :=
  (mantissa - if mantissa = twoTo 52 ∧ -1074 < exponent then 1 / 4 else 1 / 2) * 2 ^ exponent

/-- The upper end of the interval of a double. -/
def highEnd (mantissa : Nat) (exponent : Int) : ℚ := (mantissa + 1 / 2) * 2 ^ exponent

/-- The interval of a double in numbers. -/
theorem contains_target (positive : 0 < mantissa) {q : ℚ}
    (contains : (target mantissa exponent).Contains q) :
    lowEnd mantissa exponent ≤ q ∧ q ≤ highEnd mantissa exponent ∧
      (mantissa % 2 = 1 → lowEnd mantissa exponent < q ∧ q < highEnd mantissa exponent) := by
  obtain ⟨up, -, unit, scale, -, high, low⟩ := unit_target mantissa exponent
  have unitPos : (0 : ℚ) < (target mantissa exponent).unit := by exact_mod_cast unit
  have scaled : ∀ n : ℚ, n * 2 ^ exponent * (target mantissa exponent).unit = n * (4 * up) := by
    intro n
    rw [scale]
    ring
  have scaleLow : ((target mantissa exponent).low : ℚ) =
      lowEnd mantissa exponent * (target mantissa exponent).unit := by
    unfold lowEnd
    rw [scaled, low, Nat.cast_sub (by split <;> nlinarith)]
    split <;> push_cast <;> ring
  have scaleHigh : ((target mantissa exponent).high : ℚ) =
      highEnd mantissa exponent * (target mantissa exponent).unit := by
    unfold highEnd
    rw [scaled, high]
    push_cast
    ring
  unfold Target.Contains at contains
  rw [scaleLow, scaleHigh] at contains
  split at contains
  next even =>
    refine ⟨le_of_mul_le_mul_right contains.1 unitPos, le_of_mul_le_mul_right contains.2 unitPos,
      fun odd => ?_⟩
    have closed : mantissa % 2 = 0 := of_decide_eq_true even
    omega
  next =>
    have above := lt_of_mul_lt_mul_right contains.1 unitPos.le
    have below := lt_of_mul_lt_mul_right contains.2 unitPos.le
    exact ⟨above.le, below.le, fun _ => ⟨above, below⟩⟩

/-- **The shortest decimal of a double lies in its interval.** The last of the eighteen grids is
finer than the upper half of the interval. -/
theorem ofDouble_contained (exponent : Int) (positive : 0 < mantissa)
    (small : mantissa < twoTo 53) :
    (target mantissa exponent).Contains (ofDouble mantissa exponent).value := by
  obtain ⟨up, upPos, unit, -, value, high, low⟩ := unit_target mantissa exponent
  have product : 1 * up ≤ mantissa * up := Nat.mul_le_mul_right _ positive
  have valuePos : 0 < (target mantissa exponent).value := by
    rw [value, Nat.mul_assoc]
    omega
  have proper : (target mantissa exponent).low < (target mantissa exponent).value := by
    rw [low, value, Nat.mul_assoc]
    split <;> omega
  unfold ofDouble
  dsimp only
  rw [value_stripZeros]
  refine Target.contains_coarsest unit proper ⟨17, by decide, ?_⟩
  have leading := Target.leading_le unit valuePos
  have bound : 4 * mantissa * up < 2 * 10 ^ 17 * up :=
    Nat.mul_lt_mul_of_pos_right (by
      have top : twoTo 53 = 9007199254740992 := rfl
      omega) upPos
  have half : ((target mantissa exponent).high : ℚ) - (target mantissa exponent).value = 2 * up := by
    rw [high, value]
    push_cast
    ring
  have less : ((target mantissa exponent).value : ℚ) < 2 * 10 ^ 17 * up := by
    rw [value]
    exact_mod_cast bound
  rw [half, zpow_sub₀ (by norm_num)]
  have grid : (10 : ℚ) ^ ((17 : ℕ) : Int) = 10 ^ 17 := by rw [zpow_natCast]
  rw [grid, div_mul_eq_mul_div, div_lt_iff₀ (by norm_num)]
  linarith

/-! ### Different doubles -/

/-- The double below in the order of magnitudes. -/
def Below (mantissa : Nat) (exponent : Int) (mantissa' : Nat) (exponent' : Int) : Prop :=
  exponent < exponent' ∨ exponent = exponent' ∧ mantissa < mantissa'

variable {mantissa' : Nat} {exponent' : Int}

/-- **The intervals of two doubles do not overlap**, and where they touch, one of the doubles is
odd. -/
theorem highEnd_le_lowEnd (normal : Normal mantissa exponent) (normal' : Normal mantissa' exponent')
    (less : Below mantissa exponent mantissa' exponent') :
    highEnd mantissa exponent ≤ lowEnd mantissa' exponent' ∧
      (mantissa % 2 = 0 → mantissa' % 2 = 0 →
        highEnd mantissa exponent < lowEnd mantissa' exponent') := by
  have top : twoTo 53 = 2 * twoTo 52 := rfl
  obtain ⟨small, least, full⟩ := normal
  obtain ⟨-, -, full'⟩ := normal'
  have unitPos : (0 : ℚ) < 2 ^ exponent := zpow_pos (by norm_num) _
  unfold highEnd lowEnd
  rcases less with less | ⟨rfl, less⟩
  · -- the upper double has at least twice the unit, and a full mantissa
    have full' : twoTo 52 ≤ mantissa' := full'.resolve_right (by omega)
    have unit : (2 : ℚ) ^ exponent * 2 ≤ 2 ^ exponent' := by
      rw [← zpow_add_one₀ (by norm_num)]
      exact zpow_le_zpow_right₀ (by norm_num) (by omega)
    have count : (twoTo 52 : ℚ) - 1 / 4 ≤
        mantissa' - if mantissa' = twoTo 52 ∧ -1074 < exponent' then 1 / 4 else 1 / 2 := by
      split
      next narrow => rw [narrow.1]
      next wide =>
        have more : (twoTo 52 : ℚ) + 1 ≤ mantissa' := by
          have different : mantissa' ≠ twoTo 52 := fun same => wide ⟨same, by omega⟩
          exact_mod_cast (by omega : twoTo 52 + 1 ≤ mantissa')
        linarith
    have some : (1 : ℚ) ≤ twoTo 52 := by exact_mod_cast twoTo_pos 52
    have bound : (2 * twoTo 52 - 1 / 2 : ℚ) * 2 ^ exponent ≤ (mantissa' -
        if mantissa' = twoTo 52 ∧ -1074 < exponent' then 1 / 4 else 1 / 2) * 2 ^ exponent' := by
      calc (2 * twoTo 52 - 1 / 2 : ℚ) * 2 ^ exponent
          = (twoTo 52 - 1 / 4) * (2 ^ exponent * 2) := by ring
        _ ≤ (twoTo 52 - 1 / 4) * 2 ^ exponent' := by gcongr; linarith
        _ ≤ _ := by gcongr
    constructor
    · refine le_trans ?_ bound
      have most : (mantissa : ℚ) + 1 ≤ 2 * twoTo 52 := by
        exact_mod_cast (by omega : mantissa + 1 ≤ 2 * twoTo 52)
      gcongr
      linarith
    · intro even _
      refine lt_of_lt_of_le ?_ bound
      have most : (mantissa : ℚ) + 2 ≤ 2 * twoTo 52 := by
        exact_mod_cast (by omega : mantissa + 2 ≤ 2 * twoTo 52)
      gcongr
      linarith
  · -- below a full mantissa there is no other one but among the smallest doubles
    have wide : ¬ (mantissa' = twoTo 52 ∧ -1074 < exponent) := fun narrow => by omega
    rw [if_neg wide]
    constructor
    · have next : (mantissa : ℚ) + 1 ≤ mantissa' := by
        exact_mod_cast (by omega : mantissa + 1 ≤ mantissa')
      gcongr
      linarith
    · intro even even'
      have next : (mantissa : ℚ) + 2 ≤ mantissa' := by
        exact_mod_cast (by omega : mantissa + 2 ≤ mantissa')
      gcongr
      linarith

/-- No number is in the intervals of two doubles. -/
theorem not_contains_of_below (normal : Normal mantissa exponent)
    (normal' : Normal mantissa' exponent') (positive : 0 < mantissa)
    (less : Below mantissa exponent mantissa' exponent') {q : ℚ}
    (contains : (target mantissa exponent).Contains q) :
    ¬ (target mantissa' exponent').Contains q := by
  intro contains'
  have positive' : 0 < mantissa' := by
    rcases less with less | ⟨-, less⟩
    · have full := normal'.full.resolve_right (by have := normal.least; omega)
      exact (twoTo_pos 52).trans_le full
    · omega
  obtain ⟨apart, strictly⟩ := highEnd_le_lowEnd normal normal' less
  obtain ⟨-, most, odd⟩ := contains_target positive contains
  obtain ⟨least, -, odd'⟩ := contains_target positive' contains'
  by_cases even : mantissa % 2 = 0
  · by_cases even' : mantissa' % 2 = 0
    · exact absurd (strictly even even') (not_lt.mpr (least.trans most))
    · exact absurd ((odd' (by omega)).1.trans_le most) (not_lt.mpr apart)
  · exact absurd ((odd (by omega)).2.trans_le' least) (not_lt.mpr apart)

/-- **Doubles with the same shortest decimal are the same.** -/
theorem eq_of_value_eq (normal : Normal mantissa exponent) (normal' : Normal mantissa' exponent')
    (positive : 0 < mantissa) (positive' : 0 < mantissa')
    (same : (ofDouble mantissa exponent).value = (ofDouble mantissa' exponent').value) :
    mantissa = mantissa' ∧ exponent = exponent' := by
  have contains := ofDouble_contained exponent positive normal.small
  have contains' := ofDouble_contained exponent' positive' normal'.small
  rw [← same] at contains'
  by_cases less : Below mantissa exponent mantissa' exponent'
  · exact absurd contains' (not_contains_of_below normal normal' positive less contains)
  · by_cases more : Below mantissa' exponent' mantissa exponent
    · exact absurd contains (not_contains_of_below normal' normal positive' more contains')
    · unfold Below at less more
      omega

/-- The shortest decimal of a double that is not zero is positive. -/
theorem value_pos (normal : Normal mantissa exponent) (positive : 0 < mantissa) :
    0 < (ofDouble mantissa exponent).value := by
  have least := (contains_target positive
    (ofDouble_contained exponent positive normal.small)).1
  refine lt_of_lt_of_le ?_ least
  have some : (1 : ℚ) ≤ mantissa := by exact_mod_cast positive
  unfold lowEnd
  refine mul_pos ?_ (zpow_pos (by norm_num) _)
  split <;> linarith

end Target

end Shortest

/-! ### Bits -/

/-- The form of a finite double is in the shape of its bits. -/
theorem normal_of_form {x : Float} {negative : Bool} {mantissa : Nat} {exponent : Int}
    (finite : form x = .finite negative mantissa exponent) :
    Shortest.Normal mantissa exponent := by
  have top : twoTo 53 = twoTo 52 + twoTo 52 := rfl
  have fraction : x.toBits.toNat % twoTo 52 < twoTo 52 := Nat.mod_lt _ (twoTo_pos 52)
  unfold form at finite
  dsimp only at finite
  split at finite
  · split at finite <;> cases finite
  next => 
    split at finite
    · cases finite
      exact ⟨by omega, by omega, .inr rfl⟩
    next some =>
      cases finite
      exact ⟨by omega, by omega, .inl (by omega)⟩

theorem eq_of_toBits_eq {x y : Float} (same : x.toBits = y.toBits) : x = y := by
  obtain ⟨⟨bits, _⟩⟩ := x
  obtain ⟨⟨bits', _⟩⟩ := y
  obtain rfl : bits = bits' := same
  rfl

/-- The parts that the form of a double is read off, put together again. -/
theorem bits_eq (x : Float) : x.toBits.toNat = x.toBits.toNat / twoTo 63 * twoTo 63 +
    x.toBits.toNat / twoTo 52 % twoTo 11 * twoTo 52 + x.toBits.toNat % twoTo 52 := by
  have sign : twoTo 63 = 9223372036854775808 := rfl
  have exponent : twoTo 52 = 4503599627370496 := rfl
  have width : twoTo 11 = 2048 := rfl
  rw [sign, exponent, width]
  omega

/-- A double is determined by its sign bit, its power of two and its fraction. -/
theorem eq_of_parts_eq {x y : Float}
    (sign : x.toBits.toNat / twoTo 63 = 1 ↔ y.toBits.toNat / twoTo 63 = 1)
    (biased : x.toBits.toNat / twoTo 52 % twoTo 11 = y.toBits.toNat / twoTo 52 % twoTo 11)
    (fraction : x.toBits.toNat % twoTo 52 = y.toBits.toNat % twoTo 52) : x = y := by
  have signs : x.toBits.toNat / twoTo 63 = y.toBits.toNat / twoTo 63 := by
    have top : twoTo 63 = 9223372036854775808 := rfl
    have boundX := x.toBits.toNat_lt
    have boundY := y.toBits.toNat_lt
    rw [top] at sign ⊢
    omega
  refine eq_of_toBits_eq (UInt64.toNat_inj.mp ?_)
  rw [bits_eq x, bits_eq y, signs, biased, fraction]

/-- A finite double is determined by its form. -/
theorem eq_of_form_eq {x y : Float} {negative : Bool} {mantissa : Nat} {exponent : Int}
    (first : form x = .finite negative mantissa exponent)
    (second : form y = .finite negative mantissa exponent) : x = y := by
  have parts : ∀ z : Float, form z = .finite negative mantissa exponent →
      (z.toBits.toNat / twoTo 63 = 1 ↔ negative = true) ∧
      (z.toBits.toNat / twoTo 52 % twoTo 11 : Int) =
        (if mantissa < twoTo 52 then 0 else exponent + 1075) ∧
      z.toBits.toNat % twoTo 52 =
        (if mantissa < twoTo 52 then mantissa else mantissa - twoTo 52) := by
    intro z finite
    have fraction : z.toBits.toNat % twoTo 52 < twoTo 52 := Nat.mod_lt _ (twoTo_pos 52)
    unfold form at finite
    dsimp only at finite
    split at finite
    · split at finite <;> cases finite
    · split at finite
      next zero =>
        cases finite
        rw [if_pos fraction, if_pos fraction]
        refine ⟨decide_eq_true_iff.symm, ?_, rfl⟩
        exact_mod_cast zero
      next some =>
        cases finite
        rw [if_neg (by omega), if_neg (by omega)]
        refine ⟨decide_eq_true_iff.symm, ?_, by omega⟩
        push_cast
        omega
  obtain ⟨signX, biasedX, fractionX⟩ := parts x first
  obtain ⟨signY, biasedY, fractionY⟩ := parts y second
  refine eq_of_parts_eq (signX.trans signY.symm) ?_ (fractionX.trans fractionY.symm)
  exact_mod_cast biasedX.trans biasedY.symm

/-- An infinite double has the greatest power of two and no fraction. -/
theorem parts_of_infinite {x : Float} {negative : Bool} (infinite : form x = .infinite negative) :
    (x.toBits.toNat / twoTo 63 = 1 ↔ negative = true) ∧
      x.toBits.toNat / twoTo 52 % twoTo 11 = 2047 ∧ x.toBits.toNat % twoTo 52 = 0 := by
  unfold form at infinite
  dsimp only at infinite
  split at infinite
  next greatest =>
    split at infinite
    next whole =>
      cases infinite
      exact ⟨decide_eq_true_iff.symm, greatest, whole⟩
    next => cases infinite
  next => split at infinite <;> cases infinite

theorem unpackExponent_toNat (bits : BitVec 64) :
    (@UnpackedFloat.unpackExponent Format.binary64 bits).toNat =
      bits.toNat / twoTo 52 % twoTo 11 := by
  unfold UnpackedFloat.unpackExponent
  rw [BitVec.toNat_cast, BitVec.extractLsb_toNat, Nat.shiftRight_eq_div_pow]
  rfl

theorem unpackMantissa_toNat (bits : BitVec 64) :
    (@UnpackedFloat.unpackMantissa Format.binary64 bits).toNat = bits.toNat % twoTo 52 := by
  unfold UnpackedFloat.unpackMantissa
  rw [BitVec.toNat_cast, BitVec.extractLsb_toNat, Nat.shiftRight_eq_div_pow, Nat.pow_zero,
    Nat.div_one]
  rfl

/-- There is one double that is not a number. -/
theorem toBits_of_nan {x : Float} (nan : form x = .nan) :
    x.toBits.toBitVec = UnpackedFloat.packedNaN Format.binary64 := by
  unfold form at nan
  dsimp only at nan
  split at nan
  next greatest =>
    split at nan
    · cases nan
    next fraction =>
      refine x.toModel.valid.eq_packedNaN (BitVec.eq_of_toNat_eq ?_) fun none => fraction ?_
      · exact (unpackExponent_toNat _).trans greatest
      · exact (unpackMantissa_toNat _).symm.trans (congrArg BitVec.toNat none)
  next => split at nan <;> cases nan

/-- **A double is determined by its form.** -/
theorem form_injective : Function.Injective form := by
  intro x y same
  cases form_y : form y with
  | nan =>
    exact eq_of_toBits_eq (UInt64.toBitVec_inj.mp
      ((toBits_of_nan (same.trans form_y)).trans (toBits_of_nan form_y).symm))
  | infinite negative =>
    obtain ⟨signX, biasedX, fractionX⟩ := parts_of_infinite (same.trans form_y)
    obtain ⟨signY, biasedY, fractionY⟩ := parts_of_infinite form_y
    exact eq_of_parts_eq (signX.trans signY.symm) (biasedX.trans biasedY.symm)
      (fractionX.trans fractionY.symm)
  | finite negative mantissa exponent => exact eq_of_form_eq (same.trans form_y) form_y

end GridStencil.Number
