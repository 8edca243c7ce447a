import GridStencil.Proofs.Number.Shortest
import GridStencil.Proofs.Number.Sign

/-!
**An integer that a double stands for becomes this double again.**

The form of a double is read off its bits, arithmetic is defined on its parts. Both describe the same
number (`form_eq`). A mantissa with all the digits that a double has (`Full`) is packed and rounded to
itself, and a conversion of integers is made of such steps: a small integer goes by way of a machine
word and a product with one, a large one by way of a product that is rounded.

* `Full.unpack_pack`, `Full.roundWithAccuracy_eq`: packing and rounding keep a full mantissa.
* `Full.unpack_ofNat`: a natural number becomes the double that it is.
* `ofInt_integer?`: so does an integer, except that a zero has no sign.
-/

namespace GridStencil.Number

open Float.Model (UnpackedFloat Format)
open Float.Model.UnpackedFloat (Sign ExtendedMantissa)

/-! ### Parts -/

/-- Whether a sign is the one of negative numbers. -/
def signBit : Sign → Bool
  | .positive => false
  | .negative => true

theorem signBit_unpackSign (bits : BitVec 64) :
    signBit (.ofBitVec (@UnpackedFloat.unpackSign Format.binary64 bits)) =
      decide (bits.toNat / twoTo 63 = 1) := by
  have sign : (@UnpackedFloat.unpackSign Format.binary64 bits).toNat = bits.toNat / twoTo 63 := by
    have small := bits.isLt
    unfold UnpackedFloat.unpackSign
    rw [BitVec.toNat_cast, BitVec.extractLsb_toNat, Nat.shiftRight_eq_div_pow]
    have half : twoTo 63 = 9223372036854775808 := rfl
    simp only [half]
    omega
  unfold Sign.ofBitVec
  rw [← sign]
  generalize @UnpackedFloat.unpackSign Format.binary64 bits = bit
  revert bit
  decide

/-- The digit that a mantissa is not stored with. -/
theorem implicit_toNat (m : BitVec 52) : (1#1 ++ m).toNat = twoTo 52 + m.toNat := by
  have sum := Nat.two_pow_add_eq_or_of_lt m.isLt 1
  rw [BitVec.toNat_append, Nat.shiftLeft_eq, Nat.mul_comm]
  rw [Nat.mul_one] at sum
  exact sum.symm

/-- The form of an unpacked double. -/
def formOf : UnpackedFloat → Binary64.Form
  | .notANumber => .nan
  | .infinity sign => .infinite (signBit sign)
  | .zero sign => .finite (signBit sign) 0 (-1074)
  | .finite sign mantissa exponent _ => .finite (signBit sign) mantissa exponent

/-- **The form of a double is read off its parts.** -/
theorem form_eq (x : Float) : Binary64.form x = formOf x.toModel.unpack := by
  have exponent := unpackExponent_toNat x.toModel.toBits.toBitVec
  have mantissa := unpackMantissa_toNat x.toModel.toBits.toBitVec
  have sign := signBit_unpackSign x.toModel.toBits.toBitVec
  show Binary64.form x = formOf (UnpackedFloat.unpack Format.binary64 x.toModel.toBits.toBitVec)
  have bits : x.toBits.toNat = x.toModel.toBits.toBitVec.toNat := rfl
  unfold Binary64.form UnpackedFloat.unpack
  dsimp only
  rw [bits, ← exponent, ← mantissa, ← sign]
  generalize @UnpackedFloat.unpackExponent Format.binary64 x.toModel.toBits.toBitVec = biased
  have top : biased = -1#11 ↔ biased.toNat = 2047 := BitVec.toNat_inj.symm
  have bottom : biased = 0#11 ↔ biased.toNat = 0 := BitVec.toNat_inj.symm
  have nothing : @UnpackedFloat.unpackMantissa Format.binary64 x.toModel.toBits.toBitVec = 0#52 ↔
      (@UnpackedFloat.unpackMantissa Format.binary64 x.toModel.toBits.toBitVec).toNat = 0 :=
    BitVec.toNat_inj.symm
  by_cases atTop : biased.toNat = 2047
  · rw [if_pos atTop, if_pos (top.mpr atTop)]
    by_cases empty :
        @UnpackedFloat.unpackMantissa Format.binary64 x.toModel.toBits.toBitVec = 0#52
    · rw [if_pos (nothing.mp empty), if_pos empty]
      rfl
    · rw [if_neg (mt nothing.mpr empty), if_neg empty]
      rfl
  rw [if_neg atTop, if_neg (mt top.mp atTop)]
  by_cases atBottom : biased.toNat = 0
  · rw [if_pos atBottom, if_pos (bottom.mpr atBottom)]
    by_cases empty :
        @UnpackedFloat.unpackMantissa Format.binary64 x.toModel.toBits.toBitVec = 0#52
    · rw [dif_pos empty, nothing.mp empty]
      rfl
    · rw [dif_neg empty, atBottom]
      rfl
  rw [if_neg atBottom, if_neg (mt bottom.mp atBottom)]
  show Binary64.Form.finite _ _ _ = Binary64.Form.finite _ _ _
  rw [Binary64.Form.finite.injEq]
  refine ⟨rfl, (implicit_toNat _).symm, ?_⟩
  have bias : (Format.binary64.exponentBias : Int) = 1023 := rfl
  rw [bias]
  omega

/-! ### Packing -/

theorem unpackSign_packComponents (sign : Sign) (exponent : BitVec 11) (mantissa : BitVec 52) :
    UnpackedFloat.unpackSign (UnpackedFloat.packComponents Format.binary64 sign exponent mantissa) =
      sign.toBitVec := by
  have upper : (sign.toBitVec.toNat * 2 ^ 11 ||| exponent.toNat) =
      2 ^ 11 * sign.toBitVec.toNat + exponent.toNat := by
    rw [Nat.mul_comm, Nat.two_pow_add_eq_or_of_lt exponent.isLt]
  have all : ((2 ^ 11 * sign.toBitVec.toNat + exponent.toNat) * 2 ^ 52 ||| mantissa.toNat) =
      2 ^ 52 * (2 ^ 11 * sign.toBitVec.toNat + exponent.toNat) + mantissa.toNat := by
    rw [Nat.mul_comm, Nat.two_pow_add_eq_or_of_lt mantissa.isLt]
  have signSmall := sign.toBitVec.isLt
  have exponentSmall := exponent.isLt
  have mantissaSmall := mantissa.isLt
  unfold UnpackedFloat.unpackSign UnpackedFloat.packComponents
  apply BitVec.eq_of_toNat_eq
  rw [BitVec.toNat_cast, BitVec.extractLsb_toNat, Nat.shiftRight_eq_div_pow, BitVec.toNat_append,
    BitVec.toNat_append, Nat.shiftLeft_eq, Nat.shiftLeft_eq, upper, all]
  show _ / 2 ^ 63 % 2 ^ 1 = _
  omega

theorem log2_mul_pow {n : Nat} (nonzero : n ≠ 0) (places : Nat) :
    (n * 2 ^ places).log2 = n.log2 + places := by
  induction places with
  | zero => rw [Nat.pow_zero, Nat.mul_one, Nat.add_zero]
  | succ places ih =>
    have some : n * 2 ^ places ≠ 0 :=
      (Nat.mul_pos (Nat.pos_of_ne_zero nonzero) (Nat.two_pow_pos places)).ne'
    rw [Nat.pow_succ', Nat.mul_left_comm, Nat.log2_two_mul some, ih, Nat.add_assoc]

/-- A mantissa of all the digits that a double has, and an exponent in its range. -/
structure Full (mantissa : Nat) (exponent : Int) : Prop where
  digits : mantissa.log2 = 52
  least : -1074 ≤ exponent
  greatest : exponent ≤ 971

namespace Full

variable {mantissa : Nat} {exponent : Int}

theorem bounds (full : Full mantissa exponent) : 2 ^ 52 ≤ mantissa ∧ mantissa < 2 ^ 53 := by
  have nonzero : mantissa ≠ 0 := by
    rintro rfl
    have digits := full.digits
    rw [Nat.log2_zero] at digits
    cases digits
  exact (Nat.log2_eq_iff nonzero).mp full.digits

theorem positive (full : Full mantissa exponent) : 0 < mantissa :=
  Nat.lt_of_lt_of_le (by decide) full.bounds.1

/-- What a full mantissa is packed to. -/
theorem pack_eq (full : Full mantissa exponent) (sign : Sign) :
    UnpackedFloat.pack Format.binary64 (.finite sign mantissa exponent full.positive) =
      UnpackedFloat.packComponents Format.binary64 sign
        (BitVec.ofNat 11 (exponent + 1075).toNat) (BitVec.ofNat 52 mantissa) := by
  have least := full.least
  have greatest := full.greatest
  have biased : (exponent + Format.binary64.exponentBias + (52 : Nat)).toNat =
      (exponent + 1075).toNat := by
    have bias : (Format.binary64.exponentBias : Int) = 1023 := rfl
    rw [bias]
    omega
  have finite : ¬ 2 ^ 11 ≤ (exponent + 1075).toNat + 1 := by omega
  unfold UnpackedFloat.pack
  dsimp only
  have digits : mantissa.log2 + 1 = Format.binary64.mantissaBits := by
    rw [full.digits]
    rfl
  rw [biased, if_neg finite, if_pos digits]

/-- What is unpacked is what was packed. -/
theorem unpack_pack (full : Full mantissa exponent) (sign : Sign) :
    (Float.Model.pack (.finite sign mantissa exponent full.positive)).unpack =
      .finite sign mantissa exponent full.positive := by
  obtain ⟨low, high⟩ := full.bounds
  have least := full.least
  have greatest := full.greatest
  have small : (exponent + 1075).toNat < 2 ^ 11 := by omega
  have biased : (BitVec.ofNat 11 (exponent + 1075).toNat).toNat = (exponent + 1075).toNat := by
    rw [BitVec.toNat_ofNat, Nat.mod_eq_of_lt small]
  have notTop : BitVec.ofNat 11 (exponent + 1075).toNat ≠ -1#11 := by
    intro top
    have value := congrArg BitVec.toNat top
    rw [biased] at value
    have most : (-1#11).toNat = 2047 := rfl
    omega
  have notBottom : BitVec.ofNat 11 (exponent + 1075).toNat ≠ 0#11 := by
    intro bottom
    have value := congrArg BitVec.toNat bottom
    rw [biased] at value
    have nothing : (0#11).toNat = 0 := rfl
    omega
  have whole : (1#1 ++ BitVec.ofNat 52 mantissa).toNat = mantissa := by
    rw [implicit_toNat, BitVec.toNat_ofNat]
    have implicit : twoTo 52 = 2 ^ 52 := rfl
    omega
  have unbiased : ((BitVec.ofNat 11 (exponent + 1075).toNat).toNat : Int) -
      ((Format.binary64.exponentBias : Int) + (52 : Nat)) = exponent := by
    have bias : (Format.binary64.exponentBias : Int) = 1023 := rfl
    rw [bias, biased]
    omega
  have same : Sign.ofBitVec sign.toBitVec = sign := by cases sign <;> rfl
  show UnpackedFloat.unpack Format.binary64 (UnpackedFloat.pack Format.binary64 _) = _
  rw [full.pack_eq]
  unfold UnpackedFloat.unpack
  dsimp only
  rw [UnpackedFloat.unpackExponent_packComponents, if_neg notTop, if_neg notBottom]
  rw [UnpackedFloat.finite.injEq]
  refine ⟨?_, ?_, unbiased⟩
  · rw [unpackSign_packComponents, same]
  · rw [UnpackedFloat.unpackMantissa_packComponents, whole]

/-! ### Rounding -/

open Float.Model.UnpackedFloat.ExtendedMantissa (shiftRightOne) in
/-- Zeros shifted out leave no trace. -/
theorem shift_exact (mantissa : Nat) : ∀ places,
    (⟨mantissa * 2 ^ places, false, false⟩ : ExtendedMantissa) >>> places =
      ⟨mantissa, false, false⟩
  | 0 => by rw [Nat.pow_zero, Nat.mul_one]; rfl
  | places + 1 => by
    have shifted := shift_exact (mantissa * 2) places
    rw [Nat.mul_assoc, ← Nat.pow_succ'] at shifted
    show shiftRightOne ((⟨mantissa * 2 ^ (places + 1), false, false⟩ : ExtendedMantissa) >>>
      places) = _
    rw [shifted]
    unfold shiftRightOne
    simp

/-- The exponent of a full mantissa is the one that rounding aims at. -/
theorem targetExponent_eq (full : Full mantissa exponent) (places : Nat) :
    Format.binary64.targetExponent
      (Float.Model.totalExponent (mantissa * 2 ^ places) (exponent - places)) = exponent := by
  have least := full.least
  unfold Float.Model.totalExponent
  rw [log2_mul_pow full.positive.ne', full.digits]
  show max (_ - 53) (-1074) = _
  omega

theorem shiftToTargetExponent_eq (full : Full mantissa exponent) (places : Nat) :
    UnpackedFloat.shiftToTargetExponent Format.binary64 (mantissa * 2 ^ places) (exponent - places)
      .exact = (⟨mantissa, false, false⟩, exponent) := by
  have amount : (exponent - (exponent - places)).toNat = places := by omega
  unfold UnpackedFloat.shiftToTargetExponent UnpackedFloat.shiftToExponent
  dsimp only
  rw [full.targetExponent_eq, amount, Int.sub_add_cancel]
  exact congrArg (·, exponent) (shift_exact mantissa places)

/-- A full mantissa followed by zeros is rounded to itself. -/
theorem roundWithAccuracy_eq (full : Full mantissa exponent) (sign : Sign) (places : Nat) :
    UnpackedFloat.roundWithAccuracy Format.binary64 sign (mantissa * 2 ^ places)
      (exponent - places) .exact = .finite sign mantissa exponent full.positive := by
  have again := full.shiftToTargetExponent_eq 0
  rw [Nat.pow_zero, Nat.mul_one, Int.natCast_zero, Int.sub_zero] at again
  unfold UnpackedFloat.roundWithAccuracy
  rw [full.shiftToTargetExponent_eq]
  show (if nothing : (UnpackedFloat.shiftToTargetExponent Format.binary64 mantissa exponent
      .exact).1.mantissa = 0 then UnpackedFloat.zero sign
    else .finite sign _ (UnpackedFloat.shiftToTargetExponent Format.binary64 mantissa exponent
      .exact).2 (Nat.pos_of_ne_zero nothing)) = _
  rw [again]
  exact dif_neg full.positive.ne'

end Full

/-! ### Natural numbers -/

section

variable {n : Nat}

/-- A number with few digits, filled up with zeros. -/
theorem full_of_lt (nonzero : n ≠ 0) (small : n < 2 ^ 53) :
    Full (n * 2 ^ (52 - n.log2)) (n.log2 - 52) := by
  have most : n.log2 < 53 := (Nat.log2_lt nonzero).mpr small
  refine ⟨?_, by omega, by omega⟩
  rw [log2_mul_pow nonzero]
  omega

theorem unpack_toFloat (nonzero : n ≠ 0) (small : n < 2 ^ 53) :
    n.toUInt64.toFloat.toModel.unpack =
      .finite .positive (n * 2 ^ (52 - n.log2)) (n.log2 - 52)
        (full_of_lt nonzero small).positive := by
  have full := full_of_lt nonzero small
  have most : n.log2 < 53 := (Nat.log2_lt nonzero).mpr small
  have word : n.toUInt64.toNat = n := by
    rw [UInt64.toNat_ofNat']
    omega
  have above : compare (n : Int) 0 = .gt := Int.compare_eq_gt.mpr (by omega)
  have target : Format.binary64.targetExponent (Float.Model.totalExponent n 0) =
      n.log2 - 52 := by
    show max ((n.log2 : Int) + 1 + 0 - 53) (-1074) = _
    omega
  have amount : (0 - ((n.log2 : Int) - 52)).toNat = 52 - n.log2 := by omega
  have left : (0 : Int) - (52 - n.log2 : Nat) = n.log2 - 52 - (0 : Nat) := by omega
  have rounded := full.roundWithAccuracy_eq .positive 0
  rw [Nat.pow_zero, Nat.mul_one] at rounded
  show (Float.Model.pack (UnpackedFloat.normalize Format.binary64 n.toUInt64.toNat 0
    .positive)).unpack = _
  rw [word]
  unfold UnpackedFloat.normalize
  rw [above]
  dsimp only
  unfold UnpackedFloat.round UnpackedFloat.decreaseExponent
  dsimp only
  rw [Int.toNat_natCast, target, amount, left, Nat.shiftLeft_eq, rounded, full.unpack_pack]

/-- A number with few digits becomes a double by way of a machine word. -/
theorem unpack_ofNat_of_lt (nonzero : n ≠ 0) (small : n < 2 ^ 53) :
    (Float.ofNat n).toModel.unpack =
      .finite .positive (n * 2 ^ (52 - n.log2)) (n.log2 - 52)
        (full_of_lt nonzero small).positive := by
  have full := full_of_lt nonzero small
  have fast : Float.ofNat n = n.toUInt64.toFloat * Float.ofBits 0x3FF0000000000000 := by
    show Float.ofScientific n false 0 = _
    unfold Float.ofScientific
    rw [dif_pos ⟨small, by decide⟩]
    rfl
  have one : (Float.ofBits 0x3FF0000000000000).toModel.unpack =
      .finite .positive (2 ^ 52) (-52) (by decide) := rfl
  rw [fast]
  show (Float.Model.pack (UnpackedFloat.mul Format.binary64 n.toUInt64.toFloat.toModel.unpack
    (Float.ofBits 0x3FF0000000000000).toModel.unpack)).unpack = _
  rw [unpack_toFloat nonzero small, one]
  show (Float.Model.pack (UnpackedFloat.roundWithAccuracy _ .positive _
    ((n.log2 : Int) - 52 - (52 : Nat)) _)).unpack = _
  rw [full.roundWithAccuracy_eq .positive 52, full.unpack_pack]

variable {mantissa : Nat} {exponent : Int}

/-- A number with many digits becomes a double by rounding. -/
theorem unpack_ofNat_of_ge (full : Full mantissa exponent) {places : Nat}
    (value : exponent = places) (large : ¬ mantissa * 2 ^ places < 2 ^ 53) :
    (Float.ofNat (mantissa * 2 ^ places)).toModel.unpack =
      .finite .positive mantissa exponent full.positive := by
  have nonzero : mantissa * 2 ^ places ≠ 0 := by omega
  have slow : Float.ofNat (mantissa * 2 ^ places) =
      Float.ofModel (Float.Model.ofScientific (mantissa * 2 ^ places) 0) := by
    show Float.ofScientific _ false 0 = _
    unfold Float.ofScientific
    rw [dif_neg fun fits => large fits.1]
    rfl
  have scaled : (mantissa * 2 ^ places) <<< 53 * 10 ^ (0 : Int).toNat =
      mantissa * 2 ^ (places + 53) := by
    rw [Nat.shiftLeft_eq, Int.toNat_zero, Nat.pow_zero, Nat.mul_one, Nat.mul_assoc, ← Nat.pow_add]
  have shift : -53 + 0 = exponent - (places + 53 : Nat) := by omega
  have range : (2 : Int) ^ Format.binary64.exponentBits = 2048 := rfl
  rw [slow]
  show (Float.Model.pack (UnpackedFloat.ofScientific Format.binary64 _ 0)).unpack = _
  unfold UnpackedFloat.ofScientific
  rw [dif_neg nonzero, range, if_neg (by omega), if_neg (by omega), if_pos (Int.le_refl 0)]
  unfold UnpackedFloat.mul
  show (Float.Model.pack (UnpackedFloat.roundWithAccuracy Format.binary64 .positive
    ((mantissa * 2 ^ places) <<< 53 * 10 ^ (0 : Int).toNat) (-53 + 0) .exact)).unpack = _
  rw [scaled, shift, full.roundWithAccuracy_eq .positive, full.unpack_pack]

/-- The natural number `n` is `mantissa * 2 ^ exponent`. -/
def Counts (mantissa : Nat) (exponent : Int) (n : Nat) : Prop :=
  match exponent with
  | .ofNat places => mantissa * 2 ^ places = n
  | .negSucc places => n * 2 ^ (places + 1) = mantissa

/-- A natural number becomes the double that it is. -/
theorem Full.unpack_ofNat (full : Full mantissa exponent) (counts : Counts mantissa exponent n) :
    (Float.ofNat n).toModel.unpack = .finite .positive mantissa exponent full.positive := by
  have digits := full.digits
  obtain ⟨low, high⟩ := full.bounds
  cases exponent with
  | ofNat places =>
    obtain rfl : mantissa * 2 ^ places = n := counts
    by_cases small : mantissa * 2 ^ places < 2 ^ 53
    · cases places with
      | zero =>
        rw [unpack_ofNat_of_lt (Nat.mul_pos full.positive (Nat.two_pow_pos 0)).ne' small,
          UnpackedFloat.finite.injEq, Nat.pow_zero, Nat.mul_one, digits]
        exact ⟨rfl, Nat.mul_one _, rfl⟩
      | succ places =>
        have twice : 2 ^ 1 ≤ 2 ^ (places + 1) := Nat.pow_le_pow_right (by decide) (by omega)
        have most := Nat.mul_le_mul low twice
        omega
    · exact unpack_ofNat_of_ge full rfl small
  | negSucc places =>
    obtain rfl : n * 2 ^ (places + 1) = mantissa := counts
    have nonzero : n ≠ 0 := by
      rintro rfl
      omega
    have small : n < 2 ^ 53 :=
      Nat.lt_of_le_of_lt (Nat.le_mul_of_pos_right n (Nat.two_pow_pos _)) high
    rw [log2_mul_pow nonzero] at digits
    have filled : 52 - n.log2 = places + 1 := by omega
    rw [unpack_ofNat_of_lt nonzero small, UnpackedFloat.finite.injEq, filled]
    exact ⟨rfl, rfl, by omega⟩

end

/-! ### Integers -/

section

variable {mantissa : Nat} {exponent : Int} {n : Nat}

theorem full_of_normal (normal : Shortest.Normal mantissa exponent)
    (counts : Counts mantissa exponent n) (nonzero : n ≠ 0) (fits : n < 2 ^ 63) :
    Full mantissa exponent := by
  cases exponent with
  | ofNat places =>
    obtain rfl : mantissa * 2 ^ places = n := counts
    have above : 0 ≤ Int.ofNat places := Int.natCast_nonneg places
    have many : 2 ^ 52 ≤ mantissa := normal.full.resolve_right (by omega)
    refine ⟨(Nat.log2_eq_iff (by omega)).mpr ⟨many, normal.small⟩, normal.least, ?_⟩
    by_contra large
    have range : 2 ^ 63 ≤ 2 ^ places := by
      refine Nat.pow_le_pow_right (by decide) ?_
      rw [Int.ofNat_eq_natCast] at large
      omega
    have most := Nat.mul_le_mul (Nat.le_trans (by decide) many : 1 ≤ mantissa) range
    omega
  | negSucc places =>
    have same : n * 2 ^ (places + 1) = mantissa := counts
    have many : 2 ^ 52 ≤ mantissa := by
      rcases normal.full with full | deepest
      · exact full
      · -- The fraction of a double this deep is more than a mantissa can hold.
        rw [← same]
        exact Nat.le_trans (Nat.pow_le_pow_right (by decide) (by omega))
          (Nat.le_mul_of_pos_left _ (Nat.pos_of_ne_zero nonzero))
    exact ⟨(Nat.log2_eq_iff (by omega)).mpr ⟨many, normal.small⟩, normal.least, by omega⟩

/-- An integer becomes the double that it is. -/
theorem Full.form_ofInt (full : Full mantissa exponent) (counts : Counts mantissa exponent n)
    (negative : Bool) :
    Binary64.form (Float.ofInt (if negative then -n else n)) =
      .finite negative mantissa exponent := by
  have whole := full.unpack_ofNat counts
  cases negative with
  | false =>
    show Binary64.form (Float.ofNat n) = _
    rw [form_eq, whole]
    rfl
  | true =>
    cases n with
    | zero =>
      have nothing : (Float.ofNat 0).toModel.unpack = .zero .positive := rfl
      rw [nothing] at whole
      cases whole
    | succ n =>
      show Binary64.form (Float.ofNat (n + 1)).neg = _
      rw [form_eq]
      show formOf (Float.Model.pack (Float.ofNat (n + 1)).toModel.unpack.neg).unpack = _
      rw [whole]
      show formOf (Float.Model.pack (.finite .negative mantissa exponent full.positive)).unpack = _
      rw [full.unpack_pack]
      rfl

/-- The integer that a double stands for is read off its form. -/
theorem counts_of_integer? {x : Float} {value : Int} (whole : Binary64.integer? x = some value) :
    ∃ negative mantissa exponent n, Binary64.form x = .finite negative mantissa exponent ∧
      Counts mantissa exponent n ∧ value = if negative then -(n : Int) else n := by
  unfold Binary64.integer? at whole
  split at whole
  next negative mantissa exponent finite =>
    refine ⟨negative, mantissa, exponent, ?_⟩
    split at whole
    next places =>
      exact ⟨mantissa * twoTo places, finite, rfl, (Option.some.inj whole).symm⟩
    next places =>
      split at whole
      next divides =>
        refine ⟨mantissa / twoTo (places + 1), finite, ?_, (Option.some.inj whole).symm⟩
        exact Nat.div_mul_cancel (Nat.dvd_of_mod_eq_zero divides)
      · cases whole
  · cases whole

/-- A double that stands for nothing is a zero. -/
theorem zero_of_counts (normal : Shortest.Normal mantissa exponent)
    (counts : Counts mantissa exponent 0) : mantissa = 0 ∧ exponent = -1074 := by
  have nothing : mantissa = 0 := by
    cases exponent with
    | ofNat places => exact (Nat.mul_eq_zero.mp counts).resolve_right (Nat.two_pow_pos places).ne'
    | negSucc places => exact (Nat.zero_mul _).symm.trans counts |>.symm
  refine ⟨nothing, normal.full.resolve_left ?_⟩
  rw [nothing]
  exact Nat.not_le.mpr (twoTo_pos 52)

end

/-- Whether a double is the zero with a sign. -/
def MinusZero (x : Float) : Prop := Binary64.form x = .finite true 0 (-1074)

instance (x : Float) : Decidable (MinusZero x) := inferInstanceAs (Decidable (_ = _))

theorem form_zero : Binary64.form (Float.ofInt 0) = .finite false 0 (-1074) := by decide

/-- **An integer that a double stands for becomes this double again.** The zero with a sign is the
only exception: the integer has no sign. -/
theorem ofInt_integer? {x : Float} {value : Int} (whole : Binary64.integer? x = some value)
    (fits : value.natAbs < 2 ^ 63) :
    Float.ofInt value = if MinusZero x then 0.0 else x := by
  obtain ⟨negative, mantissa, exponent, n, finite, counts, same⟩ := counts_of_integer? whole
  have normal := normal_of_form finite
  have minus : MinusZero x ↔ (negative = true ∧ mantissa = 0 ∧ exponent = -1074) := by
    unfold MinusZero
    rw [finite, Binary64.Form.finite.injEq]
  cases n with
  | zero =>
    obtain ⟨rfl, rfl⟩ := zero_of_counts normal counts
    have nothing : value = 0 := by cases negative <;> exact same
    rw [nothing]
    cases negative with
    | false =>
      rw [if_neg fun signed => Bool.false_ne_true (minus.mp signed).1]
      exact eq_of_form_eq form_zero finite
    | true =>
      have signed : MinusZero x := finite
      rw [if_pos signed]
      rfl
  | succ n =>
    have small : n + 1 < 2 ^ 63 := by cases negative <;> omega
    have full := full_of_normal normal counts (Nat.succ_ne_zero n) small
    rw [if_neg fun signed => full.positive.ne' (minus.mp signed).2.1, same]
    exact eq_of_form_eq (full.form_ofInt counts negative) finite

end GridStencil.Number
