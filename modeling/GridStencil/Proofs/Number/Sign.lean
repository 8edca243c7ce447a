import GridStencil.Number.Binary64
import GridStencil.Number.Reader

/-!
**Numbers that are written without a sign have none.**

A number of a definition is the product or the quotient of two doubles whose sign bit is not set,
and neither rounding nor packing sets it (`unsigned_ofScientific`). So what is read without a sign
in front is no negative double: `unsigned_of_readFloat?`.
-/

namespace GridStencil.Number

open Float.Model (UnpackedFloat Format)
open Float.Model.UnpackedFloat (Sign)

/-- Whether a double that is taken apart is no negative one. -/
def Positive : UnpackedFloat → Prop
  | .notANumber => True
  | .infinity sign | .zero sign | .finite sign _ _ _ => sign = .positive

/-- Whether the sign bit of a double is not set. -/
def Unsigned (x : Float) : Prop := x.toBits.toNat < twoTo 63

/-! ### Operations -/

theorem positive_dite {c : Prop} [Decidable c] {a : c → UnpackedFloat} {b : ¬ c → UnpackedFloat}
    (there : ∀ h, Positive (a h)) (other : ∀ h, Positive (b h)) :
    Positive (if h : c then a h else b h) := by
  by_cases h : c
  · rw [dif_pos h]
    exact there h
  · rw [dif_neg h]
    exact other h

theorem positive_roundWithAccuracy (spec : Format) (mantissa : Nat) (exponent : Int)
    (accuracy : UnpackedFloat.Accuracy) :
    Positive (UnpackedFloat.roundWithAccuracy spec .positive mantissa exponent accuracy) := by
  unfold UnpackedFloat.roundWithAccuracy
  dsimp only
  exact positive_dite (fun _ => rfl) fun _ => rfl

theorem positive_mul (spec : Format) {a b : UnpackedFloat} (left : Positive a)
    (right : Positive b) : Positive (UnpackedFloat.mul spec a b) := by
  cases a <;> cases b <;> cases left <;> cases right <;>
    first | exact positive_roundWithAccuracy .. | trivial

theorem positive_div (spec : Format) {a b : UnpackedFloat} (left : Positive a)
    (right : Positive b) : Positive (UnpackedFloat.div spec a b) := by
  cases a <;> cases b <;> cases left <;> cases right <;>
    first | exact positive_roundWithAccuracy .. | trivial

theorem positive_ofScientific (spec : Format) (mantissa : Nat) (exponent : Int) :
    Positive (UnpackedFloat.ofScientific spec mantissa exponent) := by
  unfold UnpackedFloat.ofScientific
  refine positive_dite (fun _ => rfl) fun _ => ?_
  refine iteInduction (motive := Positive) (fun _ => rfl) fun _ => ?_
  refine iteInduction (motive := Positive) (fun _ => rfl) fun _ => ?_
  exact iteInduction (motive := Positive) (fun _ => positive_mul spec rfl rfl)
    (fun _ => positive_div spec rfl rfl)

theorem positive_ofUInt64 (spec : Format) (n : UInt64) :
    Positive (UnpackedFloat.ofUInt64 spec n) := by
  show Positive (UnpackedFloat.normalize spec n.toNat 0 .positive)
  unfold UnpackedFloat.normalize
  split
  next below =>
    have least := Int.compare_eq_lt.mp below
    omega
  · rfl
  · exact positive_roundWithAccuracy ..

/-! ### Bits -/

theorem unsigned_packComponents (exponent : BitVec 11) (mantissa : BitVec 52) :
    (UnpackedFloat.packComponents Format.binary64 .positive exponent mantissa).toNat < twoTo 63 := by
  have top : (Sign.positive.toBitVec ++ exponent ++ mantissa).msb = false := by
    rw [BitVec.msb_append, if_neg (by decide), BitVec.msb_append, if_neg (by decide)]
    rfl
  have small := BitVec.msb_eq_false_iff_two_mul_lt.mp top
  have half : twoTo 63 = 9223372036854775808 := rfl
  show (Sign.positive.toBitVec ++ exponent ++ mantissa).toNat < twoTo 63
  omega

theorem unsigned_pack {u : UnpackedFloat} (positive : Positive u) :
    (Float.Model.pack u).toBits.toNat < twoTo 63 := by
  show (UnpackedFloat.pack Format.binary64 u).toNat < twoTo 63
  cases u with
  | notANumber => exact unsigned_packComponents _ _
  | infinity sign =>
    obtain rfl : sign = .positive := positive
    exact unsigned_packComponents _ _
  | zero sign =>
    obtain rfl : sign = .positive := positive
    exact unsigned_packComponents _ _
  | finite sign mantissa exponent nonzero =>
    obtain rfl : sign = .positive := positive
    unfold UnpackedFloat.pack
    dsimp only
    split
    · exact unsigned_packComponents _ _
    · split
      · exact unsigned_packComponents _ _
      · exact unsigned_packComponents _ _

theorem unpackSign_eq_zero {bits : BitVec 64} (unsigned : bits.toNat < twoTo 63) :
    @UnpackedFloat.unpackSign Format.binary64 bits = 0#1 := by
  unfold UnpackedFloat.unpackSign
  apply BitVec.eq_of_toNat_eq
  simp only [BitVec.toNat_cast, BitVec.extractLsb_toNat, Nat.shiftRight_eq_div_pow,
    BitVec.toNat_ofNat]
  have half : twoTo 63 = 9223372036854775808 := rfl
  omega

theorem positive_unpack {m : Float.Model} (unsigned : m.toBits.toNat < twoTo 63) :
    Positive m.unpack := by
  unfold Float.Model.unpack UnpackedFloat.unpack
  dsimp only
  rw [unpackSign_eq_zero unsigned]
  refine iteInduction (motive := Positive) (fun _ => ?_) fun _ => ?_
  · exact iteInduction (motive := Positive) (fun _ => rfl) fun _ => trivial
  · refine iteInduction (motive := Positive) (fun _ => ?_) fun _ => rfl
    exact positive_dite (fun _ => rfl) fun _ => rfl

/-! ### Numbers -/

theorem unsigned_mul {x y : Float} (left : Unsigned x) (right : Unsigned y) : Unsigned (x * y) :=
  unsigned_pack (positive_mul _ (positive_unpack left) (positive_unpack right))

theorem unsigned_div {x y : Float} (left : Unsigned x) (right : Unsigned y) : Unsigned (x / y) :=
  unsigned_pack (positive_div _ (positive_unpack left) (positive_unpack right))

theorem unsigned_toFloat (n : UInt64) : Unsigned n.toFloat :=
  unsigned_pack (positive_ofUInt64 _ n)

theorem unsigned_powerOfTen : ∀ x ∈ Float.exactlyRepresentablePowersOfTen, Unsigned x := by
  unfold Unsigned
  decide

/-- **A decimal without a sign is no negative double.** -/
theorem unsigned_ofScientific (mantissa : Nat) (down : Bool) (exponent : Nat) :
    Unsigned (Float.ofScientific mantissa down exponent) := by
  unfold Float.ofScientific
  split
  · dsimp only
    split
    · exact unsigned_div (unsigned_toFloat _) (unsigned_powerOfTen _ (Array.getElem_mem _))
    · exact unsigned_mul (unsigned_toFloat _) (unsigned_powerOfTen _ (Array.getElem_mem _))
  · exact unsigned_pack (positive_ofScientific _ _ _)

theorem unsigned_nearest (mantissa : Nat) (exponent : Int) :
    Unsigned (nearest false mantissa exponent) := by
  unfold nearest
  dsimp only
  rw [if_neg Bool.false_ne_true]
  split
  · unfold Unsigned
    decide
  · split
    · unfold Unsigned
      decide
    · exact unsigned_ofScientific _ _ _

theorem splitSign_of_no_sign {text : List Char} (no_sign : ∀ c, text.head? = some c → c ≠ '-') :
    ∃ rest, splitSign text = (false, rest) := by
  unfold splitSign
  split
  · exact ⟨_, rfl⟩
  · exact absurd rfl (no_sign '-' rfl)
  · exact ⟨_, rfl⟩

/-- What is read without a sign in front is no negative double. -/
theorem unsigned_of_readFloat? {text : List Char} {x : Float}
    (no_sign : ∀ c, text.head? = some c → c ≠ '-') (read : readFloat? text = some x) :
    Unsigned x := by
  obtain ⟨body, sign⟩ := splitSign_of_no_sign no_sign
  unfold readFloat? at read
  rw [sign] at read
  dsimp only at read
  split at read
  next special =>
    obtain rfl := Option.some.inj read
    unfold readSpecial? at special
    dsimp only at special
    split at special
    · obtain rfl := Option.some.inj special
      unfold Unsigned
      decide
    · obtain rfl := Option.some.inj special
      unfold Unsigned
      decide
    · obtain rfl := Option.some.inj special
      unfold Unsigned
      decide
    · cases special
  · split at read
    · cases read
    · obtain ⟨power, -, rfl⟩ := Option.map_eq_some_iff.mp read
      exact unsigned_nearest _ _

/-- A double whose sign bit is not set is not negative where it is finite. -/
theorem form_of_unsigned {x : Float} (unsigned : Unsigned x) {negative : Bool} {mantissa : Nat}
    {exponent : Int} (finite : Binary64.form x = .finite negative mantissa exponent) :
    negative = false := by
  have no_sign : ¬ x.toBits.toNat / twoTo 63 = 1 := by
    have zero : x.toBits.toNat / twoTo 63 = 0 := Nat.div_eq_of_lt unsigned
    omega
  unfold Binary64.form at finite
  dsimp only at finite
  split at finite
  · split at finite <;> cases finite
  · split at finite <;> exact (Binary64.Form.finite.inj finite).1 ▸ decide_eq_false no_sign

end GridStencil.Number
