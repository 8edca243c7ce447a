/-!
The signed 64-bit range.

Offsets, bounds and integer literals are integers of this range. Sums that leave it are detected
by `addChecked` and never wrap; `wrapped` is the one place where a count is reinterpreted.
-/

namespace GridStencil.Number

/-- The least integer above the range: two to the power 63. -/
def int64Bound : Int := 0x8000000000000000

/-- How many values a word of 64 bits has: two to the power 64. -/
def wordCount : Nat := 0x10000000000000000

/-- Whether an integer fits into 64 bits with a sign. -/
def InRange (n : Int) : Prop := -int64Bound ≤ n ∧ n < int64Bound

instance (n : Int) : Decidable (InRange n) := inferInstanceAs (Decidable (_ ∧ _))

/-- The integer itself where it fits. -/
def checked (n : Int) : Option Int := if InRange n then some n else none

/-- The sum where it fits. -/
def addChecked (a b : Int) : Option Int := checked (a + b)

/-- The integer of the range that agrees with `n` modulo `wordCount`. -/
def wrapped (n : Int) : Int := Int.bmod n wordCount

theorem checked_eq_some {n m : Int} : checked n = some m ↔ InRange n ∧ n = m := by
  unfold checked
  split <;> simp_all

theorem addChecked_eq_some {a b c : Int} :
    addChecked a b = some c ↔ InRange (a + b) ∧ a + b = c := checked_eq_some

theorem wrapped_of_inRange {n : Int} (h : InRange n) : wrapped n = n := by
  simp only [InRange, int64Bound] at h
  unfold wrapped wordCount
  rw [Int.bmod_eq_of_le] <;> omega

end GridStencil.Number
