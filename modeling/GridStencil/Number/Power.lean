/-!
Powers of two and of ten, which the forms of numbers are made of.
-/

namespace GridStencil.Number

/-- Two to the power `n`. -/
def twoTo (n : Nat) : Nat := Nat.pow 2 n

/-- Ten to the power `n`. -/
def tenTo (n : Nat) : Nat := Nat.pow 10 n

theorem twoTo_succ (n : Nat) : twoTo (n + 1) = twoTo n * 2 := rfl

theorem tenTo_succ (n : Nat) : tenTo (n + 1) = tenTo n * 10 := rfl

theorem twoTo_pos (n : Nat) : 0 < twoTo n := by
  induction n with
  | zero => exact Nat.one_pos
  | succ n ih => rw [twoTo_succ]; omega

theorem tenTo_pos (n : Nat) : 0 < tenTo n := by
  induction n with
  | zero => exact Nat.one_pos
  | succ n ih => rw [tenTo_succ]; omega

end GridStencil.Number
