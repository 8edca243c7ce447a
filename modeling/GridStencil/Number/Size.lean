import GridStencil.Number.Range

/-!
The arithmetic of sizes.

Sizes are words of 64 bits without a sign, places are words with one. A result that does not fit
stops the program, and so does a block of memory with more bytes than the range with a sign has.
-/

namespace GridStencil

/-- What stops the program when a size or a place is computed. -/
inductive Overflow
  | sum
  | difference
  | product
  | memory
deriving DecidableEq

/-- The sentence that the program stops with. -/
def Overflow.message : Overflow → String
  | sum => "attempt to add with overflow"
  | difference => "attempt to subtract with overflow"
  | product => "attempt to multiply with overflow"
  | memory => "capacity overflow"

namespace Number

/-- The sum of two sizes. -/
def plus (a b : Nat) : Except Overflow Nat :=
  if a + b < wordCount then .ok (a + b) else .error .sum

/-- The product of two sizes. -/
def times (a b : Nat) : Except Overflow Nat :=
  if a * b < wordCount then .ok (a * b) else .error .product

/-- The sum of two places. -/
def plusSigned (a b : Int) : Except Overflow Int :=
  if InRange (a + b) then .ok (a + b) else .error .sum

/-- The difference of two places. -/
def minusSigned (a b : Int) : Except Overflow Int :=
  if InRange (a - b) then .ok (a - b) else .error .difference

/-- Memory for some bytes. -/
def requireMemory (bytes : Nat) : Except Overflow Unit :=
  if InRange bytes then .ok () else .error .memory

theorem ok_ite_eq_ok {α : Type} {fits : Prop} [Decidable fits] {x y : α} {overflow : Overflow} :
    (if fits then .ok x else .error overflow) = Except.ok y ↔ fits ∧ x = y := by
  by_cases holds : fits
  · rw [if_pos holds, Except.ok.injEq, and_iff_right holds]
  · rw [if_neg holds]
    exact ⟨nofun, fun both => absurd both.1 holds⟩

theorem plus_eq_ok {a b c : Nat} : plus a b = .ok c ↔ a + b < wordCount ∧ a + b = c :=
  ok_ite_eq_ok

theorem times_eq_ok {a b c : Nat} : times a b = .ok c ↔ a * b < wordCount ∧ a * b = c :=
  ok_ite_eq_ok

theorem plusSigned_eq_ok {a b c : Int} : plusSigned a b = .ok c ↔ InRange (a + b) ∧ a + b = c :=
  ok_ite_eq_ok

theorem minusSigned_eq_ok {a b c : Int} : minusSigned a b = .ok c ↔ InRange (a - b) ∧ a - b = c :=
  ok_ite_eq_ok

theorem requireMemory_eq_ok {bytes : Nat} : requireMemory bytes = .ok () ↔ InRange bytes :=
  ok_ite_eq_ok.trans (and_iff_left rfl)

end Number

end GridStencil
