import GridStencil.Name.Fresh
import Mathlib.Data.List.Nodup
import Mathlib.Data.List.Perm.Subperm
import Std.Data.String.ToNat

/-!
**Fresh names are fresh.**

A supply tries one counter more than there are names in use, and different counters make different
names, so by counting one of them is free.
-/

namespace GridStencil.Name.Fresh

theorem numbered_injective (stem : String) {m n : Nat} (same : numbered stem m = numbered stem n) :
    m = n :=
  Nat.repr_injective ((String.append_right_inj stem).mp same)

/-- A search that ends at a name in use has found all names before it in use, too. -/
theorem taken_of_firstFree {taken : List String} {stem : String} {room count : Nat}
    (used : numbered stem (firstFree taken stem room count) ∈ taken) :
    ∀ m, count ≤ m → m ≤ count + room → numbered stem m ∈ taken := by
  induction room generalizing count with
  | zero =>
    intro m least most
    have same : m = count := by omega
    subst same
    exact used
  | succ room ih =>
    unfold firstFree at used
    split at used
    next here =>
      intro m least most
      rcases Nat.eq_or_lt_of_le least with rfl | later
      · exact List.contains_iff_mem.mp here
      · exact ih used m later (by omega)
    next free => exact absurd (List.contains_iff_mem.mpr used) free

/-- **A fresh name is not in use.** -/
theorem next_not_mem (fresh : Fresh) (stem : String) : (fresh.next stem).1 ∉ fresh.taken := by
  intro used
  have all := taken_of_firstFree used
  let names := (List.range (fresh.taken.length + 1)).map fun n =>
    numbered stem (fresh.counter stem + n)
  have distinct : names.Nodup := by
    refine List.Nodup.map_on (fun m _ n _ same => ?_) List.nodup_range
    have equal := numbered_injective stem same
    omega
  have inside : names ⊆ fresh.taken := by
    intro name member
    obtain ⟨n, below, rfl⟩ := List.mem_map.mp member
    rw [List.mem_range] at below
    exact all _ (Nat.le_add_right _ _) (by omega)
  have length := (distinct.subperm inside).length_le
  rw [List.length_map, List.length_range] at length
  omega

end GridStencil.Name.Fresh
