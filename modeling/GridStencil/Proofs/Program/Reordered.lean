import GridStencil.Program.Basic
import Mathlib.Data.List.Forall2
import Mathlib.Data.List.Perm.Basic

/-!
**Programs with the sections of parallel blocks in another order.**

A parallel block visits its planes in no order, so the order in which it lists its sections should
not matter. How far this holds depends on what sections read of each other: nothing at all
(`Section.Independent`), or nothing on planes that are not their own (`Section.Detached`).
-/

namespace GridStencil

namespace Program

/-! ### Sections -/

/-- The first section reads no field that the second one assigns. -/
def Section.Ignores (a b : Section) : Prop :=
  ∀ reader ∈ a.body, ∀ read ∈ reader.reads, ∀ writer ∈ b.body, read.field ≠ writer.target

/-- The first section reads fields that the second one assigns on its own planes only. -/
def Section.Level (a b : Section) : Prop :=
  ∀ reader ∈ a.body, ∀ read ∈ reader.reads, ∀ writer ∈ b.body,
    read.field = writer.target → read.offset.k = 0

/-- Neither section reads a field that the other one assigns. -/
def Section.Independent (a b : Section) : Prop := a.Ignores b ∧ b.Ignores a

/-- Neither section reads, on other planes than its own, a field that the other one assigns. -/
def Section.Detached (a b : Section) : Prop := a.Level b ∧ b.Level a

instance : DecidableRel Section.Level := fun a b =>
  inferInstanceAs (Decidable (∀ reader ∈ a.body, ∀ read ∈ reader.reads, ∀ writer ∈ b.body,
    read.field = writer.target → read.offset.k = 0))

instance : DecidableRel Section.Detached := fun a b =>
  inferInstanceAs (Decidable (a.Level b ∧ b.Level a))

theorem Section.Ignores.level {a b : Section} (ignores : a.Ignores b) : a.Level b :=
  fun reader inBody read isRead writer inOther same =>
    absurd same (ignores reader inBody read isRead writer inOther)

theorem Section.Independent.detached {a b : Section} (independent : a.Independent b) :
    a.Detached b := ⟨independent.1.level, independent.2.level⟩

theorem Section.Independent.symm {a b : Section} (independent : a.Independent b) :
    b.Independent a := And.symm independent

/-! ### Blocks and programs -/

/-- A block as it is, or a parallel block with its sections, any two of which are apart, in another
order. -/
inductive Block.Reordered (apart : Section → Section → Prop) : Block → Block → Prop
  | same (block : Block) : Block.Reordered apart block block
  | sections {a b : Block} (first : a.policy = .parallel) (second : b.policy = .parallel)
      (perm : a.sections.Perm b.sections) (pairwise : a.sections.Pairwise apart) :
      Block.Reordered apart a b

variable {apart : Section → Section → Prop}

theorem Block.Reordered.imp {apart' : Section → Section → Prop}
    (less : ∀ {a b}, apart a b → apart' a b) {a b : Block} (reordered : a.Reordered apart b) :
    a.Reordered apart' b := by
  cases reordered with
  | same => exact .same _
  | sections first second perm pairwise => exact .sections first second perm (pairwise.imp less)

theorem Block.Reordered.symm (symm : ∀ {a b}, apart a b → apart b a) {a b : Block}
    (reordered : a.Reordered apart b) : b.Reordered apart a := by
  cases reordered with
  | same => exact .same _
  | sections first second perm pairwise =>
    exact .sections second first perm.symm ((perm.pairwise_iff symm).mp pairwise)

end Program

/-- A program with other blocks, which are those of the first one reordered. -/
structure Program.Reordered (apart : Section → Section → Prop) (a b : Program) : Prop where
  same : b = { a with blocks := b.blocks }
  blocks : List.Forall₂ (Block.Reordered apart) a.blocks b.blocks

variable {apart : Program.Section → Program.Section → Prop}

theorem Program.Reordered.imp {apart' : Section → Section → Prop}
    (less : ∀ {a b}, apart a b → apart' a b) {a b : Program} (reordered : a.Reordered apart b) :
    a.Reordered apart' b where
  same := reordered.same
  blocks := reordered.blocks.imp fun _ _ => Block.Reordered.imp less

theorem Program.Reordered.symm (symm : ∀ {a b}, apart a b → apart b a) {a b : Program}
    (reordered : a.Reordered apart b) : b.Reordered apart a where
  same := by rw [reordered.same]
  blocks := reordered.blocks.flip.imp fun _ _ => Block.Reordered.symm symm

end GridStencil
