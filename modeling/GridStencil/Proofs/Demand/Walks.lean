import GridStencil.Proofs.Demand.Least
import Mathlib.Data.List.Nodup
import Mathlib.Data.List.Perm.Subperm

/-!
**How demands travel through a block.**

A field that is needed behind a block asks for the statements that assign it, and a statement for
those listed before it whose targets it reads (`Chain`). Where a chain ends at a carried read, the
demand reaches the field that is read there, wherever that is assigned (`Edge`), and goes on from
there (`Walk`). It moves by the horizontal offsets of all reads on its way.

* `shortened`: if no cycle that a demand reaches moves it, a walk with more edges than fields are
  assigned has a shorter one beside it, with the same ends and the same offset.
-/

namespace GridStencil

namespace Offset

theorem zero_add (o : Offset) : Offset.zero.add o = o := by
  simp [add, zero]

theorem add_zero (o : Offset) : o.add .zero = o := by
  simp [add, zero]

theorem add_assoc (a b c : Offset) : (a.add b).add c = a.add (b.add c) := by
  simp [add, Int.add_assoc]

end Offset

namespace Demand

open Program

section Graph

variable (carries : Position → Read → Bool) (statements : List (Position × Statement))

/-- A demand for `source` behind some statements asks for a statement, moved by an offset: the
statement assigns the field, or another one listed behind it that is asked for reads its target. -/
inductive Chain (source : String) : Position → Offset → Prop
  | start {position : Position} {statement : Statement}
      (member : (position, statement) ∈ statements) (same : statement.target = source) :
      Chain source position .zero
  | step {position reader : Position} {statement other : Statement} {read : Read} {offset : Offset}
      (chain : Chain source reader offset) (there : (reader, other) ∈ statements)
      (made : read ∈ other.reads) (member : (position, statement) ∈ statements)
      (same : read.field = statement.target) (before : position.Before reader) :
      Chain source position (offset.add read.offset.horizontal)

/-- A chain from one field ends in a carried read of another one. -/
inductive Edge (source target : String) : Offset → Prop
  | read {reader : Position} {statement : Statement} {read : Read} {offset : Offset}
      (chain : Chain statements source reader offset) (member : (reader, statement) ∈ statements)
      (made : read ∈ statement.reads) (same : read.field = target)
      (carried : carries reader read = true) :
      Edge source target (offset.add read.offset.horizontal)

/-- Edges one behind another, with the fields at which they end. -/
inductive Walk : String → List String → String → Offset → Prop
  | nil (field : String) : Walk field [] field .zero
  | cons {source next target : String} {path : List String} {first rest : Offset}
      (edge : Edge carries statements source next first) (walk : Walk next path target rest) :
      Walk source (next :: path) target (first.add rest)

/-- A field that is needed behind the statements reaches a cycle that moves demands. -/
def Growing (atEnd : Needs) : Prop :=
  ∃ source path field offset cycle drift, (∃ e, e ∈ atEnd.get? source) ∧
    Walk carries statements source path field offset ∧
      Walk carries statements field cycle field drift ∧ drift ≠ .zero

end Graph

variable {carries : Position → Read → Bool} {statements : List (Position × Statement)}
  {source target field : String} {path more : List String} {a b : Offset}

namespace Walk

theorem append (first : Walk carries statements source path field a)
    (second : Walk carries statements field more target b) :
    Walk carries statements source (path ++ more) target (a.add b) := by
  induction first with
  | nil field =>
    rw [Offset.zero_add]
    exact second
  | cons edge walk ih =>
    rw [Offset.add_assoc]
    exact .cons edge (ih second)

theorem single (edge : Edge carries statements source target a) :
    Walk carries statements source [target] target a := by
  have walk := Walk.cons edge (.nil target)
  rwa [Offset.add_zero] at walk

/-- A walk that goes through a field is one to this field and one from it. -/
theorem split {offset : Offset}
    (walk : Walk carries statements source (path ++ field :: more) target offset) :
    ∃ a b, Walk carries statements source (path ++ [field]) field a ∧
      Walk carries statements field more target b ∧ offset = a.add b := by
  induction path generalizing source offset with
  | nil =>
    cases walk with
    | cons edge rest => exact ⟨_, _, single edge, rest, rfl⟩
  | cons next path ih =>
    cases walk with
    | cons edge rest =>
      obtain ⟨a, b, first, second, rfl⟩ := ih rest
      exact ⟨_, b, .cons edge first, second, (Offset.add_assoc _ _ _).symm⟩

/-- The last edge of a walk. -/
theorem unsnoc {offset : Offset} (walk : Walk carries statements source path target offset)
    (moves : path ≠ []) : ∃ front field a b, path = front ++ [target] ∧
      Walk carries statements source front field a ∧ Edge carries statements field target b ∧
        offset = a.add b := by
  induction walk with
  | nil => exact absurd rfl moves
  | @cons source next target path first rest edge walk ih =>
    cases walk with
    | nil => exact ⟨[], source, .zero, first, rfl, .nil source, edge, by
        rw [Offset.add_zero, Offset.zero_add]⟩
    | cons edge' walk' =>
      obtain ⟨front, field, a, b, same, before, last, moved⟩ := ih (List.cons_ne_nil _ _)
      exact ⟨next :: front, field, _, b, by rw [same, List.cons_append], .cons edge before, last,
        by rw [moved, Offset.add_assoc]⟩

/-- A walk ends where its edges end. -/
theorem subset {fields : List String}
    (ends : ∀ source target offset, Edge carries statements source target offset → target ∈ fields)
    {offset : Offset} (walk : Walk carries statements source path target offset) :
    path ⊆ fields := by
  induction walk with
  | nil => exact List.nil_subset _
  | cons edge walk ih => exact List.cons_subset.mpr ⟨ends _ _ _ edge, ih⟩

end Walk

/-- Demands travel within the plane. -/
theorem Chain.level {position : Position} (chain : Chain statements source position a) : a.k = 0 := by
  induction chain with
  | start => rfl
  | step chain _ _ _ _ _ ih =>
    simp only [Offset.add, Offset.horizontal]
    omega

theorem Walk.level (walk : Walk carries statements source path target a) : a.k = 0 := by
  induction walk with
  | nil => rfl
  | cons edge walk ih =>
    cases edge with
    | read chain =>
      have level := chain.level
      simp only [Offset.add, Offset.horizontal]
      omega

/-- A list with a repetition can be taken apart around it. -/
theorem exists_repetition {α : Type} {items : List α} (repeats : ¬ items.Nodup) :
    ∃ front a between rest, items = front ++ a :: (between ++ a :: rest) := by
  induction items with
  | nil => exact absurd List.nodup_nil repeats
  | cons first items ih =>
    by_cases again : first ∈ items
    · obtain ⟨between, rest, rfl⟩ := List.append_of_mem again
      exact ⟨[], first, between, rest, rfl⟩
    · obtain ⟨front, a, between, rest, rfl⟩ :=
        ih fun distinct => repeats (List.nodup_cons.mpr ⟨again, distinct⟩)
      exact ⟨first :: front, a, between, rest, rfl⟩

/-- **A cycle that moves nothing can be cut out.** A walk with more edges than there are fields to
end at comes to some field twice, and what lies between moves nothing unless demands grow. What
remains still has an edge. -/
theorem shortened {atEnd : Needs} {fields : List String}
    (ends : ∀ source target offset, Edge carries statements source target offset → target ∈ fields)
    (bounded : ¬ Growing carries statements atEnd) (live : ∃ e, e ∈ atEnd.get? source)
    {offset : Offset} (walk : Walk carries statements source path target offset)
    (moves : path ≠ []) :
    ∃ short, short ≠ [] ∧ short.length ≤ fields.length ∧
      Walk carries statements source short target offset := by
  induction length : path.length using Nat.strongRecOn generalizing path offset with
  | ind n ih =>
    by_cases small : path.length ≤ fields.length
    · exact ⟨path, moves, small, walk⟩
    have repeats : ¬ path.Nodup := fun distinct =>
      small (distinct.subperm (walk.subset ends)).length_le
    obtain ⟨front, field, between, rest, rfl⟩ := exists_repetition repeats
    obtain ⟨first, others, before, behind, rfl⟩ := walk.split
    obtain ⟨drift, last, cycle, after, rfl⟩ := behind.split
    have still : drift = .zero := by
      by_contra moved
      exact bounded ⟨source, _, field, first, _, drift, live, before, cycle, moved⟩
    rw [still, Offset.zero_add]
    refine ih _ ?_ (before.append after) ?_ rfl
    · rw [← length]
      simp only [List.length_append, List.length_cons, List.length_nil]
      omega
    · simp
end Demand
end GridStencil
