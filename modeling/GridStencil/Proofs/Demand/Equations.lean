import GridStencil.Proofs.Demand

/-!
**The demand equations of a program.**

What is demanded of a program can be said without any order of analysis. A valuation gives every
statement the extent on which it is computed, if it is live, every field the extent at which it is
accessed, and the vertical offsets of its carried reads. The equations (`Demand.Solves`) tie these
together:

* a statement is demanded on the domain if it assigns an output, on what a live statement behind it
  reads of its target, and on what a carried read anywhere in its own block reads of it, without the
  vertical part of the offset (`Demand.Required`); it is computed on the horizontal part of the hull
  of all this;
* a field is accessed on the domain if it is an output, and where live statements read it
  (`Demand.Accessed`).

Hulls are compared through the extents that bound them: `IsHull.covers_iff`.
-/

namespace GridStencil

/-! ### Hulls -/

/-- The hull of some extents: none if there are none, and else the smallest extent around them. -/
def IsHull (extents : Extent → Prop) : Option Extent → Prop
  | none => ∀ e, ¬ extents e
  | some hull => (∃ e, extents e) ∧ (∀ e, extents e → e.Within hull) ∧
      ∀ bound, (∀ e, extents e → e.Within bound) → hull.Within bound

/-- The least and the greatest of some offsets, if there are any. -/
def IsSpan (offsets : Int → Prop) : Option OffsetRange → Prop
  | none => ∀ k, ¬ offsets k
  | some range => offsets range.lo ∧ offsets range.hi ∧ ∀ k, offsets k → range.lo ≤ k ∧ k ≤ range.hi

namespace Extent

/-- All of some extents are part of one extent. -/
def Covers (bound : Extent) (extents : Extent → Prop) : Prop := ∀ e, extents e → e.Within bound

/-- One extent is there only if a larger one is there as well. -/
def AtMost (a b : Option Extent) : Prop := ∀ e ∈ a, ∃ larger ∈ b, e.Within larger

/-- The horizontal parts of some extents. -/
def Planar (extents : Extent → Prop) : Extent → Prop :=
  fun e => ∃ whole, extents whole ∧ e = whole.horizontal

/-- Within the plane, what bounds `others` bounds `extents`, too. -/
def PlanarAtMost (extents others : Extent → Prop) : Prop :=
  ∀ bound : Extent, bound.Covers (Planar others) → bound.Covers (Planar extents)

/-- No extent is part of all others: the ends of an extent may be in the wrong order. -/
theorem exists_not_within (a : Extent) : ∃ bound : Extent, ¬ a.Within bound := by
  refine ⟨{ a with i := ⟨a.i.lo + 1, a.i.hi⟩ }, fun within => ?_⟩
  have low : a.i.lo + 1 ≤ a.i.lo := within.i.1
  omega

theorem hull_within_iff {a b bound : Extent} :
    (a.hull b).Within bound ↔ a.Within bound ∧ b.Within bound := by
  constructor
  · intro both
    exact ⟨(within_hull_left a b).trans both, (within_hull_right a b).trans both⟩
  · rintro ⟨⟨ai, aj, ak⟩, ⟨bi, bj, bk⟩⟩
    refine ⟨⟨?_, ?_⟩, ⟨?_, ?_⟩, ⟨?_, ?_⟩⟩ <;> simp only [hull, OffsetRange.hull] <;> omega

theorem Within.antisymm {a b : Extent} (below : a.Within b) (above : b.Within a) : a = b := by
  obtain ⟨⟨ail, aih⟩, ⟨ajl, ajh⟩, ⟨akl, akh⟩⟩ := a
  obtain ⟨⟨bil, bih⟩, ⟨bjl, bjh⟩, ⟨bkl, bkh⟩⟩ := b
  obtain ⟨i, j, k⟩ := below
  obtain ⟨i', j', k'⟩ := above
  simp only [Extent.mk.injEq, OffsetRange.mk.injEq] at *
  omega

theorem Within.horizontal {a b : Extent} (within : a.Within b) :
    a.horizontal.Within b.horizontal :=
  ⟨within.i, within.j, ⟨Int.le_refl _, Int.le_refl _⟩⟩

theorem Within.moved {a b : Extent} (within : a.Within b) (o : Offset) :
    (a.moved o).Within (b.moved o) := by
  obtain ⟨i, j, k⟩ := within
  refine ⟨⟨?_, ?_⟩, ⟨?_, ?_⟩, ⟨?_, ?_⟩⟩ <;> simp only [Extent.moved] <;> omega

/-- The vertical part of an offset does not show within the plane. -/
theorem horizontal_moved_reach (a : Extent) (carried : Bool) (o : Offset) :
    (a.moved (Demand.reach carried o)).horizontal = (a.moved o).horizontal := by
  cases carried <;> rfl

/-- An extent covers one that is there exactly if that is part of it. -/
theorem covers_some {bound e : Extent} : bound.Covers (· ∈ some e) ↔ e.Within bound := by
  constructor
  · intro covers
    exact covers e rfl
  · rintro within _ ⟨⟩
    exact within

theorem covers_none (bound : Extent) : bound.Covers (· ∈ (none : Option Extent)) :=
  fun _ absurd => nomatch absurd

/-- The bounds of two sorts of extents are the bounds of both of them. -/
theorem covers_or {bound : Extent} {extents others : Extent → Prop} :
    bound.Covers (fun e => extents e ∨ others e) ↔ bound.Covers extents ∧ bound.Covers others := by
  constructor
  · intro covers
    exact ⟨fun e there => covers e (.inl there), fun e there => covers e (.inr there)⟩
  · rintro ⟨left, right⟩ e (there | there)
    · exact left e there
    · exact right e there

/-- What is there is at most what every bound of it bounds. -/
theorem atMost_iff {a b : Option Extent} :
    AtMost a b ↔ ∀ bound : Extent, bound.Covers (· ∈ b) → bound.Covers (· ∈ a) := by
  constructor
  · intro below bound covers e there
    obtain ⟨larger, member, within⟩ := below e there
    exact within.trans (covers larger member)
  · intro all e there
    cases b with
    | none =>
      obtain ⟨bound, outside⟩ := e.exists_not_within
      exact absurd (all bound bound.covers_none e there) outside
    | some larger => exact ⟨larger, rfl, all larger (covers_some.mpr (.refl larger)) e there⟩

end Extent

namespace IsHull

variable {extents : Extent → Prop} {known : Option Extent}

/-- **A hull has the same bounds as what it is the hull of**, and this makes it the hull. -/
theorem covers_iff :
    IsHull extents known ↔ ∀ bound : Extent, bound.Covers (· ∈ known) ↔ bound.Covers extents := by
  cases known with
  | none =>
    constructor
    · intro none bound
      exact ⟨fun _ e there => absurd there (none e), fun _ => bound.covers_none⟩
    · intro same e there
      obtain ⟨bound, outside⟩ := e.exists_not_within
      exact outside ((same bound).mp bound.covers_none e there)
  | some hull =>
    simp only [Extent.covers_some]
    constructor
    · rintro ⟨-, upper, least⟩ bound
      exact ⟨fun within e there => (upper e there).trans within, least bound⟩
    · intro same
      refine ⟨?_, (same hull).mp (.refl hull), fun bound => (same bound).mpr⟩
      by_contra none
      obtain ⟨bound, outside⟩ := hull.exists_not_within
      exact outside ((same bound).mpr fun e there => absurd ⟨e, there⟩ none)

/-- There is at most one hull. -/
theorem unique {other : Option Extent} (hull : IsHull extents known)
    (also : IsHull extents other) : known = other := by
  cases known with
  | none =>
    cases other with
    | none => rfl
    | some b =>
      obtain ⟨e, there⟩ := also.1
      exact absurd there (hull e)
  | some a =>
    cases other with
    | none =>
      obtain ⟨e, there⟩ := hull.1
      exact absurd there (also e)
    | some b => rw [(hull.2.2 b also.2.1).antisymm (also.2.2 a hull.2.1)]

theorem congr {others : Extent → Prop} (hull : IsHull extents known)
    (same : ∀ e, extents e ↔ others e) : IsHull others known := by
  have equal : extents = others := funext fun e => propext (same e)
  rwa [equal] at hull

/-- What has no extents but those of a list has a hull. -/
theorem exists_of_list (extents : Extent → Prop) (candidates : List Extent)
    (inside : ∀ e, extents e → e ∈ candidates) : ∃ known, IsHull extents known := by
  induction candidates generalizing extents with
  | nil => exact ⟨none, fun e there => nomatch inside e there⟩
  | cons first rest ih =>
    obtain ⟨known, hull⟩ := ih (fun e => extents e ∧ e ∈ rest) fun e both => both.2
    rw [covers_iff] at hull
    by_cases here : extents first
    · refine ⟨some (known.elim first first.hull), covers_iff.mpr fun bound => ?_⟩
      have split : bound.Covers extents ↔
          first.Within bound ∧ bound.Covers fun e => extents e ∧ e ∈ rest := by
        constructor
        · intro covers
          exact ⟨covers first here, fun e both => covers e both.1⟩
        · rintro ⟨within, covers⟩ e there
          rcases List.mem_cons.mp (inside e there) with rfl | later
          · exact within
          · exact covers e ⟨there, later⟩
      rw [split, ← hull bound, Extent.covers_some]
      cases known with
      | none => exact ⟨fun within => ⟨within, bound.covers_none⟩, And.left⟩
      | some others =>
        rw [Extent.covers_some]
        exact Extent.hull_within_iff
    · refine ⟨known, covers_iff.mpr fun bound => (hull bound).trans ⟨?_, ?_⟩⟩
      · intro covers e there
        refine covers e ⟨there, (List.mem_cons.mp (inside e there)).resolve_left ?_⟩
        rintro rfl
        exact here there
      · exact fun covers e both => covers e both.1

/-- **The horizontal part of a hull is the hull of the horizontal parts.** -/
theorem horizontal (hull : IsHull extents known) :
    IsHull (Extent.Planar extents) (known.map Extent.horizontal) := by
  cases known with
  | none =>
    rintro e ⟨whole, there, -⟩
    exact hull whole there
  | some hull' =>
    obtain ⟨⟨some, there⟩, upper, least⟩ := hull
    refine ⟨⟨_, some, there, rfl⟩, ?_, ?_⟩
    · rintro _ ⟨whole, inside, rfl⟩
      exact (upper whole inside).horizontal
    · intro bound covers
      -- the vertical range of the hull itself is wide enough for all of the extents
      have within : hull'.Within ⟨bound.i, bound.j, hull'.k⟩ := by
        refine least _ fun e inside => ?_
        have planar := covers _ ⟨e, inside, rfl⟩
        exact ⟨planar.i, planar.j, (upper e inside).k⟩
      exact ⟨within.i, within.j, (covers _ ⟨some, there, rfl⟩).k⟩

/-- A hull has the same bounds within the plane as what it is the hull of. -/
theorem covers_planar_iff (hull : IsHull extents known) (bound : Extent) :
    bound.Covers (Extent.Planar (· ∈ known)) ↔ bound.Covers (Extent.Planar extents) := by
  refine Iff.trans ?_ (covers_iff.mp hull.horizontal bound)
  constructor
  · intro covers e there
    obtain ⟨whole, member, rfl⟩ := Option.map_eq_some_iff.mp there
    exact covers _ ⟨whole, member, rfl⟩
  · rintro covers _ ⟨whole, member, rfl⟩
    exact covers _ (Option.map_eq_some_iff.mpr ⟨whole, member, rfl⟩)

end IsHull

namespace IsSpan

variable {offsets others : Int → Prop} {known : Option OffsetRange}

theorem congr (span : IsSpan offsets known) (same : ∀ k, offsets k ↔ others k) :
    IsSpan others known := by
  have equal : offsets = others := funext fun k => propext (same k)
  rwa [equal] at span

/-- More offsets between those that are there do not change the span. -/
theorem widen (span : IsSpan offsets known) (more : ∀ k, offsets k → others k)
    (between : ∀ k, others k → (∃ low, offsets low ∧ low ≤ k) ∧ ∃ high, offsets high ∧ k ≤ high) :
    IsSpan others known := by
  cases known with
  | none =>
    intro k there
    obtain ⟨⟨low, inside, -⟩, -⟩ := between k there
    exact span low inside
  | some range =>
    obtain ⟨low, high, all⟩ := span
    refine ⟨more _ low, more _ high, fun k there => ?_⟩
    obtain ⟨⟨a, insideA, below⟩, ⟨b, insideB, above⟩⟩ := between k there
    exact ⟨Int.le_trans (all a insideA).1 below, Int.le_trans above (all b insideB).2⟩

end IsSpan

namespace Program

/-! ### Places and reads -/

/-- Whether a statement is listed before another one. -/
def Position.Before (p q : Position) : Prop :=
  p.block < q.block ∨ p.block = q.block ∧
    (p.part < q.part ∨ p.part = q.part ∧ p.statement < q.statement)

/-- Whether a read is carried in the block in which it stands. -/
def carries (program : Program) (position : Position) (read : Read) : Bool :=
  (program.blocks[position.block]?).any fun block => read.isCarried block.writes block.policy

end Program

namespace Demand

open Program

/-- A statement that is computed on some extent makes a read. -/
def LiveRead (compute : Position → Option Extent) (statements : List (Position × Statement))
    (position : Position) (extent : Extent) (read : Read) : Prop :=
  compute position = some extent ∧
    ∃ statement, (position, statement) ∈ statements ∧ read ∈ statement.reads

/-! ### The equations -/

variable (program : Program) (compute : Position → Option Extent)

/-- The extents on which a statement at a position is demanded for its target. -/
inductive Required (position : Position) (target : String) : Extent → Prop
  /-- An output is demanded on the domain. -/
  | output {field : Program.Field} (member : field ∈ program.outputs) (same : field.name = target) :
      Required position target .zero
  /-- A statement behind reads the target. -/
  | later {reader : Position} {extent : Extent} {read : Read}
      (live : LiveRead compute program.statements reader extent read) (same : read.field = target)
      (behind : position.Before reader) :
      Required position target (extent.moved read.offset)
  /-- A statement of the same block, wherever it stands, reads the target on a plane visited
  before. -/
  | carried {reader : Position} {extent : Extent} {read : Read}
      (live : LiveRead compute program.statements reader extent read) (same : read.field = target)
      (together : reader.block = position.block) (carries : program.carries reader read = true) :
      Required position target (extent.moved read.offset.horizontal)

/-- The extents at which a field is accessed. -/
inductive Accessed (field : String) : Extent → Prop
  | output {output : Program.Field} (member : output ∈ program.outputs)
      (same : output.name = field) : Accessed field .zero
  /-- A carried read counts without the vertical part of its offset. -/
  | read {reader : Position} {extent : Extent} {read : Read}
      (live : LiveRead compute program.statements reader extent read) (same : read.field = field) :
      Accessed field (extent.moved (reach (program.carries reader read) read.offset))

/-- The vertical offsets of the carried reads of a field. -/
inductive Stepped (field : String) : Int → Prop
  | read {reader : Position} {extent : Extent} {read : Read}
      (live : LiveRead compute program.statements reader extent read) (same : read.field = field)
      (carries : program.carries reader read = true) : Stepped field read.offset.k

/-- Extents for the statements and fields of a program, and vertical offsets for its fields. -/
structure Valuation where
  /-- On what a statement is computed, if it is live. -/
  compute : Program.Position → Option Extent
  /-- At what a field is accessed. -/
  extent : String → Option Extent
  /-- The vertical offsets of the carried reads of a field. -/
  carried : String → Option OffsetRange

/-- The extents and offsets of a demand. -/
def valuation (demand : Demand) : Valuation where
  compute := demand.region?
  extent := demand.extent?
  carried field := (demand.field? field).bind FieldDemand.carried

/-- A valuation satisfies the demand equations of a program. -/
structure Solves (program : Program) (a : Valuation) : Prop where
  statements : ∀ position statement, (position, statement) ∈ program.statements →
    ∃ needed, IsHull (Required program a.compute position statement.target) needed ∧
      a.compute position = needed.map Extent.horizontal
  fields : ∀ field ∈ program.fields,
    IsHull (Accessed program a.compute field.name) (a.extent field.name)
  carried : ∀ field ∈ program.fields,
    IsSpan (Stepped program a.compute field.name) (a.carried field.name)

/-- A valuation asks for no more than another one: what it has, the other one has at least as
large. -/
structure Below (program : Program) (a b : Valuation) : Prop where
  statements : ∀ position statement, (position, statement) ∈ program.statements →
    Extent.AtMost (a.compute position) (b.compute position)
  fields : ∀ field ∈ program.fields, Extent.AtMost (a.extent field.name) (b.extent field.name)
  carried : ∀ field ∈ program.fields,
    ∀ r ∈ a.carried field.name, ∃ wider ∈ b.carried field.name, wider.lo ≤ r.lo ∧ r.hi ≤ wider.hi

end Demand

end GridStencil
