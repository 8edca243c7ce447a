import GridStencil.Proofs.Demand.Walks
import GridStencil.Proofs.Program.WellFormed

/-!
**Which sequential blocks have no demands.**

After some sweeps the seeds of a sequential block are exactly what walks with at most as many edges
bring from the end of the block (`Walked`): a sweep follows all chains at once, so each sweep adds one
edge. If no cycle that a demand reaches moves it, walks with more edges than the block assigns fields
bring nothing new, so the sweeps have settled by then. If some cycle does, no extents satisfy the
demand equations of the block (`SolvesBlock`), since the hull of what is needed around the cycle would
have to be part of itself moved.

* `carried_edges`: what one sweep finds for carried reads.
* `walked_succ`: what the seeds are after one more sweep.
* `sweepBlock_growing_iff`: a sequential block is rejected exactly if its demand equations have no
  solution, which is exactly if its demands grow along a cycle.
-/

namespace GridStencil

namespace Extent

theorem moved_moved (a : Extent) (o p : Offset) : (a.moved o).moved p = a.moved (o.add p) := by
  simp [moved, Offset.add, Int.add_assoc]

theorem moved_zero (a : Extent) : a.moved .zero = a := by
  simp [moved, Offset.zero]

/-- Within the plane, a bound can be moved back instead. -/
theorem moved_within_iff {a bound : Extent} {o : Offset} :
    (a.moved o).horizontal.Within bound ↔
      a.horizontal.Within (bound.moved ⟨-o.i, -o.j, 0⟩) := by
  constructor
  · rintro ⟨i, j, k⟩
    refine ⟨?_, ?_, ?_⟩ <;> simp only [moved, horizontal] at * <;> omega
  · rintro ⟨i, j, k⟩
    refine ⟨?_, ?_, ?_⟩ <;> simp only [moved, horizontal] at * <;> omega

end Extent

namespace Demand

open Program Sweep

section Equations

variable (carries : Position → Read → Bool) (compute : Position → Option Extent)
  (statements : List (Position × Statement)) (atEnd : Needs)

/-- The extents on which a statement of a block is demanded for its target, where `atEnd` is needed
behind the block. -/
inductive Asked (position : Position) (target : String) : Extent → Prop
  | behind {extent : Extent} (needed : extent ∈ atEnd.get? target) : Asked position target extent
  /-- A statement behind reads the target. -/
  | later {reader : Position} {extent : Extent} {read : Read}
      (live : LiveRead compute statements reader extent read) (same : read.field = target)
      (before : position.Before reader) : Asked position target (extent.moved read.offset)
  /-- A statement of the block, wherever it stands, reads the target on a plane visited before. -/
  | carried {reader : Position} {extent : Extent} {read : Read}
      (live : LiveRead compute statements reader extent read) (same : read.field = target)
      (carried : carries reader read = true) :
      Asked position target (extent.moved read.offset.horizontal)

/-- The demand equations of a block: each statement is computed on the horizontal part of the hull of
all that it is asked for. -/
def SolvesBlock : Prop :=
  ∀ position statement, (position, statement) ∈ statements →
    ∃ needed, IsHull (Asked carries compute statements atEnd position statement.target) needed ∧
      compute position = needed.map Extent.horizontal

/-- Each statement is computed on what is needed behind all of them and what those behind it read. -/
def Computed (behind : String → Extent → Prop) : Prop :=
  ∀ position statement rest, (position, statement) :: rest <:+ statements →
    ∃ needed, compute position = needed.map Extent.horizontal ∧
      IsHull (fun e => behind statement.target e ∨ ReadOn carries compute rest statement.target e)
        needed

/-- What walks with at most some number of edges, and at least one, bring from the end of a block. -/
def Walked (edges : Nat) (target : String) : Extent → Prop := fun e =>
  ∃ source whole path offset, whole ∈ atEnd.get? source ∧ path ≠ [] ∧ path.length ≤ edges ∧
    Walk carries statements source path target offset ∧ e = (whole.moved offset).horizontal

end Equations

section Block

variable {carries : Position → Read → Bool} {compute : Position → Option Extent}
  {statements : List (Position × Statement)} {atEnd seeds : Needs} {source target field : String}
  {behind : String → Extent → Prop} {position : Position} {offset : Offset} {e bound : Extent}
  (sorted : statements.Pairwise fun a b => a.1.Before b.1)

/-! ### Chains and extents -/

theorem Computed.allows (computed : Computed carries compute statements behind) :
    Allows carries compute behind statements := by
  intro position statement rest suffix e asked
  obtain ⟨needed, known, hull⟩ := computed position statement rest suffix
  cases needed with
  | none => exact absurd asked (hull e)
  | some needed => exact ⟨_, known, (hull.2.1 e asked).horizontal⟩

include sorted

/-- **A chain reaches a statement**: it is computed at least on what the chain brings. -/
theorem Chain.allowed (chain : Chain statements source position offset)
    (allows : Allows carries compute behind statements) (there : behind source e) :
    ∃ larger ∈ compute position, (e.moved offset).horizontal.Within larger := by
  induction chain with
  | @start position statement member same =>
    obtain ⟨front, rest, split⟩ := List.append_of_mem member
    rw [Extent.moved_zero]
    exact allows position statement rest ⟨front, split.symm⟩ e (.inl (same ▸ there))
  | @step position reader statement other read offset chain made inside member same before ih =>
    obtain ⟨extent, live, within⟩ := ih
    obtain ⟨front, rest, split⟩ := List.append_of_mem member
    have suffix : (position, statement) :: rest <:+ statements := ⟨front, split.symm⟩
    have later : (reader, other) ∈ rest := (mem_behind_iff sorted suffix).mpr ⟨made, before⟩
    obtain ⟨larger, live', within'⟩ := allows position statement rest suffix _
      (.inr ⟨reader, extent, read, ⟨live, other, later, inside⟩, same, rfl⟩)
    rw [Extent.horizontal_moved_reach] at within'
    rw [← Extent.moved_moved]
    exact ⟨larger, live', ((within.moved read.offset).horizontal).trans within'⟩

/-- **An edge reaches a carried read.** -/
theorem Edge.allowed (edge : Edge carries statements source target offset)
    (allows : Allows carries compute behind statements) (there : behind source e) :
    ∃ larger, CarriedOn carries compute statements target larger ∧
      (e.moved offset).horizontal.Within larger := by
  cases edge with
  | @read reader statement read offset chain member made same carried =>
    obtain ⟨extent, live, within⟩ := chain.allowed sorted allows there
    refine ⟨_, ⟨reader, extent, read, ⟨live, statement, member, made⟩, same, carried, rfl⟩, ?_⟩
    rw [← Extent.moved_moved]
    exact within.moved read.offset.horizontal

/-- **Statements are computed on no more than what chains bring.** The induction is on the statements
from the last one on. A read is bounded by a chain that is one step longer, which moves the bound
back. -/
theorem Computed.least (computed : Computed carries compute statements behind)
    {statement : Statement} (member : (position, statement) ∈ statements) {extent : Extent}
    (live : extent ∈ compute position)
    (covers : ∀ source offset e, Chain statements source position offset → behind source e →
      (e.moved offset).horizontal.Within bound) :
    extent.horizontal.Within bound := by
  suffices all : ∀ part, part <:+ statements → ∀ position statement,
      (position, statement) ∈ part → ∀ extent ∈ compute position, ∀ bound : Extent,
        (∀ source offset e, Chain statements source position offset → behind source e →
          (e.moved offset).horizontal.Within bound) → extent.horizontal.Within bound from
    all statements (List.suffix_refl _) position statement member extent live bound covers
  clear member live covers
  intro part
  induction part with
  | nil => exact fun _ _ _ absurd => nomatch absurd
  | cons first rest ih =>
    intro suffix position statement member extent live bound covers
    have later := ih ((List.suffix_cons _ rest).trans suffix)
    rcases List.mem_cons.mp member with rfl | member
    · obtain ⟨needed, known, hull⟩ := computed position statement rest suffix
      rw [known] at live
      obtain ⟨needed, rfl, rfl⟩ := Option.map_eq_some_iff.mp live
      refine hull.horizontal.2.2 bound ?_
      have here : (position, statement) ∈ statements := suffix.mem List.mem_cons_self
      rintro _ ⟨whole, asked | ⟨reader, extent, read, ⟨live', other, inside, made⟩, same, rfl⟩, rfl⟩
      · have within := covers _ _ _ (.start here rfl) asked
        rwa [Extent.moved_zero] at within
      · obtain ⟨there, before⟩ := (mem_behind_iff sorted suffix).mp inside
        rw [Extent.horizontal_moved_reach]
        refine Extent.moved_within_iff.mpr ?_
        refine later reader other inside extent live' _ fun source offset e chain asked => ?_
        have within := covers _ _ _ (.step chain there made here same before) asked
        rw [← Extent.moved_moved] at within
        exact Extent.moved_within_iff.mp within
    · exact later position statement member extent live bound covers

/-! ### Sweeps and walks -/

/-- **What a sweep finds for carried reads is what edges bring.** -/
theorem carried_edges {start found : Sweep} (exact : Exact carries compute statements start found)
    (fresh : start.carried = .empty) (target : String) :
    IsHull (fun e => ∃ source whole offset, whole ∈ start.needs.get? source ∧
        Edge carries statements source target offset ∧ e = (whole.moved offset).horizontal)
      (found.carried.get? target) := by
  have computed : Computed carries compute statements fun field e => e ∈ start.needs.get? field :=
    exact.computed
  rw [IsHull.covers_iff]
  intro bound
  rw [IsHull.covers_iff.mp (isHull_carried exact fresh target) bound]
  constructor
  · rintro covers _ ⟨source, whole, offset, there, edge, rfl⟩
    obtain ⟨larger, carried, within⟩ := edge.allowed sorted computed.allows there
    exact within.trans (covers larger carried)
  · rintro covers _ ⟨reader, extent, read, ⟨live, statement, member, made⟩, same, carried, rfl⟩
    have flat : extent = extent.horizontal := by
      obtain ⟨front, rest, split⟩ := List.append_of_mem member
      obtain ⟨needed, known, -⟩ := computed reader statement rest ⟨front, split.symm⟩
      rw [known] at live
      obtain ⟨needed, -, rfl⟩ := Option.map_eq_some_iff.mp live
      rfl
    rw [flat]
    show (extent.moved read.offset.horizontal).horizontal.Within bound
    refine Extent.moved_within_iff.mpr ?_
    refine computed.least sorted member live fun source offset e chain there => ?_
    have within := covers _
      ⟨source, e, _, there, .read chain member made same carried, rfl⟩
    rw [← Extent.moved_moved] at within
    exact Extent.moved_within_iff.mp within

omit sorted in
/-- What is among some extents is needed by their hull. -/
theorem has_of_isHull {extents : Extent → Prop} {needs : Needs}
    (hull : IsHull extents (needs.get? field)) (there : extents e) : needs.Has field e := by
  cases known : needs.get? field with
  | none =>
    rw [known] at hull
    exact absurd there (hull e)
  | some whole =>
    rw [known] at hull
    exact ⟨whole, known, hull.2.1 e there⟩

/-- **One more sweep follows one more edge.** -/
theorem walked_succ {edges : Nat} {found : Sweep}
    (seeded : ∀ target, IsHull (Walked carries statements atEnd edges target) (seeds.get? target))
    (exact : Exact carries compute statements (.start (atEnd.join seeds)) found) (target : String) :
    IsHull (Walked carries statements atEnd (edges + 1) target)
      ((seeds.join found.carried).get? target) := by
  rw [IsHull.covers_iff]
  intro bound
  refine (IsHull.covers_iff.mp (Needs.isHull_join seeds found.carried target) bound).trans ?_
  rw [Extent.covers_or, IsHull.covers_iff.mp (seeded target) bound,
    IsHull.covers_iff.mp (carried_edges sorted exact rfl target) bound]
  constructor
  · rintro ⟨shorter, further⟩ _ ⟨source, whole, path, offset, there, moves, short, walk, rfl⟩
    obtain ⟨front, field, a, b, rfl, before, edge, rfl⟩ := walk.unsnoc moves
    rw [List.length_append, List.length_singleton] at short
    have brought : ∃ larger ∈ (atEnd.join seeds).get? field,
        (whole.moved a).horizontal.Within larger.horizontal := by
      obtain ⟨ends, more⟩ := Needs.covered_join atEnd seeds
      cases before with
      | nil =>
        obtain ⟨larger, known, within⟩ := ends source whole (Needs.has_of_get? there)
        rw [Extent.moved_zero]
        exact ⟨larger, known, within.horizontal⟩
      | @cons _ next _ front first rest edge' walk' =>
        obtain ⟨larger, known, within⟩ := more field _ (has_of_isHull (seeded field)
          ⟨source, whole, next :: front, _, there, List.cons_ne_nil _ _, Nat.le_of_succ_le_succ short,
            .cons edge' walk', rfl⟩)
        exact ⟨larger, known, within.horizontal⟩
    obtain ⟨larger, known, within⟩ := brought
    have covered := further _ ⟨field, larger, b, known, edge, rfl⟩
    rw [← Extent.moved_moved]
    exact ((within.moved b).horizontal).trans covered
  · intro covers
    refine ⟨?_, ?_⟩
    · rintro e ⟨source, whole, path, offset, there, moves, short, walk, rfl⟩
      exact covers _ ⟨source, whole, path, offset, there, moves, Nat.le_succ_of_le short, walk, rfl⟩
    · rintro _ ⟨source, whole, offset, there, edge, rfl⟩
      refine Extent.moved_within_iff.mpr ?_
      refine ((Needs.isHull_join atEnd seeds source).covers_planar_iff _).mpr ?_ _ ⟨whole, there, rfl⟩
      rintro _ ⟨e, there | there, rfl⟩
      · refine Extent.moved_within_iff.mp (covers _ ?_)
        exact ⟨source, e, [target], offset, there, List.cons_ne_nil _ _, Nat.le_add_left _ _,
          .single edge, rfl⟩
      · refine ((seeded source).covers_planar_iff _).mpr ?_ _ ⟨e, there, rfl⟩
        rintro _ ⟨_, ⟨first, whole, path, start, there, moves, short, walk, rfl⟩, rfl⟩
        have longer := covers _ ⟨first, whole, path ++ [target], start.add offset, there,
          List.append_ne_nil_of_left_ne_nil moves _, by simpa using short,
          walk.append (.single edge), rfl⟩
        rw [← Extent.moved_moved] at longer
        exact Extent.moved_within_iff.mp longer

/-! ### Solutions -/

/-- What a block is asked for at its end, and by carried reads wherever they stand. -/
theorem SolvesBlock.allows (solves : SolvesBlock carries compute statements atEnd) :
    Allows carries compute (fun field e => e ∈ atEnd.get? field ∨
      CarriedOn carries compute statements field e) statements := by
  intro position statement rest suffix e asked
  obtain ⟨needed, hull, known⟩ := solves position statement (suffix.mem List.mem_cons_self)
  have demanded : ∃ whole, Asked carries compute statements atEnd position statement.target whole ∧
      e.horizontal = whole.horizontal := by
    rcases asked with (needed | ⟨reader, extent, read, live, same, carried, rfl⟩) |
      ⟨reader, extent, read, ⟨live, other, inside, made⟩, same, rfl⟩
    · exact ⟨e, .behind needed, rfl⟩
    · exact ⟨_, .carried live same carried, rfl⟩
    · obtain ⟨member, before⟩ := (mem_behind_iff sorted suffix).mp inside
      exact ⟨_, .later ⟨live, other, member, made⟩ same before, Extent.horizontal_moved_reach _ _ _⟩
  obtain ⟨whole, demanded, flat⟩ := demanded
  cases needed with
  | none => exact absurd demanded (hull whole)
  | some needed => exact ⟨_, known, flat ▸ (hull.2.1 whole demanded).horizontal⟩

/-- **A settled block solves its demand equations.** -/
theorem Computed.solves (computed : Computed carries compute statements fun field e =>
    e ∈ atEnd.get? field ∨ CarriedOn carries compute statements field e) :
    SolvesBlock carries compute statements atEnd := by
  intro position statement member
  obtain ⟨front, rest, split⟩ := List.append_of_mem member
  have suffix : (position, statement) :: rest <:+ statements := ⟨front, split.symm⟩
  obtain ⟨needed, known, hull⟩ := computed position statement rest suffix
  obtain ⟨needed', hull'⟩ : ∃ needed',
      IsHull (Asked carries compute statements atEnd position statement.target) needed' := by
    refine exists_hull_of_reads compute statements (atEnd.get? statement.target).toList
      fun e asked => ?_
    cases asked with
    | behind needed => exact .inl (Option.mem_toList.mpr needed)
    | later live => exact .inr ⟨_, _, _, live, .inl rfl⟩
    | carried live => exact .inr ⟨_, _, _, live, .inr rfl⟩
  refine ⟨needed', hull', known.trans ((hull.horizontal.congr fun e => ?_).unique hull'.horizontal)⟩
  constructor
  · rintro ⟨whole, (needed | ⟨reader, extent, read, live, same, carried, rfl⟩) |
      ⟨reader, extent, read, ⟨live, other, inside, made⟩, same, rfl⟩, rfl⟩
    · exact ⟨_, .behind needed, rfl⟩
    · exact ⟨_, .carried live same carried, rfl⟩
    · obtain ⟨there, before⟩ := (mem_behind_iff sorted suffix).mp inside
      exact ⟨_, .later ⟨live, other, there, made⟩ same before, Extent.horizontal_moved_reach _ _ _⟩
  · rintro ⟨whole, asked, rfl⟩
    cases asked with
    | behind needed => exact ⟨_, .inl (.inl needed), rfl⟩
    | @carried reader extent read live same carried =>
      exact ⟨_, .inl (.inr ⟨reader, extent, read, live, same, carried, rfl⟩), rfl⟩
    | @later reader extent read live same before =>
      obtain ⟨live, other, there, made⟩ := live
      have inside := (mem_behind_iff sorted suffix).mpr ⟨there, before⟩
      exact ⟨_, .inr ⟨reader, extent, read, ⟨live, other, inside, made⟩, same, rfl⟩,
        (Extent.horizontal_moved_reach _ _ _).symm⟩

/-- A walk brings what is demanded at its start to its end. -/
theorem Walk.allowed {path : List String}
    (walk : Walk carries statements source path target offset)
    (allows : Allows carries compute (fun field e => e ∈ atEnd.get? field ∨
      CarriedOn carries compute statements field e) statements)
    (there : e ∈ atEnd.get? source ∨ CarriedOn carries compute statements source e) :
    ∃ larger, (larger ∈ atEnd.get? target ∨ CarriedOn carries compute statements target larger) ∧
      (e.moved offset).horizontal.Within larger.horizontal := by
  induction walk generalizing e with
  | nil field =>
    rw [Extent.moved_zero]
    exact ⟨e, there, .refl _⟩
  | cons edge walk ih =>
    obtain ⟨middle, carried, within⟩ := edge.allowed sorted allows there
    obtain ⟨larger, there', within'⟩ := ih (.inr carried)
    rw [← Extent.moved_moved]
    exact ⟨larger, there', ((within.moved _).horizontal).trans within'⟩

/-- **Demands that grow have no solution.** The hull of all that is demanded of a field on the cycle
would have to be part of itself moved, on both sides. -/
theorem SolvesBlock.not_growing (solves : SolvesBlock carries compute statements atEnd) :
    ¬ Growing carries statements atEnd := by
  rintro ⟨source, path, field, offset, cycle, drift, ⟨e, live⟩, walk, loop, moved⟩
  have allows := solves.allows sorted
  obtain ⟨first, reached, -⟩ := walk.allowed sorted allows (.inl live)
  obtain ⟨known, hull⟩ : ∃ known, IsHull (fun e => e ∈ atEnd.get? field ∨
      CarriedOn carries compute statements field e) known := by
    refine exists_hull_of_reads compute statements (atEnd.get? field).toList fun e there => ?_
    rcases there with needed | ⟨reader, extent, read, live, -, -, rfl⟩
    · exact .inl (Option.mem_toList.mpr needed)
    · exact .inr ⟨_, _, _, live, .inr rfl⟩
  cases known with
  | none => exact hull first reached
  | some whole =>
    have around : whole.horizontal.Within (whole.horizontal.moved ⟨-drift.i, -drift.j, 0⟩) := by
      refine hull.horizontal.2.2 _ ?_
      rintro _ ⟨e, there, rfl⟩
      obtain ⟨larger, there', within⟩ := loop.allowed sorted allows there
      exact Extent.moved_within_iff.mp (within.trans (hull.2.1 larger there').horizontal)
    have level := loop.level
    obtain ⟨i, j, -⟩ := around
    simp only [Extent.moved, Extent.horizontal] at i j
    refine moved ?_
    obtain ⟨di, dj, dk⟩ := drift
    simp only [Offset.zero, Offset.mk.injEq] at *
    omega

/-! ### Demands that settle -/

omit sorted in
/-- Without a growing cycle, walks with more edges than the block assigns fields bring nothing new. -/
theorem walked_bounded {fields : List String}
    (ends : ∀ source target offset, Edge carries statements source target offset → target ∈ fields)
    (bounded : ¬ Growing carries statements atEnd) {edges : Nat} (enough : fields.length ≤ edges)
    (e : Extent) : Walked carries statements atEnd (edges + 1) target e ↔
      Walked carries statements atEnd edges target e := by
  constructor
  · rintro ⟨source, whole, path, offset, there, moves, -, walk, rfl⟩
    obtain ⟨short, moves', small, walk'⟩ := shortened ends bounded ⟨whole, there⟩ walk moves
    exact ⟨source, whole, short, offset, there, moves', Nat.le_trans small enough, walk', rfl⟩
  · rintro ⟨source, whole, path, offset, there, moves, short, walk, rfl⟩
    exact ⟨source, whole, path, offset, there, moves, Nat.le_succ_of_le short, walk, rfl⟩

omit sorted in
theorem walked_zero (target : String) :
    IsHull (Walked carries statements atEnd 0 target) ((.empty : Needs).get? target) := by
  rintro e ⟨source, whole, path, offset, -, moves, short, -⟩
  exact moves (List.length_eq_zero_iff.mp (Nat.le_zero.mp short))

end Block

section Sweeps

variable {writes : List String} {policy : Policy}

theorem moved_eq_error {extent : Extent} {field : String} {offset : Offset} {cause : Cause}
    (failed : moved extent field offset = .error cause) : cause = .readTooFar field offset := by
  unfold moved at failed
  split at failed
  · cases failed
  · exact (Except.error.inj failed).symm

theorem reads_eq_error {extent : Extent} {reads : List Read} {sweep : Sweep} {cause : Cause}
    (failed : reads.foldlM (Sweep.read writes policy extent) sweep = .error cause) :
    ∃ field offset, cause = .readTooFar field offset := by
  induction reads generalizing sweep with
  | nil => cases failed
  | cons read rest ih =>
    rw [List.foldlM_cons] at failed
    rcases Steps.bind_eq_error.mp failed with here | ⟨middle, -, later⟩
    · unfold Sweep.read at here
      split at here
      all_goals
        rcases Steps.bind_eq_error.mp here with shifting | ⟨_, -, absurd⟩
        · exact ⟨_, _, moved_eq_error shifting⟩
        · cases absurd
    · exact ih later

/-- A sweep fails at a read that leaves the 64-bit range, and nowhere else. -/
theorem statements_eq_error {start : Sweep} {statements : List (Position × Statement)}
    {fault : Fault} (failed : start.statements writes policy statements = .error fault) :
    ∃ span field offset, fault = ⟨span, .readTooFar field offset⟩ := by
  induction statements with
  | nil => cases failed
  | cons first rest ih =>
    obtain ⟨position, statement⟩ := first
    rcases Steps.bind_eq_error.mp failed with behind | ⟨behind, -, here⟩
    · exact ih behind
    · unfold Sweep.statement at here
      split at here
      · cases here
      · obtain ⟨cause, reading, same⟩ := Steps.mapError_eq_error.mp here
        obtain ⟨field, offset, rfl⟩ := reads_eq_error reading
        exact ⟨statement.span, field, offset, same.symm⟩

end Sweeps

section Settle

variable {carries : Position → Read → Bool} {block : Block} {index edges further : Nat}
  {statements : List (Position × Statement)} {atEnd seeds : Needs} {fault : Fault}

/-- **A block in which nothing grows settles in time.** While sweeps find something new, there are
fewer of them than fields that the block assigns. -/
theorem settle_bounded (distinct : (statements.map Prod.fst).Nodup)
    (sorted : statements.Pairwise fun a b => a.1.Before b.1)
    (same : ∀ position ∈ statements.map Prod.fst, ∀ read : Read,
      carries position read = read.isCarried block.writes block.policy)
    (bounded : ¬ Growing carries statements atEnd)
    (seeded : ∀ target, IsHull (Walked carries statements atEnd edges target) (seeds.get? target))
    (enough : block.writes.length ≤ edges + further)
    (failed : settle block index statements atEnd further seeds = .error fault) :
    ∃ span field offset, fault = ⟨span, .readTooFar field offset⟩ := by
  have ends : ∀ source target offset, Edge carries statements source target offset →
      target ∈ block.writes := by
    rintro source target _ ⟨chain, member, made, rfl, carried⟩
    rw [same _ (List.mem_map.mpr ⟨_, member, rfl⟩)] at carried
    exact List.contains_iff_mem.mp (Bool.and_eq_true_iff.mp carried).1
  -- from the seeds of as many edges as there are fields, a sweep finds nothing new
  have settles : ∀ {edges : Nat} {seeds : Needs} {compute : Position → Option Extent} {found : Sweep},
      (∀ target, IsHull (Walked carries statements atEnd edges target) (seeds.get? target)) →
      Exact carries compute statements (.start (atEnd.join seeds)) found →
      block.writes.length ≤ edges → seeds.growth found.carried = [] := by
    intro edges seeds compute found seeded exact all
    refine List.filter_eq_nil_iff.mpr fun field _ => ?_
    have hull := (walked_succ sorted seeded exact field).congr (walked_bounded ends bounded all)
    rw [hull.unique (seeded field)]
    simp
  induction further generalizing edges seeds with
  | zero =>
    unfold settle at failed
    rcases Steps.bind_eq_error.mp failed with swept | ⟨found, swept, verdict⟩
    · exact statements_eq_error swept
    · obtain ⟨live, -, -, exact⟩ := statements_exact distinct same swept
      dsimp only at verdict
      rw [settles seeded (exact (live.lookup ·) fun _ _ => rfl) enough] at verdict
      cases verdict
  | succ further ih =>
    unfold settle at failed
    rcases Steps.bind_eq_error.mp failed with swept | ⟨found, swept, verdict⟩
    · exact statements_eq_error swept
    · obtain ⟨live, -, -, exact⟩ := statements_exact distinct same swept
      dsimp only at verdict
      split at verdict
      · cases verdict
      · have seeded' := walked_succ sorted seeded (exact (live.lookup ·) fun _ _ => rfl)
        exact ih seeded' (by omega) verdict

/-- Why the sweeps over a block fail. -/
theorem settle_eq_error (failed : settle block index statements atEnd further seeds = .error fault) :
    (∃ span field offset, fault = ⟨span, .readTooFar field offset⟩) ∨
      ∃ grown, fault = ⟨block.span, .growingRegion grown block.policy index⟩ := by
  induction further generalizing seeds with
  | zero =>
    unfold settle at failed
    rcases Steps.bind_eq_error.mp failed with swept | ⟨found, swept, verdict⟩
    · exact .inl (statements_eq_error swept)
    · dsimp only at verdict
      split at verdict
      · cases verdict
      · exact .inr ⟨_, (Except.error.inj verdict).symm⟩
  | succ further ih =>
    unfold settle at failed
    rcases Steps.bind_eq_error.mp failed with swept | ⟨found, swept, verdict⟩
    · exact .inl (statements_eq_error swept)
    · dsimp only at verdict
      split at verdict
      · cases verdict
      · exact ih verdict

/-- **More sweeps than are needed change nothing.** -/
theorem settle_more {more : Nat} (le : further ≤ more)
    (enough : ∀ grown, settle block index statements atEnd further seeds ≠
      .error ⟨block.span, .growingRegion grown block.policy index⟩) :
    settle block index statements atEnd more seeds =
      settle block index statements atEnd further seeds := by
  induction further generalizing more seeds with
  | zero =>
    unfold settle at enough ⊢
    cases swept : Sweep.statements block.writes block.policy (.start (atEnd.join seeds)) statements with
    | error fault => rfl
    | ok found =>
      rw [swept] at enough
      have settled : (seeds.growth found.carried).isEmpty = true := by
        by_contra growing
        refine enough (seeds.growth found.carried) ?_
        show (if _ then _ else _ : Except Fault Sweep) = _
        exact if_neg growing
      show (if _ then _ else _ : Except Fault Sweep) = if _ then _ else _
      rw [if_pos settled, if_pos settled]
  | succ further ih =>
    obtain ⟨more, rfl⟩ := Nat.exists_eq_add_of_le' (Nat.le_trans (Nat.le_add_left 1 further) le)
    unfold settle at enough ⊢
    cases swept : Sweep.statements block.writes block.policy (.start (atEnd.join seeds)) statements with
    | error fault => rfl
    | ok found =>
      rw [swept] at enough
      show (if _ then _ else _ : Except Fault Sweep) = if _ then _ else _
      by_cases settled : (seeds.growth found.carried).isEmpty = true
      · rw [if_pos settled, if_pos settled]
      · rw [if_neg settled, if_neg settled]
        refine ih (Nat.le_of_succ_le_succ le) fun grown failed => enough grown ?_
        show (if _ then _ else _ : Except Fault Sweep) = _
        rw [if_neg settled]
        exact failed

end Settle

/-! ### Blocks -/

/-- Every field that a block assigns is listed once. -/
theorem nodup_writes (block : Block) : block.writes.Nodup := by
  have distinct : ∀ names : List String, names.eraseDups.Nodup := by
    intro names
    induction length : names.length using Nat.strongRecOn generalizing names with
    | ind n ih =>
      cases names with
      | nil => exact List.nodup_nil
      | cons first rest =>
        rw [List.eraseDups_cons, List.nodup_cons]
        refine ⟨fun again => ?_, ih _ ?_ _ rfl⟩
        · simpa using (List.mem_filter.mp (List.mem_eraseDups.mp again)).2
        · rw [← length]
          exact Nat.lt_succ_of_le (List.length_filter_le _ _)
  exact distinct _

/-- A well-formed program has all fields that its blocks assign. -/
theorem length_writes_le {program : Program} (wellFormed : program.WellFormed) {block : Block}
    (member : block ∈ program.blocks) : block.writes.length ≤ program.fields.length := by
  have known : block.writes ⊆ program.fields.map Field.name := by
    intro name written
    obtain ⟨statement, there, rfl⟩ := List.mem_map.mp (List.mem_eraseDups.mp written)
    obtain ⟨part, inBlock, inPart⟩ := List.mem_flatMap.mp there
    obtain ⟨field, inside, same, -⟩ := wellFormed.targets block member part inBlock statement inPart
    exact List.mem_map.mpr ⟨field, inside, same⟩
  have length := ((nodup_writes block).subperm known).length_le
  rwa [List.length_map] at length

/-- **A sequential block is rejected exactly if its demands grow.** Unless some read leaves the 64-bit
range, the error for a growing region is given exactly if the demand equations of the block have no
solution, and exactly if a demand reaches a cycle that moves it. In every other case the sweeps over
the block settle, at the latest one sweep after as many as there are fields that the block assigns. -/
theorem sweepBlock_growing_iff {program : Program} (wellFormed : program.WellFormed) {block : Block}
    {b : Nat} (member : (block, b) ∈ program.blocks.zipIdx)
    (sequential : block.policy.isSequential = true) (atEnd : Needs)
    (inRange : ∀ span field offset,
      sweepBlock program block b atEnd ≠ .error ⟨span, .readTooFar field offset⟩) :
    ((∃ grown, sweepBlock program block b atEnd =
        .error ⟨block.span, .growingRegion grown block.policy b⟩) ↔
      ¬ ∃ compute, SolvesBlock program.carries compute (blockStatements block b) atEnd) ∧
    ((∃ grown, sweepBlock program block b atEnd =
        .error ⟨block.span, .growingRegion grown block.policy b⟩) ↔
      Growing program.carries (blockStatements block b) atEnd) ∧
    (¬ Growing program.carries (blockStatements block b) atEnd →
      block.writes.length ≤ program.fields.length ∧
      ∃ sweep, sweepBlock program block b atEnd = .ok sweep ∧
        settle block b (blockStatements block b) atEnd block.writes.length .empty = .ok sweep ∧
        Settled program.carries (sweep.live.lookup ·) (blockStatements block b) atEnd sweep) := by
  have place := filter_statements member
  have distinct := nodup_blockStatements block b
  have sorted : (blockStatements block b).Pairwise fun p q => p.1.Before q.1 :=
    place ▸ (pairwise_statements program).filter _
  have same : ∀ position ∈ (blockStatements block b).map Prod.fst, ∀ read : Read,
      program.carries position read = read.isCarried block.writes block.policy := by
    intro position inside
    obtain ⟨⟨position, statement⟩, there, rfl⟩ := List.mem_map.mp inside
    exact carries_of_mem member (mem_blockStatements.mp there).1
  have fields := length_writes_le wellFormed (List.fst_mem_of_mem_zipIdx member)
  have swept : sweepBlock program block b atEnd =
      settle block b (blockStatements block b) atEnd (program.fields.length + 1) .empty := by
    unfold sweepBlock
    rw [place]
    exact if_pos sequential
  have settled : ∀ sweep, sweepBlock program block b atEnd = .ok sweep →
      Settled program.carries (sweep.live.lookup ·) (blockStatements block b) atEnd sweep :=
    fun sweep done => sweepBlock_settled member done _ fun _ _ => rfl
  have solved : ∀ sweep, sweepBlock program block b atEnd = .ok sweep →
      SolvesBlock program.carries (sweep.live.lookup ·) (blockStatements block b) atEnd :=
    fun sweep done => Computed.solves sorted (settled sweep done).computed
  have accepted : ¬ Growing program.carries (blockStatements block b) atEnd →
      ∃ sweep, settle block b (blockStatements block b) atEnd block.writes.length .empty =
        .ok sweep ∧ sweepBlock program block b atEnd = .ok sweep := by
    intro bounded
    have inTime : ∀ fault, settle block b (blockStatements block b) atEnd block.writes.length .empty =
        .error fault → ∃ span field offset, fault = ⟨span, .readTooFar field offset⟩ :=
      fun fault => settle_bounded distinct sorted same bounded walked_zero (Nat.le_add_left _ 0)
    have more : sweepBlock program block b atEnd =
        settle block b (blockStatements block b) atEnd block.writes.length .empty := by
      rw [swept]
      refine settle_more (Nat.le_succ_of_le fields) fun grown failed => ?_
      obtain ⟨span, field, offset, absurd⟩ := inTime _ failed
      cases absurd
    cases done : settle block b (blockStatements block b) atEnd block.writes.length .empty with
    | ok sweep => exact ⟨sweep, rfl, more.trans done⟩
    | error fault =>
      obtain ⟨span, field, offset, rfl⟩ := inTime fault done
      exact absurd (more.trans done) (inRange span field offset)
  have rejected : Growing program.carries (blockStatements block b) atEnd →
      ∃ grown, sweepBlock program block b atEnd =
        .error ⟨block.span, .growingRegion grown block.policy b⟩ := by
    intro growing
    cases done : sweepBlock program block b atEnd with
    | ok sweep => exact absurd growing ((solved sweep done).not_growing sorted)
    | error fault =>
      rcases settle_eq_error (swept.symm.trans done) with ⟨span, field, offset, rfl⟩ | ⟨grown, rfl⟩
      · exact absurd done (inRange span field offset)
      · exact ⟨grown, rfl⟩
  refine ⟨⟨?_, fun unsolved => ?_⟩, ⟨?_, rejected⟩, fun bounded => ⟨fields, ?_⟩⟩
  · rintro ⟨grown, failed⟩ ⟨compute, solves⟩
    obtain ⟨sweep, -, done⟩ := accepted (solves.not_growing sorted)
    cases failed.symm.trans done
  · by_contra absurd
    obtain ⟨sweep, -, done⟩ := accepted fun growing => absurd (rejected growing)
    exact unsolved ⟨_, solved sweep done⟩
  · rintro ⟨grown, failed⟩
    by_contra bounded
    obtain ⟨sweep, -, done⟩ := accepted bounded
    cases failed.symm.trans done
  · obtain ⟨sweep, inTime, done⟩ := accepted bounded
    exact ⟨sweep, done, inTime, settled sweep done⟩

/-- The only block of `swapping`: each of two fields is read where the other one is assigned, on the
plane before and one point to the right. -/
def swap : Block :=
  ⟨.forward, [⟨.full, [
    ⟨"b", .field "t" ⟨1, 0, -1⟩, ⟨0, 0⟩⟩,
    ⟨"t", .binary .add (.field "b" ⟨1, 0, -1⟩) (.field "a" ⟨0, 0, 0⟩), ⟨0, 0⟩⟩], ⟨0, 0⟩⟩], ⟨0, 0⟩⟩

/-- A program whose demands grow with every plane. -/
def swapping : Program where
  source := ⟨"", ""⟩
  name := "swapping"
  fields := [⟨"a", .f64, .ijk, .input⟩, ⟨"b", .f64, .ijk, .output⟩, ⟨"t", .f64, .ijk, .temporary⟩]
  scalars := []
  blocks := [swap]

/-- The fields of which a step finds that ever more is needed. -/
def grown? {α : Type} : Except Fault α → Option (List String)
  | .error ⟨_, .growingRegion grown _ _⟩ => some grown
  | _ => none

theorem grown?_eq_some {α : Type} {step : Except Fault α} {grown : List String}
    (found : grown? step = some grown) :
    ∃ span policy index, step = .error ⟨span, .growingRegion grown policy index⟩ := by
  unfold grown? at found
  split at found
  · cases found
    exact ⟨_, _, _, rfl⟩
  · cases found

/-- What `swapping` asks of its block has no solution, and the block is rejected. -/
theorem sweepBlock_growing_iff_swapping :
    (∃ grown, sweepBlock swapping swap 0 (Demands.start swapping).needs =
        .error ⟨swap.span, .growingRegion grown swap.policy 0⟩) ∧
      Growing swapping.carries (blockStatements swap 0) (Demands.start swapping).needs ∧
      ¬ ∃ compute,
        SolvesBlock swapping.carries compute (blockStatements swap 0) (Demands.start swapping).needs := by
  have wellFormed : swapping.WellFormed := by
    refine ⟨by decide, by decide, by decide, fun block member part inside => ?_, ?_⟩
    · rw [List.mem_singleton.mp member] at inside
      rw [List.mem_singleton.mp inside]
      exact ⟨Int.le_refl 0, Int.le_refl 0⟩
    · unfold Assignable
      decide
  have found : grown? (sweepBlock swapping swap 0 (Demands.start swapping).needs) =
      some ["b", "t"] := by decide +kernel
  obtain ⟨span, policy, index, failed⟩ := grown?_eq_some found
  obtain ⟨unsolved, grows, settles⟩ := sweepBlock_growing_iff wellFormed
    (List.mem_cons_self : (swap, 0) ∈ swapping.blocks.zipIdx) rfl (Demands.start swapping).needs
    fun _ _ _ absurd => nomatch failed.symm.trans absurd
  have growing : Growing swapping.carries (blockStatements swap 0) (Demands.start swapping).needs := by
    by_contra bounded
    obtain ⟨-, sweep, done, -⟩ := settles bounded
    cases failed.symm.trans done
  exact ⟨grows.mpr growing, growing, unsolved.mp (grows.mpr growing)⟩

end Demand

end GridStencil
