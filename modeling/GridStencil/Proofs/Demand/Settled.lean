import GridStencil.Proofs.Demand.Exact

/-!
**A swept block is settled.**

In a sequential block the sweep starts with the demands of the carried reads found before. These
seeds only grow, each sweep finds the ones it started with again, and any other way to meet the
demands of the block meets them, too (`Grounded`). Once a sweep finds nothing beyond its seeds, they
are exactly what the carried reads of the block demand, and nothing is left from an earlier sweep
(`Settled`).

* `Sweep.Exact.below`: an exact sweep computes no more than anything that allows for what is needed
  behind it.
* `sweepBlock_settled`: every swept block is settled.
-/

namespace GridStencil.Demand

open Program

namespace Sweep

/-! ### Least sweeps -/

/-- What a statement and the reads behind it are asked for is allowed for by `other`. -/
def Allows (carries : Position → Read → Bool) (other : Position → Option Extent)
    (behind : String → Extent → Prop) (statements : List (Position × Statement)) : Prop :=
  ∀ position statement rest, (position, statement) :: rest <:+ statements →
    ∀ e, behind statement.target e ∨ ReadOn carries other rest statement.target e →
      ∃ larger ∈ other position, e.horizontal.Within larger

section Least

variable {carries : Position → Read → Bool} {compute other : Position → Option Extent}
  {statements : List (Position × Statement)} {behind : String → Extent → Prop}

theorem readOn_atMost {field : String} {e : Extent}
    (below : ∀ position ∈ statements.map Prod.fst,
      Extent.AtMost (compute position) (other position))
    (there : ReadOn carries compute statements field e) :
    ∃ larger, ReadOn carries other statements field larger ∧ e.Within larger := by
  obtain ⟨reader, extent, read, ⟨live, statement, member, inside⟩, same, rfl⟩ := there
  obtain ⟨larger, live', within⟩ :=
    below reader (List.mem_map.mpr ⟨(reader, statement), member, rfl⟩) extent live
  exact ⟨_, ⟨reader, larger, read, ⟨live', statement, member, inside⟩, same, rfl⟩, within.moved _⟩

theorem carriedOn_atMost {field : String} {e : Extent}
    (below : ∀ position ∈ statements.map Prod.fst,
      Extent.AtMost (compute position) (other position))
    (there : CarriedOn carries compute statements field e) :
    ∃ larger, CarriedOn carries other statements field larger ∧ e.Within larger := by
  obtain ⟨reader, extent, read, ⟨live, statement, member, inside⟩, same, carried, rfl⟩ := there
  obtain ⟨larger, live', within⟩ :=
    below reader (List.mem_map.mpr ⟨(reader, statement), member, rfl⟩) extent live
  exact ⟨_, ⟨reader, larger, read, ⟨live', statement, member, inside⟩, same, carried, rfl⟩,
    within.moved _⟩

/-- **An exact sweep computes no more than anything that allows for what is needed behind it.** The
induction is on the statements from the last one on: what is needed behind a statement comes from
the end or from reads that are already known to stand on no larger an extent. -/
theorem Exact.below {start after : Sweep} (exact : Exact carries compute statements start after)
    (starts : ∀ field, Extent.PlanarAtMost (· ∈ start.needs.get? field) (behind field))
    (allows : Allows carries other behind statements) :
    ∀ position ∈ statements.map Prod.fst, Extent.AtMost (compute position) (other position) := by
  suffices all : ∀ part, part <:+ statements → ∀ position ∈ part.map Prod.fst,
      Extent.AtMost (compute position) (other position) from all statements (List.suffix_refl _)
  intro part
  induction part with
  | nil => exact fun _ _ absurd => (nomatch absurd)
  | cons first rest ih =>
    obtain ⟨position, statement⟩ := first
    intro suffix
    have later := ih ((List.suffix_cons _ rest).trans suffix)
    rw [List.map_cons, List.forall_mem_cons]
    refine ⟨?_, later⟩
    obtain ⟨needed, known, hull⟩ := exact.computed position statement rest suffix
    -- every bound of what `other` is asked for bounds what is needed here
    have bounded : ∀ bound : Extent,
        (∀ e, behind statement.target e ∨ ReadOn carries other rest statement.target e →
          e.horizontal.Within bound) →
        bound.Covers (· ∈ compute position) := by
      intro bound all
      rw [known]
      refine (IsHull.covers_iff.mp hull.horizontal bound).mpr ?_
      rintro _ ⟨whole, there | there, rfl⟩
      · refine starts statement.target bound ?_ _ ⟨whole, there, rfl⟩
        rintro _ ⟨e, inside, rfl⟩
        exact all e (.inl inside)
      · obtain ⟨larger, read, within⟩ := readOn_atMost later there
        exact within.horizontal.trans (all larger (.inr read))
    by_cases asked : ∃ e, behind statement.target e ∨ ReadOn carries other rest statement.target e
    · obtain ⟨e, there⟩ := asked
      obtain ⟨larger, live, -⟩ := allows position statement rest suffix e there
      refine Extent.atMost_iff.mpr fun bound covers => bounded bound fun e' there' => ?_
      obtain ⟨larger', live', within⟩ := allows position statement rest suffix e' there'
      exact within.trans (covers larger' live')
    · refine Extent.atMost_iff.mpr fun bound _ => bounded bound fun e there => ?_
      exact absurd ⟨e, there⟩ asked

end Least

end Sweep

/-! ### Blocks -/

open Sweep

/-- A block is left with exactly what its statements demand, where `atEnd` is needed behind it: what
its carried reads demand counts for all of its statements, and nothing that is allowed for computes
less. -/
structure Settled (carries : Position → Read → Bool) (compute : Position → Option Extent)
    (statements : List (Position × Statement)) (atEnd : Needs) (sweep : Sweep) : Prop where
  needs : ∀ field bound, sweep.needs.Inside field bound ↔
    atEnd.Inside field bound ∧ bound.Covers (ReadOn carries compute statements field)
  steps : ∀ field, IsSpan (SteppedBy carries compute statements field) (sweep.steps.get? field)
  computed : ∀ position statement rest, (position, statement) :: rest <:+ statements →
    ∃ needed, compute position = needed.map Extent.horizontal ∧
      IsHull (fun e => (e ∈ atEnd.get? statement.target ∨
        CarriedOn carries compute statements statement.target e) ∨
          ReadOn carries compute rest statement.target e) needed
  below : ∀ (other : Position → Option Extent) (behind : String → Extent → Prop),
    (∀ field, Extent.PlanarAtMost (· ∈ atEnd.get? field) (behind field)) →
    Allows carries other
      (fun field e => behind field e ∨ CarriedOn carries other statements field e) statements →
    ∀ position ∈ statements.map Prod.fst, Extent.AtMost (compute position) (other position)

section Settle

variable {carries : Position → Read → Bool} {compute other : Position → Option Extent}
  {statements : List (Position × Statement)} {behind : String → Extent → Prop}
  {atEnd seeds : Needs}

theorem Needs.isHull_join (needs more : Needs) (field : String) :
    IsHull (fun e => e ∈ needs.get? field ∨ e ∈ more.get? field)
      ((needs.join more).get? field) := by
  rw [IsHull.covers_iff]
  intro bound
  exact Needs.inside_join.trans Extent.covers_or.symm

/-- Two needs that each demand no more within the plane do so together. -/
theorem planarAtMost_join {field : String} {extents : Extent → Prop}
    (left : Extent.PlanarAtMost (· ∈ atEnd.get? field) extents)
    (right : Extent.PlanarAtMost (· ∈ seeds.get? field) extents) :
    Extent.PlanarAtMost (· ∈ (atEnd.join seeds).get? field) extents := by
  intro bound covers
  refine ((Needs.isHull_join atEnd seeds field).covers_planar_iff bound).mpr ?_
  rintro _ ⟨whole, there | there, rfl⟩
  · exact left bound covers _ ⟨whole, there, rfl⟩
  · exact right bound covers _ ⟨whole, there, rfl⟩

theorem planarAtMost_or_left {a b extents : Extent → Prop} (le : Extent.PlanarAtMost extents a) :
    Extent.PlanarAtMost extents (fun e => a e ∨ b e) := by
  intro bound covers
  refine le bound ?_
  rintro _ ⟨whole, there, rfl⟩
  exact covers _ ⟨whole, .inl there, rfl⟩

theorem planarAtMost_or_right {a b extents : Extent → Prop} (le : Extent.PlanarAtMost extents b) :
    Extent.PlanarAtMost extents (fun e => a e ∨ b e) := by
  intro bound covers
  refine le bound ?_
  rintro _ ⟨whole, there, rfl⟩
  exact covers _ ⟨whole, .inr there, rfl⟩

/-- What a sweep finds for carried reads is the hull of what they read. -/
theorem isHull_carried {start found : Sweep} (exact : Exact carries compute statements start found)
    (fresh : start.carried = .empty) (field : String) :
    IsHull (CarriedOn carries compute statements field) (found.carried.get? field) := by
  rw [IsHull.covers_iff]
  intro bound
  refine (exact.carried field bound).trans ⟨And.right, fun covers => ⟨?_, covers⟩⟩
  rw [fresh]
  exact Needs.inside_empty field bound

/-- The seeds found so far are demands that every solution makes. -/
def Grounded (carries : Position → Read → Bool) (statements : List (Position × Statement))
    (atEnd seeds : Needs) : Prop :=
  ∀ (other : Position → Option Extent) (behind : String → Extent → Prop),
    (∀ field, Extent.PlanarAtMost (· ∈ atEnd.get? field) (behind field)) →
    Allows carries other
      (fun field e => behind field e ∨ CarriedOn carries other statements field e) statements →
    ∀ field, Extent.PlanarAtMost (· ∈ seeds.get? field) (CarriedOn carries other statements field)

/-- A sweep from grounded seeds computes no more than any solution. -/
theorem Grounded.below {found : Sweep} (grounded : Grounded carries statements atEnd seeds)
    (exact : Exact carries compute statements (.start (atEnd.join seeds)) found)
    (starts : ∀ field, Extent.PlanarAtMost (· ∈ atEnd.get? field) (behind field))
    (allows : Allows carries other
      (fun field e => behind field e ∨ CarriedOn carries other statements field e) statements) :
    ∀ position ∈ statements.map Prod.fst, Extent.AtMost (compute position) (other position) := by
  refine exact.below (fun field => planarAtMost_join ?_ ?_) allows
  · exact planarAtMost_or_left (starts field)
  · exact planarAtMost_or_right (grounded other behind starts allows field)

/-- What a sweep from grounded seeds finds is grounded again. -/
theorem Grounded.join {found : Sweep} (grounded : Grounded carries statements atEnd seeds)
    (exact : Exact carries compute statements (.start (atEnd.join seeds)) found) :
    Grounded carries statements atEnd (seeds.join found.carried) := by
  intro other behind starts allows field
  refine planarAtMost_join (grounded other behind starts allows field) fun bound covers => ?_
  refine ((isHull_carried exact rfl field).covers_planar_iff bound).mpr ?_
  rintro _ ⟨whole, there, rfl⟩
  obtain ⟨larger, carried, within⟩ :=
    carriedOn_atMost (grounded.below exact starts allows) there
  exact within.horizontal.trans (covers _ ⟨larger, carried, rfl⟩)

/-- A sweep that starts with more finds more for carried reads. -/
theorem carried_mono {compute' : Position → Option Extent} {start start' found found' : Sweep}
    (exact : Exact carries compute statements start found) (fresh : start.carried = .empty)
    (exact' : Exact carries compute' statements start' found')
    (more : ∀ field, Extent.AtMost (start.needs.get? field) (start'.needs.get? field))
    {field : String} {bound : Extent} (inside : found'.carried.Inside field bound) :
    found.carried.Inside field bound := by
  have below : ∀ position ∈ statements.map Prod.fst,
      Extent.AtMost (compute position) (compute' position) := by
    refine exact.below (?_ : ∀ field, Extent.PlanarAtMost (· ∈ start.needs.get? field)
      fun e => e ∈ start'.needs.get? field) ?_
    · rintro field bound covers _ ⟨whole, there, rfl⟩
      obtain ⟨larger, member, within⟩ := more field whole there
      exact within.horizontal.trans (covers _ ⟨larger, member, rfl⟩)
    · intro position statement rest suffix e there
      obtain ⟨needed, known, hull⟩ := exact'.computed position statement rest suffix
      cases needed with
      | none => exact absurd there (hull e)
      | some needed => exact ⟨_, known, (hull.2.1 e there).horizontal⟩
  refine (IsHull.covers_iff.mp (isHull_carried exact fresh field) bound).mpr fun e there => ?_
  obtain ⟨larger, carried, within⟩ := carriedOn_atMost below there
  exact within.trans (((exact'.carried field bound).mp inside).2 larger carried)

/-- **A sweep that finds just the seeds it started with leaves a settled block.** -/
theorem settled_of_exact {found : Sweep}
    (exact : Exact carries compute statements (.start (atEnd.join seeds)) found)
    (grounded : Grounded carries statements atEnd seeds)
    (same : ∀ field bound, seeds.Inside field bound ↔ found.carried.Inside field bound) :
    Settled carries compute statements atEnd found := by
  have seeded : ∀ field bound, seeds.Inside field bound ↔
      bound.Covers (CarriedOn carries compute statements field) := fun field bound =>
    (same field bound).trans (IsHull.covers_iff.mp (isHull_carried exact rfl field) bound)
  have joined : ∀ field bound, Needs.Inside (Sweep.start (atEnd.join seeds)).needs field bound ↔
      atEnd.Inside field bound ∧ bound.Covers (CarriedOn carries compute statements field) :=
    fun field bound => Needs.inside_join.trans (and_congr_right' (seeded field bound))
  refine ⟨fun field bound => ?_, fun field => ?_, fun position statement rest suffix => ?_,
    fun other behind => grounded.below exact⟩
  · rw [exact.needs, joined]
    exact ⟨fun all => ⟨all.1.1, all.2⟩, fun all => ⟨⟨all.1, covers_carriedOn all.2⟩, all.2⟩⟩
  · refine (exact.steps field (fun _ => False) fun _ absurd => absurd).congr fun k => ?_
    exact ⟨fun there => there.resolve_left id, .inr⟩
  · obtain ⟨needed, known, hull⟩ := exact.computed position statement rest suffix
    refine ⟨needed, known, IsHull.covers_iff.mpr fun bound => ?_⟩
    rw [IsHull.covers_iff.mp hull bound, Extent.covers_or, Extent.covers_or, Extent.covers_or]
    exact and_congr_left' (joined statement.target bound)

theorem grounded_empty : Grounded carries statements atEnd .empty := by
  rintro other behind - - field bound - _ ⟨_, absurd, -⟩
  cases absurd

/-- A sequential block, once the demands of its carried reads have stopped growing. Every sweep
starts from seeds that the next one finds again, so the last one finds just what it started with. -/
theorem settle_settled {block : Block} {index further : Nat} {sweep : Sweep}
    (distinct : (statements.map Prod.fst).Nodup)
    (same : ∀ position ∈ statements.map Prod.fst, ∀ read : Read,
      carries position read = read.isCarried block.writes block.policy)
    (grounded : Grounded carries statements atEnd seeds)
    (again : ∀ found, Sweep.statements block.writes block.policy (.start (atEnd.join seeds))
      statements = .ok found → ∀ field bound, found.carried.Inside field bound →
        seeds.Inside field bound)
    (done : settle block index statements atEnd further seeds = .ok sweep) :
    (∀ pair ∈ sweep.live, pair.1 ∈ statements.map Prod.fst) ∧
      ∀ compute : Position → Option Extent,
        (∀ position ∈ statements.map Prod.fst, compute position = sweep.live.lookup position) →
        Settled carries compute statements atEnd sweep := by
  induction further generalizing seeds with
  | zero =>
    unfold settle at done
    obtain ⟨found, swept, verdict⟩ := Steps.bind_eq_ok.mp done
    obtain ⟨live, split, inside, exact⟩ := statements_exact distinct same swept
    dsimp only at verdict
    split at verdict
    next settled =>
      cases verdict
      rw [show sweep.live = live from split.trans (List.append_nil live)]
      refine ⟨inside, fun compute agrees => settled_of_exact (exact compute agrees) grounded ?_⟩
      exact fun field bound =>
        ⟨Needs.inside_of_growth (List.isEmpty_iff.mp settled), again sweep swept field bound⟩
    · cases verdict
  | succ further ih =>
    unfold settle at done
    obtain ⟨found, swept, verdict⟩ := Steps.bind_eq_ok.mp done
    obtain ⟨live, split, inside, exact⟩ := statements_exact distinct same swept
    dsimp only at verdict
    split at verdict
    next settled =>
      cases verdict
      rw [show sweep.live = live from split.trans (List.append_nil live)]
      refine ⟨inside, fun compute agrees => settled_of_exact (exact compute agrees) grounded ?_⟩
      exact fun field bound =>
        ⟨Needs.inside_of_growth (List.isEmpty_iff.mp settled), again sweep swept field bound⟩
    · have here := exact (fun position => live.lookup position) fun _ _ => rfl
      refine ih (grounded.join here) (fun next nextSwept field bound carried => ?_) verdict
      obtain ⟨live', -, -, exact'⟩ := statements_exact distinct same nextSwept
      have kept : found.carried.Inside field bound := by
        refine carried_mono here rfl (exact' (fun position => live'.lookup position) fun _ _ => rfl)
          (fun other => ?_) carried
        refine Extent.atMost_iff.mpr fun bound inside => ?_
        obtain ⟨ends, more⟩ := Needs.inside_join.mp inside
        exact Needs.inside_join.mpr ⟨ends, (Needs.inside_join.mp more).1⟩
      exact Needs.inside_join.mpr ⟨again found swept field bound kept, kept⟩

end Settle

theorem carries_of_mem {program : Program} {block : Block} {b : Nat}
    (member : (block, b) ∈ program.blocks.zipIdx) {position : Position} (here : position.block = b)
    (read : Read) : program.carries position read = read.isCarried block.writes block.policy := by
  unfold carries
  rw [here, List.mk_mem_zipIdx_iff_getElem?.mp member]
  rfl

/-- **A swept block is settled.** -/
theorem sweepBlock_settled {program : Program} {block : Block} {b : Nat} {atEnd : Needs}
    {sweep : Sweep} (member : (block, b) ∈ program.blocks.zipIdx)
    (done : sweepBlock program block b atEnd = .ok sweep) :
    ∀ compute : Position → Option Extent,
      (∀ position, position.block = b → compute position = sweep.live.lookup position) →
      Settled program.carries compute (blockStatements block b) atEnd sweep := by
  have distinct := nodup_blockStatements block b
  have ownBlock : ∀ position ∈ (blockStatements block b).map Prod.fst, position.block = b := by
    intro position inside
    obtain ⟨⟨position, statement⟩, there, rfl⟩ := List.mem_map.mp inside
    exact (mem_blockStatements.mp there).1
  have same := fun position inside => carries_of_mem member (ownBlock position inside)
  intro compute agrees
  unfold sweepBlock at done
  rw [filter_statements member] at done
  dsimp only at done
  split at done
  next sequential =>
    refine (settle_settled distinct same grounded_empty ?_ done).2 compute fun position inside =>
      agrees position (ownBlock position inside)
    exact fun _ _ field bound _ => Needs.inside_empty field bound
  next parallel =>
    -- a parallel block visits no plane before another one
    have uncarried : ∀ position ∈ (blockStatements block b).map Prod.fst, ∀ read : Read,
        program.carries position read = read.isCarried [] block.policy := by
      intro position inside read
      rw [same position inside read, isCarried_nil]
      cases policy : block.policy with
      | parallel => exact Bool.and_false _
      | forward => rw [policy] at parallel; exact absurd rfl parallel
      | backward => rw [policy] at parallel; exact absurd rfl parallel
    obtain ⟨live, split, -, exact⟩ := statements_exact distinct uncarried done
    have here : Exact program.carries compute (blockStatements block b)
        (.start (atEnd.join .empty)) sweep := by
      refine exact compute fun position inside => ?_
      rw [agrees position (ownBlock position inside), split]
      exact congrArg _ (List.append_nil live)
    refine settled_of_exact here grounded_empty fun field bound => ?_
    refine ⟨fun _ => ?_, fun _ => Needs.inside_empty field bound⟩
    refine (IsHull.covers_iff.mp (isHull_carried here rfl field) bound).mpr ?_
    rintro _ ⟨reader, extent, read, ⟨-, statement, inside, -⟩, -, carried, rfl⟩
    rw [uncarried reader (List.mem_map.mpr ⟨_, inside, rfl⟩), isCarried_nil] at carried
    cases carried

end GridStencil.Demand
