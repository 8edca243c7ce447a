import GridStencil.Demand
import GridStencil.Proofs.Name.Table
import GridStencil.Proofs.Program.Positions
import GridStencil.Proofs.Steps

/-!
**What a known demand says about a program.**

The analysis is a walk from the last statement to the first. `Demand.Swept` relates what is needed
before and behind some statements without saying how it was found: nothing that was needed is
forgotten, a statement whose target is not needed behind it is dead, and what a live statement reads
from the points where it is computed is needed before it. In a sequential block the carried reads
are covered by what is needed at the *end* of the block already (`Demand.BlockSwept`).

* `Demand.ofProgram?_swept`: a demand that was found relates the whole program.
-/

namespace GridStencil

/-! ### Extents -/

/-- An extent is part of another one. -/
structure Extent.Within (a b : Extent) : Prop where
  i : b.i.lo ≤ a.i.lo ∧ a.i.hi ≤ b.i.hi
  j : b.j.lo ≤ a.j.lo ∧ a.j.hi ≤ b.j.hi
  k : b.k.lo ≤ a.k.lo ∧ a.k.hi ≤ b.k.hi

namespace Extent

theorem Within.refl (a : Extent) : a.Within a :=
  ⟨⟨Int.le_refl _, Int.le_refl _⟩, ⟨Int.le_refl _, Int.le_refl _⟩, ⟨Int.le_refl _, Int.le_refl _⟩⟩

theorem Within.trans {a b c : Extent} (first : a.Within b) (second : b.Within c) : a.Within c :=
  ⟨⟨Int.le_trans second.i.1 first.i.1, Int.le_trans first.i.2 second.i.2⟩,
    ⟨Int.le_trans second.j.1 first.j.1, Int.le_trans first.j.2 second.j.2⟩,
    ⟨Int.le_trans second.k.1 first.k.1, Int.le_trans first.k.2 second.k.2⟩⟩

theorem within_hull_left (a b : Extent) : a.Within (a.hull b) :=
  ⟨⟨Int.min_le_left _ _, Int.le_max_left _ _⟩, ⟨Int.min_le_left _ _, Int.le_max_left _ _⟩,
    ⟨Int.min_le_left _ _, Int.le_max_left _ _⟩⟩

theorem within_hull_right (a b : Extent) : b.Within (a.hull b) :=
  ⟨⟨Int.min_le_right _ _, Int.le_max_right _ _⟩, ⟨Int.min_le_right _ _, Int.le_max_right _ _⟩,
    ⟨Int.min_le_right _ _, Int.le_max_right _ _⟩⟩

/-- An extent moved by an offset, however far. -/
def moved (a : Extent) (o : Offset) : Extent :=
  ⟨⟨a.i.lo + o.i, a.i.hi + o.i⟩, ⟨a.j.lo + o.j, a.j.hi + o.j⟩, ⟨a.k.lo + o.k, a.k.hi + o.k⟩⟩

theorem shift?_range {a b : OffsetRange} {step : Int} (shifted : a.shift? step = some b) :
    b = ⟨a.lo + step, a.hi + step⟩ := by
  unfold OffsetRange.shift? at shifted
  split at shifted
  next lo hi low high =>
    obtain ⟨-, rfl⟩ := Number.addChecked_eq_some.mp low
    obtain ⟨-, rfl⟩ := Number.addChecked_eq_some.mp high
    exact (Option.some.inj shifted).symm
  · cases shifted

theorem shift?_eq_some {a b : Extent} {o : Offset} (shifted : a.shift? o = some b) :
    b = a.moved o := by
  unfold shift? at shifted
  split at shifted
  next i j k shiftedI shiftedJ shiftedK =>
    rw [← Option.some.inj shifted, shift?_range shiftedI, shift?_range shiftedJ,
      shift?_range shiftedK]
    rfl
  · cases shifted

end Extent

namespace Demand

open Program

/-! ### Needs -/

/-- A field is needed on at least an extent. -/
def Needs.Has (needs : Needs) (field : String) (extent : Extent) : Prop :=
  ∃ whole, needs.get? field = some whole ∧ extent.Within whole

/-- All that is needed in one place is needed in another. -/
def Needs.Covered (needs more : Needs) : Prop :=
  ∀ field extent, needs.Has field extent → more.Has field extent

namespace Needs

theorem has_of_get? {needs : Needs} {field : String} {extent : Extent}
    (found : needs.get? field = some extent) : needs.Has field extent :=
  ⟨extent, found, .refl extent⟩

theorem Has.mono {needs : Needs} {field : String} {a b : Extent} (has : needs.Has field b)
    (within : a.Within b) : needs.Has field a := by
  obtain ⟨whole, found, inside⟩ := has
  exact ⟨whole, found, within.trans inside⟩

theorem Covered.refl (needs : Needs) : needs.Covered needs := fun _ _ has => has

theorem Covered.trans {a b c : Needs} (first : a.Covered b) (second : b.Covered c) :
    a.Covered c := fun field extent has => second field extent (first field extent has)

theorem covered_add (needs : Needs) (field : String) (extent : Extent) :
    needs.Covered (needs.add field extent) := by
  rintro other reached ⟨whole, found, inside⟩
  unfold Has add
  rw [Name.Table.get?_insert]
  by_cases same : other = field
  · subst same
    rw [if_pos rfl, found]
    exact ⟨_, rfl, inside.trans (Extent.within_hull_left whole extent)⟩
  · rw [if_neg same]
    exact ⟨whole, found, inside⟩

theorem has_add (needs : Needs) (field : String) (extent : Extent) :
    (needs.add field extent).Has field extent := by
  unfold Has add
  rw [Name.Table.get?_insert, if_pos rfl]
  cases needs.get? field with
  | none => exact ⟨extent, rfl, .refl extent⟩
  | some known => exact ⟨_, rfl, Extent.within_hull_right known extent⟩

/-- Both parts of a join are covered by it. -/
theorem covered_join (needs more : Needs) :
    needs.Covered (needs.join more) ∧ more.Covered (needs.join more) := by
  unfold join
  have fold : ∀ (entries : List (String × Extent)) (start : Needs),
      let result := entries.foldl (fun needs pair => needs.add pair.1 pair.2) start
      start.Covered result ∧ ∀ pair ∈ entries, result.Has pair.1 pair.2 := by
    intro entries
    induction entries with
    | nil => exact fun start => ⟨.refl start, fun _ absurd => (nomatch absurd)⟩
    | cons first rest ih =>
      intro start
      obtain ⟨covered, all⟩ := ih (start.add first.1 first.2)
      refine ⟨(covered_add start first.1 first.2).trans covered, ?_⟩
      rw [List.forall_mem_cons]
      exact ⟨covered _ _ (has_add start first.1 first.2), all⟩
  obtain ⟨covered, all⟩ := fold more.entries needs
  refine ⟨covered, ?_⟩
  rintro field extent ⟨whole, found, inside⟩
  exact (all (field, whole) (Name.Table.mem_entries.mpr found)).mono inside

/-- Without growth, nothing new is needed. -/
theorem covered_of_growth {needs more : Needs} (settled : needs.growth more = []) :
    more.Covered needs := by
  rintro field extent ⟨whole, found, inside⟩
  have same : (needs.join more).get? field = needs.get? field := by
    have kept := List.filter_eq_nil_iff.mp settled field (Name.Table.mem_names.mpr ⟨whole, found⟩)
    simpa using kept
  obtain ⟨larger, there, within⟩ := (covered_join needs more).2 field extent ⟨whole, found, inside⟩
  rw [same] at there
  exact ⟨larger, there, within⟩

end Needs

/-! ### Statements -/

/-- The offset of a read as it counts for the extents: without its vertical part if it is
carried. -/
def reach (carried : Bool) (offset : Offset) : Offset :=
  if carried then offset.horizontal else offset

/-- How what is needed behind some statements becomes what is needed before them, where `region?`
gives the extents on which they are computed and the carried reads are needed in `seeds`, too. -/
inductive Swept (region? : Position → Option Extent) (carried : Read → Bool) (seeds : Needs) :
    List (Position × Statement) → Needs → Needs → Prop
  | nil (needs : Needs) : Swept region? carried seeds [] needs needs
  | dead {position : Position} {statement : Statement} {rest : List (Position × Statement)}
      {before behind : Needs} (unknown : region? position = none)
      (unneeded : before.get? statement.target = none)
      (tail : Swept region? carried seeds rest before behind) :
      Swept region? carried seeds ((position, statement) :: rest) before behind
  | live {position : Position} {statement : Statement} {rest : List (Position × Statement)}
      {before middle behind : Needs} {needed : Extent}
      (known : region? position = some needed.horizontal)
      (target : middle.get? statement.target = some needed)
      (covered : middle.Covered before)
      (reads : ∀ read ∈ statement.reads,
        before.Has read.field (needed.horizontal.moved (reach (carried read) read.offset)))
      (seeded : ∀ read ∈ statement.reads, carried read = true →
        seeds.Has read.field (needed.horizontal.moved read.offset.horizontal))
      (tail : Swept region? carried seeds rest middle behind) :
      Swept region? carried seeds ((position, statement) :: rest) before behind

namespace Swept

variable {region? : Position → Option Extent} {carried : Read → Bool} {seeds : Needs}

/-- Nothing that is needed behind some statements is forgotten before them. -/
theorem covered {statements : List (Position × Statement)} {before behind : Needs}
    (swept : Swept region? carried seeds statements before behind) : behind.Covered before := by
  induction swept with
  | nil needs => exact .refl needs
  | dead _ _ _ ih => exact ih
  | live _ _ here _ _ _ ih => exact ih.trans here

/-- Without carried reads, it does not matter what is needed of them. -/
theorem reseed {more : Needs} {statements : List (Position × Statement)}
    {before behind : Needs} (swept : Swept region? carried seeds statements before behind)
    (none : ∀ read, carried read = false) :
    Swept region? (fun _ => false) more statements before behind := by
  induction swept with
  | nil needs => exact .nil needs
  | dead unknown unneeded _ ih => exact .dead unknown unneeded ih
  | live known target covered reads _ _ ih =>
    refine .live known target covered (fun read member => ?_)
      (fun _ _ absurd => (nomatch absurd)) ih
    rw [← none read]
    exact reads read member

theorem append_inv {first second : List (Position × Statement)} {before behind : Needs}
    (swept : Swept region? carried seeds (first ++ second) before behind) :
    ∃ middle, Swept region? carried seeds first before middle ∧
      Swept region? carried seeds second middle behind := by
  induction first generalizing before with
  | nil => exact ⟨before, .nil before, swept⟩
  | cons head rest ih =>
    rw [List.cons_append] at swept
    cases swept with
    | dead unknown unneeded tail =>
      obtain ⟨middle, left, right⟩ := ih tail
      exact ⟨middle, .dead unknown unneeded left, right⟩
    | live known target covered reads seeded tail =>
      obtain ⟨middle, left, right⟩ := ih tail
      exact ⟨middle, .live known target covered reads seeded left, right⟩

/-- Any part of some statements lies between needs that lie between those of the whole. -/
theorem segment {α : Type} {f : α → List (Position × Statement)} {parts : List α}
    {before behind : Needs} (swept : Swept region? carried seeds (parts.flatMap f) before behind)
    {part : α} (member : part ∈ parts) :
    ∃ first last, first.Covered before ∧ behind.Covered last ∧
      Swept region? carried seeds (f part) first last := by
  induction parts generalizing before with
  | nil => cases member
  | cons head rest ih =>
    rw [List.flatMap_cons] at swept
    obtain ⟨middle, here, tail⟩ := swept.append_inv
    rcases List.mem_cons.mp member with rfl | later
    · exact ⟨before, middle, .refl before, tail.covered, here⟩
    · obtain ⟨first, last, enters, leaves, there⟩ := ih tail later
      exact ⟨first, last, enters.trans here.covered, leaves, there⟩

/-- Where a live statement is computed and what it reads there is needed before all statements, and
it is computed wherever its target is needed behind them. -/
theorem at_live {statements : List (Position × Statement)} {before behind : Needs}
    (swept : Swept region? carried seeds statements before behind) {position : Position}
    {statement : Statement} (member : (position, statement) ∈ statements) {extent : Extent}
    (live : region? position = some extent) :
    (∃ needed, extent = needed.horizontal ∧ before.Has statement.target needed ∧
        ∀ other, behind.Has statement.target other → other.Within needed) ∧
      ∀ read ∈ statement.reads,
        before.Has read.field (extent.moved (reach (carried read) read.offset)) := by
  induction swept with
  | nil needs => cases member
  | dead unknown _ _ ih =>
    rcases List.mem_cons.mp member with here | later
    · cases here
      rw [live] at unknown
      cases unknown
    · exact ih later
  | @live _ _ rest before middle behind needed known target covered reads _ tail ih =>
    rcases List.mem_cons.mp member with here | later
    · cases here
      have same : extent = needed.horizontal := Option.some.inj (live.symm.trans known)
      subst same
      refine ⟨⟨needed, rfl, covered _ _ (Needs.has_of_get? target), fun other has => ?_⟩, reads⟩
      obtain ⟨whole, found, within⟩ := tail.covered _ _ has
      obtain rfl : needed = whole := Option.some.inj (target.symm.trans found)
      exact within
    · obtain ⟨⟨needed, same, has, all'⟩, all⟩ := ih later
      exact ⟨⟨needed, same, covered _ _ has, all'⟩,
        fun read inside => covered _ _ (all read inside)⟩

end Swept

/-! ### Sweeps -/

namespace Sweep

variable {writes : List String} {policy : Policy}

/-- What one more read does to a sweep. -/
theorem read_eq_ok {extent : Extent} {sweep after : Sweep} {read : Read}
    (done : sweep.read writes policy extent read = .ok after) :
    sweep.needs.Covered after.needs ∧ sweep.carried.Covered after.carried ∧
      after.live = sweep.live ∧
      after.needs.Has read.field
        (extent.moved (reach (read.isCarried writes policy) read.offset)) ∧
      (read.isCarried writes policy = true →
        after.carried.Has read.field (extent.moved read.offset.horizontal)) := by
  have shifted : ∀ {offset reached}, moved extent read.field offset = .ok reached →
      reached = extent.moved offset := by
    intro offset reached found
    unfold moved at found
    split at found
    next shift =>
      rw [← Except.ok.inj found]
      exact Extent.shift?_eq_some shift
    · cases found
  unfold Sweep.read at done
  unfold reach
  split at done
  next carried =>
    obtain ⟨reached, found, same⟩ := Steps.bind_eq_ok.mp done
    rw [← Except.ok.inj same, if_pos carried, shifted found]
    exact ⟨Needs.covered_add _ _ _, Needs.covered_add _ _ _, rfl, Needs.has_add _ _ _,
      fun _ => Needs.has_add _ _ _⟩
  next own =>
    obtain ⟨reached, found, same⟩ := Steps.bind_eq_ok.mp done
    rw [← Except.ok.inj same, if_neg own, shifted found]
    exact ⟨Needs.covered_add _ _ _, .refl _, rfl, Needs.has_add _ _ _,
      fun carried => absurd carried own⟩

/-- What all reads of a statement do to a sweep. -/
theorem reads_eq_ok {extent : Extent} {reads : List Read} {sweep after : Sweep}
    (done : reads.foldlM (Sweep.read writes policy extent) sweep = .ok after) :
    sweep.needs.Covered after.needs ∧ sweep.carried.Covered after.carried ∧
      after.live = sweep.live ∧
      ∀ read ∈ reads,
        after.needs.Has read.field
          (extent.moved (reach (read.isCarried writes policy) read.offset)) ∧
        (read.isCarried writes policy = true →
          after.carried.Has read.field (extent.moved read.offset.horizontal)) := by
  induction reads generalizing sweep with
  | nil =>
    cases done
    exact ⟨.refl _, .refl _, rfl, fun _ absurd => (nomatch absurd)⟩
  | cons read rest ih =>
    rw [List.foldlM_cons] at done
    obtain ⟨middle, here, more⟩ := Steps.bind_eq_ok.mp done
    obtain ⟨needs, carried, live, has, seeded⟩ := read_eq_ok here
    obtain ⟨needs', carried', live', all⟩ := ih more
    refine ⟨needs.trans needs', carried.trans carried', live'.trans live, ?_⟩
    rw [List.forall_mem_cons]
    exact ⟨⟨needs' _ _ has, fun isCarried => carried' _ _ (seeded isCarried)⟩, all⟩

/-- What a statement does to a sweep: nothing if it is dead, and else its reads are added. -/
theorem statement_eq_ok {behind before : Sweep} {position : Position} {statement : Statement}
    (done : behind.statement writes policy position statement = .ok before) :
    (behind.needs.get? statement.target = none ∧ before = behind) ∨
      ∃ needed, behind.needs.get? statement.target = some needed ∧
        before.live = (position, needed.horizontal) :: behind.live ∧
        behind.needs.Covered before.needs ∧ behind.carried.Covered before.carried ∧
        ∀ read ∈ statement.reads,
          before.needs.Has read.field
            (needed.horizontal.moved (reach (read.isCarried writes policy) read.offset)) ∧
          (read.isCarried writes policy = true →
            before.carried.Has read.field (needed.horizontal.moved read.offset.horizontal)) := by
  unfold Sweep.statement at done
  split at done
  next unneeded => exact .inl ⟨unneeded, (Except.ok.inj done).symm⟩
  next needed found =>
    obtain ⟨needs, carried, live, all⟩ := reads_eq_ok (Steps.mapError_eq_ok.mp done)
    exact .inr ⟨needed, found, live, needs, carried, all⟩

theorem lookup_none {live : List (Position × Extent)} {positions : List Position}
    (inside : ∀ pair ∈ live, pair.1 ∈ positions) {position : Position}
    (other : position ∉ positions) : live.lookup position = none := by
  rw [List.lookup_eq_none_iff]
  intro pair member
  rw [bne_iff_ne]
  rintro rfl
  exact other (inside pair member)

/-- **A sweep over statements relates the needs on its two sides**, for all extents that agree with
its live statements and all seeds that cover its carried reads. -/
theorem statements_swept {start sweep : Sweep} {statements : List (Position × Statement)}
    (distinct : (statements.map Prod.fst).Nodup)
    (done : start.statements writes policy statements = .ok sweep) :
    ∃ live, sweep.live = live ++ start.live ∧
      (∀ pair ∈ live, pair.1 ∈ statements.map Prod.fst) ∧
      start.carried.Covered sweep.carried ∧
      ∀ region? : Position → Option Extent,
        (∀ position ∈ statements.map Prod.fst, region? position = live.lookup position) →
        ∀ seeds, sweep.carried.Covered seeds →
          Swept region? (·.isCarried writes policy) seeds statements sweep.needs start.needs := by
  induction statements generalizing sweep with
  | nil =>
    cases done
    exact ⟨[], rfl, fun _ absurd => (nomatch absurd), .refl _, fun _ _ _ _ => .nil _⟩
  | cons first rest ih =>
    obtain ⟨position, statement⟩ := first
    rw [List.map_cons, List.nodup_cons] at distinct
    obtain ⟨behind, doneRest, doneHere⟩ := Steps.bind_eq_ok.mp done
    obtain ⟨live, same, inside, growing, swept⟩ := ih distinct.2 doneRest
    rcases statement_eq_ok doneHere with
      ⟨unneeded, rfl⟩ | ⟨needed, found, added, covered, carried, reads⟩
    · refine ⟨live, same, fun pair member => List.mem_cons_of_mem _ (inside pair member), growing,
        fun region? agrees seeds seeded => ?_⟩
      rw [List.map_cons, List.forall_mem_cons] at agrees
      refine .dead ?_ unneeded (swept region? agrees.2 seeds seeded)
      exact agrees.1.trans (lookup_none inside distinct.1)
    · refine ⟨(position, needed.horizontal) :: live, by rw [added, same, List.cons_append], ?_,
        growing.trans carried, fun region? agrees seeds seeded => ?_⟩
      · rw [List.forall_mem_cons]
        exact ⟨List.mem_cons_self, fun pair member => List.mem_cons_of_mem _ (inside pair member)⟩
      · rw [List.map_cons, List.forall_mem_cons] at agrees
        have elsewhere : ∀ other ∈ rest.map Prod.fst, region? other = live.lookup other := by
          intro other member
          rw [agrees.2 other member, List.lookup_cons, beq_eq_false_iff_ne.mpr]
          rintro rfl
          exact distinct.1 member
        refine .live ?_ found covered (fun read member => (reads read member).1)
          (fun read member isCarried => seeded _ _ ((reads read member).2 isCarried))
          (swept region? elsewhere seeds (carried.trans seeded))
        rw [agrees.1, List.lookup_cons, beq_self_eq_true]

end Sweep

/-! ### Blocks -/

/-- How what is needed behind a block becomes what is needed before it. What the carried reads of a
sequential block need is needed at its end already. -/
def BlockSwept (region? : Position → Option Extent) (block : Block)
    (statements : List (Position × Statement)) (before behind : Needs) : Prop :=
  if block.policy.isSequential then
    ∃ atEnd, behind.Covered atEnd ∧
      Swept region? (·.isCarried block.writes block.policy) atEnd statements before atEnd
  else Swept region? (fun _ => false) .empty statements before behind

theorem isCarried_nil (policy : Policy) (read : Read) : read.isCarried [] policy = false := rfl

/-- A sweep over a sequential block whose carried reads need nothing beyond the seeds. -/
theorem swept_of_settled {block : Block} {statements : List (Position × Statement)}
    {needs seeds : Needs} {sweep : Sweep} (distinct : (statements.map Prod.fst).Nodup)
    (done : Sweep.statements block.writes block.policy (.start (needs.join seeds)) statements =
      .ok sweep)
    (settled : seeds.growth sweep.carried = []) :
    (∀ pair ∈ sweep.live, pair.1 ∈ statements.map Prod.fst) ∧
      ∀ region? : Position → Option Extent,
        (∀ position ∈ statements.map Prod.fst, region? position = sweep.live.lookup position) →
        ∃ atEnd, needs.Covered atEnd ∧
          Swept region? (·.isCarried block.writes block.policy) atEnd statements sweep.needs
            atEnd := by
  obtain ⟨live, same, inside, -, relates⟩ := Sweep.statements_swept distinct done
  have onlyLive : sweep.live = live := same.trans (List.append_nil live)
  rw [onlyLive]
  refine ⟨inside, fun region? agrees => ⟨needs.join seeds, (Needs.covered_join _ _).1, ?_⟩⟩
  exact relates region? agrees _
    ((Needs.covered_of_growth settled).trans (Needs.covered_join _ _).2)

/-- A sequential block, once the needs of its carried reads have stopped growing. -/
theorem settle_swept {block : Block} {index : Nat} {statements : List (Position × Statement)}
    {needs seeds : Needs} {further : Nat} {sweep : Sweep}
    (distinct : (statements.map Prod.fst).Nodup)
    (done : settle block index statements needs further seeds = .ok sweep) :
    (∀ pair ∈ sweep.live, pair.1 ∈ statements.map Prod.fst) ∧
      ∀ region? : Position → Option Extent,
        (∀ position ∈ statements.map Prod.fst, region? position = sweep.live.lookup position) →
        ∃ atEnd, needs.Covered atEnd ∧
          Swept region? (·.isCarried block.writes block.policy) atEnd statements sweep.needs
            atEnd := by
  induction further generalizing seeds with
  | zero =>
    unfold settle at done
    obtain ⟨found, swept, verdict⟩ := Steps.bind_eq_ok.mp done
    dsimp only at verdict
    split at verdict
    next settled =>
      cases verdict
      exact swept_of_settled distinct swept (List.isEmpty_iff.mp settled)
    · cases verdict
  | succ further ih =>
    unfold settle at done
    obtain ⟨found, swept, verdict⟩ := Steps.bind_eq_ok.mp done
    dsimp only at verdict
    split at verdict
    next settled =>
      cases verdict
      exact swept_of_settled distinct swept (List.isEmpty_iff.mp settled)
    · exact ih verdict

theorem sweepBlock_swept {program : Program} {block : Block} {b : Nat} {needs : Needs}
    {sweep : Sweep} (member : (block, b) ∈ program.blocks.zipIdx)
    (done : sweepBlock program block b needs = .ok sweep) :
    (∀ pair ∈ sweep.live, pair.1.block = b) ∧
      ∀ region? : Position → Option Extent,
        (∀ position, position.block = b → region? position = sweep.live.lookup position) →
        BlockSwept region? block (blockStatements block b) sweep.needs needs := by
  have distinct := nodup_blockStatements block b
  have ownBlock : ∀ position ∈ (blockStatements block b).map Prod.fst, position.block = b := by
    intro position inside
    obtain ⟨⟨position, statement⟩, there, rfl⟩ := List.mem_map.mp inside
    exact (mem_blockStatements.mp there).1
  unfold sweepBlock at done
  rw [filter_statements member] at done
  unfold BlockSwept
  dsimp only at done
  split at done
  next sequential =>
    obtain ⟨inside, relates⟩ := settle_swept distinct done
    refine ⟨fun pair there => ownBlock _ (inside pair there), fun region? agrees => ?_⟩
    rw [if_pos sequential]
    exact relates region? fun position there => agrees position (ownBlock position there)
  next parallel =>
    obtain ⟨live, same, inside, -, relates⟩ := Sweep.statements_swept distinct done
    have onlyLive : sweep.live = live := same.trans (List.append_nil live)
    rw [onlyLive]
    refine ⟨fun pair there => ownBlock _ (inside pair there), fun region? agrees => ?_⟩
    rw [if_neg parallel]
    have own := relates region? fun position there => agrees position (ownBlock position there)
    refine (own sweep.carried (.refl _)).reseed ?_
    exact fun read => Bool.false_and _

/-- How what is needed behind some blocks becomes what is needed before them. -/
inductive BlocksSwept (region? : Position → Option Extent) :
    List (Block × Nat) → Needs → Needs → Prop
  | nil (needs : Needs) : BlocksSwept region? [] needs needs
  | cons {block : Block} {b : Nat} {rest : List (Block × Nat)} {before middle behind : Needs}
      (here : BlockSwept region? block (blockStatements block b) before middle)
      (tail : BlocksSwept region? rest middle behind) :
      BlocksSwept region? ((block, b) :: rest) before behind

theorem BlockSwept.covered {region? : Position → Option Extent} {block : Block}
    {statements : List (Position × Statement)} {before behind : Needs}
    (swept : BlockSwept region? block statements before behind) : behind.Covered before := by
  unfold BlockSwept at swept
  split at swept
  · obtain ⟨atEnd, covered, inner⟩ := swept
    exact covered.trans inner.covered
  · exact swept.covered

theorem BlocksSwept.covered {region? : Position → Option Extent} {blocks : List (Block × Nat)}
    {before behind : Needs} (swept : BlocksSwept region? blocks before behind) :
    behind.Covered before := by
  induction swept with
  | nil needs => exact .refl needs
  | cons here _ ih => exact ih.trans here.covered

/-- Where a live statement of a block is computed and what it reads there is needed before the
block, and it is computed wherever its target is needed behind the block. -/
theorem BlockSwept.at_live {region? : Position → Option Extent} {block : Block}
    {statements : List (Position × Statement)} {before behind : Needs}
    (swept : BlockSwept region? block statements before behind) {position : Position}
    {statement : Statement} (member : (position, statement) ∈ statements) {extent : Extent}
    (live : region? position = some extent) :
    (∃ needed, extent = needed.horizontal ∧ before.Has statement.target needed ∧
        ∀ other, behind.Has statement.target other → other.Within needed) ∧
      ∀ read ∈ statement.reads, before.Has read.field
        (extent.moved (reach (read.isCarried block.writes block.policy) read.offset)) := by
  unfold BlockSwept at swept
  split at swept
  · obtain ⟨atEnd, covered, inner⟩ := swept
    obtain ⟨⟨needed, same, has, all⟩, reads⟩ := inner.at_live member live
    exact ⟨⟨needed, same, has, fun other behind => all other (covered _ _ behind)⟩, reads⟩
  next parallel =>
    have uncarried : ∀ read : Read, read.isCarried block.writes block.policy = false := by
      intro read
      cases policy : block.policy with
      | parallel => exact Bool.and_false _
      | forward => rw [policy] at parallel; exact absurd rfl parallel
      | backward => rw [policy] at parallel; exact absurd rfl parallel
    simp only [uncarried]
    exact swept.at_live member live

/-- Where a live statement is computed and what it reads there is needed before all blocks, and it is
computed wherever its target is needed behind them. -/
theorem BlocksSwept.at_live {region? : Position → Option Extent} {blocks : List (Block × Nat)}
    {before behind : Needs} (swept : BlocksSwept region? blocks before behind) {block : Block}
    {b : Nat} (inside : (block, b) ∈ blocks) {position : Position} {statement : Statement}
    (member : (position, statement) ∈ blockStatements block b) {extent : Extent}
    (live : region? position = some extent) :
    (∃ needed, extent = needed.horizontal ∧ before.Has statement.target needed ∧
        ∀ other, behind.Has statement.target other → other.Within needed) ∧
      ∀ read ∈ statement.reads, before.Has read.field
        (extent.moved (reach (read.isCarried block.writes block.policy) read.offset)) := by
  induction swept with
  | nil needs => cases inside
  | cons here tail ih =>
    rcases List.mem_cons.mp inside with first | later
    · cases first
      obtain ⟨⟨needed, same, has, all⟩, reads⟩ := here.at_live member live
      exact ⟨⟨needed, same, has, fun other behind => all other (tail.covered _ _ behind)⟩, reads⟩
    · obtain ⟨⟨needed, same, has, all'⟩, all⟩ := ih later
      exact ⟨⟨needed, same, here.covered _ _ has, all'⟩,
        fun read inside => here.covered _ _ (all read inside)⟩

/-- Whether and where a statement is computed is known from the sweep of its own block. -/
theorem lookup_live {own later : List (Position × Extent)} {b : Nat} {indices : List Nat}
    (here : ∀ pair ∈ own, pair.1.block = b) (there : ∀ pair ∈ later, pair.1.block ∈ indices)
    (distinct : b ∉ indices) (position : Position) :
    (position.block = b → (own ++ later).lookup position = own.lookup position) ∧
      (position.block ∈ indices → (own ++ later).lookup position = later.lookup position) := by
  rw [List.lookup_append]
  constructor
  · intro mine
    have none : later.lookup position = none := by
      rw [List.lookup_eq_none_iff]
      intro pair member
      rw [bne_iff_ne]
      rintro rfl
      exact distinct (mine ▸ there pair member)
    rw [none, Option.or_none]
  · intro other
    have none : own.lookup position = none := by
      rw [List.lookup_eq_none_iff]
      intro pair member
      rw [bne_iff_ne]
      rintro rfl
      exact distinct (here pair member ▸ other)
    rw [none, Option.none_or]

theorem blocks_swept {program : Program} {start demands : Demands} {blocks : List (Block × Nat)}
    (inside : ∀ pair ∈ blocks, pair ∈ program.blocks.zipIdx)
    (distinct : (blocks.map Prod.snd).Nodup)
    (fresh : start.live = []) (done : Demands.blocks program start blocks = .ok demands) :
    (∀ pair ∈ demands.live, pair.1.block ∈ blocks.map Prod.snd) ∧
      ∀ region? : Position → Option Extent,
        (∀ position, position.block ∈ blocks.map Prod.snd →
          region? position = demands.live.lookup position) →
        BlocksSwept region? blocks demands.needs start.needs := by
  induction blocks generalizing demands with
  | nil =>
    cases done
    rw [fresh]
    exact ⟨fun _ absurd => (nomatch absurd), fun _ _ => .nil _⟩
  | cons first rest ih =>
    obtain ⟨block, b⟩ := first
    rw [List.forall_mem_cons] at inside
    rw [List.map_cons, List.nodup_cons] at distinct
    unfold Demands.blocks at done
    obtain ⟨behind, doneRest, doneHere⟩ := Steps.bind_eq_ok.mp done
    obtain ⟨sweep, swept, same⟩ := Steps.bind_eq_ok.mp doneHere
    obtain ⟨later, relates⟩ := ih inside.2 distinct.2 doneRest
    obtain ⟨own, relatesHere⟩ := sweepBlock_swept inside.1 swept
    cases same
    dsimp only
    refine ⟨fun pair there => ?_, fun region? agrees =>
      @BlocksSwept.cons region? block b rest sweep.needs behind.needs start.needs ?_ ?_⟩
    · rw [List.map_cons, List.mem_cons]
      exact (List.mem_append.mp there).imp (own pair) (later pair)
    · refine relatesHere region? fun position here => ?_
      rw [agrees position (by rw [here]; exact List.mem_cons_self)]
      exact (lookup_live own later distinct.1 position).1 here
    · refine relates region? fun position there => ?_
      rw [agrees position (List.mem_cons_of_mem _ there)]
      exact (lookup_live own later distinct.1 position).2 there

/-! ### Programs -/

/-- What is listed for a declared field under its name, if anything is. -/
theorem lookup_filterMap {β : Type} (value : String → Option β) {fields : List Program.Field}
    {field : Program.Field} (member : field ∈ fields) :
    (fields.filterMap fun field => (value field.name).map fun b => (field.name, b)).lookup
      field.name = value field.name := by
  cases needed : value field.name with
  | none =>
    rw [List.lookup_eq_none_iff]
    intro pair there
    obtain ⟨other, -, kept⟩ := List.mem_filterMap.mp there
    obtain ⟨b, known, rfl⟩ := Option.map_eq_some_iff.mp kept
    rw [bne_iff_ne]
    intro same
    rw [same, known] at needed
    cases needed
  | some b =>
    induction fields with
    | nil => cases member
    | cons first rest ih =>
      by_cases same : first.name = field.name
      · rw [List.filterMap_cons_some (by rw [same, needed]; rfl), List.lookup_cons_self]
      · have tail := ih ((List.mem_cons.mp member).resolve_left fun absurd => same (absurd ▸ rfl))
        cases other : value first.name with
        | none =>
          rw [List.filterMap_cons_none (by rw [other]; rfl)]
          exact tail
        | some b' =>
          rw [List.filterMap_cons_some (by rw [other]; rfl), List.lookup_cons,
            beq_eq_false_iff_ne.mpr fun absurd => same absurd.symm]
          exact tail

/-- What a demand says of a declared field: what is needed of it at first, and its steps. -/
theorem lookup_fields {demands : Demands} {fields : List Program.Field} {field : Program.Field}
    (member : field ∈ fields) :
    (fields.filterMap fun field => (demands.needs.get? field.name).map fun extent =>
        (field.name, (⟨extent, demands.steps.get? field.name⟩ : FieldDemand))).lookup field.name =
      (demands.needs.get? field.name).map fun extent =>
        ⟨extent, demands.steps.get? field.name⟩ := by
  have listed := lookup_filterMap (fun name => (demands.needs.get? name).map fun extent =>
    (⟨extent, demands.steps.get? name⟩ : FieldDemand)) member
  simp only [Option.map_map] at listed
  exact listed

/-- **What a known demand says**: the live statements and their extents relate what is needed at
first to the outputs, and every declared field is accessed where it is needed at first. -/
theorem ofProgram?_swept {program : Program} {demand : Demand}
    (known : ofProgram? program = .ok demand) :
    ∃ needs, BlocksSwept demand.region? program.blocks.zipIdx needs (Demands.start program).needs ∧
      ∀ field ∈ program.fields, demand.extent? field.name = needs.get? field.name := by
  unfold ofProgram? at known
  obtain ⟨demands, done, same⟩ := Steps.bind_eq_ok.mp known
  have indices : (program.blocks.zipIdx.map Prod.snd).Nodup := by
    rw [List.zipIdx_map_snd]
    exact List.nodup_range'
  obtain ⟨-, relates⟩ := blocks_swept (fun _ member => member) indices rfl done
  rw [← Except.ok.inj same]
  refine ⟨demands.needs, relates _ fun _ _ => rfl, fun field member => ?_⟩
  refine (congrArg (Option.map FieldDemand.extent) (lookup_fields member)).trans ?_
  rw [Option.map_map]
  exact Option.map_id'

/-- The outputs are needed on the domain. -/
theorem start_output {program : Program} {field : Program.Field}
    (member : field ∈ program.outputs) :
    (Demands.start program).needs.get? field.name = some .zero := by
  have fold : ∀ (fields : List Program.Field) (table : Needs),
      (field ∈ fields ∨ table.get? field.name = some .zero) →
        ((fields.map fun field => (field.name, Extent.zero)).foldl
          (fun table pair => table.insert pair.1 pair.2) table).get? field.name = some .zero := by
    intro fields
    induction fields with
    | nil => exact fun table there => there.resolve_left (fun absurd => nomatch absurd)
    | cons first rest ih =>
      intro table there
      rw [List.map_cons, List.foldl_cons]
      refine ih _ ?_
      rw [Name.Table.get?_insert]
      by_cases same : field.name = first.name
      · exact .inr (if_pos same)
      · rw [if_neg same]
        exact there.imp_left fun inside =>
          (List.mem_cons.mp inside).resolve_left fun absurd => same (absurd ▸ rfl)
  exact fold program.outputs .empty (.inl member)

end Demand

end GridStencil
