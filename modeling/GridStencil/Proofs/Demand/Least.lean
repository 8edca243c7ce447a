import GridStencil.Proofs.Demand.Settled

/-!
**The demand of a program is the least solution of its demand equations.**

The blocks are swept from the last one to the first, and what is needed behind a block is what the
outputs and the live statements of the blocks behind it demand. Together with the settled blocks
this gives the equations of all statements; since a settled block computes no more than any solution
does, neither does the program.

* `Demand.ofProgram?_least`: the demand solves the equations and asks for no more than any other
  solution.
-/

namespace GridStencil

/-! ### The order of statements -/

namespace Program

theorem Position.before_irrefl (p : Position) : ¬ p.Before p := by
  simp [Position.Before]

theorem Position.before_asymm {p q : Position} (before : p.Before q) : ¬ q.Before p := by
  unfold Position.Before at *
  omega

theorem pairwise_snd_zipIdx {α : Type} (items : List α) :
    items.zipIdx.Pairwise fun a b => a.2 < b.2 := by
  have sorted : (items.zipIdx.map Prod.snd).Pairwise (· < ·) := by
    rw [List.zipIdx_map_snd]
    exact List.pairwise_lt_range'
  exact List.pairwise_map.mp sorted

/-- **The statements are listed in the order of their positions.** -/
theorem pairwise_statements (program : Program) :
    program.statements.Pairwise fun a b => a.1.Before b.1 := by
  refine List.pairwise_flatMap.mpr ⟨fun (block, b) _ => ?_, ?_⟩
  · refine List.pairwise_flatMap.mpr ⟨fun (part, i) _ => ?_, ?_⟩
    · refine List.pairwise_map.mpr ((pairwise_snd_zipIdx part.body).imp fun less => ?_)
      exact .inr ⟨rfl, .inr ⟨rfl, less⟩⟩
    · refine (pairwise_snd_zipIdx block.sections).imp fun less x inside y inside' => ?_
      obtain ⟨_, -, rfl⟩ := List.mem_map.mp inside
      obtain ⟨_, -, rfl⟩ := List.mem_map.mp inside'
      exact .inr ⟨rfl, .inl less⟩
  · refine (pairwise_snd_zipIdx program.blocks).imp fun less x inside y inside' => ?_
    have first : x.1.block = _ := (mem_blockStatements.mp inside).1
    have second : y.1.block = _ := (mem_blockStatements.mp inside').1
    rw [← first, ← second] at less
    exact .inl less

/-- The statements listed behind one are those whose positions come after it. -/
theorem mem_behind_iff {statements : List (Position × Statement)}
    (sorted : statements.Pairwise fun a b => a.1.Before b.1) {p q : Position} {s r : Statement}
    {rest : List (Position × Statement)} (suffix : (p, s) :: rest <:+ statements) :
    (q, r) ∈ rest ↔ (q, r) ∈ statements ∧ p.Before q := by
  obtain ⟨front, rfl⟩ := suffix
  rw [List.pairwise_append, List.pairwise_cons] at sorted
  obtain ⟨-, ⟨behind, -⟩, across⟩ := sorted
  constructor
  · intro later
    exact ⟨List.mem_append_right _ (List.mem_cons_of_mem _ later), behind _ later⟩
  · rintro ⟨member, before⟩
    rcases List.mem_append.mp member with earlier | here
    · exact absurd (across _ earlier _ List.mem_cons_self) (Position.before_asymm before)
    · rcases List.mem_cons.mp here with same | later
      · cases same
        exact absurd before (Position.before_irrefl p)
      · exact later

/-- The statements of some blocks. -/
def listed (blocks : List (Block × Nat)) : List (Position × Statement) :=
  blocks.flatMap fun (block, b) => blockStatements block b

end Program

namespace Demand

open Program Sweep

/-! ### Settled blocks one before another -/

/-- Blocks that are settled, each with what is needed behind it. -/
inductive BlocksSettled (program : Program) (compute : Position → Option Extent)
    (start : Demands) : List (Block × Nat) → Demands → Prop
  | nil : BlocksSettled program compute start [] start
  | cons {block : Block} {b : Nat} {rest : List (Block × Nat)} {behind : Demands} {sweep : Sweep}
      (member : (block, b) ∈ program.blocks.zipIdx)
      (here : Settled program.carries compute (blockStatements block b) behind.needs sweep)
      (tail : BlocksSettled program compute start rest behind) :
      BlocksSettled program compute start ((block, b) :: rest)
        ⟨sweep.needs, sweep.steps.entries.foldl (fun steps pair =>
          addStep (addStep steps pair.1 pair.2.lo) pair.1 pair.2.hi) behind.steps,
          sweep.live ++ behind.live⟩

theorem blocks_settled {program : Program} {start demands : Demands} {blocks : List (Block × Nat)}
    (inside : ∀ pair ∈ blocks, pair ∈ program.blocks.zipIdx)
    (distinct : (blocks.map Prod.snd).Nodup) (fresh : start.live = [])
    (done : Demands.blocks program start blocks = .ok demands)
    (compute : Position → Option Extent)
    (agrees : ∀ position, position.block ∈ blocks.map Prod.snd →
      compute position = demands.live.lookup position) :
    BlocksSettled program compute start blocks demands := by
  induction blocks generalizing demands with
  | nil =>
    cases done
    exact .nil
  | cons first rest ih =>
    obtain ⟨block, b⟩ := first
    rw [List.forall_mem_cons] at inside
    rw [List.map_cons, List.nodup_cons] at distinct
    unfold Demands.blocks at done
    obtain ⟨behind, doneRest, doneHere⟩ := Steps.bind_eq_ok.mp done
    obtain ⟨sweep, swept, same⟩ := Steps.bind_eq_ok.mp doneHere
    have later := (blocks_swept inside.2 distinct.2 fresh doneRest).1
    have own := (sweepBlock_swept inside.1 swept).1
    cases same
    refine .cons inside.1 (sweepBlock_settled inside.1 swept compute fun position here => ?_)
      (ih inside.2 distinct.2 doneRest fun position there => ?_)
    · have none : behind.live.lookup position = none := by
        rw [List.lookup_eq_none_iff]
        intro pair there
        rw [bne_iff_ne]
        rintro rfl
        exact distinct.1 (here ▸ later pair there)
      rw [agrees position (by rw [here]; exact List.mem_cons_self), List.lookup_append, none,
        Option.or_none]
    · have none : sweep.live.lookup position = none := by
        rw [List.lookup_eq_none_iff]
        intro pair here
        rw [bne_iff_ne]
        rintro rfl
        exact distinct.1 (own pair here ▸ there)
      rw [agrees position (List.mem_cons_of_mem _ there), List.lookup_append, none,
        Option.none_or]

section Blocks

variable {program : Program} {compute other : Position → Option Extent} {start demands : Demands}
  {blocks : List (Block × Nat)} {bound : Extent} {field : String}

theorem liveRead_append {first second : List (Position × Statement)} {reader : Position}
    {extent : Extent} {read : Read} :
    LiveRead compute (first ++ second) reader extent read ↔
      LiveRead compute first reader extent read ∨ LiveRead compute second reader extent read := by
  unfold LiveRead
  simp only [List.mem_append, or_and_right, exists_or, and_or_left]

theorem covers_readOn_append {carries : Position → Read → Bool}
    {first second : List (Position × Statement)} :
    bound.Covers (ReadOn carries compute (first ++ second) field) ↔
      bound.Covers (ReadOn carries compute first field) ∧
        bound.Covers (ReadOn carries compute second field) := by
  constructor
  · intro covers
    constructor
    · rintro _ ⟨reader, extent, read, live, same, rfl⟩
      exact covers _ ⟨reader, extent, read, liveRead_append.mpr (.inl live), same, rfl⟩
    · rintro _ ⟨reader, extent, read, live, same, rfl⟩
      exact covers _ ⟨reader, extent, read, liveRead_append.mpr (.inr live), same, rfl⟩
  · rintro ⟨left, right⟩ _ ⟨reader, extent, read, live, same, rfl⟩
    rcases liveRead_append.mp live with live | live
    · exact left _ ⟨reader, extent, read, live, same, rfl⟩
    · exact right _ ⟨reader, extent, read, live, same, rfl⟩

namespace BlocksSettled

/-- What is needed before some blocks is what is needed behind them and what they read. -/
theorem needs (settled : BlocksSettled program compute start blocks demands) :
    demands.needs.Inside field bound ↔ start.needs.Inside field bound ∧
      bound.Covers (ReadOn program.carries compute (listed blocks) field) := by
  induction settled with
  | nil =>
    refine ⟨fun inside => ⟨inside, ?_⟩, And.left⟩
    rintro _ ⟨_, _, _, ⟨-, _, absurd, -⟩, -⟩
    cases absurd
  | cons member here tail ih =>
    rw [here.needs, ih, and_assoc]
    refine and_congr_right fun _ => ?_
    rw [and_comm]
    exact covers_readOn_append.symm

/-- What is needed of a field before some blocks, as a hull. -/
theorem isHull_needs (settled : BlocksSettled program compute start blocks demands)
    (field : String) :
    IsHull (fun e => e ∈ start.needs.get? field ∨
      ReadOn program.carries compute (listed blocks) field e) (demands.needs.get? field) := by
  rw [IsHull.covers_iff]
  intro bound
  exact settled.needs.trans Extent.covers_or.symm

theorem steps (settled : BlocksSettled program compute start blocks demands)
    (fresh : start.steps = .empty) (field : String) :
    IsSpan (SteppedBy program.carries compute (listed blocks) field)
      (demands.steps.get? field) := by
  induction settled with
  | nil =>
    rw [fresh]
    rintro k ⟨_, _, _, ⟨-, _, absurd, -⟩, -⟩
    cases absurd
  | cons member here tail ih =>
    refine (isSpan_addSteps ih (here.steps field)).congr fun k => ?_
    constructor
    · rintro (⟨reader, extent, read, live, rest⟩ | ⟨reader, extent, read, live, rest⟩)
      · exact ⟨reader, extent, read, liveRead_append.mpr (.inr live), rest⟩
      · exact ⟨reader, extent, read, liveRead_append.mpr (.inl live), rest⟩
    · rintro ⟨reader, extent, read, live, rest⟩
      rcases liveRead_append.mp live with live | live
      · exact .inr ⟨reader, extent, read, live, rest⟩
      · exact .inl ⟨reader, extent, read, live, rest⟩

/-- **On what each statement is computed**: on the horizontal part of the hull of what the end
needs, what carried reads of its block read, and what the statements behind it read. -/
theorem computed (settled : BlocksSettled program compute start blocks demands)
    {position : Position} {statement : Statement} {rest : List (Position × Statement)}
    (suffix : (position, statement) :: rest <:+ listed blocks) :
    ∃ needed, compute position = needed.map Extent.horizontal ∧
      IsHull (fun e => (e ∈ start.needs.get? statement.target ∨
        CarriedOn program.carries compute (program.statements.filter (·.1.block = position.block))
          statement.target e) ∨ ReadOn program.carries compute rest statement.target e) needed := by
  induction settled with
  | nil => cases List.suffix_nil.mp suffix
  | @cons block b blocks behind sweep member here tail ih =>
    obtain ⟨front, split⟩ := suffix
    rcases List.append_eq_append_iff.mp split with ⟨more, same, later⟩ | ⟨more, -, same⟩
    · cases more with
      | nil =>
        rw [List.append_nil] at same
        exact ih ⟨[], later⟩
      | cons first between =>
        rw [List.cons_append, List.cons.injEq] at later
        obtain ⟨rfl, rfl⟩ := later
        have same : blockStatements block b = front ++ (position, statement) :: between := same
        have own : position.block = b := by
          have inside : (position, statement) ∈ blockStatements block b := by
            rw [same]
            exact List.mem_append_right _ List.mem_cons_self
          exact (mem_blockStatements.mp inside).1
        obtain ⟨needed, known, hull⟩ := here.computed position statement between ⟨front, same.symm⟩
        refine ⟨needed, known, IsHull.covers_iff.mpr fun bound => ?_⟩
        rw [IsHull.covers_iff.mp hull bound, own, filter_statements member]
        have atEnd := IsHull.covers_iff.mp (tail.isHull_needs statement.target) bound
        rw [Extent.covers_or, Extent.covers_or, atEnd, Extent.covers_or, Extent.covers_or,
          Extent.covers_or]
        refine Iff.trans ?_ (and_congr_right' covers_readOn_append.symm)
        constructor
        · rintro ⟨⟨⟨ends, far⟩, carried⟩, near⟩
          exact ⟨⟨ends, carried⟩, near, far⟩
        · rintro ⟨⟨ends, carried⟩, near, far⟩
          exact ⟨⟨⟨ends, far⟩, carried⟩, near⟩
    · exact ih ⟨more, same.symm⟩

end BlocksSettled

end Blocks

/-! ### The least solution -/

/-- Behind the last block, just the outputs are needed, on the domain. -/
theorem mem_start {program : Program} {field : String} {e : Extent} :
    e ∈ (Demands.start program).needs.get? field ↔
      e = .zero ∧ ∃ output ∈ program.outputs, output.name = field := by
  have fold : ∀ (fields : List Program.Field) (table : Needs),
      e ∈ ((fields.map fun field => (field.name, Extent.zero)).foldl
          (fun table pair => table.insert pair.1 pair.2) table).get? field →
        e ∈ table.get? field ∨ e = .zero ∧ ∃ output ∈ fields, output.name = field := by
    intro fields
    induction fields with
    | nil => exact fun table there => .inl there
    | cons first rest ih =>
      intro table there
      rcases ih _ there with known | ⟨same, output, member, named⟩
      · rw [Option.mem_def, Name.Table.get?_insert] at known
        by_cases same : field = first.name
        · rw [if_pos same] at known
          exact .inr ⟨(Option.some.inj known).symm, first, List.mem_cons_self, same.symm⟩
        · rw [if_neg same] at known
          exact .inl known
      · exact .inr ⟨same, output, List.mem_cons_of_mem _ member, named⟩
  constructor
  · intro there
    rcases fold program.outputs .empty there with absurd | found
    · cases absurd
    · exact found
  · rintro ⟨rfl, output, member, rfl⟩
    exact start_output member

section Solution

variable {program : Program} {compute : Position → Option Extent} {position : Position}
  {statement : Statement} {rest : List (Position × Statement)}

/-- **Within the plane, a statement is asked for what is demanded of it**: a carried read behind it
counts twice, which shows in the vertical offset only. -/
theorem planar_required_iff (suffix : (position, statement) :: rest <:+ program.statements)
    (e : Extent) :
    Extent.Planar (fun e => (e ∈ (Demands.start program).needs.get? statement.target ∨
      CarriedOn program.carries compute (program.statements.filter (·.1.block = position.block))
        statement.target e) ∨ ReadOn program.carries compute rest statement.target e) e ↔
      Extent.Planar (Required program compute position statement.target) e := by
  constructor
  · rintro ⟨whole, (there | ⟨reader, extent, read, ⟨live, other, member, inside⟩, same, carried, rfl⟩) |
      ⟨reader, extent, read, ⟨live, other, member, inside⟩, same, rfl⟩, rfl⟩
    · obtain ⟨rfl, output, member, named⟩ := mem_start.mp there
      exact ⟨_, .output member named, rfl⟩
    · obtain ⟨member, together⟩ := List.mem_filter.mp member
      exact ⟨_, .carried ⟨live, other, member, inside⟩ same (of_decide_eq_true together) carried,
        rfl⟩
    · obtain ⟨member, behind⟩ := (mem_behind_iff (pairwise_statements program) suffix).mp member
      exact ⟨_, .later ⟨live, other, member, inside⟩ same behind,
        Extent.horizontal_moved_reach _ _ _⟩
  · rintro ⟨whole, demanded, rfl⟩
    cases demanded with
    | output member named =>
      exact ⟨_, .inl (.inl (mem_start.mpr ⟨rfl, _, member, named⟩)), rfl⟩
    | @later reader extent read live same behind =>
      obtain ⟨live, other, member, inside⟩ := live
      have there := (mem_behind_iff (pairwise_statements program) suffix).mpr ⟨member, behind⟩
      exact ⟨_, .inr ⟨reader, extent, read, ⟨live, other, there, inside⟩, same, rfl⟩,
        (Extent.horizontal_moved_reach _ _ _).symm⟩
    | @carried reader extent read live same together carries =>
      obtain ⟨live, other, member, inside⟩ := live
      have there : (reader, other) ∈ program.statements.filter (·.1.block = position.block) :=
        List.mem_filter.mpr ⟨member, decide_eq_true together⟩
      exact ⟨_, .inl (.inr ⟨reader, extent, read, ⟨live, other, there, inside⟩, same, carries, rfl⟩),
        rfl⟩

/-- Some extents have a hull if all but finitely many of them come from reads. -/
theorem exists_hull_of_reads (compute : Position → Option Extent)
    (statements : List (Position × Statement)) {extents : Extent → Prop} (others : List Extent)
    (inside : ∀ e, extents e → e ∈ others ∨ ∃ reader extent read,
      LiveRead compute statements reader extent read ∧
        (e = extent.moved read.offset ∨ e = extent.moved read.offset.horizontal)) :
    ∃ needed, IsHull extents needed := by
  refine IsHull.exists_of_list _ (others ++ statements.flatMap fun (reader, statement) =>
    (compute reader).toList.flatMap fun extent => statement.reads.flatMap fun read =>
      [extent.moved read.offset, extent.moved read.offset.horizontal]) fun e there => ?_
  rcases inside e there with known | ⟨reader, extent, read, ⟨live, statement, member, made⟩, same⟩
  · exact List.mem_append_left _ known
  refine List.mem_append_right _ (List.mem_flatMap.mpr ⟨(reader, statement), member, ?_⟩)
  refine List.mem_flatMap.mpr ⟨extent, Option.mem_toList.mpr live, ?_⟩
  refine List.mem_flatMap.mpr ⟨read, made, ?_⟩
  rcases same with rfl | rfl
  · exact List.mem_cons_self
  · exact List.mem_cons_of_mem _ List.mem_cons_self

/-- What is demanded of a statement has a hull, since there are finitely many reads. -/
theorem exists_hull_required (program : Program) (compute : Position → Option Extent)
    (position : Position) (target : String) :
    ∃ needed, IsHull (Required program compute position target) needed := by
  refine exists_hull_of_reads compute program.statements [.zero] fun e demanded => ?_
  cases demanded with
  | output => exact .inl List.mem_cons_self
  | later live => exact .inr ⟨_, _, _, live, .inl rfl⟩
  | carried live => exact .inr ⟨_, _, _, live, .inr rfl⟩

/-- **The blocks of a program compute no more than any solution of its demand equations.** -/
theorem BlocksSettled.atMost {demands : Demands} {blocks : List (Block × Nat)} {a : Valuation}
    (settled : BlocksSettled program compute (.start program) blocks demands)
    (suffix : blocks <:+ program.blocks.zipIdx) (solves : Solves program a) :
    ∀ position ∈ (listed blocks).map Prod.fst,
      Extent.AtMost (compute position) (a.compute position) := by
  induction settled with
  | nil => exact fun _ absurd => (nomatch absurd)
  | @cons block b blocks behind sweep member here tail ih =>
    have later := ih ((List.suffix_cons _ _).trans suffix)
    have own : ∀ position ∈ (blockStatements block b).map Prod.fst,
        Extent.AtMost (compute position) (a.compute position) := by
      refine here.below a.compute (fun field e => e ∈ (Demands.start program).needs.get? field ∨
        ReadOn program.carries a.compute (listed blocks) field e) ?_ ?_
      · intro field bound covers
        refine ((tail.isHull_needs field).covers_planar_iff bound).mpr ?_
        rintro _ ⟨whole, there | there, rfl⟩
        · exact covers _ ⟨whole, .inl there, rfl⟩
        · obtain ⟨larger, read, within⟩ := readOn_atMost later there
          exact within.horizontal.trans (covers _ ⟨larger, .inr read, rfl⟩)
      · intro position statement rest inside e there
        have whole : (position, statement) :: (rest ++ listed blocks) <:+ program.statements := by
          obtain ⟨front, split⟩ := suffix
          obtain ⟨first, parts⟩ := inside
          refine ⟨listed front ++ first, ?_⟩
          have same : program.statements = listed front ++ (blockStatements block b ++
              listed blocks) := by
            show listed program.blocks.zipIdx = _
            rw [← split]
            exact List.flatMap_append
          rw [same, ← parts]
          simp
        have block' : position.block = b :=
          (mem_blockStatements.mp (inside.mem List.mem_cons_self)).1
        obtain ⟨needed, hull, known⟩ :=
          solves.statements position statement (whole.mem List.mem_cons_self)
        have asked : Extent.Planar (Required program a.compute position statement.target)
            e.horizontal := by
          refine (planar_required_iff whole _).mp ⟨e, ?_, rfl⟩
          rw [block', filter_statements member]
          rcases there with ((start | read) | carried) | read
          · exact .inl (.inl start)
          · obtain ⟨reader, extent, read, live, same, rfl⟩ := read
            exact .inr ⟨reader, extent, read, liveRead_append.mpr (.inr live), same, rfl⟩
          · exact .inl (.inr carried)
          · obtain ⟨reader, extent, read, live, same, rfl⟩ := read
            exact .inr ⟨reader, extent, read, liveRead_append.mpr (.inl live), same, rfl⟩
        obtain ⟨demand, demanded, same⟩ := asked
        cases needed with
        | none => exact absurd demanded (hull demand)
        | some needed =>
          exact ⟨_, known, same ▸ (hull.2.1 demand demanded).horizontal⟩
    intro position there
    obtain ⟨⟨position, statement⟩, inside, rfl⟩ := List.mem_map.mp there
    rcases List.mem_append.mp inside with first | rest
    · exact own _ (List.mem_map.mpr ⟨_, first, rfl⟩)
    · exact later _ (List.mem_map.mpr ⟨_, rest, rfl⟩)

/-- What more live statements on larger extents read is at least what fewer do. -/
theorem liveRead_atMost {other : Position → Option Extent} {reader : Position} {extent : Extent}
    {read : Read} (below : ∀ position statement, (position, statement) ∈ program.statements →
      Extent.AtMost (compute position) (other position))
    (live : LiveRead compute program.statements reader extent read) :
    ∃ larger, LiveRead other program.statements reader larger read ∧ extent.Within larger := by
  obtain ⟨live, statement, member, inside⟩ := live
  obtain ⟨larger, live', within⟩ := below reader statement member extent live
  exact ⟨larger, ⟨live', statement, member, inside⟩, within⟩

/-- Solutions of the equations are compared by their statements. -/
theorem Solves.below {a b : Valuation} (solves : Solves program a) (solves' : Solves program b)
    (statements : ∀ position statement, (position, statement) ∈ program.statements →
      Extent.AtMost (a.compute position) (b.compute position)) : Below program a b := by
  refine ⟨statements, fun field member => ?_, fun field member r there => ?_⟩
  · refine Extent.atMost_iff.mpr fun bound covers => ?_
    have covered := (IsHull.covers_iff.mp (solves'.fields field member) bound).mp covers
    refine (IsHull.covers_iff.mp (solves.fields field member) bound).mpr fun e accessed => ?_
    cases accessed with
    | output member same => exact covered _ (.output member same)
    | read live same =>
      obtain ⟨larger, live', within⟩ := liveRead_atMost statements live
      exact (within.moved _).trans (covered _ (.read live' same))
  · have stepped : ∀ k, Stepped program a.compute field.name k →
        Stepped program b.compute field.name k := by
      intro k step
      cases step with
      | read live same carries =>
        obtain ⟨larger, live', -⟩ := liveRead_atMost statements live
        exact .read live' same carries
    have span := solves.carried field member
    have span' := solves'.carried field member
    rw [there] at span
    obtain ⟨low, high, -⟩ := span
    cases wider : b.carried field.name with
    | none =>
      rw [wider] at span'
      exact absurd (stepped _ low) (span' _)
    | some range =>
      rw [wider] at span'
      exact ⟨range, rfl, (span'.2.2 _ (stepped _ low)).1, (span'.2.2 _ (stepped _ high)).2⟩

/-- **A demand solves the demand equations of its program.** -/
theorem valuation_solves {demand : Demand} {demands : Demands}
    (settled : BlocksSettled program demand.region? (.start program) program.blocks.zipIdx demands)
    (fields : ∀ field ∈ program.fields, demand.field? field.name =
      (demands.needs.get? field.name).map fun extent =>
        ⟨extent, demands.steps.get? field.name⟩) :
    Solves program demand.valuation := by
  have accessed : ∀ field, IsHull (Accessed program demand.region? field)
      (demands.needs.get? field) := by
    intro field
    refine (settled.isHull_needs field).congr fun e => ⟨?_, fun there => ?_⟩
    · rintro (start | ⟨reader, extent, read, live, same, rfl⟩)
      · obtain ⟨rfl, output, member, named⟩ := mem_start.mp start
        exact .output member named
      · exact .read live same
    · cases there with
      | output member named => exact .inl (mem_start.mpr ⟨rfl, _, member, named⟩)
      | read live same => exact .inr ⟨_, _, _, live, same, rfl⟩
  refine ⟨fun position statement member => ?_, fun field member => ?_, fun field member => ?_⟩
  · obtain ⟨front, rest, split⟩ := List.append_of_mem member
    have suffix : (position, statement) :: rest <:+ program.statements := ⟨front, split.symm⟩
    obtain ⟨needed, known, hull⟩ := settled.computed suffix
    obtain ⟨needed', hull'⟩ :=
      exists_hull_required program demand.region? position statement.target
    refine ⟨needed', hull', known.trans ?_⟩
    exact (hull.horizontal.congr (planar_required_iff suffix)).unique hull'.horizontal
  · have same : demand.extent? field.name = demands.needs.get? field.name := by
      refine (congrArg (Option.map FieldDemand.extent) (fields field member)).trans ?_
      rw [Option.map_map]
      exact Option.map_id'
    show IsHull _ (demand.extent? field.name)
    rw [same]
    exact accessed field.name
  · have span : IsSpan (Stepped program demand.region? field.name)
        (demands.steps.get? field.name) := by
      refine (settled.steps rfl field.name).congr fun k => ⟨?_, fun step => ?_⟩
      · rintro ⟨reader, extent, read, live, same, carried, rfl⟩
        exact .read live same carried
      · cases step with
        | read live same carries => exact ⟨_, _, _, live, same, carries, rfl⟩
    show IsSpan _ ((demand.field? field.name).bind FieldDemand.carried)
    rw [fields field member]
    cases needed : demands.needs.get? field.name with
    | some extent => exact span
    | none =>
      have hull := accessed field.name
      rw [needed] at hull
      intro k step
      cases step with
      | read live same carries => exact hull _ (.read live same)

/-- **The demand of a program is the least solution of its demand equations.** Whenever it is known,
it solves them, and it asks for no more than any other solution: no statement is live in vain, and
no extent is larger than it has to be. -/
theorem ofProgram?_least {program : Program} {demand : Demand}
    (known : ofProgram? program = .ok demand) :
    Solves program demand.valuation ∧
      ∀ other, Solves program other → Below program demand.valuation other := by
  unfold ofProgram? at known
  obtain ⟨demands, done, same⟩ := Steps.bind_eq_ok.mp known
  cases same
  have indices : (program.blocks.zipIdx.map Prod.snd).Nodup := by
    rw [List.zipIdx_map_snd]
    exact List.nodup_range'
  have settled := blocks_settled (fun _ member => member) indices rfl done
    (fun position => demands.live.lookup position) fun _ _ => rfl
  have solves : Solves program (valuation ⟨_, demands.live, program.statements.length⟩) :=
    valuation_solves settled fun field member => lookup_fields member
  refine ⟨solves, fun other solves' => solves.below solves' fun position statement member => ?_⟩
  exact settled.atMost (List.suffix_refl _) solves' position (List.mem_map.mpr ⟨_, member, rfl⟩)

end Solution

/-- A block that reads `t` one point to the right on the plane before, from a statement that stands
behind the read, and assigns `d` in vain. -/
def shifted : Program where
  source := ⟨"", ""⟩
  name := "shifted"
  fields := [⟨"a", .f64, .ijk, .input⟩, ⟨"b", .f64, .ijk, .output⟩, ⟨"t", .f64, .ijk, .temporary⟩,
    ⟨"d", .f64, .ijk, .temporary⟩]
  scalars := []
  blocks := [⟨.forward, [⟨.full, [
    ⟨"b", .field "t" ⟨1, 0, -1⟩, ⟨0, 0⟩⟩,
    ⟨"t", .field "a" ⟨0, -1, 0⟩, ⟨0, 0⟩⟩,
    ⟨"d", .field "a" ⟨0, 0, 5⟩, ⟨0, 0⟩⟩], ⟨0, 0⟩⟩], ⟨0, 0⟩⟩]

/-- The least solution for a program whose demands go against the order of its statements. -/
theorem ofProgram?_least_shifted : ∃ demand, ofProgram? shifted = .ok demand ∧
    demand.region? ⟨0, 0, 1⟩ = some ⟨⟨1, 1⟩, ⟨0, 0⟩, ⟨0, 0⟩⟩ ∧ demand.isDead ⟨0, 0, 2⟩ = true ∧
    Solves shifted demand.valuation ∧
      ∀ other, Solves shifted other → Below shifted demand.valuation other := by
  have known : (ofProgram? shifted).toOption.map (fun demand =>
      (demand.region? ⟨0, 0, 1⟩, demand.isDead ⟨0, 0, 2⟩)) =
        some (some ⟨⟨1, 1⟩, ⟨0, 0⟩, ⟨0, 0⟩⟩, true) := by decide +kernel
  cases found : ofProgram? shifted with
  | error fault =>
    rw [found] at known
    cases known
  | ok demand =>
    rw [found] at known
    obtain ⟨region, dead⟩ := Prod.mk.inj (Option.some.inj known)
    exact ⟨demand, rfl, region, dead, ofProgram?_least found⟩

end Demand

end GridStencil
