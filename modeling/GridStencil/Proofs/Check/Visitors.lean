import GridStencil.Plan
import GridStencil.Traversal

/-!
**The checks are walks.**

A check can also be made part by part, by a visitor that walks over the program. `intervalVisitor`
judges the intervals of a block when the block is announced, and skips what it contains.
`orderingVisitor` remembers the fields that the announced block assigns, and judges every statement
of it. What they have found so far is kept on the way (`Adds`), and raises the planes of the context
when the walk ends.

* `walk_adds`: a walk whose blocks each add to what was found.
* `Pass.check_intervals_walk`, `Pass.check_ordering_walk`: what a walk of each visitor leaves behind
  is what the check says of the whole program.
-/

namespace GridStencil

namespace Traversal

open Program

/-! ### Walks along the parts of a program -/

variable {σ : Type}

/-- Steps for the numbers of some items, as steps for the items with their numbers. -/
theorem map_range_eq {α β : Type} {items : List α} {f : Nat → β} {g : α × Nat → β}
    (same : ∀ n item, items[n]? = some item → f n = g (item, n)) :
    (List.range items.length).map f = items.zipIdx.map g := by
  refine List.ext_getElem (by simp) fun n below _ => ?_
  have inside : n < items.length := by simpa using below
  simp [same n _ (List.getElem?_eq_getElem inside)]

theorem walkSection_eq (visit : Visitor σ) (b i : Nat) (part : Section) :
    walkSection visit .execution b i part.body.length =
      pop (andThen (visit (.part b i))
        (each (part.body.zipIdx.map fun (_, s) => visit (.statement ⟨b, i, s⟩)))) :=
  congrArg (fun steps => pop (andThen (visit (.part b i)) (each steps)))
    (map_range_eq fun _ _ _ => rfl)

theorem walkBlock_eq (visit : Visitor σ) (b : Nat) (block : Block) :
    walkBlock visit .execution b (block.sections.map (·.body.length)) =
      pop (andThen
        (andThen (visit (.block b))
          (each (block.sections.zipIdx.map fun (part, i) =>
            walkSection visit .execution b i part.body.length)))
        (visit (.blockEnd b))) := by
  unfold walkBlock
  rw [List.length_map]
  refine congrArg (fun steps => pop (andThen (andThen (visit (.block b)) (each steps))
    (visit (.blockEnd b)))) (map_range_eq fun i part there => ?_)
  rw [List.getD_eq_getElem?_getD, List.getElem?_map, there]
  rfl

theorem walkOutline_eq (visit : Visitor σ) (program : Program) :
    walkOutline visit .execution (outline program) =
      andThen
        (andThen (visit .start)
          (each (program.blocks.zipIdx.map fun (block, b) =>
            walkBlock visit .execution b (block.sections.map (·.body.length)))))
        (visit .finish) := by
  unfold walkOutline outline
  rw [List.length_map]
  refine congrArg (fun steps => andThen (andThen (visit .start) (each steps)) (visit .finish))
    (map_range_eq fun b block there => ?_)
  rw [List.getD_eq_getElem?_getD, List.getElem?_map, there]
  rfl

end Traversal

namespace Report

theorem join_none (report : Report) : report.join .none = report := by
  unfold join none
  rw [List.append_nil, Nat.max_zero]

theorem none_join (report : Report) : Report.none.join report = report := by
  unfold join none
  rw [List.nil_append, Nat.zero_max]

theorem join_assoc (a b c : Report) : (a.join b).join c = a.join (b.join c) := by
  unfold join
  rw [List.append_assoc, Nat.max_assoc]

end Report

namespace Check

open Program Traversal

/-! ### Visitors -/

/-- What a visitor keeps on its way. -/
structure Progress where
  /-- The fields that are assigned in the block in which the walk is. -/
  writes : List String
  found : Report
  context : Context

namespace Progress

/-- Before a walk. -/
def start (context : Context) : Progress := ⟨[], .none, context⟩

/-- One more report. -/
def add (progress : Progress) (report : Report) : Progress :=
  { progress with found := progress.found.join report }

/-- At the end of a walk. -/
def finish (progress : Progress) : Progress :=
  { progress with context := progress.context.raise progress.found.planes }

end Progress

/-- The visitor that checks the intervals of a program. -/
def intervalVisitor (program : Program) : Visitor Progress
  | .block b, progress =>
    (progress.add ((program.blocks[b]?).elim .none (checkBlockIntervals · b)), .ok .skipChildren)
  | .finish, progress => (progress.finish, .ok .proceed)
  | _, progress => (progress, .ok .proceed)

/-- What is wrong with the reads of a statement in a block that assigns `writes`. -/
def checkReads (writes : List String) (block : Block) (b : Nat) (interval : Interval)
    (statement : Statement) : Report :=
  (checkSelfReads block b statement).join
    (.joinAll ((statement.carriedReads writes block.policy).map
      (checkCarriedRead block b interval statement.span)))

/-- What is wrong with the reads of the statement at a position. -/
def checkAt (program : Program) (writes : List String) (position : Position) : Option Report := do
  let block ← program.blocks[position.block]?
  let part ← block.sections[position.part]?
  let statement ← part.body[position.statement]?
  return checkReads writes block position.block part.interval statement

/-- The visitor that checks the reads of a program. -/
def orderingVisitor (program : Program) : Visitor Progress
  | .block b, progress =>
    ({ progress with writes := (program.blocks[b]?).elim [] Block.writes }, .ok .proceed)
  | .statement position, progress =>
    (progress.add ((checkAt program progress.writes position).getD .none), .ok .proceed)
  | .finish, progress => (progress.finish, .ok .proceed)
  | _, progress => (progress, .ok .proceed)

/-! ### Steps that add to what was found -/

/-- Where `keep` holds, a step goes on with one more report, and `keep` holds again. -/
def Adds (keep : Progress → Prop) (step : Step Progress) (report : Report) : Prop :=
  ∀ progress, keep progress → ∃ after, step progress = (after, .ok .proceed) ∧ keep after ∧
    after.found = progress.found.join report ∧ after.context = progress.context

section Steps

variable {keep : Progress → Prop} {step : Step Progress} {report : Report}

theorem Adds.each {α : Type} {items : List α} {step : α → Step Progress} {report : α → Report}
    (adds : ∀ item ∈ items, Adds keep (step item) (report item)) :
    Adds keep (each (items.map step)) (.joinAll (items.map report)) := by
  induction items with
  | nil =>
    exact fun progress kept =>
      ⟨progress, rfl, kept, (Report.join_none progress.found).symm, rfl⟩
  | cons item rest ih =>
    obtain ⟨first, later⟩ := List.forall_mem_cons.mp adds
    intro progress kept
    obtain ⟨middle, here, kept, found, context⟩ := first progress kept
    obtain ⟨after, behind, kept, more, same⟩ := ih later middle kept
    refine ⟨after, ?_, kept, ?_, same.trans context⟩
    · rw [List.map_cons, Traversal.each]
      dsimp only
      rw [here]
      exact behind
    · rw [more, found, Report.join_assoc]
      rfl

theorem Adds.pop (adds : Adds keep step report) : Adds keep (pop step) report := by
  intro progress kept
  obtain ⟨after, here, rest⟩ := adds progress kept
  refine ⟨after, ?_, rest⟩
  unfold Traversal.pop
  rw [here]

/-- An announcement ahead of a step that the visitor answers by going on. -/
theorem Adds.behind {visit : Step Progress}
    (goesOn : ∀ progress, visit progress = (progress, .ok .proceed))
    (adds : Adds keep step report) : Adds keep (andThen visit step) report := by
  intro progress kept
  unfold andThen
  rw [goesOn]
  exact adds progress kept

/-- An announcement behind a step that the visitor answers by going on. -/
theorem Adds.ahead {visit : Step Progress}
    (goesOn : ∀ progress, visit progress = (progress, .ok .proceed))
    (adds : Adds keep step report) : Adds keep (andThen step visit) report := by
  intro progress kept
  obtain ⟨after, here, rest⟩ := adds progress kept
  refine ⟨after, ?_, rest⟩
  unfold andThen
  rw [here]
  exact goesOn after

end Steps

/-! ### Walks -/

/-- A walk whose blocks each add to what was found. -/
theorem walk_adds {visit : Visitor Progress} {report : Block → Nat → Report} (context : Context)
    (starts : ∀ progress, visit .start progress = (progress, .ok .proceed))
    (finishes : ∀ progress, visit .finish progress = (progress.finish, .ok .proceed))
    (blocks : ∀ b block, context.program.blocks[b]? = some block →
      Adds (fun _ => True) (walkBlock visit .execution b (block.sections.map (·.body.length)))
        (report block b)) :
    ∃ after, walk visit .execution none context.program (.start context) = (after, .ok ()) ∧
      after.found =
        .joinAll (context.program.blocks.zipIdx.map fun (block, b) => report block b) ∧
      after.context = context.raise after.found.planes := by
  have adds : Adds (fun _ => True) (andThen (visit .start)
      (each (context.program.blocks.zipIdx.map fun (block, b) =>
        walkBlock visit .execution b (block.sections.map (·.body.length)))))
      (.joinAll (context.program.blocks.zipIdx.map fun (block, b) => report block b)) := by
    refine (Adds.each ?_).behind starts
    rintro ⟨block, b⟩ member
    exact blocks b block (List.mem_zipIdx_iff_getElem?.mp member)
  obtain ⟨after, walked, -, found, same⟩ := adds (.start context) trivial
  refine ⟨after.finish, ?_, found.trans (Report.none_join _), ?_⟩
  · unfold walk
    rw [walkOutline_eq, andThen, walked]
    dsimp only
    rw [finishes]
  · show after.context.raise after.found.planes = _
    rw [same]
    rfl

theorem intervalVisitor_adds {program : Program} {b : Nat} {block : Block}
    (found : program.blocks[b]? = some block) (sections : List Nat) :
    Adds (fun _ => True) (walkBlock (intervalVisitor program) .execution b sections)
      (checkBlockIntervals block b) := by
  intro progress _
  refine ⟨progress.add (checkBlockIntervals block b), ?_, trivial, rfl, rfl⟩
  have answer : intervalVisitor program (.block b) progress =
      (progress.add (checkBlockIntervals block b), .ok .skipChildren) := by
    unfold intervalVisitor
    dsimp only
    rw [found]
    rfl
  unfold walkBlock pop andThen
  rw [answer]

theorem checkAt_eq {program : Program} {writes : List String} {b i s : Nat} {block : Block}
    {part : Section} {statement : Statement} (inProgram : program.blocks[b]? = some block)
    (inBlock : block.sections[i]? = some part) (inPart : part.body[s]? = some statement) :
    checkAt program writes ⟨b, i, s⟩ = some (checkReads writes block b part.interval statement) := by
  simp [checkAt, inProgram, inBlock, inPart]

/-- A section adds what is wrong with its reads, if the visitor remembers what the block assigns. -/
theorem orderingVisitor_section {program : Program} {b i : Nat} {block : Block} {part : Section}
    (inProgram : program.blocks[b]? = some block) (inBlock : block.sections[i]? = some part) :
    Adds (·.writes = block.writes)
      (walkSection (orderingVisitor program) .execution b i part.body.length)
      (.joinAll (part.body.zipIdx.map fun (statement, _) =>
        checkReads block.writes block b part.interval statement)) := by
  rw [walkSection_eq]
  refine ((Adds.each ?_).behind fun _ => rfl).pop
  rintro ⟨statement, s⟩ member progress writes
  have inPart := List.mem_zipIdx_iff_getElem?.mp member
  refine ⟨progress.add (checkReads block.writes block b part.interval statement), ?_, writes, rfl,
    rfl⟩
  unfold orderingVisitor
  dsimp only
  rw [checkAt_eq inProgram inBlock inPart, writes]
  rfl

theorem map_zipIdx_fst {α β : Type} (items : List α) (f : α → β) :
    (items.zipIdx.map fun (item, _) => f item) = items.map f :=
  List.map_map.symm.trans (congrArg (List.map f) (List.zipIdx_map_fst 0 items))

theorem orderingVisitor_adds {program : Program} {b : Nat} {block : Block}
    (found : program.blocks[b]? = some block) :
    Adds (fun _ => True)
      (walkBlock (orderingVisitor program) .execution b (block.sections.map (·.body.length)))
      (checkBlockReads block b) := by
  have sections : Adds (·.writes = block.writes)
      (each (block.sections.zipIdx.map fun (part, i) =>
        walkSection (orderingVisitor program) .execution b i part.body.length))
      (.joinAll (block.sections.zipIdx.map fun (part, _) => .joinAll (part.body.zipIdx.map
        fun (statement, _) => checkReads block.writes block b part.interval statement))) := by
    refine Adds.each ?_
    rintro ⟨part, i⟩ member
    exact orderingVisitor_section found (List.mem_zipIdx_iff_getElem?.mp member)
  have numbered : checkBlockReads block b =
      .joinAll (block.sections.zipIdx.map fun (part, _) => .joinAll (part.body.zipIdx.map
        fun (statement, _) => checkReads block.writes block b part.interval statement)) := by
    simp only [map_zipIdx_fst]
    exact congrArg Report.joinAll (map_zipIdx_fst block.sections fun part =>
      Report.joinAll (part.body.map (checkReads block.writes block b part.interval))).symm
  rw [walkBlock_eq, numbered]
  refine (Adds.ahead (fun _ => rfl) fun progress _ => ?_).pop
  obtain ⟨after, here, -, rest⟩ := sections { progress with writes := block.writes } rfl
  refine ⟨after, ?_, trivial, rest⟩
  have answer : orderingVisitor program (.block b) progress =
      ({ progress with writes := block.writes }, .ok .proceed) := by
    unfold orderingVisitor
    dsimp only
    rw [found]
    rfl
  unfold andThen
  rw [answer]
  exact here

end Check

namespace Pass

open Traversal (walk)

/-- **The check of intervals is a walk**: without an error it leaves the context and the findings of
the check behind. -/
theorem check_intervals_walk (context : Context) : ∃ after,
    walk (Check.intervalVisitor context.program) .execution none context.program (.start context) =
        (after, .ok ()) ∧
      Pass.check Check.intervals context =
        (after.context, after.found.diagnostics context.program.source) := by
  obtain ⟨after, walked, found, raised⟩ := Check.walk_adds context (fun _ => rfl)
    (fun _ => rfl) fun _ _ there => Check.intervalVisitor_adds there _
  refine ⟨after, walked, ?_⟩
  rw [raised, found]
  rfl

/-- **The check of reads is a walk**: without an error it leaves the context and the findings of the
check behind. -/
theorem check_ordering_walk (context : Context) : ∃ after,
    walk (Check.orderingVisitor context.program) .execution none context.program (.start context) =
        (after, .ok ()) ∧
      Pass.check Check.ordering context =
        (after.context, after.found.diagnostics context.program.source) := by
  obtain ⟨after, walked, found, raised⟩ := Check.walk_adds context (fun _ => rfl)
    (fun _ => rfl) fun _ _ there => Check.orderingVisitor_adds there
  refine ⟨after, walked, ?_⟩
  rw [raised, found]
  rfl

end Pass

end GridStencil
