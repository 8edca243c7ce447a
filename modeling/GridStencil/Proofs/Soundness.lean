import GridStencil.Proofs.Halo
import GridStencil.Proofs.Reference

/-!
**Which values matter at each place of an execution.**

A demand is sound for some assignments if it tells, for every place between them, at which points
the values still matter, such that an assignment is computed wherever its target matters behind it,
and what it reads there matters before it (`Sound`). Of a known demand this is so:

* In a parallel block, what is needed at a place of the text matters on all planes.
* In a sequential block it depends on the plane. On the current one, what is needed at the place of
  the text matters. On the planes that were visited before, what is needed at the end of the block
  matters; this is enough, because carried reads are needed at the end, too. On the planes still to
  come, what is needed before the block matters.

The main result is `Program.assignments_sound`.
-/

namespace GridStencil

open Program

/-- The points of fields whose values matter at some place. -/
abbrev Demanded := String → Offset → Prop

/-! ### Sound demands -/

/-- What matters before and behind an assignment. -/
structure Program.Assignment.Sound (domain : PerAxis Nat) (assignment : Assignment)
    (before after : Demanded) : Prop where
  /-- Whatever matters behind the assignment and is not assigned matters before it. -/
  kept : ∀ field p, after field p →
    ¬ (field = assignment.statement.target ∧ p.k ∈ assignment.planes.toList) → before field p
  /-- The assignment is computed wherever its target matters. -/
  computed : ∀ p, after assignment.statement.target p → p.k ∈ assignment.planes.toList →
    ∃ extent, assignment.extent = some extent ∧
      p ∈ (Region.grown extent domain assignment.planes).points
  /-- What is read where the assignment is computed matters before it. -/
  reads : ∀ job, assignment.job? domain = some job → ∀ p ∈ job.region.points,
    ∀ read ∈ job.statement.reads, before read.field (p.add read.offset)

/-- What a dead statement would assign does not matter behind it. -/
theorem Program.Assignment.Sound.not_matters_of_dead {domain : PerAxis Nat}
    {assignment : Assignment} {before after : Demanded}
    (sound : assignment.Sound domain before after) (dead : assignment.job? domain = none)
    {p : Offset} (matters : after assignment.statement.target p) :
    p.k ∉ assignment.planes.toList := by
  intro plane
  obtain ⟨extent, live, -⟩ := sound.computed p matters plane
  cases dead.symm.trans (Assignment.job?_of_live domain live)

/-- What matters before and behind some assignments. -/
inductive Sound (domain : PerAxis Nat) : List Assignment → Demanded → Demanded → Prop
  | nil {before after : Demanded} (less : ∀ field p, after field p → before field p) :
      Sound domain [] before after
  | cons {assignment : Assignment} {rest : List Assignment} {before middle after : Demanded}
      (here : assignment.Sound domain before middle) (tail : Sound domain rest middle after) :
      Sound domain (assignment :: rest) before after

namespace Sound

variable {domain : PerAxis Nat} {first second : List Assignment}
  {before middle after : Demanded}

/-- More may matter before some assignments, and less behind them. -/
theorem weaken (sound : Sound domain first before after) {more less : Demanded}
    (larger : ∀ field p, before field p → more field p)
    (smaller : ∀ field p, less field p → after field p) : Sound domain first more less := by
  induction sound generalizing more with
  | nil inside => exact .nil fun field p small => larger _ _ (inside _ _ (smaller _ _ small))
  | cons here _ ih =>
    refine .cons ⟨fun field p matters other => larger _ _ (here.kept field p matters other),
      here.computed, fun job known p inside read member => ?_⟩ (ih (fun _ _ => id) smaller)
    exact larger _ _ (here.reads job known p inside read member)

theorem append (left : Sound domain first before middle)
    (right : Sound domain second middle after) : Sound domain (first ++ second) before after := by
  induction left with
  | nil less => exact right.weaken less fun _ _ => id
  | cons here _ ih => exact .cons here (ih right)

/-- Points that no computed assignment reads never matter. -/
theorem within (sound : Sound domain first before after) {bounds : Demanded}
    (inside : ∀ job ∈ first.filterMap (Assignment.job? domain), ∀ p ∈ job.region.points,
      ∀ read ∈ job.statement.reads, bounds read.field (p.add read.offset)) :
    Sound domain first (fun field p => before field p ∧ bounds field p)
      (fun field p => after field p ∧ bounds field p) := by
  induction sound with
  | nil less => exact .nil fun field p both => ⟨less field p both.1, both.2⟩
  | @cons assignment rest before middle after here _ ih =>
    refine .cons ⟨fun field p both other => ⟨here.kept field p both.1 other, both.2⟩,
      fun p both => here.computed p both.1, fun job known p member read isRead => ?_⟩
      (ih fun job member => inside job ?_)
    · refine ⟨here.reads job known p member read isRead, inside job ?_ p member read isRead⟩
      rw [List.filterMap_cons_some known]
      exact List.mem_cons_self
    · rw [List.filterMap_cons]
      split
      · exact member
      · exact List.mem_cons_of_mem _ member

end Sound

/-! ### Needs -/

namespace Demand

/-- The points of the grid around a domain at which a field is needed, on any plane. -/
def Needs.Reaches (needs : Needs) (domain : PerAxis Nat) : Demanded := fun field p =>
  ∃ extent, needs.get? field = some extent ∧
    (extent.i.lo ≤ p.i ∧ p.i < domain.i + extent.i.hi) ∧
    (extent.j.lo ≤ p.j ∧ p.j < domain.j + extent.j.hi)

namespace Needs

theorem Covered.reaches {needs more : Needs} (covered : needs.Covered more) (domain : PerAxis Nat)
    (field : String) (p : Offset) (reached : needs.Reaches domain field p) :
    more.Reaches domain field p := by
  obtain ⟨extent, known, i, j⟩ := reached
  obtain ⟨whole, found, within⟩ := covered field extent (has_of_get? known)
  have withinI := within.i
  have withinJ := within.j
  exact ⟨whole, found, by omega, by omega⟩

/-- A field that is needed on an extent, moved by some offset, is needed at all points of the extent
around the domain, moved by this offset. -/
theorem Has.reaches {needs : Needs} {field : String} {extent : Extent} {offset step : Offset}
    (has : needs.Has field (extent.moved step)) (sameI : step.i = offset.i)
    (sameJ : step.j = offset.j) {domain : PerAxis Nat} {p : Offset}
    (i : extent.i.lo ≤ p.i ∧ p.i < domain.i + extent.i.hi)
    (j : extent.j.lo ≤ p.j ∧ p.j < domain.j + extent.j.hi) :
    needs.Reaches domain field (p.add offset) := by
  obtain ⟨whole, found, within⟩ := has
  have withinI := within.i
  have withinJ := within.j
  simp only [Extent.moved] at withinI withinJ
  refine ⟨whole, found, ?_, ?_⟩
  · simp only [Offset.add]
    omega
  · simp only [Offset.add]
    omega

end Needs

theorem reach_horizontal (carried : Bool) (offset : Offset) :
    (reach carried offset).i = offset.i ∧ (reach carried offset).j = offset.j := by
  cases carried <;> exact ⟨rfl, rfl⟩

end Demand

namespace Program

open Demand

variable {demand : Demand} {domain : PerAxis Nat}

/-! ### Statements -/

/-- What matters at a place where `needs` are needed `now`, and `other` points elsewhere. -/
def Matters (domain : PerAxis Nat) (now other : Demanded) (needs : Needs) : Demanded :=
  fun field p => (now field p → needs.Reaches domain field p) ∧ (¬ now field p → other field p)

theorem Matters.mono {now other : Demanded} {a b : Needs} (covered : a.Covered b)
    (field : String) (p : Offset) (matters : Matters domain now other a field p) :
    Matters domain now other b field p :=
  ⟨fun here => covered.reaches domain field p (matters.1 here), matters.2⟩

/-- **Demands of statements on some planes are sound** if these planes are all `now`, and everything
read elsewhere matters there. -/
theorem assignmentsOn_sound (small : domain.Small) {carried : Read → Bool}
    {seeds top before behind : Needs} {planes : Stretch} {statements : List (Position × Statement)}
    (swept : Swept demand.region? carried seeds statements before behind)
    (inside : before.Covered top) (now other : Demanded)
    (own : ∀ statement ∈ statements.map Prod.snd, ∀ p, p.k ∈ planes.toList →
      now statement.target p)
    (elsewhere : ∀ read extent p, p ∈ (Region.grown extent domain planes).points →
      top.Has read.field (extent.moved (reach (carried read) read.offset)) →
      (carried read = true → seeds.Has read.field (extent.moved read.offset.horizontal)) →
      ¬ now read.field (p.add read.offset) → other read.field (p.add read.offset)) :
    Sound domain (assignmentsOn demand planes statements) (Matters domain now other before)
      (Matters domain now other behind) := by
  induction swept with
  | nil needs => exact .nil fun _ _ => id
  | @dead position statement rest before behind unknown unneeded _ ih =>
    rw [List.map_cons, List.forall_mem_cons] at own
    refine .cons ⟨fun field p matters _ => matters, fun p matters plane => ?_, ?_⟩
      (ih inside own.2)
    · obtain ⟨extent, needed, -⟩ := matters.1 (own.1 p plane)
      rw [show before.get? statement.target = some extent from needed] at unneeded
      cases unneeded
    · intro job isJob
      have known : (demand.region? position).map (fun extent =>
        (⟨statement, .grown extent domain planes⟩ : Job)) = some job := isJob
      rw [unknown] at known
      cases known
  | @live position statement rest before middle behind needed known target covered reads seeded _
      ih =>
    rw [List.map_cons, List.forall_mem_cons] at own
    refine .cons ⟨fun field p matters _ => matters.mono covered field p, fun p matters plane => ?_,
      fun job isJob p point read isRead => ?_⟩ (ih (covered.trans inside) own.2)
    · obtain ⟨extent, there, i, j⟩ := matters.1 (own.1 p plane)
      obtain rfl : needed = extent := Option.some.inj (target.symm.trans there)
      exact ⟨_, known, (Region.mem_grown small).mpr ⟨i, j, plane⟩⟩
    · have same : (demand.region? position).map (fun extent =>
        (⟨statement, .grown extent domain planes⟩ : Job)) = some job := isJob
      rw [known] at same
      obtain rfl := Option.some.inj same
      obtain ⟨i, j, -⟩ := (Region.mem_grown small).mp point
      have has := reads read isRead
      obtain ⟨sameI, sameJ⟩ := reach_horizontal (carried read) read.offset
      exact ⟨fun _ => has.reaches sameI sameJ i j,
        elsewhere read _ p point (inside _ _ has) (seeded read isRead)⟩

/-! ### Blocks -/

/-- **Demands of a parallel block are sound.** -/
theorem parallel_sound (small : domain.Small) {policy : Policy}
    (parallel : policy.isSequential = false) (b : Nat) {parts : List (Section × Nat)}
    {before behind : Needs}
    (swept : Swept demand.region? (fun _ => false) .empty
      (parts.flatMap fun part => positioned b part.2 part.1.body) before behind) :
    Sound domain (parts.flatMap (sectionAssignments demand domain policy b))
      (before.Reaches domain) (behind.Reaches domain) := by
  induction parts generalizing before with
  | nil =>
    cases swept
    exact .nil fun _ _ => id
  | cons part rest ih =>
    rw [List.flatMap_cons] at swept
    obtain ⟨middle, here, tail⟩ := swept.append_inv
    rw [List.flatMap_cons]
    refine .append ?_ (ih tail)
    unfold sectionAssignments turns
    rw [parallel, if_neg Bool.false_ne_true, List.flatMap_singleton]
    refine (assignmentsOn_sound small here (.refl before) (fun _ _ => True) (fun _ _ => False)
      (fun _ _ _ _ => trivial) fun _ _ _ _ _ _ absurd => absurd trivial).weaken ?_ ?_
    · exact fun field p matters => matters.1 trivial
    · exact fun field p reached => ⟨fun _ => reached, fun absurd => absurd trivial⟩

section Sequential

variable (domain) (block : Block) (before atEnd : Needs)

/-- What matters in a sequential block between the statements on plane `k`, apart from what the
block assigns on this plane. -/
def offPlane (k : Int) : Demanded := fun field p =>
  if field ∈ block.writes ∧ block.policy.visitsBefore (p.k - k) = true then
    atEnd.Reaches domain field p
  else before.Reaches domain field p

/-- What matters before plane `k` of a sequential block. -/
def beforePlane (k : Int) : Demanded :=
  Matters domain (fun field p => field ∈ block.writes ∧ p.k = k)
    (offPlane domain block before atEnd k) before

/-- What matters behind plane `k` of a sequential block. -/
def behindPlane (k : Int) : Demanded :=
  Matters domain (fun field p => field ∈ block.writes ∧ p.k = k)
    (offPlane domain block before atEnd k) atEnd

end Sequential

section Sequential

variable {block : Block} {b : Nat} {before atEnd : Needs}

theorem mem_writes {block : Block} {part : Section} (inBlock : part ∈ block.sections)
    {statement : Statement} (inPart : statement ∈ part.body) :
    statement.target ∈ block.writes :=
  List.mem_eraseDups.mpr
    (List.mem_map_of_mem (List.mem_flatMap.mpr ⟨part, inBlock, inPart⟩))

/-- **Demands of a sequential block are sound on every plane.** -/
theorem plane_sound (small : domain.Small)
    (swept : Swept demand.region? (·.isCarried block.writes block.policy) atEnd
      (blockStatements block b) before atEnd) {part : Section × Nat}
    (inside : part ∈ block.sections.zipIdx) (k : Int) :
    Sound domain (assignmentsOn demand ⟨k, k + 1⟩ (positioned b part.2 part.1.body))
      (beforePlane domain block before atEnd k) (behindPlane domain block before atEnd k) := by
  obtain ⟨first, last, enters, leaves, here⟩ := swept.segment inside
  have inBlock := List.mem_of_getElem? (List.mk_mem_zipIdx_iff_getElem?.mp inside)
  refine (assignmentsOn_sound small here enters
    (fun field p => field ∈ block.writes ∧ p.k = k) (offPlane domain block before atEnd k)
    ?_ ?_).weaken ?_ ?_
  · intro statement isStatement p plane
    obtain ⟨⟨position, _⟩, there, rfl⟩ := List.mem_map.mp isStatement
    refine ⟨mem_writes inBlock (List.mem_of_getElem? (mem_positioned.mp there).2.2), ?_⟩
    obtain ⟨above, below⟩ := Stretch.mem_toList.mp plane
    simp only at above below
    omega
  · intro read extent p point has seeded elsewhere
    obtain ⟨i, j, plane⟩ := (Region.mem_grown small).mp point
    obtain ⟨above, below⟩ := Stretch.mem_toList.mp plane
    simp only at above below
    have step : (p.add read.offset).k - k = read.offset.k := by
      simp only [Offset.add]
      omega
    unfold offPlane
    rw [step]
    split
    next visited =>
      have carried : read.isCarried block.writes block.policy = true :=
        Bool.and_eq_true_iff.mpr ⟨List.contains_iff_mem.mpr visited.1, visited.2⟩
      exact (seeded carried).reaches rfl rfl i j
    · obtain ⟨sameI, sameJ⟩ :=
        reach_horizontal (read.isCarried block.writes block.policy) read.offset
      exact has.reaches sameI sameJ i j
  · exact fun field p => Matters.mono enters field p
  · exact fun field p => Matters.mono leaves field p

theorem beforePlane_reaches (covered : atEnd.Covered before) {k : Int} {field : String} {p : Offset}
    (matters : beforePlane domain block before atEnd k field p) :
    before.Reaches domain field p := by
  by_cases here : field ∈ block.writes ∧ p.k = k
  · exact matters.1 here
  · have there := matters.2 here
    unfold offPlane at there
    split at there
    · exact covered.reaches domain field p there
    · exact there

/-- What matters before a plane matters behind every plane that is visited earlier. -/
theorem behindPlane_of_beforePlane (covered : atEnd.Covered before) {k l : Int}
    (earlier : block.policy.visitsBefore (k - l) = true) (field : String) (p : Offset)
    (matters : beforePlane domain block before atEnd l field p) :
    behindPlane domain block before atEnd k field p := by
  -- the values of the plane itself and of earlier planes are final before the later plane
  have final : field ∈ block.writes → (p.k = k ∨ block.policy.visitsBefore (p.k - k) = true) →
      atEnd.Reaches domain field p := by
    intro written early
    have before : block.policy.visitsBefore (p.k - l) = true := by
      rcases early with rfl | early
      · exact earlier
      · exact Policy.visitsBefore_trans early earlier
    have notNow : ¬ (field ∈ block.writes ∧ p.k = l) := fun now =>
      Policy.visitsBefore_irrefl before now.2
    have there := matters.2 notNow
    unfold offPlane at there
    rwa [if_pos ⟨written, before⟩] at there
  refine ⟨fun now => final now.1 (.inl now.2), fun _ => ?_⟩
  unfold offPlane
  split
  next visited => exact final visited.1 (.inr visited.2)
  · exact beforePlane_reaches covered matters

/-- Demands of a sequential block are sound for visits of its planes, one after another. -/
theorem visits_sound (small : domain.Small)
    (swept : Swept demand.region? (·.isCarried block.writes block.policy) atEnd
      (blockStatements block b) before atEnd)
    {visits : List (Int × Section × Nat)}
    (inside : ∀ visit ∈ visits, visit.2 ∈ block.sections.zipIdx)
    (ordered : visits.Pairwise fun a b => block.policy.visitsBefore (a.1 - b.1) = true)
    {start : Demanded} (enough : ∀ field p, atEnd.Reaches domain field p → start field p)
    (enters : ∀ visit ∈ visits, ∀ field p,
      beforePlane domain block before atEnd visit.1 field p → start field p) :
    Sound domain (visits.flatMap fun visit =>
        assignmentsOn demand ⟨visit.1, visit.1 + 1⟩ (positioned b visit.2.2 visit.2.1.body))
      start (atEnd.Reaches domain) := by
  induction visits generalizing start with
  | nil => exact .nil enough
  | cons visit rest ih =>
    rw [List.forall_mem_cons] at inside enters
    rw [List.pairwise_cons] at ordered
    rw [List.flatMap_cons]
    have covered := swept.covered
    refine ((plane_sound small swept inside.1 visit.1).weaken enters.1 fun _ _ => id).append
      (ih inside.2 ordered.2 (fun field p reached => ⟨fun _ => reached, fun _ => ?_⟩)
        fun later member field p =>
          behindPlane_of_beforePlane covered (ordered.1 later member) field p)
    unfold offPlane
    split
    · exact reached
    · exact covered.reaches domain field p reached

/-- **Demands of a sequential block are sound.** -/
theorem sequential_sound (small : domain.Small) (ordered : Check.Ordered domain.k block)
    (sequential : block.policy.isSequential = true)
    (swept : Swept demand.region? (·.isCarried block.writes block.policy) atEnd
      (blockStatements block b) before atEnd) :
    Sound domain (blockAssignments demand domain block b) (before.Reaches domain)
      (atEnd.Reaches domain) := by
  rw [blockAssignments_eq sequential]
  refine visits_sound small swept (fun visit member => (mem_visits.mp member).1)
    (pairwise_visits ordered sequential) (swept.covered.reaches domain) ?_
  exact fun _ _ _ _ => beforePlane_reaches swept.covered

end Sequential

/-! ### Programs -/

/-- **Demands of a block are sound.** -/
theorem blockAssignments_sound (small : domain.Small) {block : Block} {b : Nat}
    (ordered : Check.Ordered domain.k block) {before behind : Needs}
    (swept : BlockSwept demand.region? block (blockStatements block b) before behind) :
    Sound domain (blockAssignments demand domain block b) (before.Reaches domain)
      (behind.Reaches domain) := by
  unfold BlockSwept at swept
  split at swept
  next sequential =>
    obtain ⟨atEnd, covered, inner⟩ := swept
    exact (sequential_sound small ordered sequential inner).weaken (fun _ _ => id)
      (covered.reaches domain)
  next parallel => exact parallel_sound small (Bool.not_eq_true _ ▸ parallel) b swept

/-- **A known demand is sound.** -/
theorem assignments_sound (small : domain.Small) {blocks : List (Block × Nat)}
    (ordered : ∀ block ∈ blocks.map Prod.fst, Check.Ordered domain.k block) {before behind : Needs}
    (swept : BlocksSwept demand.region? blocks before behind) :
    Sound domain (blocks.flatMap fun (block, b) => blockAssignments demand domain block b)
      (before.Reaches domain) (behind.Reaches domain) := by
  induction swept with
  | nil needs => exact .nil fun _ _ => id
  | @cons block b rest before middle behind here _ ih =>
    rw [List.map_cons, List.forall_mem_cons] at ordered
    rw [List.flatMap_cons]
    exact (blockAssignments_sound small ordered.1 here).append (ih ordered.2)

end Program

end GridStencil
