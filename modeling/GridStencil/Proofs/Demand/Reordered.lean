import GridStencil.Proofs.Demand.Settled
import GridStencil.Proofs.Program.Reordered

/-!
**The demand of a program does not depend on the order of independent sections.**

A parallel block is swept once, from its last section to its first one. If its sections are
independent, then what is needed of the targets of a section is what is needed of them behind the
whole block, so each section is swept as if it were alone (`Sweep.Beside`). What is needed before
the block is then needed behind it or before one of the sections alone, and no order is left
(`Split`).

* `sweep_split`: a parallel block is swept if each section alone is, and what is found then.
* `kept_of_independent`: reordered programs have the same demand, up to the numbers of sections.
-/

namespace GridStencil

namespace Demand

open Program

/-! ### Needs -/

namespace Needs

variable {needs more : Needs} {field : String}

/-- What is needed of a field is known from the extents it is part of. -/
theorem get?_eq_of_inside (same : ∀ bound, needs.Inside field bound ↔ more.Inside field bound) :
    needs.get? field = more.get? field :=
  (IsHull.covers_iff.mpr same).unique (IsHull.covers_iff.mpr fun _ => Iff.rfl)

theorem eq_of_inside (same : ∀ field bound, needs.Inside field bound ↔ more.Inside field bound) :
    needs = more := Name.Table.eq_of_get? fun field => get?_eq_of_inside (same field)

end Needs

/-! ### Sweeps of one section -/

namespace Sweep

/-- A position in another section. -/
def place (b i : Nat) (position : Position) : Position := ⟨b, i, position.statement⟩

/-- A section swept alone, and the same section swept behind others: what is known of the needed
fields is the same, and nothing else is found. -/
structure Beside (known : String → Prop) (b i : Nat) (behind own found : Sweep) : Prop where
  agree : ∀ field, known field → found.needs.get? field = own.needs.get? field
  needs : ∀ field bound, found.needs.Inside field bound ↔
    own.needs.Inside field bound ∧ behind.needs.Inside field bound
  steps : found.steps = behind.steps
  live : found.live = own.live.map (Prod.map (place b i) id) ++ behind.live

section Beside

variable {known : String → Prop} {b i : Nat} {policy : Policy} {behind own found : Sweep}

theorem Beside.read (beside : Beside known b i behind own found) (extent : Extent) (read : Read) :
    Steps.Matched (Beside known b i behind) (own.read [] policy extent read)
      (found.read [] policy extent read) := by
  unfold Sweep.read
  rw [isCarried_nil, if_neg Bool.false_ne_true, if_neg Bool.false_ne_true]
  cases moved extent read.field read.offset with
  | error cause => exact .error cause
  | ok reached =>
    refine .ok ⟨fun field isKnown => ?_, fun field bound => ?_, beside.steps, beside.live⟩
    · show (found.needs.add read.field reached).get? field =
        (own.needs.add read.field reached).get? field
      unfold Needs.add
      rw [Name.Table.get?_insert, Name.Table.get?_insert]
      by_cases same : field = read.field
      · rw [if_pos same, if_pos same, beside.agree _ (same ▸ isKnown)]
      · rw [if_neg same, if_neg same, beside.agree _ isKnown]
    · show (found.needs.add read.field reached).Inside field bound ↔
        (own.needs.add read.field reached).Inside field bound ∧ behind.needs.Inside field bound
      rw [Needs.inside_add, Needs.inside_add, beside.needs, and_right_comm]

theorem Beside.statement (beside : Beside known b i behind own found) (position : Position)
    {statement : Statement} (isKnown : known statement.target) :
    Steps.Matched (Beside known b i behind) (own.statement [] policy position statement)
      (found.statement [] policy (place b i position) statement) := by
  unfold Sweep.statement
  rw [beside.agree _ isKnown]
  cases own.needs.get? statement.target with
  | none => exact .ok beside
  | some needed =>
    refine Steps.Matched.mapError _ (Steps.Matched.foldlM (r := Eq) (List.forall₂_refl _) ?_ ?_)
    · rintro own found read _ beside rfl
      exact beside.read _ read
    · exact ⟨beside.agree, beside.needs, beside.steps, by rw [beside.live]; rfl⟩

theorem Beside.statements (beside : Beside known b i behind own found)
    {statements : List (Position × Statement)}
    (targets : ∀ pair ∈ statements, known pair.2.target) :
    Steps.Matched (Beside known b i behind) (own.statements [] policy statements)
      (found.statements [] policy (statements.map (Prod.map (place b i) id))) := by
  induction statements with
  | nil => exact .ok beside
  | cons first rest ih =>
    rw [List.forall_mem_cons] at targets
    exact (ih targets.2).bind fun own found beside => beside.statement first.1 targets.1

end Beside

/-- What is needed before a list of statements is found from its last part to its first. -/
theorem statements_append (writes : List String) (policy : Policy) (sweep : Sweep)
    (first second : List (Position × Statement)) :
    sweep.statements writes policy (first ++ second) =
      (sweep.statements writes policy second).bind fun behind =>
        behind.statements writes policy first := by
  induction first with
  | nil =>
    rw [List.nil_append]
    cases sweep.statements writes policy second <;> rfl
  | cons pair rest ih =>
    show (sweep.statements writes policy (rest ++ second)).bind _ = _
    rw [ih]
    cases sweep.statements writes policy second <;> rfl

end Sweep

/-! ### Sweeps of all sections -/

section Split

variable {policy : Policy} {needs : Needs} {b n : Nat}

/-- The sweep of a section alone. -/
def alone (policy : Policy) (needs : Needs) (body : List Statement) : Except Fault Sweep :=
  (Sweep.start needs).statements [] policy (positioned 0 0 body)

/-- What a section alone leaves, if it can be swept. -/
def left (policy : Policy) (needs : Needs) (body : List Statement) : Sweep :=
  match alone policy needs body with
  | .ok sweep => sweep
  | .error _ => .start needs

theorem left_eq {body : List Statement} {own : Sweep} (done : alone policy needs body = .ok own) :
    left policy needs body = own := by
  unfold left
  rw [done]

/-- What a section alone finds: its live statements, and needs of what it reads. -/
theorem alone_exact {body : List Statement} {own : Sweep}
    (done : alone policy needs body = .ok own) :
    (∀ pair ∈ own.live, pair.1 ∈ (positioned 0 0 body).map Prod.fst) ∧
      (∀ field bound, own.needs.Inside field bound → needs.Inside field bound) ∧
      ∀ field, (∀ reader ∈ body, ∀ read ∈ reader.reads, read.field ≠ field) →
        own.needs.get? field = needs.get? field := by
  have uncarried : ∀ position ∈ (positioned 0 0 body).map Prod.fst, ∀ read : Read,
      (fun _ _ => false : Position → Read → Bool) position read = read.isCarried [] policy :=
    fun _ _ read => (isCarried_nil policy read).symm
  obtain ⟨live, split, inside, exact⟩ :=
    Sweep.statements_exact (nodup_positioned 0 0 body) uncarried done
  have needed := (exact (fun position => live.lookup position) fun _ _ => rfl).needs
  refine ⟨?_, fun field bound there => ((needed field bound).mp there).1, fun field unread => ?_⟩
  · rw [split]
    exact fun pair member => inside pair (by simpa [Sweep.start] using member)
  · refine Needs.get?_eq_of_inside fun bound =>
      (needed field bound).trans ⟨And.left, fun there => ?_⟩
    refine ⟨there, ?_⟩
    rintro _ ⟨reader, extent, read, ⟨-, statement, member, isRead⟩, same, -⟩
    exact absurd same (unread statement (List.mem_of_getElem? (mem_positioned.mp member).2.2) read
      isRead)

theorem positioned_place (b i : Nat) (body : List Statement) :
    (positioned 0 0 body).map (Prod.map (Sweep.place b i) id) = positioned b i body := by
  unfold positioned
  rw [List.map_map]
  rfl

/-- What the sweep of a parallel block finds is what the sweeps of its sections alone find. -/
structure Split (policy : Policy) (needs : Needs) (b n : Nat) (sections : List Section)
    (sweep : Sweep) : Prop where
  each : ∀ part ∈ sections, alone policy needs part.body = .ok (left policy needs part.body)
  found : ∀ field bound, sweep.needs.Inside field bound ↔ needs.Inside field bound ∧
    ∀ part ∈ sections, (left policy needs part.body).needs.Inside field bound
  steps : sweep.steps = .empty
  live : sweep.live = (sections.zipIdx n).flatMap fun part =>
    (left policy needs part.1.body).live.map (Prod.map (Sweep.place b part.2) id)

/-- What is needed behind a section of its targets is what is needed of them behind the block. -/
theorem Split.agree {sections : List Section} {behind : Sweep} {part : Section}
    (split : Split policy needs b n sections behind)
    (independent : ∀ other ∈ sections, part.Independent other) {writer : Statement}
    (member : writer ∈ part.body) :
    behind.needs.get? writer.target = needs.get? writer.target := by
  refine Needs.get?_eq_of_inside fun bound =>
    (split.found _ bound).trans ⟨And.left, fun there => ?_⟩
  refine ⟨there, fun other inside => ?_⟩
  have unread := (alone_exact (split.each other inside)).2.2 writer.target
    fun reader isReader read isRead => (independent other inside).2 reader isReader read isRead
      writer member
  unfold Needs.Inside
  rw [unread]
  exact there

/-- **A parallel block of independent sections** can be swept, and its sweep falls apart into those
of its sections, or one of these fails. The induction is on the sections from the last one on, as
the sweep goes. -/
theorem sweep_split {sections : List Section}
    (independent : sections.Pairwise Section.Independent) (n : Nat) :
    (∃ sweep, (Sweep.start needs).statements [] policy ((sections.zipIdx n).flatMap fun part =>
        positioned b part.2 part.1.body) = .ok sweep ∧ Split policy needs b n sections sweep) ∨
      (∃ fault, (Sweep.start needs).statements [] policy ((sections.zipIdx n).flatMap fun part =>
        positioned b part.2 part.1.body) = .error fault) ∧
        ∃ part ∈ sections, ∃ fault, alone policy needs part.body = .error fault := by
  induction sections generalizing n with
  | nil =>
    refine .inl
      ⟨.start needs, rfl, fun _ absurd => (nomatch absurd), fun field bound => ?_, rfl, rfl⟩
    exact ⟨fun inside => ⟨inside, fun _ absurd => (nomatch absurd)⟩, And.left⟩
  | cons part rest ih =>
    obtain ⟨here, later⟩ := List.pairwise_cons.mp independent
    rw [List.zipIdx_cons, List.flatMap_cons, Sweep.statements_append]
    rcases ih later (n + 1) with ⟨behind, done, split⟩ | ⟨⟨fault, failed⟩, bad, inside, why⟩
    · rw [done]
      have start : Sweep.Beside (fun field => ∃ writer ∈ part.body, writer.target = field) b n
          behind (.start needs) behind := by
        refine ⟨?_, fun field bound => ⟨fun there => ⟨?_, there⟩, And.right⟩, rfl, rfl⟩
        · rintro _ ⟨writer, member, rfl⟩
          exact split.agree here member
        · exact ((split.found field bound).mp there).1
      have targets : ∀ pair ∈ positioned 0 0 part.body,
          ∃ writer ∈ part.body, writer.target = pair.2.target := fun pair member =>
        ⟨pair.2, List.mem_of_getElem? (mem_positioned.mp member).2.2, rfl⟩
      have matched : Steps.Matched _ (alone policy needs part.body) _ :=
        start.statements targets
      rw [positioned_place] at matched
      show (∃ sweep, behind.statements [] policy (positioned b n part.body) = .ok sweep ∧ _) ∨
        (∃ fault, behind.statements [] policy (positioned b n part.body) = .error fault) ∧ _
      cases own : alone policy needs part.body with
      | error fault =>
        exact .inr ⟨⟨fault, matched.of_error own⟩, part, List.mem_cons_self, fault, own⟩
      | ok found =>
        obtain ⟨sweep, swept, beside⟩ := matched.of_ok own
        have leaves := left_eq own
        refine .inl ⟨sweep, swept, ?_, fun field bound => ?_, beside.steps.trans split.steps, ?_⟩
        · exact List.forall_mem_cons.mpr ⟨leaves ▸ own, split.each⟩
        · rw [beside.needs, split.found, List.forall_mem_cons, leaves]
          exact and_left_comm
        · rw [beside.live, split.live, List.zipIdx_cons, List.flatMap_cons, leaves]
    · rw [failed]
      exact .inr ⟨⟨fault, rfl⟩, bad, List.mem_cons_of_mem _ inside, why⟩

/-! ### Live statements -/

theorem lookup_place {live : List (Position × Extent)}
    (home : ∀ pair ∈ live, pair.1.block = 0 ∧ pair.1.part = 0) (b i s : Nat) :
    (live.map (Prod.map (Sweep.place b i) id)).lookup ⟨b, i, s⟩ = live.lookup ⟨0, 0, s⟩ := by
  induction live with
  | nil => rfl
  | cons first rest ih =>
    obtain ⟨⟨block, part, statement⟩, extent⟩ := first
    rw [List.forall_mem_cons] at home
    obtain ⟨⟨rfl, rfl⟩, later⟩ := home
    show List.lookup _ (((⟨b, i, statement⟩ : Position), extent) :: _) = _
    rw [List.lookup_cons, List.lookup_cons, ih later]
    by_cases same : s = statement
    · subst same
      rw [beq_self_eq_true, beq_self_eq_true]
    · rw [beq_eq_false_iff_ne.mpr fun equal => same (congrArg Position.statement equal),
        beq_eq_false_iff_ne.mpr fun equal => same (congrArg Position.statement equal)]

theorem lookup_elsewhere (live : List (Position × Extent)) {b i j s : Nat} (other : j ≠ i) :
    (live.map (Prod.map (Sweep.place b i) id)).lookup ⟨b, j, s⟩ = none := by
  rw [List.lookup_eq_none_iff]
  intro pair member
  obtain ⟨found, -, rfl⟩ := List.mem_map.mp member
  exact bne_iff_ne.mpr fun same => other (congrArg Position.part same)

/-- A statement is computed in a block as it is in its section alone. -/
theorem lookup_flatMap (live : Section → List (Position × Extent)) {sections : List Section}
    (home : ∀ part ∈ sections, ∀ pair ∈ live part, pair.1.block = 0 ∧ pair.1.part = 0)
    {part : Section} {i : Nat} (b s n : Nat) (member : (part, i) ∈ sections.zipIdx n) :
    ((sections.zipIdx n).flatMap fun part =>
      (live part.1).map (Prod.map (Sweep.place b part.2) id)).lookup ⟨b, i, s⟩ =
        (live part).lookup ⟨0, 0, s⟩ := by
  induction sections generalizing n with
  | nil => cases member
  | cons first rest ih =>
    obtain ⟨here, later⟩ := List.forall_mem_cons.mp home
    rw [List.zipIdx_cons] at member ⊢
    rw [List.flatMap_cons, List.lookup_append]
    rcases List.mem_cons.mp member with first' | behind
    · cases first'
      have none : ((rest.zipIdx (i + 1)).flatMap fun part =>
          (live part.1).map (Prod.map (Sweep.place b part.2) id)).lookup ⟨b, i, s⟩ = none := by
        rw [List.lookup_eq_none_iff]
        intro pair inside
        obtain ⟨part, behind, there⟩ := List.mem_flatMap.mp inside
        obtain ⟨found, -, rfl⟩ := List.mem_map.mp there
        have above := List.le_snd_of_mem_zipIdx behind
        refine bne_iff_ne.mpr fun same => ?_
        have same : i = part.2 := congrArg Position.part same
        omega
      rw [none, Option.or_none]
      exact lookup_place here b i s
    · have above := List.le_snd_of_mem_zipIdx behind
      rw [lookup_elsewhere (live first) (show i ≠ n by simp only at above; omega), Option.none_or]
      exact ih later (n + 1) behind

/-- The sections of a block, each with the extents on which its statements are computed. -/
def regions (demand : Demand) (block : Block) (b : Nat) : List (Section × List (Option Extent)) :=
  block.sections.zipIdx.map fun part =>
    (part.1, part.1.body.zipIdx.map fun place => demand.region? ⟨b, part.2, place.2⟩)

/-- The extents of a section alone depend on what is needed behind the block. -/
theorem Split.regions_eq {demand : Demand} {block : Block} {sweep : Sweep}
    (split : Split policy needs b 0 block.sections sweep)
    (agrees : ∀ position, position.block = b →
      demand.region? position = sweep.live.lookup position) :
    regions demand block b = block.sections.map fun part => (part, part.body.zipIdx.map fun place =>
      (left policy needs part.body).live.lookup ⟨0, 0, place.2⟩) := by
  unfold regions
  conv_rhs => rw [← List.zipIdx_map_fst 0 block.sections, List.map_map]
  refine List.map_congr_left fun part member => Prod.ext rfl (List.map_congr_left fun place _ => ?_)
  refine (agrees ⟨b, part.2, place.2⟩ rfl).trans ?_
  rw [split.live]
  refine lookup_flatMap (fun part => (left policy needs part.body).live) ?_ b place.2 0 member
  intro part inside pair there
  obtain ⟨⟨position, statement⟩, found, same⟩ :=
    List.mem_map.mp ((alone_exact (split.each part inside)).1 pair there)
  have positioned := mem_positioned.mp found
  exact same ▸ ⟨positioned.1, positioned.2.1⟩

end Split

/-! ### Blocks -/

/-- Two blocks are computed alike: their sections are computed on the same extents, and in the same
order if it is the same block. -/
structure SameRegions (demand demand' : Demand) (a a' : Block) (b : Nat) : Prop where
  perm : (regions demand a b).Perm (regions demand' a' b)
  same : a' = a → regions demand a b = regions demand' a' b

theorem sweepBlock_parallel {program : Program} {block : Block} {b : Nat}
    (member : (block, b) ∈ program.blocks.zipIdx) (parallel : block.policy = .parallel)
    (needs : Needs) :
    sweepBlock program block b needs =
      (Sweep.start needs).statements [] .parallel (blockStatements block b) := by
  unfold sweepBlock
  rw [filter_statements member, parallel]
  rfl

/-- **A sweep of a reordered block** finds the same. -/
theorem sweepBlock_reordered {program program' : Program} {a a' : Block} {b : Nat} {needs : Needs}
    {sweep : Sweep} (member : (a, b) ∈ program.blocks.zipIdx)
    (member' : (a', b) ∈ program'.blocks.zipIdx) (fields : program'.fields = program.fields)
    (reordered : a.Reordered Section.Independent a')
    (done : sweepBlock program a b needs = .ok sweep) :
    ∃ sweep', sweepBlock program' a' b needs = .ok sweep' ∧ sweep'.needs = sweep.needs ∧
      sweep'.steps = sweep.steps ∧ ∀ demand demand' : Demand,
        (∀ position, position.block = b →
          demand.region? position = sweep.live.lookup position) →
        (∀ position, position.block = b →
          demand'.region? position = sweep'.live.lookup position) →
        SameRegions demand demand' a a' b := by
  cases reordered with
  | same =>
    have swept : sweepBlock program' a b needs = .ok sweep := by
      unfold sweepBlock at done ⊢
      rw [filter_statements member', fields]
      rwa [filter_statements member] at done
    refine ⟨sweep, swept, rfl, rfl, fun demand demand' agrees agrees' => ?_⟩
    have equal : regions demand a b = regions demand' a b := by
      unfold regions
      refine List.map_congr_left fun part _ => Prod.ext rfl (List.map_congr_left fun place _ => ?_)
      exact (agrees _ rfl).trans (agrees' _ rfl).symm
    exact ⟨equal ▸ .refl _, fun _ => equal⟩
  | sections first second perm independent =>
    rw [sweepBlock_parallel member first] at done
    rw [sweepBlock_parallel member' second]
    have split : Split .parallel needs b 0 a.sections sweep := by
      rcases sweep_split independent 0 with ⟨found, swept, split⟩ | ⟨⟨fault, failed⟩, -⟩
      · exact Except.ok.inj (swept.symm.trans done) ▸ split
      · cases failed.symm.trans done
    have swapped := (perm.pairwise_iff Section.Independent.symm).mp independent
    rcases sweep_split swapped 0 with ⟨sweep', swept, split'⟩ | ⟨-, part, inside, fault, failed⟩
    · refine ⟨sweep', swept, Needs.eq_of_inside fun field bound => ?_,
        split'.steps.trans split.steps.symm, fun demand demand' agrees agrees' => ?_⟩
      · rw [split.found, split'.found]
        exact and_congr_right' (forall_congr' fun part => imp_congr_left perm.mem_iff.symm)
      · refine ⟨?_, fun same => ?_⟩ <;> rw [split.regions_eq agrees, split'.regions_eq agrees']
        · exact perm.map _
        · rw [same]
    · cases failed.symm.trans (split.each part (perm.mem_iff.mpr inside))

/-- Sweeps of reordered blocks find the same. -/
theorem blocks_reordered {program program' : Program} (fields : program'.fields = program.fields)
    {start demands : Demands} {blocks blocks' : List (Block × Nat)}
    (pairs : List.Forall₂ (fun a a' => a'.2 = a.2 ∧ a.1.Reordered Section.Independent a'.1)
      blocks blocks')
    (inside : ∀ pair ∈ blocks, pair ∈ program.blocks.zipIdx)
    (inside' : ∀ pair ∈ blocks', pair ∈ program'.blocks.zipIdx)
    (distinct : (blocks.map Prod.snd).Nodup) (fresh : start.live = [])
    (done : Demands.blocks program start blocks = .ok demands) :
    ∃ demands', Demands.blocks program' start blocks' = .ok demands' ∧
      demands'.needs = demands.needs ∧ demands'.steps = demands.steps ∧
      ∀ demand demand' : Demand,
        (∀ position, position.block ∈ blocks.map Prod.snd →
          demand.region? position = demands.live.lookup position) →
        (∀ position, position.block ∈ blocks.map Prod.snd →
          demand'.region? position = demands'.live.lookup position) →
        List.Forall₂ (fun a a' => a'.2 = a.2 ∧ SameRegions demand demand' a.1 a'.1 a.2)
          blocks blocks' := by
  induction pairs generalizing demands with
  | nil => exact ⟨demands, done, rfl, rfl, fun _ _ _ _ => .nil⟩
  | @cons first first' rest rest' here pairs ih =>
    obtain ⟨a, b⟩ := first
    obtain ⟨a', b'⟩ := first'
    obtain ⟨rfl, reordered⟩ := here
    rw [List.forall_mem_cons] at inside inside'
    rw [List.map_cons, List.nodup_cons] at distinct
    unfold Demands.blocks at done ⊢
    obtain ⟨behind, doneRest, doneHere⟩ := Steps.bind_eq_ok.mp done
    obtain ⟨sweep, swept, same⟩ := Steps.bind_eq_ok.mp doneHere
    obtain ⟨behind', doneRest', needs, steps, alike⟩ :=
      ih inside.2 inside'.2 distinct.2 doneRest
    obtain ⟨sweep', swept', needs', steps', alikeHere⟩ :=
      sweepBlock_reordered inside.1 inside'.1 fields reordered (needs ▸ swept)
    cases same
    refine ⟨_,
      Steps.bind_eq_ok.mpr ⟨behind', doneRest', Steps.bind_eq_ok.mpr ⟨sweep', swept', rfl⟩⟩,
      needs', by rw [steps, steps'], fun demand demand' agrees agrees' => ?_⟩
    have indices : rest'.map Prod.snd = rest.map Prod.snd := by
      rw [← List.forall₂_eq_eq_eq, List.forall₂_map_left_iff, List.forall₂_map_right_iff]
      exact pairs.flip.imp fun _ _ pair => pair.1
    have own := (sweepBlock_swept inside.1 swept).1
    have own' := (sweepBlock_swept inside'.1 swept').1
    have later := (blocks_swept inside.2 distinct.2 fresh doneRest).1
    have later' := (blocks_swept inside'.2 (indices ▸ distinct.2) fresh doneRest').1
    rw [indices] at later'
    refine .cons ⟨rfl, alikeHere demand demand' (fun position here => ?_) fun position here => ?_⟩
      (alike demand demand' (fun position there => ?_) fun position there => ?_)
    · rw [agrees position (by rw [here]; exact List.mem_cons_self)]
      exact (lookup_live own later distinct.1 position).1 here
    · rw [agrees' position (by rw [here]; exact List.mem_cons_self)]
      exact (lookup_live own' later' distinct.1 position).1 here
    · rw [agrees position (List.mem_cons_of_mem _ there)]
      exact (lookup_live own later distinct.1 position).2 there
    · rw [agrees' position (List.mem_cons_of_mem _ there)]
      exact (lookup_live own' later' distinct.1 position).2 there

/-! ### Programs -/

theorem forall₂_zipIdx {α β : Type} {r : α → β → Prop} {xs : List α} {ys : List β}
    (pairs : List.Forall₂ r xs ys) (n : Nat) :
    List.Forall₂ (fun x y => y.2 = x.2 ∧ r x.1 y.1) (xs.zipIdx n) (ys.zipIdx n) := by
  induction pairs generalizing n with
  | nil => exact .nil
  | cons here _ ih => exact .cons ⟨rfl, here⟩ (ih (n + 1))

/-- The same is needed of two programs: they access their fields at the same extents, and their
blocks are computed alike. -/
def Kept (program program' : Program) (demand : Demand) : Prop :=
  ∃ demand', ofProgram? program' = .ok demand' ∧ demand'.fields = demand.fields ∧
    List.Forall₂ (fun a a' => a'.2 = a.2 ∧ SameRegions demand demand' a.1 a'.1 a.2)
      program.blocks.zipIdx program'.blocks.zipIdx

/-- **The demand of a program whose independent sections are reordered** is the same of all fields,
and its blocks are computed alike. -/
theorem kept_of_independent {program program' : Program} {demand : Demand}
    (reordered : program.Reordered Section.Independent program')
    (known : ofProgram? program = .ok demand) : Kept program program' demand := by
  unfold Kept
  unfold ofProgram? at known ⊢
  obtain ⟨demands, done, same⟩ := Steps.bind_eq_ok.mp known
  have fields : program'.fields = program.fields := by rw [reordered.same]
  have start : Demands.start program' = Demands.start program := by
    unfold Demands.start outputs
    rw [fields]
  have distinct : (program.blocks.zipIdx.map Prod.snd).Nodup := by
    rw [List.zipIdx_map_snd]
    exact List.nodup_range'
  obtain ⟨demands', done', needs, steps, alike⟩ := blocks_reordered fields
    (forall₂_zipIdx reordered.blocks 0) (fun _ => id) (fun _ => id) distinct rfl done
  refine ⟨_, Steps.bind_eq_ok.mpr ⟨demands', start ▸ done', rfl⟩, ?_, ?_⟩
  · rw [← Except.ok.inj same, needs, steps, fields]
  · rw [← Except.ok.inj same]
    exact alike _ _ (fun _ _ => rfl) fun _ _ => rfl

end Demand

end GridStencil
