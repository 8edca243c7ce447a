import GridStencil.Program.Basic

/-!
**Positions of statements.**

The statements of a program are those of its blocks one after another, each under a position of its
own. What is said of the statements of one block can therefore be said of the whole list, and the
other way round (`filter_statements`).
-/

namespace GridStencil.Program

/-- Statements with their positions in section `i` of block `b`. -/
def positioned (b i : Nat) (body : List Statement) : List (Position × Statement) :=
  body.zipIdx.map fun (statement, s) => (⟨b, i, s⟩, statement)

/-- The statements of block `b` with their positions. -/
def blockStatements (block : Block) (b : Nat) : List (Position × Statement) :=
  block.sections.zipIdx.flatMap fun (part, i) => positioned b i part.body

theorem mem_positioned {b i : Nat} {body : List Statement} {position : Position}
    {statement : Statement} :
    (position, statement) ∈ positioned b i body ↔
      position.block = b ∧ position.part = i ∧ body[position.statement]? = some statement := by
  obtain ⟨pb, pi, ps⟩ := position
  simp only [positioned, List.mem_map, Prod.mk.injEq, Position.mk.injEq, Prod.exists,
    List.mk_mem_zipIdx_iff_getElem?]
  constructor
  · rintro ⟨_, _, found, ⟨rfl, rfl, rfl⟩, rfl⟩
    exact ⟨rfl, rfl, found⟩
  · rintro ⟨rfl, rfl, found⟩
    exact ⟨statement, ps, found, ⟨rfl, rfl, rfl⟩, rfl⟩

theorem mem_blockStatements {block : Block} {b : Nat} {position : Position}
    {statement : Statement} :
    (position, statement) ∈ blockStatements block b ↔
      position.block = b ∧ ∃ part, block.sections[position.part]? = some part ∧
        part.body[position.statement]? = some statement := by
  simp only [blockStatements, List.mem_flatMap, Prod.exists, List.mk_mem_zipIdx_iff_getElem?,
    mem_positioned]
  constructor
  · rintro ⟨part, i, found, rfl, rfl, there⟩
    exact ⟨rfl, part, found, there⟩
  · rintro ⟨rfl, part, found, there⟩
    exact ⟨part, position.part, found, rfl, rfl, there⟩

theorem nodup_zipIdx_map {α β : Type} (f : α → Nat → β) (items : List α) (n : Nat)
    (distinct : ∀ a b i j, f a i = f b j → i = j) :
    ((items.zipIdx n).map fun pair => f pair.1 pair.2).Nodup := by
  induction items generalizing n with
  | nil => exact List.nodup_nil
  | cons item rest ih =>
    rw [List.zipIdx_cons, List.map_cons, List.nodup_cons]
    refine ⟨fun again => ?_, ih (n + 1)⟩
    obtain ⟨pair, member, same⟩ := List.mem_map.mp again
    have above := List.le_snd_of_mem_zipIdx member
    have equal := distinct _ _ _ _ same
    omega

theorem nodup_positioned (b i : Nat) (body : List Statement) :
    ((positioned b i body).map Prod.fst).Nodup := by
  unfold positioned
  rw [List.map_map]
  exact nodup_zipIdx_map (fun _ s => (⟨b, i, s⟩ : Position)) body 0 fun _ _ _ _ same =>
    congrArg Position.statement same

/-- **Every statement of a block has a position of its own.** -/
theorem nodup_blockStatements (block : Block) (b : Nat) :
    ((blockStatements block b).map Prod.fst).Nodup := by
  unfold blockStatements
  rw [List.map_flatMap]
  suffices all : ∀ (sections : List Section) (n : Nat),
      ((sections.zipIdx n).flatMap fun pair =>
        (positioned b pair.2 pair.1.body).map Prod.fst).Nodup from all block.sections 0
  intro sections
  induction sections with
  | nil => exact fun _ => List.nodup_nil
  | cons part rest ih =>
    intro n
    rw [List.zipIdx_cons, List.flatMap_cons, List.nodup_append]
    refine ⟨nodup_positioned b n part.body, ih (n + 1), ?_⟩
    rintro position here _ there rfl
    obtain ⟨⟨_, statement⟩, member, rfl⟩ := List.mem_map.mp here
    obtain ⟨pair, pairMember, later⟩ := List.mem_flatMap.mp there
    obtain ⟨⟨position, other⟩, member', same⟩ := List.mem_map.mp later
    simp only at same
    subst same
    have above := List.le_snd_of_mem_zipIdx pairMember
    have first := (mem_positioned.mp member).2.1
    have second := (mem_positioned.mp member').2.1
    omega

/-- **The statements of a block are those of the program with its index.** -/
theorem filter_statements {program : Program} {block : Block} {b : Nat}
    (member : (block, b) ∈ program.blocks.zipIdx) :
    program.statements.filter (·.1.block = b) = blockStatements block b := by
  suffices all : ∀ (blocks : List Block) (n : Nat), (block, b) ∈ blocks.zipIdx n →
      ((blocks.zipIdx n).flatMap fun pair => blockStatements pair.1 pair.2).filter
        (·.1.block = b) = blockStatements block b from all program.blocks 0 member
  have foreign : ∀ (blocks : List Block) (n : Nat), b < n →
      ((blocks.zipIdx n).flatMap fun pair => blockStatements pair.1 pair.2).filter
        (·.1.block = b) = [] := by
    intro blocks n below
    rw [List.filter_eq_nil_iff]
    rintro ⟨position, statement⟩ inside
    obtain ⟨pair, pairMember, there⟩ := List.mem_flatMap.mp inside
    have above := List.le_snd_of_mem_zipIdx pairMember
    have same := (mem_blockStatements.mp there).1
    simp only [decide_eq_true_eq]
    omega
  have own : (blockStatements block b).filter (·.1.block = b) = blockStatements block b := by
    rw [List.filter_eq_self]
    rintro ⟨position, statement⟩ inside
    exact decide_eq_true (mem_blockStatements.mp inside).1
  intro blocks
  induction blocks with
  | nil => exact fun _ absurd => (nomatch absurd)
  | cons first rest ih =>
    intro n found
    rw [List.zipIdx_cons] at found ⊢
    rw [List.flatMap_cons, List.filter_append]
    rcases List.mem_cons.mp found with here | later
    · cases here
      rw [own, foreign rest (b + 1) (Nat.lt_succ_self b), List.append_nil]
    · have above := List.le_snd_of_mem_zipIdx later
      have other : (blockStatements first n).filter (·.1.block = b) = [] := by
        rw [List.filter_eq_nil_iff]
        rintro ⟨position, statement⟩ inside
        have same := (mem_blockStatements.mp inside).1
        simp only [decide_eq_true_eq]
        simp only at above
        omega
      rw [other, List.nil_append]
      exact ih (n + 1) later

end GridStencil.Program
