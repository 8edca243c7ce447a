import GridStencil.Kernel.Registers
import GridStencil.Kernel.Tree
import GridStencil.Proofs.Kernel.Buffer
import GridStencil.Proofs.Steps

/-!
**What the code of an expression computes, in both of its forms.**

A tree is evaluated point by point and code for registers on all points at once, and they judge
reads in a different order: a tree looks for the point in the buffer before it asks for its plane, a
load asks for all planes first and then looks for the two ends of each column only. Both succeed
exactly if every read of the expression succeeds at every point, and then with the same values:

* `Tree.evalAll_eq_ok`: success and values of a tree, in terms of single reads.
* `View.gather_eq_ok`: the same for a load.
* `Registers.evalAll_iff`: code for registers succeeds exactly if the tree does, with its values.
-/

namespace GridStencil

namespace Region

theorem mem_points_iff {region : Region} {p : Offset} :
    p ∈ region.points ↔
      ∃ column ∈ region.columns, ∃ k ∈ region.k.toList, ({ column with k } : Offset) = p := by
  simp only [points, List.mem_flatMap, List.mem_map]

theorem length_columns (region : Region) :
    region.columns.length = region.i.length * region.j.length := by
  unfold columns
  rw [List.length_flatMap]
  simp only [List.length_map, Stretch.length_toList, List.map_const', List.sum_replicate_nat]

theorem length_points (region : Region) : region.points.length = region.size := by
  unfold points size
  rw [List.length_flatMap]
  simp only [List.length_map, Stretch.length_toList, List.map_const', List.sum_replicate_nat,
    length_columns]

/-- A box with points has a column and a plane. -/
theorem nonempty_of_size {region : Region} (points : region.size ≠ 0) :
    (∃ column, column ∈ region.columns) ∧ region.k.length ≠ 0 := by
  unfold size at points
  refine ⟨?_, fun none => points (by rw [none, Nat.mul_zero])⟩
  apply List.exists_mem_of_ne_nil
  intro none
  have length := length_columns region
  rw [none, List.length_nil] at length
  exact points (by rw [← length, Nat.zero_mul])

theorem replicate_size {α : Type} (region : Region) (a : α) :
    List.replicate region.size a = region.points.map fun _ => a := by
  rw [List.map_const', length_points]

end Region

namespace View

/-- The value at a point can be read. -/
def Readable (view : View) (p : Offset) : Prop := ∃ x, view.read p = .ok x

/-- The value at a point, where it can be read. -/
def held (view : View) (p : Offset) : Float :=
  match view.read p with
  | .ok x => x
  | .error _ => 0.0

theorem read_iff {view : View} {p : Offset} {x : Float} :
    view.read p = .ok x ↔ view.Readable p ∧ view.held p = x := by
  unfold Readable held
  cases view.read p with
  | error cause => exact ⟨fun absurd => (nomatch absurd), fun ⟨⟨_, absurd⟩, _⟩ => (nomatch absurd)⟩
  | ok y => exact ⟨fun same => ⟨⟨y, rfl⟩, Except.ok.inj same⟩, fun both => congrArg _ both.2⟩

theorem readable_iff {view : View} {p : Offset} :
    view.Readable p ↔
      Storage.Inside view.storage.shape (view.index p) ∧ view.lacks p.k = false := by
  constructor
  · rintro ⟨x, read⟩
    obtain ⟨within, there, -⟩ := read_eq_ok.mp read
    exact ⟨within, there⟩
  · rintro ⟨within, there⟩
    exact ⟨_, read_eq_ok.mpr ⟨within, there, rfl⟩⟩

theorem held_of_readable {view : View} {p : Offset} (readable : view.Readable p) :
    view.held p = view.storage.valueAt (Storage.spot view.storage.shape (view.index p)) :=
  (read_eq_ok.mp (read_iff.mpr ⟨readable, rfl⟩)).2.2.symm

/-- A field without axes has its one element, and no planes that could be missing. -/
structure PointSound (view : View) : Prop where
  inside : view.zeroDim = true → Storage.Inside view.storage.shape .zero
  complete : view.zeroDim = true → view.computed = none

theorem PointSound.of_sameLayout {before after : View} (same : SameLayout before after)
    (sound : before.PointSound) : after.PointSound where
  inside full := by
    rw [same.shape]
    exact sound.inside (same.zeroDim ▸ full)
  complete full := by
    have none := sound.complete (same.zeroDim ▸ full)
    rw [← Option.isNone_iff_eq_none, ← Option.not_isSome, same.temporary, none]
    rfl

/-- Every point of a field without axes is read, and all give the one element. -/
theorem PointSound.read {view : View} (sound : view.PointSound) (point : view.zeroDim = true)
    (p : Offset) : view.read p = .ok (view.storage.valueAt 0) := by
  have here : view.index p = .zero := by
    unfold index
    rw [if_pos point]
  have place : Storage.spot view.storage.shape .zero = 0 := by
    simp [Storage.spot, Storage.placeOf, Offset.zero]
  rw [read_eq_ok, here, place]
  refine ⟨sound.inside point, ?_, rfl⟩
  unfold lacks
  rw [sound.complete point]

/-! ### Loads -/

theorem readColumn_eq_ok {view : View} {first : Offset} {length : Nat} {xs : List Float} :
    view.readColumn first length = .ok xs ↔
      (Storage.Inside view.storage.shape (view.index first) ∧
        Storage.Inside view.storage.shape (view.index (first.add ⟨0, 0, length - 1⟩))) ∧
      ((List.range length).map fun n =>
        view.storage.valueAt (Storage.spot view.storage.shape (view.index first) + n)) = xs := by
  unfold readColumn
  dsimp only
  split
  next place last low high =>
    obtain ⟨insideLow, rfl⟩ := Storage.place?_eq_some.mp low
    obtain ⟨insideHigh, -⟩ := Storage.place?_eq_some.mp high
    exact ⟨fun same => ⟨⟨insideLow, insideHigh⟩, Except.ok.inj same⟩,
      fun all => congrArg Except.ok all.2⟩
  next notBoth =>
    refine ⟨fun absurd => (nomatch absurd), fun all => ?_⟩
    exact absurd (Storage.place?_eq_some.mpr ⟨all.1.2, rfl⟩)
      (notBoth _ _ (Storage.place?_eq_some.mpr ⟨all.1.1, rfl⟩))

section Columns

variable {view : View} {offset : Offset} {region : Region}

/-- The lowest point that a load reads in a column. -/
def columnStart (offset : Offset) (region : Region) (column : Offset) : Offset :=
  ({ column with k := region.k.start } : Offset).add offset

/-- A column is inside the buffer if its two ends are. -/
theorem inside_column (full : view.zeroDim = false) {column : Offset} {k : Int}
    (low : Storage.Inside view.storage.shape (view.index (columnStart offset region column)))
    (high : Storage.Inside view.storage.shape
      (view.index ((columnStart offset region column).add ⟨0, 0, region.k.length - 1⟩)))
    (member : k ∈ region.k.toList) :
    Storage.Inside view.storage.shape
      (view.index (({ column with k } : Offset).add offset)) := by
  obtain ⟨above, below⟩ := Stretch.mem_toList.mp member
  simp only [Storage.Inside, index, full, columnStart, Offset.add, Stretch.length,
    Bool.false_eq_true, if_false] at low high ⊢
  omega

/-- The elements of a column stand in the order of its planes. -/
theorem spot_column (full : view.zeroDim = false) {column : Offset} {n : Nat}
    (low : Storage.Inside view.storage.shape (view.index (columnStart offset region column))) :
    Storage.spot view.storage.shape
        (view.index (({ column with k := region.k.start + n } : Offset).add offset)) =
      Storage.spot view.storage.shape (view.index (columnStart offset region column)) + n := by
  rw [← Storage.spot_up low.2.2.1 n]
  congr 1
  simp only [index, full, columnStart, Offset.add, Bool.false_eq_true, if_false, Offset.mk.injEq,
    true_and]
  omega

/-- Whether no plane that a load reads is missing, and the two ends of every column are inside. -/
structure ColumnsInside (view : View) (offset : Offset) (region : Region) : Prop where
  complete : ∀ k ∈ (⟨region.k.start + offset.k, region.k.stop + offset.k⟩ : Stretch).toList,
    view.lacks k = false
  ends : ∀ column ∈ region.columns,
    Storage.Inside view.storage.shape (view.index (columnStart offset region column)) ∧
    Storage.Inside view.storage.shape
      (view.index ((columnStart offset region column).add ⟨0, 0, region.k.length - 1⟩))

/-- The elements that a load reads, column by column. -/
def columnValues (view : View) (offset : Offset) (region : Region) : List Float :=
  (region.columns.map fun column => (List.range region.k.length).map fun n =>
    view.storage.valueAt (Storage.spot view.storage.shape
      (view.index (columnStart offset region column)) + n)).flatten

theorem gather_eq_ok_columns (full : view.zeroDim = false) (planes : ¬ region.k.length = 0)
    {xs : List Float} :
    view.gather offset region = .ok xs ↔
      view.ColumnsInside offset region ∧ view.columnValues offset region = xs := by
  unfold gather
  rw [if_neg (by rw [full]; exact Bool.false_ne_true), if_neg planes, Steps.bind_eq_ok]
  constructor
  · rintro ⟨_, complete, rest⟩
    obtain ⟨columns, loaded, same⟩ := Steps.bind_eq_ok.mp rest
    obtain ⟨inside, rfl⟩ := (Steps.mapM_eq_map fun _ _ => readColumn_eq_ok).mp loaded
    exact ⟨⟨requirePlanes_eq_ok.mp complete, inside⟩, Except.ok.inj same⟩
  · rintro ⟨⟨complete, inside⟩, rfl⟩
    refine ⟨(), requirePlanes_eq_ok.mpr complete, Steps.bind_eq_ok.mpr ⟨_, ?_, rfl⟩⟩
    exact (Steps.mapM_eq_map fun _ _ => readColumn_eq_ok).mpr ⟨inside, rfl⟩

/-- All points of a load can be read if its planes are there and its columns are inside. -/
theorem ColumnsInside.readable (full : view.zeroDim = false)
    (inside : view.ColumnsInside offset region) :
    ∀ p ∈ region.points, view.Readable (p.add offset) := by
  intro p member
  obtain ⟨column, columnMember, k, kMember, rfl⟩ := Region.mem_points_iff.mp member
  obtain ⟨low, high⟩ := inside.ends column columnMember
  refine readable_iff.mpr ⟨inside_column full low high kMember, inside.complete _ ?_⟩
  obtain ⟨above, below⟩ := Stretch.mem_toList.mp kMember
  simp only [Stretch.mem_toList, Offset.add]
  omega

theorem columnsInside_of_readable (points : region.size ≠ 0)
    (readable : ∀ p ∈ region.points, view.Readable (p.add offset)) :
    view.ColumnsInside offset region := by
  obtain ⟨⟨some, someMember⟩, planes⟩ := Region.nonempty_of_size points
  simp only [readable_iff] at readable
  constructor
  · intro k member
    obtain ⟨above, below⟩ := Stretch.mem_toList.mp member
    simp only at above below
    have inside : k - offset.k ∈ region.k.toList := Stretch.mem_toList.mpr ⟨by omega, by omega⟩
    have there := (readable _ (Region.mem_points_iff.mpr ⟨some, someMember, _, inside, rfl⟩)).2
    simpa only [Offset.add, Int.sub_add_cancel] using there
  · intro column member
    have ends : region.k.start ∈ region.k.toList ∧
        region.k.start + (region.k.length - 1) ∈ region.k.toList := by
      simp only [Stretch.mem_toList, Stretch.length] at planes ⊢
      omega
    refine ⟨(readable _ (Region.mem_points_iff.mpr ⟨column, member, _, ends.1, rfl⟩)).1, ?_⟩
    have last := (readable _ (Region.mem_points_iff.mpr ⟨column, member, _, ends.2, rfl⟩)).1
    have same : (columnStart offset region column).add ⟨0, 0, region.k.length - 1⟩ =
        ({ column with k := region.k.start + (region.k.length - 1) } : Offset).add offset := by
      simp only [columnStart, Offset.add, Offset.mk.injEq]
      omega
    rw [same]
    exact last

/-- Column by column, a load reads the values of its points in order. -/
theorem ColumnsInside.values (full : view.zeroDim = false)
    (inside : view.ColumnsInside offset region) :
    view.columnValues offset region = region.points.map fun p => view.held (p.add offset) := by
  unfold columnValues
  rw [Region.points, List.map_flatMap, List.flatMap_def]
  congr 1
  apply List.map_congr_left
  intro column member
  obtain ⟨low, -⟩ := inside.ends column member
  rw [List.map_map, Stretch.toList, List.map_map]
  apply List.map_congr_left
  intro n below
  have plane : region.k.start + n ∈ region.k.toList := by
    rw [List.mem_range, Stretch.length] at below
    exact Stretch.mem_toList.mpr ⟨by omega, by omega⟩
  have readable := inside.readable full _
    (Region.mem_points_iff.mpr ⟨column, member, _, plane, rfl⟩)
  exact (congrArg _ (spot_column full low).symm).trans (held_of_readable readable).symm

theorem gather_eq_ok_of_full (full : view.zeroDim = false) (points : region.size ≠ 0)
    {xs : List Float} :
    view.gather offset region = .ok xs ↔
      (∀ p ∈ region.points, view.Readable (p.add offset)) ∧
        (region.points.map fun p => view.held (p.add offset)) = xs := by
  rw [gather_eq_ok_columns full (Region.nonempty_of_size points).2]
  constructor
  · rintro ⟨inside, same⟩
    exact ⟨inside.readable full, (inside.values full).symm.trans same⟩
  · rintro ⟨readable, same⟩
    have inside := columnsInside_of_readable points readable
    exact ⟨inside, (inside.values full).trans same⟩

end Columns

/-- **What a load gives**: it succeeds exactly if all its points can be read, and gives their values
in order. -/
theorem gather_eq_ok {view : View} (sound : view.PointSound) {offset : Offset} {region : Region}
    (points : region.size ≠ 0) {xs : List Float} :
    view.gather offset region = .ok xs ↔
      (∀ p ∈ region.points, view.Readable (p.add offset)) ∧
        (region.points.map fun p => view.held (p.add offset)) = xs := by
  cases full : view.zeroDim with
  | false => exact gather_eq_ok_of_full full points
  | true =>
    have values : (region.points.map fun p => view.held (p.add offset)) =
        List.replicate region.size (view.storage.valueAt 0) := by
      rw [Region.replicate_size]
      exact List.map_congr_left fun p _ => (read_iff.mp (sound.read full (p.add offset))).2
    unfold gather
    rw [if_pos full, values]
    refine ⟨fun same => ⟨fun p _ => ⟨_, sound.read full _⟩, Except.ok.inj same⟩, ?_⟩
    exact fun both => congrArg Except.ok both.2

end View

/-! ### Trees -/

namespace Tree

/-- The fields that a tree reads, with their offsets. -/
def reads : Tree → List (Nat × Offset)
  | field slot offset => [(slot, offset)]
  | scalar _ | constant _ => []
  | unary _ arg => arg.reads
  | binary _ left right => left.reads ++ right.reads
  | select condition whenTrue whenFalse => condition.reads ++ whenTrue.reads ++ whenFalse.reads

/-- The value of a tree at a point, where fields and scalars have the given values. -/
def value (fields : Nat → Offset → Float) (scalars : Nat → Float) (point : Offset) : Tree → Float
  | field slot offset => fields slot (point.add offset)
  | scalar slot => scalars slot
  | constant value => value
  | unary op arg => op.apply (arg.value fields scalars point)
  | binary op left right =>
    op.apply (left.value fields scalars point) (right.value fields scalars point)
  | select condition whenTrue whenFalse =>
    if condition.value fields scalars point != 0.0 then whenTrue.value fields scalars point
    else whenFalse.value fields scalars point

/-- All reads of a tree at a point can be made. -/
def Computable (tree : Tree) (frame : Frame) (point : Offset) : Prop :=
  ∀ read ∈ tree.reads, (frame.view read.1).Readable (point.add read.2)

/-- The value of a tree at a point, where it can be computed. -/
def held (tree : Tree) (frame : Frame) (point : Offset) : Float :=
  tree.value (fun slot => (frame.view slot).held) frame.scalar point

variable {frame : Frame} {point : Offset} {region : Region}

theorem computable_field {slot : Nat} {offset : Offset} :
    (field slot offset).Computable frame point ↔
      (frame.view slot).Readable (point.add offset) := List.forall_mem_singleton

/-- **When a tree has a value at a point**: when all its reads can be made. -/
theorem eval_eq_ok {tree : Tree} {x : Float} :
    tree.eval frame point = .ok x ↔ tree.Computable frame point ∧ tree.held frame point = x := by
  induction tree generalizing x with
  | field slot offset =>
    rw [computable_field]
    exact View.read_iff
  | scalar slot =>
    exact ⟨fun same => ⟨fun _ absurd => (nomatch absurd), Except.ok.inj same⟩,
      fun both => congrArg Except.ok both.2⟩
  | constant value =>
    exact ⟨fun same => ⟨fun _ absurd => (nomatch absurd), Except.ok.inj same⟩,
      fun both => congrArg Except.ok both.2⟩
  | unary op arg ih =>
    unfold eval
    rw [Steps.bind_eq_ok]
    constructor
    · rintro ⟨y, evaluated, same⟩
      obtain ⟨computable, rfl⟩ := ih.mp evaluated
      exact ⟨computable, Except.ok.inj same⟩
    · rintro ⟨computable, rfl⟩
      exact ⟨_, ih.mpr ⟨computable, rfl⟩, rfl⟩
  | binary op left right ihLeft ihRight =>
    have both : (binary op left right).Computable frame point ↔
        left.Computable frame point ∧ right.Computable frame point := List.forall_mem_append
    unfold eval
    rw [both, Steps.bind_eq_ok]
    constructor
    · rintro ⟨y, first, rest⟩
      obtain ⟨z, second, same⟩ := Steps.bind_eq_ok.mp rest
      obtain ⟨computableLeft, rfl⟩ := ihLeft.mp first
      obtain ⟨computableRight, rfl⟩ := ihRight.mp second
      exact ⟨⟨computableLeft, computableRight⟩, Except.ok.inj same⟩
    · rintro ⟨⟨computableLeft, computableRight⟩, rfl⟩
      refine ⟨_, ihLeft.mpr ⟨computableLeft, rfl⟩, Steps.bind_eq_ok.mpr ?_⟩
      exact ⟨_, ihRight.mpr ⟨computableRight, rfl⟩, rfl⟩
  | select condition whenTrue whenFalse ihCondition ihTrue ihFalse =>
    have all : (select condition whenTrue whenFalse).Computable frame point ↔
        (condition.Computable frame point ∧ whenTrue.Computable frame point) ∧
          whenFalse.Computable frame point :=
      List.forall_mem_append.trans (and_congr_left' List.forall_mem_append)
    unfold eval
    rw [all, Steps.bind_eq_ok]
    constructor
    · rintro ⟨y, first, rest⟩
      obtain ⟨z, second, rest⟩ := Steps.bind_eq_ok.mp rest
      obtain ⟨test, third, same⟩ := Steps.bind_eq_ok.mp rest
      obtain ⟨computableTrue, rfl⟩ := ihTrue.mp first
      obtain ⟨computableFalse, rfl⟩ := ihFalse.mp second
      obtain ⟨computable, rfl⟩ := ihCondition.mp third
      exact ⟨⟨⟨computable, computableTrue⟩, computableFalse⟩, Except.ok.inj same⟩
    · rintro ⟨⟨⟨computable, computableTrue⟩, computableFalse⟩, rfl⟩
      refine ⟨_, ihTrue.mpr ⟨computableTrue, rfl⟩, Steps.bind_eq_ok.mpr ?_⟩
      refine ⟨_, ihFalse.mpr ⟨computableFalse, rfl⟩, Steps.bind_eq_ok.mpr ?_⟩
      exact ⟨_, ihCondition.mpr ⟨computable, rfl⟩, rfl⟩

/-- A value depends on the fields at the points that are read only. -/
theorem value_congr {tree : Tree} {fields others : Nat → Offset → Float} {scalars : Nat → Float}
    (agree : ∀ read ∈ tree.reads,
      fields read.1 (point.add read.2) = others read.1 (point.add read.2)) :
    tree.value fields scalars point = tree.value others scalars point := by
  induction tree with
  | field slot offset => exact agree (slot, offset) (List.mem_singleton_self _)
  | scalar slot => rfl
  | constant value => rfl
  | unary op arg ih => exact congrArg op.apply (ih agree)
  | binary op left right ihLeft ihRight =>
    obtain ⟨agreeLeft, agreeRight⟩ := List.forall_mem_append.mp agree
    unfold value
    rw [ihLeft agreeLeft, ihRight agreeRight]
  | select condition whenTrue whenFalse ihCondition ihTrue ihFalse =>
    obtain ⟨⟨agreeCondition, agreeTrue⟩, agreeFalse⟩ :=
      (List.forall_mem_append.trans (and_congr_left' List.forall_mem_append)).mp agree
    unfold value
    rw [ihCondition agreeCondition, ihTrue agreeTrue, ihFalse agreeFalse]

theorem evalAll_eq_ok {tree : Tree} {xs : List Float} :
    tree.evalAll frame region = .ok xs ↔
      (∀ p ∈ region.points, tree.Computable frame p) ∧ region.points.map (tree.held frame) = xs :=
  Steps.mapM_eq_map fun _ _ => eval_eq_ok

end Tree

/-! ### Registers -/

namespace Registers

section Run

variable {frame : Frame} {region : Region}

theorem run_append (first second : List Instruction) (values : List (List Float)) :
    run frame region (first ++ second) values =
      run frame region first values >>= run frame region second := by
  induction first generalizing values with
  | nil => rfl
  | cons instruction rest ih =>
    rw [List.cons_append]
    unfold run
    rw [bind_assoc]
    exact congrArg _ (funext fun value => ih _)

/-- Code with one more instruction runs if the code and then the instruction do. -/
theorem run_emit {code : List Instruction} {instruction : Instruction}
    {after : List (List Float)} :
    run frame region (emit code instruction).code [] = .ok after ↔
      ∃ values, run frame region code [] = .ok values ∧
        ∃ xs, instruction.eval frame region values = .ok xs ∧ values ++ [xs] = after := by
  unfold emit
  rw [run_append, Steps.bind_eq_ok]
  refine exists_congr fun values => and_congr_right fun _ => ?_
  unfold run
  rw [Steps.bind_eq_ok]
  refine exists_congr fun xs => and_congr_right fun _ => ?_
  unfold run
  exact ⟨Except.ok.inj, congrArg Except.ok⟩

/-- Code fills one register per instruction and keeps those that were filled before; a load leaves
in its register what it gathers. -/
theorem run_fills {code : List Instruction} {before after : List (List Float)}
    (ran : run frame region code before = .ok after) :
    (∃ more, after = before ++ more ∧ more.length = code.length) ∧
      ∀ n slot offset, code[n]? = some (.load slot offset) →
        ∃ xs, after[before.length + n]? = some xs ∧
          (frame.view slot).gather offset region = .ok xs := by
  induction code generalizing before with
  | nil =>
    exact ⟨⟨[], by simpa using (Except.ok.inj ran).symm, rfl⟩,
      fun n _ _ absurd => by simp at absurd⟩
  | cons instruction rest ih =>
    unfold run at ran
    obtain ⟨xs, evaluated, ran⟩ := Steps.bind_eq_ok.mp ran
    obtain ⟨⟨more, rfl, length⟩, loads⟩ := ih ran
    refine ⟨⟨xs :: more, by rw [List.append_assoc, List.singleton_append], by simp [length]⟩, ?_⟩
    intro n slot offset found
    cases n with
    | zero =>
      rw [List.getElem?_cons_zero, Option.some.injEq] at found
      subst found
      exact ⟨xs, by simp, evaluated⟩
    | succ n =>
      obtain ⟨ys, at', gathered⟩ := loads n slot offset (by simpa using found)
      refine ⟨ys, ?_, gathered⟩
      rw [List.length_append, List.length_singleton, Nat.add_assoc, Nat.add_comm 1] at at'
      exact at'

end Run

/-- Code behind `code` that leaves the values of a tree in the register of its result. It runs
exactly if `code` does and the tree can be computed. -/
structure Computes (frame : Frame) (region : Region) (code : List Instruction)
    (registers : Registers) (tree : Tree) : Prop where
  behind : ∃ more, registers.code = code ++ more
  runs : ∀ values, run frame region code [] = .ok values →
    (∀ p ∈ region.points, tree.Computable frame p) →
      ∃ added, run frame region registers.code [] = .ok (values ++ added) ∧
        (values ++ added)[registers.result]? = some (region.points.map (tree.held frame))
  computable : ∀ after, run frame region registers.code [] = .ok after →
    ∀ p ∈ region.points, tree.Computable frame p

namespace Computes

variable {frame : Frame} {region : Region} {code : List Instruction}

/-- Code runs only if what stands before it does. -/
theorem before {registers : Registers} {tree : Tree}
    (computes : Computes frame region code registers tree) {after : List (List Float)}
    (ran : run frame region registers.code [] = .ok after) :
    ∃ values, run frame region code [] = .ok values := by
  obtain ⟨more, appended⟩ := computes.behind
  rw [appended, run_append] at ran
  obtain ⟨values, first, -⟩ := Steps.bind_eq_ok.mp ran
  exact ⟨values, first⟩

/-- One more instruction that needs nothing of the registers. -/
theorem leaf {instruction : Instruction} {tree : Tree}
    (evaluates : ∀ values xs, instruction.eval frame region values = .ok xs ↔
      (∀ p ∈ region.points, tree.Computable frame p) ∧ region.points.map (tree.held frame) = xs) :
    Computes frame region code (emit code instruction) tree where
  behind := ⟨_, rfl⟩
  runs values ran computable := by
    refine ⟨[region.points.map (tree.held frame)], ?_, ?_⟩
    · exact run_emit.mpr ⟨values, ran, _, (evaluates values _).mpr ⟨computable, rfl⟩, rfl⟩
    · obtain ⟨⟨more, same, length⟩, -⟩ := run_fills ran
      rw [List.nil_append] at same
      rw [same]
      unfold emit
      rw [← length]
      exact List.getElem?_concat_length
  computable after ran := by
    obtain ⟨values, -, xs, evaluated, -⟩ := run_emit.mp ran
    exact ((evaluates values xs).mp evaluated).1

/-- The register with a result keeps it when code is added. -/
theorem getD_of_eq {values : List (List Float)} {register : Nat} {xs : List Float}
    (found : values[register]? = some xs) (added : List (List Float)) :
    (values ++ added).getD register [] = xs := by
  have below : register < values.length := (List.getElem?_eq_some_iff.mp found).1
  rw [List.getD_eq_getElem?_getD, List.getElem?_append_left below, found, Option.getD_some]

/-- The register filled last. -/
theorem last_register {registers : Registers} {instruction : Instruction}
    {values : List (List Float)} (ran : run frame region registers.code [] = .ok values)
    (xs : List Float) :
    (values ++ [xs])[(emit registers.code instruction).result]? = some xs := by
  obtain ⟨⟨more, same, length⟩, -⟩ := run_fills ran
  rw [List.nil_append] at same
  rw [same]
  unfold emit
  rw [← length]
  exact List.getElem?_concat_length

theorem unary {arg : Registers} {tree : Tree} (op : UnaryOperator)
    (computes : Computes frame region code arg tree) :
    Computes frame region code (emit arg.code (.unary op arg.result)) (.unary op tree) where
  behind := by
    obtain ⟨more, same⟩ := computes.behind
    exact ⟨more ++ [.unary op arg.result], by rw [emit, same, List.append_assoc]⟩
  runs values ran computable := by
    obtain ⟨added, ranArg, found⟩ := computes.runs values ran computable
    have value : (values ++ added).getD arg.result [] = region.points.map (tree.held frame) := by
      simpa using getD_of_eq found []
    refine ⟨added ++ [region.points.map ((Tree.unary op tree).held frame)], ?_, ?_⟩
    · refine run_emit.mpr ⟨_, ranArg, _, ?_, List.append_assoc _ _ _⟩
      show Except.ok (((values ++ added).getD arg.result []).map op.apply) = _
      rw [value, List.map_map]
      rfl
    · rw [← List.append_assoc]
      exact last_register ranArg _
  computable after ran := by
    obtain ⟨values, ranArg, -⟩ := run_emit.mp ran
    exact computes.computable values ranArg

theorem binary {left right : Registers} {first second : Tree} (op : BinaryOperator)
    (computesLeft : Computes frame region code left first)
    (computesRight : Computes frame region left.code right second) :
    Computes frame region code (emit right.code (.binary op left.result right.result))
      (.binary op first second) where
  behind := by
    obtain ⟨more, same⟩ := computesLeft.behind
    obtain ⟨more', same'⟩ := computesRight.behind
    exact ⟨more ++ more' ++ [.binary op left.result right.result], by
      rw [emit, same', same]; simp only [List.append_assoc]⟩
  runs values ran computable := by
    have both : ∀ p ∈ region.points, first.Computable frame p ∧ second.Computable frame p :=
      fun p member => List.forall_mem_append.mp (computable p member)
    obtain ⟨added, ranLeft, foundLeft⟩ :=
      computesLeft.runs values ran fun p member => (both p member).1
    obtain ⟨added', ranRight, foundRight⟩ :=
      computesRight.runs _ ranLeft fun p member => (both p member).2
    have valueLeft : (values ++ added ++ added').getD left.result [] =
        region.points.map (first.held frame) := getD_of_eq foundLeft _
    have valueRight : (values ++ added ++ added').getD right.result [] =
        region.points.map (second.held frame) := by
      simpa using getD_of_eq foundRight []
    refine ⟨added ++ (added' ++ [region.points.map ((Tree.binary op first second).held frame)]),
      ?_, ?_⟩
    · refine run_emit.mpr ⟨_, ranRight,
        region.points.map ((Tree.binary op first second).held frame),
        ?_, by simp only [List.append_assoc]⟩
      show Except.ok (List.zipWith op.apply ((values ++ added ++ added').getD left.result [])
        ((values ++ added ++ added').getD right.result [])) = _
      rw [valueLeft, valueRight, List.zipWith_map, List.zipWith_self]
      rfl
    · rw [← List.append_assoc, ← List.append_assoc]
      exact last_register ranRight _
  computable after ran := by
    obtain ⟨values, ranRight, -⟩ := run_emit.mp ran
    obtain ⟨values', ranLeft⟩ := computesRight.before ranRight
    intro p member
    exact List.forall_mem_append.mpr
      ⟨computesLeft.computable _ ranLeft p member, computesRight.computable _ ranRight p member⟩

theorem select {condition whenTrue whenFalse : Registers} {test first second : Tree}
    (computesTest : Computes frame region code condition test)
    (computesFirst : Computes frame region condition.code whenTrue first)
    (computesSecond : Computes frame region whenTrue.code whenFalse second) :
    Computes frame region code
      (emit whenFalse.code (.select condition.result whenTrue.result whenFalse.result))
      (.select test first second) where
  behind := by
    obtain ⟨more, same⟩ := computesTest.behind
    obtain ⟨more', same'⟩ := computesFirst.behind
    obtain ⟨more'', same''⟩ := computesSecond.behind
    exact ⟨more ++ more' ++ more'' ++ [.select condition.result whenTrue.result whenFalse.result],
      by rw [emit, same'', same', same]; simp only [List.append_assoc]⟩
  runs values ran computable := by
    have all : ∀ p ∈ region.points, (test.Computable frame p ∧ first.Computable frame p) ∧
        second.Computable frame p := fun p member =>
      (List.forall_mem_append.trans (and_congr_left' List.forall_mem_append)).mp
        (computable p member)
    obtain ⟨added, ranTest, foundTest⟩ :=
      computesTest.runs values ran fun p member => (all p member).1.1
    obtain ⟨added', ranFirst, foundFirst⟩ :=
      computesFirst.runs _ ranTest fun p member => (all p member).1.2
    obtain ⟨added'', ranSecond, foundSecond⟩ :=
      computesSecond.runs _ ranFirst fun p member => (all p member).2
    have valueTest : (values ++ added ++ added' ++ added'').getD condition.result [] =
        region.points.map (test.held frame) := by
      rw [List.append_assoc (values ++ added)]
      exact getD_of_eq foundTest _
    have valueFirst : (values ++ added ++ added' ++ added'').getD whenTrue.result [] =
        region.points.map (first.held frame) := getD_of_eq foundFirst _
    have valueSecond : (values ++ added ++ added' ++ added'').getD whenFalse.result [] =
        region.points.map (second.held frame) := by
      simpa using getD_of_eq foundSecond []
    refine ⟨added ++ (added' ++ (added'' ++
      [region.points.map ((Tree.select test first second).held frame)])), ?_, ?_⟩
    · refine run_emit.mpr ⟨_, ranSecond,
        region.points.map ((Tree.select test first second).held frame),
        ?_, by simp only [List.append_assoc]⟩
      unfold Instruction.eval
      dsimp only
      rw [valueTest, valueFirst, valueSecond, List.zip_map', List.zipWith_map, List.zipWith_self]
      rfl
    · rw [← List.append_assoc, ← List.append_assoc, ← List.append_assoc]
      exact last_register ranSecond _
  computable after ran := by
    obtain ⟨values, ranSecond, -⟩ := run_emit.mp ran
    obtain ⟨values', ranFirst⟩ := computesSecond.before ranSecond
    obtain ⟨values'', ranTest⟩ := computesFirst.before ranFirst
    intro p member
    refine (List.forall_mem_append.trans (and_congr_left' List.forall_mem_append)).mpr
      ⟨⟨?_, ?_⟩, ?_⟩
    · exact computesTest.computable _ ranTest p member
    · exact computesFirst.computable _ ranFirst p member
    · exact computesSecond.computable _ ranSecond p member

/-- A load that is there already, or one more. -/
theorem load (slot : Nat) (offset : Offset) (sound : (frame.view slot).PointSound)
    (points : region.size ≠ 0) :
    Computes frame region code
      (match code.findIdx? (Instruction.loads slot offset) with
        | some register => ⟨code, register⟩
        | none => emit code (.load slot offset))
      (.field slot offset) := by
  have gathers : ∀ xs, (frame.view slot).gather offset region = .ok xs ↔
      (∀ p ∈ region.points, (Tree.field slot offset).Computable frame p) ∧
        region.points.map ((Tree.field slot offset).held frame) = xs := by
    intro xs
    rw [View.gather_eq_ok sound points]
    refine and_congr_left' (forall₂_congr fun p _ => ?_)
    exact Tree.computable_field.symm
  split
  next register found =>
    obtain ⟨below, loads, -⟩ := List.findIdx?_eq_some_iff_getElem.mp found
    have there : code[register]? = some (.load slot offset) := by
      rw [List.getElem?_eq_getElem below, Option.some.injEq]
      unfold Instruction.loads at loads
      split at loads
      next other place there =>
        simp only [Bool.and_eq_true, decide_eq_true_eq] at loads
        rw [there, loads.1, loads.2]
      · cases loads
    refine ⟨⟨[], (List.append_nil code).symm⟩, fun values ran computable => ?_, fun after ran => ?_⟩
    · obtain ⟨xs, found, gathered⟩ := (run_fills ran).2 register slot offset there
      refine ⟨[], by rw [List.append_nil]; exact ran, ?_⟩
      rw [List.append_nil, ((gathers xs).mp gathered).2]
      simpa using found
    · obtain ⟨xs, -, gathered⟩ := (run_fills ran).2 register slot offset there
      exact ((gathers xs).mp gathered).1
  · exact leaf fun _ xs => gathers xs

end Computes

/-- Code for an expression exists exactly if a tree does. -/
theorem extend?_isOk (interface : Interface) (expr : Program.Expr) (code : List Instruction) :
    (∃ registers, extend? interface code expr = .ok registers) ↔
      ∃ tree, Tree.ofExpr? interface expr = .ok tree := by
  induction expr generalizing code with
  | field name offset =>
    unfold extend? Tree.ofExpr?
    cases interface.slot? name with
    | none => exact ⟨fun ⟨_, absurd⟩ => (nomatch absurd), fun ⟨_, absurd⟩ => (nomatch absurd)⟩
    | some slot =>
      refine ⟨fun _ => ⟨_, rfl⟩, fun _ => ?_⟩
      dsimp only
      split
      · exact ⟨_, rfl⟩
      · exact ⟨_, rfl⟩
  | scalar name =>
    unfold extend? Tree.ofExpr?
    cases interface.scalarSlot? name with
    | none => exact ⟨fun ⟨_, absurd⟩ => (nomatch absurd), fun ⟨_, absurd⟩ => (nomatch absurd)⟩
    | some slot => exact ⟨fun _ => ⟨_, rfl⟩, fun _ => ⟨_, rfl⟩⟩
  | literal value => exact ⟨fun _ => ⟨_, rfl⟩, fun _ => ⟨_, rfl⟩⟩
  | unary op arg ih =>
    unfold extend? Tree.ofExpr?
    simp only [Steps.bind_eq_ok]
    constructor
    · rintro ⟨_, registers, first, -⟩
      obtain ⟨tree, shape⟩ := (ih code).mp ⟨registers, first⟩
      exact ⟨_, tree, shape, rfl⟩
    · rintro ⟨_, tree, shape, -⟩
      obtain ⟨registers, first⟩ := (ih code).mpr ⟨tree, shape⟩
      exact ⟨_, registers, first, rfl⟩
  | binary op left right ihLeft ihRight =>
    unfold extend? Tree.ofExpr?
    simp only [Steps.bind_eq_ok]
    constructor
    · rintro ⟨_, registers, first, registers', second, -⟩
      obtain ⟨tree, shape⟩ := (ihLeft code).mp ⟨registers, first⟩
      obtain ⟨tree', shape'⟩ := (ihRight _).mp ⟨registers', second⟩
      exact ⟨_, tree, shape, tree', shape', rfl⟩
    · rintro ⟨_, tree, shape, tree', shape', -⟩
      obtain ⟨registers, first⟩ := (ihLeft code).mpr ⟨tree, shape⟩
      obtain ⟨registers', second⟩ := (ihRight registers.code).mpr ⟨tree', shape'⟩
      exact ⟨_, registers, first, registers', second, rfl⟩
  | select condition whenTrue whenFalse ihCondition ihTrue ihFalse =>
    unfold extend? Tree.ofExpr?
    simp only [Steps.bind_eq_ok]
    constructor
    · rintro ⟨_, registers, first, registers', second, registers'', third, -⟩
      obtain ⟨tree, shape⟩ := (ihCondition code).mp ⟨registers, first⟩
      obtain ⟨tree', shape'⟩ := (ihTrue _).mp ⟨registers', second⟩
      obtain ⟨tree'', shape''⟩ := (ihFalse _).mp ⟨registers'', third⟩
      exact ⟨_, tree, shape, tree', shape', tree'', shape'', rfl⟩
    · rintro ⟨_, tree, shape, tree', shape', tree'', shape'', -⟩
      obtain ⟨registers, first⟩ := (ihCondition code).mpr ⟨tree, shape⟩
      obtain ⟨registers', second⟩ := (ihTrue registers.code).mpr ⟨tree', shape'⟩
      obtain ⟨registers'', third⟩ := (ihFalse registers'.code).mpr ⟨tree'', shape''⟩
      exact ⟨_, registers, first, registers', second, registers'', third, rfl⟩

/-- **Code for an expression computes its tree**, whatever code stands before it. -/
theorem extend?_computes {frame : Frame} {region : Region} {interface : Interface}
    (sound : ∀ slot, (frame.view slot).PointSound) (points : region.size ≠ 0)
    {expr : Program.Expr} {code : List Instruction} {registers : Registers} {tree : Tree}
    (extended : extend? interface code expr = .ok registers)
    (shape : Tree.ofExpr? interface expr = .ok tree) :
    Computes frame region code registers tree := by
  induction expr generalizing code registers tree with
  | field name offset =>
    unfold extend? at extended
    unfold Tree.ofExpr? at shape
    cases found : interface.slot? name with
    | none => rw [found] at shape; cases shape
    | some slot =>
      rw [found] at extended shape
      cases shape
      have load : Computes frame region code _ _ := .load slot offset (sound slot) points
      dsimp only at extended
      split at extended
      next register known =>
        cases extended
        rwa [known] at load
      next unknown =>
        cases extended
        rwa [unknown] at load
  | scalar name =>
    unfold extend? at extended
    unfold Tree.ofExpr? at shape
    cases found : interface.scalarSlot? name with
    | none => rw [found] at shape; cases shape
    | some slot =>
      rw [found] at extended shape
      cases extended
      cases shape
      refine Computes.leaf fun values xs => ?_
      show Except.ok (List.replicate region.size (frame.scalar slot)) = _ ↔ _
      rw [Region.replicate_size]
      exact ⟨fun same => ⟨fun _ _ _ absurd => (nomatch absurd), Except.ok.inj same⟩,
        fun both => congrArg Except.ok both.2⟩
  | literal value =>
    cases extended
    cases shape
    refine Computes.leaf fun values xs => ?_
    show Except.ok (List.replicate region.size value.toFloat) = _ ↔ _
    rw [Region.replicate_size]
    exact ⟨fun same => ⟨fun _ _ _ absurd => (nomatch absurd), Except.ok.inj same⟩,
      fun both => congrArg Except.ok both.2⟩
  | unary op arg ih =>
    obtain ⟨inner, first, same⟩ := Steps.bind_eq_ok.mp extended
    obtain ⟨argTree, argShape, sameTree⟩ := Steps.bind_eq_ok.mp shape
    cases same
    cases sameTree
    exact (ih first argShape).unary op
  | binary op left right ihLeft ihRight =>
    obtain ⟨inner, first, rest⟩ := Steps.bind_eq_ok.mp extended
    obtain ⟨inner', second, same⟩ := Steps.bind_eq_ok.mp rest
    obtain ⟨leftTree, leftShape, rest⟩ := Steps.bind_eq_ok.mp shape
    obtain ⟨rightTree, rightShape, sameTree⟩ := Steps.bind_eq_ok.mp rest
    cases same
    cases sameTree
    exact (ihLeft first leftShape).binary op (ihRight second rightShape)
  | select condition whenTrue whenFalse ihCondition ihTrue ihFalse =>
    obtain ⟨inner, first, rest⟩ := Steps.bind_eq_ok.mp extended
    obtain ⟨inner', second, rest⟩ := Steps.bind_eq_ok.mp rest
    obtain ⟨inner'', third, same⟩ := Steps.bind_eq_ok.mp rest
    obtain ⟨testTree, testShape, rest⟩ := Steps.bind_eq_ok.mp shape
    obtain ⟨trueTree, trueShape, rest⟩ := Steps.bind_eq_ok.mp rest
    obtain ⟨falseTree, falseShape, sameTree⟩ := Steps.bind_eq_ok.mp rest
    cases same
    cases sameTree
    exact (ihCondition first testShape).select (ihTrue second trueShape)
      (ihFalse third falseShape)

/-- **Code for registers and trees agree**: both succeed on a region together, with the same
values. -/
theorem evalAll_iff {frame : Frame} {region : Region} {interface : Interface}
    (sound : ∀ slot, (frame.view slot).PointSound) (points : region.size ≠ 0)
    {expr : Program.Expr} {registers : Registers} {tree : Tree}
    (code : ofExpr? interface expr = .ok registers)
    (shape : Tree.ofExpr? interface expr = .ok tree) {xs : List Float} :
    registers.evalAll frame region = .ok xs ↔ tree.evalAll frame region = .ok xs := by
  have computes := extend?_computes sound points code shape
  rw [Tree.evalAll_eq_ok]
  unfold evalAll
  rw [Steps.bind_eq_ok]
  constructor
  · rintro ⟨values, ran, same⟩
    have computable := computes.computable values ran
    obtain ⟨added, ran', found⟩ := computes.runs [] rfl computable
    rw [ran, Except.ok.injEq] at ran'
    refine ⟨computable, ?_⟩
    rw [← Except.ok.inj same, ran', List.getD_eq_getElem?_getD, found, Option.getD_some]
  · rintro ⟨computable, rfl⟩
    obtain ⟨added, ran, found⟩ := computes.runs [] rfl computable
    refine ⟨_, ran, ?_⟩
    rw [List.getD_eq_getElem?_getD, found, Option.getD_some]
    rfl

end Registers

end GridStencil
