import GridStencil.Proofs.Kernel.Binding

/-!
**Which elements a task reads and writes.**

`Task.reads` and `Task.writes` list the accesses of a task, as fields with points of the grid. They
are what the run of the task depends on and what it changes:

* `Code.eval_footprint`: code gives the same on two frames that agree on its reads.
* `Schedule.runTask_untouched`, `Schedule.runTasks_untouched`: a task leaves every element alone that it
  does not write, and so do all tasks of a run.
* `Frame.Serves.confined`: both of this for any task on any frame of a run.
* `Schedule.runTask_failure`: if all accesses are inside their buffers, a task can only fail for a
  plane that has not been computed.
-/

namespace GridStencil

/-! ### Reads of code -/

/-- A field by number and an offset are those of a read of an expression. -/
def Interface.Means (interface : Interface) (reads : List Program.Read) (access : Nat × Offset) :
    Prop :=
  ∃ read ∈ reads, interface.slot? read.field = some access.1 ∧ read.offset = access.2

theorem Interface.Means.mono {interface : Interface} {reads more : List Program.Read}
    {access : Nat × Offset} (means : interface.Means reads access) (subset : reads ⊆ more) :
    interface.Means more access := by
  obtain ⟨read, member, rest⟩ := means
  exact ⟨read, subset member, rest⟩

/-- A tree reads what its expression reads. -/
theorem Tree.reads_mean {interface : Interface} {expr : Program.Expr} {tree : Tree}
    (shape : ofExpr? interface expr = .ok tree) :
    ∀ access ∈ tree.reads, interface.Means expr.reads access := by
  induction expr generalizing tree with
  | field name offset =>
    unfold ofExpr? at shape
    split at shape
    next slot found =>
      cases shape
      intro access member
      rw [List.mem_singleton.mp member]
      exact ⟨⟨name, offset⟩, List.mem_singleton_self _, found, rfl⟩
    · cases shape
  | scalar name =>
    unfold ofExpr? at shape
    split at shape
    · cases shape
      exact fun _ absurd => nomatch absurd
    · cases shape
  | literal value =>
    cases shape
    exact fun _ absurd => nomatch absurd
  | unary op arg ih =>
    obtain ⟨argTree, argShape, same⟩ := Steps.bind_eq_ok.mp shape
    cases same
    exact fun access member => ih argShape access member
  | binary op left right ihLeft ihRight =>
    obtain ⟨leftTree, leftShape, rest⟩ := Steps.bind_eq_ok.mp shape
    obtain ⟨rightTree, rightShape, same⟩ := Steps.bind_eq_ok.mp rest
    cases same
    intro access member
    rcases List.mem_append.mp member with first | second
    · exact (ihLeft leftShape access first).mono (List.subset_append_left _ _)
    · exact (ihRight rightShape access second).mono (List.subset_append_right _ _)
  | select condition whenTrue whenFalse ihCondition ihTrue ihFalse =>
    obtain ⟨testTree, testShape, rest⟩ := Steps.bind_eq_ok.mp shape
    obtain ⟨trueTree, trueShape, rest⟩ := Steps.bind_eq_ok.mp rest
    obtain ⟨falseTree, falseShape, same⟩ := Steps.bind_eq_ok.mp rest
    cases same
    intro access member
    rcases List.mem_append.mp member with early | third
    · rcases List.mem_append.mp early with first | second
      · exact (ihCondition testShape access first).mono
          (List.Subset.trans (List.subset_append_left _ _) (List.subset_append_left _ _))
      · exact (ihTrue trueShape access second).mono
          (List.Subset.trans (List.subset_append_right _ _) (List.subset_append_left _ _))
    · exact (ihFalse falseShape access third).mono (List.subset_append_right _ _)

namespace Registers

/-- The fields and offsets that some code loads. -/
def loadsOf (code : List Instruction) : List (Nat × Offset) :=
  code.filterMap fun
    | .load slot offset => some (slot, offset)
    | _ => none

theorem mem_loadsOf {code : List Instruction} {access : Nat × Offset} :
    access ∈ loadsOf code ↔ .load access.1 access.2 ∈ code := by
  unfold loadsOf
  rw [List.mem_filterMap]
  constructor
  · rintro ⟨instruction, member, kept⟩
    cases instruction <;> cases kept
    exact member
  · exact fun member => ⟨_, member, rfl⟩

theorem mem_emit {code : List Instruction} {instruction : Instruction} {access : Nat × Offset}
    (member : access ∈ loadsOf (emit code instruction).code) :
    access ∈ loadsOf code ∨ .load access.1 access.2 = instruction := by
  rw [mem_loadsOf] at member ⊢
  exact (List.mem_append.mp member).imp_right List.mem_singleton.mp

/-- Code for an expression loads what the code before it loads, and what the expression reads. -/
theorem extend?_mean {interface : Interface} {expr : Program.Expr} {code : List Instruction}
    {registers : Registers} (extended : extend? interface code expr = .ok registers) :
    ∀ access ∈ loadsOf registers.code,
      access ∈ loadsOf code ∨ interface.Means expr.reads access := by
  induction expr generalizing code registers with
  | field name offset =>
    unfold extend? at extended
    split at extended
    · cases extended
    next slot found =>
      split at extended
      · cases extended
        exact fun access member => .inl member
      · cases extended
        intro access member
        refine (mem_emit member).imp_right fun same => ?_
        cases same
        exact ⟨⟨name, access.2⟩, List.mem_singleton_self _, found, rfl⟩
  | scalar name =>
    unfold extend? at extended
    split at extended
    · cases extended
      exact fun access member => (mem_emit member).imp_right fun absurd => by cases absurd
    · cases extended
  | literal value =>
    cases extended
    exact fun access member => (mem_emit member).imp_right fun absurd => by cases absurd
  | unary op arg ih =>
    obtain ⟨inner, first, same⟩ := Steps.bind_eq_ok.mp extended
    cases same
    intro access member
    rcases mem_emit member with before | absurd
    · exact ih first access before
    · cases absurd
  | binary op left right ihLeft ihRight =>
    obtain ⟨inner, first, rest⟩ := Steps.bind_eq_ok.mp extended
    obtain ⟨inner', second, same⟩ := Steps.bind_eq_ok.mp rest
    cases same
    intro access member
    rcases mem_emit member with before | absurd
    · rcases ihRight second access before with earlier | here
      · exact (ihLeft first access earlier).imp_right fun means =>
          means.mono (List.subset_append_left _ _)
      · exact .inr (here.mono (List.subset_append_right _ _))
    · cases absurd
  | select condition whenTrue whenFalse ihCondition ihTrue ihFalse =>
    obtain ⟨inner, first, rest⟩ := Steps.bind_eq_ok.mp extended
    obtain ⟨inner', second, rest⟩ := Steps.bind_eq_ok.mp rest
    obtain ⟨inner'', third, same⟩ := Steps.bind_eq_ok.mp rest
    cases same
    intro access member
    rcases mem_emit member with before | absurd
    · rcases ihFalse third access before with earlier | here
      · rcases ihTrue second access earlier with earliest | there
        · exact (ihCondition first access earliest).imp_right fun means => means.mono
            (List.Subset.trans (List.subset_append_left _ _) (List.subset_append_left _ _))
        · exact .inr (there.mono
            (List.Subset.trans (List.subset_append_right _ _) (List.subset_append_left _ _)))
      · exact .inr (here.mono (List.subset_append_right _ _))
    · cases absurd

end Registers

namespace Code

/-- The fields that some code reads, with their offsets. -/
def reads : Code → List (Nat × Offset)
  | pointwise tree => tree.reads
  | regionwise registers => Registers.loadsOf registers.code

/-- **Code reads what its expression reads**, with either backend. -/
theorem reads_mean {backend : Backend} {interface : Interface} {expr : Program.Expr} {code : Code}
    (compiled : ofExpr? backend interface expr = .ok code) :
    ∀ access ∈ code.reads, interface.Means expr.reads access := by
  cases backend with
  | debug =>
    obtain ⟨tree, shape, same⟩ := Steps.bind_eq_ok.mp compiled
    cases same
    exact Tree.reads_mean shape
  | vector =>
    obtain ⟨registers, extended, same⟩ := Steps.bind_eq_ok.mp compiled
    cases same
    exact fun access member =>
      (Registers.extend?_mean extended access member).resolve_left fun absurd => nomatch absurd

end Code

/-! ### What a failure says -/

namespace View

/-- The failure of a read of a plane that has not been computed. -/
def LacksPlane (view : View) (cause : Cause) : Prop :=
  ∃ k, view.lacks k = true ∧ cause = .planeNotComputed view.name k

theorem requirePlanes_eq_error {view : View} {planes : Stretch} {cause : Cause}
    (failed : view.requirePlanes planes = .error cause) : view.LacksPlane cause := by
  unfold requirePlanes at failed
  split at failed
  next k found =>
    cases failed
    exact ⟨k, List.find?_some found, rfl⟩
  · cases failed

/-- The element of a buffer at a point of it. -/
def element (view : View) (index : Offset) : Float :=
  view.storage.valueAt (Storage.spot view.storage.shape index)

theorem element_congr {a b : View} (same : a.storage = b.storage) (index : Offset) :
    a.element index = b.element index := by
  unfold element
  rw [same]

/-- The access to a point stays inside the buffer. -/
def Contains (view : View) (p : Offset) : Prop :=
  Storage.Inside view.storage.shape (view.index p)

/-- A read inside the buffer can only fail for its plane. -/
theorem read_eq_error {view : View} {p : Offset} {cause : Cause} (inside : view.Contains p)
    (failed : view.read p = .error cause) : view.LacksPlane cause := by
  unfold read at failed
  rw [Storage.place?_eq_some.mpr ⟨inside, rfl⟩] at failed
  dsimp only at failed
  cases planes : view.requirePlanes ⟨p.k, p.k + 1⟩ with
  | error other =>
    rw [planes] at failed
    cases failed
    exact requirePlanes_eq_error planes
  | ok _ =>
    rw [planes] at failed
    cases failed

/-- A load inside the buffer can only fail for a plane. -/
theorem gather_eq_error {view : View} {offset : Offset} {region : Region} {cause : Cause}
    (inside : ∀ p ∈ region.points, view.Contains (p.add offset))
    (failed : view.gather offset region = .error cause) : view.LacksPlane cause := by
  unfold gather at failed
  split at failed
  · cases failed
  split at failed
  · cases failed
  next planes =>
    cases complete : view.requirePlanes ⟨region.k.start + offset.k, region.k.stop + offset.k⟩ with
    | error other =>
      rw [complete] at failed
      cases failed
      exact requirePlanes_eq_error complete
    | ok _ =>
      rw [complete] at failed
      -- all columns are inside, since their ends are points of the region
      cases columns : region.columns.mapM fun column => view.readColumn
          (({ column with k := region.k.start } : Offset).add offset) region.k.length with
      | ok values =>
        rw [columns] at failed
        cases failed
      | error other =>
        obtain ⟨column, member, missing⟩ := Steps.mapM_eq_error columns
        have ends : region.k.start ∈ region.k.toList ∧
            region.k.start + (region.k.length - 1) ∈ region.k.toList := by
          simp only [Stretch.mem_toList, Stretch.length] at planes ⊢
          omega
        have low := inside _ (Region.mem_points_iff.mpr ⟨column, member, _, ends.1, rfl⟩)
        have high := inside _ (Region.mem_points_iff.mpr ⟨column, member, _, ends.2, rfl⟩)
        have same : (columnStart offset region column).add ⟨0, 0, region.k.length - 1⟩ =
            ({ column with k := region.k.start + (region.k.length - 1) } : Offset).add offset := by
          simp only [columnStart, Offset.add, Offset.mk.injEq]
          omega
        have read := readColumn_eq_ok.mpr ⟨⟨low, same ▸ high⟩, rfl⟩
        rw [read] at missing
        cases missing

end View

namespace Tree

/-- A tree fails where one of its reads does. -/
theorem eval_eq_error {tree : Tree} {frame : Frame} {p : Offset} {cause : Cause}
    (failed : tree.eval frame p = .error cause) :
    ∃ access ∈ tree.reads, (frame.view access.1).read (p.add access.2) = .error cause := by
  induction tree with
  | field slot offset => exact ⟨(slot, offset), List.mem_singleton_self _, failed⟩
  | scalar slot => cases failed
  | constant value => cases failed
  | unary op arg ih =>
    unfold eval at failed
    cases evaluated : arg.eval frame p with
    | error other =>
      rw [evaluated] at failed
      cases failed
      exact ih evaluated
    | ok x =>
      rw [evaluated] at failed
      cases failed
  | binary op left right ihLeft ihRight =>
    unfold eval at failed
    cases first : left.eval frame p with
    | error other =>
      rw [first] at failed
      cases failed
      obtain ⟨access, member, found⟩ := ihLeft first
      exact ⟨access, List.mem_append_left _ member, found⟩
    | ok x =>
      rw [first] at failed
      cases second : right.eval frame p with
      | error other =>
        rw [second] at failed
        cases failed
        obtain ⟨access, member, found⟩ := ihRight second
        exact ⟨access, List.mem_append_right _ member, found⟩
      | ok y =>
        rw [second] at failed
        cases failed
  | select condition whenTrue whenFalse ihCondition ihTrue ihFalse =>
    unfold eval at failed
    cases first : whenTrue.eval frame p with
    | error other =>
      rw [first] at failed
      cases failed
      obtain ⟨access, member, found⟩ := ihTrue first
      exact ⟨access, List.mem_append_left _ (List.mem_append_right _ member), found⟩
    | ok x =>
      rw [first] at failed
      cases second : whenFalse.eval frame p with
      | error other =>
        rw [second] at failed
        cases failed
        obtain ⟨access, member, found⟩ := ihFalse second
        exact ⟨access, List.mem_append_right _ member, found⟩
      | ok y =>
        rw [second] at failed
        cases third : condition.eval frame p with
        | error other =>
          rw [third] at failed
          cases failed
          obtain ⟨access, member, found⟩ := ihCondition third
          exact ⟨access, List.mem_append_left _ (List.mem_append_left _ member), found⟩
        | ok z =>
          rw [third] at failed
          cases failed

end Tree

namespace Registers

/-- Code fails where one of its loads does. -/
theorem run_eq_error {frame : Frame} {region : Region} {code : List Instruction}
    {before : List (List Float)} {cause : Cause}
    (failed : run frame region code before = .error cause) :
    ∃ access ∈ loadsOf code, (frame.view access.1).gather access.2 region = .error cause := by
  induction code generalizing before with
  | nil => cases failed
  | cons instruction rest ih =>
    unfold run at failed
    cases evaluated : instruction.eval frame region before with
    | error other =>
      rw [evaluated] at failed
      cases failed
      cases instruction with
      | load slot offset =>
        exact ⟨(slot, offset), mem_loadsOf.mpr List.mem_cons_self, evaluated⟩
      | scalar slot => cases evaluated
      | constant value => cases evaluated
      | unary op arg => cases evaluated
      | binary op left right => cases evaluated
      | select condition whenTrue whenFalse => cases evaluated
    | ok values =>
      rw [evaluated] at failed
      obtain ⟨access, member, found⟩ := ih failed
      exact ⟨access, mem_loadsOf.mpr (List.mem_cons_of_mem _ (mem_loadsOf.mp member)), found⟩

end Registers

namespace Code

/-- **Code whose reads stay inside their buffers can only fail for a plane.** -/
theorem eval_eq_error {code : Code} {frame : Frame} {region : Region} {cause : Cause}
    (inside : ∀ p ∈ region.points, ∀ access ∈ code.reads,
      (frame.view access.1).Contains (p.add access.2))
    (failed : code.eval frame region = .error cause) :
    ∃ access ∈ code.reads, (frame.view access.1).LacksPlane cause := by
  cases code with
  | pointwise tree =>
    obtain ⟨p, member, failed⟩ := Steps.mapM_eq_error failed
    obtain ⟨access, read, found⟩ := Tree.eval_eq_error failed
    exact ⟨access, read, View.read_eq_error (inside p member access read) found⟩
  | regionwise registers =>
    have ran : ∃ cause', Registers.run frame region registers.code [] = .error cause' ∧
        cause' = cause := by
      cases result : Registers.run frame region registers.code [] with
      | error other =>
        have failed : (Registers.run frame region registers.code [] >>= fun values =>
          pure (values.getD registers.result [])) = Except.error cause := failed
        rw [result] at failed
        exact ⟨other, rfl, Except.error.inj failed⟩
      | ok values =>
        have failed : (Registers.run frame region registers.code [] >>= fun values =>
          pure (values.getD registers.result [])) = Except.error cause := failed
        rw [result] at failed
        cases failed
    obtain ⟨_, ran, rfl⟩ := ran
    obtain ⟨access, load, found⟩ := Registers.run_eq_error ran
    exact ⟨access, load, View.gather_eq_error (fun p member => inside p member access load) found⟩

end Code

/-! ### What code depends on -/

section Footprint

variable {frame other : Frame} {region : Region}

theorem View.held_congr {view view' : View} {p : Offset}
    (same : ∀ x, view.read p = .ok x ↔ view'.read p = .ok x) :
    (view.Readable p ↔ view'.Readable p) ∧ view.held p = view'.held p := by
  refine ⟨exists_congr same, ?_⟩
  unfold View.held
  cases read : view.read p with
  | ok x => rw [(same x).mp read]
  | error cause =>
    cases read' : view'.read p with
    | ok x =>
      rw [(same x).mpr read'] at read
      cases read
    | error cause' => rfl

/-- A tree can be computed on both of two frames that agree on its reads, with the same value. -/
theorem Tree.footprint {tree : Tree} {p : Offset} (scalars : frame.scalars = other.scalars)
    (agree : ∀ access ∈ tree.reads, ∀ x, (frame.view access.1).read (p.add access.2) = .ok x ↔
      (other.view access.1).read (p.add access.2) = .ok x) :
    (tree.Computable frame p ↔ tree.Computable other p) ∧
      tree.held frame p = tree.held other p := by
  refine ⟨forall₂_congr fun access member => (View.held_congr (agree access member)).1, ?_⟩
  have sameScalars : frame.scalar = other.scalar := by
    funext slot
    unfold Frame.scalar
    rw [scalars]
  unfold held
  rw [sameScalars]
  exact value_congr fun access member => (View.held_congr (agree access member)).2

/-- Code leaves the same in its registers on frames that agree on its loads. -/
theorem Registers.run_footprint {code : List Instruction} {before after : List (List Float)}
    (scalars : frame.scalars = other.scalars)
    (agree : ∀ access ∈ loadsOf code, ∀ xs,
      (frame.view access.1).gather access.2 region = .ok xs ↔
        (other.view access.1).gather access.2 region = .ok xs) :
    run frame region code before = .ok after ↔ run other region code before = .ok after := by
  induction code generalizing before with
  | nil => exact Iff.rfl
  | cons instruction rest ih =>
    have tail : ∀ access ∈ loadsOf rest, access ∈ loadsOf (instruction :: rest) :=
      fun access member => mem_loadsOf.mpr (List.mem_cons_of_mem _ (mem_loadsOf.mp member))
    have first : ∀ xs, instruction.eval frame region before = .ok xs ↔
        instruction.eval other region before = .ok xs := by
      intro xs
      cases instruction with
      | load slot offset =>
        exact agree (slot, offset) (mem_loadsOf.mpr List.mem_cons_self) xs
      | scalar slot =>
        show Except.ok (List.replicate region.size (frame.scalars.getD slot 0.0)) = _ ↔
          Except.ok (List.replicate region.size (other.scalars.getD slot 0.0)) = _
        rw [scalars]
      | constant value => exact Iff.rfl
      | unary op arg => exact Iff.rfl
      | binary op left right => exact Iff.rfl
      | select condition whenTrue whenFalse => exact Iff.rfl
    unfold run
    rw [Steps.bind_eq_ok, Steps.bind_eq_ok]
    refine exists_congr fun xs => and_congr (first xs) ?_
    exact ih fun access member => agree access (tail access member)

/-- **Code gives the same on two frames that agree on its reads.** -/
theorem Code.eval_footprint {code : Code} (sound : ∀ slot, (frame.view slot).PointSound)
    (sound' : ∀ slot, (other.view slot).PointSound) (points : region.size ≠ 0)
    (scalars : frame.scalars = other.scalars)
    (agree : ∀ p ∈ region.points, ∀ access ∈ code.reads, ∀ x,
      (frame.view access.1).read (p.add access.2) = .ok x ↔
        (other.view access.1).read (p.add access.2) = .ok x)
    {xs : List Float} : code.eval frame region = .ok xs ↔ code.eval other region = .ok xs := by
  cases code with
  | pointwise tree =>
    show tree.evalAll frame region = .ok xs ↔ tree.evalAll other region = .ok xs
    have same := fun p member => Tree.footprint scalars (agree p member)
    rw [Tree.evalAll_eq_ok, Tree.evalAll_eq_ok]
    refine and_congr (forall₂_congr fun p member => (same p member).1) ?_
    rw [List.map_congr_left fun p member => (same p member).2]
  | regionwise registers =>
    show registers.evalAll frame region = .ok xs ↔ registers.evalAll other region = .ok xs
    unfold Registers.evalAll
    rw [Steps.bind_eq_ok, Steps.bind_eq_ok]
    refine exists_congr fun values => and_congr_left' (Registers.run_footprint scalars ?_)
    intro access load ys
    rw [View.gather_eq_ok (sound access.1) points, View.gather_eq_ok (sound' access.1) points]
    have same := fun p member => View.held_congr (agree p member access load)
    refine and_congr (forall₂_congr fun p member => (same p member).1) ?_
    rw [List.map_congr_left fun p member => (same p member).2]

end Footprint

/-! ### Accesses of tasks -/

namespace Schedule

/-- The points of fields that a task reads. -/
def Task.reads (task : Task) : List (Nat × Offset) :=
  task.region.points.flatMap fun p =>
    task.stage.code.reads.map fun access => (access.1, p.add access.2)

/-- The points of fields that a task writes. -/
def Task.writes (task : Task) : List (Nat × Offset) :=
  task.region.points.map fun p => (task.stage.target, p)

theorem Task.mem_reads {task : Task} {p : Offset} (member : p ∈ task.region.points)
    {access : Nat × Offset} (read : access ∈ task.stage.code.reads) :
    (access.1, p.add access.2) ∈ task.reads :=
  List.mem_flatMap.mpr ⟨p, member, List.mem_map.mpr ⟨access, read, rfl⟩⟩

/-- What becomes of a view when values are stored in a field. -/
theorem view_commit (frame : Frame) (slot : Nat) (region : Region) (values : List Float)
    (other : Nat) :
    (frame.commit slot region values).1.view other =
      if slot = other ∧ slot < frame.views.length then
        ((frame.view slot).commit region values).1
      else frame.view other := by
  have changed : (frame.commit slot region values).1.views =
      frame.views.set slot ((frame.view slot).commit region values).1 := rfl
  have same : (frame.commit slot region values).1.view other =
      (frame.views.set slot ((frame.view slot).commit region values).1).getD other .missing := by
    rw [← changed]
    rfl
  rw [same, List.getD_eq_getElem?_getD, List.getElem?_set]
  by_cases here : slot = other
  · rw [if_pos here]
    by_cases below : slot < frame.views.length
    · rw [if_pos below, if_pos ⟨here, below⟩, Option.getD_some]
    · have above : frame.views[other]? = none :=
        List.getElem?_eq_none_iff.mpr (here ▸ Nat.not_lt.mp below)
      rw [if_neg below, if_neg fun both => below both.2]
      unfold Frame.view
      rw [List.getD_eq_getElem?_getD, above]
  · rw [if_neg here, if_neg fun both => here both.1]
    unfold Frame.view
    rw [List.getD_eq_getElem?_getD]

/-- A task changes neither where the domain lies in a buffer nor the shape of the buffer. -/
theorem sameLayout_runTask (task : Task) (frame : Frame) (slot : Nat) :
    View.SameLayout (frame.view slot) ((runTask task frame).1.view slot) := by
  unfold runTask
  split
  · exact .refl _
  · split
    · exact .refl _
    · rw [view_commit]
      split
      next same => exact same.1 ▸ View.sameLayout_commit _ _ _
      next => exact .refl _

theorem sameLayout_runTasks (tasks : List Task) (frame : Frame) (slot : Nat) :
    View.SameLayout (frame.view slot) ((runTasks tasks frame).1.view slot) := by
  induction tasks generalizing frame with
  | nil => exact .refl _
  | cons task rest ih =>
    have here := sameLayout_runTask task frame slot
    unfold runTasks
    split
    next middle ran =>
      rw [ran] at here
      exact here.trans (ih middle)
    next middle _ ran =>
      rw [ran] at here
      exact here

/-- **A task leaves every element alone that it does not write**, whether it fails or not. -/
theorem runTask_untouched {task : Task} {frame : Frame} {slot : Nat} {index : Offset}
    (inside : Storage.Inside (frame.view slot).storage.shape index)
    (unwritten : ∀ access ∈ task.writes, access.1 = slot →
      (frame.view slot).index access.2 ≠ index) :
    ((runTask task frame).1.view slot).element index = (frame.view slot).element index := by
  unfold View.element
  rw [(sameLayout_runTask task frame slot).shape]
  unfold runTask
  split
  · rfl
  · split
    · rfl
    next values _ =>
      rw [view_commit]
      split
      next here =>
        obtain ⟨rfl, -⟩ := here
        have elsewhere : ∀ store ∈ task.region.points.zip values,
            (frame.view task.stage.target).index store.1 ≠ index := by
          rintro ⟨p, x⟩ member
          exact unwritten _ (List.mem_map.mpr ⟨p, (List.of_mem_zip member).1, rfl⟩) rfl
        have kept := View.valueAt_storeAll_of_ne _ inside elsewhere
        unfold View.commit
        split
        · split
          next result =>
            rw [result] at kept
            exact kept
          next result =>
            rw [result] at kept
            exact kept
        · rfl
      · rfl

/-- **Tasks leave every element alone that none of them writes**, whether they fail or not. -/
theorem runTasks_untouched {tasks : List Task} {frame : Frame} {slot : Nat} {index : Offset}
    (inside : Storage.Inside (frame.view slot).storage.shape index)
    (unwritten : ∀ task ∈ tasks, ∀ access ∈ task.writes, access.1 = slot →
      (frame.view slot).index access.2 ≠ index) :
    ((runTasks tasks frame).1.view slot).element index = (frame.view slot).element index := by
  induction tasks generalizing frame with
  | nil => rfl
  | cons task rest ih =>
    obtain ⟨here, later⟩ := List.forall_mem_cons.mp unwritten
    have layout := sameLayout_runTask task frame slot
    have kept := runTask_untouched inside here
    unfold runTasks
    split
    next middle ran =>
      rw [ran] at layout kept
      refine Eq.trans (ih (layout.shape ▸ inside) fun task member access writes same => ?_) kept
      rw [layout.index]
      exact later task member access writes same
    next middle _ ran =>
      rw [ran] at kept
      exact kept

/-- A task has to do with a frame through its accesses only. A task without points does nothing. The
values that any other one computes are the same on all frames that read alike at `reads`, and what it
does to the frame changes no element except at `writes`. -/
structure Task.Confined (task : Task) (frame : Frame) : Prop where
  idle : task.region.size = 0 → runTask task frame = (frame, none)
  reads : task.region.size ≠ 0 → ∀ other : Frame, (∀ slot, (other.view slot).PointSound) →
    frame.scalars = other.scalars →
    (∀ access ∈ task.reads, ∀ x,
      (frame.view access.1).read access.2 = .ok x ↔ (other.view access.1).read access.2 = .ok x) →
    ∀ xs, task.stage.code.eval frame task.region = .ok xs ↔
      task.stage.code.eval other task.region = .ok xs
  writes : ∀ slot index, Storage.Inside (frame.view slot).storage.shape index →
    ((runTask task frame).1.view slot).element index ≠ (frame.view slot).element index →
    ∃ access ∈ task.writes, access.1 = slot ∧ (frame.view slot).index access.2 = index

/-- **If all accesses of a task stay inside their buffers, it can only fail for a plane** of a field
that it reads. -/
theorem runTask_failure {task : Task} {frame : Frame} {cause : Cause}
    (reads : ∀ access ∈ task.reads, (frame.view access.1).Contains access.2)
    (writes : ∀ access ∈ task.writes, (frame.view access.1).Contains access.2)
    (writable : (frame.view task.stage.target).writable = true)
    (failed : (runTask task frame).2 = some cause) :
    ∃ access ∈ task.reads, (frame.view access.1).LacksPlane cause := by
  unfold runTask at failed
  split at failed
  · cases failed
  next points =>
    obtain ⟨p, somePoint⟩ := List.exists_mem_of_length_pos
      (Nat.pos_of_ne_zero (Region.length_points task.region ▸ points))
    split at failed
    next other evaluated =>
      cases failed
      obtain ⟨access, read, lacks⟩ := Code.eval_eq_error
        (fun p member access read => reads _ (Task.mem_reads member read)) evaluated
      exact ⟨_, Task.mem_reads somePoint read, lacks⟩
    next values evaluated =>
      have stored : ((frame.view task.stage.target).storeAll (task.region.points.zip values)).2 =
          none := by
        rw [View.storeAll_failure]
        rintro ⟨q, x⟩ member
        exact writes _ (List.mem_map.mpr ⟨q, (List.of_mem_zip member).1, rfl⟩)
      have failed : ((frame.view task.stage.target).commit task.region values).2 = some cause :=
        failed
      unfold View.commit at failed
      rw [if_pos writable] at failed
      split at failed
      next result =>
        rw [result] at stored
        cases stored
      next result => cases failed

end Schedule

/-- **Every task of a run is confined to its accesses.** -/
theorem Frame.Serves.confined {interface : Interface} {call : Call} {frame : Frame}
    (serves : frame.Serves interface call) (task : Schedule.Task) : task.Confined frame where
  idle empty := by
    unfold Schedule.runTask
    rw [if_pos empty]
  reads points other sound scalars agree xs := by
    refine Code.eval_footprint serves.point sound points scalars fun p member access read => ?_
    exact agree (access.1, p.add access.2) (Schedule.Task.mem_reads member read)
  writes slot index inside changed := by
    by_contra nowhere
    refine changed (Schedule.runTask_untouched inside fun access write same here => nowhere ?_)
    exact ⟨access, write, same, here⟩

end GridStencil
