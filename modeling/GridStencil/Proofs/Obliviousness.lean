import GridStencil.Proofs.Halo
import GridStencil.Proofs.Kernel.Outline

/-!
**Whether a run fails, and how, does not depend on data.**

Two frames have the same outline if their views differ in the elements of buffers at most; above all,
the same planes of their temporaries were computed. Code evaluated in both fails with the same error
or gives as many values: both sides of a choice are read, and no value decides what is read next. A
store goes to the same points, so the frames behind it have the same outline again, and so on to the
end of the run.

* `Code.eval_matched`: what code gives on a region.
* `runTasks_sameOutline`: all tasks of a run.
* `Kernel.run_oblivious`: two calls with the same outline end with the same error, or both without.
-/

namespace GridStencil

open Steps (Matched)

/-- As many values in both lists. -/
abbrev SameLength (xs ys : List Float) : Prop := xs.length = ys.length

/-- Rows of values with as many in both. -/
theorem sameLength_flatten {rows rows' : List (List Float)}
    (same : List.Forall₂ SameLength rows rows') : SameLength rows.flatten rows'.flatten := by
  induction same with
  | nil => rfl
  | cons here _ ih =>
    unfold SameLength at ih ⊢
    rw [List.flatten_cons, List.flatten_cons, List.length_append, List.length_append, ih, here]

namespace View

/-- Two views that differ in the elements of their buffers at most. -/
structure SameOutline (a b : View) : Prop where
  layout : SameLayout a b
  computed : b.computed = a.computed

variable {a b : View}

namespace SameOutline

theorem refl (view : View) : SameOutline view view := ⟨.refl view, rfl⟩

theorem lacks (same : SameOutline a b) (k : Int) : b.lacks k = a.lacks k := by
  unfold View.lacks
  rw [same.computed, same.layout.origin]

theorem requirePlanes (same : SameOutline a b) (planes : Stretch) :
    b.requirePlanes planes = a.requirePlanes planes := by
  unfold View.requirePlanes
  rw [funext same.lacks, same.layout.name]

theorem place? (same : SameOutline a b) (p : Offset) :
    b.storage.place? (b.index p) = a.storage.place? (a.index p) := by
  unfold Storage.place?
  rw [same.layout.index, same.layout.shape]

theorem outside (same : SameOutline a b) (p : Offset) : b.outside p = a.outside p := by
  unfold View.outside
  rw [same.layout.name, same.layout.shape]

/-! ### Reads -/

theorem read (same : SameOutline a b) (p : Offset) :
    Matched (fun _ _ => True) (a.read p) (b.read p) := by
  unfold View.read
  rw [same.place?, same.outside, same.requirePlanes]
  split
  · exact .error _
  · cases a.requirePlanes ⟨p.k, p.k + 1⟩ with
    | error cause => exact .error cause
    | ok _ => exact .ok trivial

theorem readColumn (same : SameOutline a b) (first : Offset) (length : Nat) :
    Matched SameLength (a.readColumn first length) (b.readColumn first length) := by
  unfold View.readColumn
  dsimp only
  rw [same.place?, same.place?, same.outside]
  split
  · refine .ok ?_
    unfold SameLength
    rw [List.length_map, List.length_map]
  · exact .error _

theorem gather (same : SameOutline a b) (offset : Offset) (region : Region) :
    Matched SameLength (a.gather offset region) (b.gather offset region) := by
  unfold View.gather
  rw [same.layout.zeroDim, same.requirePlanes]
  split
  · refine .ok ?_
    unfold SameLength
    rw [List.length_replicate, List.length_replicate]
  split
  · exact .ok rfl
  · cases a.requirePlanes ⟨region.k.start + offset.k, region.k.stop + offset.k⟩ with
    | error cause => exact .error cause
    | ok _ =>
      have columns : Matched (List.Forall₂ SameLength)
          (region.columns.mapM fun column =>
            a.readColumn (({ column with k := region.k.start } : Offset).add offset) region.k.length)
          (region.columns.mapM fun column =>
            b.readColumn (({ column with k := region.k.start } : Offset).add offset)
              region.k.length) := by
        refine .mapM (List.forall₂_same.mpr fun _ _ => rfl) ?_
        rintro column _ rfl
        exact same.readColumn _ _
      exact columns.bind fun _ _ rows => .ok (sameLength_flatten rows)

/-! ### Stores -/

theorem put (same : SameOutline a b) (place : Nat) (x y : Float) :
    SameOutline { a with storage := a.storage.put place x }
      { b with storage := b.storage.put place y } :=
  ⟨⟨same.layout.name, same.layout.origin, same.layout.zeroDim, same.layout.writable,
    same.layout.shape, same.layout.type, same.layout.temporary⟩, same.computed⟩

/-- Stores of as many values to the same points. -/
theorem storeAll (same : SameOutline a b) (points : List Offset) {xs ys : List Float}
    (length : SameLength xs ys) :
    SameOutline (a.storeAll (points.zip xs)).1 (b.storeAll (points.zip ys)).1 ∧
      (b.storeAll (points.zip ys)).2 = (a.storeAll (points.zip xs)).2 := by
  induction points generalizing a b xs ys with
  | nil => exact ⟨same, rfl⟩
  | cons point rest ih =>
    match xs, ys, length with
    | [], [], _ => exact ⟨same, rfl⟩
    | x :: xs, y :: ys, length =>
      rw [List.zip_cons_cons, List.zip_cons_cons]
      unfold View.storeAll
      rw [same.place?]
      split
      · rw [same.layout.name, same.layout.index, same.layout.shape]
        exact ⟨same, rfl⟩
      next place _ => exact ih (same.put place x y) (Nat.succ.inj length)

theorem markComputed (same : SameOutline a b) (planes : Stretch) :
    SameOutline (a.markComputed planes) (b.markComputed planes) := by
  have computed : (b.markComputed planes).computed = (a.markComputed planes).computed := by
    unfold View.markComputed
    rw [same.computed, same.layout.origin]
  refine ⟨⟨same.layout.name, same.layout.origin, same.layout.zeroDim, same.layout.writable,
    same.layout.shape, same.layout.type, congrArg Option.isSome computed⟩, computed⟩

theorem commit (same : SameOutline a b) (region : Region) {xs ys : List Float}
    (length : SameLength xs ys) :
    SameOutline (a.commit region xs).1 (b.commit region ys).1 ∧
      (b.commit region ys).2 = (a.commit region xs).2 := by
  obtain ⟨stored, failure⟩ := same.storeAll region.points length
  unfold View.commit
  rw [same.layout.writable, same.layout.name]
  split
  · generalize a.storeAll (region.points.zip xs) = first at stored failure
    generalize b.storeAll (region.points.zip ys) = second at stored failure
    obtain ⟨view, cause⟩ := first
    obtain ⟨view', cause'⟩ := second
    cases failure
    cases cause with
    | some cause => exact ⟨stored, rfl⟩
    | none => exact ⟨stored.markComputed region.k, rfl⟩
  · exact ⟨same, rfl⟩

end SameOutline

end View

/-! ### Code -/

namespace Frame

/-- Two frames whose views differ in the elements of buffers at most. -/
structure SameOutline (a b : Frame) : Prop where
  length : b.views.length = a.views.length
  view : ∀ slot, View.SameOutline (a.view slot) (b.view slot)

end Frame

variable {a b : Frame}

theorem Tree.eval_matched (same : a.SameOutline b) (p : Offset) (tree : Tree) :
    Matched (fun _ _ => True) (tree.eval a p) (tree.eval b p) := by
  induction tree with
  | field slot offset => exact (same.view slot).read _
  | scalar slot => exact .ok trivial
  | constant value => exact .ok trivial
  | unary op arg ih => exact ih.bind fun _ _ _ => .ok trivial
  | binary op left right ihLeft ihRight =>
    exact ihLeft.bind fun _ _ _ => ihRight.bind fun _ _ _ => .ok trivial
  | select condition whenTrue whenFalse ihCondition ihTrue ihFalse =>
    -- Both sides are read whatever the condition is.
    exact ihTrue.bind fun _ _ _ => ihFalse.bind fun _ _ _ => ihCondition.bind fun _ _ _ =>
      .ok trivial

theorem Tree.evalAll_matched (same : a.SameOutline b) (tree : Tree) (region : Region) :
    Matched SameLength (tree.evalAll a region) (tree.evalAll b region) := by
  have values : Matched (List.Forall₂ fun _ _ => True) (tree.evalAll a region)
      (tree.evalAll b region) := by
    refine .mapM (List.forall₂_same.mpr fun _ _ => rfl) ?_
    rintro p _ rfl
    exact tree.eval_matched same p
  exact values.imp fun _ _ => List.Forall₂.length_eq

/-- Registers with as many values in both. -/
theorem sameLength_getD {registers registers' : List (List Float)}
    (same : List.Forall₂ SameLength registers registers') (n : Nat) :
    SameLength (registers.getD n []) (registers'.getD n []) := by
  induction same generalizing n with
  | nil => rfl
  | cons here _ ih =>
    cases n with
    | zero => exact here
    | succ n => exact ih n

theorem Instruction.eval_matched (same : a.SameOutline b) (region : Region)
    {registers registers' : List (List Float)} (filled : List.Forall₂ SameLength registers registers')
    (instruction : Instruction) :
    Matched SameLength (instruction.eval a region registers) (instruction.eval b region registers') := by
  have length := sameLength_getD filled
  unfold SameLength at length
  cases instruction with
  | load slot offset => exact (same.view slot).gather offset region
  | scalar slot =>
    refine .ok ?_
    unfold SameLength
    rw [List.length_replicate, List.length_replicate]
  | constant value => exact .ok rfl
  | unary op arg =>
    refine .ok ?_
    unfold SameLength
    rw [List.length_map, List.length_map, length]
  | binary op left right =>
    refine .ok ?_
    unfold SameLength
    rw [List.length_zipWith, List.length_zipWith, length, length]
  | select condition whenTrue whenFalse =>
    refine .ok ?_
    unfold SameLength
    rw [List.length_zipWith, List.length_zipWith, List.length_zip, List.length_zip, length, length,
      length]

theorem Registers.run_matched (same : a.SameOutline b) (region : Region) (code : List Instruction)
    {registers registers' : List (List Float)}
    (filled : List.Forall₂ SameLength registers registers') :
    Matched (List.Forall₂ SameLength) (run a region code registers) (run b region code registers') := by
  induction code generalizing registers registers' with
  | nil => exact .ok filled
  | cons instruction rest ih =>
    exact (instruction.eval_matched same region filled).bind fun _ _ length =>
      ih (List.rel_append filled (.cons length .nil))

/-- **What code gives on a region**: the same error, or as many values. -/
theorem Code.eval_matched (same : a.SameOutline b) (code : Code) (region : Region) :
    Matched SameLength (code.eval a region) (code.eval b region) := by
  cases code with
  | pointwise tree => exact tree.evalAll_matched same region
  | regionwise registers =>
    exact (Registers.run_matched same region registers.code .nil).bind fun _ _ filled =>
      .ok (sameLength_getD filled registers.result)

/-! ### Runs -/

theorem Frame.SameOutline.commit (same : a.SameOutline b) (slot : Nat) (region : Region)
    {xs ys : List Float} (length : SameLength xs ys) :
    SameOutline (a.commit slot region xs).1 (b.commit slot region ys).1 ∧
      (b.commit slot region ys).2 = (a.commit slot region xs).2 := by
  obtain ⟨stored, failure⟩ := (same.view slot).commit region length
  refine ⟨⟨?_, fun other => ?_⟩, failure⟩
  · show (b.views.set slot _).length = (a.views.set slot _).length
    rw [List.length_set, List.length_set, same.length]
  · rw [Schedule.view_commit, Schedule.view_commit, same.length]
    split
    · exact stored
    · exact same.view other

namespace Schedule

theorem runTask_sameOutline (same : a.SameOutline b) (task : Task) :
    (runTask task a).1.SameOutline (runTask task b).1 ∧ (runTask task b).2 = (runTask task a).2 := by
  unfold runTask
  split
  · exact ⟨same, rfl⟩
  · have matched := task.stage.code.eval_matched same task.region
    generalize task.stage.code.eval a task.region = first at matched
    generalize task.stage.code.eval b task.region = second at matched
    cases matched with
    | ok length => exact same.commit task.stage.target task.region length
    | error cause => exact ⟨same, rfl⟩

/-- **Tasks fail in both of two frames with the same outline, or in neither**, and leave such frames. -/
theorem runTasks_sameOutline (same : a.SameOutline b) (tasks : List Task) :
    (runTasks tasks a).1.SameOutline (runTasks tasks b).1 ∧
      (runTasks tasks b).2 = (runTasks tasks a).2 := by
  induction tasks generalizing a b with
  | nil => exact ⟨same, rfl⟩
  | cons task rest ih =>
    obtain ⟨behind, failure⟩ := runTask_sameOutline same task
    unfold runTasks
    generalize runTask task a = first at behind failure
    generalize runTask task b = second at behind failure
    obtain ⟨frame, cause⟩ := first
    obtain ⟨frame', cause'⟩ := second
    cases failure
    cases cause with
    | none => exact ih behind
    | some cause => exact ⟨behind, rfl⟩

end Schedule

/-! ### Calls -/

namespace Frame

/-- Bound parameters with the same outlines have such views. -/
theorem viewsOf_sameOutline (domain : PerAxis Nat) (fields : List InterfaceField)
    {bound bound' : List BoundField} (same : List.Forall₂ BoundField.SameOutline bound bound') :
    List.Forall₂ View.SameOutline (viewsOf domain fields bound) (viewsOf domain fields bound') := by
  induction fields generalizing bound bound' with
  | nil => exact .nil
  | cons field fields ih =>
    unfold viewsOf
    split
    · cases same with
      | nil => exact ih .nil
      | cons here more =>
        refine .cons ⟨⟨rfl, ?_, rfl, here.writable.symm, here.storage.shape.symm,
          here.storage.type.symm, rfl⟩, rfl⟩ (ih more)
        unfold viewOfBound
        rw [here.origin]
    · exact .cons (.refl _) (ih same)

theorem SameOutline.of_views (same : List.Forall₂ View.SameOutline a.views b.views) :
    a.SameOutline b := by
  obtain ⟨views, scalars⟩ := a
  obtain ⟨views', scalars'⟩ := b
  refine ⟨same.length_eq.symm, fun slot => ?_⟩
  unfold Frame.view
  dsimp only at same ⊢
  induction same generalizing slot with
  | nil => exact .refl _
  | cons here _ ih =>
    cases slot with
    | zero => exact here
    | succ slot => exact ih slot

end Frame

/-- Two calls that differ in the elements of buffers and the values of scalars at most. -/
structure Call.SameOutline (call other : Call) : Prop where
  arguments : List.Forall₂ Argument.SameOutline call.arguments other.arguments
  scalars : call.scalars.map Prod.fst = other.scalars.map Prod.fst
  origins : call.origins = other.origins
  domain : call.domain = other.domain

/-- Two bound calls that differ in data at most start with frames that do. -/
theorem Frame.ofBound_sameOutline {interface : Interface} {call other : Call}
    (same : call.SameOutline other) {bound bound' : BoundCall}
    (passed : call.bind interface = .ok bound) (passed' : other.bind interface = .ok bound') :
    (Frame.ofBound interface bound call.domain).SameOutline
      (.ofBound interface bound' call.domain) := by
  have fields := Call.bindFields_matched interface same.arguments same.origins same.domain
  rw [(Call.bind_fields passed).1, (Call.bind_fields passed').1] at fields
  cases fields with
  | ok fields => exact .of_views (Frame.viewsOf_sameOutline call.domain interface.fields fields)

namespace Kernel

/-- **Whether a run fails, and how, does not depend on data**: two calls that are both bound and differ
in the elements of buffers and the values of scalars at most end with the same error, or both without
one. -/
theorem run_oblivious (kernel : Kernel) {call other : Call} (same : call.SameOutline other)
    {bound bound' : BoundCall} (passed : call.bind kernel.interface = .ok bound)
    (passed' : other.bind kernel.interface = .ok bound') :
    (kernel.run call).2 = (kernel.run other).2 := by
  have frames := Frame.ofBound_sameOutline same passed passed'
  have failure := (Schedule.runTasks_sameOutline frames (kernel.schedule.tasks call.domain)).2
  unfold Kernel.run
  rw [passed, passed']
  dsimp only
  rw [← same.domain, failure]

end Kernel

/-- The call of the samples with other data. -/
def Sample.otherData : Call :=
  { Sample.call with arguments := [⟨none, .filled ⟨3, 1, 2⟩ .f64 (0.0 / 0.0), false⟩,
      ⟨none, .filled ⟨1, 1, 2⟩ .f64 3.0, true⟩] }

/-- A run that fails for a plane of a temporary does so for other data, too. -/
theorem Kernel.run_oblivious_gap : ∃ (kernel : Kernel) (bound bound' : BoundCall),
    Sample.call.bind kernel.interface = .ok bound ∧
      Sample.otherData.bind kernel.interface = .ok bound' ∧
      (kernel.run Sample.call).2 ≠ none ∧
      (kernel.run Sample.call).2 = (kernel.run Sample.otherData).2 := by
  obtain ⟨context, kernel, bound, compiled, passed, -, fails, -⟩ :=
    Sample.of_runs (Sample.runs_gap .debug)
  have binds : ((Registry.compile Sample.gap .empty .debug .empty).value.toOption.any fun both =>
      (Sample.otherData.bind both.2.interface).isOk) = true := by decide +kernel
  rw [compiled] at binds
  cases passed' : Sample.otherData.bind kernel.interface with
  | error cause =>
    have failed : (Sample.otherData.bind kernel.interface).isOk = true := binds
    rw [passed'] at failed
    cases failed
  | ok bound' =>
    refine ⟨kernel, bound, bound', passed, passed', fun absurd => ?_, ?_⟩
    · rw [absurd] at fails
      cases fails
    · exact kernel.run_oblivious ⟨.cons ⟨rfl, ⟨rfl, rfl⟩, rfl⟩ (.cons ⟨rfl, ⟨rfl, rfl⟩, rfl⟩ .nil), rfl,
        rfl, rfl⟩ passed passed'

end GridStencil
