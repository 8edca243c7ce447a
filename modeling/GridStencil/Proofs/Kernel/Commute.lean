import GridStencil.Proofs.Simulation
import Mathlib.Data.List.Perm.Basic

/-!
**Jobs that have nothing to do with each other can be done in any order.**

Two jobs are apart if neither reads what the other one stores, and if they store to different points
where they have the same target. Code gives the same before and behind a job that is apart, and
stores to different points commute, so two such tasks leave the same frame in both orders
(`Schedule.runTask_swap`). Lists of jobs follow by induction: first a job moves past a list, then a
list past another one, and then any permutation is a chain of such moves.

* `View.commit_comm`: two stores to one buffer.
* `Program.Runs.perm`: groups of jobs that are apart, in any order.
-/

namespace GridStencil

open Program

/-! ### Stores -/

/-- Stores to different places commute. -/
theorem Storage.put_comm (storage : Storage) {place other : Nat} (different : place ≠ other)
    (x y : Float) : (storage.put place x).put other y = (storage.put other y).put place x := by
  unfold put
  simp only [Storage.mk.injEq, true_and]
  exact Array.setIfInBounds_comm _ _ different

namespace View

/-- A view with a value stored. -/
def put (view : View) (place : Nat) (value : Float) : View :=
  { view with storage := view.storage.put place value }

theorem storeAll_cons (view : View) {point : Offset} (value : Float) (rest : List (Offset × Float))
    (inside : Storage.Inside view.storage.shape (view.index point)) :
    view.storeAll ((point, value) :: rest) =
      (view.put (Storage.spot view.storage.shape (view.index point)) value).storeAll rest := by
  conv_lhs => unfold storeAll
  rw [Storage.place?_eq_some.mpr ⟨inside, rfl⟩]
  rfl

/-- A store moves past stores to other points. -/
theorem storeAll_put (view : View) {index : Offset} (value : Float)
    {stores : List (Offset × Float)}
    (here : Storage.Inside view.storage.shape index)
    (inside : ∀ store ∈ stores, Storage.Inside view.storage.shape (view.index store.1))
    (other : ∀ store ∈ stores, view.index store.1 ≠ index) :
    ((view.put (Storage.spot view.storage.shape index) value).storeAll stores).1 =
      (view.storeAll stores).1.put (Storage.spot view.storage.shape index) value := by
  induction stores generalizing view with
  | nil => rfl
  | cons store rest ih =>
    obtain ⟨point, x⟩ := store
    rw [List.forall_mem_cons] at inside other
    have different : Storage.spot view.storage.shape index ≠
        Storage.spot view.storage.shape (view.index point) := fun same =>
      other.1 (Storage.spot_injective here inside.1 same).symm
    have swapped : (view.put (Storage.spot view.storage.shape index) value).put
        (Storage.spot view.storage.shape (view.index point)) x =
        (view.put (Storage.spot view.storage.shape (view.index point)) x).put
          (Storage.spot view.storage.shape index) value := by
      unfold put
      rw [Storage.put_comm view.storage different]
    rw [storeAll_cons view x rest inside.1]
    refine (congrArg Prod.fst (storeAll_cons (view.put _ value) x rest inside.1)).trans ?_
    refine (congrArg (fun v : View => (v.storeAll rest).1) swapped).trans ?_
    exact ih (view.put (Storage.spot view.storage.shape (view.index point)) x) here inside.2 other.2

/-- Two lists of stores to different points commute. -/
theorem storeAll_comm (view : View) {first second : List (Offset × Float)}
    (inside : ∀ store ∈ first, Storage.Inside view.storage.shape (view.index store.1))
    (inside' : ∀ store ∈ second, Storage.Inside view.storage.shape (view.index store.1))
    (apart : ∀ a ∈ first, ∀ b ∈ second, view.index a.1 ≠ view.index b.1) :
    ((view.storeAll first).1.storeAll second).1 = ((view.storeAll second).1.storeAll first).1 := by
  induction first generalizing view with
  | nil => rfl
  | cons store rest ih =>
    obtain ⟨point, x⟩ := store
    rw [List.forall_mem_cons] at inside apart
    have layout := sameLayout_storeAll view second
    have here : Storage.Inside (view.storeAll second).1.storage.shape
        ((view.storeAll second).1.index point) := by
      rw [layout.shape, layout.index]
      exact inside.1
    rw [storeAll_cons view x rest inside.1, storeAll_cons _ x rest here, layout.shape, layout.index,
      ← storeAll_put view x inside.1 inside' fun b member => (apart.1 b member).symm]
    exact ih (view.put (Storage.spot view.storage.shape (view.index point)) x) inside.2 inside'
      apart.2

/-- Marks of planes and stores do not see each other. -/
theorem storeAll_markComputed (view : View) (planes : Stretch) (stores : List (Offset × Float)) :
    (view.markComputed planes).storeAll stores =
      ((view.storeAll stores).1.markComputed planes, (view.storeAll stores).2) := by
  induction stores generalizing view with
  | nil => rfl
  | cons store rest ih =>
    obtain ⟨point, x⟩ := store
    have here : (view.markComputed planes).storage.place? ((view.markComputed planes).index point) =
        view.storage.place? (view.index point) := rfl
    unfold storeAll
    rw [here]
    cases view.storage.place? (view.index point) with
    | none => rfl
    | some place => exact ih (view.put place x)

theorem markComputed_comm (view : View) (first second : Stretch) :
    (view.markComputed first).markComputed second =
      (view.markComputed second).markComputed first := by
  unfold markComputed
  simp only [View.mk.injEq, true_and]
  cases view.computed with
  | none => rfl
  | some flags =>
    simp only [Option.map_some, Option.some.injEq]
    rw [← List.foldl_append, ← List.foldl_append]
    refine List.perm_append_comm.foldl_eq' (fun k _ l _ flags => ?_) flags
    by_cases same : (view.origin.k + k).toNat = (view.origin.k + l).toNat
    · split <;> split <;> simp [same]
    · split <;> split <;> first | rfl | exact List.set_comm _ _ same

/-- What a store leaves if all of its points are in the buffer. -/
theorem commit_of_storeAll {view : View} {region : Region} {xs : List Float}
    (writable : view.writable = true) (done : (view.storeAll (region.points.zip xs)).2 = none) :
    view.commit region xs =
      ((view.storeAll (region.points.zip xs)).1.markComputed region.k, none) := by
  unfold commit
  rw [if_pos writable]
  cases stored : view.storeAll (region.points.zip xs) with
  | mk after failure =>
    rw [stored] at done
    cases done
    rfl

/-- **Two stores to different points of a buffer** leave the same in both orders. -/
theorem commit_comm {view middle after : View} {first second : Region} {xs ys : List Float}
    (apart : ∀ p ∈ first.points, ∀ q ∈ second.points, view.index p ≠ view.index q)
    (one : view.commit first xs = (middle, none)) (two : middle.commit second ys = (after, none)) :
    ∃ other, view.commit second ys = (other, none) ∧ other.commit first xs = (after, none) := by
  obtain ⟨writable, done, rfl⟩ := commit_eq_none one
  obtain ⟨-, done', rfl⟩ := commit_eq_none two
  have layout := sameLayout_storeAll view (first.points.zip xs)
  rw [storeAll_markComputed] at done' ⊢
  have inside := (storeAll_failure view _).mp done
  have inside' := (storeAll_failure _ _).mp done'
  simp only [layout.shape, layout.index] at inside'
  have comm := storeAll_comm view inside inside' fun a inFirst b inSecond =>
    apart _ (List.of_mem_zip inFirst).1 _ (List.of_mem_zip inSecond).1
  have layout' := sameLayout_storeAll view (second.points.zip ys)
  have swapped : ((view.storeAll (second.points.zip ys)).1.storeAll (first.points.zip xs)).2 =
      none := by
    rw [storeAll_failure]
    simpa only [layout'.shape, layout'.index] using inside
  have alone : (view.storeAll (second.points.zip ys)).2 = none :=
    (storeAll_failure view _).mpr inside'
  have stays : ((view.storeAll (second.points.zip ys)).1.markComputed second.k).writable = true :=
    layout'.writable.trans writable
  refine ⟨_, commit_of_storeAll writable alone, ?_⟩
  rw [commit_of_storeAll stays (by rw [storeAll_markComputed]; exact swapped),
    storeAll_markComputed, comm, markComputed_comm]

end View

namespace Frame

variable {frame middle after : Frame} {slot other : Nat} {region : Region} {values : List Float}

/-- The frame with another view of a field. -/
def setView (frame : Frame) (slot : Nat) (view : View) : Frame :=
  { frame with views := frame.views.set slot view }

theorem commit_eq_none_iff :
    frame.commit slot region values = (after, none) ↔
      ∃ view, (frame.view slot).commit region values = (view, none) ∧
        frame.setView slot view = after := by
  unfold commit
  cases (frame.view slot).commit region values with
  | mk view failure =>
    constructor
    · intro done
      cases done
      exact ⟨view, rfl, rfl⟩
    · rintro ⟨_, same, rfl⟩
      cases same
      rfl

theorem view_setView_self {view : View} (below : slot < frame.views.length) :
    (frame.setView slot view).view slot = view := by
  unfold Frame.view setView
  rw [List.getD_eq_getElem?_getD, List.getElem?_set_self below, Option.getD_some]

theorem view_setView_of_ne {view : View} (different : slot ≠ other) :
    (frame.setView slot view).view other = frame.view other := by
  unfold Frame.view setView
  rw [List.getD_eq_getElem?_getD, List.getElem?_set_ne different, ← List.getD_eq_getElem?_getD]

/-- What stands in for a field without a view cannot be written. -/
theorem below_of_commit {view : View}
    (stored : (frame.view slot).commit region values = (view, none)) :
    slot < frame.views.length := by
  by_contra above
  have writable := (View.commit_eq_none stored).1
  unfold Frame.view at writable
  rw [List.getD_eq_getElem?_getD, List.getElem?_eq_none (Nat.not_lt.mp above)] at writable
  cases writable

/-- **Two stores to fields** leave the same in both orders, if they go to different points where
they go to the same field. -/
theorem commit_comm {first second : Region} {xs ys : List Float}
    (apart : slot = other → ∀ p ∈ first.points, ∀ q ∈ second.points,
      (frame.view slot).index p ≠ (frame.view slot).index q)
    (one : frame.commit slot first xs = (middle, none))
    (two : middle.commit other second ys = (after, none)) :
    ∃ swapped, frame.commit other second ys = (swapped, none) ∧
      swapped.commit slot first xs = (after, none) := by
  simp only [commit_eq_none_iff] at one two ⊢
  obtain ⟨view, stored, rfl⟩ := one
  obtain ⟨view', stored', rfl⟩ := two
  by_cases same : slot = other
  · subst same
    have below := below_of_commit stored
    rw [view_setView_self below] at stored'
    obtain ⟨view'', first', second'⟩ := View.commit_comm (apart rfl) stored stored'
    refine ⟨_, ⟨view'', first', rfl⟩, view', ?_, ?_⟩
    · rw [view_setView_self below]
      exact second'
    · unfold setView
      rw [List.set_set, List.set_set]
  · rw [view_setView_of_ne same] at stored'
    refine ⟨_, ⟨view', stored', rfl⟩, view, ?_, ?_⟩
    · rw [view_setView_of_ne (Ne.symm same)]
      exact stored
    · unfold setView
      rw [List.set_comm _ _ same]

end Frame

/-! ### Jobs -/

/-- A job ignores another one: where it reads the target of that, it does so on other planes. -/
def Program.Job.Ignores (a b : Job) : Prop :=
  ∀ read ∈ a.statement.reads, read.field = b.statement.target →
    ∀ p ∈ a.region.points, (p.add read.offset).k ∉ b.region.k.toList

/-- Two jobs are apart: neither reads what the other one stores, and if they store to the same
field, then they store to different points. Their targets have axes. -/
structure Program.Job.Apart (interface : Interface) (a b : Job) : Prop where
  ignores : a.Ignores b
  ignored : b.Ignores a
  axes : ∀ field ∈ interface.fields,
    field.name = a.statement.target ∨ field.name = b.statement.target → field.dimensions = .ijk
  points : a.statement.target = b.statement.target →
    ∀ p ∈ a.region.points, ∀ q ∈ b.region.points, p ≠ q

theorem Program.Job.Apart.symm {interface : Interface} {a b : Job} (apart : a.Apart interface b) :
    b.Apart interface a where
  ignores := apart.ignored
  ignored := apart.ignores
  axes field member named := apart.axes field member named.symm
  points same p inB q inA := (apart.points same.symm q inA p inB).symm

namespace Schedule

variable {interface : Interface} {call : Call} {frame middle after : Frame} {a b : Job}
  {s t : Task}

/-- The target of a task with axes. -/
theorem full_of_doneBy (serves : frame.Serves interface call) (done : a.DoneBy interface s)
    (axes : ∀ field ∈ interface.fields, field.name = a.statement.target → field.dimensions = .ijk) :
    (frame.view s.stage.target).zeroDim = false := by
  obtain ⟨field, there, named⟩ := Interface.slot?_eq_some done.target
  rw [← Bool.not_eq_true, (serves.view there).zeroDim,
    axes field (List.mem_of_getElem? there) named]
  exact fun absurd => nomatch absurd

/-- **Code gives the same before and behind a store** of which it reads nothing. -/
theorem eval_commit (serves : frame.Serves interface call) (doneA : a.DoneBy interface s)
    (doneB : b.DoneBy interface t) (ignores : a.Ignores b)
    (axes : ∀ field ∈ interface.fields, field.name = b.statement.target → field.dimensions = .ijk)
    (points : s.region.size ≠ 0) {values : List Float}
    (stored : frame.commit t.stage.target t.region values = (middle, none)) {xs : List Float} :
    s.stage.code.eval middle s.region = .ok xs ↔ s.stage.code.eval frame s.region = .ok xs := by
  have serves' := serves.commit t.stage.target t.region values
  rw [stored] at serves'
  have full := full_of_doneBy serves doneB axes
  obtain ⟨view, storedHere, rfl⟩ := Frame.commit_eq_none_iff.mp stored
  obtain ⟨backend, compiled⟩ := doneA.code
  refine Code.eval_footprint serves'.point serves.point points rfl fun p inside access isRead x => ?_
  obtain ⟨read, member, found, offset⟩ := Code.reads_mean compiled access isRead
  by_cases target : t.stage.target = access.1
  · have below := Frame.below_of_commit storedHere
    have named : read.field = b.statement.target :=
      Interface.slot?_inj found (target ▸ doneB.target)
    rw [← target, Frame.view_setView_self below]
    refine View.read_commit_of_not_mem full storedHere ?_
    rw [doneB.region, ← offset]
    exact ignores read member named p (doneA.region ▸ inside)
  · rw [Frame.view_setView_of_ne target]

/-- **Two tasks that do jobs apart** leave the same frame in both orders. -/
theorem runTask_swap (serves : frame.Serves interface call) (doneA : a.DoneBy interface s)
    (doneB : b.DoneBy interface t) (apart : a.Apart interface b)
    (one : runTask s frame = (middle, none)) (two : runTask t middle = (after, none)) :
    ∃ swapped, runTask t frame = (swapped, none) ∧ runTask s swapped = (after, none) := by
  unfold runTask at one two ⊢
  by_cases emptyA : s.region.size = 0
  · rw [if_pos emptyA] at one
    cases one
    exact ⟨after, two, if_pos emptyA⟩
  · by_cases emptyB : t.region.size = 0
    · rw [if_pos emptyB] at two
      cases two
      exact ⟨frame, if_pos emptyB, one⟩
    · rw [if_neg emptyA] at one
      rw [if_neg emptyB] at two
      rw [if_neg emptyB]
      split at one
      · cases one
      next xs computed =>
        split at two
        · cases two
        next ys computed' =>
          have axesA := fun field member named => apart.axes field member (.inl named)
          have axesB := fun field member named => apart.axes field member (.inr named)
          have apart' : s.stage.target = t.stage.target → ∀ p ∈ s.region.points,
              ∀ q ∈ t.region.points,
                (frame.view s.stage.target).index p ≠ (frame.view s.stage.target).index q := by
            intro same p inA q inB equal
            have named := Interface.slot?_inj doneA.target (same ▸ doneB.target)
            exact apart.points named p (doneA.region ▸ inA) q (doneB.region ▸ inB)
              (View.index_injective (full_of_doneBy serves doneA axesA) equal)
          obtain ⟨swapped, first, second⟩ := Frame.commit_comm apart' one two
          rw [(eval_commit serves doneB doneA apart.ignored axesA emptyB one).mp computed']
          refine ⟨swapped, first, ?_⟩
          rw [if_neg emptyA,
            (eval_commit serves doneA doneB apart.ignores axesB emptyA first).mpr computed]
          exact second

end Schedule

/-! ### Runs -/

namespace Program

variable {interface : Interface} {call : Call} {frame middle after : Frame} {a : Job}
  {jobs others : List Job}

/-- Some tasks that do a list of jobs lead from a frame to another one. -/
def Runs (interface : Interface) (jobs : List Job) (frame after : Frame) : Prop :=
  ∃ tasks, List.Forall₂ (Job.DoneBy interface) jobs tasks ∧
    Schedule.runTasks tasks frame = (after, none)

namespace Runs

theorem cons_iff :
    Runs interface (a :: jobs) frame after ↔
      ∃ task middle, a.DoneBy interface task ∧ Schedule.runTask task frame = (middle, none) ∧
        Runs interface jobs middle after := by
  constructor
  · rintro ⟨_, done, ran⟩
    cases done with
    | @cons _ task _ tasks here rest =>
      unfold Schedule.runTasks at ran
      split at ran
      next middle first => exact ⟨task, middle, here, first, tasks, rest, ran⟩
      · cases ran
  · rintro ⟨task, middle, here, first, tasks, rest, ran⟩
    refine ⟨task :: tasks, .cons here rest, ?_⟩
    unfold Schedule.runTasks
    rw [first]
    exact ran

theorem append_iff :
    Runs interface (jobs ++ others) frame after ↔
      ∃ middle, Runs interface jobs frame middle ∧ Runs interface others middle after := by
  induction jobs generalizing frame with
  | nil =>
    constructor
    · exact fun ran => ⟨frame, ⟨[], .nil, rfl⟩, ran⟩
    · rintro ⟨_, ⟨_, done, nothing⟩, ran⟩
      cases done
      cases nothing
      exact ran
  | cons job rest ih =>
    simp only [List.cons_append, cons_iff, ih]
    constructor
    · rintro ⟨task, next, here, first, middle, ran, more⟩
      exact ⟨middle, ⟨task, next, here, first, ran⟩, more⟩
    · rintro ⟨middle, ⟨task, next, here, first, ran⟩, more⟩
      exact ⟨task, next, here, first, middle, ran, more⟩

theorem serves (ran : Runs interface jobs frame after) (serves : frame.Serves interface call) :
    after.Serves interface call := by
  obtain ⟨tasks, -, finished⟩ := ran
  have kept := serves.runTasks tasks
  rwa [finished] at kept

/-- A job moves behind a list of jobs that it is apart from. -/
theorem move (serves : frame.Serves interface call) (apart : ∀ b ∈ jobs, a.Apart interface b)
    (ran : Runs interface (a :: jobs) frame after) : Runs interface (jobs ++ [a]) frame after := by
  induction jobs generalizing frame with
  | nil => exact ran
  | cons b rest ih =>
    rw [List.forall_mem_cons] at apart
    obtain ⟨task, middle, doneA, one, more⟩ := cons_iff.mp ran
    obtain ⟨task', next, doneB, two, last⟩ := cons_iff.mp more
    obtain ⟨swapped, first, second⟩ := Schedule.runTask_swap serves doneA doneB apart.1 one two
    have kept := serves.runTask task'
    rw [first] at kept
    exact cons_iff.mpr ⟨task', swapped, doneB, first,
      ih kept apart.2 (cons_iff.mpr ⟨task, next, doneA, second, last⟩)⟩

/-- Two lists of jobs that are apart change places. -/
theorem swap (serves : frame.Serves interface call)
    (apart : ∀ a ∈ jobs, ∀ b ∈ others, a.Apart interface b)
    (ran : Runs interface (jobs ++ others) frame after) :
    Runs interface (others ++ jobs) frame after := by
  induction jobs generalizing frame with
  | nil => rwa [List.append_nil]
  | cons a rest ih =>
    rw [List.forall_mem_cons] at apart
    obtain ⟨task, middle, doneA, one, more⟩ := cons_iff.mp ran
    have kept := serves.runTask task
    rw [one] at kept
    obtain ⟨next, first, last⟩ := append_iff.mp (ih kept apart.2 more)
    obtain ⟨front, behind, final⟩ :=
      append_iff.mp (move serves apart.1 (cons_iff.mpr ⟨task, middle, doneA, one, first⟩))
    rw [← List.singleton_append, ← List.append_assoc]
    exact append_iff.mpr ⟨next, append_iff.mpr ⟨front, behind, final⟩, last⟩

/-- **Groups of jobs that are apart can be done in any order.** -/
theorem perm {α : Type} {group : α → List Job} {xs ys : List α} (perm : xs.Perm ys)
    (serves : frame.Serves interface call)
    (apart : xs.Pairwise fun x y => ∀ a ∈ group x, ∀ b ∈ group y, a.Apart interface b)
    (ran : Runs interface (xs.flatMap group) frame after) :
    Runs interface (ys.flatMap group) frame after := by
  induction perm generalizing frame with
  | nil => exact ran
  | cons x _ ih =>
    rw [List.flatMap_cons] at ran ⊢
    obtain ⟨middle, first, more⟩ := append_iff.mp ran
    exact append_iff.mpr ⟨middle, first, ih (first.serves serves) (List.pairwise_cons.mp apart).2 more⟩
  | swap x y l =>
    rw [List.flatMap_cons, List.flatMap_cons, ← List.append_assoc] at ran ⊢
    obtain ⟨middle, first, more⟩ := append_iff.mp ran
    refine append_iff.mpr ⟨middle, swap serves ?_ first, more⟩
    exact (List.pairwise_cons.mp apart).1 x List.mem_cons_self
  | trans first _ ih ih' =>
    refine ih' serves ((first.pairwise_iff fun apart b inB a inA => ?_).mp apart)
      (ih serves apart ran)
    exact (apart a inA b inB).symm

end Runs

end Program

end GridStencil
