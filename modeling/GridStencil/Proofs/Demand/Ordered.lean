import GridStencil.Proofs.Demand.Least

/-!
**The ends of extents are in order.**

An extent starts as a single offset, and from there it is moved, joined with others or restricted to
the plane. None of this puts its upper end before its lower one, so every extent that the analysis
finds has an offset on every axis: a region that is grown by it is never shorter than the domain.

* `Demand.ofProgram?_ordered`: the extents on which live statements are computed.
-/

namespace GridStencil

/-- An extent has offsets on every axis. -/
structure Extent.Ordered (a : Extent) : Prop where
  i : a.i.lo ≤ a.i.hi
  j : a.j.lo ≤ a.j.hi
  k : a.k.lo ≤ a.k.hi

namespace Extent.Ordered

variable {a : Extent}

theorem ofOffset (o : Offset) : (ofOffset o).Ordered :=
  ⟨Int.le_refl _, Int.le_refl _, Int.le_refl _⟩

theorem horizontal (ordered : a.Ordered) : a.horizontal.Ordered :=
  ⟨ordered.i, ordered.j, Int.le_refl _⟩

theorem moved (ordered : a.Ordered) (o : Offset) : (a.moved o).Ordered :=
  ⟨Int.add_le_add_right ordered.i _, Int.add_le_add_right ordered.j _,
    Int.add_le_add_right ordered.k _⟩

/-- A larger extent has offsets as well. -/
theorem of_within {b : Extent} (ordered : a.Ordered) (within : a.Within b) : b.Ordered := by
  obtain ⟨i, j, k⟩ := ordered
  obtain ⟨withinI, withinJ, withinK⟩ := within
  exact ⟨by omega, by omega, by omega⟩

end Extent.Ordered

namespace Demand

open Program

/-! ### Needs -/

/-- All extents of some needs have offsets. -/
def Needs.Ordered (needs : Needs) : Prop :=
  ∀ field extent, needs.get? field = some extent → extent.Ordered

namespace Needs.Ordered

theorem empty : Needs.Ordered .empty := fun _ _ found => nomatch found

theorem insert {needs : Needs} (ordered : needs.Ordered) {extent : Extent}
    (inOrder : extent.Ordered) (field : String) : Needs.Ordered (needs.insert field extent) := by
  intro other whole found
  rw [Name.Table.get?_insert] at found
  split at found
  · exact Option.some.inj found ▸ inOrder
  · exact ordered other whole found

theorem add {needs : Needs} (ordered : needs.Ordered) {extent : Extent} (inOrder : extent.Ordered)
    (field : String) : (needs.add field extent).Ordered := by
  refine ordered.insert ?_ field
  split
  · exact inOrder.of_within (Extent.within_hull_right _ _)
  · exact inOrder

theorem join {needs more : Needs} (ordered : needs.Ordered) (ordered' : more.Ordered) :
    (needs.join more).Ordered := by
  have fold : ∀ (entries : List (String × Extent)) (start : Needs), start.Ordered →
      (∀ pair ∈ entries, pair.2.Ordered) →
      Needs.Ordered (entries.foldl (fun needs pair => needs.add pair.1 pair.2) start) := by
    intro entries
    induction entries with
    | nil => exact fun _ start _ => start
    | cons first rest ih =>
      intro start isOrdered all
      rw [List.forall_mem_cons] at all
      exact ih _ (isOrdered.add all.1 first.1) all.2
  exact fold more.entries needs ordered fun pair member =>
    ordered' pair.1 pair.2 (Name.Table.mem_entries.mp member)

end Needs.Ordered

/-! ### Sweeps -/

/-- All extents of a sweep have offsets. -/
structure Sweep.Ordered (sweep : Sweep) : Prop where
  needs : sweep.needs.Ordered
  carried : sweep.carried.Ordered
  live : ∀ pair ∈ sweep.live, pair.2.Ordered

namespace Sweep.Ordered

variable {writes : List String} {policy : Policy} {sweep after : Sweep}

theorem start {needs : Needs} (ordered : needs.Ordered) : (Sweep.start needs).Ordered :=
  ⟨ordered, .empty, List.forall_mem_nil _⟩

theorem read {extent : Extent} (inOrder : extent.Ordered) (ordered : sweep.Ordered) {read : Read}
    (done : sweep.read writes policy extent read = .ok after) : after.Ordered := by
  have reaches : ∀ {offset reached}, Demand.moved extent read.field offset = .ok reached →
      reached.Ordered := by
    intro offset reached found
    unfold Demand.moved at found
    split at found
    next shift =>
      rw [← Except.ok.inj found, Extent.shift?_eq_some shift]
      exact inOrder.moved offset
    · cases found
  unfold Sweep.read at done
  split at done
  · obtain ⟨reached, found, same⟩ := Steps.bind_eq_ok.mp done
    rw [← Except.ok.inj same]
    exact ⟨ordered.needs.add (reaches found) _, ordered.carried.add (reaches found) _, ordered.live⟩
  · obtain ⟨reached, found, same⟩ := Steps.bind_eq_ok.mp done
    rw [← Except.ok.inj same]
    exact ⟨ordered.needs.add (reaches found) _, ordered.carried, ordered.live⟩

theorem reads {extent : Extent} (inOrder : extent.Ordered) {reads : List Read}
    (ordered : sweep.Ordered)
    (done : reads.foldlM (Sweep.read writes policy extent) sweep = .ok after) : after.Ordered := by
  induction reads generalizing sweep with
  | nil =>
    cases done
    exact ordered
  | cons first rest ih =>
    rw [List.foldlM_cons] at done
    obtain ⟨middle, here, more⟩ := Steps.bind_eq_ok.mp done
    exact ih (ordered.read inOrder here) more

theorem statement (ordered : sweep.Ordered) {position : Position} {statement : Statement}
    (done : sweep.statement writes policy position statement = .ok after) : after.Ordered := by
  unfold Sweep.statement at done
  split at done
  · exact Except.ok.inj done ▸ ordered
  next needed found =>
    dsimp only at done
    have inOrder := (ordered.needs _ _ found).horizontal
    have started : Ordered { sweep with live := (position, needed.horizontal) :: sweep.live } :=
      ⟨ordered.needs, ordered.carried, List.forall_mem_cons.mpr ⟨inOrder, ordered.live⟩⟩
    exact reads inOrder started (Steps.mapError_eq_ok.mp done)

theorem statements (ordered : sweep.Ordered) {statements : List (Position × Statement)}
    (done : sweep.statements writes policy statements = .ok after) : after.Ordered := by
  induction statements generalizing after with
  | nil =>
    cases done
    exact ordered
  | cons first rest ih =>
    obtain ⟨behind, doneRest, doneHere⟩ := Steps.bind_eq_ok.mp done
    exact (ih doneRest).statement doneHere

end Sweep.Ordered

/-! ### Programs -/

theorem settle_ordered {block : Block} {index : Nat} {statements : List (Position × Statement)}
    {needs seeds : Needs} {further : Nat} {sweep : Sweep} (ordered : needs.Ordered)
    (seeded : seeds.Ordered)
    (done : settle block index statements needs further seeds = .ok sweep) : sweep.Ordered := by
  induction further generalizing seeds with
  | zero =>
    unfold settle at done
    obtain ⟨found, swept, verdict⟩ := Steps.bind_eq_ok.mp done
    dsimp only at verdict
    split at verdict
    · cases verdict
      exact (Sweep.Ordered.start (ordered.join seeded)).statements swept
    · cases verdict
  | succ further ih =>
    unfold settle at done
    obtain ⟨found, swept, verdict⟩ := Steps.bind_eq_ok.mp done
    have foundOrdered := (Sweep.Ordered.start (ordered.join seeded)).statements swept
    dsimp only at verdict
    split at verdict
    · cases verdict
      exact foundOrdered
    · exact ih (seeded.join foundOrdered.carried) verdict

theorem sweepBlock_ordered {program : Program} {block : Block} {index : Nat} {needs : Needs}
    {sweep : Sweep} (ordered : needs.Ordered)
    (done : sweepBlock program block index needs = .ok sweep) : sweep.Ordered := by
  unfold sweepBlock at done
  dsimp only at done
  split at done
  · exact settle_ordered ordered .empty done
  · exact (Sweep.Ordered.start ordered).statements done

theorem start_ordered (program : Program) : (Demands.start program).needs.Ordered := by
  intro field extent found
  obtain ⟨rfl, -⟩ := mem_start.mp found
  exact .ofOffset .zero

theorem blocks_ordered {program : Program} {start demands : Demands} {blocks : List (Block × Nat)}
    (ordered : start.needs.Ordered) (live : ∀ pair ∈ start.live, pair.2.Ordered)
    (done : Demands.blocks program start blocks = .ok demands) :
    demands.needs.Ordered ∧ ∀ pair ∈ demands.live, pair.2.Ordered := by
  induction blocks generalizing demands with
  | nil =>
    cases done
    exact ⟨ordered, live⟩
  | cons first rest ih =>
    obtain ⟨behind, doneRest, doneHere⟩ := Steps.bind_eq_ok.mp done
    obtain ⟨sweep, swept, same⟩ := Steps.bind_eq_ok.mp doneHere
    obtain ⟨behindOrdered, behindLive⟩ := ih doneRest
    have sweepOrdered := sweepBlock_ordered behindOrdered swept
    cases same
    exact ⟨sweepOrdered.needs, List.forall_mem_append.mpr ⟨sweepOrdered.live, behindLive⟩⟩

/-- **The extents on which live statements are computed have offsets on every axis.** -/
theorem ofProgram?_ordered {program : Program} {demand : Demand}
    (known : ofProgram? program = .ok demand) {position : Position} {extent : Extent}
    (live : demand.region? position = some extent) : extent.Ordered := by
  unfold ofProgram? at known
  obtain ⟨demands, done, same⟩ := Steps.bind_eq_ok.mp known
  obtain ⟨-, ordered⟩ := blocks_ordered (start_ordered program) (List.forall_mem_nil _) done
  rw [← Except.ok.inj same] at live
  obtain ⟨before, behind, (split : demands.live = _), -⟩ := List.lookup_eq_some_iff.mp live
  refine ordered (position, extent) ?_
  rw [split]
  exact List.mem_append_right _ List.mem_cons_self

end Demand

end GridStencil
