import GridStencil.Kernel.Frame

/-!
**Buffers as arrays of points.**

A point inside the shape of a buffer has a place of its own in the array, so a store to one point is
seen by reads of that point and by no others. What a view gives back at a point is put together
from three facts: where the point lies (`place?_eq_some`), whether its plane was computed
(`View.lacks`), and what was stored there last.

* `View.read_eq_ok`: when a read succeeds, and with what.
* `View.read_commit`: what is read after the values for a region were stored: those values on the
  region, and what was read before elsewhere.
-/

namespace GridStencil

namespace Storage

/-! ### Places -/

/-- The point lies in the shape. -/
def Inside (shape : PerAxis Nat) (index : Offset) : Prop :=
  (0 ≤ index.i ∧ index.i < shape.i) ∧ (0 ≤ index.j ∧ index.j < shape.j) ∧
    (0 ≤ index.k ∧ index.k < shape.k)

theorem inside_iff {shape : PerAxis Nat} {index : Offset} :
    inside shape index = true ↔ Inside shape index := by
  simp only [inside, Inside, Bool.and_eq_true, decide_eq_true_eq, and_assoc]

/-- The place that a point has if it lies in the shape. -/
def spot (shape : PerAxis Nat) (index : Offset) : Nat :=
  placeOf shape ⟨index.i.toNat, index.j.toNat, index.k.toNat⟩

theorem place?_eq_some {storage : Storage} {index : Offset} {place : Nat} :
    storage.place? index = some place ↔
      Inside storage.shape index ∧ spot storage.shape index = place := by
  unfold place? spot
  by_cases within : inside storage.shape index = true
  · rw [if_pos within, Option.some.injEq]
    exact ⟨fun same => ⟨inside_iff.mp within, same⟩, fun both => both.2⟩
  · rw [if_neg within]
    exact ⟨fun absurd => (nomatch absurd), fun both => absurd (inside_iff.mpr both.1) within⟩

theorem place?_eq_none {storage : Storage} {index : Offset} :
    storage.place? index = none ↔ ¬ Inside storage.shape index := by
  rw [← inside_iff]
  unfold place?
  split <;> simp_all

/-- **Two points of a shape with one place are one point.** -/
theorem spot_injective {shape : PerAxis Nat} {a b : Offset} (insideA : Inside shape a)
    (insideB : Inside shape b) (same : spot shape a = spot shape b) : a = b := by
  obtain ⟨ai, aj, ak⟩ := a
  obtain ⟨bi, bj, bk⟩ := b
  obtain ⟨⟨ai0, ail⟩, ⟨aj0, ajl⟩, ⟨ak0, akl⟩⟩ := insideA
  obtain ⟨⟨bi0, bil⟩, ⟨bj0, bjl⟩, ⟨bk0, bkl⟩⟩ := insideB
  simp only at ai0 ail aj0 ajl ak0 akl bi0 bil bj0 bjl bk0 bkl
  simp only [spot, placeOf] at same
  have split : ∀ {q r q' r' n : Nat}, r < n → r' < n → q * n + r = q' * n + r' →
      q = q' ∧ r = r' := by
    intro q r q' r' n below below' equal
    have positive : 0 < n := by omega
    have quotient : (q * n + r) / n = (q' * n + r') / n := by rw [equal]
    rw [Nat.mul_comm q, Nat.mul_comm q', Nat.mul_add_div positive, Nat.mul_add_div positive,
      Nat.div_eq_of_lt below, Nat.div_eq_of_lt below'] at quotient
    have sameQuotient : q = q' := by omega
    subst sameQuotient
    exact ⟨rfl, by omega⟩
  obtain ⟨columns, sameK⟩ := split (by omega) (by omega) same
  obtain ⟨sameI, sameJ⟩ := split (by omega) (by omega) columns
  rw [Offset.mk.injEq]
  exact ⟨by omega, by omega, by omega⟩

theorem spot_lt {shape : PerAxis Nat} {a : Offset} (within : Inside shape a) :
    spot shape a < shape.volume := by
  obtain ⟨⟨i0, il⟩, ⟨j0, jl⟩, ⟨k0, kl⟩⟩ := within
  have rows : a.i.toNat * shape.j + a.j.toNat < shape.i * shape.j :=
    calc a.i.toNat * shape.j + a.j.toNat < a.i.toNat * shape.j + shape.j := by omega
      _ = (a.i.toNat + 1) * shape.j := (Nat.succ_mul _ _).symm
      _ ≤ shape.i * shape.j := Nat.mul_le_mul_right _ (by omega)
  calc spot shape a
      < (a.i.toNat * shape.j + a.j.toNat) * shape.k + shape.k := by
        unfold spot placeOf
        simp only
        omega
    _ = (a.i.toNat * shape.j + a.j.toNat + 1) * shape.k := (Nat.succ_mul _ _).symm
    _ ≤ shape.volume := Nat.mul_le_mul_right _ rows

/-- Every place of the array belongs to a point. -/
theorem exists_spot {shape : PerAxis Nat} {place : Nat} (below : place < shape.volume) :
    ∃ index, Inside shape index ∧ spot shape index = place := by
  have k : 0 < shape.k := Nat.pos_of_ne_zero fun none => by
    rw [PerAxis.volume, none, Nat.mul_zero] at below
    exact absurd below (Nat.not_lt_zero _)
  have j : 0 < shape.j := Nat.pos_of_ne_zero fun none => by
    rw [PerAxis.volume, none, Nat.mul_zero, Nat.zero_mul] at below
    exact absurd below (Nat.not_lt_zero _)
  have column : place / shape.k < shape.i * shape.j :=
    Nat.div_lt_of_lt_mul (by rwa [Nat.mul_comm])
  have row : place / shape.k / shape.j < shape.i :=
    Nat.div_lt_of_lt_mul (by rwa [Nat.mul_comm])
  refine ⟨offsetOf (pointAt shape place), ⟨⟨Int.natCast_nonneg _, Int.ofNat_lt.mpr row⟩,
    ⟨Int.natCast_nonneg _, Int.ofNat_lt.mpr (Nat.mod_lt _ j)⟩, Int.natCast_nonneg _,
    Int.ofNat_lt.mpr (Nat.mod_lt _ k)⟩, ?_⟩
  show (place / shape.k / shape.j * shape.j + place / shape.k % shape.j) * shape.k +
    place % shape.k = place
  rw [Nat.div_add_mod', Nat.div_add_mod']

/-- Two buffers of one shape and type with the same elements are the same. -/
theorem eq_of_elements {a b : Storage} (shape : a.shape = b.shape) (type : a.type = b.type)
    (same : ∀ index, Inside a.shape index →
      a.valueAt (spot a.shape index) = b.valueAt (spot a.shape index)) : a = b := by
  obtain ⟨aShape, aType, aData, aSize⟩ := a
  obtain ⟨bShape, bType, bData, bSize⟩ := b
  obtain rfl : aShape = bShape := shape
  obtain rfl : aType = bType := type
  suffices aData = bData by
    subst this
    rfl
  refine Array.ext (aSize.trans bSize.symm) fun place below below' => ?_
  obtain ⟨index, inside, rfl⟩ := exists_spot (aSize ▸ below)
  have here : aData.getD (spot aShape index) 0.0 = bData.getD (spot aShape index) 0.0 :=
    same index inside
  rwa [Array.getD_eq_getD_getElem?, Array.getD_eq_getD_getElem?, Array.getElem?_eq_getElem below,
    Array.getElem?_eq_getElem below'] at here

/-- The points of a column lie next to each other. -/
theorem spot_up {shape : PerAxis Nat} {a : Offset} (above : 0 ≤ a.k) (n : Nat) :
    spot shape { a with k := a.k + n } = spot shape a + n := by
  unfold spot placeOf
  simp only
  omega

/-! ### Stores -/

theorem valueAt_put_self {storage : Storage} {place : Nat} (value : Float)
    (below : place < storage.shape.volume) :
    (storage.put place value).valueAt place = storage.type.cast value := by
  have bound : place < storage.data.size := by rw [storage.size_data]; exact below
  unfold valueAt put
  simp [Array.getD, Array.size_setIfInBounds, bound]

theorem valueAt_put_of_ne {storage : Storage} {place other : Nat} (value : Float)
    (different : other ≠ place) :
    (storage.put place value).valueAt other = storage.valueAt other := by
  unfold valueAt put
  simp only [Array.getD_eq_getD_getElem?]
  rw [Array.getElem?_setIfInBounds_ne (by omega)]

end Storage

namespace View

/-! ### Reads -/

theorem index_injective {view : View} (full : view.zeroDim = false) {p q : Offset}
    (same : view.index p = view.index q) : p = q := by
  obtain ⟨pi, pj, pk⟩ := p
  obtain ⟨qi, qj, qk⟩ := q
  simp only [index, full, Bool.false_eq_true, if_false, Offset.add, Offset.mk.injEq] at same
  rw [Offset.mk.injEq]
  exact ⟨by omega, by omega, by omega⟩

theorem requirePlanes_eq_ok {view : View} {planes : Stretch} :
    view.requirePlanes planes = .ok () ↔ ∀ k ∈ planes.toList, view.lacks k = false := by
  unfold requirePlanes
  cases found : planes.toList.find? view.lacks with
  | none =>
    rw [List.find?_eq_none] at found
    exact ⟨fun _ k member => Bool.eq_false_iff.mpr (found k member), fun _ => rfl⟩
  | some k =>
    refine ⟨fun absurd => (nomatch absurd), fun none => ?_⟩
    have lacking := List.find?_some found
    rw [none k (List.mem_of_find?_eq_some found)] at lacking
    cases lacking

theorem requirePlanes_plane {view : View} {k : Int} :
    view.requirePlanes ⟨k, k + 1⟩ = .ok () ↔ view.lacks k = false := by
  rw [requirePlanes_eq_ok]
  refine ⟨fun all => all k (Stretch.mem_toList.mpr ⟨Int.le_refl k, Int.lt_succ k⟩),
    fun here other member => ?_⟩
  obtain ⟨above, below⟩ := Stretch.mem_toList.mp member
  simp only at above below
  have same : other = k := by omega
  rw [same]
  exact here

/-- **When a read succeeds, and with what**: the point lies in the buffer, its plane was computed,
and the value is the element there. -/
theorem read_eq_ok {view : View} {p : Offset} {x : Float} :
    view.read p = .ok x ↔
      Storage.Inside view.storage.shape (view.index p) ∧ view.lacks p.k = false ∧
        view.storage.valueAt (Storage.spot view.storage.shape (view.index p)) = x := by
  unfold read
  cases found : view.storage.place? (view.index p) with
  | none =>
    have outside := Storage.place?_eq_none.mp found
    exact ⟨fun absurd => (nomatch absurd), fun all => absurd all.1 outside⟩
  | some place =>
    obtain ⟨within, rfl⟩ := Storage.place?_eq_some.mp found
    simp only
    cases planes : view.requirePlanes ⟨p.k, p.k + 1⟩ with
    | error cause =>
      have lacking : ¬ view.lacks p.k = false := by
        rw [← requirePlanes_plane, planes]
        exact fun absurd => (nomatch absurd)
      exact ⟨fun absurd => (nomatch absurd), fun all => absurd all.2.1 lacking⟩
    | ok _ =>
      have there := requirePlanes_plane.mp planes
      refine ⟨fun value => ⟨within, there, ?_⟩, fun all => ?_⟩
      · exact Except.ok.inj value
      · rw [← all.2.2]
        rfl

/-! ### Computed planes -/

/-- Planes count as computed exactly if they did before or are marked. -/
theorem lacks_markComputed {view : View} {planes : Stretch} {k : Int} :
    (view.markComputed planes).lacks k = true ↔ view.lacks k = true ∧ k ∉ planes.toList := by
  unfold markComputed lacks
  cases view.computed with
  | none => simp
  | some flags =>
    simp only [Option.map_some]
    induction planes.toList generalizing flags with
    | nil => simp
    | cons first rest ih =>
      rw [List.foldl_cons, ih, List.mem_cons, not_or]
      by_cases below : 0 ≤ view.origin.k + first
      · rw [if_pos below]
        by_cases same : k = first
        · subst same
          simp only [Bool.and_eq_true, decide_eq_true_eq, beq_iff_eq, not_true_eq_false, false_and,
            and_false, iff_false, not_and]
          intro both
          rw [List.getElem?_set_self'] at both
          cases found : flags[(view.origin.k + k).toNat]? with
          | none => rw [found] at both; exact absurd both.2 (by simp)
          | some flag => rw [found] at both; exact absurd both.2 (by simp)
        · simp only [Bool.and_eq_true, decide_eq_true_eq, beq_iff_eq, same, not_false_eq_true,
            true_and]
          constructor
          · rintro ⟨⟨above, flag⟩, outside⟩
            rw [List.getElem?_set_ne (by omega)] at flag
            exact ⟨⟨above, flag⟩, outside⟩
          · rintro ⟨⟨above, flag⟩, outside⟩
            rw [List.getElem?_set_ne (by omega)]
            exact ⟨⟨above, flag⟩, outside⟩
      · rw [if_neg below]
        constructor
        · rintro ⟨lacking, outside⟩
          refine ⟨lacking, fun same => ?_, outside⟩
          subst same
          simp only [Bool.and_eq_true, decide_eq_true_eq] at lacking
          exact below lacking.1
        · rintro ⟨lacking, -, outside⟩
          exact ⟨lacking, outside⟩

/-! ### Stores -/

/-- What a store leaves alone: everything but the elements and the marks of computed planes. -/
structure SameLayout (before after : View) : Prop where
  name : after.name = before.name
  origin : after.origin = before.origin
  zeroDim : after.zeroDim = before.zeroDim
  writable : after.writable = before.writable
  shape : after.storage.shape = before.storage.shape
  type : after.storage.type = before.storage.type
  temporary : after.computed.isSome = before.computed.isSome

namespace SameLayout

theorem refl (view : View) : SameLayout view view := ⟨rfl, rfl, rfl, rfl, rfl, rfl, rfl⟩

theorem trans {a b c : View} (first : SameLayout a b) (second : SameLayout b c) :
    SameLayout a c :=
  ⟨second.name.trans first.name, second.origin.trans first.origin,
    second.zeroDim.trans first.zeroDim, second.writable.trans first.writable,
    second.shape.trans first.shape, second.type.trans first.type,
    second.temporary.trans first.temporary⟩

theorem index {before after : View} (same : SameLayout before after) (p : Offset) :
    after.index p = before.index p := by
  unfold View.index
  rw [same.zeroDim, same.origin]

theorem put (view : View) (place : Nat) (value : Float) :
    SameLayout view { view with storage := view.storage.put place value } :=
  ⟨rfl, rfl, rfl, rfl, rfl, rfl, rfl⟩

theorem markComputed (view : View) (planes : Stretch) :
    SameLayout view (view.markComputed planes) :=
  ⟨rfl, rfl, rfl, rfl, rfl, rfl, by unfold View.markComputed; simp⟩

end SameLayout

theorem sameLayout_storeAll (view : View) (stores : List (Offset × Float)) :
    SameLayout view (view.storeAll stores).1 := by
  induction stores generalizing view with
  | nil => exact .refl view
  | cons store rest ih =>
    obtain ⟨point, value⟩ := store
    unfold storeAll
    split
    · exact .refl view
    · exact (SameLayout.put view _ value).trans (ih _)

theorem sameLayout_commit (view : View) (region : Region) (values : List Float) :
    SameLayout view (view.commit region values).1 := by
  unfold commit
  have stored := sameLayout_storeAll view (region.points.zip values)
  split
  · cases result : view.storeAll (region.points.zip values) with
    | mk after failure =>
      rw [result] at stored
      cases failure with
      | none => exact stored.trans (.markComputed after _)
      | some cause => exact stored
  · exact .refl view

theorem computed_storeAll (view : View) (stores : List (Offset × Float)) :
    (view.storeAll stores).1.computed = view.computed := by
  induction stores generalizing view with
  | nil => rfl
  | cons store rest ih =>
    obtain ⟨point, value⟩ := store
    unfold storeAll
    split
    · rfl
    · rw [ih]

/-- Stores fail exactly if one of the points lies outside the buffer, and then with that
finding. -/
theorem storeAll_failure (view : View) (stores : List (Offset × Float)) :
    (view.storeAll stores).2 = none ↔
      ∀ store ∈ stores, Storage.Inside view.storage.shape (view.index store.1) := by
  induction stores generalizing view with
  | nil => exact ⟨fun _ _ member => (nomatch member), fun _ => rfl⟩
  | cons store rest ih =>
    obtain ⟨point, value⟩ := store
    unfold storeAll
    split
    next found =>
      have outside := Storage.place?_eq_none.mp found
      exact ⟨fun absurd => (nomatch absurd), fun all => absurd (all _ List.mem_cons_self) outside⟩
    next place found =>
      obtain ⟨within, -⟩ := Storage.place?_eq_some.mp found
      rw [ih, List.forall_mem_cons]
      exact ⟨fun all => ⟨within, all⟩, fun all => all.2⟩

/-- **Elements after stores.** An element keeps its value if no store goes to its point. -/
theorem valueAt_storeAll_of_ne (view : View) {stores : List (Offset × Float)} {index : Offset}
    (within : Storage.Inside view.storage.shape index)
    (other : ∀ store ∈ stores, view.index store.1 ≠ index) :
    (view.storeAll stores).1.storage.valueAt (Storage.spot view.storage.shape index) =
      view.storage.valueAt (Storage.spot view.storage.shape index) := by
  induction stores generalizing view with
  | nil => rfl
  | cons store rest ih =>
    obtain ⟨point, value⟩ := store
    rw [List.forall_mem_cons] at other
    unfold storeAll
    split
    · rfl
    next place found =>
      obtain ⟨here, rfl⟩ := Storage.place?_eq_some.mp found
      refine (ih { view with storage := view.storage.put _ value } within other.2).trans ?_
      apply Storage.valueAt_put_of_ne
      exact fun same => other.1 (Storage.spot_injective within here same).symm

/-- **Elements after stores.** Where the values are given by a function of the point, the element
of every point that was stored is the value there. -/
theorem valueAt_storeAll (view : View) (full : view.zeroDim = false) (value : Offset → Float)
    {points : List Offset} {p : Offset} (member : p ∈ points)
    (inside : ∀ q ∈ points, Storage.Inside view.storage.shape (view.index q)) :
    (view.storeAll (points.map fun q => (q, value q))).1.storage.valueAt
        (Storage.spot view.storage.shape (view.index p)) =
      view.storage.type.cast (value p) := by
  induction points generalizing view with
  | nil => cases member
  | cons first rest ih =>
    rw [List.forall_mem_cons] at inside
    rw [List.map_cons]
    unfold storeAll
    have found : view.storage.place? (view.index first) = some _ :=
      Storage.place?_eq_some.mpr ⟨inside.1, rfl⟩
    rw [found]
    simp only
    by_cases again : p ∈ rest
    · exact ih { view with storage := view.storage.put _ (value first) } full again inside.2
    · have same : p = first := (List.mem_cons.mp member).resolve_right again
      subst same
      have elsewhere : ∀ store ∈ rest.map fun q => (q, value q),
          view.index store.1 ≠ view.index p := by
        intro store stored
        obtain ⟨q, qMember, rfl⟩ := List.mem_map.mp stored
        exact fun equal => again (index_injective full equal ▸ qMember)
      refine (valueAt_storeAll_of_ne
        { view with
          storage := view.storage.put (Storage.spot view.storage.shape (view.index p)) (value p) }
        inside.1 elsewhere).trans ?_
      exact Storage.valueAt_put_self _ (Storage.spot_lt inside.1)

theorem mem_region_k {region : Region} {p : Offset} (member : p ∈ region.points) :
    p.k ∈ region.k.toList := (Region.mem_points.mp member).2.2

section Commit

variable {view after : View} {region : Region} {value : Offset → Float}

/-- The parts of a store that succeeded. -/
theorem commit_eq_none {values : List Float}
    (stored : view.commit region values = (after, none)) :
    view.writable = true ∧ (view.storeAll (region.points.zip values)).2 = none ∧
      after = (view.storeAll (region.points.zip values)).1.markComputed region.k := by
  unfold commit at stored
  split at stored
  next writable =>
    cases result : view.storeAll (region.points.zip values) with
    | mk next failure =>
      rw [result] at stored
      cases failure with
      | none =>
        simp only [Prod.mk.injEq, and_true] at stored
        exact ⟨writable, rfl, stored.symm⟩
      | some cause => simp at stored
  · simp at stored

theorem zip_map_self (points : List Offset) :
    points.zip (points.map value) = points.map fun p => (p, value p) := by
  induction points with
  | nil => rfl
  | cons first rest ih => rw [List.map_cons, List.zip_cons_cons, ih, List.map_cons]

/-- **What is read on a region after a store to it**: the values stored, cast to the type of the
elements. -/
theorem read_commit_of_mem (full : view.zeroDim = false)
    (stored : view.commit region (region.points.map value) = (after, none)) {p : Offset}
    (member : p ∈ region.points) : after.read p = .ok (view.storage.type.cast (value p)) := by
  have layout := sameLayout_commit view region (region.points.map value)
  rw [stored] at layout
  obtain ⟨-, succeeded, rfl⟩ := commit_eq_none stored
  rw [zip_map_self] at succeeded layout ⊢
  have inside : ∀ q ∈ region.points, Storage.Inside view.storage.shape (view.index q) := by
    intro q qMember
    exact (storeAll_failure view _).mp succeeded _ (List.mem_map.mpr ⟨q, qMember, rfl⟩)
  rw [read_eq_ok, layout.index, layout.shape]
  refine ⟨inside p member, ?_, ?_⟩
  · rw [Bool.eq_false_iff]
    intro lacking
    exact (lacks_markComputed.mp lacking).2 (mem_region_k member)
  · exact valueAt_storeAll view full value member inside

/-- What is read after a store at a point that it does not go to, if the plane of the point counts
as computed as it did before. -/
theorem read_commit_of_unwritten {xs : List Float} (full : view.zeroDim = false)
    (stored : view.commit region xs = (after, none)) {p : Offset}
    (other : p ∉ region.points) (planes : after.lacks p.k = view.lacks p.k) {x : Float} :
    after.read p = .ok x ↔ view.read p = .ok x := by
  have layout := sameLayout_commit view region xs
  rw [stored] at layout
  rw [read_eq_ok, read_eq_ok, layout.index, layout.shape, planes]
  obtain ⟨-, succeeded, rfl⟩ := commit_eq_none stored
  refine and_congr_right fun within => and_congr_right fun _ => ?_
  have kept : (View.markComputed (view.storeAll (region.points.zip xs)).1 region.k).storage.valueAt
        (Storage.spot view.storage.shape (view.index p)) =
      view.storage.valueAt (Storage.spot view.storage.shape (view.index p)) := by
    refine valueAt_storeAll_of_ne view within ?_
    intro store member equal
    exact other (index_injective full equal ▸ (List.of_mem_zip member).1)
  rw [kept]

/-- **What is read on other planes after a store**: the same as before. -/
theorem read_commit_of_not_mem {xs : List Float} (full : view.zeroDim = false)
    (stored : view.commit region xs = (after, none)) {p : Offset}
    (other : p.k ∉ region.k.toList) {x : Float} : after.read p = .ok x ↔ view.read p = .ok x := by
  refine read_commit_of_unwritten full stored (fun point => other (mem_region_k point)) ?_
  obtain ⟨-, -, rfl⟩ := commit_eq_none stored
  rw [Bool.eq_iff_iff, lacks_markComputed]
  have kept : (view.storeAll (region.points.zip xs)).1.lacks p.k =
      view.lacks p.k := by
    unfold lacks
    rw [computed_storeAll, (sameLayout_storeAll view _).origin]
  rw [kept]
  exact ⟨fun both => both.1, fun lacking => ⟨lacking, other⟩⟩

/-- **What is read at other points after a store** to a buffer that is not a temporary: the same as
before. -/
theorem read_commit_of_complete {xs : List Float} (full : view.zeroDim = false)
    (stored : view.commit region xs = (after, none)) {p : Offset}
    (other : p ∉ region.points) (complete : view.computed = none) {x : Float} :
    after.read p = .ok x ↔ view.read p = .ok x := by
  refine read_commit_of_unwritten full stored other ?_
  have layout := sameLayout_commit view region xs
  rw [stored] at layout
  have completeAfter : after.computed = none := by
    rw [← Option.isNone_iff_eq_none, ← Option.not_isSome, layout.temporary, complete]
    rfl
  unfold lacks
  rw [complete, completeAfter]

end Commit

end View

end GridStencil
