import GridStencil.Proofs.Halo
import Mathlib.Data.Set.Function

/-!
**A buffer is an array of its points.**

Whatever is stored in a buffer, and however it was made, it shows at every point of its shape what
was stored there last, and nothing at other points. One store changes the element at one point, or
all of them (`valueAt_serve`); from this follows what a history of stores leaves behind
(`valueAt_foldl`), starting with what the buffer was made of (`make?_eq_ok`).

* `placeOf_bijOn`: the points of a shape and the places of its array correspond one to one.
* `foldl_represents`: what a buffer is like after any history of stores.
-/

namespace GridStencil

/-- A word that is not negative as a number with a sign is the same number. -/
theorem Number.wrapped_of_nonneg {n : Nat} (word : n < wordCount) (nonneg : 0 ≤ wrapped n) :
    wrapped n = n := by
  unfold wrapped wordCount at *
  rw [Int.bmod_def] at *
  omega

namespace Storage

/-- The point lies in the shape. -/
def Valid (shape index : PerAxis Nat) : Prop :=
  index.i < shape.i ∧ index.j < shape.j ∧ index.k < shape.k

instance (shape index : PerAxis Nat) : Decidable (Valid shape index) :=
  inferInstanceAs (Decidable (_ ∧ _))

/-- What is stored in a buffer. -/
inductive Store
  /-- A value at one point. -/
  | set (index : PerAxis Nat) (value : Float)
  /-- The same value at every point. -/
  | fill (value : Float)

/-- The buffer after a store. A store that is refused leaves it as it was. -/
def serve (storage : Storage) : Store → Storage
  | .set index value =>
    match storage.set index value with
    | .ok after => after
    | .error _ => storage
  | .fill value => storage.fill value

/-- The value that a store is to leave at a point. -/
def Store.at? (index : PerAxis Nat) : Store → Option Float
  | .set other value => if other = index then some value else none
  | .fill value => some value

namespace Making

/-- The shape of the buffer. -/
def shape : Making → PerAxis Nat
  | .zeros shape => shape
  | .function shape _ => shape
  | .list shape _ => shape
  | .single _ => pointShape

/-- The element at a point of a new buffer. -/
def element (type : ElementType) (index : PerAxis Nat) : Making → Float
  | .zeros _ => 0.0
  | .function _ f => type.cast (f index)
  | .list shape values => type.cast (values.getD (placeOf shape index) 0.0)
  | .single value => type.cast value

/-- The buffer can be made: its columns and points can be counted in words, and its elements have
room in memory, or are given one by one. -/
def Possible : Making → Prop
  | .zeros shape | .function shape _ =>
    shape.i * shape.j < Number.wordCount ∧ Number.InRange (8 * shape.volume : Nat)
  | .list shape values =>
    shape.i * shape.j < Number.wordCount ∧ shape.volume < Number.wordCount ∧
      values.length = shape.volume
  | .single _ => True

end Making

/-- The element at a point after some stores: the last value for this point, or what was there at
first. -/
def latest (type : ElementType) (index : PerAxis Nat) (first : Float) (stores : List Store) :
    Float :=
  ((stores.filterMap (Store.at? index)).getLast?.map type.cast).getD first

/-- The buffer has these elements at the points of the shape, and nothing at other points. -/
structure Represents (storage : Storage) (shape : PerAxis Nat) (type : ElementType)
    (element : PerAxis Nat → Float) : Prop where
  hasShape : storage.shape = shape
  hasType : storage.type = type
  length : storage.data.size = shape.volume
  /-- Points and places correspond one to one. -/
  places : Set.BijOn (placeOf shape) {index | Valid shape index} {n | n < shape.volume}
  /-- The points of a column lie next to each other. -/
  column : ∀ index n, placeOf shape { index with k := index.k + n } = placeOf shape index + n
  place : ∀ index, storage.place index =
    if Valid shape index then .ok (placeOf shape index) else .error ⟨index, shape⟩
  /-- A point with indices that may be negative has the same place, or none. -/
  place? : ∀ point n, storage.place? point = some n ↔
    ∃ index, offsetOf index = point ∧ storage.place index = .ok n
  get? : ∀ index, storage.get? index = if Valid shape index then some (element index) else none
  get : ∀ index, storage.get index =
    if Valid shape index then .ok (element index) else .error ⟨index, shape⟩
  set : ∀ index value, storage.set index value =
    if Valid shape index then .ok (storage.put (placeOf shape index) value)
    else .error ⟨index, shape⟩
  refused : ∀ index value, ¬ Valid shape index → storage.serve (.set index value) = storage

/-! ### Places -/

section Places

variable {shape : PerAxis Nat} {storage : Storage}

theorem inside_offsetOf {index : PerAxis Nat} :
    Inside shape (offsetOf index) ↔ Valid shape index := by
  unfold Inside Valid offsetOf
  simp only [Int.natCast_nonneg, Int.ofNat_lt, true_and]

/-- A point of a shape has indices without a sign. -/
theorem exists_valid {point : Offset} (within : Inside shape point) :
    ∃ index, Valid shape index ∧ offsetOf index = point := by
  obtain ⟨⟨i, belowI⟩, ⟨j, belowJ⟩, k, belowK⟩ := within
  have same : offsetOf ⟨point.i.toNat, point.j.toNat, point.k.toNat⟩ = point := by
    unfold offsetOf
    rw [Int.toNat_of_nonneg i, Int.toNat_of_nonneg j, Int.toNat_of_nonneg k]
  refine ⟨_, inside_offsetOf.mp ?_, same⟩
  rw [same]
  exact ⟨⟨i, belowI⟩, ⟨j, belowJ⟩, k, belowK⟩

theorem offsetOf_injective {a b : PerAxis Nat} (same : offsetOf a = offsetOf b) : a = b := by
  obtain ⟨ai, aj, ak⟩ := a
  obtain ⟨i, j, k⟩ := Offset.mk.inj same
  exact PerAxis.mk.injEq .. ▸ ⟨Int.ofNat.inj i, Int.ofNat.inj j, Int.ofNat.inj k⟩

/-- Different points of a shape have different places. -/
theorem placeOf_injOn : Set.InjOn (placeOf shape) {index | Valid shape index} :=
  fun _ validA _ validB same => offsetOf_injective
    (spot_injective (inside_offsetOf.mpr validA) (inside_offsetOf.mpr validB) same)

theorem placeOf_lt {index : PerAxis Nat} (valid : Valid shape index) :
    placeOf shape index < shape.volume :=
  spot_lt (inside_offsetOf.mpr valid)

/-- **The points of a shape and the places of its array correspond one to one.** -/
theorem placeOf_bijOn :
    Set.BijOn (placeOf shape) {index | Valid shape index} {n | n < shape.volume} := by
  refine ⟨fun _ valid => placeOf_lt valid, placeOf_injOn, fun n below => ?_⟩
  obtain ⟨point, inside, spot⟩ := exists_spot below
  obtain ⟨index, valid, rfl⟩ := exists_valid inside
  exact ⟨index, valid, spot⟩

theorem pointAt_placeOf {index : PerAxis Nat} (valid : Valid shape index) :
    pointAt shape (placeOf shape index) = index := by
  obtain ⟨i, j, k⟩ := index
  obtain ⟨-, belowJ, belowK⟩ := valid
  dsimp only at belowJ belowK
  have column : ((i * shape.j + j) * shape.k + k) / shape.k = i * shape.j + j := by
    rw [Nat.mul_comm _ shape.k, Nat.mul_add_div (Nat.zero_lt_of_lt belowK),
      Nat.div_eq_of_lt belowK, Nat.add_zero]
  have row : (i * shape.j + j) / shape.j = i := by
    rw [Nat.mul_comm _ shape.j, Nat.mul_add_div (Nat.zero_lt_of_lt belowJ),
      Nat.div_eq_of_lt belowJ, Nat.add_zero]
  unfold pointAt placeOf
  dsimp only
  rw [column, row, Nat.mul_add_mod_of_lt belowJ, Nat.mul_add_mod_of_lt belowK]

theorem place_eq (storage : Storage) (index : PerAxis Nat) :
    storage.place index = if Valid storage.shape index then .ok (placeOf storage.shape index)
      else .error ⟨index, storage.shape⟩ := rfl

theorem place?_eq_some_iff {point : Offset} {n : Nat} :
    storage.place? point = some n ↔
      ∃ index, offsetOf index = point ∧ storage.place index = .ok n := by
  rw [place?_eq_some]
  constructor
  · rintro ⟨inside, rfl⟩
    obtain ⟨index, valid, rfl⟩ := exists_valid inside
    exact ⟨index, rfl, by rw [place_eq, if_pos valid]; rfl⟩
  · rintro ⟨index, rfl, found⟩
    rw [place_eq] at found
    split at found
    next valid =>
      exact ⟨inside_offsetOf.mpr valid, Except.ok.inj found⟩
    next invalid => cases found

end Places

/-! ### Stores -/

section Stores

variable {storage : Storage} {index : PerAxis Nat}

theorem get?_eq (storage : Storage) (index : PerAxis Nat) : storage.get? index =
    if Valid storage.shape index then some (storage.valueAt (placeOf storage.shape index))
    else none := by
  unfold get?
  by_cases valid : Valid storage.shape index
  · have found : storage.place? (offsetOf index) = some (placeOf storage.shape index) :=
      place?_eq_some.mpr ⟨inside_offsetOf.mpr valid, rfl⟩
    rw [found, if_pos valid]
    rfl
  · rw [place?_eq_none.mpr fun within => valid (inside_offsetOf.mp within), if_neg valid]
    rfl

theorem get_eq (storage : Storage) (index : PerAxis Nat) : storage.get index =
    if Valid storage.shape index then .ok (storage.valueAt (placeOf storage.shape index))
    else .error ⟨index, storage.shape⟩ := by
  unfold get
  rw [place_eq]
  split <;> rfl

theorem set_eq (storage : Storage) (index : PerAxis Nat) (value : Float) :
    storage.set index value =
      if Valid storage.shape index then .ok (storage.put (placeOf storage.shape index) value)
      else .error ⟨index, storage.shape⟩ := by
  unfold set
  rw [place_eq]
  split <;> rfl

theorem serve_set (storage : Storage) (index : PerAxis Nat) (value : Float) :
    storage.serve (.set index value) =
      if Valid storage.shape index then storage.put (placeOf storage.shape index) value
      else storage := by
  rw [serve, set_eq]
  by_cases valid : Valid storage.shape index
  · rw [if_pos valid, if_pos valid]
  · rw [if_neg valid, if_neg valid]

theorem shape_serve (storage : Storage) (store : Store) :
    (storage.serve store).shape = storage.shape := by
  cases store with
  | set index value =>
    rw [serve_set]
    split <;> rfl
  | fill value => rfl

theorem type_serve (storage : Storage) (store : Store) :
    (storage.serve store).type = storage.type := by
  cases store with
  | set index value =>
    rw [serve_set]
    split <;> rfl
  | fill value => rfl

theorem valueAt_filled {shape : PerAxis Nat} {n : Nat} (below : n < shape.volume)
    (type : ElementType) (value : Float) :
    (filled shape type value).valueAt n = type.cast value := by
  unfold valueAt filled
  rw [Array.getD_eq_getD_getElem?, Array.getElem?_replicate, if_pos below, Option.getD_some]

/-- **What a store changes**: the elements that it has a value for, and no others. -/
theorem valueAt_serve (valid : Valid storage.shape index) (store : Store) :
    (storage.serve store).valueAt (placeOf storage.shape index) =
      ((store.at? index).map storage.type.cast).getD
        (storage.valueAt (placeOf storage.shape index)) := by
  cases store with
  | fill value => exact valueAt_filled (placeOf_lt valid) _ _
  | set other value =>
    rw [serve_set, Store.at?]
    by_cases same : other = index
    · rw [if_pos same, same, if_pos valid]
      exact valueAt_put_self value (placeOf_lt valid)
    · rw [if_neg same]
      split
      next validOther =>
        exact valueAt_put_of_ne value fun equal => same (placeOf_injOn valid validOther equal).symm
      next => rfl

end Stores

/-! ### A history of stores -/

section History

variable {storage : Storage} {stores : List Store}

theorem shape_foldl : (stores.foldl serve storage).shape = storage.shape := by
  induction stores generalizing storage with
  | nil => rfl
  | cons store rest ih => exact ih.trans (shape_serve storage store)

theorem type_foldl : (stores.foldl serve storage).type = storage.type := by
  induction stores generalizing storage with
  | nil => rfl
  | cons store rest ih => exact ih.trans (type_serve storage store)

/-- What comes after a store decides, or else the store. -/
theorem latest_cons (type : ElementType) (index : PerAxis Nat) (first : Float) (store : Store)
    (stores : List Store) :
    latest type index first (store :: stores) =
      latest type index (((store.at? index).map type.cast).getD first) stores := by
  unfold latest
  rw [List.filterMap_cons]
  cases store.at? index with
  | none => rfl
  | some value =>
    dsimp only
    rw [List.getLast?_cons]
    cases (stores.filterMap (Store.at? index)).getLast? <;> rfl

/-- **The element at a point after a history of stores** is the last value that was stored there, or
else what was there at first. -/
theorem valueAt_foldl {index : PerAxis Nat} (valid : Valid storage.shape index) :
    (stores.foldl serve storage).valueAt (placeOf storage.shape index) =
      latest storage.type index (storage.valueAt (placeOf storage.shape index)) stores := by
  induction stores generalizing storage with
  | nil => rfl
  | cons store rest ih =>
    have shape := shape_serve storage store
    have stillValid : Valid (storage.serve store).shape index := shape ▸ valid
    have later := ih stillValid
    rw [shape, type_serve, valueAt_serve valid] at later
    rw [List.foldl_cons, later, latest_cons]

end History

/-! ### New buffers -/

section New

variable {shape : PerAxis Nat} {type : ElementType} {making : Making} {start : Storage}

theorem count_eq_ok {n : Nat} : shape.count = .ok n ↔
    shape.i * shape.j < Number.wordCount ∧ shape.volume < Number.wordCount ∧ shape.volume = n := by
  unfold PerAxis.count
  rw [Steps.bind_eq_ok]
  constructor
  · rintro ⟨columns, first, second⟩
    obtain ⟨fits, rfl⟩ := Number.times_eq_ok.mp first
    exact ⟨fits, Number.times_eq_ok.mp second⟩
  · rintro ⟨columns, points⟩
    exact ⟨_, Number.times_eq_ok.mpr ⟨columns, rfl⟩, Number.times_eq_ok.mpr points⟩

/-- There is memory for the elements of a shape if its columns can be counted and the bytes fit. -/
theorem requireRoom_eq_ok : requireRoom shape = .ok () ↔
    shape.i * shape.j < Number.wordCount ∧ Number.InRange (8 * shape.volume : Nat) := by
  unfold requireRoom
  rw [Steps.bind_eq_ok]
  constructor
  · rintro ⟨n, counted, room⟩
    obtain ⟨columns, -, rfl⟩ := count_eq_ok.mp counted
    exact ⟨columns, Number.requireMemory_eq_ok.mp room⟩
  · rintro ⟨columns, room⟩
    refine ⟨shape.volume, count_eq_ok.mpr ⟨columns, ?_, rfl⟩, Number.requireMemory_eq_ok.mpr room⟩
    have bound := room.2
    unfold Number.int64Bound at bound
    unfold Number.wordCount
    omega

theorem volume_lt_of_room (room : requireRoom shape = .ok ()) :
    shape.volume < Number.wordCount := by
  obtain ⟨n, counted, -⟩ := Steps.bind_eq_ok.mp room
  exact (count_eq_ok.mp counted).2.1

theorem valueAt_zeros {n : Nat} (below : n < shape.volume) (type : ElementType) :
    (zeros shape type).valueAt n = 0.0 := by
  unfold valueAt zeros
  rw [Array.getD_eq_getD_getElem?, Array.getElem?_replicate, if_pos below, Option.getD_some]

theorem valueAt_ofFunction {index : PerAxis Nat} (valid : Valid shape index) (type : ElementType)
    (f : PerAxis Nat → Float) :
    (ofFunction shape type f).valueAt (placeOf shape index) = type.cast (f index) := by
  unfold valueAt ofFunction
  rw [Array.getD_eq_getD_getElem?, Array.getElem?_ofFn, dif_pos (placeOf_lt valid),
    Option.getD_some]
  dsimp only
  rw [pointAt_placeOf valid]

theorem ofList?_eq_ok {values : List Float} (made : ofList? shape type values = .ok start) :
    values.length = shape.volume ∧ start.shape = shape ∧ start.type = type ∧
      ∀ n < shape.volume, start.valueAt n = type.cast (values.getD n 0.0) := by
  unfold ofList? at made
  split at made
  next enough =>
    cases made
    refine ⟨enough, rfl, rfl, fun n below => ?_⟩
    have inside : n < values.length := enough ▸ below
    unfold valueAt
    rw [Array.getD_eq_getD_getElem?, List.getElem?_toArray, List.getElem?_map,
      List.getD_eq_getElem?_getD, List.getElem?_eq_getElem inside]
    rfl
  next => cases made

/-- **What a new buffer is made of.** -/
theorem make?_eq_ok (made : make? type making = .ok start) :
    making.Possible ∧ start.shape = making.shape ∧ start.type = type ∧
      ∀ index, Valid making.shape index →
        start.valueAt (placeOf making.shape index) = making.element type index := by
  unfold make? at made
  cases making with
  | zeros shape =>
    obtain ⟨_, room, same⟩ := Steps.bind_eq_ok.mp made
    cases same
    exact ⟨requireRoom_eq_ok.mp (Steps.mapError_eq_ok.mp room), rfl, rfl,
      fun index valid => valueAt_zeros (placeOf_lt valid) type⟩
  | function shape f =>
    obtain ⟨_, room, same⟩ := Steps.bind_eq_ok.mp made
    cases same
    exact ⟨requireRoom_eq_ok.mp (Steps.mapError_eq_ok.mp room), rfl, rfl,
      fun index valid => valueAt_ofFunction valid type f⟩
  | list shape values =>
    obtain ⟨n, counted, listed⟩ := Steps.bind_eq_ok.mp made
    obtain ⟨columns, word, -⟩ := count_eq_ok.mp (Steps.mapError_eq_ok.mp counted)
    obtain ⟨enough, sameShape, sameType, elements⟩ :=
      ofList?_eq_ok (Steps.mapError_eq_ok.mp listed)
    exact ⟨⟨columns, word, enough⟩, sameShape, sameType,
      fun index valid => elements _ (placeOf_lt valid)⟩
  | single value =>
    cases made
    exact ⟨trivial, rfl, rfl, fun index valid => valueAt_filled (placeOf_lt valid) type value⟩

/-- **Which buffers are made.** -/
theorem make?_isOk_iff : (∃ start, make? type making = .ok start) ↔ making.Possible := by
  refine ⟨fun ⟨start, made⟩ => (make?_eq_ok made).1, fun possible => ?_⟩
  unfold make?
  cases making with
  | zeros shape =>
    exact ⟨_, Steps.bind_eq_ok.mpr
      ⟨(), Steps.mapError_eq_ok.mpr (requireRoom_eq_ok.mpr possible), rfl⟩⟩
  | function shape f =>
    exact ⟨_, Steps.bind_eq_ok.mpr
      ⟨(), Steps.mapError_eq_ok.mpr (requireRoom_eq_ok.mpr possible), rfl⟩⟩
  | list shape values =>
    obtain ⟨columns, word, enough⟩ := possible
    have counted := count_eq_ok.mpr ⟨columns, word, rfl⟩
    obtain ⟨start, listed⟩ : ∃ start, ofList? shape type values = .ok start := by
      unfold ofList?
      rw [dif_pos enough]
      exact ⟨_, rfl⟩
    exact ⟨start, Steps.bind_eq_ok.mpr
      ⟨_, Steps.mapError_eq_ok.mpr counted, Steps.mapError_eq_ok.mpr listed⟩⟩
  | single value => exact ⟨_, rfl⟩

theorem Making.Possible.word (possible : making.Possible) :
    making.shape.volume < Number.wordCount := by
  cases making with
  | zeros shape => exact volume_lt_of_room (requireRoom_eq_ok.mpr possible)
  | function shape f => exact volume_lt_of_room (requireRoom_eq_ok.mpr possible)
  | list shape values => exact possible.2.1
  | single value => exact show pointShape.volume < Number.wordCount by decide

end New

/-! ### Buffers as arrays -/

/-- A buffer with these elements at the points of its shape is an array of them. -/
theorem represents_of_valueAt {storage : Storage} {element : PerAxis Nat → Float}
    (elements : ∀ index, Valid storage.shape index →
      storage.valueAt (placeOf storage.shape index) = element index) :
    storage.Represents storage.shape storage.type element where
  hasShape := rfl
  hasType := rfl
  length := storage.size_data
  places := placeOf_bijOn
  column index n := (Nat.add_assoc _ _ _).symm
  place := place_eq storage
  place? _ _ := place?_eq_some_iff
  get? index := by
    rw [get?_eq]
    split
    next valid => rw [elements index valid]
    next => rfl
  get index := by
    rw [get_eq]
    split
    next valid => rw [elements index valid]
    next => rfl
  set := set_eq storage
  refused index value invalid := by rw [serve_set, if_neg invalid]

/-- In a buffer with fewer points than the range with a sign has numbers, the conversion of indices
to this range changes no place: it makes no other point one of the shape. -/
theorem place?_wrapped {storage : Storage}
    (fits : (storage.shape.volume : Int) < Number.int64Bound) {index : PerAxis Nat}
    (i : index.i < Number.wordCount) (j : index.j < Number.wordCount)
    (k : index.k < Number.wordCount) :
    storage.place? (.wrapped index) = storage.place? (offsetOf index) := by
  by_cases within : Inside storage.shape (.wrapped index)
  · obtain ⟨⟨nonnegI, -⟩, ⟨nonnegJ, -⟩, nonnegK, -⟩ := within
    dsimp only [Offset.wrapped] at nonnegI nonnegJ nonnegK
    unfold Offset.wrapped offsetOf
    rw [Number.wrapped_of_nonneg i nonnegI, Number.wrapped_of_nonneg j nonnegJ,
      Number.wrapped_of_nonneg k nonnegK]
  · suffices outside : ¬ Inside storage.shape (offsetOf index) by
      rw [place?_eq_none.mpr within, place?_eq_none.mpr outside]
    refine fun inside => within ?_
    obtain ⟨belowI, belowJ, belowK⟩ := inside_offsetOf.mp inside
    have small : index.Small := PerAxis.small_of_le (PerAxis.small_of_volume fits
      (Nat.zero_lt_of_lt belowI) (Nat.zero_lt_of_lt belowJ) (Nat.zero_lt_of_lt belowK))
      belowI.le belowJ.le belowK.le
    rw [Offset.wrapped_of_small small]
    exact inside

/-- **A buffer is an array of its points**, whatever it is made of and whatever is stored in it: the
element at a point is the value stored there last, cast to the element type, or else what the buffer
was made of. Its points can be counted in a word, and indices may be converted to the range with a
sign. It is made whenever it can be. -/
theorem foldl_represents (type : ElementType) (making : Making) (stores : List Store) :
    ((∃ start, make? type making = .ok start) ↔ making.Possible) ∧
      ∀ start, make? type making = .ok start →
        (stores.foldl serve start).Represents making.shape type
            (fun index => latest type index (making.element type index) stores) ∧
          making.shape.volume < Number.wordCount ∧
          ((making.shape.volume : Int) < Number.int64Bound → ∀ index : PerAxis Nat,
            index.i < Number.wordCount → index.j < Number.wordCount → index.k < Number.wordCount →
              (stores.foldl serve start).place? (.wrapped index) =
                (stores.foldl serve start).place? (offsetOf index)) := by
  refine ⟨make?_isOk_iff, fun start made => ?_⟩
  obtain ⟨possible, shape, rfl, elements⟩ := make?_eq_ok made
  have word := possible.word
  rw [← shape] at word elements ⊢
  have sameShape : (stores.foldl serve start).shape = start.shape := shape_foldl
  have sameType : (stores.foldl serve start).type = start.type := type_foldl
  refine ⟨?_, word, fun fits index => place?_wrapped (sameShape ▸ fits)⟩
  have last : ∀ index, Valid (stores.foldl serve start).shape index →
      (stores.foldl serve start).valueAt (placeOf (stores.foldl serve start).shape index) =
        latest start.type index (making.element start.type index) stores := by
    intro index valid
    rw [sameShape] at valid ⊢
    rw [valueAt_foldl valid, elements index valid]
  have represents := represents_of_valueAt last
  rwa [sameShape, sameType] at represents

/-- A store to a point, one that is refused, and one to another point. -/
theorem foldl_represents_zeros :
    ∃ start, make? .i32 (.zeros ⟨1, 2, 2⟩) = .ok start ∧
      let stores : List Store := [.set ⟨0, 1, 0⟩ 2.5, .set ⟨0, 2, 0⟩ 1.5, .set ⟨0, 0, 1⟩ 3.5]
      (stores.foldl serve start).get? ⟨0, 1, 0⟩ = some (ElementType.i32.cast 2.5) ∧
        (stores.foldl serve start).get? ⟨0, 1, 1⟩ = some 0.0 ∧
        (stores.foldl serve start).get? ⟨0, 2, 0⟩ = none := by
  obtain ⟨possible, made⟩ := foldl_represents .i32 (.zeros ⟨1, 2, 2⟩)
    [.set ⟨0, 1, 0⟩ 2.5, .set ⟨0, 2, 0⟩ 1.5, .set ⟨0, 0, 1⟩ 3.5]
  obtain ⟨start, isMade⟩ := possible.mpr ⟨by decide, by decide⟩
  obtain ⟨represents, -⟩ := made start isMade
  exact ⟨start, isMade, represents.get? ⟨0, 1, 0⟩, represents.get? ⟨0, 1, 1⟩,
    represents.get? ⟨0, 2, 0⟩⟩

end Storage

end GridStencil
