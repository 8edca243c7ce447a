import GridStencil.Proofs.Kernel.Outline
import GridStencil.Proofs.Stored

/-!
**Calls on a part of the domain.**

A part of a domain is a box of whole columns in it. A call on a part has buffers of the same
outlines, and the part starts in them where it lies in the domain. Whatever buffers hold the domain
and its padding hold the part with the same padding, so a call on a part is bound if the call on the
whole domain is (`Call.On.bind`), and the regions on which a statement is computed lie in each other
(`PerAxis.Part.grown`).
-/

namespace GridStencil

namespace PerAxis

/-- Sizes added axis by axis. -/
def add (a b : PerAxis Nat) : PerAxis Nat := ⟨a.i + b.i, a.j + b.j, a.k + b.k⟩

/-- A box of whole columns of a domain, which starts at `corner`. -/
structure Part (corner part whole : PerAxis Nat) : Prop where
  i : corner.i + part.i ≤ whole.i
  j : corner.j + part.j ≤ whole.j
  bottom : corner.k = 0
  planes : part.k = whole.k

/-- A domain is a part of itself. -/
theorem Part.refl (domain : PerAxis Nat) : Part (.all 0) domain domain :=
  ⟨Nat.le_of_eq (Nat.zero_add _), Nat.le_of_eq (Nat.zero_add _), rfl, rfl⟩

theorem volume_le {a b : PerAxis Nat} (i : a.i ≤ b.i) (j : a.j ≤ b.j) (k : a.k ≤ b.k) :
    a.volume ≤ b.volume := Nat.mul_le_mul (Nat.mul_le_mul i j) k

namespace Part

variable {corner part whole : PerAxis Nat}

theorem small (inside : Part corner part whole) (small : whole.Small) : part.Small := by
  obtain ⟨i, j, -, k⟩ := inside
  exact small_of_le small (by omega) (by omega) (by omega)

/-- A region of a part lies in that of the whole domain. -/
theorem grown (inside : Part corner part whole) (small : whole.Small) {extent : Extent}
    {planes : Stretch} {p : Offset} (point : p ∈ (Region.grown extent part planes).points) :
    p.add (Storage.offsetOf corner) ∈ (Region.grown extent whole planes).points := by
  rw [Region.mem_grown (inside.small small)] at point
  rw [Region.mem_grown small]
  obtain ⟨i, j, bottom, -⟩ := inside
  have same : (p.add (Storage.offsetOf corner)).k = p.k := by
    simp only [Offset.add, Storage.offsetOf, bottom]
    omega
  rw [same]
  refine ⟨?_, ?_, point.2.2⟩
  · simp only [Offset.add, Storage.offsetOf]
    omega
  · simp only [Offset.add, Storage.offsetOf]
    omega

end Part

end PerAxis

/-! ### Binding -/

/-- The parameter bound to the same buffer, with the domain starting further inside. -/
def BoundField.moved (bound : BoundField) (corner : PerAxis Nat) : BoundField :=
  { bound with origin := bound.origin.add corner }

namespace Call

/-- A call on a part of the domain of another one, with buffers of the same outlines. -/
structure On (corner : PerAxis Nat) (whole part : Call) : Prop where
  domain : PerAxis.Part corner part.domain whole.domain
  arguments : List.Forall₂ Argument.SameOutline whole.arguments part.arguments
  scalars : part.scalars = whole.scalars
  origins : ∀ field, part.origins.of field = (whole.origins.of field).add corner

/-- A buffer that holds a stretch and its padding holds every part of it with the same padding. -/
theorem checkAxis_part {name : String} {axis : Axis} {padding : Padding}
    {size origin domain corner part : Nat}
    (passed : checkAxis name axis padding size origin domain = .ok ())
    (inside : corner + part ≤ domain) :
    checkAxis name axis padding size (origin + corner) part = .ok () := by
  unfold checkAxis at passed ⊢
  split at passed
  · cases passed
  · split at passed
    · cases passed
    · split at passed
      · cases passed
      · rw [if_neg (by omega), if_neg (by omega), if_neg (by omega)]

theorem checkHalo_part {field : InterfaceField} {shape origin domain corner part : PerAxis Nat}
    (passed : checkHalo field shape origin domain = .ok ())
    (inside : PerAxis.Part corner part domain) :
    checkHalo field shape (origin.add corner) part = .ok () := by
  obtain ⟨i, j, bottom, planes⟩ := inside
  unfold checkHalo at passed ⊢
  obtain ⟨_, passedI, passed⟩ := Steps.bind_eq_ok.mp passed
  obtain ⟨_, passedJ, passedK⟩ := Steps.bind_eq_ok.mp passed
  refine Steps.bind_eq_ok.mpr ⟨(), checkAxis_part passedI i, ?_⟩
  exact Steps.bind_eq_ok.mpr ⟨(), checkAxis_part passedJ j, checkAxis_part passedK (by omega)⟩

/-- Both calls are bound, to the same arguments and scalars. -/
structure BoundOn (interface : Interface) (corner : PerAxis Nat) (whole part : Call)
    (bound bound' : BoundCall) : Prop extends On corner whole part where
  passed : whole.bind interface = .ok bound
  onPart : part.bind interface = .ok bound'
  fields : List.Forall₂ (fun a b => (BoundField.moved a corner).SameOutline b) bound.fields
    bound'.fields
  values : bound'.scalars = bound.scalars

theorem BoundOn.numbers {interface : Interface} {corner : PerAxis Nat} {whole part : Call}
    {bound bound' : BoundCall} (on : BoundOn interface corner whole part bound bound') :
    bound'.fields.map BoundField.argument = bound.fields.map BoundField.argument := by
  have same : List.Forall₂ Eq (bound.fields.map BoundField.argument)
      (bound'.fields.map BoundField.argument) := by
    rw [List.forall₂_map_left_iff, List.forall₂_map_right_iff]
    exact on.fields.imp fun _ _ alike => alike.argument
  rw [List.forall₂_eq_eq_eq] at same
  exact same.symm

namespace On

variable {corner : PerAxis Nat} {whole part : Call} {interface : Interface}

theorem bindField (on : On corner whole part) {stencil : String} {field : InterfaceField}
    {slot slot' : Option (Nat × Argument)} (same : Option.Rel SameNumbered slot slot')
    {bound : BoundField} (passed : bindField stencil whole field slot = .ok bound) :
    ∃ bound', Call.bindField stencil part field slot' = .ok bound' ∧
      (bound.moved corner).SameOutline bound' := by
  cases same with
  | none => cases passed
  | @some pair pair' same =>
    obtain ⟨n, argument⟩ := pair
    obtain ⟨n', argument'⟩ := pair'
    obtain ⟨rfl, alike⟩ := same
    unfold Call.bindField at passed ⊢
    dsimp only at passed ⊢
    rw [alike.storage.type, alike.storage.shape, alike.writable] at passed
    rw [on.origins]
    split at passed
    · cases passed
    next sameType =>
      rw [if_neg sameType]
      split at passed
      · cases passed
      next permitted =>
        rw [if_neg permitted]
        split at passed
        · split at passed
          next point =>
            cases passed
            rw [if_pos point]
            exact ⟨_, rfl, rfl, alike.storage, rfl, rfl⟩
          · cases passed
        · obtain ⟨_, halo, same⟩ := Steps.bind_eq_ok.mp passed
          cases same
          exact ⟨_, Steps.bind_eq_ok.mpr ⟨(), checkHalo_part halo on.domain, rfl⟩, rfl,
            alike.storage, rfl, rfl⟩

/-- **A call on a part of the domain is bound** if the call on the whole domain is. -/
theorem bind (on : On corner whole part) {bound : BoundCall}
    (passed : whole.bind interface = .ok bound) :
    ∃ bound', BoundOn interface corner whole part bound bound' := by
  have enough := bind_planes passed
  obtain ⟨fields, scalars⟩ := bind_fields passed
  unfold bindFields at fields
  dsimp only at fields
  split at fields
  · cases fields
  next few =>
    obtain ⟨slots, placed, filled⟩ := Steps.bind_eq_ok.mp fields
    obtain ⟨slots', placed', same⟩ := (slots_matched interface on.arguments _).of_ok placed
    obtain ⟨fields', filled', alike⟩ : ∃ fields',
        ((interface.parameters.zip slots').mapM fun pair =>
          Call.bindField interface.name part pair.1 pair.2) = .ok fields' ∧
        List.Forall₂ (fun a b => (BoundField.moved a corner).SameOutline b) bound.fields fields' :=
      Steps.Carries.mapM (forall₂_zip same interface.parameters)
        (fun _ _ both _ done => on.bindField both.2 (both.1 ▸ done)) _ filled
    refine ⟨⟨fields', bound.scalars⟩, on, passed, ?_, alike, rfl⟩
    have boundFields : bindFields interface part = .ok fields' := by
      unfold bindFields
      dsimp only
      rw [← (positional_alike on.arguments).length_eq, if_neg few]
      exact Steps.bind_eq_ok.mpr ⟨slots', placed', filled'⟩
    have boundScalars : bindScalars interface part = .ok bound.scalars := by
      unfold bindScalars at scalars ⊢
      rw [on.scalars]
      exact scalars
    unfold Call.bind
    rw [if_neg (by rw [on.domain.planes]; omega)]
    exact Steps.bind_eq_ok.mpr ⟨_, boundFields, Steps.bind_eq_ok.mpr ⟨_, boundScalars, rfl⟩⟩

end On

end Call

/-! ### Frames -/

namespace Frame

variable {interface : Interface} {call : Call} {bound bound' : BoundCall}
  {corner part whole : PerAxis Nat}

/-- The buffers of a part are no larger than those of the whole domain. -/
theorem viewsOf_volume (inside : PerAxis.Part corner part whole) (fields : List InterfaceField)
    {given given' : List BoundField}
    (same : List.Forall₂ (fun a b => (BoundField.moved a corner).SameOutline b) given given') :
    List.Forall₂ (fun a b => b.storage.shape.volume ≤ a.storage.shape.volume)
      (viewsOf whole fields given) (viewsOf part fields given') := by
  induction fields generalizing given given' with
  | nil => exact .nil
  | cons field fields ih =>
    unfold viewsOf
    split
    · cases same with
      | nil => exact ih .nil
      | cons here more =>
        have shape := here.storage.shape
        exact .cons (Nat.le_of_eq (congrArg PerAxis.volume shape.symm)) (ih more)
    · refine .cons ?_ (ih same)
      obtain ⟨i, j, -, k⟩ := inside
      show PerAxis.volume (if _ then _ else _) ≤ PerAxis.volume (if _ then _ else _)
      split
      · exact Nat.le_refl _
      · unfold padded
        exact PerAxis.volume_le (by dsimp only; omega) (by dsimp only; omega) (by dsimp only; omega)

theorem FitsMemory.onPart (fits : (ofBound interface bound whole).FitsMemory)
    (inside : PerAxis.Part corner part whole)
    (same : List.Forall₂ (fun a b => (BoundField.moved a corner).SameOutline b) bound.fields
      bound'.fields) : (ofBound interface bound' part).FitsMemory := by
  intro view member
  obtain ⟨other, inWhole, smaller⟩ :=
    Steps.exists_left (viewsOf_volume inside interface.fields same) member
  have small := fits other inWhole
  omega

/-- The views of parameters, which come first, and of temporaries. -/
theorem viewsOf_append (domain : PerAxis Nat) {parameters temporaries : List InterfaceField}
    {given : List BoundField} (provided : ∀ field ∈ parameters, field.isParameter = true)
    (made : ∀ field ∈ temporaries, field.isParameter = false)
    (length : parameters.length = given.length) :
    viewsOf domain (parameters ++ temporaries) given =
      List.zipWith viewOfBound parameters given ++
        temporaries.map (viewOfTemporary · domain) := by
  induction parameters generalizing given with
  | nil =>
    obtain rfl : given = [] := List.length_eq_zero_iff.mp length.symm
    rw [List.nil_append, List.zipWith_nil_left, List.nil_append]
    clear provided length
    induction temporaries with
    | nil => rfl
    | cons field rest ih =>
      rw [List.forall_mem_cons] at made
      unfold viewsOf
      rw [made.1, if_neg Bool.false_ne_true, ih made.2, List.map_cons]
  | cons field rest ih =>
    rw [List.forall_mem_cons] at provided
    cases given with
    | nil => cases length
    | cons first given =>
      rw [List.cons_append, viewsOf, if_pos provided.1, ih provided.2 (Nat.succ.inj length),
        List.zipWith_cons_cons, List.cons_append]

/-- **The view of a parameter at the start of a run** is that of the buffer bound to it. -/
theorem view_ofBound (passed : call.bind interface = .ok bound)
    (split : interface.fields = interface.parameters ++
      interface.fields.filter (!·.isParameter)) {n : Nat} {field : InterfaceField}
    {given : BoundField} (isField : interface.parameters[n]? = some field)
    (isGiven : bound.fields[n]? = some given) (domain : PerAxis Nat) :
    (ofBound interface bound domain).view n = viewOfBound field given := by
  have views : (ofBound interface bound domain).views = _ := (congrArg
    (viewsOf domain · bound.fields) split).trans (viewsOf_append domain
      (fun field member => (List.mem_filter.mp member).2)
      (fun field member => by simpa using (List.mem_filter.mp member).2)
      (List.Forall₂.length_eq (Call.bind_boundTo passed)))
  unfold view
  rw [views, List.getD_eq_getElem?_getD, List.getElem?_append_left (by
    rw [List.length_zipWith]
    exact Nat.lt_min.mpr ⟨(List.getElem?_eq_some_iff.mp isField).1,
      (List.getElem?_eq_some_iff.mp isGiven).1⟩), List.getElem?_zipWith, isField, isGiven]
  rfl

end Frame

namespace View

/-- Where a field is needed at some point, the domain starts early in its buffer. -/
theorem Serves.small_start {call : Call} {field : InterfaceField} {view : View}
    (serves : view.Serves call field) (full : field.dimensions = .ijk)
    (fits : (view.storage.shape.volume : Int) < Number.int64Bound) {p : Offset}
    (padded : Padded field.halo call.domain p) : (field.start call.origins).Small := by
  obtain ⟨⟨belowI, aboveI⟩, ⟨belowJ, aboveJ⟩, ⟨belowK, aboveK⟩⟩ := serves.covers full
  obtain ⟨i, j, k⟩ := padded
  exact PerAxis.small_of_le (PerAxis.small_of_volume fits (by omega) (by omega) (by omega))
    (by omega) (by omega) (by omega)

/-- Where a buffer has a point, the domain starts early in it. -/
theorem Serves.small_start_of_inside {call : Call} {field : InterfaceField} {view : View}
    (serves : view.Serves call field) (full : field.dimensions = .ijk)
    (fits : (view.storage.shape.volume : Int) < Number.int64Bound) {index : Offset}
    (inside : Storage.Inside view.storage.shape index) : (field.start call.origins).Small := by
  obtain ⟨⟨belowI, aboveI⟩, ⟨belowJ, aboveJ⟩, ⟨belowK, aboveK⟩⟩ := serves.covers full
  obtain ⟨i, j, k⟩ := inside
  exact PerAxis.small_of_le (PerAxis.small_of_volume fits (by omega) (by omega) (by omega))
    (by omega) (by omega) (by omega)

end View

end GridStencil
