import GridStencil.Kernel
import GridStencil.Proofs.Kernel.Binding
import Mathlib.Data.List.Nodup

/-!
**Which calls are bound.**

Every buffer of a call is passed for one parameter, by its position or by a name (`Call.addressed`). A
call is admissible if this is one to one, every buffer suits its parameter, and every scalar has one
value of the right sort. Binding puts the buffers into slots one after the other; what a slot holds in
the end is what is addressed to it, as long as no slot is taken twice (`Call.foldlM_place`).

Sums are compared as numbers of any size. A sum that 64 bits cannot hold is larger than every buffer,
so nothing is lost when it is turned down.

* `Call.bind_exact`: a call is bound if and only if it is admissible, to what is addressed to the
  parameters, in whatever way it is.
-/

namespace GridStencil

/-- The number of a parameter among those that the caller provides. -/
def Interface.parameterSlot? (interface : Interface) (name : String) : Option Nat :=
  interface.parameters.findIdx? (·.name == name)

/-- What a run can tell of a bound buffer: not which argument it was. -/
def BoundField.seen (bound : BoundField) : Storage × Bool × PerAxis Nat :=
  (bound.storage, bound.writable, bound.origin)

namespace Call

/-! ### Admissible calls -/

/-- The buffers with their numbers, each behind the slot of the parameter that it is passed for by
its position or by a name; no slot if there is no such parameter. -/
def addressed (call : Call) (interface : Interface) : List (Option Nat × Nat × Argument) :=
  call.positional.zipIdx.map (fun given =>
    (if given.2 < interface.parameters.length then some given.2 else none, given.1)) ++
  call.keywords.map fun keyword => (interface.parameterSlot? keyword.1, keyword.2)

/-- A buffer suits a parameter of a call. -/
structure Suits (call : Call) (field : InterfaceField) (argument : Argument) : Prop where
  type : argument.storage.type = field.type
  writable : field.role = .output → argument.writable = true
  point : field.dimensions = .zero → argument.storage.shape = Storage.pointShape
  covers : field.dimensions = .ijk →
    Covers field.halo argument.storage.shape (call.origins.of field.name) call.domain

/-- Every parameter has one buffer, and this one suits it. -/
structure FieldsMatch (call : Call) (interface : Interface) : Prop where
  positions : call.positional.length ≤ interface.parameters.length
  names : ∀ keyword ∈ call.keywords, ∃ field ∈ interface.parameters, field.name = keyword.1
  once : ∀ slot < interface.parameters.length,
    ∃! given, (some slot, given) ∈ call.addressed interface
  suits : ∀ slot field given, interface.parameters[slot]? = some field →
    (some slot, given) ∈ call.addressed interface → call.Suits field given.2

/-- Every scalar has one value, and this one is of the right sort. -/
structure ScalarsMatch (call : Call) (interface : Interface) : Prop where
  names : ∀ given ∈ call.scalars, ∃ scalar ∈ interface.scalars, scalar.name = given.1
  once : (call.scalars.map Prod.fst).Nodup
  fits : ∀ scalar ∈ interface.scalars,
    ∃ value, (scalar.name, value) ∈ call.scalars ∧ fits scalar.type value = true

/-- A call that matches an interface. -/
structure Admissible (call : Call) (interface : Interface) : Prop where
  planes : interface.minPlanes ≤ call.domain.k
  fields : call.FieldsMatch interface
  scalars : call.ScalarsMatch interface

/-- The shape of a buffer is one that 64 bits can hold. -/
structure Sized (argument : Argument) : Prop where
  i : argument.storage.shape.i < Number.wordCount
  j : argument.storage.shape.j < Number.wordCount
  k : argument.storage.shape.k < Number.wordCount

variable {interface : Interface} {call : Call}

/-! ### One buffer -/

theorem checkAxis_eq_ok_iff {name : String} {axis : Axis} {padding : Padding}
    {size origin domain : Nat} (sized : size < Number.wordCount) :
    checkAxis name axis padding size origin domain = .ok () ↔
      CoversAxis padding size origin domain := by
  refine ⟨checkAxis_eq_ok, fun ⟨below, above⟩ => ?_⟩
  unfold checkAxis
  rw [if_neg (by omega), if_neg (by omega), if_neg (by omega)]

theorem checkHalo_eq_ok_iff {field : InterfaceField} {argument : Argument}
    {origin domain : PerAxis Nat} (sized : Sized argument) :
    checkHalo field argument.storage.shape origin domain = .ok () ↔
      Covers field.halo argument.storage.shape origin domain := by
  refine ⟨checkHalo_eq_ok, fun covers => ?_⟩
  unfold checkHalo
  rw [(checkAxis_eq_ok_iff sized.i).mpr covers.i, (checkAxis_eq_ok_iff sized.j).mpr covers.j]
  exact (checkAxis_eq_ok_iff sized.k).mpr covers.k

/-- The binding of a buffer to a parameter. -/
def bindingOf (call : Call) (field : InterfaceField) (given : Nat × Argument) : BoundField :=
  ⟨given.1, given.2.storage, given.2.writable, call.origins.of field.name⟩

/-- **A buffer is bound to a parameter** if and only if it suits it. -/
theorem bindField_eq_ok_iff {stencil : String} {field : InterfaceField}
    {slot : Option (Nat × Argument)} {bound : BoundField}
    (sized : ∀ given, slot = some given → Sized given.2) :
    bindField stencil call field slot = .ok bound ↔
      ∃ given, slot = some given ∧ call.Suits field given.2 ∧ call.bindingOf field given = bound := by
  cases slot with
  | none => exact ⟨nofun, nofun⟩
  | some given =>
    obtain ⟨n, argument⟩ := given
    unfold bindField
    simp only
    split
    next other =>
      refine iff_of_false nofun ?_
      rintro ⟨_, ⟨⟩, suits, -⟩
      exact other suits.type
    next same =>
      have type := not_not.mp same
      split
      next refused =>
        refine iff_of_false nofun ?_
        rintro ⟨_, ⟨⟩, suits, -⟩
        exact Bool.false_ne_true (refused.2.symm.trans (suits.writable refused.1))
      next permitted =>
        have writable : field.role = .output → argument.writable = true := fun output =>
          (Bool.not_eq_false _).mp fun absurd => permitted ⟨output, absurd⟩
        cases dimensions : field.dimensions with
        | zero =>
          simp only
          split
          next point =>
            constructor
            · rintro ⟨⟩
              exact ⟨_, rfl, ⟨type, writable, fun _ => point, by rw [dimensions]; nofun⟩, rfl⟩
            · rintro ⟨_, ⟨⟩, -, rfl⟩
              rfl
          next other =>
            refine iff_of_false nofun ?_
            rintro ⟨_, ⟨⟩, suits, -⟩
            exact other (suits.point dimensions)
        | ijk =>
          simp only [Steps.bind_eq_ok, checkHalo_eq_ok_iff (sized _ rfl)]
          constructor
          · rintro ⟨_, covers, ⟨⟩⟩
            exact ⟨_, rfl, ⟨type, writable, by rw [dimensions]; nofun, fun _ => covers⟩, rfl⟩
          · rintro ⟨_, ⟨⟩, suits, rfl⟩
            exact ⟨(), suits.covers dimensions, rfl⟩

/-! ### Slots -/

/-- A buffer is in a slot, or will be put into it by its name. -/
def Meant (interface : Interface) (slots : Slots) (keywords : List (String × Nat × Argument))
    (slot : Nat) (given : Nat × Argument) : Prop :=
  slots[slot]? = some (some given) ∨
    ∃ name, (name, given) ∈ keywords ∧ interface.parameterSlot? name = some slot

variable {slots after : Slots} {keyword : String × Nat × Argument}
  {keywords : List (String × Nat × Argument)}

theorem parameterSlot?_lt {name : String} {slot : Nat}
    (found : interface.parameterSlot? name = some slot) : slot < interface.parameters.length :=
  (List.findIdx?_eq_some_iff_findIdx_eq.mp found).1

theorem parameterSlot?_ne_none {name : String} : interface.parameterSlot? name ≠ none ↔
    ∃ field ∈ interface.parameters, field.name = name := by
  unfold Interface.parameterSlot?
  simp

/-- A buffer is put into the slot of its parameter if nothing is there. -/
theorem place_eq_ok (length : slots.length = interface.parameters.length) :
    place interface slots keyword = .ok after ↔
      ∃ slot, interface.parameterSlot? keyword.1 = some slot ∧ slots[slot]? = some none ∧
        slots.set slot (some keyword.2) = after := by
  unfold place Interface.parameterSlot?
  obtain ⟨name, given⟩ := keyword
  dsimp only
  cases found : interface.parameters.findIdx? (·.name == name) with
  | none => exact iff_of_false (by rintro ⟨⟩) (by rintro ⟨_, ⟨⟩, _⟩)
  | some slot =>
    have inside : slot < slots.length := length ▸ parameterSlot?_lt found
    simp only [List.getElem?_eq_getElem inside, Option.getD_some, Option.some.injEq,
      exists_eq_left']
    cases slots[slot] with
    | none =>
      exact ⟨fun done => ⟨rfl, Except.ok.inj done⟩, fun done => congrArg Except.ok done.2⟩
    | some other => exact iff_of_false (by rintro ⟨⟩) (by rintro ⟨⟨⟩, _⟩)

/-- Putting one buffer into its slot changes nothing about what is meant for which slot. -/
theorem meant_place (length : slots.length = interface.parameters.length)
    (placed : place interface slots keyword = .ok after) (slot : Nat) (given : Nat × Argument) :
    Meant interface after keywords slot given ↔
      Meant interface slots (keyword :: keywords) slot given := by
  obtain ⟨place, found, vacant, rfl⟩ := (place_eq_ok length).mp placed
  have inside : place < slots.length := length ▸ parameterSlot?_lt found
  unfold Meant
  by_cases same : slot = place
  · subst same
    rw [List.getElem?_set_self inside, vacant]
    constructor
    · rintro (⟨⟨⟩⟩ | ⟨name, member, there⟩)
      · exact .inr ⟨keyword.1, List.mem_cons_self, found⟩
      · exact .inr ⟨name, List.mem_cons_of_mem _ member, there⟩
    · rintro (⟨⟨⟩⟩ | ⟨name, member, there⟩)
      rcases List.mem_cons.mp member with rfl | later
      · exact .inl rfl
      · exact .inr ⟨name, later, there⟩
  · rw [List.getElem?_set_ne (Ne.symm same)]
    refine or_congr_right (exists_congr fun name => and_congr_left fun there => ?_)
    rw [List.mem_cons]
    refine (or_iff_right ?_).symm
    rintro rfl
    exact same (Option.some.inj (there.symm.trans found))

/-- **What slots hold in the end** is what was meant for them. -/
theorem foldlM_place (length : slots.length = interface.parameters.length)
    (placed : keywords.foldlM (place interface) slots = .ok after) :
    after.length = interface.parameters.length ∧
      (∀ keyword ∈ keywords, interface.parameterSlot? keyword.1 ≠ none) ∧
      ∀ slot given, after[slot]? = some (some given) ↔
        Meant interface slots keywords slot given := by
  induction keywords generalizing slots with
  | nil =>
    cases placed
    exact ⟨length, fun _ absurd => (nomatch absurd), fun slot given =>
      (or_iff_left fun ⟨_, absurd, _⟩ => nomatch absurd).symm⟩
  | cons keyword rest ih =>
    rw [List.foldlM_cons] at placed
    obtain ⟨next, here, more⟩ := Steps.bind_eq_ok.mp placed
    obtain ⟨slot, found, -, same⟩ := (place_eq_ok length).mp here
    obtain ⟨length', named, holds⟩ := ih (by rw [← same, List.length_set, length]) more
    refine ⟨length', List.forall_mem_cons.mpr ⟨by rw [found]; nofun, named⟩, fun slot given => ?_⟩
    rw [holds, meant_place length here]

/-- All buffers find their slots if no two are meant for one. -/
theorem foldlM_place_isOk (length : slots.length = interface.parameters.length)
    (filled : Filled call interface.parameters.length slots keywords)
    (named : ∀ keyword ∈ keywords, interface.parameterSlot? keyword.1 ≠ none)
    (unique : ∀ slot given given', Meant interface slots keywords slot given →
      Meant interface slots keywords slot given' → given = given') :
    ∃ after, keywords.foldlM (place interface) slots = .ok after := by
  induction keywords generalizing slots with
  | nil => exact ⟨slots, rfl⟩
  | cons keyword rest ih =>
    obtain ⟨here, others⟩ := List.forall_mem_cons.mp named
    obtain ⟨slot, found⟩ := Option.ne_none_iff_exists'.mp here
    have inside : slot < slots.length := length ▸ parameterSlot?_lt found
    have vacant : slots[slot]? = some none := by
      cases held : slots[slot] with
      | none => rw [List.getElem?_eq_getElem inside, held]
      | some given =>
        have there : slots[slot]? = some (some given) := by
          rw [List.getElem?_eq_getElem inside, held]
        -- a buffer is not both in a slot and still to come
        have same := unique slot given keyword.2 (.inl there)
          (.inr ⟨keyword.1, List.mem_cons_self, found⟩)
        have taken : given.1 ∈ numbers slots :=
          List.mem_filterMap.mpr ⟨_, List.mem_of_getElem? there, rfl⟩
        have coming : given.1 ∈ (keyword :: rest).map (·.2.1) :=
          List.mem_map.mpr ⟨keyword, List.mem_cons_self, by rw [same]⟩
        exact absurd rfl ((List.nodup_append.mp filled.distinct).2.2 _ taken _ coming)
    have placed := (place_eq_ok length).mpr ⟨slot, found, vacant, rfl⟩
    obtain ⟨after, done⟩ := ih (by rw [List.length_set, length]) (filled_place filled placed)
      others fun slot given given' first second => unique slot given given'
        ((meant_place length placed slot given).mp first)
        ((meant_place length placed slot given').mp second)
    exact ⟨after, by rw [List.foldlM_cons]; exact Steps.bind_eq_ok.mpr ⟨_, placed, done⟩⟩

/-! ### All buffers -/

/-- **What is addressed to a slot.** -/
theorem mem_addressed {slot : Nat} {given : Nat × Argument} :
    (some slot, given) ∈ call.addressed interface ↔
      (call.positional[slot]? = some given ∧ slot < interface.parameters.length) ∨
        ∃ name, (name, given) ∈ call.keywords ∧ interface.parameterSlot? name = some slot := by
  unfold addressed
  rw [List.mem_append, List.mem_map, List.mem_map]
  refine or_congr ?_ ?_
  · constructor
    · rintro ⟨⟨other, place⟩, member, same⟩
      simp only [Prod.mk.injEq] at same
      obtain ⟨target, rfl⟩ := same
      split at target
      next inside =>
        cases target
        exact ⟨List.mk_mem_zipIdx_iff_getElem?.mp member, inside⟩
      · cases target
    · rintro ⟨there, inside⟩
      exact ⟨(given, slot), List.mk_mem_zipIdx_iff_getElem?.mpr there, by rw [if_pos inside]⟩
  · constructor
    · rintro ⟨⟨name, other⟩, member, same⟩
      obtain ⟨target, rfl⟩ := Prod.mk.inj same
      exact ⟨name, member, target⟩
    · rintro ⟨name, member, target⟩
      exact ⟨(name, given), member, by rw [target]⟩

theorem lt_of_mem_addressed {slot : Nat} {given : Nat × Argument}
    (member : (some slot, given) ∈ call.addressed interface) :
    slot < interface.parameters.length := by
  rcases mem_addressed.mp member with ⟨-, inside⟩ | ⟨_, -, found⟩
  · exact inside
  · exact parameterSlot?_lt found

/-- What is meant for a slot before any name is looked up is what is addressed to it. -/
theorem meant_firstSlots (enough : call.positional.length ≤ interface.parameters.length)
    (slot : Nat) (given : Nat × Argument) :
    Meant interface (firstSlots interface.parameters.length call.positional) call.keywords slot
        given ↔ (some slot, given) ∈ call.addressed interface := by
  rw [mem_addressed]
  refine or_congr_left ?_
  unfold firstSlots
  rw [List.take_of_length_le (by rw [List.length_map]; exact enough)]
  by_cases early : slot < call.positional.length
  · rw [List.getElem?_append_left (by rw [List.length_map]; exact early), List.getElem?_map,
      List.getElem?_eq_getElem early, Option.map_some, Option.some.injEq, Option.some.injEq]
    exact (and_iff_left (Nat.lt_of_lt_of_le early enough)).symm
  · rw [List.getElem?_append_right (by rw [List.length_map]; omega), List.getElem?_replicate,
      List.getElem?_eq_none (Nat.not_lt.mp early)]
    refine iff_of_false ?_ nofun
    split <;> nofun

/-- Buffers are bound to parameters one by one. -/
theorem mapM_bindField (length : slots.length = interface.parameters.length)
    {fields : List BoundField} :
    ((interface.parameters.zip slots).mapM fun (field, slot) =>
        bindField interface.name call field slot) = .ok fields ↔
      fields.length = interface.parameters.length ∧
        ∀ (slot : Nat) field held, interface.parameters[slot]? = some field →
          slots[slot]? = some held → ∃ bound, fields[slot]? = some bound ∧
            bindField interface.name call field held = .ok bound := by
  have zipped : (interface.parameters.zip slots).length = interface.parameters.length := by
    rw [List.length_zip, length, Nat.min_self]
  rw [Steps.mapM_eq_ok, List.forall₂_iff_get]
  constructor
  · rintro ⟨count, all⟩
    refine ⟨count.symm.trans zipped, fun slot field held isField isHeld => ?_⟩
    obtain ⟨inside, rfl⟩ := List.getElem?_eq_some_iff.mp isField
    obtain ⟨inside', rfl⟩ := List.getElem?_eq_some_iff.mp isHeld
    have here := all slot (zipped ▸ inside) (count ▸ zipped ▸ inside)
    rw [List.get_eq_getElem, List.getElem_zip] at here
    exact ⟨_, List.getElem?_eq_getElem _, here⟩
  · rintro ⟨count, all⟩
    refine ⟨zipped.trans count.symm, fun slot inside inside' => ?_⟩
    rw [zipped] at inside
    rw [List.get_eq_getElem, List.getElem_zip]
    obtain ⟨bound, there, done⟩ := all slot _ _ (List.getElem?_eq_getElem inside)
      (List.getElem?_eq_getElem (length ▸ inside))
    obtain ⟨_, rfl⟩ := List.getElem?_eq_some_iff.mp there
    exact done

/-- **All buffers are bound** if and only if they match the parameters, each to what is addressed to
it. -/
theorem bindFields_eq_ok_iff (sized : ∀ given ∈ call.addressed interface, Sized given.2.2)
    {fields : List BoundField} :
    bindFields interface call = .ok fields ↔ call.FieldsMatch interface ∧
      fields.length = interface.parameters.length ∧
      ∀ slot field given, interface.parameters[slot]? = some field →
        (some slot, given) ∈ call.addressed interface →
        fields[slot]? = some (call.bindingOf field given) := by
  unfold bindFields
  simp only
  split
  next many =>
    refine iff_of_false nofun fun both => ?_
    have enough := both.1.positions
    omega
  next few =>
    have enough : call.positional.length ≤ interface.parameters.length := by omega
    have filled := filled_firstSlots call enough
    show (call.keywords.foldlM (place interface) _ >>= _) = _ ↔ _
    rw [Steps.bind_eq_ok]
    constructor
    · rintro ⟨slots, placed, bound⟩
      obtain ⟨length, named, holds⟩ := foldlM_place filled.length placed
      obtain ⟨count, bound⟩ := (mapM_bindField length).mp bound
      simp only [meant_firstSlots enough] at holds
      have known : ∀ slot field given, interface.parameters[slot]? = some field →
          (some slot, given) ∈ call.addressed interface → call.Suits field given.2 ∧
            fields[slot]? = some (call.bindingOf field given) := by
        intro slot field given isField member
        have isHeld := (holds slot given).mpr member
        obtain ⟨binding, there, done⟩ := bound slot field _ isField isHeld
        obtain ⟨_, ⟨⟩, suits, rfl⟩ := (bindField_eq_ok_iff fun given' held =>
          sized _ ((holds slot given').mp (held ▸ isHeld))).mp done
        exact ⟨suits, there⟩
      refine ⟨⟨enough, fun keyword member => parameterSlot?_ne_none.mp (named keyword member), ?_,
        fun slot field given isField member => (known slot field given isField member).1⟩, count,
        fun slot field given isField member => (known slot field given isField member).2⟩
      intro slot inside
      obtain ⟨_, -, done⟩ := bound slot _ _ (List.getElem?_eq_getElem inside)
        (List.getElem?_eq_getElem (length ▸ inside))
      cases held : slots[slot] with
      | none =>
        rw [held] at done
        cases done
      | some given =>
        have isHeld : slots[slot]? = some (some given) := by
          rw [List.getElem?_eq_getElem (length ▸ inside), held]
        refine ⟨given, (holds slot given).mp isHeld, fun other member => ?_⟩
        have same := isHeld.symm.trans ((holds slot other).mpr member)
        exact (Option.some.inj (Option.some.inj same)).symm
    · rintro ⟨fits, count, bound⟩
      obtain ⟨slots, placed⟩ := foldlM_place_isOk filled.length filled
        (fun keyword member => parameterSlot?_ne_none.mpr (fits.names keyword member))
        fun slot given given' first second => by
          rw [meant_firstSlots enough] at first second
          exact (fits.once slot (lt_of_mem_addressed first)).unique first second
      obtain ⟨length, -, holds⟩ := foldlM_place filled.length placed
      simp only [meant_firstSlots enough] at holds
      refine ⟨slots, placed, (mapM_bindField length).mpr ⟨count, ?_⟩⟩
      intro slot field held isField isHeld
      obtain ⟨given, member, -⟩ := fits.once slot (List.getElem?_eq_some_iff.mp isField).1
      have same := isHeld.symm.trans ((holds slot given).mpr member)
      cases same
      refine ⟨_, bound slot field given isField member, (bindField_eq_ok_iff ?_).mpr
        ⟨given, rfl, fits.suits slot field given isField member, rfl⟩⟩
      rintro _ ⟨⟩
      exact sized _ member

/-! ### Scalars -/

/-- Every value is meant for a scalar, and no two for the same. -/
theorem checkScalars_eq_ok_iff {seen : List String} {given : List (String × Literal)} :
    checkScalars interface seen given = .ok () ↔
      (∀ pair ∈ given, (∃ scalar ∈ interface.scalars, scalar.name = pair.1) ∧ pair.1 ∉ seen) ∧
        (given.map Prod.fst).Nodup := by
  induction given generalizing seen with
  | nil => exact iff_of_true rfl ⟨fun _ absurd => (nomatch absurd), List.nodup_nil⟩
  | cons pair rest ih =>
    obtain ⟨name, value⟩ := pair
    have known : (interface.scalarSlot? name).isNone = true ↔
        ¬ ∃ scalar ∈ interface.scalars, scalar.name = name := by
      unfold Interface.scalarSlot?
      simp
    unfold checkScalars
    rw [List.forall_mem_cons, List.map_cons, List.nodup_cons]
    split
    next unknown => exact iff_of_false nofun fun both => known.mp unknown both.1.1.1
    next isScalar =>
      have isKnown := not_not.mp (mt known.mpr isScalar)
      split
      next again => exact iff_of_false nofun fun both => both.1.1.2 again
      next first =>
        rw [ih]
        constructor
        · rintro ⟨others, once⟩
          refine ⟨⟨⟨isKnown, first⟩, fun pair member => ⟨(others pair member).1, fun earlier =>
            (others pair member).2 (List.mem_cons_of_mem _ earlier)⟩⟩, fun again => ?_, once⟩
          obtain ⟨pair, member, same⟩ := List.mem_map.mp again
          exact (others pair member).2 (same ▸ List.mem_cons_self)
        · rintro ⟨⟨-, others⟩, notAgain, once⟩
          refine ⟨fun pair member => ⟨(others pair member).1, fun seenBefore => ?_⟩, once⟩
          rcases List.mem_cons.mp seenBefore with same | earlier
          · exact notAgain (List.mem_map.mpr ⟨pair, member, same⟩)
          · exact (others pair member).2 earlier

/-- A name that is given once has the value that stands beside it. -/
theorem lookup_eq_some_iff {given : List (String × Literal)} {name : String} {value : Literal}
    (once : (given.map Prod.fst).Nodup) :
    given.lookup name = some value ↔ (name, value) ∈ given := by
  induction given with
  | nil => exact iff_of_false nofun nofun
  | cons pair rest ih =>
    obtain ⟨other, known⟩ := pair
    obtain ⟨notAgain, once⟩ := List.nodup_cons.mp once
    rw [List.lookup_cons, List.mem_cons, Prod.mk.injEq]
    by_cases same : name = other
    · subst same
      rw [beq_self_eq_true]
      refine ⟨fun found => .inl ⟨rfl, (Option.some.inj found).symm⟩, ?_⟩
      rintro (⟨-, rfl⟩ | later)
      · rfl
      · exact absurd (List.mem_map_of_mem later) notAgain
    · rw [beq_eq_false_iff_ne.mpr same]
      exact (ih once).trans (or_iff_right fun both => same both.1).symm

/-- **All scalars have values** if and only if these match. -/
theorem bindScalars_isOk_iff :
    (∃ values, bindScalars interface call = .ok values) ↔ call.ScalarsMatch interface := by
  have one : ∀ scalar : Program.Scalar,
      (∃ value, bindScalar interface call.scalars scalar = .ok value) ↔
        ∃ value, call.scalars.lookup scalar.name = some value ∧
          fits scalar.type value = true := by
    intro scalar
    unfold bindScalar
    cases call.scalars.lookup scalar.name with
    | none => exact iff_of_false nofun nofun
    | some value =>
      simp only [Option.some.injEq, exists_eq_left']
      split
      next sort => exact iff_of_true ⟨_, rfl⟩ sort
      next other => exact iff_of_false nofun other
  unfold bindScalars
  simp only [Steps.bind_eq_ok]
  constructor
  · rintro ⟨values, _, checked, bound⟩
    obtain ⟨names, once⟩ := checkScalars_eq_ok_iff.mp checked
    refine ⟨fun given member => (names given member).1, once, fun scalar member => ?_⟩
    obtain ⟨value, found, sort⟩ := (one scalar).mp (Steps.mapM_isOk.mp ⟨values, bound⟩ scalar member)
    exact ⟨value, (lookup_eq_some_iff once).mp found, sort⟩
  · rintro ⟨names, once, sorts⟩
    obtain ⟨values, bound⟩ := Steps.mapM_isOk.mpr fun scalar member => (one scalar).mpr <| by
      obtain ⟨value, given, sort⟩ := sorts scalar member
      exact ⟨value, (lookup_eq_some_iff once).mpr given, sort⟩
    exact ⟨values, (), checkScalars_eq_ok_iff.mpr
      ⟨fun given member => ⟨names given member, List.not_mem_nil⟩, once⟩, bound⟩

/-! ### Failures -/

/-- A computation fails only with a mismatch. -/
def Mismatches {α : Type} (result : Except Cause α) : Prop :=
  ∀ cause, result = .error cause → cause.kind = .domainMismatch

namespace Mismatches

variable {α β : Type}

theorem ok (a : α) : Mismatches (.ok a) := nofun

theorem error {cause : Cause} (kind : cause.kind = .domainMismatch) :
    Mismatches (.error cause : Except Cause α) := by
  rintro _ ⟨⟩
  exact kind

theorem bind {first : Except Cause α} {second : α → Except Cause β} (here : Mismatches first)
    (behind : ∀ a, Mismatches (second a)) : Mismatches (first >>= second) := by
  intro cause failed
  rcases Steps.bind_eq_error.mp failed with failed | ⟨a, -, failed⟩
  · exact here cause failed
  · exact behind a cause failed

theorem mapM {f : α → Except Cause β} (each : ∀ a, Mismatches (f a)) (xs : List α) :
    Mismatches (xs.mapM f) := by
  intro cause failed
  obtain ⟨x, -, failed⟩ := Steps.mapM_eq_error failed
  exact each x cause failed

theorem foldlM {f : β → α → Except Cause β} (each : ∀ b a, Mismatches (f b a)) (xs : List α)
    (b : β) : Mismatches (xs.foldlM f b) := by
  induction xs generalizing b with
  | nil => exact ok b
  | cons x rest ih =>
    rw [List.foldlM_cons]
    exact (each b x).bind ih

end Mismatches

theorem place_mismatches (interface : Interface) (slots : Slots)
    (keyword : String × Nat × Argument) : Mismatches (place interface slots keyword) := by
  unfold place
  simp only
  split
  · exact .error rfl
  · split
    · exact .error rfl
    · exact .ok _

theorem checkAxis_mismatches (name : String) (axis : Axis) (padding : Padding)
    (size origin domain : Nat) : Mismatches (checkAxis name axis padding size origin domain) := by
  unfold checkAxis
  split
  · exact .error rfl
  · split
    · exact .error rfl
    · split
      · exact .error rfl
      · exact .ok _

theorem bindField_mismatches (stencil : String) (call : Call) (field : InterfaceField)
    (slot : Option (Nat × Argument)) : Mismatches (bindField stencil call field slot) := by
  unfold bindField
  split
  · exact .error rfl
  · simp only
    split
    · exact .error rfl
    · split
      · exact .error rfl
      · split
        · split
          · exact .ok _
          · exact .error rfl
        · refine .bind ?_ fun _ => .ok _
          unfold checkHalo
          exact .bind (checkAxis_mismatches _ _ _ _ _ _) fun _ =>
            .bind (checkAxis_mismatches _ _ _ _ _ _) fun _ => checkAxis_mismatches _ _ _ _ _ _

theorem bindFields_mismatches (interface : Interface) (call : Call) :
    Mismatches (bindFields interface call) := by
  unfold bindFields
  simp only
  split
  · exact .error rfl
  · exact .bind (.foldlM (place_mismatches interface) _ _) fun slots =>
      .mapM (fun pair : InterfaceField × Option (Nat × Argument) =>
        bindField_mismatches interface.name call pair.1 pair.2) _

theorem checkScalars_mismatches (interface : Interface) (seen : List String)
    (given : List (String × Literal)) : Mismatches (checkScalars interface seen given) := by
  induction given generalizing seen with
  | nil => exact .ok ()
  | cons pair rest ih =>
    unfold checkScalars
    split
    · exact .error rfl
    · split
      · exact .error rfl
      · exact ih _

theorem bindScalars_mismatches (interface : Interface) (call : Call) :
    Mismatches (bindScalars interface call) := by
  refine .bind (checkScalars_mismatches interface [] call.scalars) fun _ => .mapM (fun scalar => ?_) _
  unfold bindScalar
  split
  · exact .error rfl
  · split
    · exact .ok _
    · exact .error rfl

/-- **A call that is not bound does not match.** -/
theorem bind_mismatches (call : Call) (interface : Interface) : Mismatches (call.bind interface) := by
  unfold bind
  split
  · exact .error rfl
  · exact (bindFields_mismatches interface call).bind fun _ =>
      (bindScalars_mismatches interface call).bind fun _ => .ok _

/-! ### All of a call -/

/-- A call is bound if and only if there are enough planes, and its fields and scalars are. -/
theorem bind_eq_ok_iff {bound : BoundCall} : call.bind interface = .ok bound ↔
    interface.minPlanes ≤ call.domain.k ∧ bindFields interface call = .ok bound.fields ∧
      bindScalars interface call = .ok bound.scalars := by
  refine ⟨fun passed => ⟨bind_planes passed, bind_fields passed⟩, fun ⟨enough, fields, scalars⟩ => ?_⟩
  unfold bind
  rw [if_neg (Nat.not_lt.mpr enough), fields]
  show (bindScalars interface call >>= _) = _
  rw [scalars]
  rfl

/-- The bindings of buffers that match the parameters. -/
theorem exists_bindings (fits : call.FieldsMatch interface) : ∃ fields : List BoundField,
    fields.length = interface.parameters.length ∧
      ∀ slot field given, interface.parameters[slot]? = some field →
        (some slot, given) ∈ call.addressed interface →
        fields[slot]? = some (call.bindingOf field given) := by
  choose given addressed unique using fits.once
  refine ⟨List.ofFn fun slot : Fin interface.parameters.length =>
    call.bindingOf interface.parameters[slot] (given slot slot.2), List.length_ofFn, ?_⟩
  intro slot field other isField member
  obtain ⟨inside, rfl⟩ := List.getElem?_eq_some_iff.mp isField
  rw [List.getElem?_ofFn, dif_pos inside]
  have same : other = given slot inside := unique slot inside other member
  rw [same]
  rfl

/-- A call is bound if and only if it is admissible. -/
theorem bind_isOk_iff (sized : ∀ given ∈ call.addressed interface, Sized given.2.2) :
    (∃ bound, call.bind interface = .ok bound) ↔ call.Admissible interface := by
  constructor
  · rintro ⟨bound, passed⟩
    obtain ⟨planes, fields, scalars⟩ := bind_eq_ok_iff.mp passed
    exact ⟨planes, ((bindFields_eq_ok_iff sized).mp fields).1,
      bindScalars_isOk_iff.mp ⟨_, scalars⟩⟩
  · rintro ⟨planes, fields, scalars⟩
    obtain ⟨values, boundScalars⟩ := bindScalars_isOk_iff.mpr scalars
    obtain ⟨bound, count, bindings⟩ := exists_bindings fields
    have boundFields := (bindFields_eq_ok_iff sized).mpr ⟨fields, count, bindings⟩
    exact ⟨⟨bound, values⟩, bind_eq_ok_iff.mpr ⟨planes, boundFields, boundScalars⟩⟩

/-- The slots behind which the buffers of a call stand. -/
def slotsOf (call : Call) (interface : Interface) : List (Option Nat) :=
  (call.addressed interface).map Prod.fst

/-- No argument is addressed twice. -/
theorem nodup_addressed (call : Call) (interface : Interface) :
    ((call.addressed interface).map (·.2.1)).Nodup := by
  have numbers : (call.addressed interface).map (·.2.1) =
      call.positional.map Prod.fst ++ call.keywords.map (·.2.1) := by
    unfold addressed
    rw [List.map_append, List.map_map, List.map_map]
    refine congrArg₂ _ ?_ rfl
    calc call.positional.zipIdx.map (fun given => given.1.1)
        = (call.positional.zipIdx.map Prod.fst).map Prod.fst := List.map_map.symm
      _ = call.positional.map Prod.fst := by rw [List.zipIdx_map_fst]
  rw [numbers]
  exact nodup_given call

/-- **Buffers match the parameters** if and only if each of them has a slot, each slot has one of
them, and this one suits. -/
theorem fieldsMatch_iff : call.FieldsMatch interface ↔
    (call.slotsOf interface).Nodup ∧ (∀ slot ∈ call.slotsOf interface, slot ≠ none) ∧
      (∀ slot < interface.parameters.length, some slot ∈ call.slotsOf interface) ∧
      ∀ slot field given, interface.parameters[slot]? = some field →
        (some slot, given) ∈ call.addressed interface → call.Suits field given.2 := by
  constructor
  · rintro ⟨positions, names, once, suits⟩
    have hasSlot : ∀ given ∈ call.addressed interface, given.1 ≠ none := by
      intro given member
      unfold addressed at member
      rcases List.mem_append.mp member with byPosition | byName
      · obtain ⟨⟨other, place⟩, there, rfl⟩ := List.mem_map.mp byPosition
        have inside := (List.getElem?_eq_some_iff.mp
          (List.mk_mem_zipIdx_iff_getElem?.mp there)).1
        rw [if_pos (Nat.lt_of_lt_of_le inside positions)]
        nofun
      · obtain ⟨keyword, there, rfl⟩ := List.mem_map.mp byName
        exact parameterSlot?_ne_none.mpr (names keyword there)
    refine ⟨?_, ?_, fun slot inside => ?_, suits⟩
    · refine (List.Nodup.of_map _ (nodup_addressed call interface)).map_on ?_
      rintro ⟨slot, given⟩ member ⟨slot', given'⟩ member' rfl
      obtain ⟨slot, rfl⟩ := Option.ne_none_iff_exists'.mp (hasSlot _ member)
      rw [(once slot (lt_of_mem_addressed member)).unique member member']
    · intro slot listed
      obtain ⟨given, member, rfl⟩ := List.mem_map.mp listed
      exact hasSlot given member
    · obtain ⟨given, member, -⟩ := once slot inside
      exact List.mem_map_of_mem member
  · rintro ⟨distinct, hasSlot, covered, suits⟩
    have hasSlot' : ∀ given ∈ call.addressed interface, given.1 ≠ none :=
      fun given member => hasSlot given.1 (List.mem_map_of_mem member)
    refine ⟨?_, fun keyword member => ?_, fun slot inside => ?_, suits⟩
    · by_contra many
      have inside : interface.parameters.length < call.positional.length := by omega
      have member : (none, call.positional[interface.parameters.length]) ∈
          call.addressed interface := by
        refine List.mem_append_left _ (List.mem_map.mpr ⟨(_, interface.parameters.length),
          List.mk_mem_zipIdx_iff_getElem?.mpr (List.getElem?_eq_getElem inside), ?_⟩)
        rw [if_neg (Nat.lt_irrefl _)]
      exact hasSlot' _ member rfl
    · exact parameterSlot?_ne_none.mp
        (hasSlot' _ (List.mem_append_right _ (List.mem_map_of_mem member)))
    · obtain ⟨⟨_, given⟩, member, rfl⟩ := List.mem_map.mp (covered slot inside)
      refine ⟨given, member, fun other member' => ?_⟩
      have same := List.inj_on_of_nodup_map distinct member' member rfl
      exact (Prod.mk.inj same).2

theorem mem_arguments_of_addressed {given : Option Nat × Nat × Argument}
    (member : given ∈ call.addressed interface) : given.2.2 ∈ call.arguments := by
  rcases List.mem_append.mp member with byPosition | byName
  · obtain ⟨⟨other, place⟩, there, rfl⟩ := List.mem_map.mp byPosition
    exact List.mem_of_getElem? (mem_positional (List.mem_of_getElem?
      (List.mk_mem_zipIdx_iff_getElem?.mp there))).1
  · obtain ⟨keyword, there, rfl⟩ := List.mem_map.mp byName
    exact List.mem_of_getElem? (mem_keywords there).1

/-! ### Other ways to pass the same buffers -/

/-- What a run can tell of a buffer and of the slot it is passed for. -/
def seen (given : Option Nat × Nat × Argument) : Option Nat × Storage × Bool :=
  (given.1, given.2.2.storage, given.2.2.writable)

/-- Two calls pass the same buffers for the same parameters: in another order, by name instead of by
position, or the other way round. -/
structure Rearranged (interface : Interface) (call call' : Call) : Prop where
  buffers : ((call.addressed interface).map seen).Perm ((call'.addressed interface).map seen)
  scalars : call'.scalars = call.scalars
  origins : call'.origins = call.origins
  domain : call'.domain = call.domain

namespace Rearranged

variable {call' : Call}

theorem symm (rearranged : Rearranged interface call call') : Rearranged interface call' call :=
  ⟨rearranged.buffers.symm, rearranged.scalars.symm, rearranged.origins.symm,
    rearranged.domain.symm⟩

/-- A buffer is passed for its slot by both calls. -/
theorem partner (rearranged : Rearranged interface call call') {slot : Option Nat}
    {given : Nat × Argument} (member : (slot, given) ∈ call.addressed interface) :
    ∃ given', (slot, given') ∈ call'.addressed interface ∧
      given'.2.storage = given.2.storage ∧ given'.2.writable = given.2.writable := by
  have there := rearranged.buffers.mem_iff.mp (List.mem_map_of_mem (f := seen) member)
  obtain ⟨⟨slot', given'⟩, member', same⟩ := List.mem_map.mp there
  simp only [seen, Prod.mk.injEq] at same
  obtain ⟨rfl, storage, writable⟩ := same
  exact ⟨given', member', storage, writable⟩

theorem suits (rearranged : Rearranged interface call call') {field : InterfaceField}
    {argument argument' : Argument} (storage : argument'.storage = argument.storage)
    (writable : argument'.writable = argument.writable) (suits : call.Suits field argument) :
    call'.Suits field argument' := by
  refine ⟨storage ▸ suits.type, writable ▸ suits.writable, storage ▸ suits.point, ?_⟩
  rw [storage, rearranged.origins, rearranged.domain]
  exact suits.covers

theorem slotsOf (rearranged : Rearranged interface call call') :
    (call.slotsOf interface).Perm (call'.slotsOf interface) := by
  have slots := rearranged.buffers.map Prod.fst
  rw [List.map_map, List.map_map] at slots
  exact slots

/-- **It does not matter for admission in which way buffers are passed.** -/
theorem admissible (rearranged : Rearranged interface call call')
    (admissible : call.Admissible interface) : call'.Admissible interface := by
  obtain ⟨planes, fields, names, once, sorts⟩ := admissible
  obtain ⟨distinct, hasSlot, covered, suits⟩ := fieldsMatch_iff.mp fields
  have slots := rearranged.slotsOf
  refine ⟨by rw [rearranged.domain]; exact planes, fieldsMatch_iff.mpr ⟨slots.nodup_iff.mp distinct,
    fun slot member => hasSlot slot (slots.mem_iff.mpr member),
    fun slot inside => slots.mem_iff.mp (covered slot inside), ?_⟩, ?_⟩
  · intro slot field given isField member
    obtain ⟨given', member', storage, writable⟩ := rearranged.symm.partner member
    exact rearranged.suits storage.symm writable.symm (suits slot field given' isField member')
  · refine ⟨?_, ?_, ?_⟩ <;> rw [rearranged.scalars]
    · exact names
    · exact once
    · exact sorts

/-- The slot of a parameter is its place in the list, if all have names of their own. -/
theorem parameterSlot?_name (distinct : (interface.parameters.map InterfaceField.name).Nodup)
    {slot : Nat} {field : InterfaceField} (isField : interface.parameters[slot]? = some field) :
    interface.parameterSlot? field.name = some slot := by
  obtain ⟨inside, rfl⟩ := List.getElem?_eq_some_iff.mp isField
  refine List.findIdx?_eq_some_iff_getElem.mpr ⟨inside, beq_self_eq_true _, fun other before => ?_⟩
  rw [Bool.not_eq_true, beq_eq_false_iff_ne]
  have apart := List.pairwise_iff_getElem.mp distinct other slot
    (by rw [List.length_map]; omega) (by rw [List.length_map]; exact inside) before
  rw [List.getElem_map, List.getElem_map] at apart
  exact apart

/-- The buffers of a call, each behind the name of the parameter that it is passed for. -/
def named (interface : Interface) (call : Call) : List (String × Storage × Bool) :=
  List.zipWith (fun field given => (field.name, given.2.storage, given.2.writable))
      interface.parameters call.positional ++
    call.keywords.map fun keyword => (keyword.1, keyword.2.2.storage, keyword.2.2.writable)

theorem seen_addressed (distinct : (interface.parameters.map InterfaceField.name).Nodup)
    (few : call.positional.length ≤ interface.parameters.length) :
    (call.addressed interface).map seen =
      (named interface call).map fun given => (interface.parameterSlot? given.1, given.2) := by
  unfold addressed named
  rw [List.map_append, List.map_append, List.map_map, List.map_map, List.map_map]
  refine congrArg₂ _ (List.ext_getElem? fun slot => ?_) rfl
  rw [List.getElem?_map, List.getElem?_map, List.getElem?_zipIdx, List.getElem?_zipWith, Nat.zero_add]
  cases given : call.positional[slot]? with
  | none => cases interface.parameters[slot]? <;> rfl
  | some buffer =>
    have inside : slot < interface.parameters.length :=
      Nat.lt_of_lt_of_le (List.getElem?_eq_some_iff.mp given).1 few
    have isField := List.getElem?_eq_getElem inside
    rw [isField]
    simp only [Option.map_some, Function.comp_apply, seen, if_pos inside,
      parameterSlot?_name distinct isField]

/-- **Calls that pass the same buffers under the same names are rearrangements of each other**, a
buffer passed by position having the name of its parameter. -/
theorem of_named (distinct : (interface.parameters.map InterfaceField.name).Nodup)
    (few : call.positional.length ≤ interface.parameters.length)
    (few' : call'.positional.length ≤ interface.parameters.length)
    (buffers : (named interface call).Perm (named interface call'))
    (scalars : call'.scalars = call.scalars) (origins : call'.origins = call.origins)
    (domain : call'.domain = call.domain) : Rearranged interface call call' := by
  refine ⟨?_, scalars, origins, domain⟩
  rw [seen_addressed distinct few, seen_addressed distinct few']
  exact buffers.map _

end Rearranged

/-- **Binding is exact.** A call whose buffers have sizes that 64 bits can hold is bound if and only if
it is admissible; otherwise it fails with a mismatch, and a run gives the buffers back as they were. The
fields that are bound stand in the order of the signature, each with the buffer that is addressed to it,
and are the same for all calls that pass the same buffers for the same parameters. -/
theorem bind_exact (interface : Interface) (call : Call)
    (sized : ∀ argument ∈ call.arguments, Sized argument) :
    (call.Admissible interface →
      ∃ bound, call.bind interface = .ok bound ∧
        bound.fields.length = interface.parameters.length ∧
        (∀ slot field given, interface.parameters[slot]? = some field →
          (some slot, given) ∈ call.addressed interface →
          bound.fields[slot]? =
            some ⟨given.1, given.2.storage, given.2.writable, call.origins.of field.name⟩) ∧
        ∀ call', Rearranged interface call call' →
          ∃ bound', call'.bind interface = .ok bound' ∧
            bound'.fields.map BoundField.seen = bound.fields.map BoundField.seen ∧
            bound'.scalars = bound.scalars) ∧
      (¬ call.Admissible interface →
        ∃ cause, call.bind interface = .error cause ∧ cause.kind = .domainMismatch ∧
          ∀ kernel : Kernel, kernel.interface = interface →
            kernel.run call = (call.arguments, some (.ofCause cause))) := by
  have sized' : ∀ given ∈ call.addressed interface, Sized given.2.2 :=
    fun given member => sized _ (mem_arguments_of_addressed member)
  refine ⟨fun admissible => ?_, fun other => ?_⟩
  · obtain ⟨bound, passed⟩ := (bind_isOk_iff sized').mpr admissible
    obtain ⟨-, fields, scalars⟩ := bind_eq_ok_iff.mp passed
    obtain ⟨matched, count, bindings⟩ := (bindFields_eq_ok_iff sized').mp fields
    refine ⟨bound, passed, count, bindings, fun call' rearranged => ?_⟩
    have sized'' : ∀ given ∈ call'.addressed interface, Sized given.2.2 := by
      rintro ⟨slot, given⟩ member
      obtain ⟨given', member', storage, -⟩ := rearranged.symm.partner member
      obtain ⟨i, j, k⟩ := sized' _ member'
      simp only [storage] at i j k
      exact ⟨i, j, k⟩
    obtain ⟨bound', passed'⟩ := (bind_isOk_iff sized'').mpr (rearranged.admissible admissible)
    obtain ⟨-, fields', scalars'⟩ := bind_eq_ok_iff.mp passed'
    obtain ⟨-, count', bindings'⟩ := (bindFields_eq_ok_iff sized'').mp fields'
    refine ⟨bound', passed', List.ext_getElem? fun slot => ?_, ?_⟩
    · rw [List.getElem?_map, List.getElem?_map]
      by_cases inside : slot < interface.parameters.length
      · have isField := List.getElem?_eq_getElem inside
        obtain ⟨given, member, -⟩ := matched.once slot inside
        obtain ⟨given', member', storage, writable⟩ := rearranged.partner member
        rw [bindings slot _ given isField member, bindings' slot _ given' isField member']
        simp only [bindingOf, BoundField.seen, Option.map_some, storage, writable,
          rearranged.origins]
      · rw [List.getElem?_eq_none (by omega), List.getElem?_eq_none (by omega)]
    · have same : bindScalars interface call' = bindScalars interface call := by
        unfold bindScalars
        rw [rearranged.scalars]
      exact Except.ok.inj (scalars'.symm.trans (same.trans scalars))
  · cases result : call.bind interface with
    | ok bound => exact absurd ((bind_isOk_iff sized').mp ⟨bound, result⟩) other
    | error cause =>
      refine ⟨cause, rfl, bind_mismatches call interface cause result, ?_⟩
      rintro kernel rfl
      unfold Kernel.run
      rw [result]

/-- An interface with a field that is read one cell below, and one that is assigned. -/
def shifted : Interface where
  name := "shifted"
  fields := [⟨"a", .f64, .ijk, .input, ⟨⟨1, 0⟩, ⟨0, 0⟩, ⟨0, 0⟩⟩⟩, ⟨"x", .f64, .ijk, .output, .all ⟨0, 0⟩⟩]
  scalars := [⟨"w", .f64⟩]
  minPlanes := 1

/-- A call that passes both buffers by position. -/
def ordered : Call where
  arguments := [⟨none, .zeros ⟨2, 1, 1⟩ .f64, false⟩, ⟨none, .zeros ⟨2, 1, 1⟩ .f64, true⟩]
  scalars := [("w", .int 1)]
  origins := ⟨⟨1, 0, 0⟩, .empty⟩
  domain := .all 1

/-- The same call with both buffers by name, in the other order. -/
def reversed : Call where
  arguments := [⟨some "x", .zeros ⟨2, 1, 1⟩ .f64, true⟩, ⟨some "a", .zeros ⟨2, 1, 1⟩ .f64, false⟩]
  scalars := [("w", .int 1)]
  origins := ⟨⟨1, 0, 0⟩, .empty⟩
  domain := .all 1

theorem bind_exact_reversed :
    (∀ argument ∈ ordered.arguments, Sized argument) ∧ ordered.Admissible shifted ∧
      ∃ bound bound', ordered.bind shifted = .ok bound ∧ reversed.bind shifted = .ok bound' ∧
        bound'.fields.map BoundField.seen = bound.fields.map BoundField.seen := by
  have sized : ∀ argument ∈ ordered.arguments, Sized argument := by
    intro argument member
    rcases List.mem_pair.mp member with rfl | rfl <;> exact ⟨by decide, by decide, by decide⟩
  have exact := bind_exact shifted ordered sized
  have isOk : (ordered.bind shifted).isOk = true := by decide +kernel
  have admissible : ordered.Admissible shifted := by
    by_contra other
    obtain ⟨cause, failed, -⟩ := exact.2 other
    rw [failed] at isOk
    cases isOk
  have rearranged : Rearranged shifted ordered reversed :=
    .of_named (by decide) (by decide) (by decide) (.swap _ _ []) rfl rfl rfl
  obtain ⟨bound, passed, -, -, others⟩ := exact.1 admissible
  obtain ⟨bound', passed', same, -⟩ := others reversed rearranged
  exact ⟨sized, admissible, bound, bound', passed, passed', same⟩

end Call

end GridStencil
