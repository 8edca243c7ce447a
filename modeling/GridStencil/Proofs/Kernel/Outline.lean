import GridStencil.Proofs.Kernel.Binding

/-!
**What a call is bound to does not depend on the elements of its buffers.**

Two buffers have the same outline if they differ in their elements at most, and so have two arguments
or two bound parameters. Arguments with the same outlines are put into the same slots
(`slots_matched`), whatever the domain and the origins are; with equal ones they are bound alike.

* `bindFields_matched`: binding fails with the same error, or gives fields with the same outlines.
-/

namespace GridStencil

/-- Two buffers that differ in their elements at most. -/
structure Storage.SameOutline (a b : Storage) : Prop where
  shape : a.shape = b.shape
  type : a.type = b.type

/-- Two arguments that differ in the elements of their buffers at most. -/
structure Argument.SameOutline (a b : Argument) : Prop where
  name : a.name = b.name
  storage : a.storage.SameOutline b.storage
  writable : a.writable = b.writable

/-- Two parameters that are bound to the same argument, up to the elements of its buffer. -/
structure BoundField.SameOutline (a b : BoundField) : Prop where
  argument : a.argument = b.argument
  storage : a.storage.SameOutline b.storage
  writable : a.writable = b.writable
  origin : a.origin = b.origin

namespace Call

/-- Two arguments of the same number and outline. -/
structure SameNumbered (a b : Nat × Argument) : Prop where
  number : a.1 = b.1
  argument : a.2.SameOutline b.2

/-- Two arguments passed by the same name, of the same number and outline. -/
structure SameKeyword (a b : String × Nat × Argument) : Prop where
  name : a.1 = b.1
  numbered : SameNumbered a.2 b.2

/-- Slots with the same arguments in them, up to the elements of buffers. -/
abbrev SameSlots : Slots → Slots → Prop := List.Forall₂ (Option.Rel SameNumbered)

/-- What is picked from some arguments with their numbers. -/
theorem forall₂_picked {β : Type} {r : β → β → Prop} {f : Argument × Nat → Option β}
    (picks : ∀ a b n, Argument.SameOutline a b → Option.Rel r (f (a, n)) (f (b, n)))
    {arguments others : List Argument}
    (alike : List.Forall₂ Argument.SameOutline arguments others) (n : Nat) :
    List.Forall₂ r ((arguments.zipIdx n).filterMap f) ((others.zipIdx n).filterMap f) := by
  induction alike generalizing n with
  | nil => exact .nil
  | @cons a b _ _ here _ ih =>
    rw [List.zipIdx_cons, List.zipIdx_cons, List.filterMap_cons, List.filterMap_cons]
    have picked := picks a b n here
    cases first : f (a, n) <;> cases second : f (b, n) <;> rw [first, second] at picked
    · exact ih (n + 1)
    · cases picked
    · cases picked
    · cases picked with
      | some related => exact .cons related (ih (n + 1))

variable {call other : Call}

theorem positional_alike (alike : List.Forall₂ Argument.SameOutline call.arguments other.arguments) :
    List.Forall₂ SameNumbered call.positional other.positional := by
  refine forall₂_picked (fun a b n same => ?_) alike 0
  dsimp only
  rw [same.name]
  split
  · exact .some ⟨rfl, same⟩
  · exact .none

theorem keywords_alike (alike : List.Forall₂ Argument.SameOutline call.arguments other.arguments) :
    List.Forall₂ SameKeyword call.keywords other.keywords := by
  refine forall₂_picked (fun a b n same => ?_) alike 0
  dsimp only
  rw [same.name]
  cases b.name with
  | none => exact .none
  | some name => exact .some ⟨rfl, rfl, same⟩

theorem firstSlots_alike {given given' : List (Nat × Argument)} (count : Nat)
    (alike : List.Forall₂ SameNumbered given given') :
    SameSlots (firstSlots count given) (firstSlots count given') := by
  unfold firstSlots
  rw [alike.length_eq]
  refine List.rel_append (List.forall₂_take count ?_) (List.forall₂_same.mpr fun slot member => ?_)
  · exact List.forall₂_map_left_iff.mpr
      (List.forall₂_map_right_iff.mpr (alike.imp fun _ _ same => .some same))
  · rw [List.eq_of_mem_replicate member]
    exact .none

theorem sameSlots_set {slots slots' : Slots} (alike : SameSlots slots slots') (n : Nat)
    {argument argument' : Nat × Argument} (same : SameNumbered argument argument') :
    SameSlots (slots.set n (some argument)) (slots'.set n (some argument')) := by
  induction alike generalizing n with
  | nil => exact .nil
  | cons here more ih =>
    cases n with
    | zero => exact .cons (.some same) more
    | succ n => exact .cons here (ih n)

/-- A slot is taken in both or in neither. -/
theorem sameSlots_taken {slots slots' : Slots} (alike : SameSlots slots slots') (n : Nat) :
    (slots[n]?.getD none).isSome = (slots'[n]?.getD none).isSome := by
  induction alike generalizing n with
  | nil => rfl
  | @cons slot slot' _ _ here _ ih =>
    cases n with
    | zero => cases here <;> rfl
    | succ n => exact ih n

theorem place_matched (interface : Interface) {slots slots' : Slots}
    {keyword keyword' : String × Nat × Argument} (alike : SameSlots slots slots')
    (same : SameKeyword keyword keyword') :
    Steps.Matched SameSlots (place interface slots keyword) (place interface slots' keyword') := by
  obtain ⟨name, argument⟩ := keyword
  obtain ⟨name', argument'⟩ := keyword'
  obtain ⟨rfl, numbered⟩ := same
  unfold place
  dsimp only
  split
  · exact .error _
  next slot found =>
    rw [sameSlots_taken alike slot]
    split
    · exact .error _
    · exact .ok (sameSlots_set alike slot numbered)

/-- **Arguments with the same outlines are put into the same slots.** -/
theorem slots_matched (interface : Interface)
    (alike : List.Forall₂ Argument.SameOutline call.arguments other.arguments) (count : Nat) :
    Steps.Matched SameSlots
      (call.keywords.foldlM (place interface) (firstSlots count call.positional))
      (other.keywords.foldlM (place interface) (firstSlots count other.positional)) :=
  .foldlM (keywords_alike alike) (fun _ _ _ _ slots same => place_matched interface slots same)
    (firstSlots_alike count (positional_alike alike))

theorem bindField_matched (stencil : String) (origins : call.origins = other.origins)
    (domain : call.domain = other.domain) (field : InterfaceField)
    {slot slot' : Option (Nat × Argument)} (same : Option.Rel SameNumbered slot slot') :
    Steps.Matched BoundField.SameOutline (bindField stencil call field slot)
      (bindField stencil other field slot') := by
  cases same with
  | none => exact .error _
  | @some pair pair' same =>
    obtain ⟨n, argument⟩ := pair
    obtain ⟨n', argument'⟩ := pair'
    obtain ⟨rfl, alike⟩ := same
    have bound : BoundField.SameOutline
        ⟨n, argument.storage, argument'.writable, other.origins.of field.name⟩
        ⟨n, argument'.storage, argument'.writable, other.origins.of field.name⟩ :=
      ⟨rfl, alike.storage, rfl, rfl⟩
    unfold bindField
    dsimp only
    rw [alike.storage.type, alike.storage.shape, alike.writable, origins, domain]
    split
    · exact .error _
    · split
      · exact .error _
      · split
        · split
          · exact .ok bound
          · exact .error _
        · cases checkHalo field argument'.storage.shape (other.origins.of field.name)
            other.domain with
          | error cause => exact .error cause
          | ok _ => exact .ok bound

/-- Parameters with their slots. -/
theorem forall₂_zip {slots slots' : Slots} (alike : SameSlots slots slots')
    (parameters : List InterfaceField) :
    List.Forall₂ (fun a b => a.1 = b.1 ∧ Option.Rel SameNumbered a.2 b.2)
      (parameters.zip slots) (parameters.zip slots') := by
  induction alike generalizing parameters with
  | nil =>
    rw [List.zip_nil_right]
    exact .nil
  | cons here _ ih =>
    cases parameters with
    | nil => exact .nil
    | cons field rest => exact .cons ⟨rfl, here⟩ (ih rest)

/-- **Arguments with the same outlines are bound alike**, for the same origins and domain. -/
theorem bindFields_matched (interface : Interface)
    (alike : List.Forall₂ Argument.SameOutline call.arguments other.arguments)
    (origins : call.origins = other.origins) (domain : call.domain = other.domain) :
    Steps.Matched (List.Forall₂ BoundField.SameOutline) (bindFields interface call)
      (bindFields interface other) := by
  unfold bindFields
  dsimp only
  rw [(positional_alike alike).length_eq]
  split
  · exact .error _
  · refine (slots_matched interface alike _).bind fun slots slots' same => ?_
    refine .mapM (forall₂_zip same interface.parameters) ?_
    rintro ⟨field, slot⟩ ⟨_, slot'⟩ ⟨rfl, same⟩
    exact bindField_matched interface.name origins domain field same

end Call

end GridStencil
