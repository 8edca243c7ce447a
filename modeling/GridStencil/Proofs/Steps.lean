import Mathlib.Data.List.Forall2

/-!
**Computations that may fail, taken apart.**

What a computation in `Except` gave back is known once it is known what each of its steps gave back:
`bind_eq_ok` for two steps in a row, `mapM_eq_ok` for a step per element of a list. One computation
`Carries` over to another if this one succeeds where it does, with a related result. Two computations
are `Alike` if both fail, or both succeed with results that are related, and `Matched` if they moreover
fail in the same way; `bind` and `mapM` compare them step by step.
-/

namespace GridStencil.Steps

variable {ε α β : Type}

/-- Two steps succeed if the first one does and the second one succeeds on its result. -/
theorem bind_eq_ok {first : Except ε α} {second : α → Except ε β} {b : β} :
    first >>= second = .ok b ↔ ∃ a, first = .ok a ∧ second a = .ok b := by
  cases first with
  | error fault => exact ⟨fun absurd => (nomatch absurd), fun ⟨_, absurd, _⟩ => (nomatch absurd)⟩
  | ok a => exact ⟨fun done => ⟨a, rfl, done⟩, fun ⟨_, same, done⟩ => Except.ok.inj same ▸ done⟩

/-- Two steps fail if the first one does, or the second one on what the first one gave. -/
theorem bind_eq_error {first : Except ε α} {second : α → Except ε β} {fault : ε} :
    first >>= second = .error fault ↔
      first = .error fault ∨ ∃ a, first = .ok a ∧ second a = .error fault := by
  cases first with
  | error other =>
    exact ⟨fun same => .inl (congrArg _ (Except.error.inj same)), fun failed =>
      failed.elim (fun same => congrArg _ (Except.error.inj same)) fun ⟨_, absurd, _⟩ => nomatch absurd⟩
  | ok a =>
    exact ⟨fun failed => .inr ⟨a, rfl, failed⟩, fun failed =>
      failed.elim (fun absurd => nomatch absurd) fun ⟨_, same, failed⟩ => Except.ok.inj same ▸ failed⟩

/-- Two steps succeed if the first one does and the second one always does. -/
theorem bind_isOk {first : Except ε α} {second : α → Except ε β} (succeeds : ∃ a, first = .ok a)
    (always : ∀ a, ∃ b, second a = .ok b) : ∃ b, first >>= second = .ok b := by
  obtain ⟨a, done⟩ := succeeds
  obtain ⟨b, done'⟩ := always a
  exact ⟨b, bind_eq_ok.mpr ⟨a, done, done'⟩⟩

theorem map_eq_ok {first : Except ε α} {f : α → β} {b : β} :
    f <$> first = .ok b ↔ ∃ a, first = .ok a ∧ f a = b := by
  cases first with
  | error fault => exact ⟨fun absurd => (nomatch absurd), fun ⟨_, absurd, _⟩ => (nomatch absurd)⟩
  | ok a =>
    exact ⟨fun done => ⟨a, rfl, Except.ok.inj done⟩,
      fun ⟨_, same, done⟩ => Except.ok.inj same ▸ congrArg Except.ok done⟩

theorem mapError_eq_ok {ε' : Type} {first : Except ε α} {f : ε → ε'} {a : α} :
    first.mapError f = .ok a ↔ first = .ok a := by
  cases first with
  | error fault => exact ⟨fun absurd => (nomatch absurd), fun absurd => (nomatch absurd)⟩
  | ok b =>
    exact ⟨fun same => congrArg _ (Except.ok.inj same), fun same => congrArg _ (Except.ok.inj same)⟩

theorem mapError_eq_error {ε' : Type} {first : Except ε α} {f : ε → ε'} {fault : ε'} :
    first.mapError f = .error fault ↔ ∃ cause, first = .error cause ∧ f cause = fault := by
  cases first with
  | error cause =>
    exact ⟨fun same => ⟨cause, rfl, Except.error.inj same⟩,
      fun ⟨_, same, mapped⟩ => mapped ▸ Except.error.inj same ▸ rfl⟩
  | ok a => exact ⟨fun absurd => (nomatch absurd), fun ⟨_, absurd, _⟩ => (nomatch absurd)⟩

theorem toOption_eq_some {first : Except ε α} {a : α} :
    first.toOption = some a ↔ first = .ok a := by
  cases first with
  | error fault => exact ⟨fun absurd => (nomatch absurd), fun absurd => (nomatch absurd)⟩
  | ok b =>
    exact ⟨fun same => congrArg _ (Option.some.inj same), fun same => congrArg _ (Except.ok.inj same)⟩

/-- A step per element succeeds if all steps do, and gives their results in order. -/
theorem mapM_eq_ok {f : α → Except ε β} {xs : List α} {ys : List β} :
    xs.mapM f = .ok ys ↔ List.Forall₂ (fun x y => f x = .ok y) xs ys := by
  induction xs generalizing ys with
  | nil =>
    rw [List.mapM_nil, List.forall₂_nil_left_iff]
    exact ⟨fun same => (Except.ok.inj same).symm, fun same => same ▸ rfl⟩
  | cons x rest ih =>
    rw [List.mapM_cons, bind_eq_ok, List.forall₂_cons_left_iff]
    refine exists_congr fun y => ?_
    rw [bind_eq_ok]
    constructor
    · rintro ⟨here, rest', more, same⟩
      exact ⟨rest', here, ih.mp more, (Except.ok.inj same).symm⟩
    · rintro ⟨rest', here, more, rfl⟩
      exact ⟨here, rest', ih.mpr more, rfl⟩

/-- Steps that succeed under a condition and then give a known value, one per element. -/
theorem mapM_eq_map {f : α → Except ε β} {condition : α → Prop} {value : α → β}
    (known : ∀ a b, f a = .ok b ↔ condition a ∧ value a = b) {xs : List α} {ys : List β} :
    xs.mapM f = .ok ys ↔ (∀ x ∈ xs, condition x) ∧ xs.map value = ys := by
  induction xs generalizing ys with
  | nil =>
    rw [List.mapM_nil]
    exact ⟨fun same => ⟨fun _ absurd => (nomatch absurd), Except.ok.inj same⟩,
      fun both => congrArg Except.ok both.2⟩
  | cons x rest ih =>
    rw [List.mapM_cons, bind_eq_ok, List.forall_mem_cons, List.map_cons]
    constructor
    · rintro ⟨y, here, more⟩
      obtain ⟨rest', there, same⟩ := bind_eq_ok.mp more
      obtain ⟨conditions, rfl⟩ := ih.mp there
      obtain ⟨condition, rfl⟩ := (known x y).mp here
      exact ⟨⟨condition, conditions⟩, Except.ok.inj same⟩
    · rintro ⟨⟨condition, conditions⟩, rfl⟩
      refine ⟨value x, (known x _).mpr ⟨condition, rfl⟩, ?_⟩
      exact bind_eq_ok.mpr ⟨_, ih.mpr ⟨conditions, rfl⟩, rfl⟩

/-- Every element on the right of a relation between lists has its partner on the left. -/
theorem exists_left {r : α → β → Prop} {xs : List α} {ys : List β} (related : List.Forall₂ r xs ys)
    {y : β} (member : y ∈ ys) : ∃ x ∈ xs, r x y := by
  induction related with
  | nil => cases member
  | @cons x _ xs _ here _ ih =>
    rcases List.mem_cons.mp member with rfl | later
    · exact ⟨x, List.mem_cons_self, here⟩
    · obtain ⟨x', inside, found⟩ := ih later
      exact ⟨x', List.mem_cons_of_mem _ inside, found⟩

/-- A step per element succeeds if all steps do. -/
theorem mapM_isOk {f : α → Except ε β} {xs : List α} :
    (∃ ys, xs.mapM f = .ok ys) ↔ ∀ x ∈ xs, ∃ y, f x = .ok y := by
  simp only [mapM_eq_ok]
  constructor
  · rintro ⟨ys, related⟩ x member
    induction related with
    | nil => cases member
    | @cons first y rest ys here _ ih =>
      rcases List.mem_cons.mp member with rfl | later
      · exact ⟨y, here⟩
      · exact ih later
  · intro all
    induction xs with
    | nil => exact ⟨[], .nil⟩
    | cons first rest ih =>
      obtain ⟨here, more⟩ := List.forall_mem_cons.mp all
      obtain ⟨y, done⟩ := here
      obtain ⟨ys, related⟩ := ih more
      exact ⟨y :: ys, .cons done related⟩

/-- A step per element fails where one of the steps does. -/
theorem mapM_eq_error {f : α → Except ε β} {xs : List α} {fault : ε}
    (failed : xs.mapM f = .error fault) : ∃ x ∈ xs, f x = .error fault := by
  induction xs with
  | nil => cases failed
  | cons x rest ih =>
    rw [List.mapM_cons] at failed
    cases here : f x with
    | error other =>
      rw [here] at failed
      cases failed
      exact ⟨x, List.mem_cons_self, here⟩
    | ok y =>
      rw [here] at failed
      cases more : rest.mapM f with
      | error other =>
        rw [more] at failed
        cases failed
        obtain ⟨x', member, found⟩ := ih more
        exact ⟨x', List.mem_cons_of_mem _ member, found⟩
      | ok ys =>
        rw [more] at failed
        cases failed

/-- A step per element that gives nothing succeeds if all steps do. -/
theorem forM_eq_ok {f : α → Except ε Unit} {xs : List α} :
    xs.forM f = .ok () ↔ ∀ x ∈ xs, f x = .ok () := by
  induction xs with
  | nil => exact iff_of_true rfl (List.forall_mem_nil _)
  | cons x rest ih =>
    show (f x >>= fun _ => rest.forM f) = .ok () ↔ _
    rw [bind_eq_ok, List.forall_mem_cons, ← ih]
    exact ⟨fun ⟨_, here, more⟩ => ⟨here, more⟩, fun ⟨here, more⟩ => ⟨(), here, more⟩⟩

/-! ### Two computations -/

/-- Whether the second of two computations succeeds where the first one does, with a related
result. -/
def Carries {ε ε' α β : Type} (r : α → β → Prop) (first : Except ε α) (first' : Except ε' β) :
    Prop :=
  ∀ a, first = .ok a → ∃ b, first' = .ok b ∧ r a b

namespace Carries

variable {ε' α' β' : Type} {r : α → α' → Prop} {s : β → β' → Prop}

theorem ok {a : α} {a' : α'} (related : r a a') :
    Carries r (.ok a : Except ε α) (.ok a' : Except ε' α') := by
  rintro _ ⟨⟩
  exact ⟨a', rfl, related⟩

theorem error (fault : ε) (first' : Except ε' α') : Carries r (.error fault) first' := by
  rintro _ ⟨⟩

theorem refl (first : Except ε α) : Carries Eq first first := fun a done => ⟨a, done, rfl⟩

theorem bind {first : Except ε α} {first' : Except ε' α'} {second : α → Except ε β}
    {second' : α' → Except ε' β'} (carries : Carries r first first')
    (behind : ∀ a a', r a a' → Carries s (second a) (second' a')) :
    Carries s (first >>= second) (first' >>= second') := by
  intro b done
  obtain ⟨a, here, more⟩ := bind_eq_ok.mp done
  obtain ⟨a', here', related⟩ := carries a here
  obtain ⟨b', more', related'⟩ := behind a a' related b more
  exact ⟨b', bind_eq_ok.mpr ⟨a', here', more'⟩, related'⟩

/-- A step per element of two lists whose elements are related pair by pair. -/
theorem mapM {f : α → Except ε β} {f' : α' → Except ε' β'} {xs : List α} {xs' : List α'}
    (pairs : List.Forall₂ r xs xs') (steps : ∀ a a', r a a' → Carries s (f a) (f' a')) :
    Carries (List.Forall₂ s) (xs.mapM f) (xs'.mapM f') := by
  induction pairs with
  | nil => exact .ok .nil
  | cons here _ ih =>
    rw [List.mapM_cons, List.mapM_cons]
    exact (steps _ _ here).bind fun b b' related => ih.bind fun bs bs' more =>
      .ok (.cons related more)

end Carries

/-- Two computations that fail together, each with an error of its own, or succeed together with
related results. -/
inductive Alike {ε ε' α β : Type} (r : α → β → Prop) : Except ε α → Except ε' β → Prop
  | ok {a : α} {b : β} (related : r a b) : Alike r (.ok a) (.ok b)
  | error (fault : ε) (fault' : ε') : Alike r (.error fault) (.error fault')

namespace Alike

variable {ε' α' β' : Type} {r : α → α' → Prop} {s : β → β' → Prop}

theorem refl (first : Except ε α) : Alike Eq first first :=
  match first with
  | .ok _ => .ok rfl
  | .error fault => .error fault fault

theorem bind {first : Except ε α} {first' : Except ε' α'} {second : α → Except ε β}
    {second' : α' → Except ε' β'} (alike : Alike r first first')
    (behind : ∀ a a', r a a' → Alike s (second a) (second' a')) :
    Alike s (first >>= second) (first' >>= second') :=
  match alike with
  | .ok related => behind _ _ related
  | .error fault fault' => .error fault fault'

theorem map {first : Except ε α} {first' : Except ε' α'} {f : α → β} {f' : α' → β'}
    (alike : Alike r first first') (related : ∀ a a', r a a' → s (f a) (f' a')) :
    Alike s (f <$> first) (f' <$> first') :=
  match alike with
  | .ok here => .ok (related _ _ here)
  | .error fault fault' => .error fault fault'

theorem mapError {δ δ' : Type} {first : Except ε α} {first' : Except ε' α'} (f : ε → δ)
    (f' : ε' → δ') (alike : Alike r first first') :
    Alike r (first.mapError f) (first'.mapError f') :=
  match alike with
  | .ok related => .ok related
  | .error fault fault' => .error (f fault) (f' fault')

/-- A step per element of two lists whose elements are related pair by pair. -/
theorem mapM {f : α → Except ε β} {f' : α' → Except ε' β'} {xs : List α} {xs' : List α'}
    (pairs : List.Forall₂ r xs xs') (steps : ∀ a a', r a a' → Alike s (f a) (f' a')) :
    Alike (List.Forall₂ s) (xs.mapM f) (xs'.mapM f') := by
  induction pairs with
  | nil => exact .ok .nil
  | cons here _ ih =>
    rw [List.mapM_cons, List.mapM_cons]
    exact (steps _ _ here).bind fun b b' related => ih.bind fun bs bs' more =>
      .ok (.cons related more)

/-- Computations that are alike up to what `f` and `f'` make of their results give the same, or both
nothing. -/
theorem toOption_map_eq {γ : Type} {f : α → γ} {f' : α' → γ} {first : Except ε α}
    {first' : Except ε' α'} (alike : Alike (fun a a' => f a = f' a') first first') :
    first.toOption.map f = first'.toOption.map f' :=
  match alike with
  | .ok same => congrArg some same
  | .error _ _ => rfl

end Alike

/-- Two computations that fail together with the same error, or succeed together with related
results. -/
inductive Matched {ε α β : Type} (r : α → β → Prop) : Except ε α → Except ε β → Prop
  | ok {a : α} {b : β} (related : r a b) : Matched r (.ok a) (.ok b)
  | error (fault : ε) : Matched r (.error fault) (.error fault)

namespace Matched

variable {α' β' : Type} {r : α → α' → Prop} {s : β → β' → Prop}

theorem imp {r' : α → α' → Prop} {first : Except ε α} {first' : Except ε α'}
    (matched : Matched r first first') (weaker : ∀ a a', r a a' → r' a a') :
    Matched r' first first' :=
  match matched with
  | .ok related => .ok (weaker _ _ related)
  | .error fault => .error fault

theorem of_ok {first : Except ε α} {first' : Except ε α'} (matched : Matched r first first') {a : α}
    (done : first = .ok a) : ∃ a', first' = .ok a' ∧ r a a' := by
  cases matched with
  | ok related =>
    cases done
    exact ⟨_, rfl, related⟩
  | error fault => cases done

theorem of_error {first : Except ε α} {first' : Except ε α'} (matched : Matched r first first')
    {fault : ε} (failed : first = .error fault) : first' = .error fault := by
  cases matched with
  | ok related => cases failed
  | error other => exact congrArg Except.error (Except.error.inj failed)

theorem mapError {δ : Type} {first : Except ε α} {first' : Except ε α'} (f : ε → δ)
    (matched : Matched r first first') : Matched r (first.mapError f) (first'.mapError f) :=
  match matched with
  | .ok related => .ok related
  | .error fault => .error (f fault)

theorem bind {first : Except ε α} {first' : Except ε α'} {second : α → Except ε β}
    {second' : α' → Except ε β'} (matched : Matched r first first')
    (behind : ∀ a a', r a a' → Matched s (second a) (second' a')) :
    Matched s (first >>= second) (first' >>= second') :=
  match matched with
  | .ok related => behind _ _ related
  | .error fault => .error fault

/-- A step per element of two lists whose elements are related pair by pair. -/
theorem mapM {f : α → Except ε β} {f' : α' → Except ε β'} {xs : List α} {xs' : List α'}
    (pairs : List.Forall₂ r xs xs') (steps : ∀ a a', r a a' → Matched s (f a) (f' a')) :
    Matched (List.Forall₂ s) (xs.mapM f) (xs'.mapM f') := by
  induction pairs with
  | nil => exact .ok .nil
  | cons here _ ih =>
    rw [List.mapM_cons, List.mapM_cons]
    exact (steps _ _ here).bind fun b b' related => ih.bind fun bs bs' more =>
      .ok (.cons related more)

/-- A step per element of two lists, each from what the step before it gave. -/
theorem foldlM {f : β → α → Except ε β} {f' : β' → α' → Except ε β'} {xs : List α} {xs' : List α'}
    (pairs : List.Forall₂ r xs xs')
    (steps : ∀ b b' a a', s b b' → r a a' → Matched s (f b a) (f' b' a')) {b : β} {b' : β'}
    (start : s b b') : Matched s (xs.foldlM f b) (xs'.foldlM f' b') := by
  induction pairs generalizing b b' with
  | nil => exact .ok start
  | cons here _ ih =>
    rw [List.foldlM_cons, List.foldlM_cons]
    exact (steps _ _ _ _ start here).bind fun c c' related => ih related

end Matched

end GridStencil.Steps
