import GridStencil.Name.Table

/-!
**Tables as partial functions of the name.**

`get?_insert` says what a table gives back after one value was set, and `mem_entries` that its
entries are exactly the pairs it gives back; everything else about tables follows from these two.
-/

namespace GridStencil.Name.Table

variable {β : Type}

theorem lookup_put (name : String) (value : β) (pairs : List (String × β)) (other : String) :
    (put name value pairs).lookup other =
      if other = name then some value else pairs.lookup other := by
  induction pairs with
  | nil =>
    unfold put
    rw [List.lookup_cons, List.lookup_nil]
    by_cases same : other = name
    · rw [if_pos same, beq_iff_eq.mpr same]
    · rw [if_neg same, beq_eq_false_iff_ne.mpr same]
  | cons first rest ih =>
    obtain ⟨known, old⟩ := first
    unfold put
    split
    · rw [List.lookup_cons]
      by_cases same : other = name
      · rw [if_pos same, beq_iff_eq.mpr same]
      · rw [if_neg same, beq_eq_false_iff_ne.mpr same]
    · split
      next replaced =>
        subst replaced
        rw [List.lookup_cons]
        by_cases same : other = name
        · rw [if_pos same, beq_iff_eq.mpr same]
        · rw [if_neg same, beq_eq_false_iff_ne.mpr same, List.lookup_cons,
            beq_eq_false_iff_ne.mpr same]
      next different =>
        rw [List.lookup_cons, List.lookup_cons, ih]
        by_cases there : other = known
        · rw [beq_iff_eq.mpr there]
          exact (if_neg fun same => different (same.symm.trans there)).symm
        · rw [beq_eq_false_iff_ne.mpr there]

/-- **What a table gives back after a value was set.** -/
theorem get?_insert (table : Table β) (name other : String) (value : β) :
    (table.insert name value).get? other =
      if other = name then some value else table.get? other :=
  lookup_put name value table.entries other

/-- **The entries of a table are the pairs it gives back.** -/
theorem mem_entries {table : Table β} {name : String} {value : β} :
    (name, value) ∈ table.entries ↔ table.get? name = some value := by
  obtain ⟨entries, increasing⟩ := table
  unfold get?
  simp only
  induction entries with
  | nil => exact ⟨fun absurd => (nomatch absurd), fun absurd => (nomatch absurd)⟩
  | cons first rest ih =>
    obtain ⟨known, old⟩ := first
    obtain ⟨below, tail⟩ := List.pairwise_cons.mp increasing
    rw [List.lookup_cons, List.mem_cons, Prod.mk.injEq]
    by_cases same : name = known
    · subst same
      rw [beq_self_eq_true]
      refine ⟨?_, fun there => .inl ⟨rfl, (Option.some.inj there).symm⟩⟩
      rintro (⟨-, rfl⟩ | later)
      · rfl
      · exact absurd (below _ later) (String.lt_irrefl name)
    · rw [beq_eq_false_iff_ne.mpr same]
      exact ⟨fun there => (ih tail).mp (there.resolve_left fun both => same both.1),
        fun there => .inr ((ih tail).mpr there)⟩

theorem mem_names {table : Table β} {name : String} :
    name ∈ table.names ↔ ∃ value, table.get? name = some value := by
  unfold names
  rw [List.mem_map]
  constructor
  · rintro ⟨⟨_, value⟩, member, rfl⟩
    exact ⟨value, mem_entries.mp member⟩
  · rintro ⟨value, there⟩
    exact ⟨(name, value), mem_entries.mpr there, rfl⟩

/-- A table of some pairs has their names. -/
theorem get?_ofList_ne_none {pairs : List (String × β)} {name : String} :
    (ofList pairs).get? name ≠ none ↔ name ∈ pairs.map Prod.fst := by
  have all : ∀ table : Table β,
      (pairs.foldl (fun table pair => table.insert pair.1 pair.2) table).get? name ≠ none ↔
        name ∈ pairs.map Prod.fst ∨ table.get? name ≠ none := by
    induction pairs with
    | nil => exact fun _ => (or_iff_right List.not_mem_nil).symm
    | cons pair rest ih =>
      intro table
      rw [List.foldl_cons, ih, get?_insert, List.map_cons, List.mem_cons]
      by_cases same : name = pair.1
      · rw [if_pos same]
        exact iff_of_true (.inr fun absurd => nomatch absurd) (.inl (.inl same))
      · rw [if_neg same, or_assoc, or_iff_right same]
  exact (all empty).trans (or_iff_left fun absurd => absurd rfl)

/-- A table has every name once. -/
theorem nodup_names (table : Table β) : table.names.Nodup :=
  List.pairwise_map.mpr (table.increasing.imp fun less => String.ne_of_lt less)

/-- **Tables that give back the same are equal**: there is one order of the names only. -/
theorem eq_of_get? {a b : Table β} (same : ∀ name, a.get? name = b.get? name) : a = b := by
  have distinct : ∀ table : Table β, table.entries.Nodup := fun table =>
    table.increasing.imp fun less equal => String.ne_of_lt less (congrArg Prod.fst equal)
  have perm : a.entries.Perm b.entries := by
    refine (List.perm_ext_iff_of_nodup (distinct a) (distinct b)).mpr ?_
    rintro ⟨name, value⟩
    rw [mem_entries, mem_entries, same]
  have entries := perm.eq_of_pairwise (fun _ _ _ _ less greater =>
    absurd (String.lt_trans less greater) (String.lt_irrefl _)) a.increasing b.increasing
  cases a
  cases b
  cases entries
  rfl

end GridStencil.Name.Table
