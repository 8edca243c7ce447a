/-!
Values by name, kept in the order of the names.

There is at most one value per name, and two tables with the same values are equal.
-/

namespace GridStencil.Name

/-- Pairs of a name and a value with the names strictly increasing. -/
structure Table (β : Type) where
  entries : List (String × β)
  increasing : entries.Pairwise fun a b => a.1 < b.1

namespace Table

variable {β : Type}

/-- The table that holds nothing. -/
def empty : Table β := ⟨[], .nil⟩

instance : Inhabited (Table β) := ⟨empty⟩

/-- The pairs with the value of `name` set to `value`. -/
def put (name : String) (value : β) : List (String × β) → List (String × β)
  | [] => [(name, value)]
  | (other, old) :: rest =>
    if name < other then (name, value) :: (other, old) :: rest
    else if name = other then (name, value) :: rest
    else (other, old) :: put name value rest

theorem mem_put {name : String} {value : β} {pairs : List (String × β)} {pair : String × β}
    (h : pair ∈ put name value pairs) : pair = (name, value) ∨ pair ∈ pairs := by
  induction pairs with
  | nil => simpa [put] using h
  | cons first rest ih =>
    obtain ⟨other, old⟩ := first
    unfold put at h
    split at h
    · simpa using h
    · split at h
      · rcases List.mem_cons.1 h with h | h
        · exact .inl h
        · exact .inr (.tail _ h)
      · rcases List.mem_cons.1 h with h | h
        · exact .inr (by simp [h])
        · exact (ih h).imp_right (.tail _)

theorem put_increasing (name : String) (value : β) {pairs : List (String × β)}
    (h : pairs.Pairwise fun a b => a.1 < b.1) :
    (put name value pairs).Pairwise fun a b => a.1 < b.1 := by
  induction pairs with
  | nil => simp [put]
  | cons first rest ih =>
    obtain ⟨other, old⟩ := first
    obtain ⟨below, tail⟩ := List.pairwise_cons.1 h
    unfold put
    split
    next less =>
      refine List.pairwise_cons.2 ⟨fun pair mem => ?_, h⟩
      rcases List.mem_cons.1 mem with rfl | mem
      · exact less
      · exact String.lt_trans less (below pair mem)
    next notLess =>
      split
      next same => exact List.pairwise_cons.2 ⟨fun pair mem => same ▸ below pair mem, tail⟩
      next different =>
        refine List.pairwise_cons.2 ⟨fun pair mem => ?_, ih tail⟩
        rcases mem_put mem with rfl | mem
        · refine Decidable.byContradiction fun notGreater => different ?_
          exact String.le_antisymm (String.not_lt.1 notGreater) (String.not_lt.1 notLess)
        · exact below pair mem

/-- The table in which `name` has the value `value`. -/
def insert (table : Table β) (name : String) (value : β) : Table β :=
  ⟨put name value table.entries, put_increasing name value table.increasing⟩

/-- The table of some pairs; of two values for one name the later one stays. -/
def ofList (pairs : List (String × β)) : Table β :=
  pairs.foldl (fun table pair => table.insert pair.1 pair.2) empty

/-- The value of `name`. -/
def get? (table : Table β) (name : String) : Option β := table.entries.lookup name

/-- Whether there is no value. -/
def isEmpty (table : Table β) : Bool := table.entries.isEmpty

/-- The names that have a value. -/
def names (table : Table β) : List String := table.entries.map (·.1)

/-- The values of both tables; where both have one, that of the second. -/
def merge (first second : Table β) : Table β :=
  second.entries.foldl (fun table pair => table.insert pair.1 pair.2) first

/-- The values whose names pass a test. -/
def keep (table : Table β) (test : String → Bool) : Table β :=
  ⟨table.entries.filter fun pair => test pair.1, table.increasing.filter _⟩

/-- The pairs in order, each as its name, a mark and the text of its value. -/
def render (mark : String) (text : β → String) (table : Table β) : String :=
  ",".intercalate (table.entries.map fun pair => pair.1 ++ mark ++ text pair.2)

end Table

end GridStencil.Name
