import GridStencil.Proofs.Name.Fresh
import Mathlib.Order.Bounds.Defs

/-!
**Names that a supply hands out over a whole history.**

A supply is asked for names, and told names that it must not hand out, in any order. The names that
it knows are the ones of `Known`: those it started with, those it was told and those it handed out
itself, under whatever stem. The names of a stem with smaller counters than its next one are all
known (`all_known_below`), so the next counter is at most the number of known names, and the search
from there ends.

* `search_nextCount`: the search for a free counter, which is not bounded in advance, ends.
* `next_exact`: what a supply hands out after any history.
-/

namespace GridStencil.Name.Fresh

/-- What a supply is asked to do. -/
inductive Request
  /-- Never hand out these names. -/
  | avoid (names : List String)
  /-- Hand out a name with this stem. -/
  | draw (stem : String)

/-- The supply after a request. -/
def serve (fresh : Fresh) : Request → Fresh
  | .avoid names => names.foldl avoid fresh
  | .draw stem => (fresh.next stem).2

/-- The supply that avoids `names` from the start, after some requests. -/
def after (names : List String) (history : List Request) : Fresh :=
  history.foldl serve (avoiding names)

/-- The names that were handed out, with their stems. -/
def drawn (fresh : Fresh) : List Request → List (String × String)
  | [] => []
  | .avoid names :: rest => drawn (fresh.serve (.avoid names)) rest
  | .draw stem :: rest => (stem, (fresh.next stem).1) :: drawn (fresh.serve (.draw stem)) rest

/-- The names that the supply was told. -/
def told (history : List Request) : List String :=
  history.flatMap fun
    | .avoid names => names
    | .draw _ => []

/-- The names that must not be handed out after some requests. -/
def known (names : List String) (history : List Request) : List String :=
  names ++ told history ++ (drawn (avoiding names) history).map Prod.snd

/-- The search for a free counter from one on: a counter whose name is free ends it, any other leads
on to the next one. -/
inductive Search (taken : List String) (stem : String) : Nat → Nat → Prop
  | free {count : Nat} (free : numbered stem count ∉ taken) : Search taken stem count count
  | used {count found : Nat} (used : numbered stem count ∈ taken)
      (rest : Search taken stem (count + 1) found) : Search taken stem count found

/-! ### The search -/

section Searched

variable {taken : List String} {stem : String} {count found : Nat}

/-- A search finds the first free counter. -/
theorem Search.least (search : Search taken stem count found) :
    IsLeast {n | count ≤ n ∧ numbered stem n ∉ taken} found := by
  induction search with
  | free free => exact ⟨⟨Nat.le_refl _, free⟩, fun n candidate => candidate.1⟩
  | used used rest ih =>
    obtain ⟨⟨later, free⟩, least⟩ := ih
    refine ⟨⟨Nat.le_of_succ_le later, free⟩, fun n ⟨above, isFree⟩ => least ⟨?_, isFree⟩⟩
    exact Nat.lt_of_le_of_ne above fun same => isFree (same ▸ used)

theorem Search.congr {taken' : List String} (same : ∀ name, name ∈ taken ↔ name ∈ taken')
    (search : Search taken stem count found) : Search taken' stem count found := by
  induction search with
  | free free => exact .free fun used => free ((same _).mpr used)
  | used used rest ih => exact .used ((same _).mp used) ih

/-- A bounded search that ends at a free name is a search. -/
theorem search_firstFree {room : Nat}
    (free : numbered stem (firstFree taken stem room count) ∉ taken) :
    Search taken stem count (firstFree taken stem room count) := by
  induction room generalizing count with
  | zero => exact .free free
  | succ room ih =>
    unfold firstFree at free ⊢
    split at free
    next used =>
      rw [if_pos used]
      exact .used (List.contains_iff_mem.mp used) (ih free)
    next isFree =>
      rw [if_neg isFree]
      exact .free fun used => isFree (List.contains_iff_mem.mpr used)

/-- **The search of a supply ends**, though nothing bounds it in advance. -/
theorem search_nextCount (fresh : Fresh) (stem : String) :
    Search fresh.taken stem (fresh.counter stem) (fresh.nextCount stem) :=
  search_firstFree (next_not_mem fresh stem)

end Searched

/-! ### One request -/

theorem lookup_filter_ne {pairs : List (String × Nat)} {stem other : String}
    (different : other ≠ stem) :
    (pairs.filter (·.1 != stem)).lookup other = pairs.lookup other := by
  induction pairs with
  | nil => rfl
  | cons pair rest ih =>
    by_cases same : pair.1 = stem
    · rw [List.filter_cons_of_neg (by simp [same]), ih, List.lookup_cons,
        beq_eq_false_iff_ne.mpr (same ▸ different)]
    · rw [List.filter_cons_of_pos (by simp [same]), List.lookup_cons, List.lookup_cons, ih]

/-- A draw moves the counter of its stem behind the one that was found, and no other. -/
theorem counter_next (fresh : Fresh) (stem other : String) :
    (fresh.next stem).2.counter other =
      if other = stem then fresh.nextCount stem + 1 else fresh.counter other := by
  unfold counter next
  rw [List.lookup_cons]
  by_cases same : other = stem
  · rw [if_pos same, beq_iff_eq.mpr same]
    rfl
  · rw [if_neg same, beq_eq_false_iff_ne.mpr same, lookup_filter_ne same]

theorem mem_taken_avoid {fresh : Fresh} {names : List String} {name : String} :
    name ∈ (names.foldl avoid fresh).taken ↔ name ∈ fresh.taken ∨ name ∈ names := by
  induction names generalizing fresh with
  | nil => exact (or_iff_left List.not_mem_nil).symm
  | cons first rest ih =>
    rw [List.foldl_cons, ih, avoid, List.mem_cons, List.mem_cons, or_comm (a := name = first),
      or_assoc]

theorem counter_avoid (fresh : Fresh) (names : List String) (stem : String) :
    (names.foldl avoid fresh).counter stem = fresh.counter stem := by
  induction names generalizing fresh with
  | nil => rfl
  | cons first rest ih => exact ih (fresh.avoid first)

/-- No request moves a counter back. -/
theorem counter_le_serve (fresh : Fresh) (request : Request) (stem : String) :
    fresh.counter stem ≤ (fresh.serve request).counter stem := by
  cases request with
  | avoid names => exact Nat.le_of_eq (counter_avoid fresh names stem).symm
  | draw other =>
    rw [serve, counter_next]
    split
    next same =>
      rw [same]
      exact Nat.le_succ_of_le (search_nextCount fresh other).least.1.1
    next different => exact Nat.le_refl _

/-- All counters of a stem below its next one belong to names in use. -/
def Compact (fresh : Fresh) : Prop :=
  ∀ stem count, count < fresh.counter stem → numbered stem count ∈ fresh.taken

theorem Compact.serve {fresh : Fresh} (compact : fresh.Compact) (request : Request) :
    (fresh.serve request).Compact := by
  intro stem count below
  cases request with
  | avoid names =>
    rw [Fresh.serve, counter_avoid] at below
    exact mem_taken_avoid.mpr (.inl (compact stem count below))
  | draw other =>
    rw [Fresh.serve, counter_next] at below
    show numbered stem count ∈ numbered other (fresh.nextCount other) :: fresh.taken
    split at below
    next same =>
      subst same
      rcases Nat.lt_succ_iff_lt_or_eq.mp below with earlier | rfl
      · refine List.mem_cons_of_mem _ (Classical.byContradiction fun free => ?_)
        have least := (search_nextCount fresh stem).least.2
        rcases Nat.lt_or_ge count (fresh.counter stem) with past | later
        · exact free (compact stem count past)
        · exact absurd (least ⟨later, free⟩) (Nat.not_le.mpr earlier)
      · exact List.mem_cons_self
    next different => exact List.mem_cons_of_mem _ (compact stem count below)

/-! ### A history of requests -/

section History

variable {fresh : Fresh} {history : List Request}

theorem mem_taken_foldl {name : String} :
    name ∈ (history.foldl serve fresh).taken ↔
      name ∈ fresh.taken ∨ name ∈ told history ∨ name ∈ (drawn fresh history).map Prod.snd := by
  induction history generalizing fresh with
  | nil => simp [told, drawn]
  | cons request rest ih =>
    rw [List.foldl_cons, ih]
    cases request with
    | avoid names =>
      have first : name ∈ (fresh.serve (.avoid names)).taken ↔ name ∈ fresh.taken ∨ name ∈ names :=
        mem_taken_avoid
      have second : told (.avoid names :: rest) = names ++ told rest := List.flatMap_cons
      rw [first, second, drawn, List.mem_append, or_assoc, or_assoc]
    | draw stem =>
      have first : name ∈ (fresh.serve (.draw stem)).taken ↔
          name = (fresh.next stem).1 ∨ name ∈ fresh.taken := List.mem_cons
      have second : told (.draw stem :: rest) = told rest := List.flatMap_cons
      rw [first, second, drawn, List.map_cons, List.mem_cons]
      simp only [or_assoc, or_left_comm]

theorem compact_foldl (compact : fresh.Compact) : (history.foldl serve fresh).Compact := by
  induction history generalizing fresh with
  | nil => exact compact
  | cons request rest ih => exact ih (compact.serve request)

theorem counter_le_foldl (fresh : Fresh) (history : List Request) (stem : String) :
    fresh.counter stem ≤ (history.foldl serve fresh).counter stem := by
  induction history generalizing fresh with
  | nil => exact Nat.le_refl _
  | cons request rest ih => exact Nat.le_trans (counter_le_serve fresh request stem) (ih _)

/-- A name that was handed out has a counter below the next one of its stem. -/
theorem lt_counter_of_drawn {stem : String} {count : Nat}
    (member : (stem, numbered stem count) ∈ drawn fresh history) :
    count < (history.foldl serve fresh).counter stem := by
  induction history generalizing fresh with
  | nil => cases member
  | cons request rest ih =>
    cases request with
    | avoid names => exact ih member
    | draw other =>
      rcases List.mem_cons.mp member with here | later
      · obtain ⟨rfl, name⟩ := Prod.mk.inj here
        obtain rfl : count = fresh.nextCount stem := numbered_injective stem name
        have moved := counter_next fresh stem stem
        rw [if_pos rfl] at moved
        refine Nat.lt_of_lt_of_le ?_ (counter_le_foldl (fresh.serve (.draw stem)) rest stem)
        show fresh.nextCount stem < (fresh.next stem).2.counter stem
        rw [moved]
        exact Nat.lt_succ_self _
      · exact ih later

end History

theorem mem_taken_after {names : List String} {history : List Request} {name : String} :
    name ∈ (after names history).taken ↔ name ∈ known names history := by
  unfold after known
  rw [mem_taken_foldl, List.mem_append, List.mem_append, or_assoc]
  rfl

theorem compact_after (names : List String) (history : List Request) :
    (after names history).Compact :=
  compact_foldl fun _ _ below => absurd below (Nat.not_lt_zero _)

/-- As many different counters as are in use need as many names. -/
theorem le_length_of_all_mem {names : List String} (stem : String) {count : Nat}
    (all : ∀ m < count, numbered stem m ∈ names) : count ≤ names.length := by
  have distinct : ((List.range count).map (numbered stem)).Nodup :=
    List.nodup_range.map fun m n same => numbered_injective stem same
  have inside : (List.range count).map (numbered stem) ⊆ names := by
    intro name member
    obtain ⟨m, below, rfl⟩ := List.mem_map.mp member
    exact all m (List.mem_range.mp below)
  have length := (distinct.subperm inside).length_le
  rwa [List.length_map, List.length_range] at length

/-- **What a supply hands out after any history of requests.** The search for a name ends. The name
is the stem with a counter, and nobody knows it yet: not those who made the supply or told it names,
and it has not been handed out, whatever the stem was. The counter is the least one whose name is
free, and larger than all counters handed out with this stem; the next search starts behind it. A
supply never counts further than it knows names. -/
theorem next_exact (names : List String) (history : List Request) (stem : String) :
    let fresh := after names history
    ∃ count,
      Search (known names history) stem (fresh.counter stem) count ∧
      (fresh.next stem).1 = stem ++ toString count ∧
      (fresh.next stem).1 ∉ known names history ∧
      IsLeast {n | fresh.counter stem ≤ n ∧ stem ++ toString n ∉ known names history} count ∧
      IsLeast {n | stem ++ toString n ∉ known names history} count ∧
      (∀ earlier, (stem, stem ++ toString earlier) ∈ drawn (avoiding names) history →
        earlier < fresh.counter stem ∧ earlier < count) ∧
      (∀ other, (fresh.next stem).2.counter other =
        if other = stem then count + 1 else fresh.counter other) ∧
      count ≤ (known names history).length := by
  intro fresh
  have search : Search (known names history) stem (fresh.counter stem) (fresh.nextCount stem) :=
    (search_nextCount fresh stem).congr fun _ => mem_taken_after
  have least := search.least
  have below : ∀ m < fresh.counter stem, numbered stem m ∈ known names history :=
    fun m past => mem_taken_after.mp (compact_after names history stem m past)
  have leastOfAll : IsLeast {n | numbered stem n ∉ known names history} (fresh.nextCount stem) := by
    refine ⟨least.1.2, fun n free => least.2 ⟨?_, free⟩⟩
    exact Nat.not_lt.mp fun past => free (below n past)
  have ordered : ∀ earlier, (stem, numbered stem earlier) ∈ drawn (avoiding names) history →
      earlier < fresh.counter stem := fun earlier member => lt_counter_of_drawn member
  refine ⟨fresh.nextCount stem, search, rfl, least.1.2, least, leastOfAll, ?_,
    counter_next fresh stem, le_length_of_all_mem stem fun m past => ?_⟩
  · exact fun earlier member =>
      ⟨ordered earlier member, Nat.lt_of_lt_of_le (ordered earlier member) least.1.1⟩
  · exact Classical.byContradiction fun free => absurd (leastOfAll.2 free) (Nat.not_le.mpr past)

end GridStencil.Name.Fresh
