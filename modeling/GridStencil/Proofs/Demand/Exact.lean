import GridStencil.Proofs.Demand.Equations

/-!
**A sweep over statements is exact.**

What is needed before some statements is what is needed behind them and what their live statements
read, no more and no less, and each statement is computed on the horizontal part of the hull of what
is needed right behind it (`Sweep.Exact`). The same holds for the carried reads alone and for their
vertical offsets.

* `Sweep.statements_exact`: every sweep is exact, for all extents that agree with its live
  statements.
-/

namespace GridStencil.Demand

open Program

/-! ### Needs and their bounds -/

/-- What is needed of a field is part of an extent. -/
def Needs.Inside (needs : Needs) (field : String) (bound : Extent) : Prop :=
  bound.Covers (· ∈ needs.get? field)

namespace Needs

variable {needs more : Needs} {field other : String} {extent bound : Extent}

theorem inside_empty (field : String) (bound : Extent) : Needs.Inside .empty field bound :=
  bound.covers_none

theorem inside_add :
    (needs.add other extent).Inside field bound ↔
      needs.Inside field bound ∧ (other = field → extent.Within bound) := by
  unfold Inside add
  rw [Name.Table.get?_insert]
  by_cases same : field = other
  · subst same
    rw [if_pos rfl]
    cases needs.get? field with
    | none =>
      rw [Extent.covers_some]
      exact ⟨fun within => ⟨bound.covers_none, fun _ => within⟩, fun both => both.2 rfl⟩
    | some known =>
      rw [Extent.covers_some, Extent.covers_some, Extent.hull_within_iff]
      exact ⟨fun both => ⟨both.1, fun _ => both.2⟩, fun both => ⟨both.1, both.2 rfl⟩⟩
  · rw [if_neg same]
    exact ⟨fun inside => ⟨inside, fun absurd => (same absurd.symm).elim⟩, And.left⟩

theorem inside_join :
    (needs.join more).Inside field bound ↔ needs.Inside field bound ∧ more.Inside field bound := by
  have fold : ∀ (entries : List (String × Extent)) (start : Needs),
      (entries.foldl (fun needs pair => needs.add pair.1 pair.2) start).Inside field bound ↔
        start.Inside field bound ∧ ∀ e, (field, e) ∈ entries → e.Within bound := by
    intro entries
    induction entries with
    | nil => exact fun start => ⟨fun inside => ⟨inside, fun _ absurd => nomatch absurd⟩, And.left⟩
    | cons first rest ih =>
      intro start
      rw [List.foldl_cons, ih, inside_add, and_assoc]
      refine and_congr_right fun _ => ⟨?_, ?_⟩
      · rintro ⟨here, later⟩ e member
        rcases List.mem_cons.mp member with same | member
        · subst same
          exact here rfl
        · exact later e member
      · intro all
        refine ⟨?_, fun e member => all e (List.mem_cons_of_mem _ member)⟩
        rintro rfl
        exact all _ List.mem_cons_self
  refine (fold more.entries needs).trans (and_congr_right fun _ => ?_)
  exact forall_congr' fun e => imp_congr_left Name.Table.mem_entries

/-- Without growth, what is found is part of what was there. -/
theorem inside_of_growth (settled : needs.growth more = []) (inside : needs.Inside field bound) :
    more.Inside field bound := by
  intro e there
  obtain ⟨whole, known, within⟩ := covered_of_growth settled field e (has_of_get? there)
  exact within.trans (inside whole known)

end Needs

/-! ### Steps of carried reads -/

theorem isSpan_addStep {steps : Name.Table OffsetRange} {field other : String} {dk : Int}
    {offsets : Int → Prop} (span : IsSpan offsets (steps.get? field)) :
    IsSpan (fun k => offsets k ∨ other = field ∧ k = dk) ((addStep steps other dk).get? field) := by
  unfold addStep
  rw [Name.Table.get?_insert]
  by_cases same : field = other
  · subst same
    rw [if_pos rfl]
    cases known : steps.get? field with
    | none =>
      rw [known] at span
      refine ⟨.inr ⟨rfl, rfl⟩, .inr ⟨rfl, rfl⟩, ?_⟩
      rintro k (there | ⟨-, rfl⟩)
      · exact absurd there (span k)
      · exact ⟨Int.le_refl _, Int.le_refl _⟩
    | some range =>
      rw [known] at span
      obtain ⟨low, high, all⟩ := span
      refine ⟨?_, ?_, ?_⟩
      · rcases Int.le_total range.lo dk with le | le
        · exact .inl (by simpa only [OffsetRange.hull, Int.min_eq_left le] using low)
        · exact .inr ⟨rfl, Int.min_eq_right le⟩
      · rcases Int.le_total range.hi dk with le | le
        · exact .inr ⟨rfl, Int.max_eq_right le⟩
        · exact .inl (by simpa only [OffsetRange.hull, Int.max_eq_left le] using high)
      · rintro k (there | ⟨-, rfl⟩)
        · obtain ⟨above, below⟩ := all k there
          simp only [OffsetRange.hull]
          omega
        · simp only [OffsetRange.hull]
          omega
  · rw [if_neg same]
    refine span.congr fun k => ?_
    simp [Ne.symm same]

/-- Ranges that span some offsets add all of these offsets. -/
theorem isSpan_addSteps {steps more : Name.Table OffsetRange} {field : String}
    {offsets others : Int → Prop} (span : IsSpan offsets (steps.get? field))
    (added : IsSpan others (more.get? field)) :
    IsSpan (fun k => offsets k ∨ others k)
      ((more.entries.foldl (fun steps pair =>
        addStep (addStep steps pair.1 pair.2.lo) pair.1 pair.2.hi) steps).get? field) := by
  have fold : ∀ (entries : List (String × OffsetRange)) (start : Name.Table OffsetRange)
      (known : Int → Prop), IsSpan known (start.get? field) →
        IsSpan (fun k => known k ∨ ∃ r, (field, r) ∈ entries ∧ (k = r.lo ∨ k = r.hi))
          ((entries.foldl (fun steps pair =>
            addStep (addStep steps pair.1 pair.2.lo) pair.1 pair.2.hi) start).get? field) := by
    intro entries
    induction entries with
    | nil => exact fun start known here => here.congr fun k => by simp
    | cons first rest ih =>
      intro start known here
      rw [List.foldl_cons]
      refine (ih _ _ (isSpan_addStep (isSpan_addStep here))).congr fun k => ?_
      obtain ⟨name, range⟩ := first
      simp only [List.mem_cons, Prod.mk.injEq]
      constructor
      · rintro (((there | ⟨rfl, rfl⟩) | ⟨rfl, rfl⟩) | ⟨r, member, ends⟩)
        · exact .inl there
        · exact .inr ⟨range, .inl ⟨rfl, rfl⟩, .inl rfl⟩
        · exact .inr ⟨range, .inl ⟨rfl, rfl⟩, .inr rfl⟩
        · exact .inr ⟨r, .inr member, ends⟩
      · rintro (there | ⟨r, ⟨rfl, rfl⟩ | member, ends⟩)
        · exact .inl (.inl (.inl there))
        · rcases ends with rfl | rfl
          · exact .inl (.inl (.inr ⟨rfl, rfl⟩))
          · exact .inl (.inr ⟨rfl, rfl⟩)
        · exact .inr ⟨r, member, ends⟩
  refine (fold more.entries steps offsets span).widen ?_ ?_
  · rintro k (there | ⟨r, member, ends⟩)
    · exact .inl there
    · rw [Name.Table.mem_entries.mp member] at added
      exact .inr (ends.elim (· ▸ added.1) (· ▸ added.2.1))
  · rintro k (there | there)
    · exact ⟨⟨k, .inl there, Int.le_refl _⟩, ⟨k, .inl there, Int.le_refl _⟩⟩
    · cases found : more.get? field with
      | none =>
        rw [found] at added
        exact absurd there (added k)
      | some r =>
        rw [found] at added
        obtain ⟨above, below⟩ := added.2.2 k there
        have member := Name.Table.mem_entries.mpr found
        exact ⟨⟨r.lo, .inr ⟨r, member, .inl rfl⟩, above⟩, ⟨r.hi, .inr ⟨r, member, .inr rfl⟩, below⟩⟩

/-! ### Reads of live statements -/

section Reads

variable (carries : Position → Read → Bool) (compute : Position → Option Extent)
  (statements : List (Position × Statement))

/-- The extents on which live statements read a field. -/
def ReadOn (field : String) : Extent → Prop := fun e => ∃ reader extent read,
  LiveRead compute statements reader extent read ∧ read.field = field ∧
    e = extent.moved (reach (carries reader read) read.offset)

/-- The extents on which carried reads of live statements read a field. -/
def CarriedOn (field : String) : Extent → Prop := fun e => ∃ reader extent read,
  LiveRead compute statements reader extent read ∧ read.field = field ∧
    carries reader read = true ∧ e = extent.moved read.offset.horizontal

/-- The vertical offsets at which carried reads of live statements read a field. -/
def SteppedBy (field : String) : Int → Prop := fun k => ∃ reader extent read,
  LiveRead compute statements reader extent read ∧ read.field = field ∧
    carries reader read = true ∧ k = read.offset.k

end Reads

section Reads

variable {carries : Position → Read → Bool} {compute : Position → Option Extent}
  {position : Position} {statement : Statement} {rest : List (Position × Statement)}
  {field : String} {bound : Extent}

theorem liveRead_cons {reader : Position} {extent : Extent} {read : Read} :
    LiveRead compute ((position, statement) :: rest) reader extent read ↔
      (reader = position ∧ compute position = some extent ∧ read ∈ statement.reads) ∨
        LiveRead compute rest reader extent read := by
  constructor
  · rintro ⟨live, other, member, inside⟩
    rcases List.mem_cons.mp member with here | later
    · cases here
      exact .inl ⟨rfl, live, inside⟩
    · exact .inr ⟨live, other, later, inside⟩
  · rintro (⟨rfl, live, inside⟩ | ⟨live, other, later, inside⟩)
    · exact ⟨live, statement, List.mem_cons_self, inside⟩
    · exact ⟨live, other, List.mem_cons_of_mem _ later, inside⟩

/-- What the reads of a list of statements need is what those of the first and of the others
need. -/
theorem covers_readOn_cons :
    bound.Covers (ReadOn carries compute ((position, statement) :: rest) field) ↔
      bound.Covers (ReadOn carries compute rest field) ∧
        ∀ extent ∈ compute position, ∀ read ∈ statement.reads, read.field = field →
          (extent.moved (reach (carries position read) read.offset)).Within bound := by
  constructor
  · intro covers
    constructor
    · rintro e ⟨reader, extent, read, live, same, rfl⟩
      exact covers _ ⟨reader, extent, read, liveRead_cons.mpr (.inr live), same, rfl⟩
    · intro extent live read inside same
      exact covers _ ⟨position, extent, read, liveRead_cons.mpr (.inl ⟨rfl, live, inside⟩), same, rfl⟩
  · rintro ⟨later, here⟩ e ⟨reader, extent, read, live, same, rfl⟩
    rcases liveRead_cons.mp live with ⟨rfl, live, inside⟩ | live
    · exact here extent live read inside same
    · exact later _ ⟨reader, extent, read, live, same, rfl⟩

theorem covers_carriedOn_cons :
    bound.Covers (CarriedOn carries compute ((position, statement) :: rest) field) ↔
      bound.Covers (CarriedOn carries compute rest field) ∧
        ∀ extent ∈ compute position, ∀ read ∈ statement.reads, read.field = field →
          carries position read = true → (extent.moved read.offset.horizontal).Within bound := by
  constructor
  · intro covers
    constructor
    · rintro e ⟨reader, extent, read, live, same, carried, rfl⟩
      exact covers _ ⟨reader, extent, read, liveRead_cons.mpr (.inr live), same, carried, rfl⟩
    · intro extent live read inside same carried
      exact covers _
        ⟨position, extent, read, liveRead_cons.mpr (.inl ⟨rfl, live, inside⟩), same, carried, rfl⟩
  · rintro ⟨later, here⟩ e ⟨reader, extent, read, live, same, carried, rfl⟩
    rcases liveRead_cons.mp live with ⟨rfl, live, inside⟩ | live
    · exact here extent live read inside same carried
    · exact later _ ⟨reader, extent, read, live, same, carried, rfl⟩

theorem steppedBy_cons {k : Int} :
    SteppedBy carries compute ((position, statement) :: rest) field k ↔
      SteppedBy carries compute rest field k ∨ (compute position).isSome ∧
        ∃ read ∈ statement.reads, read.field = field ∧ carries position read = true ∧
          k = read.offset.k := by
  constructor
  · rintro ⟨reader, extent, read, live, same, carried, rfl⟩
    rcases liveRead_cons.mp live with ⟨rfl, live, inside⟩ | live
    · exact .inr ⟨by rw [live]; rfl, read, inside, same, carried, rfl⟩
    · exact .inl ⟨reader, extent, read, live, same, carried, rfl⟩
  · rintro (⟨reader, extent, read, live, same, carried, rfl⟩ | ⟨live, read, inside, same, carried, rfl⟩)
    · exact ⟨reader, extent, read, liveRead_cons.mpr (.inr live), same, carried, rfl⟩
    · obtain ⟨extent, live⟩ := Option.isSome_iff_exists.mp live
      exact ⟨position, extent, read, liveRead_cons.mpr (.inl ⟨rfl, live, inside⟩), same, carried, rfl⟩

/-- A carried read is a read. -/
theorem covers_carriedOn {statements : List (Position × Statement)}
    (covers : bound.Covers (ReadOn carries compute statements field)) :
    bound.Covers (CarriedOn carries compute statements field) := by
  rintro e ⟨reader, extent, read, live, same, carried, rfl⟩
  refine covers _ ⟨reader, extent, read, live, same, ?_⟩
  rw [carried]
  rfl

end Reads

/-! ### Exact sweeps -/

namespace Sweep

variable {writes : List String} {policy : Policy}

/-- **What one more read does to a sweep, exactly.** -/
theorem read_exact {extent : Extent} {sweep after : Sweep} {read : Read}
    (done : sweep.read writes policy extent read = .ok after) (field : String) :
    (∀ bound, after.needs.Inside field bound ↔ sweep.needs.Inside field bound ∧
      (read.field = field →
        (extent.moved (reach (read.isCarried writes policy) read.offset)).Within bound)) ∧
    (∀ bound, after.carried.Inside field bound ↔ sweep.carried.Inside field bound ∧
      (read.field = field → read.isCarried writes policy = true →
        (extent.moved read.offset.horizontal).Within bound)) ∧
    ∀ offsets, IsSpan offsets (sweep.steps.get? field) →
      IsSpan (fun k => offsets k ∨ read.field = field ∧ read.isCarried writes policy = true ∧
        k = read.offset.k) (after.steps.get? field) := by
  have shifted : ∀ {offset reached}, Demand.moved extent read.field offset = .ok reached →
      reached = extent.moved offset := by
    intro offset reached found
    unfold Demand.moved at found
    split at found
    next shift =>
      rw [← Except.ok.inj found]
      exact Extent.shift?_eq_some shift
    · cases found
  unfold Sweep.read at done
  unfold reach
  split at done
  next carried =>
    obtain ⟨reached, found, same⟩ := Steps.bind_eq_ok.mp done
    rw [← Except.ok.inj same, shifted found]
    simp only [carried, if_true, forall_const, true_and]
    exact ⟨fun bound => Needs.inside_add, fun bound => Needs.inside_add,
      fun offsets span => isSpan_addStep span⟩
  next own =>
    obtain ⟨reached, found, same⟩ := Steps.bind_eq_ok.mp done
    rw [← Except.ok.inj same, shifted found]
    simp only [Bool.not_eq_true] at own
    simp only [own, Bool.false_eq_true, if_false, IsEmpty.forall_iff, implies_true, and_true,
      false_and, and_false, or_false]
    exact ⟨fun bound => Needs.inside_add, trivial, fun _ span => span⟩

/-- What all reads of a statement do to a sweep. -/
theorem reads_exact {extent : Extent} {reads : List Read} {sweep after : Sweep}
    (done : reads.foldlM (Sweep.read writes policy extent) sweep = .ok after) (field : String) :
    (∀ bound, after.needs.Inside field bound ↔ sweep.needs.Inside field bound ∧
      ∀ read ∈ reads, read.field = field →
        (extent.moved (reach (read.isCarried writes policy) read.offset)).Within bound) ∧
    (∀ bound, after.carried.Inside field bound ↔ sweep.carried.Inside field bound ∧
      ∀ read ∈ reads, read.field = field → read.isCarried writes policy = true →
        (extent.moved read.offset.horizontal).Within bound) ∧
    ∀ offsets, IsSpan offsets (sweep.steps.get? field) →
      IsSpan (fun k => offsets k ∨ ∃ read ∈ reads, read.field = field ∧
        read.isCarried writes policy = true ∧ k = read.offset.k) (after.steps.get? field) := by
  induction reads generalizing sweep with
  | nil =>
    cases done
    simp
  | cons read rest ih =>
    rw [List.foldlM_cons] at done
    obtain ⟨middle, here, more⟩ := Steps.bind_eq_ok.mp done
    obtain ⟨needs, carried, steps⟩ := read_exact here field
    obtain ⟨needs', carried', steps'⟩ := ih more
    refine ⟨fun bound => ?_, fun bound => ?_, fun offsets span => ?_⟩
    · rw [needs', needs, List.forall_mem_cons, and_assoc]
    · rw [carried', carried, List.forall_mem_cons, and_assoc]
    · refine (steps' _ (steps offsets span)).congr fun k => ?_
      rw [List.exists_mem_cons_iff, or_assoc]

/-- A sweep found exactly what the statements before its start demand, where `compute` gives the
extents on which they are computed. -/
structure Exact (carries : Position → Read → Bool) (compute : Position → Option Extent)
    (statements : List (Position × Statement)) (start after : Sweep) : Prop where
  needs : ∀ field bound, after.needs.Inside field bound ↔
    start.needs.Inside field bound ∧ bound.Covers (ReadOn carries compute statements field)
  carried : ∀ field bound, after.carried.Inside field bound ↔
    start.carried.Inside field bound ∧ bound.Covers (CarriedOn carries compute statements field)
  steps : ∀ field offsets, IsSpan offsets (start.steps.get? field) →
    IsSpan (fun k => offsets k ∨ SteppedBy carries compute statements field k)
      (after.steps.get? field)
  computed : ∀ position statement rest, (position, statement) :: rest <:+ statements →
    ∃ needed, compute position = needed.map Extent.horizontal ∧
      IsHull (fun e => e ∈ start.needs.get? statement.target ∨
        ReadOn carries compute rest statement.target e) needed

section Exact

variable {carries : Position → Read → Bool} {compute : Position → Option Extent}
  {start behind sweep : Sweep} {position : Position} {statement : Statement}
  {rest : List (Position × Statement)}

theorem exact_nil : Exact carries compute [] start start := by
  have noRead : ∀ {reader extent read}, ¬ LiveRead compute [] reader extent read := by
    rintro _ _ _ ⟨-, _, absurd, -⟩
    cases absurd
  constructor
  · refine fun field bound => ⟨fun inside => ⟨inside, ?_⟩, And.left⟩
    rintro _ ⟨_, _, _, absurd, -⟩
    exact (noRead absurd).elim
  · refine fun field bound => ⟨fun inside => ⟨inside, ?_⟩, And.left⟩
    rintro _ ⟨_, _, _, absurd, -⟩
    exact (noRead absurd).elim
  · refine fun field offsets span => span.congr fun k => ⟨.inl, ?_⟩
    rintro (there | ⟨_, _, _, absurd, -⟩)
    · exact there
    · exact (noRead absurd).elim
  · intro _ _ _ suffix
    cases List.suffix_nil.mp suffix

/-- What is needed right behind a statement is the hull of what its computation depends on. -/
theorem Exact.isHull_needs (exact : Exact carries compute rest start behind) (field : String) :
    IsHull (fun e => e ∈ start.needs.get? field ∨ ReadOn carries compute rest field e)
      (behind.needs.get? field) := by
  rw [IsHull.covers_iff]
  intro bound
  exact (exact.needs field bound).trans Extent.covers_or.symm

/-- One more statement, computed on the horizontal part of what is needed behind it. -/
theorem exact_cons (exact : Exact carries compute rest start behind)
    (same : ∀ read : Read, carries position read = read.isCarried writes policy)
    (known : compute position = (behind.needs.get? statement.target).map Extent.horizontal)
    (done : behind.statement writes policy position statement = .ok sweep) :
    Exact carries compute ((position, statement) :: rest) start sweep := by
  have computed : ∀ position' statement' rest',
      (position', statement') :: rest' <:+ (position, statement) :: rest →
      ∃ needed, compute position' = needed.map Extent.horizontal ∧
        IsHull (fun e => e ∈ start.needs.get? statement'.target ∨
          ReadOn carries compute rest' statement'.target e) needed := by
    intro position' statement' rest' suffix
    rcases List.suffix_cons_iff.mp suffix with here | later
    · cases here
      exact ⟨_, known, exact.isHull_needs statement.target⟩
    · exact exact.computed position' statement' rest' later
  unfold Sweep.statement at done
  cases needed : behind.needs.get? statement.target with
  | none =>
    rw [needed] at done known
    cases done
    have dead : ∀ extent, extent ∉ compute position := fun extent live => by
      rw [known] at live
      cases live
    refine ⟨fun field bound => ?_, fun field bound => ?_, fun field offsets span => ?_, computed⟩
    · rw [exact.needs, covers_readOn_cons]
      simp only [dead, IsEmpty.forall_iff, implies_true, and_true]
    · rw [exact.carried, covers_carriedOn_cons]
      simp only [dead, IsEmpty.forall_iff, implies_true, and_true]
    · refine (exact.steps field offsets span).congr fun k => ?_
      rw [steppedBy_cons, known]
      simp
  | some whole =>
    rw [needed] at done known
    have live : ∀ extent, extent ∈ compute position ↔ extent = whole.horizontal := fun extent => by
      rw [known]
      exact ⟨fun there => (Option.some.inj there).symm, fun same => same ▸ rfl⟩
    have reads := reads_exact (Steps.mapError_eq_ok.mp done)
    refine ⟨fun field bound => ?_, fun field bound => ?_, fun field offsets span => ?_, computed⟩
    · rw [(reads field).1, covers_readOn_cons, ← and_assoc]
      simp only [exact.needs, live, forall_eq, same]
    · rw [(reads field).2.1, covers_carriedOn_cons, ← and_assoc]
      simp only [exact.carried, live, forall_eq, same]
    · refine ((reads field).2.2 _ (exact.steps field offsets span)).congr fun k => ?_
      rw [steppedBy_cons, known, or_assoc]
      simp [same]

end Exact

/-- A statement enters the live ones on the horizontal part of what is needed behind it. -/
theorem live_statement {behind sweep : Sweep} {position : Position} {statement : Statement}
    (done : behind.statement writes policy position statement = .ok sweep) :
    sweep.live = ((behind.needs.get? statement.target).map fun needed =>
      (position, needed.horizontal)).toList ++ behind.live := by
  rcases statement_eq_ok done with ⟨unneeded, rfl⟩ | ⟨needed, found, added, -⟩
  · rw [unneeded]
    rfl
  · rw [found, added]
    rfl

/-- **A sweep over statements is exact**, for all extents that agree with its live statements. -/
theorem statements_exact {carries : Position → Read → Bool} {start sweep : Sweep}
    {statements : List (Position × Statement)} (distinct : (statements.map Prod.fst).Nodup)
    (same : ∀ position ∈ statements.map Prod.fst, ∀ read : Read,
      carries position read = read.isCarried writes policy)
    (done : start.statements writes policy statements = .ok sweep) :
    ∃ live, sweep.live = live ++ start.live ∧
      (∀ pair ∈ live, pair.1 ∈ statements.map Prod.fst) ∧
      ∀ compute : Position → Option Extent,
        (∀ position ∈ statements.map Prod.fst, compute position = live.lookup position) →
        Exact carries compute statements start sweep := by
  induction statements generalizing sweep with
  | nil =>
    cases done
    exact ⟨[], rfl, fun _ absurd => (nomatch absurd), fun compute _ => exact_nil⟩
  | cons first rest ih =>
    obtain ⟨position, statement⟩ := first
    rw [List.map_cons, List.nodup_cons] at distinct
    rw [List.map_cons, List.forall_mem_cons] at same
    obtain ⟨behind, doneRest, doneHere⟩ := Steps.bind_eq_ok.mp done
    obtain ⟨live, split, inside, exact⟩ := ih distinct.2 same.2 doneRest
    refine ⟨((behind.needs.get? statement.target).map fun needed =>
      (position, needed.horizontal)).toList ++ live, ?_, ?_, fun compute agrees => ?_⟩
    · rw [live_statement doneHere, split, List.append_assoc]
    · intro pair there
      rcases List.mem_append.mp there with here | later
      · obtain ⟨needed, -, rfl⟩ := Option.map_eq_some_iff.mp (Option.mem_toList.mp here)
        exact List.mem_cons_self
      · exact List.mem_cons_of_mem _ (inside pair later)
    · rw [List.map_cons, List.forall_mem_cons] at agrees
      refine exact_cons (exact compute fun other member => ?_) same.1 ?_ doneHere
      · rw [agrees.2 other member]
        cases behind.needs.get? statement.target with
        | none => rfl
        | some needed =>
          have different : other ≠ position := by
            rintro rfl
            exact distinct.1 member
          simp [List.lookup_cons, beq_eq_false_iff_ne.mpr different]
      · rw [agrees.1]
        cases behind.needs.get? statement.target with
        | none => exact lookup_none inside distinct.1
        | some needed => simp

end Sweep

end GridStencil.Demand
