import GridStencil.Proofs.Reference
import Mathlib.Data.List.Chain
import Mathlib.Order.Bounds.Basic

/-!
**The check of intervals is exact.**

Bounds are compared here by their heights in a domain of any number of planes, also one that 64 bits
cannot hold. A threshold is the number of planes from which on a relation between heights holds, or
there is none because the relation fails in every large domain, or one bound is measured from the
bottom, the other from the top, and the number does not fit (`AxisBound.FarApart`). So a block
without faults is arranged as it should be in all domains with enough planes, and a block that is
so arranged in all large domains has no fault but bounds that are far apart.

The number of planes is the least one with this property. One plane below a threshold between two
sections, the lower one reaches exactly one plane into the upper one. The sections could then be
apart only the other way round, but neither of them is empty.

A bound that is measured from the top may alone need more planes than 64 bits with a sign can count;
this is no fault (`Check.deep_top_clean`).

* `Check.intervals_exact`: which blocks have faults and which, the least number of planes, and the
  order in which a schedule then visits the planes.
-/

namespace GridStencil

open Program

/-- A sum that does not fit is detected. -/
theorem Number.addChecked_eq_none {a b : Int} (large : ¬ InRange (a + b)) :
    addChecked a b = none := if_neg large

namespace AxisBound

/-- The plane of a bound in a domain of any number of planes. -/
def height (bound : AxisBound) (planes : Nat) : Int :=
  match bound.level with
  | .bottom => bound.offset
  | .top => planes + bound.offset

/-- A bound as source text can give it: its offset fits into 64 bits and faces inwards. -/
structure Normal (bound : AxisBound) : Prop where
  inRange : Number.InRange bound.offset
  inward : bound.Inward

instance (bound : AxisBound) : Decidable bound.Inward :=
  match bound with
  | ⟨.bottom, offset⟩ => inferInstanceAs (Decidable (0 ≤ offset))
  | ⟨.top, offset⟩ => inferInstanceAs (Decidable (offset ≤ 0))

instance (bound : AxisBound) : Decidable bound.Normal :=
  decidable_of_iff (Number.InRange bound.offset ∧ bound.Inward)
    ⟨fun both => ⟨both.1, both.2⟩, fun normal => ⟨normal.inRange, normal.inward⟩⟩

/-- `lower` is measured from the bottom, `upper` from the top, and the number of planes from which
on the second is at least `gap` above the first does not fit into 64 bits with a sign. -/
def FarApart (gap : Int) (lower upper : AxisBound) : Prop :=
  lower.level = .bottom ∧ upper.level = .top ∧
    Number.int64Bound ≤ lower.offset - upper.offset + gap

/-- How far apart bounds have to be. -/
def gap (strict : Bool) : Int := if strict then 1 else 0

variable {bound lower upper : AxisBound} {strict : Bool} {least planes : Nat}

/-- A bound lies in all domains with enough planes and in no other. -/
theorem minPlanes_le_iff (inward : bound.Inward) (planes : Nat) :
    bound.minPlanes ≤ planes ↔ 0 ≤ bound.height planes ∧ bound.height planes ≤ planes := by
  obtain ⟨level, offset⟩ := bound
  cases level with
  | bottom =>
    simp only [Inward, minPlanes, height] at inward ⊢
    omega
  | top =>
    simp only [Inward, minPlanes, height] at inward ⊢
    omega

theorem minPlanes_small (normal : bound.Normal) : (bound.minPlanes : Int) ≤ Number.int64Bound := by
  obtain ⟨⟨atLeast, below⟩, -⟩ := normal
  unfold minPlanes
  split <;> omega

/-- From which number of planes on one bound is at least `gap` above another, by the ends of the axis
that they are measured from. -/
def apart (gap : Int) (lower upper : AxisBound) : Threshold :=
  match lower.level, upper.level with
  | .bottom, .bottom | .top, .top => if lower.offset + gap ≤ upper.offset then .since 0 else .never
  | .bottom, .top =>
    if Number.int64Bound ≤ lower.offset - upper.offset + gap then .tooFarApart lower upper
    else .since (lower.offset - upper.offset + gap).toNat
  | .top, .bottom => .never

/-- **The threshold of two bounds that face inwards.** -/
theorem threshold_eq (inward : lower.Inward) (inward' : upper.Inward) (strict : Bool) :
    lower.threshold upper strict = apart (gap strict) lower upper := by
  obtain ⟨level, offset⟩ := lower
  obtain ⟨level', offset'⟩ := upper
  have sameLevel : (offset < offset' ∨ (strict = false ∧ offset = offset')) ↔
      offset + gap strict ≤ offset' := by
    cases strict with
    | false => simp [gap, Int.le_iff_lt_or_eq]
    | true => simp only [gap, if_true, reduceCtorEq, false_and, or_false, Int.add_one_le_iff]
  cases level with
  | bottom =>
    cases level' with
    | bottom => simp only [threshold, apart, sameLevel]
    | top =>
      have low : 0 ≤ offset := inward
      have high : offset' ≤ 0 := inward'
      have notNegative : 0 ≤ gap strict := by cases strict <;> decide
      simp only [threshold, apart, show (if strict then 1 else 0 : Int) = gap strict from rfl]
      by_cases fits : Number.InRange (offset + -offset')
      · simp only [Number.addChecked_eq_some.mpr ⟨fits, rfl⟩]
        by_cases fits' : Number.InRange (offset + -offset' + gap strict)
        · rw [Number.addChecked_eq_some.mpr ⟨fits', rfl⟩]
          exact (if_neg (Int.not_le.mpr fits'.2)).symm
        · have large : Number.int64Bound ≤ offset - offset' + gap strict := by
            simp only [Number.InRange] at fits fits'
            omega
          rw [Number.addChecked_eq_none fits']
          exact (if_pos large).symm
      · have large : Number.int64Bound ≤ offset - offset' + gap strict := by
          simp only [Number.InRange] at fits
          have positive : 0 < Number.int64Bound := by decide
          omega
        rw [Number.addChecked_eq_none fits]
        exact (if_pos large).symm
  | top =>
    cases level' with
    | bottom => rfl
    | top => simp only [threshold, apart, sameLevel]

/-- A threshold is the number of planes from which on the bounds stand in order. It fits into 64
bits, and the bounds are not far apart. -/
theorem threshold_since (inward : lower.Inward) (inward' : upper.Inward)
    (found : lower.threshold upper strict = .since least) :
    (∀ planes, lower.height planes + gap strict ≤ upper.height planes ↔ least ≤ planes) ∧
      (least : Int) < Number.int64Bound ∧ ¬ FarApart (gap strict) lower upper := by
  rw [threshold_eq inward inward', apart] at found
  obtain ⟨level, offset⟩ := lower
  obtain ⟨level', offset'⟩ := upper
  have positive : 0 < Number.int64Bound := by decide
  cases level <;> cases level' <;> simp only at found
  case bottom.bottom | top.top =>
    split at found
    next order =>
      cases found
      refine ⟨fun planes => iff_of_true ?_ (Nat.zero_le _), positive, fun far => ?_⟩
      · simp only [height]
        omega
      · have first := far.1
        have second := far.2.1
        simp only [reduceCtorEq] at first second
    · cases found
  case bottom.top =>
    split at found
    · cases found
    next near =>
      cases found
      refine ⟨fun planes => ?_, by omega, fun far => near far.2.2⟩
      simp only [height]
      omega
  case top.bottom => cases found

/-- Bounds that stand in order in all large domains have a threshold, unless they are far apart. -/
theorem threshold_of_order (strict : Bool) (inward : lower.Inward) (inward' : upper.Inward)
    {n : Nat}
    (order : ∀ planes, n ≤ planes → lower.height planes + gap strict ≤ upper.height planes) :
    (∃ least, lower.threshold upper strict = .since least) ∨
      (lower.threshold upper strict = .tooFarApart lower upper ∧
        FarApart (gap strict) lower upper) := by
  rw [threshold_eq inward inward', apart]
  obtain ⟨level, offset⟩ := lower
  obtain ⟨level', offset'⟩ := upper
  have here := order n (Nat.le_refl n)
  have later := order (n + (offset' - offset + 1).toNat) (Nat.le_add_right _ _)
  have notNegative : 0 ≤ gap strict := by cases strict <;> decide
  cases level <;> cases level' <;> simp only [height] at here later ⊢
  case bottom.bottom => exact .inl ⟨0, if_pos here⟩
  case top.top => exact .inl ⟨0, if_pos (by omega)⟩
  case bottom.top =>
    split
    next far => exact .inr ⟨rfl, rfl, rfl, far⟩
    · exact .inl ⟨_, rfl⟩
  case top.bottom =>
    -- a height above the bottom is left behind by one that moves with the top
    omega

/-- A bound that is lower in all large domains comes first. -/
theorem below_of_order {n : Nat}
    (order : ∀ planes, n ≤ planes → lower.height planes < upper.height planes) :
    lower.below upper = true := by
  obtain ⟨level, offset⟩ := lower
  obtain ⟨level', offset'⟩ := upper
  have here := order n (Nat.le_refl n)
  have later := order (n + (offset' - offset).toNat) (Nat.le_add_right _ _)
  cases level <;> cases level' <;> simp [below, height] at here later ⊢ <;> omega

/-- A bound that comes first is lower in all large domains. -/
theorem order_of_below (first : upper.below lower = false) :
    ∃ n, ∀ planes, n ≤ planes → lower.height planes ≤ upper.height planes := by
  obtain ⟨level, offset⟩ := lower
  obtain ⟨level', offset'⟩ := upper
  refine ⟨(offset - offset').toNat, fun planes enough => ?_⟩
  cases level <;> cases level' <;> simp [below, height] at first enough ⊢ <;> omega

/-- With one more plane a bound keeps its height or moves up with the top. -/
theorem height_succ (bound : AxisBound) (planes : Nat) :
    bound.height planes ≤ bound.height (planes + 1) ∧
      bound.height (planes + 1) ≤ bound.height planes + 1 := by
  unfold height
  split <;> omega

end AxisBound

namespace Interval

/-- The interval lies in a domain of `planes` planes and is not empty. -/
structure Inside (planes : Nat) (interval : Interval) : Prop where
  above : 0 ≤ interval.start.height planes
  nonempty : interval.start.height planes < interval.stop.height planes
  below : interval.stop.height planes ≤ planes

/-- The first interval ends where the second one starts, or earlier. -/
def Before (planes : Nat) (a b : Interval) : Prop := a.stop.height planes ≤ b.start.height planes

/-- Both bounds of the interval can be given in source text. -/
structure Normal (interval : Interval) : Prop where
  start : interval.start.Normal
  stop : interval.stop.Normal

instance (interval : Interval) : Decidable interval.Normal :=
  decidable_of_iff (interval.start.Normal ∧ interval.stop.Normal)
    ⟨fun both => ⟨both.1, both.2⟩, fun normal => ⟨normal.start, normal.stop⟩⟩

variable {a b interval : Interval} {least planes : Nat}

/-- The bounds of an interval with a threshold have one as well. -/
theorem threshold_eq_since (found : interval.threshold = .since least) :
    ∃ between, interval.start.threshold interval.stop true = .since between ∧
      least = max between (max interval.start.minPlanes interval.stop.minPlanes) := by
  unfold threshold Threshold.atLeast at found
  split at found
  next between known => exact ⟨between, known, (Threshold.since.inj found).symm⟩
  · cases found
  · cases found

/-- The threshold of an interval is the number of planes from which on it lies in the domain. -/
theorem inside_iff_of_inward (inward : interval.start.Inward ∧ interval.stop.Inward)
    (found : interval.threshold = .since least) (planes : Nat) :
    interval.Inside planes ↔ least ≤ planes := by
  obtain ⟨between, known, rfl⟩ := threshold_eq_since found
  have order := (AxisBound.threshold_since inward.1 inward.2 known).1 planes
  have start := AxisBound.minPlanes_le_iff inward.1 planes
  have stop := AxisBound.minPlanes_le_iff inward.2 planes
  rw [Nat.max_le, Nat.max_le, ← order, start, stop]
  simp only [AxisBound.gap, if_true]
  exact ⟨fun ⟨above, nonempty, below⟩ => by omega, fun all => ⟨by omega, by omega, by omega⟩⟩

theorem inside_iff (normal : interval.Normal) (found : interval.threshold = .since least)
    (planes : Nat) : interval.Inside planes ↔ least ≤ planes :=
  inside_iff_of_inward ⟨normal.start.inward, normal.stop.inward⟩ found planes

theorem threshold_small (normal : interval.Normal) (found : interval.threshold = .since least) :
    (least : Int) ≤ Number.int64Bound := by
  obtain ⟨between, known, rfl⟩ := threshold_eq_since found
  have first := (AxisBound.threshold_since normal.start.inward normal.stop.inward known).2.1
  have second := AxisBound.minPlanes_small normal.start
  have third := AxisBound.minPlanes_small normal.stop
  omega

/-- The threshold between two intervals is the number of planes from which on one is before the
other. -/
theorem before_iff (normal : a.Normal) (normal' : b.Normal)
    (found : a.thresholdBefore b = .since least) (planes : Nat) :
    a.Before planes b ↔ least ≤ planes := by
  have order := (AxisBound.threshold_since normal.stop.inward normal'.start.inward found).1 planes
  rw [← order]
  simp only [Before, AxisBound.gap, Bool.false_eq_true, if_false, Int.add_zero]

/-- An interval that is not empty in any large domain has a threshold, unless its bounds are far
apart. -/
theorem threshold_of_nonempty (normal : interval.Normal) {n : Nat}
    (nonempty : ∀ planes, n ≤ planes →
      interval.start.height planes < interval.stop.height planes) :
    (∃ least, interval.threshold = .since least) ∨
      (interval.threshold = .tooFarApart interval.start interval.stop ∧
        interval.start.FarApart 1 interval.stop) := by
  unfold threshold
  rcases AxisBound.threshold_of_order true normal.start.inward normal.stop.inward
    nonempty with ⟨least, known⟩ | ⟨known, far⟩
  · rw [known]
    exact .inl ⟨_, rfl⟩
  · rw [known]
    exact .inr ⟨rfl, far⟩

/-- Intervals that follow each other in all large domains have a threshold, unless the bounds
between them are far apart. -/
theorem thresholdBefore_of_before (normal : a.Normal) (normal' : b.Normal) {n : Nat}
    (before : ∀ planes, n ≤ planes → a.Before planes b) :
    (∃ least, a.thresholdBefore b = .since least) ∨
      (a.thresholdBefore b = .tooFarApart a.stop b.start ∧ a.stop.FarApart 0 b.start) := by
  refine AxisBound.threshold_of_order (n := n) false normal.stop.inward normal'.start.inward
    fun planes enough => ?_
  have order := before planes enough
  unfold Before at order
  simpa only [AxisBound.gap, Bool.false_eq_true, if_false, Int.add_zero] using order

/-- The first of two intervals that follow each other in all large domains comes first. -/
theorem below_of_before {n : Nat}
    (inside : ∀ planes, n ≤ planes → a.Inside planes)
    (before : ∀ planes, n ≤ planes → a.Before planes b) : a.below b = true := by
  refine Interval.below_iff.mpr (.inl (AxisBound.below_of_order (n := n) fun planes enough => ?_))
  exact Int.lt_of_lt_of_le (inside planes enough).nonempty (before planes enough)

/-- Two intervals that do not overlap in any large domain follow each other there in the order of
their positions. -/
theorem before_of_apart {n : Nat} (position : b.below a = false)
    (inside : ∀ planes, n ≤ planes → a.Inside planes ∧ b.Inside planes)
    (apart : ∀ planes, n ≤ planes → a.Before planes b ∨ b.Before planes a) :
    ∃ m, ∀ planes, m ≤ planes → a.Before planes b := by
  have first : b.start.below a.start = false := by
    rw [← Bool.not_eq_true] at position ⊢
    exact fun startBelow => position (Interval.below_iff.mpr (.inl startBelow))
  obtain ⟨m, order⟩ := AxisBound.order_of_below first
  refine ⟨max n m, fun planes enough => ?_⟩
  obtain ⟨enough, enough'⟩ := Nat.max_le.mp enough
  refine (apart planes enough).resolve_right fun before => ?_
  have nonempty := (inside planes enough).2.nonempty
  have start := order planes enough'
  unfold Before at before
  omega

/-- Two intervals that do not overlap from some number of planes on follow each other in the order
of their positions from that number on. -/
theorem least_le_of_apart {n : Nat} (normal : a.Normal) (normal' : b.Normal)
    (found : a.thresholdBefore b = .since least)
    (inside : ∀ planes : Nat, n ≤ planes → (planes : Int) < Number.int64Bound →
      a.Inside planes ∧ b.Inside planes)
    (apart : ∀ planes : Nat, n ≤ planes → (planes : Int) < Number.int64Bound →
      a.Before planes b ∨ b.Before planes a) : least ≤ n := by
  by_contra above
  obtain ⟨planes, rfl⟩ : ∃ planes, least = planes + 1 := ⟨least - 1, by omega⟩
  have fits : (planes : Int) < Number.int64Bound := by
    have := (AxisBound.threshold_since normal.stop.inward normal'.start.inward found).2.1
    omega
  -- one plane below the threshold the intervals overlap by one plane, and neither is empty
  have overlap : ¬ a.Before planes b := by
    rw [before_iff normal normal' found]
    omega
  have touch : a.Before (planes + 1) b := (before_iff normal normal' found _).mpr (Nat.le_refl _)
  have other := (apart planes (by omega) fits).resolve_left overlap
  obtain ⟨insideA, insideB⟩ := inside planes (by omega) fits
  have nonemptyA := insideA.nonempty
  have nonemptyB := insideB.nonempty
  have stop := (a.stop.height_succ planes).1
  have start := (b.start.height_succ planes).2
  unfold Before at touch other
  omega

end Interval

namespace Report

/-- All faults of the report are of a kind. -/
def Blames (kind : Fault → Prop) (report : Report) : Prop := ∀ fault ∈ report.faults, kind fault

variable {kind : Fault → Prop}

theorem blames_joinAll {reports : List Report} (all : ∀ report ∈ reports, report.Blames kind) :
    (joinAll reports).Blames kind := by
  induction reports with
  | nil => exact fun _ absurd => (nomatch absurd)
  | cons first rest ih =>
    obtain ⟨here, more⟩ := List.forall_mem_cons.mp all
    intro fault member
    exact (List.mem_append.mp member).elim (here fault) (ih more fault)

theorem blames_andThen {report next : Report} (here : report.Blames kind)
    (more : next.Blames kind) : (report.andThen next).Blames kind := by
  unfold andThen
  split
  · intro fault member
    exact (List.mem_append.mp member).elim (here fault) (more fault)
  · exact here

end Report

namespace Check

/-- **What the intervals of a block should look like** in a domain of `planes` planes: they lie in
it, none is empty, no two overlap, and those of a sequential block are listed in the order in which
it visits the planes. -/
structure Arranged (planes : Nat) (block : Block) : Prop where
  inside : ∀ part ∈ block.sections, part.interval.Inside planes
  apart : block.sections.Pairwise fun a b =>
    a.interval.Before planes b.interval ∨ b.interval.Before planes a.interval
  forward : block.policy = .forward → block.sections.Pairwise fun a b =>
    a.interval.Before planes b.interval
  backward : block.policy = .backward → block.sections.Pairwise fun a b =>
    b.interval.Before planes a.interval

/-- The block is arranged as it should be in all large domains. -/
def SettlesDown (block : Block) : Prop := ∃ n, ∀ planes, n ≤ planes → Arranged planes block

/-- Two bounds of a block that have to stand in order and are far apart: those of one interval, or
the upper one of an interval and the lower one of another. -/
inductive Stretched (block : Block) : AxisBound → AxisBound → Prop
  | interval {part : Section} (member : part ∈ block.sections)
    (far : part.interval.start.FarApart 1 part.interval.stop) :
    Stretched block part.interval.start part.interval.stop
  | sections {a b : Section} (first : a ∈ block.sections) (second : b ∈ block.sections)
    (far : a.interval.stop.FarApart 0 b.interval.start) :
    Stretched block a.interval.stop b.interval.start

/-- A fault that blames two bounds of a block which are far apart. -/
def BlamesStretch (block : Block) (fault : Fault) : Prop :=
  ∃ lower upper, fault.cause = .boundsTooFarApart lower upper ∧ Stretched block lower upper

section Block

variable {block : Block} {index planes : Nat}

/-- A report without faults arranges a block. -/
theorem arranged_of_allows (normal : ∀ part ∈ block.sections, part.interval.Normal)
    (allows : (checkBlockIntervals block index).Allows planes) : Arranged planes block := by
  obtain ⟨nonEmpty, disjoint, listed⟩ := checkBlockIntervals_allows_iff.mp allows
  have perm : (byPosition block.sections).Perm block.sections := List.mergeSort_perm _ _
  have inside : ∀ part ∈ block.sections, part.interval.Inside planes := by
    intro part member
    obtain ⟨least, found, enough⟩ := nonEmpty part member
    exact (Interval.inside_iff (normal part member) found planes).mpr enough
  have apart := apart_of_steps (fun part => part.interval.start.height planes)
    (fun part => part.interval.stop.height planes)
    (fun part member => (inside part member).nonempty) (disjoint.imp_of_mem_imp ?_)
  · obtain ⟨forward, backward⟩ := follow_of_listed apart listed
    exact ⟨inside, apart.imp fun order => order.imp And.right And.right, forward, backward⟩
  · rintro a b inA inB ⟨least, found, enough⟩
    exact (Interval.before_iff (normal a (perm.mem_iff.mp inA)) (normal b (perm.mem_iff.mp inB))
      found planes).mpr enough

/-- A threshold is blamed only for bounds that are far apart, if there is no other reason. -/
theorem demandThreshold_blames {span : Span} {cause : Cause} {threshold : Threshold}
    (known : (∃ least, threshold = .since least) ∨
      ∃ lower upper, threshold = .tooFarApart lower upper ∧ Stretched block lower upper) :
    (demandThreshold span cause threshold).Blames (BlamesStretch block) := by
  rcases known with ⟨least, rfl⟩ | ⟨lower, upper, rfl, stretched⟩
  · exact fun _ absurd => (nomatch absurd)
  · intro fault member
    rw [List.mem_singleton.mp member]
    exact ⟨lower, upper, rfl, stretched⟩

theorem blames_checkNeighbours {test : Section → Section → Report} {sections : List Section}
    {kind : Fault → Prop} (chain : sections.IsChain fun a b => (test a b).Blames kind) :
    (checkNeighbours test sections).Blames kind := by
  refine Report.blames_joinAll ?_
  induction chain with
  | nil => exact fun _ absurd => (nomatch absurd)
  | singleton => exact fun _ absurd => (nomatch absurd)
  | cons_cons here _ ih => exact List.forall_mem_cons.mpr ⟨here, ih⟩

/-- What holds of all pairs in every one of some domains holds of all pairs in all of them. -/
theorem pairwise_forall {α : Type} (domains : Nat → Prop) {r : Nat → α → α → Prop} {xs : List α}
    (each : ∀ planes, domains planes → xs.Pairwise (r planes)) :
    xs.Pairwise fun a b => ∀ planes, domains planes → r planes a b :=
  List.pairwise_iff_getElem.mpr fun i j below below' order planes inside =>
    List.pairwise_iff_getElem.mp (each planes inside) i j below below' order

/-- Sections by position are apart where the block is arranged. -/
theorem Arranged.byPosition (arranged : Arranged planes block) :
    (byPosition block.sections).Pairwise fun a b =>
      a.interval.Before planes b.interval ∨ b.interval.Before planes a.interval :=
  ((List.mergeSort_perm _ _).pairwise_iff fun apart => apart.symm).mpr arranged.apart

/-- In a block that is arranged in all large domains, the sections in a row follow each other as the
policy asks. -/
theorem listed_of_settlesDown (settles : SettlesDown block) :
    block.sections.IsChain fun a b => visitsFirst block.policy a.interval b.interval = true := by
  obtain ⟨n, arranged⟩ := settles
  have inside : ∀ part ∈ block.sections, ∀ planes, n ≤ planes → part.interval.Inside planes :=
    fun part member planes enough => (arranged planes enough).inside part member
  cases policy : block.policy with
  | parallel => exact (List.pairwise_of_forall fun _ _ => rfl).isChain
  | forward =>
    refine (pairwise_forall (n ≤ ·) fun planes enough =>
      (arranged planes enough).forward policy).isChain.imp_of_mem_imp ?_
    exact fun a b inA _ before => Interval.below_of_before (inside a inA) before
  | backward =>
    refine (pairwise_forall (n ≤ ·) fun planes enough =>
      (arranged planes enough).backward policy).isChain.imp_of_mem_imp ?_
    exact fun a b _ inB before => Interval.below_of_before (inside b inB) before

/-- **A block that is arranged in all large domains** has no fault but bounds that are far apart. -/
theorem blames_of_settlesDown (normal : ∀ part ∈ block.sections, part.interval.Normal)
    (settles : SettlesDown block) :
    (checkBlockIntervals block index).Blames (BlamesStretch block) := by
  have listed := listed_of_settlesDown settles
  obtain ⟨n, arranged⟩ := settles
  have inside : ∀ part ∈ block.sections, ∀ planes, n ≤ planes → part.interval.Inside planes :=
    fun part member planes enough => (arranged planes enough).inside part member
  have perm : (byPosition block.sections).Perm block.sections := List.mergeSort_perm _ _
  refine Report.blames_andThen (Report.blames_andThen (Report.blames_joinAll ?_)
    (blames_checkNeighbours ?_)) (blames_checkNeighbours ?_)
  · intro report made
    obtain ⟨part, member, rfl⟩ := List.mem_map.mp made
    refine demandThreshold_blames ?_
    rcases Interval.threshold_of_nonempty (normal part member)
      fun planes enough => (inside part member planes enough).nonempty with found | ⟨found, far⟩
    · exact .inl found
    · exact .inr ⟨_, _, found, .interval member far⟩
  · have apart := (pairwise_byPosition block.sections).and
      (pairwise_forall (n ≤ ·) fun planes enough => (arranged planes enough).byPosition)
    refine apart.isChain.imp_of_mem_imp fun a b inA inB both => demandThreshold_blames ?_
    obtain ⟨inA, inB⟩ := And.intro (perm.mem_iff.mp inA) (perm.mem_iff.mp inB)
    obtain ⟨m, before⟩ := Interval.before_of_apart both.1
      (fun planes enough => ⟨inside a inA planes enough, inside b inB planes enough⟩) both.2
    rcases Interval.thresholdBefore_of_before (normal a inA) (normal b inB) before with
      found | ⟨found, far⟩
    · exact .inl found
    · exact .inr ⟨_, _, found, .sections inA inB far⟩
  · refine listed.imp fun a b first => ?_
    unfold checkListed
    rw [if_pos first]
    exact fun _ absurd => (nomatch absurd)

/-- **A block without faults has no bounds that are far apart.** All thresholds between bounds fit
into 64 bits, so in the largest domain that fits the sections follow each other by position; then a
bound that is measured from the bottom is below all that are measured from the top. -/
theorem not_stretched_of_clean (normal : ∀ part ∈ block.sections, part.interval.Normal)
    (clean : (checkBlockIntervals block index).faults = []) {lower upper : AxisBound} :
    ¬ Stretched block lower upper := by
  have perm : (byPosition block.sections).Perm block.sections := List.mergeSort_perm _ _
  obtain ⟨nonEmpty, disjoint, -⟩ := checkBlockIntervals_allows_iff.mp
    (⟨clean, Nat.le_refl _⟩ : (checkBlockIntervals block index).Allows _)
  obtain ⟨last, isLast⟩ : ∃ last : Nat, (last : Int) + 1 = Number.int64Bound :=
    ⟨0x7fffffffffffffff, by decide⟩
  have threshold : ∀ part ∈ block.sections, ∃ least,
      part.interval.start.threshold part.interval.stop true = .since least := by
    intro part member
    obtain ⟨least, found, -⟩ := nonEmpty part member
    obtain ⟨between, known, -⟩ := Interval.threshold_eq_since found
    exact ⟨between, known⟩
  have nonempty : ∀ part ∈ block.sections,
      part.interval.start.height last < part.interval.stop.height last := by
    intro part member
    obtain ⟨least, known⟩ := threshold part member
    obtain ⟨order, small, -⟩ := AxisBound.threshold_since (normal part member).start.inward
      (normal part member).stop.inward known
    exact (order last).mpr (by omega)
  have apart := apart_of_steps (fun part => part.interval.start.height last)
    (fun part => part.interval.stop.height last) nonempty
    (disjoint.imp_of_mem_imp fun a b inA inB found => by
      obtain ⟨least, found, -⟩ := found
      obtain ⟨inA, inB⟩ := And.intro (perm.mem_iff.mp inA) (perm.mem_iff.mp inB)
      have small := (AxisBound.threshold_since (normal a inA).stop.inward
        (normal b inB).start.inward found).2.1
      exact (Interval.before_iff (normal a inA) (normal b inB) found last).mpr (by omega))
  rintro (⟨member, far⟩ | ⟨inA, inB, far⟩)
  · obtain ⟨least, known⟩ := threshold _ member
    exact (AxisBound.threshold_since (normal _ member).start.inward
      (normal _ member).stop.inward known).2.2 far
  next a b =>
    obtain ⟨low, high, large⟩ := far
    have lowStart : a.interval.start.level = .bottom := by
      obtain ⟨least, known⟩ := threshold a inA
      by_contra high'
      rw [AxisBound.threshold_eq (normal a inA).start.inward (normal a inA).stop.inward,
        AxisBound.apart] at known
      split at known <;> simp_all
    have first : a.interval.below b.interval = true := by
      refine Interval.below_iff.mpr (.inl ?_)
      unfold AxisBound.below
      rw [lowStart, high]
    have different : a ≠ b := by
      rintro rfl
      rw [lowStart] at high
      cases high
    have symmetric : Std.Symm fun a b : Section =>
        (b.interval.below a.interval = false ∧
          a.interval.stop.height last ≤ b.interval.start.height last) ∨
        (a.interval.below b.interval = false ∧
          b.interval.stop.height last ≤ a.interval.start.height last) := ⟨fun _ _ => Or.symm⟩
    have order := (apart.forall inA inB different).resolve_right fun absurd' => by
      rw [first] at absurd'
      cases absurd'.1
    have touch := order.2
    simp only [AxisBound.height, low, high] at touch
    omega

/-- **Which blocks have no faults.** -/
theorem checkBlockIntervals_clean_iff (normal : ∀ part ∈ block.sections, part.interval.Normal) :
    (checkBlockIntervals block index).faults = [] ↔
      SettlesDown block ∧ ∀ lower upper, ¬ Stretched block lower upper := by
  constructor
  · intro clean
    refine ⟨⟨(checkBlockIntervals block index).planes, fun planes enough => ?_⟩, fun _ _ =>
      not_stretched_of_clean normal clean⟩
    exact arranged_of_allows normal
      (⟨clean, enough⟩ : (checkBlockIntervals block index).Allows planes)
  · rintro ⟨settles, unstretched⟩
    refine List.eq_nil_iff_forall_not_mem.mpr fun fault member => ?_
    obtain ⟨lower, upper, -, stretched⟩ := blames_of_settlesDown normal settles fault member
    exact unstretched lower upper stretched

/-- **The number of planes of a block is the least one** from which on it is arranged. -/
theorem planes_le_of_arranged (normal : ∀ part ∈ block.sections, part.interval.Normal)
    (clean : (checkBlockIntervals block index).faults = []) {n : Nat}
    (arranged : ∀ planes : Nat, n ≤ planes → (planes : Int) < Number.int64Bound →
      Arranged planes block) : (checkBlockIntervals block index).planes ≤ n := by
  have perm : (byPosition block.sections).Perm block.sections := List.mergeSort_perm _ _
  obtain ⟨nonEmpty, disjoint, listed⟩ := checkBlockIntervals_allows_iff.mp
    (⟨clean, Nat.le_refl _⟩ : (checkBlockIntervals block index).Allows _)
  refine (checkBlockIntervals_allows_iff.mpr ⟨fun part member => ?_, ?_, listed⟩ :
    (checkBlockIntervals block index).Allows n).2
  · obtain ⟨least, found, -⟩ := nonEmpty part member
    refine ⟨least, found, ?_⟩
    by_contra above
    have small := Interval.threshold_small (normal part member) found
    have inside := (arranged (least - 1) (by omega) (by omega)).inside part member
    have := (Interval.inside_iff (normal part member) found _).mp inside
    omega
  · have apart := pairwise_forall
      (fun planes : Nat => n ≤ planes ∧ (planes : Int) < Number.int64Bound)
      fun planes inside => (arranged planes inside.1 inside.2).byPosition
    refine List.isChain_iff_getElem.mpr fun i inside => ?_
    obtain ⟨least, found, -⟩ := List.isChain_iff_getElem.mp disjoint i inside
    have inA := perm.mem_iff.mp (List.getElem_mem (Nat.lt_of_succ_lt inside))
    have inB := perm.mem_iff.mp (List.getElem_mem inside)
    have apart := List.isChain_iff_getElem.mp apart.isChain i inside
    refine ⟨least, found, Interval.least_le_of_apart (normal _ inA) (normal _ inB) found
      (fun planes enough fits => ?_) fun planes enough fits => apart planes ⟨enough, fits⟩⟩
    exact ⟨(arranged planes enough fits).inside _ inA, (arranged planes enough fits).inside _ inB⟩

end Block

/-! ### Bounds far below the top -/

/-- A block with one interval, which starts as far below the top as a bound can. -/
def deepBlock : Block :=
  ⟨.forward, [⟨⟨.top (-Number.int64Bound), .top 0⟩, [], ⟨0, 0⟩⟩], ⟨0, 0⟩⟩

/-- **A bound that needs more planes than 64 bits with a sign can count is no fault**, if it is
measured from the top: the block is arranged from two to the power 63 planes on and from no lower
number on, and nothing is reported. -/
theorem deep_top_clean :
    (checkBlockIntervals deepBlock 0).faults = [] ∧
      IsLeast {n : Nat | ∀ planes, n ≤ planes → Arranged planes deepBlock}
        Number.int64Bound.toNat ∧
      ¬ Number.InRange Number.int64Bound := by
  have normal : ∀ part ∈ deepBlock.sections, part.interval.Normal := by decide
  have allows : (checkBlockIntervals deepBlock 0).Allows Number.int64Bound.toNat := by
    refine checkBlockIntervals_allows_iff.mpr ⟨fun part member => ?_, ?_, .singleton _⟩
    · rw [List.mem_singleton.mp member]
      exact ⟨Number.int64Bound.toNat, by decide +kernel, Nat.le_refl _⟩
    · rw [show byPosition deepBlock.sections = deepBlock.sections from
        byPosition_of_pairwise (List.pairwise_singleton _ _)]
      exact .singleton _
  have arranged : ∀ planes, Number.int64Bound.toNat ≤ planes → Arranged planes deepBlock := by
    intro planes enough
    exact arranged_of_allows normal (⟨allows.1, Nat.le_trans allows.2 enough⟩ :
      (checkBlockIntervals deepBlock 0).Allows planes)
  refine ⟨allows.1, ⟨arranged, fun n arranged => ?_⟩, by decide⟩
  have above := ((arranged n (Nat.le_refl n)).inside _ (List.mem_singleton.mpr rfl)).above
  simp only [AxisBound.height, AxisBound.top] at above
  omega

/-! ### Programs and schedules -/

end Check

namespace Schedule

/-- The planes that the sections of a sequential block visit, one after another, each with the
section that runs on it. -/
def visits (policy : Policy) (domain : PerAxis Nat) (sections : List StageSection) :
    List (Int × StageSection) :=
  sections.flatMap fun part =>
    (policy.inOrder (planesOf part.interval domain)).map fun k => (k, part)

/-- All stages of a section on one plane. -/
def planeTasks (domain : PerAxis Nat) (visit : Int × StageSection) : List Task :=
  visit.2.stages.map fun stage =>
    ⟨stage, (Region.grown stage.extent domain (planesOf visit.2.interval domain)).plane visit.1⟩

/-- A sequential block runs plane by plane. -/
theorem blockTasks_eq {policy : Policy} (sequential : policy.isSequential = true)
    (domain : PerAxis Nat) (sections : List StageSection) :
    sections.flatMap (sectionTasks policy domain) =
      (visits policy domain sections).flatMap (planeTasks domain) := by
  unfold visits
  rw [List.flatMap_assoc]
  refine congrArg (List.flatMap · _) (funext fun part => ?_)
  rw [List.flatMap_map]
  unfold sectionTasks planeTasks
  cases policy with
  | parallel => cases sequential
  | forward => simp only [List.map_map, Policy.inOrder, Function.comp_def]
  | backward => simp only [List.map_map, Policy.inOrder, Function.comp_def]

/-- A block of a schedule visits the planes of the block that it was made from. -/
theorem visits_planes {policy : Policy} {domain : PerAxis Nat} {parts : List (Section × Nat)}
    {sections : List StageSection}
    (same : List.Forall₂ (fun part stageSection => stageSection.interval = part.1.interval)
      parts sections) :
    (visits policy domain sections).map Prod.fst =
      (Program.visits policy domain parts).map Prod.fst := by
  induction same with
  | nil => rfl
  | cons here _ ih =>
    unfold visits Program.visits at ih ⊢
    rw [List.flatMap_cons, List.flatMap_cons, List.map_append, List.map_append, ih, here,
      List.map_map, List.map_map]
    rfl

/-- **A sequential block whose intervals are in order visits every plane at most once**, in the
order of its policy. -/
theorem pairwise_visits {backend : Backend} {interface : Interface} {program : Program}
    {demand : Demand} {schedule : Schedule}
    (built : ofProgram? backend interface program demand = .ok schedule) {domain : PerAxis Nat}
    (ordered : ∀ block ∈ program.blocks, Check.Ordered domain.k block) {block : StageBlock}
    (member : block ∈ schedule.blocks) (sequential : block.policy.isSequential = true) :
    ((visits block.policy domain block.sections).map Prod.fst).Pairwise fun a b =>
      block.policy.visitsBefore (a - b) = true := by
  obtain ⟨⟨original, b⟩, inProgram, samePolicy, sections⟩ :=
    Steps.exists_left (ofProgram?_sections built) member
  rw [visits_planes (sections.imp fun _ _ same => same.1), samePolicy, List.pairwise_map]
  rw [samePolicy] at sequential
  exact Program.pairwise_visits (ordered original
    (List.mem_of_getElem? (List.mk_mem_zipIdx_iff_getElem?.mp inProgram))) sequential

end Schedule

namespace Check

variable {program : Program}

/-- The faults of a program are those of its blocks. -/
theorem intervals_faults (program : Program) : (intervals program).faults =
    program.blocks.zipIdx.flatMap fun pair => (checkBlockIntervals pair.1 pair.2).faults := by
  unfold intervals
  induction program.blocks.zipIdx with
  | nil => rfl
  | cons first rest ih =>
    rw [List.flatMap_cons, ← ih]
    rfl

/-- A program without faults is arranged in all domains with enough planes, and in no other row of
domains that reaches up to the largest one. -/
theorem intervals_isLeast
    (normal : ∀ block ∈ program.blocks, ∀ part ∈ block.sections, part.interval.Normal)
    (clean : (intervals program).faults = []) :
    IsLeast {n : Nat | ∀ planes : Nat, n ≤ planes → (planes : Int) < Number.int64Bound →
      ∀ block ∈ program.blocks, Arranged planes block} (intervals program).planes := by
  constructor
  · intro planes enough _ block member
    obtain ⟨index, allows⟩ := intervals_block (⟨clean, enough⟩ : (intervals program).Allows planes)
      member
    exact arranged_of_allows (normal block member) allows
  · intro n arranged
    refine (Report.allows_joinAll.mpr ?_ : (intervals program).Allows n).2
    intro report made
    obtain ⟨⟨block, index⟩, there, rfl⟩ := List.mem_map.mp made
    have member := List.mem_of_getElem? (List.mk_mem_zipIdx_iff_getElem?.mp there)
    have ofBlock : (checkBlockIntervals block index).faults = [] := by
      rw [intervals_faults, List.flatMap_eq_nil_iff] at clean
      exact clean _ there
    exact ⟨ofBlock, planes_le_of_arranged (normal block member) ofBlock
      fun planes enough small => arranged planes enough small block member⟩

/-- **The check of intervals is exact.** A block has no faults if and only if it is arranged in all
large domains and no two of its bounds, one measured from the bottom and one from the top, are far
apart; if it is arranged in all large domains, only such bounds are blamed. If a program has no
faults, the number of planes is the least one from which on all blocks are arranged in all domains
that 64 bits can hold, and in these domains a schedule visits every plane of a sequential block at
most once, upwards or downwards. -/
theorem intervals_exact (program : Program)
    (normal : ∀ block ∈ program.blocks, ∀ part ∈ block.sections, part.interval.Normal) :
    (intervals program).faults =
        program.blocks.zipIdx.flatMap (fun pair => (checkBlockIntervals pair.1 pair.2).faults) ∧
      (∀ block ∈ program.blocks, ∀ index,
        ((checkBlockIntervals block index).faults = [] ↔
          SettlesDown block ∧ ∀ lower upper, ¬ Stretched block lower upper) ∧
        (SettlesDown block → ∀ fault ∈ (checkBlockIntervals block index).faults,
          ∃ lower upper, fault.cause = .boundsTooFarApart lower upper ∧
            Stretched block lower upper)) ∧
      ((intervals program).faults = [] →
        IsLeast {n : Nat | ∀ planes : Nat, n ≤ planes → (planes : Int) < Number.int64Bound →
          ∀ block ∈ program.blocks, Arranged planes block} (intervals program).planes ∧
        ∀ (backend : Backend) (interface : Interface) (demand : Demand) (schedule : Schedule),
          Schedule.ofProgram? backend interface program demand = .ok schedule →
          ∀ domain : PerAxis Nat, (intervals program).planes ≤ domain.k →
            (domain.k : Int) < Number.int64Bound →
          ∀ block ∈ schedule.blocks, block.policy.isSequential = true →
            block.sections.flatMap (Schedule.sectionTasks block.policy domain) =
                (Schedule.visits block.policy domain block.sections).flatMap
                  (Schedule.planeTasks domain) ∧
              (block.policy = .forward →
                ((Schedule.visits block.policy domain block.sections).map Prod.fst).Pairwise
                  (· < ·)) ∧
              (block.policy = .backward →
                ((Schedule.visits block.policy domain block.sections).map Prod.fst).Pairwise
                  (· > ·))) := by
  refine ⟨intervals_faults program, fun block member index => ⟨?_, fun settles => ?_⟩,
    fun clean => ⟨intervals_isLeast normal clean, ?_⟩⟩
  · exact checkBlockIntervals_clean_iff (normal block member)
  · exact blames_of_settlesDown (normal block member) settles
  · intro backend interface demand schedule built domain enough small block member sequential
    have ordered : ∀ block ∈ program.blocks, Ordered domain.k block := by
      intro block member
      obtain ⟨index, allows⟩ := intervals_block
        (⟨clean, enough⟩ : (intervals program).Allows domain.k) member
      exact checkBlockIntervals_allows small (fun part inBlock =>
        ⟨(normal block member part inBlock).start.inward,
          (normal block member part inBlock).stop.inward⟩) allows
    have inOrder := Schedule.pairwise_visits built ordered member sequential
    refine ⟨Schedule.blockTasks_eq sequential domain block.sections, fun policy => ?_,
      fun policy => ?_⟩
    · rw [policy] at inOrder ⊢
      exact inOrder.imp fun before => by
        have below := of_decide_eq_true before
        omega
    · rw [policy] at inOrder ⊢
      exact inOrder.imp fun before => by
        have above := of_decide_eq_true before
        omega

/-- The planes from the second one up to two below the top. -/
def middle : Section := ⟨⟨.bottom 1, .top (-2)⟩, [], ⟨0, 0⟩⟩

/-- The two planes at the top. -/
def upmost : Section := ⟨⟨.top (-2), .top 0⟩, [], ⟨0, 0⟩⟩

/-- A block that goes down through two intervals, and one that goes up through the lower one. -/
def layered : Program :=
  ⟨⟨"", ""⟩, "layered", [], [],
    [⟨.backward, [upmost, middle], ⟨0, 0⟩⟩, ⟨.forward, [middle], ⟨0, 0⟩⟩]⟩

/-- Two blocks that need four planes: one below the lower interval, one in it and two above. -/
theorem intervals_exact_layers :
    (∀ block ∈ layered.blocks, ∀ part ∈ block.sections, part.interval.Normal) ∧
      (intervals layered).faults = [] ∧
      IsLeast {n : Nat | ∀ planes : Nat, n ≤ planes → (planes : Int) < Number.int64Bound →
        ∀ block ∈ layered.blocks, Arranged planes block} 4 := by
  have sorted : byPosition [upmost, middle] = [middle, upmost] :=
    byPosition_eq (.swap middle upmost []) (by decide)
  have single : byPosition [middle] = [middle] :=
    byPosition_of_pairwise (List.pairwise_singleton _ _)
  have found : intervals layered = ⟨[], 4⟩ := by
    unfold intervals layered
    simp only [List.zipIdx_cons, List.zipIdx_nil, List.map_cons, List.map_nil, checkBlockIntervals,
      sorted, single]
    rfl
  have normal : ∀ block ∈ layered.blocks, ∀ part ∈ block.sections, part.interval.Normal := by
    decide
  have clean : (intervals layered).faults = [] := by rw [found]
  have least := ((intervals_exact layered normal).2.2 clean).1
  rw [found] at least
  exact ⟨normal, clean, least⟩

end Check

end GridStencil
