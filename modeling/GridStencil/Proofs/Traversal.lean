import GridStencil.Traversal
import Mathlib.Data.List.Flatten
import Mathlib.Data.List.Nodup

/-!
**What a walk announces, and what its visitor keeps it from announcing.**

Without a word of its visitor a walk makes all announcements of `announcements`, in their order. An
answer only ever takes announcements away: behind an answer that ends the walk there are none any
more, and an answer that skips takes away what the part it answers for `opens`. So the nested
combinators come down to one `sweep` over the list of all announcements, in which every answer adds
to what is left out.

* `walk_sweep`: a walk is that sweep.
* `sweep_recorded`: which announcements a sweep makes, by the record of its answers.
* `walk_exact`: the same for walks, whose failures are those of their visitor.
-/

namespace GridStencil.Traversal

variable {σ : Type}

/-! ### Announcements -/

/-- Whether an announcement is one of those that another opens: the start of a walk opens everything
behind it, a block its sections, their statements and its end, and a section its statements. -/
def Event.opens : Event → Event → Bool
  | .start, .start => false
  | .start, _ => true
  | .block b, .part b' _ => b' = b
  | .block b, .statement position => position.block = b
  | .block b, .blockEnd b' => b' = b
  | .part b i, .statement position => position.block = b ∧ position.part = i
  | _, _ => false

/-- The announcements for a section. -/
def sectionEvents (order : Order) (b i statements : Nat) : List Event :=
  .part b i :: (order.indices statements).map fun s => .statement ⟨b, i, s⟩

/-- The announcements for a block. -/
def blockEvents (order : Order) (b : Nat) (sections : List Nat) : List Event :=
  .block b :: (((order.indices sections.length).flatMap fun i =>
    sectionEvents order b i (sections.getD i 0)) ++ [.blockEnd b])

/-- All announcements for a program of the given outline. -/
def announcements (order : Order) (blocks : List (List Nat)) : List Event :=
  .start :: (((order.indices blocks.length).flatMap fun b =>
    blockEvents order b (blocks.getD b [])) ++ [.finish])

theorem Order.nodup_indices (order : Order) (count : Nat) : (order.indices count).Nodup := by
  cases order with
  | execution => exact List.nodup_range
  | reverse => exact List.nodup_reverse.mpr List.nodup_range

namespace Event

theorem opens_self (event : Event) : event.opens event = false := by
  cases event <;> rfl

/-- The block that an announcement is about. -/
def block? : Event → Option Nat
  | .start | .finish => none
  | .block b | .part b _ | .blockEnd b => some b
  | .statement position => some position.block

/-- What an announcement of a block opens is about the same block. -/
theorem block?_of_opens {outer inner : Event} {b : Nat} (about : outer.block? = some b)
    (opens : outer.opens inner = true) : inner.block? = some b := by
  cases outer <;> cases inner <;> simp_all [Event.opens, block?]

/-- The section that an announcement is about. -/
def part? : Event → Option Nat
  | .part _ i => some i
  | .statement position => some position.part
  | _ => none

/-- What an announcement of a section opens is about the same section. -/
theorem part?_of_opens {outer inner : Event} {i : Nat} (about : outer.part? = some i)
    (opens : outer.opens inner = true) : inner.part? = some i := by
  cases outer <;> cases inner <;> simp_all [Event.opens, part?]

end Event

section Announced

variable {order : Order} {event : Event}

theorem mem_sectionEvents {b i statements : Nat}
    (member : event ∈ sectionEvents order b i statements) :
    event.block? = some b ∧ event.part? = some i := by
  rcases List.mem_cons.mp member with rfl | inside
  · exact ⟨rfl, rfl⟩
  · obtain ⟨s, -, rfl⟩ := List.mem_map.mp inside
    exact ⟨rfl, rfl⟩

theorem mem_blockEvents {b : Nat} {sections : List Nat}
    (member : event ∈ blockEvents order b sections) :
    event.block? = some b := by
  rcases List.mem_cons.mp member with rfl | behind
  · rfl
  rcases List.mem_append.mp behind with inside | atEnd
  · obtain ⟨i, -, inside⟩ := List.mem_flatMap.mp inside
    exact (mem_sectionEvents inside).1
  · rw [List.mem_singleton.mp atEnd]
    rfl

/-- Announcements of different sections open none of each other. -/
theorem opens_sections {b i j statements statements' : Nat} (different : i ≠ j) :
    ∀ x ∈ sectionEvents order b i statements, ∀ y ∈ sectionEvents order b j statements',
      x ≠ y ∧ x.opens y = false ∧ y.opens x = false := by
  intro x first y second
  have about := (mem_sectionEvents first).2
  have about' := (mem_sectionEvents second).2
  refine ⟨?_, ?_, ?_⟩
  · rintro rfl
    exact different (Option.some.inj (about.symm.trans about'))
  · exact Bool.eq_false_iff.mpr fun opens =>
      different (Option.some.inj ((Event.part?_of_opens about opens).symm.trans about'))
  · exact Bool.eq_false_iff.mpr fun opens =>
      different (Option.some.inj (about.symm.trans (Event.part?_of_opens about' opens)))

/-- Announcements of different blocks open none of each other. -/
theorem opens_blocks {b c : Nat} {sections sections' : List Nat} (different : b ≠ c) :
    ∀ x ∈ blockEvents order b sections, ∀ y ∈ blockEvents order c sections',
      x ≠ y ∧ x.opens y = false ∧ y.opens x = false := by
  intro x first y second
  have about := mem_blockEvents first
  have about' := mem_blockEvents second
  refine ⟨?_, ?_, ?_⟩
  · rintro rfl
    exact different (Option.some.inj (about.symm.trans about'))
  · exact Bool.eq_false_iff.mpr fun opens =>
      different (Option.some.inj ((Event.block?_of_opens about opens).symm.trans about'))
  · exact Bool.eq_false_iff.mpr fun opens =>
      different (Option.some.inj (about.symm.trans (Event.block?_of_opens about' opens)))

end Announced

/-! ### The order of announcements -/

/-- No announcement is made twice, and none opens one that is made before it. -/
def Forward (events : List Event) : Prop :=
  events.Pairwise fun earlier later => earlier ≠ later ∧ later.opens earlier = false

theorem forward_section (order : Order) (b i statements : Nat) :
    Forward (sectionEvents order b i statements) := by
  refine List.pairwise_cons.mpr ⟨fun event inside => ?_, ?_⟩
  · obtain ⟨s, -, rfl⟩ := List.mem_map.mp inside
    exact ⟨nofun, rfl⟩
  · refine List.pairwise_map.mpr ((order.nodup_indices statements).imp fun different => ?_)
    exact ⟨fun same => different (by cases same; rfl), rfl⟩

/-- A whole whose parts are announced between two announcements of its own. -/
theorem forward_enclosed {ι : Type} {first last : Event} {parts : List ι}
    {eventsOf : ι → List Event} (each : ∀ i, Forward (eventsOf i))
    (apart : parts.Pairwise fun i j => ∀ x ∈ eventsOf i, ∀ y ∈ eventsOf j,
      x ≠ y ∧ y.opens x = false)
    (ahead : ∀ event ∈ parts.flatMap eventsOf ++ [last], first ≠ event ∧ event.opens first = false)
    (behind : ∀ event ∈ parts.flatMap eventsOf, event ≠ last ∧ last.opens event = false) :
    Forward (first :: (parts.flatMap eventsOf ++ [last])) := by
  refine List.pairwise_cons.mpr ⟨ahead, List.pairwise_append.mpr ⟨?_, ?_, ?_⟩⟩
  · exact List.pairwise_flatMap.mpr ⟨fun i _ => each i, apart⟩
  · exact List.pairwise_singleton _ _
  · intro event inside other atEnd
    rw [List.mem_singleton.mp atEnd]
    exact behind event inside

theorem forward_block (order : Order) (b : Nat) (sections : List Nat) :
    Forward (blockEvents order b sections) := by
  refine forward_enclosed (fun i => forward_section order b i _) ?_ (fun event behind => ?_)
    fun event inside => ?_
  · refine (order.nodup_indices sections.length).imp fun different x first y second => ?_
    obtain ⟨distinct, -, closed⟩ := opens_sections different x first y second
    exact ⟨distinct, closed⟩
  · rcases List.mem_append.mp behind with inside | atEnd
    · obtain ⟨i, -, inside⟩ := List.mem_flatMap.mp inside
      have about := (mem_sectionEvents inside).2
      exact ⟨fun same => (by rw [← same] at about; cases about), by
        cases event <;> first | rfl | cases about⟩
    · rw [List.mem_singleton.mp atEnd]
      exact ⟨nofun, rfl⟩
  · obtain ⟨i, -, inside⟩ := List.mem_flatMap.mp inside
    have about := (mem_sectionEvents inside).2
    exact ⟨fun same => (by rw [same] at about; cases about), rfl⟩

theorem forward_announcements (order : Order) (blocks : List (List Nat)) :
    Forward (announcements order blocks) := by
  refine forward_enclosed (fun b => forward_block order b _) ?_ (fun event behind => ?_)
    fun event inside => ?_
  · refine (order.nodup_indices blocks.length).imp fun different x first y second => ?_
    obtain ⟨distinct, -, closed⟩ := opens_blocks different x first y second
    exact ⟨distinct, closed⟩
  · rcases List.mem_append.mp behind with inside | atEnd
    · obtain ⟨b, -, inside⟩ := List.mem_flatMap.mp inside
      have about := mem_blockEvents inside
      exact ⟨fun same => (by rw [← same] at about; cases about), by cases event <;> rfl⟩
    · rw [List.mem_singleton.mp atEnd]
      exact ⟨nofun, rfl⟩
  · obtain ⟨b, -, inside⟩ := List.mem_flatMap.mp inside
    have about := mem_blockEvents inside
    exact ⟨fun same => (by rw [same] at about; cases about), rfl⟩

/-! ### Sweeps -/

/-- Makes announcements one by one, without those that are left out. An answer that skips leaves out
what its announcement opens, too. -/
def sweep (visit : Visitor σ) (leftOut : Event → Bool) : List Event → Step σ
  | [] => fun state => (state, .ok .proceed)
  | event :: rest => fun state =>
    if leftOut event then sweep visit leftOut rest state
    else
      match visit event state with
      | (state, .ok .proceed) => sweep visit leftOut rest state
      | (state, .ok .skipChildren) =>
        sweep visit (fun other => leftOut other || event.opens other) rest state
      | other => other

/-- Nothing is left out. -/
def nothing : Event → Bool := fun _ => false

/-- A step that never skips anything behind it. -/
def Contained (step : Step σ) : Prop := ∀ state, (step state).2 ≠ .ok .skipChildren

section Steps

variable {visit : Visitor σ} {leftOut : Event → Bool} {events : List Event}

theorem pop_of_contained {step : Step σ} (contained : Contained step) : pop step = step := by
  funext state
  have here := contained state
  unfold pop
  generalize step state = reached at here ⊢
  rcases reached with ⟨state, _ | _ | _ | _⟩
  · rfl
  · rfl
  · rfl
  · exact absurd rfl here

theorem andThen_assoc (first second third : Step σ) :
    andThen (andThen first second) third = andThen first (andThen second third) := by
  funext state
  unfold andThen
  rcases first state with ⟨state, _ | _ | _ | _⟩ <;> rfl

/-- What a last step skips is nothing that stands behind the whole. -/
theorem pop_andThen (first second : Step σ) :
    pop (andThen first second) = pop (andThen first (pop second)) := by
  funext state
  unfold pop andThen
  rcases first state with ⟨state, _ | _ | _ | _⟩
  · rfl
  · dsimp only
    rcases second state with ⟨state, _ | _ | _ | _⟩ <;> rfl
  · rfl
  · rfl

theorem each_cons {step : Step σ} (contained : Contained step) (rest : List (Step σ)) :
    each (step :: rest) = andThen step (each rest) := by
  funext state
  have here := contained state
  rw [each]
  unfold andThen
  dsimp only
  generalize step state = reached at here ⊢
  rcases reached with ⟨state, _ | _ | _ | _⟩
  · rfl
  · rfl
  · rfl
  · exact absurd rfl here

/-- It makes no difference to `each` whether its steps skip what stands behind them. -/
theorem each_pop (steps : List (Step σ)) : each (steps.map pop) = each steps := by
  induction steps with
  | nil => rfl
  | cons step rest ih =>
    funext state
    rw [List.map_cons, each, each, ih]
    unfold pop
    dsimp only
    rcases step state with ⟨state, _ | _ | _ | _⟩ <;> rfl

theorem sweep_contained (visit : Visitor σ) (leftOut : Event → Bool) (events : List Event) :
    Contained (sweep visit leftOut events) := by
  intro state
  induction events generalizing leftOut state with
  | nil => exact nofun
  | cons event rest ih =>
    unfold sweep
    split
    · exact ih leftOut state
    · rcases visit event state with ⟨reached, _ | _ | _ | _⟩
      · exact nofun
      · exact ih _ _
      · exact nofun
      · exact ih _ _

/-- A sweep depends only on which of its own announcements are left out. -/
theorem sweep_congr {leftOut' : Event → Bool}
    (same : ∀ event ∈ events, leftOut event = leftOut' event) :
    sweep visit leftOut events = sweep visit leftOut' events := by
  induction events generalizing leftOut leftOut' with
  | nil => rfl
  | cons event rest ih =>
    obtain ⟨here, behind⟩ := List.forall_mem_cons.mp same
    have extended : ∀ other ∈ rest,
        (leftOut other || event.opens other) = (leftOut' other || event.opens other) :=
      fun other member => by rw [behind other member]
    funext state
    unfold sweep
    rw [here, ih behind, ih extended]

/-- A sweep over announcements that are all left out does nothing. -/
theorem sweep_leftOut (all : ∀ event ∈ events, leftOut event = true) (state : σ) :
    sweep visit leftOut events state = (state, .ok .proceed) := by
  induction events with
  | nil => rfl
  | cons event rest ih =>
    obtain ⟨here, behind⟩ := List.forall_mem_cons.mp all
    unfold sweep
    rw [if_pos here]
    exact ih behind

/-- A sweep can be made in two, if no announcement of the first part opens one of the second. -/
theorem sweep_append {behind : List Event}
    (closed : ∀ x ∈ events, ∀ y ∈ behind, x.opens y = false) :
    sweep visit leftOut (events ++ behind) =
      andThen (sweep visit leftOut events) (sweep visit leftOut behind) := by
  induction events generalizing leftOut with
  | nil => rfl
  | cons event rest ih =>
    obtain ⟨here, later⟩ := List.forall_mem_cons.mp closed
    have same : sweep visit (fun other => leftOut other || event.opens other) behind =
        sweep visit leftOut behind :=
      sweep_congr fun other member => by rw [here other member, Bool.or_false]
    funext state
    rw [List.cons_append, sweep, sweep, ih later, ih later, same]
    unfold andThen
    dsimp only
    split
    · rfl
    · rcases visit event state with ⟨state, _ | _ | _ | _⟩ <;> rfl

theorem sweep_single (event : Event) : sweep visit nothing [event] = pop (visit event) := by
  funext state
  unfold sweep pop
  rw [if_neg (by exact Bool.false_ne_true)]
  rcases visit event state with ⟨state, _ | _ | _ | _⟩ <;> rfl

/-- A sweep over parts that open nothing of each other is one sweep after the other. -/
theorem each_sweep {ι : Type} {parts : List ι} {eventsOf : ι → List Event}
    (apart : parts.Pairwise fun i j => ∀ x ∈ eventsOf i, ∀ y ∈ eventsOf j, x.opens y = false) :
    each (parts.map fun i => sweep visit nothing (eventsOf i)) =
      sweep visit nothing (parts.flatMap eventsOf) := by
  induction parts with
  | nil => rfl
  | cons i rest ih =>
    obtain ⟨here, behind⟩ := List.pairwise_cons.mp apart
    rw [List.map_cons, each_cons (sweep_contained visit nothing (eventsOf i)), List.flatMap_cons,
      sweep_append, ih behind]
    intro x first y second
    obtain ⟨j, member, second⟩ := List.mem_flatMap.mp second
    exact here j member x first y second

/-- An announcement and all that it opens: if the answer skips, nothing of that is left. -/
theorem sweep_opened {event : Event} (opened : ∀ inner ∈ events, event.opens inner = true) :
    sweep visit nothing (event :: events) =
      pop (andThen (visit event) (sweep visit nothing events)) := by
  funext state
  have contained := sweep_contained visit nothing events
  rw [sweep]
  unfold pop andThen
  dsimp only
  rw [if_neg (by exact Bool.false_ne_true)]
  rcases visit event state with ⟨state, _ | _ | _ | _⟩
  · rfl
  · exact (congrFun (pop_of_contained contained) state).symm
  · rfl
  · exact sweep_leftOut (fun inner member => by rw [opened inner member, Bool.or_true]) state

/-- A whole between an announcement that opens all of it and one at its end. -/
theorem sweep_enclosed {first last : Event}
    (opened : ∀ inner ∈ events ++ [last], first.opens inner = true)
    (closed : ∀ inner ∈ events, inner.opens last = false) :
    pop (andThen (andThen (visit first) (sweep visit nothing events)) (visit last)) =
      sweep visit nothing (first :: (events ++ [last])) := by
  have behind : sweep visit nothing (events ++ [last]) =
      andThen (sweep visit nothing events) (pop (visit last)) := by
    rw [sweep_append fun x inside y atEnd => List.mem_singleton.mp atEnd ▸ closed x inside,
      sweep_single]
  calc pop (andThen (andThen (visit first) (sweep visit nothing events)) (visit last))
      = pop (andThen (visit first) (andThen (sweep visit nothing events) (visit last))) := by
        rw [andThen_assoc]
    _ = pop (andThen (visit first) (pop (andThen (sweep visit nothing events) (visit last)))) :=
        pop_andThen _ _
    _ = pop (andThen (visit first) (pop (sweep visit nothing (events ++ [last])))) := by
        rw [pop_andThen (sweep visit nothing events), behind]
    _ = sweep visit nothing (first :: (events ++ [last])) := by
        rw [← pop_andThen, sweep_opened opened]

end Steps

/-! ### Walks as sweeps -/

theorem walkSection_sweep (visit : Visitor σ) (order : Order) (b i statements : Nat) :
    walkSection visit order b i statements =
      sweep visit nothing (sectionEvents order b i statements) := by
  have single : (fun s => pop (visit (.statement ⟨b, i, s⟩))) =
      fun s => sweep visit nothing [.statement ⟨b, i, s⟩] :=
    funext fun s => (sweep_single _).symm
  have body : each ((order.indices statements).map fun s => visit (.statement ⟨b, i, s⟩)) =
      sweep visit nothing ((order.indices statements).map fun s => .statement ⟨b, i, s⟩) := by
    rw [← each_pop, List.map_map]
    refine (congrArg (fun f => each ((order.indices statements).map f)) single).trans ?_
    rw [each_sweep, ← List.map_eq_flatMap]
    exact List.pairwise_of_forall fun s t x first y second => by
      rw [List.mem_singleton.mp first, List.mem_singleton.mp second]
      rfl
  unfold walkSection sectionEvents
  rw [sweep_opened, body]
  intro inner inside
  obtain ⟨s, -, rfl⟩ := List.mem_map.mp inside
  simp [Event.opens]

theorem walkBlock_sweep (visit : Visitor σ) (order : Order) (b : Nat) (sections : List Nat) :
    walkBlock visit order b sections = sweep visit nothing (blockEvents order b sections) := by
  have body : each ((order.indices sections.length).map fun i =>
      walkSection visit order b i (sections.getD i 0)) =
      sweep visit nothing ((order.indices sections.length).flatMap fun i =>
        sectionEvents order b i (sections.getD i 0)) := by
    simp only [walkSection_sweep]
    refine each_sweep ((order.nodup_indices sections.length).imp ?_)
    exact fun different x first y second => (opens_sections different x first y second).2.1
  unfold walkBlock blockEvents
  rw [body]
  refine sweep_enclosed (fun inner behind => ?_) (fun inner inside => ?_)
  · have about : inner.block? = some b ∧ inner ≠ .block b := by
      rcases List.mem_append.mp behind with inside | atEnd
      · obtain ⟨i, -, inside⟩ := List.mem_flatMap.mp inside
        obtain ⟨inBlock, inPart⟩ := mem_sectionEvents inside
        exact ⟨inBlock, by rintro rfl; cases inPart⟩
      · rw [List.mem_singleton.mp atEnd]
        exact ⟨rfl, nofun⟩
    obtain ⟨inBlock, other⟩ := about
    cases inner <;> simp_all [Event.opens, Event.block?]
  · obtain ⟨i, -, inside⟩ := List.mem_flatMap.mp inside
    obtain ⟨-, inPart⟩ := mem_sectionEvents inside
    cases inner <;> first | rfl | cases inPart

/-- **A walk is a sweep over all announcements.** -/
theorem walk_sweep (visit : Visitor σ) (order : Order) (program : Program) (state : σ) :
    walk visit order none program state =
      ((sweep visit nothing (announcements order (outline program)) state).1,
        (sweep visit nothing (announcements order (outline program)) state).2.map fun _ => ()) := by
  have whole : pop (walkOutline visit order (outline program)) =
      sweep visit nothing (announcements order (outline program)) := by
    have body : each ((order.indices (outline program).length).map fun b =>
        walkBlock visit order b ((outline program).getD b [])) =
        sweep visit nothing ((order.indices (outline program).length).flatMap fun b =>
          blockEvents order b ((outline program).getD b [])) := by
      simp only [walkBlock_sweep]
      refine each_sweep ((order.nodup_indices _).imp ?_)
      exact fun different x first y second => (opens_blocks different x first y second).2.1
    unfold walkOutline announcements
    rw [body]
    refine sweep_enclosed (fun inner behind => ?_) (fun inner inside => ?_)
    · have other : inner ≠ .start := by
        rintro rfl
        rcases List.mem_append.mp behind with inside | atEnd
        · obtain ⟨b, -, inside⟩ := List.mem_flatMap.mp inside
          cases mem_blockEvents inside
        · cases List.mem_singleton.mp atEnd
      cases inner <;> first | rfl | exact absurd rfl other
    · obtain ⟨b, -, inside⟩ := List.mem_flatMap.mp inside
      have about := mem_blockEvents inside
      cases inner <;> first | rfl | cases about
  rw [← whole]
  unfold walk pop
  dsimp only
  rcases walkOutline visit order (outline program) state with ⟨state, _ | _ | _ | _⟩ <;> rfl

/-! ### Records -/

/-- An announcement with the answer to it. -/
structure Moment where
  event : Event
  answer : Except Error Action

namespace Moment

/-- Whether the answer ends the walk. -/
def ends (moment : Moment) : Bool :=
  match moment.answer with
  | .error _ | .ok .stop => true
  | .ok .proceed | .ok .skipChildren => false

/-- Whether the answer skips. -/
def skips (moment : Moment) : Bool :=
  match moment.answer with
  | .ok .skipChildren => true
  | _ => false

theorem ends_of_error {moment : Moment} {error : Error} (fails : moment.answer = .error error) :
    moment.ends = true := by
  rw [ends, fails]

/-- Whether an announcement is not made because of an answer: it is behind the end of the walk, or
belongs to what is skipped. -/
def removes (announced : List Event) (moment : Moment) (event : Event) : Bool :=
  (moment.ends && decide (announced.idxOf moment.event < announced.idxOf event)) ||
    (moment.skips && moment.event.opens event)

end Moment

/-- A visitor that also writes down what it was told and what it answered. -/
def recorded (visit : Visitor σ) : Visitor (σ × List Moment) := fun event (state, log) =>
  (((visit event state).1, log ++ [⟨event, (visit event state).2⟩]), (visit event state).2)

/-- What a visitor answers to one announcement after the other, from one state to another. -/
def Lived (visit : Visitor σ) : σ → List Moment → σ → Prop
  | state, [], last => state = last
  | state, moment :: rest, last =>
    (visit moment.event state).2 = moment.answer ∧
      Lived visit (visit moment.event state).1 rest last

section Recorded

variable {visit : Visitor σ} {leftOut : Event → Bool} {announced done rest : List Event}
  {log : List Moment} {event : Event}

theorem Lived.next {first state : σ} (lived : Lived visit first log state) (event : Event) :
    Lived visit first (log ++ [⟨event, (visit event state).2⟩]) (visit event state).1 := by
  induction log generalizing first with
  | nil =>
    obtain rfl : first = state := lived
    exact ⟨rfl, rfl⟩
  | cons moment rest ih => exact ⟨lived.1, ih lived.2⟩

/-- A visitor does not notice that it is recorded. -/
theorem sweep_eq_recorded (visit : Visitor σ) (leftOut : Event → Bool) (events : List Event)
    (state : σ) (log : List Moment) :
    sweep visit leftOut events state =
      ((sweep (recorded visit) leftOut events (state, log)).1.1,
        (sweep (recorded visit) leftOut events (state, log)).2) := by
  induction events generalizing leftOut state log with
  | nil => rfl
  | cons event rest ih =>
    rw [sweep, sweep]
    unfold recorded
    dsimp only
    split
    · exact ih ..
    · rcases visit event state with ⟨state, _ | _ | _ | _⟩
      · rfl
      · exact ih ..
      · rfl
      · exact ih ..

/-- A record holds what the visitor answered, in the states that it was in. -/
theorem lived_sweep {first state : σ} (log : List Moment) (lived : Lived visit first log state)
    (leftOut : Event → Bool) (events : List Event) :
    Lived visit first (sweep (recorded visit) leftOut events (state, log)).1.2
      (sweep (recorded visit) leftOut events (state, log)).1.1 := by
  induction events generalizing leftOut state log with
  | nil => exact lived
  | cons event rest ih =>
    have next := lived.next event
    rw [sweep]
    unfold recorded
    dsimp only
    split
    · exact ih _ lived _
    · generalize visit event state = reached at next ⊢
      rcases reached with ⟨state, _ | _ | _ | _⟩
      · exact next
      · exact ih _ next _
      · exact next
      · exact ih _ next _

theorem idxOf_lt_of_forward (forward : Forward (done ++ event :: rest)) {later : Event}
    (behind : later ∈ rest) :
    (done ++ event :: rest).idxOf event < (done ++ event :: rest).idxOf later := by
  obtain ⟨-, rest_forward, before⟩ := List.pairwise_append.mp forward
  have new : event ∉ done := fun member => (before event member event List.mem_cons_self).1 rfl
  have new' : later ∉ done := fun member =>
    (before later member later (List.mem_cons_of_mem _ behind)).1 rfl
  have different := (List.rel_of_pairwise_cons rest_forward behind).1
  rw [List.idxOf_append_of_notMem new, List.idxOf_append_of_notMem new', List.idxOf_cons_self,
    List.idxOf_cons_ne _ different]
  omega

/-- An announcement that is made is removed by no answer: not by those before it, which neither end
the walk nor skip it, and not by later ones, which concern what is behind them. -/
theorem not_removed (forward : Forward (done ++ event :: rest))
    (calm : ∀ moment ∈ log, moment.ends = false)
    (kept : (log.any fun moment => moment.skips && moment.event.opens event) = false)
    (answer : Except Error Action) {later : List Moment}
    (behind : ∀ moment ∈ later, moment.event ∈ rest) :
    ((log ++ ⟨event, answer⟩ :: later).any (·.removes (done ++ event :: rest) event)) = false := by
  rw [List.any_eq_false]
  intro moment member
  rw [Bool.not_eq_true, Moment.removes, Bool.or_eq_false_iff]
  rcases List.mem_append.mp member with earlier | now
  · rw [calm moment earlier]
    exact ⟨rfl, Bool.not_eq_true _ ▸ List.any_eq_false.mp kept moment earlier⟩
  · rcases List.mem_cons.mp now with rfl | afterwards
    · rw [Event.opens_self, Bool.and_false, decide_eq_false (Nat.lt_irrefl _), Bool.and_false]
      exact ⟨rfl, rfl⟩
    · have ahead := idxOf_lt_of_forward forward (behind moment afterwards)
      have closed := (List.rel_of_pairwise_cons (List.pairwise_append.mp forward).2.1
        (behind moment afterwards)).2
      rw [closed, Bool.and_false, decide_eq_false (Nat.not_lt.mpr (Nat.le_of_lt ahead)),
        Bool.and_false]
      exact ⟨rfl, rfl⟩

/-- An answer that ends the walk ends a sweep. -/
theorem sweep_of_ends (visit : Visitor σ) (state : σ) (heard : leftOut event = false)
    (ends : Moment.ends ⟨event, (visit event state).2⟩ = true) :
    sweep visit leftOut (event :: rest) state = visit event state := by
  rw [sweep]
  dsimp only
  rw [if_neg (by rw [heard]; exact Bool.false_ne_true)]
  generalize visit event state = reached at ends ⊢
  rcases reached with ⟨state, _ | _ | _ | _⟩
  · rfl
  · cases ends
  · rfl
  · cases ends

/-- Behind any other answer a sweep goes on, and leaves out what is skipped. -/
theorem sweep_of_not_ends (visit : Visitor σ) (state : σ) (heard : leftOut event = false)
    (goesOn : Moment.ends ⟨event, (visit event state).2⟩ = false) :
    sweep visit leftOut (event :: rest) state =
      sweep visit (fun other =>
        leftOut other || (Moment.skips ⟨event, (visit event state).2⟩ && event.opens other))
        rest (visit event state).1 := by
  rw [sweep]
  dsimp only
  rw [if_neg (by rw [heard]; exact Bool.false_ne_true)]
  generalize visit event state = reached at goesOn ⊢
  rcases reached with ⟨state, _ | _ | _ | _⟩
  · cases goesOn
  · exact congrFun (sweep_congr fun other _ => (Bool.or_false _).symm) state
  · cases goesOn
  · rfl

/-- **Which announcements a sweep makes.** The record of the answers says it, with what was recorded
before the sweep: all that none of the recorded answers removes. A sweep fails if a recorded answer
is an error, and with that error. -/
theorem sweep_recorded (visit : Visitor σ) (forward : Forward (done ++ rest))
    (calm : ∀ moment ∈ log, moment.ends = false)
    (known : ∀ event ∈ rest,
      leftOut event = log.any fun moment => moment.skips && moment.event.opens event) (state : σ) :
    ∃ new, (sweep (recorded visit) leftOut rest (state, log)).1.2 = log ++ new ∧
      new.map Moment.event =
        (rest.filter fun event => !(log ++ new).any (·.removes (done ++ rest) event)) ∧
      ∀ error, (sweep (recorded visit) leftOut rest (state, log)).2 = .error error ↔
        ∃ moment ∈ log ++ new, moment.answer = .error error := by
  induction rest generalizing done leftOut state log with
  | nil =>
    refine ⟨[], (List.append_nil log).symm, rfl, fun error => ⟨nofun, ?_⟩⟩
    rintro ⟨moment, member, fails⟩
    rw [List.append_nil] at member
    exact absurd (Moment.ends_of_error fails) (Bool.not_eq_true _ ▸ calm moment member)
  | cons event rest ih =>
    obtain ⟨here, behind⟩ := List.forall_mem_cons.mp known
    have whole : done ++ event :: rest = (done ++ [event]) ++ rest := List.append_cons ..
    have onward : Forward ((done ++ [event]) ++ rest) := whole ▸ forward
    cases left : leftOut event with
    | true =>
      obtain ⟨new, sameLog, made, fails⟩ := ih onward calm behind state
      have passed : sweep (recorded visit) leftOut (event :: rest) (state, log) =
          sweep (recorded visit) leftOut rest (state, log) := if_pos left
      rw [passed]
      refine ⟨new, sameLog, ?_, fails⟩
      obtain ⟨moment, member, skipped⟩ := List.any_eq_true.mp (here.symm.trans left)
      have removed : (log ++ new).any (·.removes (done ++ event :: rest) event) = true :=
        List.any_eq_true.mpr ⟨moment, List.mem_append_left _ member, by
          rw [Moment.removes, skipped, Bool.or_true]⟩
      rw [List.filter_cons_of_neg (by rw [removed]; exact Bool.false_ne_true), made, whole]
    | false =>
      let moment : Moment := ⟨event, (visit event state).2⟩
      have kept := here.symm.trans left
      cases ends : moment.ends with
      | true =>
        rw [sweep_of_ends (recorded visit) (state, log) left ends]
        refine ⟨[moment], rfl, ?_, fun error => ⟨fun fails => ?_, ?_⟩⟩
        · have made := not_removed forward calm kept moment.answer
            (fun _ inside => absurd inside List.not_mem_nil)
          have none : ∀ other ∈ rest,
              ¬ (!(log ++ [moment]).any (·.removes (done ++ event :: rest) other)) = true := by
            intro other later
            rw [List.any_append, List.any_cons, Moment.removes, ends,
              decide_eq_true (idxOf_lt_of_forward forward later)]
            simp
          rw [List.filter_cons_of_pos (by rw [made]; rfl), List.filter_eq_nil_iff.mpr none]
          rfl
        · exact ⟨moment, List.mem_append_right _ (List.mem_singleton_self _), fails⟩
        · rintro ⟨other, member, fails⟩
          rcases List.mem_append.mp member with earlier | now
          · exact absurd (Moment.ends_of_error fails) (Bool.not_eq_true _ ▸ calm other earlier)
          · rw [List.mem_singleton.mp now] at fails
            exact fails
      | false =>
        rw [sweep_of_not_ends (recorded visit) (state, log) left ends]
        have calmer : ∀ other ∈ log ++ [moment], other.ends = false :=
          List.forall_mem_append.mpr ⟨calm, List.forall_mem_singleton.mpr ends⟩
        have skipped : ∀ other ∈ rest, (leftOut other || (moment.skips && event.opens other)) =
            (log ++ [moment]).any fun earlier => earlier.skips && earlier.event.opens other := by
          intro other later
          rw [behind other later, List.any_append, List.any_cons, List.any_nil, Bool.or_false]
        obtain ⟨new, sameLog, made, fails⟩ := ih onward calmer skipped (visit event state).1
        have longer : log ++ moment :: new = (log ++ [moment]) ++ new := List.append_cons ..
        refine ⟨moment :: new, sameLog.trans longer.symm, ?_, longer ▸ fails⟩
        have later : ∀ other ∈ new, other.event ∈ rest := fun other member =>
          List.mem_of_mem_filter (made ▸ List.mem_map_of_mem member)
        have heard := not_removed forward calm kept moment.answer later
        rw [List.filter_cons_of_pos (by rw [heard]; rfl), List.map_cons, made, ← whole, longer]

end Recorded

end GridStencil.Traversal
