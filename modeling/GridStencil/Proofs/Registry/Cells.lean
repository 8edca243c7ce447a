import GridStencil.Proofs.Registry
import Mathlib.Data.List.Find
import Mathlib.Data.List.GetD
import Mathlib.Data.List.Nodup

/-!
**A registry may reserve the cell of an artifact before it compiles it.**

Whoever asks for an artifact takes the cell of its identity first, and an empty one if there is none
yet. A compilation that succeeds fills the cell, and one that fails gives it back. Between two
commands no cell is empty and every artifact lies under its own identity (`Cells.Sound`), so callers
see a registry that keeps nothing but artifacts (`CellRegistry.visible`).

* `CellRegistry.perform_sound`: a command gives the answer of the registry that callers see, and
  changes it the same way.
* `CellRegistry.after_sound`: so do any commands on an empty registry.
-/

namespace GridStencil

/-! ### Commands -/

namespace Registry

/-- The counters of a registry, and how many artifacts it keeps. -/
structure Stats where
  hits : Nat
  misses : Nat
  compilations : Nat
  entries : Nat
deriving DecidableEq

/-- What a caller may ask of a registry. -/
inductive Command
  | change (operation : Operation)
  | stats

/-- What a registry answers. -/
inductive Answer
  | registered (result : Except Error (Logged Registration))
  | specialized (result : Logged (Except Error Artifact))
  | dropped (count : Nat)
  | cleared
  | counted (stats : Stats)

/-- The counters as they stand. -/
def stats (registry : Registry) : Stats :=
  ⟨registry.hits, registry.misses, registry.compilations, registry.entries⟩

/-- What registering gives back, without the registry behind it. -/
def noted {α : Type} (made : Except Error (Logged (Registration × α))) : Answer :=
  .registered (made.map fun made => ⟨made.log, made.value.1⟩)

/-- The answer to a command. -/
def answer (registry : Registry) : Command → Answer
  | .change (.register name text defaults) => noted (registry.register name text defaults)
  | .change (.insert definition defaults) => noted (registry.insert definition defaults)
  | .change (.specialize request) =>
    .specialized ⟨(registry.specialize request).log, (registry.specialize request).value.1⟩
  | .change (.invalidate name) => .dropped (registry.invalidate name).1
  | .change .clear => .cleared
  | .stats => .counted registry.stats

/-- The registry behind a command. -/
def behind (registry : Registry) : Command → Registry
  | .change operation => registry.step operation
  | .stats => registry

/-- The registry behind some commands on an empty one. -/
def after (commands : List Command) : Registry := commands.foldl behind empty

variable {registry : Registry}

/-- What comes of registering: it changes the registrations and nothing else, or it fails and
changes nothing. -/
inductive Registers (registry : Registry) :
    Except Error (Logged (Registration × Registry)) → Registry → Prop
  | done (made : Logged (Registration × Registry))
    (alone : made.value.2 = { registry with registrations := made.value.2.registrations }) :
    Registers registry (.ok made) made.value.2
  | failed (error : Error) : Registers registry (.error error) registry

theorem cache_of_insert {definition : Definition} {defaults : Externals}
    {made : Logged (Registration × Registry)}
    (done : registry.insert definition defaults = .ok made) :
    made.value.2 = { registry with registrations := made.value.2.registrations } := by
  unfold insert at done
  split at done
  · cases done
  · cases done
    rfl

theorem registers_insert (registry : Registry) (definition : Definition) (defaults : Externals) :
    registry.Registers (registry.insert definition defaults)
      (registry.behind (.change (.insert definition defaults))) := by
  unfold behind step
  dsimp only
  cases done : registry.insert definition defaults with
  | error error => exact .failed error
  | ok made => exact .done made (cache_of_insert done)

theorem registers_register (registry : Registry) (name text : String) (defaults : Externals) :
    registry.Registers (registry.register name text defaults)
      (registry.behind (.change (.register name text defaults))) := by
  unfold behind step
  dsimp only
  cases done : registry.register name text defaults with
  | error error => exact .failed error
  | ok made =>
    unfold register at done
    obtain ⟨definitions, -, done⟩ := Steps.bind_eq_ok.mp done
    obtain ⟨definition, -, done⟩ := Steps.bind_eq_ok.mp done
    exact .done made (cache_of_insert done)

end Registry

/-! ### Cells -/

/-- The cell of an identity, with the name of the stencil that was asked for. -/
structure CellEntry where
  id : StencilId
  name : String
  /-- The address of the cell. -/
  cell : Nat

/-- Cells by address, and the identities they are for. A cell without a content is reserved. -/
structure Cells where
  entries : List CellEntry
  contents : List (Option Artifact)

namespace Cells

/-- The artifact in a cell. -/
def artifact? (cells : Cells) (cell : Nat) : Option Artifact := cells.contents.getD cell none

/-- The entry of an identity. -/
def find? (cells : Cells) (id : StencilId) : Option CellEntry :=
  cells.entries.find? (·.id = id)

/-- The cell of an identity, which is a new one if there is none. -/
def reserve (cells : Cells) (id : StencilId) (name : String) : Nat × Cells :=
  match cells.find? id with
  | some entry => (entry.cell, cells)
  | none =>
    (cells.contents.length,
      ⟨cells.entries ++ [⟨id, name, cells.contents.length⟩], cells.contents ++ [none]⟩)

/-- Puts an artifact into a cell. -/
def fill (cells : Cells) (cell : Nat) (artifact : Artifact) : Cells :=
  { cells with contents := cells.contents.set cell (some artifact) }

/-- Drops the entry of an identity, unless it has got another cell or its cell has been filled. -/
def forget (cells : Cells) (id : StencilId) (cell : Nat) : Cells :=
  match cells.find? id with
  | none => cells
  | some entry =>
    if entry.cell = cell ∧ cells.artifact? entry.cell = none then
      { cells with entries := cells.entries.filter (·.id != id) }
    else cells

/-- The artifacts in the cells of all entries. -/
def kept (cells : Cells) : List CacheEntry :=
  cells.entries.filterMap fun entry => (cells.artifact? entry.cell).map (⟨entry.name, ·⟩)

/-- How many cells of entries are filled. -/
def filledCount (cells : Cells) : Nat :=
  cells.entries.countP fun entry => (cells.artifact? entry.cell).isSome

/-- No cell is empty, every artifact lies under its own identity, and no identity has two cells. -/
structure Sound (cells : Cells) : Prop where
  distinct : (cells.entries.map CellEntry.id).Nodup
  filled : ∀ entry ∈ cells.entries, ∃ artifact,
    cells.artifact? entry.cell = some artifact ∧ artifact.id = entry.id

end Cells

/-- A registry that reserves the cell of an artifact before it compiles it. -/
structure CellRegistry where
  registrations : Name.Table Registration
  cells : Cells
  hits : Nat
  misses : Nat
  compilations : Nat

namespace CellRegistry

open Registry (Command Answer Logged Stats noted compile idOf)

/-- The registry that holds nothing. -/
def empty : CellRegistry := ⟨.empty, ⟨[], []⟩, 0, 0, 0⟩

/-- The registry that callers see: its artifacts are those in the cells. -/
def visible (registry : CellRegistry) : Registry :=
  ⟨registry.registrations, registry.cells.kept, registry.hits, registry.misses,
    registry.compilations⟩

/-- What registering makes of the registry that callers see, with the cells as they are. -/
def registered (registry : CellRegistry)
    (made : Except Error (Logged (Registration × Registry))) :
    Except Error (Logged (Registration × CellRegistry)) :=
  made.map fun made => ⟨made.log, made.value.1,
    { registry with registrations := made.value.2.registrations }⟩

/-- The finding that an artifact lies under the identity of another one. -/
def misplaced (artifact : Artifact) (id : StencilId) : Error :=
  .ofCause (.stated .cacheConsistency
    ("artifact " ++ artifact.id.render ++ " is stored under " ++ id.render))

/-- Compiles into a reserved cell, or gives it back. -/
def compileInto (registry : CellRegistry) (registration : Registration) (request : Request)
    (cell : Nat) : Logged (Except Error Artifact × CellRegistry) :=
  let id := idOf registration request
  let registry := { registry with misses := registry.misses + 1 }
  let ⟨log, result⟩ := compile registration.definition (registration.resolve request.overrides)
    request.backend request.signature
  match result with
  | .error error =>
    ⟨log, .error error, { registry with cells := registry.cells.forget id cell }⟩
  | .ok (context, kernel) =>
    let artifact : Artifact := ⟨id, request.backend, context, kernel, registry.compilations⟩
    ⟨log, .ok artifact, { registry with
      compilations := registry.compilations + 1
      cells := registry.cells.fill cell artifact }⟩

/-- Answers a request from the cell of its identity, which is filled first if it is empty. -/
def specialize (registry : CellRegistry) (request : Request) :
    Logged (Except Error Artifact × CellRegistry) :=
  match registry.visible.lookup request.name with
  | .error error => ⟨[], .error error, registry⟩
  | .ok registration =>
    let warnings := registration.overrideWarnings request.overrides
    let id := idOf registration request
    let (cell, cells) := registry.cells.reserve id registration.definition.name
    match cells.artifact? cell with
    | some artifact =>
      if artifact.id = id then
        ⟨warnings, .ok artifact, { registry with cells, hits := registry.hits + 1 }⟩
      else ⟨warnings, .error (misplaced artifact id), { registry with cells }⟩
    | none =>
      let ⟨log, answer⟩ := compileInto { registry with cells } registration request cell
      ⟨warnings ++ log, answer⟩

/-- Drops the cells that were asked for by a name, and counts them. -/
def invalidate (registry : CellRegistry) (name : String) : Nat × CellRegistry :=
  let entries := registry.cells.entries.filter (·.name != name)
  (registry.cells.entries.length - entries.length,
    { registry with cells := { registry.cells with entries } })

/-- The counters as they stand, with the number of cells that are filled. -/
def stats (registry : CellRegistry) : Stats :=
  ⟨registry.hits, registry.misses, registry.compilations, registry.cells.filledCount⟩

/-- The registry behind registering; one that fails changes nothing. -/
def orSame (registry : CellRegistry) (made : Except Error (Logged (Registration × CellRegistry))) :
    CellRegistry :=
  match made with
  | .ok made => made.value.2
  | .error _ => registry

/-- The answer to a command, and the registry behind it. -/
def perform (registry : CellRegistry) : Command → Answer × CellRegistry
  | .change (.register name text defaults) =>
    let made := registry.registered (registry.visible.register name text defaults)
    (noted made, registry.orSame made)
  | .change (.insert definition defaults) =>
    let made := registry.registered (registry.visible.insert definition defaults)
    (noted made, registry.orSame made)
  | .change (.specialize request) =>
    let made := registry.specialize request
    (.specialized ⟨made.log, made.value.1⟩, made.value.2)
  | .change (.invalidate name) =>
    let (count, registry) := registry.invalidate name
    (.dropped count, registry)
  | .change .clear => (.cleared, { registry with cells := { registry.cells with entries := [] } })
  | .stats => (.counted registry.stats, registry)

/-- The registry behind some commands on an empty one. -/
def after (commands : List Command) : CellRegistry :=
  commands.foldl (fun registry command => (registry.perform command).2) empty

end CellRegistry

/-! ### What is done to cells -/

namespace Cells

variable {cells : Cells} {id : StencilId} {artifact : Artifact}

theorem sound_empty : Sound ⟨[], []⟩ := ⟨List.nodup_nil, fun _ absurd => nomatch absurd⟩

theorem lt_of_artifact? {cell : Nat} (found : cells.artifact? cell = some artifact) :
    cell < cells.contents.length := by
  by_contra outside
  unfold artifact? at found
  rw [List.getD_eq_default _ _ (Nat.le_of_not_lt outside)] at found
  cases found

/-- One more cell changes nothing in the cells that are filled. -/
theorem artifact?_append {cell : Nat} (found : cells.artifact? cell = some artifact)
    (entries : List CellEntry) (content : Option Artifact) :
    artifact? ⟨entries, cells.contents ++ [content]⟩ cell = some artifact := by
  unfold artifact?
  rw [List.getD_append _ _ _ _ (lt_of_artifact? found)]
  exact found

/-- The newest cell has the newest content. -/
theorem artifact?_last (entries : List CellEntry) (contents : List (Option Artifact))
    (content : Option Artifact) :
    artifact? ⟨entries, contents ++ [content]⟩ contents.length = content := by
  unfold artifact?
  rw [List.getD_append_right _ _ _ _ (Nat.le_refl _), Nat.sub_self]
  rfl

theorem find?_eq_some {entry : CellEntry} (found : cells.find? id = some entry) :
    entry ∈ cells.entries ∧ entry.id = id := by
  unfold find? at found
  have chosen := List.find?_some found
  exact ⟨List.mem_of_find?_eq_some found, of_decide_eq_true chosen⟩

theorem find?_eq_none (missing : cells.find? id = none) :
    ∀ entry ∈ cells.entries, entry.id ≠ id := fun entry member same =>
  List.find?_eq_none.mp missing entry member (decide_eq_true same)

/-- A cell that is not in use may be dropped, or given to a new identity. -/
theorem find?_reserved (missing : cells.find? id = none) (entry : CellEntry)
    (named : entry.id = id) (contents : List (Option Artifact)) :
    find? ⟨cells.entries ++ [entry], contents⟩ id = some entry := by
  unfold find? at missing ⊢
  rw [List.find?_append, missing, List.find?_cons, decide_eq_true named]
  rfl

/-- Filling the cell that was reserved last. -/
theorem fill_reserved (entry : CellEntry) :
    fill ⟨cells.entries ++ [entry], cells.contents ++ [none]⟩ cells.contents.length artifact =
      ⟨cells.entries ++ [entry], cells.contents ++ [some artifact]⟩ := by
  unfold fill
  rw [List.set_append_right _ _ (Nat.le_refl _), Nat.sub_self]
  rfl

/-- Giving back the cell that was reserved last leaves the entries as they were. -/
theorem forget_reserved (missing : cells.find? id = none) (name : String) :
    forget ⟨cells.entries ++ [⟨id, name, cells.contents.length⟩], cells.contents ++ [none]⟩ id
        cells.contents.length =
      ⟨cells.entries, cells.contents ++ [none]⟩ := by
  unfold forget
  rw [find?_reserved missing ⟨id, name, _⟩ rfl]
  dsimp only
  rw [if_pos ⟨rfl, artifact?_last _ _ _⟩]
  have others : cells.entries.filter (·.id != id) = cells.entries :=
    List.filter_eq_self.mpr fun entry member =>
      bne_iff_ne.mpr (find?_eq_none missing entry member)
  rw [List.filter_append, others, List.filter_cons_of_neg (by simp), List.filter_nil,
    List.append_nil]

/-- What is kept under a name goes with its entries. -/
theorem kept_filter (cells : Cells) (name : String) :
    kept { cells with entries := cells.entries.filter (·.name != name) } =
      cells.kept.filter (·.name != name) := by
  unfold kept
  rw [List.filterMap_filter, List.filter_filterMap]
  refine List.filterMap_congr fun entry _ => ?_
  show (if (entry.name != name) = true then (cells.artifact? entry.cell).map _ else none) = _
  cases cells.artifact? entry.cell with
  | none => exact ite_self _
  | some artifact => rfl

namespace Sound

/-- Entries may be dropped. -/
theorem sublist (sound : cells.Sound) {entries : List CellEntry}
    (fewer : entries.Sublist cells.entries) : Sound { cells with entries } :=
  ⟨(fewer.map CellEntry.id).nodup sound.distinct,
    fun entry member => sound.filled entry (fewer.subset member)⟩

/-- A cell that no entry is for does not show. -/
theorem kept_append (sound : cells.Sound) (content : Option Artifact) :
    kept ⟨cells.entries, cells.contents ++ [content]⟩ = cells.kept := by
  unfold kept
  refine List.filterMap_congr fun entry member => ?_
  obtain ⟨artifact, found, -⟩ := sound.filled entry member
  rw [found, artifact?_append found]

theorem append (sound : cells.Sound) (content : Option Artifact) :
    Sound ⟨cells.entries, cells.contents ++ [content]⟩ := by
  refine ⟨sound.distinct, fun entry member => ?_⟩
  obtain ⟨artifact, found, named⟩ := sound.filled entry member
  exact ⟨artifact, artifact?_append found _ _, named⟩

/-- An artifact in a new cell under its own identity is kept behind the others. -/
theorem kept_filled (sound : cells.Sound) (name : String) :
    kept ⟨cells.entries ++ [⟨id, name, cells.contents.length⟩],
        cells.contents ++ [some artifact]⟩ =
      cells.kept ++ [⟨name, artifact⟩] := by
  have newest := artifact?_last (cells.entries ++ [⟨id, name, cells.contents.length⟩])
    cells.contents (some artifact)
  have earlier := sound.kept_append (some artifact)
  unfold kept at earlier ⊢
  rw [List.filterMap_append, ← earlier, List.filterMap_cons_some, List.filterMap_nil]
  · rfl
  · rw [newest]
    rfl

theorem filled_append (sound : cells.Sound) (missing : cells.find? id = none)
    (named : artifact.id = id) (name : String) :
    Sound ⟨cells.entries ++ [⟨id, name, cells.contents.length⟩],
      cells.contents ++ [some artifact]⟩ := by
  refine ⟨?_, fun entry member => ?_⟩
  · rw [List.map_append]
    refine List.nodup_append.mpr ⟨sound.distinct, List.nodup_singleton _, ?_⟩
    rintro other inside last fresh rfl
    obtain ⟨entry, member, rfl⟩ := List.mem_map.mp inside
    exact find?_eq_none missing entry member (List.mem_singleton.mp fresh)
  · rcases List.mem_append.mp member with earlier | last
    · obtain ⟨artifact, found, same⟩ := sound.filled entry earlier
      exact ⟨artifact, artifact?_append found _ _, same⟩
    · rw [List.mem_singleton.mp last]
      exact ⟨artifact, artifact?_last _ _ _, named⟩

/-- Each entry keeps one artifact, under its own identity. -/
theorem keys_eq (sound : cells.Sound) :
    cells.entries.map (fun entry => (entry.id, entry.name)) =
      cells.kept.map fun entry => (entry.artifact.id, entry.name) := by
  unfold kept
  rw [List.map_filterMap, ← List.filterMap_eq_map]
  refine List.filterMap_congr fun entry member => ?_
  obtain ⟨artifact, found, same⟩ := sound.filled entry member
  rw [found]
  show some (entry.id, entry.name) = some (artifact.id, entry.name)
  rw [same]

theorem length_kept (sound : cells.Sound) : cells.kept.length = cells.entries.length := by
  have same := congrArg List.length sound.keys_eq
  rw [List.length_map, List.length_map] at same
  exact same.symm

/-- Every cell counts as filled. -/
theorem filledCount_eq (sound : cells.Sound) : cells.filledCount = cells.kept.length := by
  rw [sound.length_kept]
  refine List.countP_eq_length.mpr fun entry member => ?_
  obtain ⟨artifact, found, -⟩ := sound.filled entry member
  rw [found]
  rfl

/-- What is kept under an identity is the artifact in its cell. -/
theorem cached?_eq (sound : cells.Sound) (registry : Registry) (same : registry.cache = cells.kept)
    (id : StencilId) :
    registry.cached? id = (cells.find? id).bind fun entry => cells.artifact? entry.cell := by
  have agree : ∀ entry ∈ cells.entries,
      ((cells.artifact? entry.cell).map (CacheEntry.mk entry.name)).any
        (fun kept => decide (kept.artifact.id = id)) = decide (entry.id = id) := by
    intro entry member
    obtain ⟨artifact, found, named⟩ := sound.filled entry member
    rw [found, ← named]
    rfl
  unfold Registry.cached? find?
  rw [same, kept, List.find?_filterMap, List.find?_congr agree]
  cases cells.entries.find? fun entry => decide (entry.id = id) with
  | none => rfl
  | some entry =>
    show ((cells.artifact? entry.cell).map _).map _ = cells.artifact? entry.cell
    cases cells.artifact? entry.cell with
    | none => rfl
    | some artifact => rfl

end Sound

end Cells

/-! ### Commands in lockstep -/

namespace CellRegistry

open Registry (Command Answer Logged Stats noted compile idOf)

variable {registry : CellRegistry}

/-- A result is given in lockstep with the registry that callers see: they get the same answer, see
the same changes, and the cells are sound again. -/
structure Lockstep {α : Type} (given : α × CellRegistry) (expected : α × Registry) : Prop where
  answer : given.1 = expected.1
  visible : given.2.visible = expected.2
  sound : given.2.cells.Sound

/-- **A compilation fills the cell that was reserved for it**, or gives it back if it fails. -/
theorem lockstep_compileInto (sound : registry.cells.Sound) (registration : Registration)
    (request : Request) (missing : registry.cells.find? (idOf registration request) = none)
    (cells : Cells) (reserved : cells = ⟨registry.cells.entries ++
      [⟨idOf registration request, registration.definition.name, registry.cells.contents.length⟩],
      registry.cells.contents ++ [none]⟩) :
    let made := compileInto { registry with cells } registration request
      registry.cells.contents.length
    let expected := registry.visible.compileAndKeep registration request
    made.log = expected.log ∧ Lockstep made.value expected.value := by
  unfold compileInto Registry.compileAndKeep
  cases (compile registration.definition (registration.resolve request.overrides)
    request.backend request.signature) with
  | mk log result =>
    cases result with
    | error error =>
      refine ⟨rfl, rfl, ?_, ?_⟩
      · show visible { registry with
          cells := cells.forget _ _, misses := registry.misses + 1 } = _
        rw [reserved, Cells.forget_reserved missing]
        unfold visible
        rw [sound.kept_append]
      · show (cells.forget _ _).Sound
        rw [reserved, Cells.forget_reserved missing]
        exact sound.append none
    | ok both =>
      refine ⟨rfl, rfl, ?_, ?_⟩
      · show visible { registry with
          cells := cells.fill _ _, misses := registry.misses + 1,
          compilations := registry.compilations + 1 } = _
        rw [reserved, Cells.fill_reserved]
        unfold visible
        rw [sound.kept_filled]
      · show (cells.fill _ _).Sound
        rw [reserved, Cells.fill_reserved]
        exact sound.filled_append missing rfl _

/-- **Requests are answered in lockstep.** -/
theorem lockstep_specialize (sound : registry.cells.Sound) (request : Request) :
    (registry.specialize request).log = (registry.visible.specialize request).log ∧
      Lockstep (registry.specialize request).value (registry.visible.specialize request).value := by
  unfold specialize Registry.specialize
  cases registry.visible.lookup request.name with
  | error error => exact ⟨rfl, rfl, rfl, sound⟩
  | ok registration =>
    dsimp only
    rw [sound.cached?_eq registry.visible rfl]
    cases found : registry.cells.find? (idOf registration request) with
    | some entry =>
      obtain ⟨member, named⟩ := Cells.find?_eq_some found
      obtain ⟨artifact, filled, same⟩ := sound.filled entry member
      unfold Cells.reserve
      rw [found]
      dsimp only [Option.bind_some]
      rw [filled]
      dsimp only
      rw [if_pos (same.trans named)]
      exact ⟨rfl, rfl, rfl, sound⟩
    | none =>
      unfold Cells.reserve
      rw [found]
      dsimp only [Option.bind_none]
      rw [Cells.artifact?_last]
      obtain ⟨log, lockstep⟩ := lockstep_compileInto sound registration request found _ rfl
      exact ⟨congrArg (_ ++ ·) log, lockstep⟩

/-- Registering is done in lockstep. -/
theorem lockstep_registered (sound : registry.cells.Sound)
    {made : Except Error (Logged (Registration × Registry))} {expected : Registry}
    (registers : registry.visible.Registers made expected) :
    Lockstep (noted (registry.registered made), registry.orSame (registry.registered made))
      (noted made, expected) := by
  cases registers with
  | done made alone => exact ⟨rfl, alone.symm, sound⟩
  | failed error => exact ⟨rfl, rfl, sound⟩

/-- **Every command is done in lockstep** with the registry that callers see. -/
theorem perform_sound (sound : registry.cells.Sound) (command : Command) :
    Lockstep (registry.perform command)
      (registry.visible.answer command, registry.visible.behind command) := by
  cases command with
  | change operation =>
    cases operation with
    | register name text defaults =>
      exact lockstep_registered sound (Registry.registers_register _ name text defaults)
    | insert definition defaults =>
      exact lockstep_registered sound (Registry.registers_insert _ definition defaults)
    | specialize request =>
      obtain ⟨log, answer, visible, sound⟩ := lockstep_specialize sound request
      refine ⟨?_, visible, sound⟩
      show Answer.specialized ⟨_, _⟩ = Answer.specialized ⟨_, _⟩
      rw [log, answer]
    | invalidate name =>
      have fewer := sound.sublist (List.filter_sublist (p := (·.name != name)))
      refine ⟨?_, ?_, fewer⟩
      · show Answer.dropped (registry.cells.entries.length - _) =
          Answer.dropped (registry.cells.kept.length - (registry.cells.kept.filter _).length)
        rw [← Cells.kept_filter, fewer.length_kept, sound.length_kept]
      · show Registry.mk _ (Cells.kept _) _ _ _ = Registry.mk _ (registry.cells.kept.filter _) _ _ _
        rw [← Cells.kept_filter]
        rfl
    | clear => exact ⟨rfl, rfl, sound.sublist (List.nil_sublist _)⟩
  | stats =>
    refine ⟨?_, rfl, sound⟩
    show Answer.counted ⟨_, _, _, registry.cells.filledCount⟩ = Answer.counted ⟨_, _, _, _⟩
    rw [sound.filledCount_eq]
    rfl

/-- **After any commands on an empty registry, the cells are sound**, and callers see the registry
that keeps nothing but artifacts. -/
theorem after_sound (commands : List Command) :
    (after commands).cells.Sound ∧ (after commands).visible = Registry.after commands := by
  induction commands using List.reverseRec with
  | nil => exact ⟨Cells.sound_empty, rfl⟩
  | append_singleton earlier command ih =>
    obtain ⟨sound, visible⟩ := ih
    have lockstep := perform_sound sound command
    unfold after Registry.after
    rw [List.foldl_append, List.foldl_append]
    refine ⟨lockstep.sound, lockstep.visible.trans ?_⟩
    show (after earlier).visible.behind command = (Registry.after earlier).behind command
    rw [visible]

end CellRegistry

end GridStencil
