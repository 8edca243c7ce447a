import GridStencil.Proofs.Plan
import GridStencil.Proofs.Registry.Cells

/-!
**What a registry keeps and counts is what happened to it.**

A moment is a command with the registry that it is given to and the commands that come after it.
The artifacts that a registry keeps are those that were compiled at some moment and that no later
command has dropped, in the order of these moments (`Recorded.cache`), and its counters count
moments.

* `recorded_behind`: one command adds one moment, and the record stays right.
* `after_recorded`: so every registry that commands lead to has its record.
* `after_history`: the state of a registry after any commands, its answers, and its cells.

The names that a registry knows are those that definitions were registered under
(`lookup_of_insert`, `lookup_of_register`).
-/

namespace GridStencil

namespace Registry

/-! ### Names of artifacts -/

/-- A kernel has the name of the definition that it was compiled from. -/
theorem name_of_compile {definition : Definition} {externals : Externals} {backend : Backend}
    {signature : Signature} {context : Context} {kernel : Kernel}
    (compiled : (compile definition externals backend signature).value = .ok (context, kernel)) :
    kernel.interface.name = definition.name := by
  obtain ⟨demand, -, face, -⟩ := Kernel.ofContext?_eq_ok (compile_eq_ok compiled).2
  obtain ⟨-, -, blocks, scope, -, same⟩ :=
    Program.ofDefinition?_eq_ok (program_of_compile compiled)
  unfold Interface.ofContext? at face
  obtain ⟨known, -, face⟩ := Steps.bind_eq_ok.mp face
  calc kernel.interface.name = context.program.name :=
        (congrArg Interface.name (Except.ok.inj face)).symm
    _ = definition.name := congrArg Program.name same

/-! ### Moments -/

/-- Whether a command drops what was compiled under a name. -/
def Command.drops (name : String) : Command → Bool
  | .change .clear => true
  | .change (.invalidate other) => other == name
  | _ => false

/-- A command, the registry that it is given to, and the commands that come after it. -/
structure Moment where
  before : Registry
  command : Command
  later : List Command

/-- The moments of some commands, in order. -/
def moments (registry : Registry) : List Command → List Moment
  | [] => []
  | command :: later => ⟨registry, command, later⟩ :: moments (registry.behind command) later

namespace Moment

/-- The registry behind the command. -/
def behind (moment : Moment) : Registry := moment.before.behind moment.command

/-- The identity of what is asked for under a registered name. -/
def id? (moment : Moment) : Option StencilId :=
  match moment.command with
  | .change (.specialize request) =>
    (moment.before.lookup request.name).toOption.map (idOf · request)
  | _ => none

/-- The artifact that a request is answered with. -/
def given? (moment : Moment) : Option Artifact :=
  match moment.command with
  | .change (.specialize request) => (moment.before.specialize request).value.1.toOption
  | _ => none

/-- Whether the command is counted as a hit. -/
def isHit (moment : Moment) : Bool := moment.before.hits < moment.behind.hits

/-- Whether the command is counted as a miss. -/
def isMiss (moment : Moment) : Bool := moment.before.misses < moment.behind.misses

/-- The artifact that is compiled for a request. -/
def compiled? (moment : Moment) : Option Artifact := if moment.isMiss then moment.given? else none

/-- Whether no later command drops what was compiled under a name. -/
def spares (moment : Moment) (name : String) : Bool :=
  moment.later.all fun command => !command.drops name

/-- What is compiled for a request, with the name that was asked for. -/
def created? (moment : Moment) : Option CacheEntry :=
  match moment.command with
  | .change (.specialize request) => moment.compiled?.map (⟨request.name, ·⟩)
  | _ => none

/-- What is compiled for a request and not dropped later. -/
def kept? (moment : Moment) : Option CacheEntry :=
  moment.created?.filter fun entry => moment.spares entry.name

/-- What is compiled for a request is the answer to it. -/
theorem given?_of_created (moment : Moment) {entry : CacheEntry}
    (created : moment.created? = some entry) : moment.given? = some entry.artifact := by
  unfold created? at created
  split at created
  · obtain ⟨artifact, compiled, rfl⟩ := Option.map_eq_some_iff.mp created
    unfold compiled? at compiled
    split at compiled
    · exact compiled
    · cases compiled
  · cases created

/-- The moment when one more command has come after it. -/
def followed (moment : Moment) (command : Command) : Moment :=
  { moment with later := moment.later ++ [command] }

variable (moment : Moment) (command : Command)

theorem spares_followed (name : String) :
    (moment.followed command).spares name = (moment.spares name && !command.drops name) := by
  unfold spares followed
  rw [List.all_append, List.all_cons, List.all_nil, Bool.and_true]

theorem created?_followed : (moment.followed command).created? = moment.created? := rfl

/-- One more command drops what it drops, and nothing else. -/
theorem kept?_followed : (moment.followed command).kept? =
    moment.kept?.filter fun entry => !command.drops entry.name := by
  unfold kept?
  rw [created?_followed, Option.filter_filter]
  exact congrArg (Option.filter · _) (funext fun entry => spares_followed moment command entry.name)

end Moment

/-- What one more command adds to the moments. -/
theorem moments_append (registry : Registry) (commands : List Command) (command : Command) :
    moments registry (commands ++ [command]) =
      (moments registry commands).map (·.followed command) ++
        [⟨commands.foldl behind registry, command, []⟩] := by
  induction commands generalizing registry with
  | nil => rfl
  | cons first later ih =>
    show Moment.mk registry first (later ++ [command]) :: moments _ (later ++ [command]) = _
    rw [ih]
    rfl

/-! ### One command -/

variable {registry : Registry}

/-- What comes of a request. -/
inductive Served (registry : Registry) (request : Request) :
    Except Error Artifact × Registry → Prop
  | unknown {error : Error} (unknown : registry.lookup request.name = .error error) :
    Served registry request (.error error, registry)
  | hit {registration : Registration} {artifact : Artifact}
    (known : registry.lookup request.name = .ok registration)
    (found : registry.cached? (idOf registration request) = some artifact) :
    Served registry request (.ok artifact, { registry with hits := registry.hits + 1 })
  | failed {registration : Registration} (error : Error)
    (known : registry.lookup request.name = .ok registration)
    (missing : registry.cached? (idOf registration request) = none) :
    Served registry request (.error error, { registry with misses := registry.misses + 1 })
  | compiled {registration : Registration} {artifact : Artifact}
    (known : registry.lookup request.name = .ok registration)
    (missing : registry.cached? (idOf registration request) = none)
    (id : artifact.id = idOf registration request)
    (named : artifact.name = registration.definition.name)
    (serial : artifact.serial = registry.compilations) :
    Served registry request (.ok artifact, { registry with
      misses := registry.misses + 1
      compilations := registry.compilations + 1
      cache := registry.cache ++ [⟨registration.definition.name, artifact⟩] })

/-- **Every request is served in one of four ways.** -/
theorem served_specialize (registry : Registry) (request : Request) :
    registry.Served request (registry.specialize request).value := by
  unfold specialize
  cases known : registry.lookup request.name with
  | error error => exact .unknown known
  | ok registration =>
    dsimp only
    cases found : registry.cached? (idOf registration request) with
    | some artifact => exact .hit known found
    | none =>
      unfold compileAndKeep
      dsimp only
      cases result : (compile registration.definition (registration.resolve request.overrides)
        request.backend request.signature) with
      | mk log outcome =>
        cases outcome with
        | error error => exact .failed error known found
        | ok both =>
          have named := name_of_compile (congrArg Logged.value result)
          exact .compiled known found rfl named rfl

/-- What a command does to the counters and to what is kept. -/
structure Moment.Effect (moment : Moment) : Prop where
  hits : moment.behind.hits = moment.before.hits + moment.isHit.toNat
  misses : moment.behind.misses = moment.before.misses + moment.isMiss.toNat
  asked : moment.id?.isSome.toNat = moment.isHit.toNat + moment.isMiss.toNat
  serials : List.range moment.before.compilations ++
    moment.compiled?.toList.map Artifact.serial = List.range moment.behind.compilations
  cache : moment.behind.cache =
    moment.before.cache.filter (fun entry => !moment.command.drops entry.name) ++
      moment.created?.toList
  created : ∀ entry ∈ moment.created?, entry.name = entry.artifact.name ∧
    moment.before.cached? entry.artifact.id = none
  given : ∀ artifact ∈ moment.given?, moment.id? = some artifact.id ∧
    ∃ entry ∈ moment.behind.cache, entry.artifact = artifact

/-- The effect of a command, from what it adds to the counters and what it then has compiled. -/
theorem Moment.effect_of_counts {moment : Moment} (hit miss : Bool)
    (hits : moment.behind.hits = moment.before.hits + hit.toNat)
    (misses : moment.behind.misses = moment.before.misses + miss.toNat)
    (asked : moment.id?.isSome.toNat = hit.toNat + miss.toNat)
    (keeps : moment.compiled? = (if miss then moment.given? else none) →
      List.range moment.before.compilations ++ moment.compiled?.toList.map Artifact.serial =
          List.range moment.behind.compilations ∧
        moment.behind.cache =
          moment.before.cache.filter (fun entry => !moment.command.drops entry.name) ++
            moment.created?.toList ∧
        ∀ entry ∈ moment.created?, entry.name = entry.artifact.name ∧
          moment.before.cached? entry.artifact.id = none)
    (given : ∀ artifact ∈ moment.given?, moment.id? = some artifact.id ∧
      ∃ entry ∈ moment.behind.cache, entry.artifact = artifact) : moment.Effect := by
  have counted : ∀ (n : Nat) (more : Bool), decide (n < n + more.toNat) = more := fun n more => by
    cases more <;> simp
  have isHit : moment.isHit = hit := by
    unfold isHit
    rw [hits, counted]
  have isMiss : moment.isMiss = miss := by
    unfold isMiss
    rw [misses, counted]
  obtain ⟨serials, cache, created⟩ := keeps (by rw [← isMiss]; rfl)
  exact ⟨isHit ▸ hits, isMiss ▸ misses, by rw [isHit, isMiss, asked], serials, cache, created, given⟩

/-- A command that serves no request leaves the counters alone. -/
theorem Moment.effect_of_quiet {moment : Moment} (unasked : moment.id? = none)
    (nothing : moment.given? = none) (hits : moment.behind.hits = moment.before.hits)
    (misses : moment.behind.misses = moment.before.misses)
    (compilations : moment.behind.compilations = moment.before.compilations)
    (cache : moment.behind.cache =
      moment.before.cache.filter fun entry => !moment.command.drops entry.name) :
    moment.Effect := by
  refine effect_of_counts false false hits misses (by rw [unasked]; rfl) (fun uncompiled => ?_)
    (by rw [nothing]; exact fun _ absurd => nomatch absurd)
  rw [if_neg Bool.false_ne_true] at uncompiled
  have uncreated : moment.created? = none := by
    unfold created?
    rw [uncompiled]
    split <;> rfl
  rw [uncompiled, uncreated, compilations, cache]
  exact ⟨List.append_nil _, (List.append_nil _).symm, fun _ absurd => nomatch absurd⟩

/-- What registering does. -/
theorem Moment.effect_of_registers {moment : Moment} (unasked : moment.id? = none)
    (nothing : moment.given? = none) (spares : ∀ name, moment.command.drops name = false)
    {made : Except Error (Logged (Registration × Registry))}
    (registers : moment.before.Registers made moment.behind) : moment.Effect := by
  have alone : ∃ registrations, moment.behind = { moment.before with registrations } := by
    generalize moment.behind = behind at registers
    cases registers with
    | done made alone => exact ⟨_, alone⟩
    | failed error => exact ⟨_, rfl⟩
  obtain ⟨registrations, same⟩ := alone
  refine effect_of_quiet unasked nothing ?_ ?_ ?_ ?_ <;> rw [same]
  refine (List.filter_eq_self.mpr fun entry _ => ?_).symm
  rw [spares]
  rfl

/-- What is kept under an identity is among what is kept. -/
theorem exists_of_cached? {id : StencilId} {artifact : Artifact}
    (found : registry.cached? id = some artifact) :
    artifact.id = id ∧ ∃ entry ∈ registry.cache, entry.artifact = artifact := by
  unfold cached? at found
  obtain ⟨entry, first, rfl⟩ := Option.map_eq_some_iff.mp found
  have chosen := List.find?_some first
  exact ⟨of_decide_eq_true chosen, entry, List.mem_of_find?_eq_some first, rfl⟩

/-- What a request does, if definitions are registered under their own names. -/
theorem Moment.effect_of_request (named : ∀ name registration,
      registry.registrations.get? name = some registration → registration.definition.name = name)
    (request : Request) (later : List Command) :
    (Moment.mk registry (.change (.specialize request)) later).Effect := by
  have served := served_specialize registry request
  generalize value : (registry.specialize request).value = result at served
  generalize start : Moment.mk registry (.change (.specialize request)) later = moment
  have id : moment.id? = (registry.lookup request.name).toOption.map (idOf · request) := by
    rw [← start]
    rfl
  have behind : moment.behind = result.2 := by
    rw [← start, ← value]
    rfl
  have given : moment.given? = result.1.toOption := by
    rw [← start, ← value]
    rfl
  have before : moment.before = registry := by rw [← start]
  have created : moment.created? = moment.compiled?.map (⟨request.name, ·⟩) := by
    rw [← start]
    rfl
  have stays : registry.cache.filter (fun entry => !moment.command.drops entry.name) =
      registry.cache := by
    rw [← start]
    exact List.filter_eq_self.mpr fun _ _ => rfl
  cases served with
  | unknown unknown =>
    refine effect_of_quiet ?_ given ?_ ?_ ?_ ?_
    · rw [id, unknown]
      rfl
    · rw [behind, before]
    · rw [behind, before]
    · rw [behind, before]
    · rw [behind, before, stays]
  | hit known found =>
    obtain ⟨same, kept⟩ := exists_of_cached? found
    refine effect_of_counts true false (by rw [behind, before]; rfl) (by rw [behind, before]; rfl)
      (by rw [id, known]; rfl) (fun compiled => ?_) ?_
    · rw [if_neg Bool.false_ne_true] at compiled
      rw [created, compiled, behind, before, stays]
      exact ⟨List.append_nil _, (List.append_nil _).symm, fun _ absurd => nomatch absurd⟩
    · rw [given, id, known, behind]
      rintro artifact ⟨⟩
      exact ⟨congrArg some same.symm, kept⟩
  | failed error known missing =>
    refine effect_of_counts false true (by rw [behind, before]; rfl) (by rw [behind, before]; rfl)
      (by rw [id, known]; rfl) (fun compiled => ?_)
      (by rw [given]; exact fun _ absurd => nomatch absurd)
    rw [if_pos rfl, given] at compiled
    rw [created, compiled, behind, before, stays]
    exact ⟨List.append_nil _, (List.append_nil _).symm, fun _ absurd => nomatch absurd⟩
  | compiled known missing same artifactName serial =>
    have definitionName := named _ _ (lookup_eq_ok.mp known)
    refine effect_of_counts false true (by rw [behind, before]; rfl) (by rw [behind, before]; rfl)
      (by rw [id, known]; rfl) (fun compiled => ?_) ?_
    · rw [if_pos rfl, given] at compiled
      rw [created, compiled, behind, before, stays, List.range_succ, definitionName]
      refine ⟨congrArg (fun number => List.range registry.compilations ++ [number]) serial, rfl, ?_⟩
      rintro entry ⟨⟩
      exact ⟨(artifactName.trans definitionName).symm, same ▸ missing⟩
    · rw [given, id, known, behind]
      rintro artifact ⟨⟩
      exact ⟨congrArg some same.symm, _, List.mem_append_right _ (List.mem_singleton_self _), rfl⟩

/-- What a command does, if definitions are registered under their own names. -/
theorem Moment.effect (named : ∀ name registration,
      registry.registrations.get? name = some registration → registration.definition.name = name)
    (command : Command) (later : List Command) : (Moment.mk registry command later).Effect := by
  cases command with
  | stats =>
    exact effect_of_quiet rfl rfl rfl rfl rfl (List.filter_eq_self.mpr fun _ _ => rfl).symm
  | change operation =>
    cases operation with
    | register name text defaults =>
      exact effect_of_registers rfl rfl (fun _ => rfl) (registers_register _ name text defaults)
    | insert definition defaults =>
      exact effect_of_registers rfl rfl (fun _ => rfl) (registers_insert _ definition defaults)
    | specialize request => exact effect_of_request named request later
    | invalidate name =>
      refine effect_of_quiet rfl rfl rfl rfl rfl ?_
      refine congrArg (List.filter · registry.cache) (funext fun entry => ?_)
      exact congrArg Bool.not (Bool.beq_comm)
    | clear =>
      have none : registry.cache.filter (fun _ => false) = [] :=
        List.filter_eq_nil_iff.mpr fun _ _ => Bool.false_ne_true
      exact effect_of_quiet rfl rfl rfl rfl rfl none.symm

/-! ### Any commands -/

/-- A registry keeps and counts what its history says. -/
structure Recorded (registry : Registry) (history : List Moment) : Prop where
  cache : registry.cache = history.filterMap Moment.kept?
  tidy : ∀ entry ∈ registry.cache, entry.name = entry.artifact.name
  distinct : (registry.cache.map (·.artifact.id)).Nodup
  created : ∀ moment ∈ history, ∀ entry ∈ moment.created?, entry.name = entry.artifact.name
  asked : registry.hits + registry.misses = history.countP (·.id?.isSome)
  serials : (history.filterMap Moment.compiled?).map Artifact.serial =
    List.range registry.compilations
  given : ∀ moment ∈ history, ∀ artifact ∈ moment.given?, moment.id? = some artifact.id ∧
    (moment.spares artifact.name → ∃ entry ∈ registry.cache, entry.artifact = artifact)

theorem recorded_empty : Recorded empty [] where
  cache := rfl
  tidy := fun _ absurd => nomatch absurd
  distinct := List.nodup_nil
  created := fun _ absurd => nomatch absurd
  asked := rfl
  serials := rfl
  given := fun _ absurd => nomatch absurd

/-- No artifact is kept under an identity under which nothing is found. -/
theorem ne_of_cached? {id : StencilId} (missing : registry.cached? id = none) :
    ∀ entry ∈ registry.cache, entry.artifact.id ≠ id := by
  unfold cached? at missing
  exact fun entry member same => List.find?_eq_none.mp (Option.map_eq_none_iff.mp missing) entry
    member (decide_eq_true same)

/-- One more command drops what it drops of what was kept, and adds what it has compiled. -/
theorem kept_followed (history : List Moment) (before : Registry) (command : Command) :
    (history.map (Moment.followed · command) ++ [Moment.mk before command []]).filterMap
        Moment.kept? =
      (history.filterMap Moment.kept?).filter (fun entry => !command.drops entry.name) ++
        (Moment.mk before command []).created?.toList := by
  have last : (Moment.mk before command []).kept? = (Moment.mk before command []).created? := by
    unfold Moment.kept?
    cases (Moment.mk before command []).created? <;> rfl
  rw [List.filterMap_append, List.filterMap_map, List.filter_filterMap, List.filterMap_cons, last,
    List.filterMap_nil]
  refine congrArg₂ (· ++ ·) (congrArg (List.filterMap · history)
    (funext fun moment => Moment.kept?_followed moment command)) ?_
  cases (Moment.mk before command []).created? <;> rfl

/-- One more command is one more request, or none. -/
theorem asked_followed (history : List Moment) (before : Registry) (command : Command) :
    (history.map (Moment.followed · command) ++ [Moment.mk before command []]).countP
        (·.id?.isSome) =
      history.countP (·.id?.isSome) + (Moment.mk before command []).id?.isSome.toNat := by
  have earlier : List.countP (·.id?.isSome) (history.map (Moment.followed · command)) =
      history.countP (·.id?.isSome) := by
    rw [List.countP_map]
    rfl
  rw [List.countP_append, earlier, List.countP_singleton]
  cases (Moment.mk before command []).id? <;> rfl

/-- **One command adds one moment**, and the record stays right. -/
theorem recorded_behind {history : List Moment} (recorded : registry.Recorded history)
    {command : Command} (effect : (Moment.mk registry command []).Effect) :
    (registry.behind command).Recorded
      (history.map (·.followed command) ++ [⟨registry, command, []⟩]) := by
  have cache : (registry.behind command).cache =
      registry.cache.filter (fun entry => !command.drops entry.name) ++
        (Moment.mk registry command []).created?.toList := effect.cache
  have spared : ∀ entry ∈ registry.cache.filter (fun entry => !command.drops entry.name),
      entry ∈ registry.cache ∧ command.drops entry.name = false := by
    intro entry member
    obtain ⟨inside, spared⟩ := List.mem_filter.mp member
    exact ⟨inside, (Bool.not_eq_true' _).mp spared⟩
  refine ⟨?cache, fun entry member => ?tidy, ?distinct, fun moment member => ?created, ?asked,
    ?serials, fun moment member artifact answer => ?given⟩
  case cache => rw [cache, kept_followed, recorded.cache]
  case tidy =>
    rw [cache] at member
    rcases List.mem_append.mp member with earlier | new
    · exact recorded.tidy entry (spared entry earlier).1
    · exact (effect.created entry (Option.mem_toList.mp new)).1
  case distinct =>
    rw [cache, List.map_append]
    refine List.nodup_append.mpr ⟨(List.filter_sublist.map _).nodup recorded.distinct, ?_, ?_⟩
    · cases (Moment.mk registry command []).created? with
      | none => exact List.nodup_nil
      | some entry => exact List.nodup_singleton _
    · rintro id inside other new rfl
      obtain ⟨entry, member, rfl⟩ := List.mem_map.mp inside
      obtain ⟨added, asked, same⟩ := List.mem_map.mp new
      have missing := (effect.created added (Option.mem_toList.mp asked)).2
      exact ne_of_cached? missing entry (spared entry member).1 same.symm
  case created =>
    rcases List.mem_append.mp member with earlier | new
    · obtain ⟨moment, inside, rfl⟩ := List.mem_map.mp earlier
      exact recorded.created moment inside
    · rw [List.mem_singleton.mp new]
      exact fun entry made => (effect.created entry made).1
  case asked =>
    have hits : (registry.behind command).hits = registry.hits + _ := effect.hits
    have misses : (registry.behind command).misses = registry.misses + _ := effect.misses
    rw [asked_followed, ← recorded.asked, effect.asked, hits, misses]
    omega
  case serials =>
    rw [List.filterMap_append, List.filterMap_map, List.map_append]
    refine Eq.trans (congrArg₂ (· ++ ·) recorded.serials ?_) effect.serials
    rw [List.filterMap_cons]
    cases (Moment.mk registry command []).compiled? <;> rfl
  case given =>
    rcases List.mem_append.mp member with earlier | new
    · obtain ⟨moment, inside, rfl⟩ := List.mem_map.mp earlier
      obtain ⟨id, kept⟩ := recorded.given moment inside artifact answer
      refine ⟨id, fun spares => ?_⟩
      rw [Moment.spares_followed] at spares
      obtain ⟨earlier, undropped⟩ := Bool.and_eq_true_iff.mp spares
      obtain ⟨entry, there, rfl⟩ := kept earlier
      refine ⟨entry, cache ▸ List.mem_append_left _ (List.mem_filter.mpr ⟨there, ?_⟩), rfl⟩
      rw [recorded.tidy entry there]
      exact undropped
    · rw [List.mem_singleton.mp new] at answer ⊢
      obtain ⟨id, kept⟩ := effect.given artifact answer
      exact ⟨id, fun _ => kept⟩

/-- Definitions stay registered under their own names. -/
theorem after_faithful (commands : List Command) :
    ∃ requests, (after commands).Faithful requests := by
  induction commands using List.reverseRec with
  | nil => exact ⟨[], faithful_empty⟩
  | append_singleton earlier command ih =>
    unfold after
    rw [List.foldl_append]
    cases command with
    | stats => exact ih
    | change operation =>
      obtain ⟨requests, faithful⟩ := ih
      exact ⟨_, faithful_step faithful operation⟩

/-- **Every registry that commands lead to has its record.** -/
theorem after_recorded (commands : List Command) :
    (after commands).Recorded (moments empty commands) := by
  induction commands using List.reverseRec with
  | nil => exact recorded_empty
  | append_singleton earlier command ih =>
    obtain ⟨requests, faithful⟩ := after_faithful earlier
    have named := fun name registration found => (faithful.registered name registration found).1
    have next := recorded_behind ih (Moment.effect named command [])
    unfold after at next ⊢
    rw [moments_append, List.foldl_append]
    exact next

/-! ### What follows from the record -/

namespace Recorded

variable {history : List Moment}

/-- A kept artifact is found under its identity. -/
theorem cached?_of_mem (recorded : registry.Recorded history) {entry : CacheEntry}
    (member : entry ∈ registry.cache) :
    registry.cached? entry.artifact.id = some entry.artifact := by
  unfold cached?
  cases found : registry.cache.find? (·.artifact.id = entry.artifact.id) with
  | none => exact absurd (decide_eq_true rfl) (List.find?_eq_none.mp found entry member)
  | some other =>
    have chosen := List.find?_some found
    have same : other = entry := List.inj_on_of_nodup_map recorded.distinct
      (List.mem_of_find?_eq_some found) member (of_decide_eq_true chosen)
    rw [same]
    rfl

/-- **An artifact is found exactly if it was given for its identity before**, and nothing has
dropped it since. -/
theorem cached?_eq_some (recorded : registry.Recorded history) {id : StencilId}
    {artifact : Artifact} : registry.cached? id = some artifact ↔
      ∃ moment ∈ history, moment.given? = some artifact ∧ moment.id? = some id ∧
        moment.spares artifact.name := by
  constructor
  · intro found
    obtain ⟨same, entry, member, rfl⟩ := exists_of_cached? found
    have named := recorded.tidy entry member
    rw [recorded.cache] at member
    obtain ⟨moment, inside, kept⟩ := List.mem_filterMap.mp member
    unfold Moment.kept? at kept
    obtain ⟨created, spares⟩ := Option.filter_eq_some_iff.mp kept
    have given := moment.given?_of_created created
    refine ⟨moment, inside, given, ?_, named ▸ spares⟩
    exact (recorded.given moment inside _ given).1.trans (congrArg some same)
  · rintro ⟨moment, inside, given, asked, spares⟩
    obtain ⟨named, kept⟩ := recorded.given moment inside artifact given
    obtain ⟨entry, member, rfl⟩ := kept spares
    rw [Option.some.inj (asked.symm.trans named)]
    exact recorded.cached?_of_mem member

/-- Every compilation is counted, and has a number of its own. -/
theorem compilations_eq (recorded : registry.Recorded history) :
    registry.compilations = history.countP fun moment => moment.isMiss && moment.given?.isSome := by
  have counted := congrArg List.length recorded.serials
  rw [List.length_map, List.length_filterMap_eq_countP, List.length_range] at counted
  refine counted.symm.trans (congrArg (List.countP · history) (funext fun moment => ?_))
  unfold Moment.compiled?
  cases moment.isMiss <;> rfl

end Recorded

/-- Whether an answer is an error. -/
def Answer.isError : Answer → Bool
  | .registered (.error _) => true
  | .specialized ⟨_, .error _⟩ => true
  | _ => false

/-- What is registered and what is kept stays as it is where a command fails. -/
theorem behind_of_error {command : Command} (failed : (registry.answer command).isError) :
    (registry.behind command).registrations = registry.registrations ∧
      (registry.behind command).cache = registry.cache := by
  have registers : ∀ {made : Except Error (Logged (Registration × Registry))} {behind : Registry},
      (noted made).isError → registry.Registers made behind → behind = registry := by
    intro made behind failed registers
    cases registers with
    | done made alone => cases failed
    | failed error => rfl
  cases command with
  | stats => cases failed
  | change operation =>
    cases operation with
    | register name text defaults =>
      rw [registers failed (registers_register registry name text defaults)]
      exact ⟨rfl, rfl⟩
    | insert definition defaults =>
      rw [registers failed (registers_insert registry definition defaults)]
      exact ⟨rfl, rfl⟩
    | specialize request =>
      have served := served_specialize registry request
      change Answer.isError (.specialized ⟨(registry.specialize request).log,
        (registry.specialize request).value.1⟩) = true at failed
      show (registry.specialize request).value.2.registrations = _ ∧
        (registry.specialize request).value.2.cache = _
      generalize (registry.specialize request).value = value at served failed ⊢
      cases served with
      | unknown _ => exact ⟨rfl, rfl⟩
      | hit _ _ => cases failed
      | failed _ _ _ => exact ⟨rfl, rfl⟩
      | compiled _ _ _ _ _ => cases failed
    | invalidate name => cases failed
    | clear => cases failed

/-- A request is a hit exactly if something is kept under its identity, which is the answer. -/
theorem specialize_hit {request : Request} {registration : Registration}
    (known : registry.lookup request.name = .ok registration) :
    (registry.hits < (registry.specialize request).value.2.hits ↔
      ∃ artifact, registry.cached? (idOf registration request) = some artifact) ∧
    ∀ artifact, registry.cached? (idOf registration request) = some artifact →
      (registry.specialize request).value =
        (.ok artifact, { registry with hits := registry.hits + 1 }) := by
  have served := served_specialize registry request
  generalize (registry.specialize request).value = value at served ⊢
  cases served with
  | unknown unknown => cases known.symm.trans unknown
  | hit known' found =>
    cases known.symm.trans known'
    refine ⟨⟨fun _ => ⟨_, found⟩, fun _ => Nat.lt_succ_self _⟩, fun artifact found' => ?_⟩
    cases found.symm.trans found'
    rfl
  | failed error known' missing =>
    cases known.symm.trans known'
    rw [missing]
    exact ⟨⟨fun absurd => (Nat.lt_irrefl _ absurd).elim, fun ⟨_, absurd⟩ => nomatch absurd⟩,
      fun _ absurd => nomatch absurd⟩
  | compiled known' missing _ _ _ =>
    cases known.symm.trans known'
    rw [missing]
    exact ⟨⟨fun absurd => (Nat.lt_irrefl _ absurd).elim, fun ⟨_, absurd⟩ => nomatch absurd⟩,
      fun _ absurd => nomatch absurd⟩

/-- Dropping a name drops what was compiled under it, and counts that. -/
theorem invalidate_eq (registry : Registry) (name : String) : registry.invalidate name =
    (registry.cache.countP (·.name == name),
      { registry with cache := registry.cache.filter (·.name != name) }) := by
  have others : registry.cache.countP (fun entry => decide ¬(entry.name == name) = true) =
      (registry.cache.filter (·.name != name)).length := by
    rw [← List.countP_eq_length_filter]
    refine List.countP_congr fun entry _ => ?_
    rw [decide_eq_true_iff, Bool.not_eq_true, bne, Bool.not_eq_true']
  have split := List.length_eq_countP_add_countP (·.name == name) (l := registry.cache)
  unfold invalidate
  dsimp only
  rw [split, others, Nat.add_sub_cancel]

/-- **What a registry keeps, answers and counts after any commands.** -/
theorem after_history (commands : List Command) :
    let registry := after commands
    let history := moments empty commands
    -- Callers see what the registry with cells answers, and none of its cells is empty: each holds
    -- the artifact of its identity.
    ((CellRegistry.after commands).visible = registry ∧
      (∀ command, ((CellRegistry.after commands).perform command).1 = registry.answer command) ∧
      (CellRegistry.after commands).cells.Sound ∧
      (CellRegistry.after commands).cells.entries.map (fun entry => (entry.id, entry.name)) =
        registry.cache.map fun entry => (entry.artifact.id, entry.name)) ∧
    -- A request is a hit if and only if an earlier one for the same identity was answered by an
    -- artifact that was not dropped since, and the hit gives out this artifact.
    (∀ request registration, registry.lookup request.name = .ok registration →
      (registry.hits < (registry.specialize request).value.2.hits ↔
        ∃ moment ∈ history, ∃ artifact, moment.given? = some artifact ∧
          moment.id? = some (idOf registration request) ∧ moment.spares artifact.name) ∧
      ∀ moment ∈ history, ∀ artifact, moment.given? = some artifact →
        moment.id? = some (idOf registration request) → moment.spares artifact.name →
        (registry.specialize request).value.1 = .ok artifact) ∧
    -- An artifact has the name that it was compiled under, and no two compilations give the same.
    ((∀ moment ∈ history, ∀ entry ∈ moment.created?, entry.artifact.name = entry.name) ∧
      (history.filterMap Moment.compiled?).map Artifact.serial =
        List.range registry.compilations) ∧
    -- The counters.
    (registry.hits + registry.misses = history.countP (·.id?.isSome) ∧
      registry.compilations =
        history.countP (fun moment => moment.isMiss && moment.given?.isSome) ∧
      registry.cache = history.filterMap Moment.kept? ∧
      registry.entries = (history.filterMap Moment.kept?).length) ∧
    -- Dropping a name drops what was compiled under it.
    (∀ name, registry.invalidate name = (registry.cache.countP (·.name == name),
      { registry with cache := registry.cache.filter (·.name != name) })) ∧
    -- What fails changes neither the registrations nor what is kept.
    (∀ command, (registry.answer command).isError →
      (registry.behind command).registrations = registry.registrations ∧
        (registry.behind command).cache = registry.cache) := by
  intro registry history
  obtain ⟨sound, visible⟩ := CellRegistry.after_sound commands
  have recorded : registry.Recorded history := after_recorded commands
  refine ⟨⟨visible, fun command => ?_, sound, ?_⟩, fun request registration known => ?_,
    ⟨fun moment inside entry made => ?_, recorded.serials⟩,
    ⟨recorded.asked, recorded.compilations_eq, recorded.cache, ?_⟩, invalidate_eq registry,
    fun command failed => behind_of_error failed⟩
  · exact (CellRegistry.perform_sound sound command).answer.trans
      (congrArg (answer · command) visible)
  · exact sound.keys_eq.trans (congrArg (fun seen : Registry => seen.cache.map _) visible)
  · obtain ⟨hit, answered⟩ := specialize_hit known
    constructor
    · rw [hit, exists_congr fun artifact => recorded.cached?_eq_some]
      constructor
      · rintro ⟨artifact, moment, inside, given⟩
        exact ⟨moment, inside, artifact, given⟩
      · rintro ⟨moment, inside, artifact, given⟩
        exact ⟨artifact, moment, inside, given⟩
    · intro moment inside artifact given asked spares
      have kept := recorded.cached?_eq_some.mpr ⟨moment, inside, given, asked, spares⟩
      exact congrArg Prod.fst (answered artifact kept)
  · exact (recorded.created moment inside entry made).symm
  · exact congrArg List.length recorded.cache

/-- `copies` is compiled on a miss, given out again on a hit, dropped, and compiled once more. -/
example : let commands : List Command := [.change (.insert copies .empty),
      .change (.specialize (copiesWith [])), .change (.specialize (copiesWith [])),
      .change (.invalidate "copies"), .change (.specialize (copiesWith []))]
    (moments empty commands).map (fun moment =>
        (moment.isMiss, moment.isHit, moment.given?.map Artifact.serial, moment.behind.entries)) =
      [(false, false, none, 0), (true, false, some 0, 1), (false, true, some 0, 1),
        (false, false, none, 0), (true, false, some 1, 1)] := by
  decide +kernel

end Registry

end GridStencil
