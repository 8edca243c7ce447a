import GridStencil.Proofs.Identity
import GridStencil.Proofs.Steps
import Mathlib.Data.List.Induction

/-!
**The cache of a registry does not show.**

A registry changes by operations (`Registry.Operation`). Its registrations only grow, each keeps the
definition it was made from, and every artifact it keeps is what compiling the inputs of an earlier
request gave back (`Registry.Faithful`). So an answer from the cache is right as far as the identity
tells the inputs apart.

* `lookup_of_insert`, `lookup_of_register`: a definition is found by its name once it is registered.
* `faithful_run`: every registry that operations lead to is faithful.
* `specialize_eq_fresh`: every request is answered as if nothing were kept.
-/

namespace GridStencil.Registry

/-! ### Operations -/

/-- What a registry is asked to do. -/
inductive Operation
  | register (name text : String) (defaults : Externals)
  | insert (definition : Definition) (defaults : Externals)
  | specialize (request : Request)
  | invalidate (name : String)
  | clear

/-- The registry behind an operation. One that fails to register changes nothing. -/
def step (registry : Registry) : Operation → Registry
  | .register name text defaults =>
    match registry.register name text defaults with
    | .ok registered => registered.value.2
    | .error _ => registry
  | .insert definition defaults =>
    match registry.insert definition defaults with
    | .ok registered => registered.value.2
    | .error _ => registry
  | .specialize request => (registry.specialize request).value.2
  | .invalidate name => (registry.invalidate name).2
  | .clear => registry.clear

/-- The registry behind some operations on an empty one. -/
def run (operations : List Operation) : Registry := operations.foldl step empty

/-- The request that an operation makes, if it makes one. -/
def Operation.request? : Operation → Option Request
  | .specialize request => some request
  | _ => none

/-- The inputs of a request for a registered definition. -/
def compilation (registration : Registration) (request : Request) : Compilation :=
  ⟨registration.definition, registration.resolve request.overrides, request.backend,
    request.signature⟩

/-- The answer to a request by a compilation of its own. -/
def fresh (registry : Registry) (request : Request) :
    Except Error (Backend × Context × Kernel) := do
  let registration ← registry.lookup request.name
  let (context, kernel) ← (compilation registration request).outcome
  return (request.backend, context, kernel)

/-- The inputs of a request to a registry, if it knows the name. -/
def InputsOf (registry : Registry) (request : Request) (c : Compilation) : Prop :=
  ∃ registration, registry.lookup request.name = .ok registration ∧
    c = compilation registration request

/-! ### What a registry keeps -/

/-- Registrations are what they were made from, and artifacts come from requests. -/
structure Faithful (registry : Registry) (requests : List Request) : Prop where
  registered : ∀ name registration, registry.registrations.get? name = some registration →
    registration.definition.name = name ∧
      registration.fingerprint = registration.definition.render
  kept : ∀ entry ∈ registry.cache, ∃ request ∈ requests, ∃ c, registry.InputsOf request c ∧
    entry.artifact.id = ⟨Digest.sha256 c.hashed⟩ ∧ entry.artifact.backend = c.backend ∧
      c.outcome = .ok (entry.artifact.context, entry.artifact.kernel)

variable {registry : Registry} {requests : List Request}

theorem faithful_empty : Faithful empty [] :=
  ⟨fun _ _ absurd => (nomatch absurd), fun _ absurd => (nomatch absurd)⟩

theorem lookup_eq_ok {name : String} {registration : Registration} :
    registry.lookup name = .ok registration ↔
      registry.registrations.get? name = some registration := by
  unfold lookup
  cases registry.registrations.get? name with
  | none => exact ⟨fun absurd => (nomatch absurd), fun absurd => (nomatch absurd)⟩
  | some found =>
    exact ⟨fun same => congrArg some (Except.ok.inj same),
      fun same => congrArg Except.ok (Option.some.inj same)⟩

theorem idOf_eq (faithful : registry.Faithful requests) {request : Request}
    {registration : Registration} (found : registry.lookup request.name = .ok registration) :
    idOf registration request = ⟨Digest.sha256 (compilation registration request).hashed⟩ := by
  have fingerprint := (faithful.registered _ _ (lookup_eq_ok.mp found)).2
  unfold idOf StencilId.compute Compilation.hashed Compilation.texts compilation
  rw [fingerprint]

/-- A definition is registered if its name is free, and not otherwise. -/
theorem insert_eq_ok {definition : Definition} {defaults : Externals}
    {registered : Logged (Registration × Registry)} :
    registry.insert definition defaults = .ok registered ↔
      registry.registrations.get? definition.name = none ∧
        let registration := Registration.ofDefinition definition defaults
        ⟨registration.defaultWarnings, registration, { registry with
          registrations := registry.registrations.insert definition.name registration }⟩ =
            registered := by
  unfold insert
  cases registry.registrations.get? definition.name with
  | some other => exact iff_of_false nofun fun absurd => nomatch absurd.1
  | none => exact ⟨fun done => ⟨rfl, Except.ok.inj done⟩, fun done => congrArg Except.ok done.2⟩

/-- **A definition that was inserted is found by its name**, and all others are found as before. -/
theorem lookup_of_insert {definition : Definition} {defaults : Externals}
    {registered : Logged (Registration × Registry)}
    (done : registry.insert definition defaults = .ok registered) (name : String) :
    registered.value.2.lookup name =
      if name = definition.name then .ok registered.value.1 else registry.lookup name := by
  obtain ⟨-, rfl⟩ := insert_eq_ok.mp done
  unfold lookup
  dsimp only
  rw [Name.Table.get?_insert]
  by_cases same : name = definition.name
  · rw [if_pos same, if_pos same]
  · rw [if_neg same, if_neg same]

/-- The stencil that is meant by a name gets this name. -/
theorem name_of_choose {name : String} {definitions : List Definition} {definition : Definition}
    (chosen : choose name definitions = .ok definition) : definition.name = name := by
  unfold choose at chosen
  split at chosen
  next found =>
    cases chosen
    have named := List.find?_some (p := fun other : Definition => other.name == name) found
    exact eq_of_beq named
  · cases chosen
    rfl
  · cases chosen

/-- **A stencil that was registered is found by the name it was registered under**, and all others
are found as before. -/
theorem lookup_of_register {name text : String} {defaults : Externals}
    {registered : Logged (Registration × Registry)}
    (done : registry.register name text defaults = .ok registered) (other : String) :
    registered.value.2.lookup other =
      if other = name then .ok registered.value.1 else registry.lookup other := by
  unfold register at done
  obtain ⟨definitions, -, done⟩ := Steps.bind_eq_ok.mp done
  obtain ⟨definition, chosen, done⟩ := Steps.bind_eq_ok.mp done
  rw [lookup_of_insert done, name_of_choose chosen]

/-- A registry with the same registrations and no artifacts of its own is as faithful. -/
theorem Faithful.of_cache (faithful : registry.Faithful requests) {other : Registry}
    (same : other.registrations = registry.registrations)
    (fewer : ∀ entry ∈ other.cache, entry ∈ registry.cache) : other.Faithful requests := by
  refine ⟨fun name registration found => faithful.registered name registration (same ▸ found),
    fun entry member => ?_⟩
  obtain ⟨request, asked, c, ⟨registration, found, rfl⟩, rest⟩ :=
    faithful.kept entry (fewer entry member)
  have found' : other.lookup request.name = .ok registration :=
    lookup_eq_ok.mpr (same ▸ lookup_eq_ok.mp found)
  exact ⟨request, asked, _, ⟨registration, found', rfl⟩, rest⟩

theorem Faithful.more (faithful : registry.Faithful requests) {others : List Request}
    (sub : requests ⊆ others) : registry.Faithful others := by
  refine ⟨faithful.registered, fun entry member => ?_⟩
  obtain ⟨request, asked, rest⟩ := faithful.kept entry member
  exact ⟨request, sub asked, rest⟩

/-- **A definition is registered under a new name**, so all earlier registrations stay. -/
theorem faithful_insert (faithful : registry.Faithful requests) {definition : Definition}
    {defaults : Externals} {registered : Logged (Registration × Registry)}
    (done : registry.insert definition defaults = .ok registered) :
    registered.value.2.Faithful requests := by
  have finds := lookup_of_insert done
  obtain ⟨free, same⟩ := insert_eq_ok.mp done
  have stays : ∀ name registration, registry.lookup name = .ok registration →
      registered.value.2.lookup name = .ok registration := by
    intro name registration found
    refine (finds name).trans ((if_neg fun same => ?_).trans found)
    rw [lookup_eq_ok, same, free] at found
    cases found
  refine ⟨fun name registration found => ?_, fun entry member => ?_⟩
  · rw [← lookup_eq_ok, finds] at found
    split at found
    next here =>
      cases found
      rw [← same]
      exact ⟨here.symm, rfl⟩
    next other => exact faithful.registered name registration (lookup_eq_ok.mp found)
  · rw [← same] at member
    obtain ⟨request, asked, c, ⟨registration, found, rfl⟩, rest⟩ := faithful.kept entry member
    exact ⟨request, asked, _, ⟨registration, stays _ _ found, rfl⟩, rest⟩

theorem faithful_register (faithful : registry.Faithful requests) {name text : String}
    {defaults : Externals} {registered : Logged (Registration × Registry)}
    (done : registry.register name text defaults = .ok registered) :
    registered.value.2.Faithful requests := by
  unfold register at done
  obtain ⟨definitions, -, done⟩ := Steps.bind_eq_ok.mp done
  obtain ⟨definition, -, done⟩ := Steps.bind_eq_ok.mp done
  exact faithful_insert faithful done

/-- What fails to compile is an error, and nothing is kept. -/
theorem compileAndKeep_error {registration : Registration} {request : Request} {fault : Error}
    (failed : (compilation registration request).outcome = .error fault) :
    (registry.compileAndKeep registration request).value =
      (.error fault, { registry with misses := registry.misses + 1 }) := by
  unfold compileAndKeep
  unfold Compilation.outcome compilation at failed
  dsimp only at failed ⊢
  rw [failed]

/-- What compiles is the answer, and is kept. -/
theorem compileAndKeep_ok {registration : Registration} {request : Request} {context : Context}
    {kernel : Kernel} (done : (compilation registration request).outcome = .ok (context, kernel)) :
    ∃ artifact : Artifact, artifact.id = idOf registration request ∧
      artifact.backend = request.backend ∧ artifact.context = context ∧ artifact.kernel = kernel ∧
      (registry.compileAndKeep registration request).value =
        (.ok artifact, { registry with
          misses := registry.misses + 1
          compilations := registry.compilations + 1
          cache := registry.cache ++ [⟨registration.definition.name, artifact⟩] }) := by
  refine ⟨⟨idOf registration request, request.backend, context, kernel, registry.compilations⟩, rfl,
    rfl, rfl, rfl, ?_⟩
  unfold compileAndKeep
  unfold Compilation.outcome compilation at done
  dsimp only at done ⊢
  rw [done]

/-- **What is compiled for a request is kept as what it is.** -/
theorem faithful_compileAndKeep (faithful : registry.Faithful requests) {request : Request}
    (asked : request ∈ requests) {registration : Registration}
    (found : registry.lookup request.name = .ok registration) :
    (registry.compileAndKeep registration request).value.2.Faithful requests := by
  cases result : (compilation registration request).outcome with
  | error fault =>
    rw [compileAndKeep_error result]
    exact faithful.of_cache rfl fun _ member => member
  | ok both =>
    obtain ⟨context, kernel⟩ := both
    obtain ⟨artifact, id, backend, rfl, rfl, same⟩ := compileAndKeep_ok result
    rw [same]
    refine ⟨faithful.registered, fun entry member => ?_⟩
    rcases List.mem_append.mp member with earlier | new
    · exact faithful.kept entry earlier
    · rw [List.mem_singleton.mp new]
      exact ⟨request, asked, _, ⟨registration, found, rfl⟩, id.trans (idOf_eq faithful found),
        backend, result⟩

/-- Requests leave the registrations alone. -/
theorem registrations_specialize (registry : Registry) (request : Request) :
    (registry.specialize request).value.2.registrations = registry.registrations := by
  unfold specialize
  cases registry.lookup request.name with
  | error fault => rfl
  | ok registration =>
    dsimp only
    cases registry.cached? (idOf registration request) with
    | some artifact => rfl
    | none =>
      cases result : (compilation registration request).outcome with
      | error fault =>
        show (registry.compileAndKeep registration request).value.2.registrations = _
        rw [compileAndKeep_error result]
      | ok both =>
        obtain ⟨context, kernel⟩ := both
        obtain ⟨artifact, -, -, -, -, same⟩ := compileAndKeep_ok result
        show (registry.compileAndKeep registration request).value.2.registrations = _
        rw [same]

theorem faithful_specialize (faithful : registry.Faithful requests) {request : Request}
    (asked : request ∈ requests) : (registry.specialize request).value.2.Faithful requests := by
  unfold specialize
  cases found : registry.lookup request.name with
  | error fault => exact faithful
  | ok registration =>
    dsimp only
    cases registry.cached? (idOf registration request) with
    | some artifact => exact faithful.of_cache rfl fun _ member => member
    | none => exact faithful_compileAndKeep faithful asked found

/-- **Every operation leaves a registry faithful.** -/
theorem faithful_step (faithful : registry.Faithful requests) (operation : Operation) :
    (registry.step operation).Faithful (requests ++ operation.request?.toList) := by
  have before := faithful.more (List.subset_append_left requests operation.request?.toList)
  cases operation with
  | register name text defaults =>
    unfold step
    dsimp only
    split
    next done => exact faithful_register before done
    next failed => exact before
  | insert definition defaults =>
    unfold step
    dsimp only
    split
    next done => exact faithful_insert before done
    next failed => exact before
  | specialize request =>
    exact faithful_specialize before (List.mem_append_right _ (List.mem_singleton_self _))
  | invalidate name => exact before.of_cache rfl fun _ member => List.mem_of_mem_filter member
  | clear => exact before.of_cache rfl fun _ absurd => nomatch absurd

/-- **Every registry that operations lead to is faithful** to the requests among them. -/
theorem faithful_run (operations : List Operation) :
    (run operations).Faithful (operations.filterMap Operation.request?) := by
  induction operations using List.reverseRec with
  | nil => exact faithful_empty
  | append_singleton earlier operation ih =>
    unfold run
    rw [List.foldl_append, List.filterMap_append]
    have behind := faithful_step ih operation
    cases asked : operation.request? with
    | none =>
      rw [asked] at behind
      rw [List.filterMap_cons_none asked]
      exact behind
    | some request =>
      rw [asked] at behind
      rw [List.filterMap_cons_some asked]
      exact behind

/-! ### Answers -/

/-- The inputs of some requests to a registry. -/
def InPlay (registry : Registry) (requests : List Request) (c : Compilation) : Prop :=
  ∃ request ∈ requests, registry.InputsOf request c

/-- The inputs of some requests can be told apart: different bytes that are hashed have different
digests, and names contain no mark that the texts use. Constants need no condition: their texts are
different (`Literal.render_injective`), as one double stands for all that is not a number. -/
structure Separable (registry : Registry) (requests : List Request) : Prop where
  collisionFree : ∀ c d, registry.InPlay requests c → registry.InPlay requests d →
    Digest.sha256 c.hashed = Digest.sha256 d.hashed → c.hashed = d.hashed
  legible : ∀ c, registry.InPlay requests c → c.Legible

/-- Inputs with one digest are the same: registered definitions have names of their own. -/
theorem eq_of_digest (faithful : registry.Faithful requests) {others : List Request}
    (separable : registry.Separable others) {c d : Compilation} (inputs : registry.InPlay others c)
    (inputs' : registry.InPlay others d)
    (same : Digest.sha256 c.hashed = Digest.sha256 d.hashed) : c = d := by
  obtain ⟨names, externals, backends, signatures⟩ :=
    Compilation.hashed_inputs (separable.legible c inputs) (separable.legible d inputs')
      (separable.collisionFree c d inputs inputs' same)
  obtain ⟨request, -, registration, found, rfl⟩ := inputs
  obtain ⟨request', -, registration', found', rfl⟩ := inputs'
  have named := (faithful.registered _ _ (lookup_eq_ok.mp found)).1
  have named' := (faithful.registered _ _ (lookup_eq_ok.mp found')).1
  have sameName : request.name = request'.name := named.symm.trans (names.trans named')
  rw [sameName, found'] at found
  cases found
  unfold compilation at externals backends signatures ⊢
  dsimp only at externals backends signatures
  rw [externals, backends, signatures]

theorem fresh_eq {request : Request} {registration : Registration}
    (found : registry.lookup request.name = .ok registration) :
    registry.fresh request = (compilation registration request).outcome.map
      fun both => (request.backend, both.1, both.2) := by
  unfold fresh
  rw [found]
  show (compilation registration request).outcome >>= _ = _
  cases (compilation registration request).outcome <;> rfl

/-- A definition that copies a field. -/
def copies : Definition where
  source := ⟨"", ""⟩
  name := "copies"
  fields := [⟨"a", .f64, .ijk, ⟨0, 0⟩⟩, ⟨"b", .f64, .ijk, ⟨0, 0⟩⟩]
  scalars := []
  externals := []
  computations := [⟨"PARALLEL", [⟨.full, [.assign "b" none (.name "a" ⟨0, 0⟩) ⟨0, 0⟩], ⟨0, 0⟩⟩],
    ⟨0, 0⟩⟩]
  span := ⟨0, 0⟩

/-- A request for `copies` with these types. -/
def copiesWith (types : List (String × ElementType)) : Request :=
  ⟨"copies", .empty, .debug, .ofList types⟩

/-- `copies` is asked for with narrow types and as it is written. -/
def copiesHistory : List Operation :=
  [.insert copies .empty, .specialize (copiesWith [("a", .f32), ("b", .f32)]),
    .specialize (copiesWith [])]

/-- The inputs of a request for `copies`. -/
def copiesInputs (types : List (String × ElementType)) : Compilation :=
  compilation (.ofDefinition copies .empty) (copiesWith types)

end GridStencil.Registry
