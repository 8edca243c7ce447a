import GridStencil.Definition.Printer
import GridStencil.Definition.Reader
import GridStencil.Kernel
import GridStencil.Plan
import GridStencil.StencilId

/-!
Stencil definitions by name, and the stencils compiled from them.

A compiled stencil is kept under its identity and given out again when the same is asked for. What
fails to compile is not kept. Every compilation gets a number of its own, so that it can be told
whether two requests were answered by the same one.
-/

namespace GridStencil

/-- A registered definition. -/
structure Registration where
  definition : Definition
  /-- Its canonical text. -/
  fingerprint : String
  /-- The values of its externals where a request gives none. -/
  defaults : Externals

/-- A compiled stencil with what it was compiled from. -/
structure Artifact where
  id : StencilId
  backend : Backend
  context : Context
  kernel : Kernel
  /-- The number of its compilation. -/
  serial : Nat

namespace Artifact

/-- The name of the stencil. -/
def name (artifact : Artifact) : String := artifact.kernel.interface.name

/-- The artifact in one line. -/
def summary (artifact : Artifact) : String :=
  "CompiledStencil \x7b id: StencilId(" ++ artifact.id.render ++ "), name: \"" ++ artifact.name ++
    "\", backend: " ++ artifact.backend.tag ++ ", .. \x7d"

end Artifact

/-- A kept artifact with the name of the stencil it was asked for by. -/
structure CacheEntry where
  name : String
  artifact : Artifact

/-- Definitions, artifacts, and counters. -/
structure Registry where
  registrations : Name.Table Registration
  cache : List CacheEntry
  /-- Requests answered by a kept artifact. -/
  hits : Nat
  /-- Requests that needed a compilation. -/
  misses : Nat
  /-- Compilations that succeeded. -/
  compilations : Nat

/-- What is asked for: a stencil, values of externals, a backend, and types. -/
structure Request where
  name : String
  overrides : Externals
  backend : Backend
  signature : Signature

namespace Registration

/-- The registration of a definition. -/
def ofDefinition (definition : Definition) (defaults : Externals) : Registration :=
  ⟨definition, definition.render, defaults⟩

/-- The part of the program that messages about registrations come from. -/
def logTarget : String := "strata::registry"

/-- A warning about an external that the definition does not declare. -/
def warning (registration : Registration) (name consequence : String) : LogEntry :=
  ⟨.warning, logTarget, Text.quoted registration.definition.name ++
    " does not declare external " ++ Text.quoted name ++ ", " ++ consequence⟩

/-- The names of some externals that the definition does not declare. -/
def undeclared (registration : Registration) (externals : Externals) : List String :=
  externals.names.filter fun name => !registration.definition.declares name

/-- The warnings about defaults that are of no use. -/
def defaultWarnings (registration : Registration) : List LogEntry :=
  (registration.undeclared registration.defaults).map (registration.warning ·
    "its default is unused")

/-- The warnings about values that a request gives in vain. -/
def overrideWarnings (registration : Registration) (overrides : Externals) : List LogEntry :=
  (registration.undeclared overrides).map (registration.warning · "ignoring it")

/-- The values of the declared externals: those of the request, and the defaults elsewhere. -/
def resolve (registration : Registration) (overrides : Externals) : Externals :=
  (registration.defaults.merge overrides).keep registration.definition.declares

end Registration

namespace Registry

/-- The registry that holds nothing. -/
def empty : Registry := ⟨.empty, [], 0, 0, 0⟩

/-- The result of an operation with the messages it gave. -/
structure Logged (α : Type) where
  log : List LogEntry
  value : α

/-- Registers a definition under its own name. -/
def insert (registry : Registry) (definition : Definition) (defaults : Externals) :
    Except Error (Logged (Registration × Registry)) :=
  if (registry.registrations.get? definition.name).isSome then
    .error (Fault.within ⟨definition.span,
      .alreadyBound definition.name "a registered stencil"⟩ definition.source)
  else
    let registration := Registration.ofDefinition definition defaults
    .ok ⟨registration.defaultWarnings, registration,
      { registry with
        registrations := registry.registrations.insert definition.name registration }⟩

/-- The stencil of a source that is meant by a name: the one of this name, or the only one. -/
def choose (name : String) (definitions : List Definition) : Except Error Definition :=
  match Definition.find? definitions name, definitions with
  | some definition, _ => .ok definition
  | none, [definition] => .ok { definition with name }
  | none, _ => .error (.ofCause (.undefined "stencil" name))

/-- Registers a stencil of a text under a name. -/
def register (registry : Registry) (name text : String) (defaults : Externals) :
    Except Error (Logged (Registration × Registry)) := do
  let definitions ← Definition.readAll ⟨name, text⟩
  registry.insert (← choose name definitions) defaults

/-- The registration of a name. -/
def lookup (registry : Registry) (name : String) : Except Error Registration :=
  match registry.registrations.get? name with
  | some registration => .ok registration
  | none => .error (.ofCause (.undefined "stencil" name))

/-- The identity of what a request asks for. -/
def idOf (registration : Registration) (request : Request) : StencilId :=
  .compute registration.fingerprint (registration.resolve request.overrides) request.backend
    request.signature

/-- The identity that a request would be answered under. -/
def stencilId (registry : Registry) (request : Request) : Except Error (Logged StencilId) := do
  let registration ← registry.lookup request.name
  return ⟨registration.overrideWarnings request.overrides, idOf registration request⟩

/-- The context and the kernel that a request asks for, compiled afresh. -/
def compile (definition : Definition) (externals : Externals) (backend : Backend)
    (signature : Signature) : Logged (Except Error (Context × Kernel)) :=
  match Context.ofDefinition? definition externals signature with
  | .error error => ⟨[], .error error⟩
  | .ok context =>
    let outcome := PassTable.standard.run context ["all"] []
    match outcome.failure with
    | some error => ⟨outcome.log, .error error⟩
    | none =>
      ⟨outcome.log, (Kernel.ofContext? backend outcome.context).map fun kernel =>
        (outcome.context, kernel)⟩

/-- The kept artifact with an identity. -/
def cached? (registry : Registry) (id : StencilId) : Option Artifact :=
  (registry.cache.find? (·.artifact.id = id)).map CacheEntry.artifact

/-- Compiles what a request asks for, and keeps it if that succeeds. -/
def compileAndKeep (registry : Registry) (registration : Registration) (request : Request) :
    Logged (Except Error Artifact × Registry) :=
  let id := idOf registration request
  let registry := { registry with misses := registry.misses + 1 }
  let ⟨log, result⟩ := compile registration.definition (registration.resolve request.overrides)
    request.backend request.signature
  match result with
  | .error error => ⟨log, .error error, registry⟩
  | .ok (context, kernel) =>
    let artifact : Artifact := ⟨id, request.backend, context, kernel, registry.compilations⟩
    ⟨log, .ok artifact, { registry with
      compilations := registry.compilations + 1
      cache := registry.cache ++ [⟨registration.definition.name, artifact⟩] }⟩

/-- Answers a request, from what is kept if possible. -/
def specialize (registry : Registry) (request : Request) :
    Logged (Except Error Artifact × Registry) :=
  match registry.lookup request.name with
  | .error error => ⟨[], .error error, registry⟩
  | .ok registration =>
    let warnings := registration.overrideWarnings request.overrides
    match registry.cached? (idOf registration request) with
    | some artifact => ⟨warnings, .ok artifact, { registry with hits := registry.hits + 1 }⟩
    | none =>
      let ⟨log, answer⟩ := registry.compileAndKeep registration request
      ⟨warnings ++ log, answer⟩

/-- Drops the artifacts that were asked for by a name, and counts them. -/
def invalidate (registry : Registry) (name : String) : Nat × Registry :=
  let kept := registry.cache.filter (·.name != name)
  (registry.cache.length - kept.length, { registry with cache := kept })

/-- Drops all artifacts. -/
def clear (registry : Registry) : Registry := { registry with cache := [] }

/-- How many artifacts are kept. -/
def entries (registry : Registry) : Nat := registry.cache.length

/-- The names of all registrations. -/
def names (registry : Registry) : List String := registry.registrations.names

end Registry

end GridStencil
