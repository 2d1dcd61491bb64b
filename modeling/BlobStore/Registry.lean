import BlobStore.Config
import BlobStore.Storage
import Std.Data.HashMap

/-!
# Registries of backends

A registry knows, for every name of a backend, how a storage is made from a configuration. A
configuration names its backend in the field `type`. The table of a registry has no order; its names
are put in order when they are asked for.

## Main definitions

* `Factory`: how a storage is made
* `Registry`: factories by their names
* `Registry.register`, `Registry.create`, `Registry.ofConfig`: what can be done with them
* `Registry.of`: the registry of some factories
-/

namespace BlobStore

/-- Makes a storage over a state from a configuration; the state may change thereby. -/
abbrev Factory (ω : Type) := Config → Time → ω → Except StorageError (Storage ω) × ω

/-- The factories by the names of their backends. -/
structure Registry (ω : Type) where
  factories : Std.HashMap String (Factory ω) := ∅

namespace Registry

variable {ω : Type}

/-- The registry without backends. -/
def empty : Registry ω := {}

/-- What registries report. -/
def report (level : Level) (message : String) (fields : List (String × String)) : Event :=
  ⟨level, .registry, message, fields⟩

/-- A factory registered under a name. To replace the one that was there is worth a warning. -/
def register (registry : Registry ω) (name : String) (factory : Factory ω) :
    List Event × Registry ω :=
  let warnings := if registry.factories.contains name then
      [report .warn "storage factory replaced" [("backend", name)]]
    else []
  (warnings, ⟨registry.factories.insert name factory⟩)

/-- Factories registered one after the other. -/
def registerAll (registry : Registry ω) : List (String × Factory ω) → List Event × Registry ω
  | [] => ([], registry)
  | (name, factory) :: rest =>
    let (warnings, registry) := registry.register name factory
    let (more, registry) := registry.registerAll rest
    (warnings ++ more, registry)

/-- The registry of some factories. -/
def of (factories : List (String × Factory ω)) : Registry ω := (empty.registerAll factories).2

/-- Whether a backend is registered under a name. -/
def contains (registry : Registry ω) (name : String) : Bool := registry.factories.contains name

/-- The registered names, in ascending order. -/
def names (registry : Registry ω) : List String :=
  registry.factories.keys.mergeSort fun a b => decide (a ≤ b)

/-- A registry as it is shown to a developer. -/
def debug (registry : Registry ω) : String :=
  "StorageRegistry \x7b backends: [" ++ ", ".intercalate (registry.names.map Text.quoted) ++
    "] \x7d"

/-- A storage of the backend called `name`. -/
def create (registry : Registry ω) (name : String) (config : Config) (now : Time) (w : ω) :
    Reply (Storage ω) × ω :=
  match registry.factories.get? name with
  | none => (.error (.config (.unknownBackend name)), w)
  | some factory =>
    match factory config now w with
    | (.error e, w) => (.error e, w)
    | (.ok storage, w) =>
      let fields := [("backend", name), ("storage", storage.identifier)]
      (⟨.ok storage, [report .debug "storage created" fields]⟩, w)

/-- A storage of the backend that the configuration names. -/
def ofConfig (registry : Registry ω) (config : Config) (now : Time) (w : ω) :
    Reply (Storage ω) × ω :=
  match config.backend with
  | .error e => (.error (.config e), w)
  | .ok name => registry.create name config now w

end Registry

end BlobStore
