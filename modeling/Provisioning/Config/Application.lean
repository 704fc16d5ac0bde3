import Mathlib.Logic.Function.Basic
import Provisioning.Ops.Types

/-!
# Documents of applications and the registry of connector instances

`src/config/application.ts` and the connector registry of the framework. The two validators are
parameters: they are pure, and what the second one computes it computes in floating point.
-/

namespace Provisioning

/-! ## Documents -/

abbrev Fields := List (String × Json)

def SCHEDULING_KEYS : List String := ["interactiveSliceFraction", "rateLimits"]

structure ApplicationConfig where
  applicationId : String
  connectorType : String
  connectorVersion : String
  connectorConfig : Fields
  runtime : Option Fields

structure SplitRuntime where
  execution : Fields
  scheduling : Fields

def splitRuntimeBlock (runtime : Option Fields) : SplitRuntime where
  execution := (runtime.getD []).filter fun f => f.1 ∉ SCHEDULING_KEYS
  scheduling := (runtime.getD []).filter fun f => f.1 ∈ SCHEDULING_KEYS

/-- The documents that a config store can serve. A version names one document of its application,
and the store refuses a document whose id is not the one asked for. -/
structure Documents where
  config : String → String → ApplicationConfig
  own : ∀ applicationId version, (config applicationId version).applicationId = applicationId

/-! ## Validators -/

structure Validators (Runtime Scheduling : Type) where
  resolveRuntimeConfig : Fields → Except String Runtime
  mutationConcurrency : Runtime → Nat
  resolveSchedulingConfig : Fields → Nat → Except String Scheduling

/-! ## The registry -/

structure ConnectorDefinition (Runtime : Type) where
  id : String
  type : String
  version : String
  rawConfig : Fields
  runtime : Runtime

structure ConnectorRegistry (Runtime : Type) where
  definitions : String → Option (ConnectorDefinition Runtime)
  /-- The type and version of each instance that was built. -/
  instances : String → Option (String × String)
  materializing : String → Option (ConnectorDefinition Runtime)

namespace ConnectorRegistry

variable {Runtime Scheduling : Type} (v : Validators Runtime Scheduling) (registry : ConnectorRegistry Runtime)

def empty : ConnectorRegistry Runtime := ⟨fun _ => none, fun _ => none, fun _ => none⟩

def getDefinition (id : String) : Option (ConnectorDefinition Runtime) := registry.definitions id

def alreadyRegistered (id existingType existingVersion type version : String) : String :=
  s!"Connector instance '{id}' already registered as {existingType}@{existingVersion}; " ++
    s!"refusing to overwrite with {type}@{version}. Call disposeInstance('{id}') first to replace it."

def assertNotRegistered (id type version : String) : Except String Unit :=
  match registry.instances id, registry.definitions id with
  | some (t, n), _ => .error (alreadyRegistered id t n type version)
  | none, some d => .error (alreadyRegistered id d.type d.version type version)
  | none, none => .ok ()

def registerInstance (id type version : String) (rawConfig runtimeConfig : Fields) :
    Except String (ConnectorRegistry Runtime) :=
  match registry.assertNotRegistered id type version with
  | .error e => .error e
  | .ok () =>
    match v.resolveRuntimeConfig runtimeConfig with
    | .error e => .error s!"Connector instance '{id}': {e}"
    | .ok runtime =>
      let definition : ConnectorDefinition Runtime := ⟨id, type, version, rawConfig, runtime⟩
      .ok { registry with definitions := Function.update registry.definitions id (some definition) }

/-! `disposeInstance` releases the id before it awaits the disposal of the instance. -/

def disposeDefinition (id : String) : ConnectorRegistry Runtime :=
  { registry with definitions := Function.update registry.definitions id none }

def disposeBuilt (id : String) : ConnectorRegistry Runtime :=
  { registry with instances := Function.update registry.instances id none }

/-! `materializeInstance` builds from the definition that it read, and the build may end after that
definition was disposed of. -/

def startBuild (id : String) : Option (ConnectorRegistry Runtime) :=
  match registry.instances id, registry.materializing id, registry.definitions id with
  | none, none, some d => some { registry with materializing := Function.update registry.materializing id (some d) }
  | _, _, _ => none

def endBuild (id : String) (succeeded : Bool) : Option (ConnectorRegistry Runtime) :=
  (registry.materializing id).map fun d =>
    { registry with
      materializing := Function.update registry.materializing id none
      instances :=
        if succeeded then Function.update registry.instances id (some (d.type, d.version)) else registry.instances }

variable {v registry} {id type version : String} {rawConfig runtimeConfig : Fields}

theorem assertNotRegistered_ok (h : registry.assertNotRegistered id type version = .ok ()) :
    registry.definitions id = none := by
  unfold assertNotRegistered at h
  split at h
  · cases h
  · cases h
  · assumption

theorem registerInstance_ok {registry' : ConnectorRegistry Runtime}
    (h : registry.registerInstance v id type version rawConfig runtimeConfig = .ok registry') :
    registry.definitions id = none ∧
      ∃ runtime, v.resolveRuntimeConfig runtimeConfig = .ok runtime ∧
        registry' = { registry with
          definitions := Function.update registry.definitions id (some ⟨id, type, version, rawConfig, runtime⟩) } := by
  unfold registerInstance at h
  split at h
  · cases h
  · rename_i hfree
    refine ⟨assertNotRegistered_ok hfree, ?_⟩
    split at h
    · cases h
    · rename_i runtime hruntime
      cases h
      exact ⟨runtime, hruntime, rfl⟩

theorem startBuild_definitions {registry' : ConnectorRegistry Runtime} (h : registry.startBuild id = some registry') :
    registry'.definitions = registry.definitions := by
  unfold startBuild at h
  split at h
  · cases h
    rfl
  · cases h

theorem endBuild_definitions {registry' : ConnectorRegistry Runtime} {succeeded : Bool}
    (h : registry.endBuild id succeeded = some registry') : registry'.definitions = registry.definitions := by
  unfold endBuild at h
  obtain ⟨d, -, rfl⟩ := Option.map_eq_some_iff.1 h
  rfl

end ConnectorRegistry

end Provisioning
