import Provisioning.Config.Application
import Provisioning.Lib.Transition

/-!
# The registrar of applications

`src/config/registerApplication.ts`. A resolution is cut where it awaits: the read of the config, the
drain of the leases, the disposal of the instance. What ends an await is an action. The promise that
`ensure` hands out settles later than the resolution, because it passes through the `finally` that
clears `inFlight`.
-/

namespace Provisioning

open Lib

/-- The message of an `ApplicationRegistrationError`. -/
def registrationError (applicationId message : String) : String := s!"application {applicationId}: {message}"

structure RegisteredApplication (Scheduling : Type) where
  applicationId : String
  version : String
  scheduling : Scheduling
  schedulingInput : Fields

variable {Runtime Scheduling : Type}

/-- `register`, with the registry that it leaves. -/
def register (v : Validators Runtime Scheduling) (registry : ConnectorRegistry Runtime)
    (config : ApplicationConfig) (version : String) :
    ConnectorRegistry Runtime × Except String (RegisteredApplication Scheduling) :=
  let halves := splitRuntimeBlock config.runtime
  let failed := fun message => Except.error (registrationError config.applicationId message)
  match registry.registerInstance v config.applicationId config.connectorType config.connectorVersion
      config.connectorConfig halves.execution with
  | .error e => (registry, failed e)
  | .ok registry =>
    match registry.getDefinition config.applicationId with
    | none => (registry, failed "registerInstance did not record a definition")
    | some definition =>
      match v.resolveSchedulingConfig halves.scheduling (v.mutationConcurrency definition.runtime) with
      | .error e => (registry, failed e)
      | .ok scheduling => (registry, .ok ⟨config.applicationId, version, scheduling, halves.scheduling⟩)

def threw {α : Type} : Except String α → Bool
  | .ok _ => false
  | .error _ => true

/-! ## The state -/

inductive Phase (Scheduling : Type) where
  | reading
  | draining (version : String)
  /-- `built` tells whether the disposed definition had an instance, which is awaited. -/
  | disposing (version : String) (built : Bool)
  | settled (result : Except String (RegisteredApplication Scheduling))

/-- The work that `inFlight` holds for an application, and the calls of `ensure` that share it. -/
structure InFlight (Scheduling : Type) where
  calls : List Nat
  phase : Phase Scheduling

structure Answer (Scheduling : Type) where
  call : Nat
  applicationId : String
  result : Except String (RegisteredApplication Scheduling)

/-- What the calls of `register` did, which the code does not keep. -/
structure Registration where
  version : String
  recorded : Bool
  threw : Bool
  deriving DecidableEq

structure ApplicationRegistrar (Runtime Scheduling : Type) where
  registry : ConnectorRegistry Runtime
  registered : String → Option (RegisteredApplication Scheduling)
  inFlight : String → Option (InFlight Scheduling)
  /-- The latest call is the first. -/
  registrations : String → List Registration
  /-- The calls whose promise is about to settle, and those whose promise has settled. -/
  settling : List (Answer Scheduling)
  answered : List (Answer Scheduling)

namespace ApplicationRegistrar

variable (docs : Documents) (v : Validators Runtime Scheduling) (drainTimeoutMs : Nat)
  (s : ApplicationRegistrar Runtime Scheduling)

def initial : ApplicationRegistrar Runtime Scheduling :=
  ⟨.empty, fun _ => none, fun _ => none, fun _ => [], [], []⟩

def schedulingOf (id : String) : Option Fields := (s.registered id).map (·.schedulingInput)

/-! ## Resolutions -/

def setPhase (id : String) (calls : List Nat) (phase : Phase Scheduling) : ApplicationRegistrar Runtime Scheduling :=
  { s with inFlight := Function.update s.inFlight id (some ⟨calls, phase⟩) }

/-- The end of `resolve`, from the call of `register`. -/
def conclude (id : String) (calls : List Nat) (version : String) : ApplicationRegistrar Runtime Scheduling :=
  let (registry, result) := register v s.registry (docs.config id version) version
  let recorded := (s.registry.getDefinition id).isNone && (registry.getDefinition id).isSome
  { s with
    registry := registry
    registered :=
      match result with
      | .ok app => Function.update s.registered id (some app)
      | .error _ => s.registered
    registrations :=
      Function.update s.registrations id (⟨version, recorded, threw result⟩ :: s.registrations id)
    inFlight := Function.update s.inFlight id (some ⟨calls, .settled result⟩) }

/-- `resolve` once the store has answered with a version of the document, or with null. -/
def resume (id : String) (calls : List Nat) : Except String (Option String) → ApplicationRegistrar Runtime Scheduling
  | .error e => s.setPhase id calls (.settled (.error (registrationError id s!"config could not be read -- {e}")))
  | .ok none => s.setPhase id calls (.settled (.error (registrationError id "no configuration found")))
  | .ok (some version) =>
    match (s.registered id).filter fun current => current.version = version with
    | some current => s.setPhase id calls (.settled (.ok current))
    | none =>
      match s.registry.getDefinition id with
      | some _ => s.setPhase id calls (.draining version)
      | none => s.conclude docs v id calls version

/-- The synchronous part of `disposeInstance`. -/
def dispose (id : String) (calls : List Nat) (version : String) : ApplicationRegistrar Runtime Scheduling :=
  { s with
    registry := s.registry.disposeDefinition id
    inFlight := Function.update s.inFlight id (some ⟨calls, .disposing version (s.registry.instances id).isSome⟩) }

def drainMessage (leases : Nat) : String :=
  s!"configuration changed but {leases} lease(s) are still outstanding after {drainTimeoutMs}ms; " ++
    "not replacing the instance while work is in flight"

def ensure (call : Nat) (id : String) : ApplicationRegistrar Runtime Scheduling :=
  match s.inFlight id with
  | some pending => s.setPhase id (pending.calls ++ [call]) pending.phase
  | none => s.setPhase id [call] .reading

/-- The `finally` of `ensure`. -/
def clear (id : String) (calls : List Nat) (result : Except String (RegisteredApplication Scheduling)) :
    ApplicationRegistrar Runtime Scheduling :=
  { s with
    inFlight := Function.update s.inFlight id none
    settling := s.settling ++ calls.map fun call => ⟨call, id, result⟩ }

/-! ## Steps -/

inductive Action where
  | ensure (call : Nat) (id : String)
  /-- A version of the document, null or an error. -/
  | configRead (id : String) (entry : Except String (Option String))
  | drained (id : String)
  | drainExpired (id : String) (leases : Nat)
  | disposed (id : String)
  | cleared (id : String)
  | answer (i : Nat)
  | startBuild (id : String)
  | endBuild (id : String) (succeeded : Bool)

def step : Action → Option (ApplicationRegistrar Runtime Scheduling)
  | .ensure call id => some (s.ensure call id)
  | .configRead id entry =>
    match s.inFlight id with
    | some ⟨calls, .reading⟩ => some (s.resume docs v id calls entry)
    | _ => none
  | .drained id =>
    match s.inFlight id with
    | some ⟨calls, .draining version⟩ => some (s.dispose id calls version)
    | _ => none
  | .drainExpired id leases =>
    match s.inFlight id with
    | some ⟨calls, .draining _⟩ =>
      if 0 < leases then
        some (s.setPhase id calls (.settled (.error (registrationError id (drainMessage drainTimeoutMs leases)))))
      else none
    | _ => none
  | .disposed id =>
    match s.inFlight id with
    | some ⟨calls, .disposing version built⟩ =>
      let registry := if built then s.registry.disposeBuilt id else s.registry
      some ({ s with registry := registry }.conclude docs v id calls version)
    | _ => none
  | .cleared id =>
    match s.inFlight id with
    | some ⟨calls, .settled result⟩ => some (s.clear id calls result)
    | _ => none
  | .answer i =>
    s.settling[i]?.map fun a => { s with settling := s.settling.eraseIdx i, answered := s.answered ++ [a] }
  | .startBuild id => (s.registry.startBuild id).map fun registry => { s with registry := registry }
  | .endBuild id succeeded => (s.registry.endBuild id succeeded).map fun registry => { s with registry := registry }

/-! ## What a step can do -/

inductive Stepped : Action → ApplicationRegistrar Runtime Scheduling → Prop
  | ensured {call : Nat} {id : String} : Stepped (.ensure call id) (s.ensure call id)
  | read {id : String} {calls : List Nat} {entry : Except String (Option String)}
      (h : s.inFlight id = some ⟨calls, .reading⟩) : Stepped (.configRead id entry) (s.resume docs v id calls entry)
  | drained {id : String} {calls : List Nat} {version : String}
      (h : s.inFlight id = some ⟨calls, .draining version⟩) : Stepped (.drained id) (s.dispose id calls version)
  | drainExpired {id : String} {calls : List Nat} {version : String} {leases : Nat}
      (h : s.inFlight id = some ⟨calls, .draining version⟩) (held : 0 < leases) :
      Stepped (.drainExpired id leases)
        (s.setPhase id calls (.settled (.error (registrationError id (drainMessage drainTimeoutMs leases)))))
  | disposed {id : String} {calls : List Nat} {version : String} {built : Bool} {registry : ConnectorRegistry Runtime}
      (h : s.inFlight id = some ⟨calls, .disposing version built⟩)
      (same : registry.definitions = s.registry.definitions) :
      Stepped (.disposed id) ({ s with registry := registry }.conclude docs v id calls version)
  | cleared {id : String} {calls : List Nat} {result : Except String (RegisteredApplication Scheduling)}
      (h : s.inFlight id = some ⟨calls, .settled result⟩) : Stepped (.cleared id) (s.clear id calls result)
  | answered {i : Nat} {a : Answer Scheduling} (h : s.settling[i]? = some a) :
      Stepped (.answer i) { s with settling := s.settling.eraseIdx i, answered := s.answered ++ [a] }
  | startedBuild {id : String} {registry : ConnectorRegistry Runtime}
      (h : s.registry.startBuild id = some registry) : Stepped (.startBuild id) { s with registry := registry }
  | endedBuild {id : String} {succeeded : Bool} {registry : ConnectorRegistry Runtime}
      (h : s.registry.endBuild id succeeded = some registry) :
      Stepped (.endBuild id succeeded) { s with registry := registry }

variable {docs v drainTimeoutMs s}

theorem stepped {s' : ApplicationRegistrar Runtime Scheduling} {a : Action}
    (h : s.step docs v drainTimeoutMs a = some s') : Stepped docs v drainTimeoutMs s a s' := by
  cases a with
  | ensure call id =>
    cases h
    exact .ensured
  | configRead id entry =>
    simp only [step] at h
    split at h
    · rename_i hf
      cases h
      exact .read hf
    · cases h
  | drained id =>
    simp only [step] at h
    split at h
    · rename_i hf
      cases h
      exact .drained hf
    · cases h
  | drainExpired id leases =>
    simp only [step] at h
    split at h
    · rename_i hf
      simp only [Option.ite_none_right_eq_some, Option.some.injEq] at h
      obtain ⟨held, rfl⟩ := h
      exact .drainExpired hf held
    · cases h
  | disposed id =>
    simp only [step] at h
    split at h
    · rename_i hf
      cases h
      exact .disposed hf (by split <;> rfl)
    · cases h
  | cleared id =>
    simp only [step] at h
    split at h
    · rename_i hf
      cases h
      exact .cleared hf
    · cases h
  | answer i =>
    obtain ⟨a, ha, rfl⟩ := Option.map_eq_some_iff.1 h
    exact .answered ha
  | startBuild id =>
    obtain ⟨registry, hr, rfl⟩ := Option.map_eq_some_iff.1 h
    exact .startedBuild hr
  | endBuild id succeeded =>
    obtain ⟨registry, hr, rfl⟩ := Option.map_eq_some_iff.1 h
    exact .endedBuild hr

end ApplicationRegistrar

end Provisioning
