import Provisioning.Config.LiveRegistration
import Provisioning.Lib.Table

/-!
# One resolution for each application

Each call of `resolve` is a process of its own here, with a number that stands for its promise.
`inFlight` is the map that the code keeps: set by the call that starts a resolution, and cleared by id
in the `finally` that runs once the resolution has settled.
-/

namespace Provisioning

open Lib

variable {Runtime Scheduling : Type}

/-! ## The state -/

/-- A call of `resolve` whose `finally` has not run. -/
structure Resolving (Scheduling : Type) where
  number : Nat
  id : String
  phase : Phase Scheduling

/-- A call of `ensure` and the promise that it returned. -/
structure Caller where
  call : Nat
  id : String
  number : Nat

/-- A call of `registerInstance` or `disposeInstance`, and whether the application had a definition. -/
inductive RegistryCall where
  | registerInstance (id : String) (defined : Bool)
  | disposeInstance (id : String) (defined : Bool)
  deriving DecidableEq

/-- A definition is registered where there is none, and disposed of where there is one. -/
def RegistryCall.Lawful : RegistryCall → Prop
  | .registerInstance _ defined => defined = false
  | .disposeInstance _ defined => defined = true

structure Resolutions (Runtime Scheduling : Type) where
  registry : ConnectorRegistry Runtime
  registered : String → Option (RegisteredApplication Scheduling)
  inFlight : String → Option Nat
  resolutions : List (Resolving Scheduling)
  /-- The number of the next promise. -/
  next : Nat
  waiting : List Caller
  /-- The calls whose promise is about to settle, and those whose promise has settled. -/
  settling : List (Answer Scheduling)
  answered : List (Answer Scheduling)
  registryCalls : List RegistryCall

namespace Resolutions

variable (docs : Documents) (v : Validators Runtime Scheduling) (drainTimeoutMs : Nat)
  (s : Resolutions Runtime Scheduling)

def initial : Resolutions Runtime Scheduling := ⟨.empty, fun _ => none, fun _ => none, [], 0, [], [], [], []⟩

def resolution? (n : Nat) : Option (Resolving Scheduling) := lookup Resolving.number s.resolutions n

/-! ## Resolutions -/

def setPhase (n : Nat) (phase : Phase Scheduling) : Resolutions Runtime Scheduling :=
  { s with resolutions := updateWhere (fun w => w.number = n) (fun w => { w with phase := phase }) s.resolutions }

def ensure (call : Nat) (id : String) : Resolutions Runtime Scheduling :=
  match s.inFlight id with
  | some pending => { s with waiting := s.waiting ++ [⟨call, id, pending⟩] }
  | none =>
    { s with
      resolutions := s.resolutions ++ [⟨s.next, id, .reading⟩]
      inFlight := Function.update s.inFlight id (some s.next)
      next := s.next + 1
      waiting := s.waiting ++ [⟨call, id, s.next⟩] }

/-- The end of `resolve`, from the call of `register`. -/
def conclude (n : Nat) (id version : String) : Resolutions Runtime Scheduling :=
  let (registry, result) := register v s.registry (docs.config id version) version
  let call := RegistryCall.registerInstance id (s.registry.getDefinition id).isSome
  { s with
    registry := registry
    registered :=
      match result with
      | .ok app => Function.update s.registered id (some app)
      | .error _ => s.registered
    registryCalls := s.registryCalls ++ [call] }.setPhase n (.settled result)

/-- `resolve` once the store has answered. -/
def resume (n : Nat) (id : String) : Except String (Option String) → Resolutions Runtime Scheduling
  | .error e => s.setPhase n (.settled (.error (registrationError id s!"config could not be read -- {e}")))
  | .ok none => s.setPhase n (.settled (.error (registrationError id "no configuration found")))
  | .ok (some version) =>
    match (s.registered id).filter fun current => current.version = version with
    | some current => s.setPhase n (.settled (.ok current))
    | none =>
      match s.registry.getDefinition id with
      | some _ => s.setPhase n (.draining version)
      | none => s.conclude docs v n id version

/-- The synchronous part of `disposeInstance`. -/
def dispose (n : Nat) (id version : String) : Resolutions Runtime Scheduling :=
  let call := RegistryCall.disposeInstance id (s.registry.getDefinition id).isSome
  { s with
    registry := s.registry.disposeDefinition id
    registryCalls := s.registryCalls ++ [call] }.setPhase n (.disposing version (s.registry.instances id).isSome)

def callsOf (n : Nat) : List Nat := (s.waiting.filter fun c => c.number = n).map Caller.call

/-- The `finally`: it clears the entry of the id, and the promise settles. -/
def finish (n : Nat) (id : String) (result : Except String (RegisteredApplication Scheduling)) :
    Resolutions Runtime Scheduling :=
  { s with
    inFlight := Function.update s.inFlight id none
    resolutions := s.resolutions.filter fun w => w.number ≠ n
    waiting := s.waiting.filter fun c => c.number ≠ n
    settling := s.settling ++ (s.callsOf n).map fun call => ⟨call, id, result⟩ }

/-! ## Steps -/

inductive Action where
  | ensure (call : Nat) (id : String)
  | configRead (n : Nat) (entry : Except String (Option String))
  | drained (n : Nat)
  | drainExpired (n leases : Nat)
  | disposed (n : Nat)
  | finished (n : Nat)
  | answer (i : Nat)
  | startBuild (id : String)
  | endBuild (id : String) (succeeded : Bool)

def step : Action → Option (Resolutions Runtime Scheduling)
  | .ensure call id => some (s.ensure call id)
  | .configRead n entry =>
    match s.resolution? n with
    | some ⟨_, id, .reading⟩ => some (s.resume docs v n id entry)
    | _ => none
  | .drained n =>
    match s.resolution? n with
    | some ⟨_, id, .draining version⟩ => some (s.dispose n id version)
    | _ => none
  | .drainExpired n leases =>
    match s.resolution? n with
    | some ⟨_, id, .draining _⟩ =>
      if 0 < leases then
        some (s.setPhase n
          (.settled (.error (registrationError id (ApplicationRegistrar.drainMessage drainTimeoutMs leases)))))
      else none
    | _ => none
  | .disposed n =>
    match s.resolution? n with
    | some ⟨_, id, .disposing version built⟩ =>
      let registry := if built then s.registry.disposeBuilt id else s.registry
      some ({ s with registry := registry }.conclude docs v n id version)
    | _ => none
  | .finished n =>
    match s.resolution? n with
    | some ⟨_, id, .settled result⟩ => some (s.finish n id result)
    | _ => none
  | .answer i =>
    s.settling[i]?.map fun a => { s with settling := s.settling.eraseIdx i, answered := s.answered ++ [a] }
  | .startBuild id => (s.registry.startBuild id).map fun registry => { s with registry := registry }
  | .endBuild id succeeded => (s.registry.endBuild id succeeded).map fun registry => { s with registry := registry }

/-! ## What a step can do -/

inductive Stepped : Action → Resolutions Runtime Scheduling → Prop
  | ensured {call : Nat} {id : String} : Stepped (.ensure call id) (s.ensure call id)
  | read {w : Resolving Scheduling} {entry : Except String (Option String)} (hw : w ∈ s.resolutions)
      (phase : w.phase = .reading) : Stepped (.configRead w.number entry) (s.resume docs v w.number w.id entry)
  | drained {w : Resolving Scheduling} {version : String} (hw : w ∈ s.resolutions)
      (phase : w.phase = .draining version) : Stepped (.drained w.number) (s.dispose w.number w.id version)
  | drainExpired {w : Resolving Scheduling} {version : String} {leases : Nat} (hw : w ∈ s.resolutions)
      (phase : w.phase = .draining version) (held : 0 < leases) :
      Stepped (.drainExpired w.number leases) (s.setPhase w.number
        (.settled (.error (registrationError w.id (ApplicationRegistrar.drainMessage drainTimeoutMs leases)))))
  | disposed {w : Resolving Scheduling} {version : String} {built : Bool} (hw : w ∈ s.resolutions)
      (phase : w.phase = .disposing version built) :
      Stepped (.disposed w.number)
        ({ s with registry := if built then s.registry.disposeBuilt w.id else s.registry }.conclude docs v w.number w.id
          version)
  | finished {w : Resolving Scheduling} {result : Except String (RegisteredApplication Scheduling)}
      (hw : w ∈ s.resolutions) (phase : w.phase = .settled result) :
      Stepped (.finished w.number) (s.finish w.number w.id result)
  | answered {i : Nat} {a : Answer Scheduling} (h : s.settling[i]? = some a) :
      Stepped (.answer i) { s with settling := s.settling.eraseIdx i, answered := s.answered ++ [a] }
  | startedBuild {id : String} {registry : ConnectorRegistry Runtime} (h : s.registry.startBuild id = some registry) :
      Stepped (.startBuild id) { s with registry := registry }
  | endedBuild {id : String} {succeeded : Bool} {registry : ConnectorRegistry Runtime}
      (h : s.registry.endBuild id succeeded = some registry) :
      Stepped (.endBuild id succeeded) { s with registry := registry }

variable {docs v drainTimeoutMs s}

theorem stepped {s' : Resolutions Runtime Scheduling} {a : Action} (h : s.step docs v drainTimeoutMs a = some s') :
    Stepped docs v drainTimeoutMs s a s' := by
  have found {n n' : Nat} {id : String} {phase : Phase Scheduling} (hw : s.resolution? n = some ⟨n', id, phase⟩) :
      ⟨n', id, phase⟩ ∈ s.resolutions ∧ n' = n := lookup_some_mem hw
  cases a with
  | ensure call id =>
    simp only [step, Option.some.injEq] at h
    exact h ▸ .ensured
  | configRead n entry =>
    simp only [step] at h
    split at h
    · rename_i hw
      obtain ⟨hmem, rfl⟩ := found hw
      rw [← Option.some.inj h]
      exact .read hmem rfl
    · simp at h
  | drained n =>
    simp only [step] at h
    split at h
    · rename_i hw
      obtain ⟨hmem, rfl⟩ := found hw
      rw [← Option.some.inj h]
      exact .drained hmem rfl
    · simp at h
  | drainExpired n leases =>
    simp only [step] at h
    split at h
    · rename_i hw
      obtain ⟨hmem, rfl⟩ := found hw
      simp only [Option.ite_none_right_eq_some, Option.some.injEq] at h
      obtain ⟨held, rfl⟩ := h
      exact .drainExpired hmem rfl held
    · simp at h
  | disposed n =>
    simp only [step] at h
    split at h
    · rename_i hw
      obtain ⟨hmem, rfl⟩ := found hw
      rw [← Option.some.inj h]
      exact .disposed hmem rfl
    · simp at h
  | finished n =>
    simp only [step] at h
    split at h
    · rename_i hw
      obtain ⟨hmem, rfl⟩ := found hw
      rw [← Option.some.inj h]
      exact .finished hmem rfl
    · simp at h
  | answer i =>
    obtain ⟨a, ha, rfl⟩ := Option.map_eq_some_iff.1 h
    exact .answered ha
  | startBuild id =>
    obtain ⟨registry, hr, rfl⟩ := Option.map_eq_some_iff.1 h
    exact .startedBuild hr
  | endBuild id succeeded =>
    obtain ⟨registry, hr, rfl⟩ := Option.map_eq_some_iff.1 h
    exact .endedBuild hr

/-! ## The map and the resolutions -/

/-- The promises and the applications that they are about. -/
def running (s : Resolutions Runtime Scheduling) : List (Nat × String) := s.resolutions.map fun w => (w.number, w.id)

theorem running_setPhase (n : Nat) (phase : Phase Scheduling) : (s.setPhase n phase).running = s.running := by
  unfold running setPhase
  exact keys_updateWhere fun _ _ => rfl

/-- `inFlight` holds the resolutions that run, and somebody waits for each. -/
structure Booked (s : Resolutions Runtime Scheduling) : Prop where
  numbers : (s.running.map Prod.fst).Nodup
  fresh : ∀ p ∈ s.running, p.1 < s.next
  held : ∀ n id, (n, id) ∈ s.running ↔ s.inFlight id = some n
  awaited : ∀ p ∈ s.running, ∃ c ∈ s.waiting, c.number = p.1
  callers : ∀ c ∈ s.waiting, (c.number, c.id) ∈ s.running

theorem Booked.frame {s' : Resolutions Runtime Scheduling} (h : s.Booked) (running : s'.running = s.running)
    (inFlight : s'.inFlight = s.inFlight) (next : s'.next = s.next) (waiting : s'.waiting = s.waiting) : s'.Booked where
  numbers := running ▸ h.numbers
  fresh := by rw [running, next]; exact h.fresh
  held := by rw [running, inFlight]; exact h.held
  awaited := by rw [running, waiting]; exact h.awaited
  callers := by rw [running, waiting]; exact h.callers

theorem Booked.id_eq (h : s.Booked) {n : Nat} {id id' : String} (hp : (n, id) ∈ s.running)
    (hp' : (n, id') ∈ s.running) : id = id' := by
  have hsame : (n, id) = (n, id') := eq_of_key_eq h.numbers hp hp' rfl
  exact congrArg Prod.snd hsame

theorem Booked.nodup (h : s.Booked) : (s.resolutions.map Resolving.number).Nodup := by
  have hn := h.numbers
  simpa [running, Function.comp_def] using hn

theorem booked_initial : (initial : Resolutions Runtime Scheduling).Booked := by
  constructor <;> simp [initial, running]

theorem Booked.started (h : s.Booked) (call : Nat) {id : String} (free : s.inFlight id = none) :
    (s.ensure call id).Booked := by
  have hens : s.ensure call id =
      { s with
        resolutions := s.resolutions ++ [⟨s.next, id, .reading⟩]
        inFlight := Function.update s.inFlight id (some s.next)
        next := s.next + 1
        waiting := s.waiting ++ [⟨call, id, s.next⟩] } := by
    simp [ensure, free]
  have hrun : (s.ensure call id).running = s.running ++ [(s.next, id)] := by simp [hens, running]
  have hnew : s.next ∉ s.running.map Prod.fst := by
    intro hmem
    obtain ⟨p, hp, hn⟩ := List.mem_map.1 hmem
    have hlt := h.fresh p hp
    omega
  refine ⟨?_, ?_, ?_, ?_, ?_⟩
  · rw [hrun]
    exact nodup_append_singleton h.numbers hnew
  · rw [hrun, hens]
    intro p hp
    rcases List.mem_append.1 hp with hp | hp
    · exact Nat.lt_succ_of_lt (h.fresh p hp)
    · rw [List.mem_singleton.1 hp]
      exact Nat.lt_succ_self _
  · intro n id'
    rw [hrun, hens, List.mem_append, List.mem_singleton, h.held]
    by_cases hid : id' = id
    · subst hid
      simp [free, eq_comm]
    · simp [hid]
  · rw [hrun, hens]
    intro p hp
    rcases List.mem_append.1 hp with hp | hp
    · obtain ⟨c, hc, hn⟩ := h.awaited p hp
      exact ⟨c, List.mem_append_left _ hc, hn⟩
    · exact ⟨⟨call, id, s.next⟩, by simp, by rw [List.mem_singleton.1 hp]⟩
  · rw [hrun, hens]
    intro c hc
    rcases List.mem_append.1 hc with hc | hc
    · exact List.mem_append_left _ (h.callers c hc)
    · rw [List.mem_singleton.1 hc]
      simp

theorem Booked.joined (h : s.Booked) (call : Nat) {id : String} {n : Nat} (pending : s.inFlight id = some n) :
    (s.ensure call id).Booked := by
  have hens : s.ensure call id = { s with waiting := s.waiting ++ [⟨call, id, n⟩] } := by simp [ensure, pending]
  rw [hens]
  refine ⟨h.numbers, h.fresh, h.held, ?_, ?_⟩
  · intro p hp
    obtain ⟨c, hc, hn⟩ := h.awaited p hp
    exact ⟨c, List.mem_append_left _ hc, hn⟩
  · intro c hc
    rcases List.mem_append.1 hc with hc | hc
    · exact h.callers c hc
    · rw [List.mem_singleton.1 hc]
      exact (h.held n id).2 pending

theorem mem_running_finish {n n' : Nat} {id id' : String} {result : Except String (RegisteredApplication Scheduling)} :
    (n', id') ∈ (s.finish n id result).running ↔ (n', id') ∈ s.running ∧ n' ≠ n := by
  simp only [running, finish, List.mem_map, List.mem_filter, decide_eq_true_eq, Prod.mk.injEq]
  constructor
  · rintro ⟨w, ⟨hw, hne⟩, rfl, rfl⟩
    exact ⟨⟨w, hw, rfl, rfl⟩, hne⟩
  · rintro ⟨⟨w, hw, rfl, rfl⟩, hne⟩
    exact ⟨w, ⟨hw, hne⟩, rfl, rfl⟩

/-- The `finally` clears the entry of its own resolution, because the id has no other. -/
theorem Booked.finish (h : s.Booked) {n : Nat} {id : String} (hp : (n, id) ∈ s.running)
    (result : Except String (RegisteredApplication Scheduling)) : (s.finish n id result).Booked := by
  refine ⟨?_, ?_, ?_, ?_, ?_⟩
  · have hsub : ((s.finish n id result).running.map Prod.fst).Sublist (s.running.map Prod.fst) :=
      (List.filter_sublist.map _).map _
    exact h.numbers.sublist hsub
  · intro p hp'
    exact h.fresh p (mem_running_finish.1 hp').1
  · intro n' id'
    rw [mem_running_finish, h.held]
    change _ ↔ Function.update s.inFlight id none id' = some n'
    by_cases hid : id' = id
    · subst hid
      have hin := (h.held n id').1 hp
      simp [hin, eq_comm]
    · rw [Function.update_of_ne hid]
      refine ⟨And.left, fun hin => ⟨hin, ?_⟩⟩
      rintro rfl
      exact hid (h.id_eq ((h.held _ _).2 hin) hp)
  · intro p hp'
    obtain ⟨hmem, hne⟩ := mem_running_finish.1 hp'
    obtain ⟨c, hc, hn⟩ := h.awaited p hmem
    exact ⟨c, List.mem_filter.2 ⟨hc, by simpa [hn] using hne⟩, hn⟩
  · intro c hc
    obtain ⟨hc, hne⟩ := List.mem_filter.1 hc
    exact mem_running_finish.2 ⟨h.callers c hc, by simpa using hne⟩

/-! ## The registry and the resolutions -/

/-- What a resolution in this phase relies on about the definition of its application. -/
def fits (definition : Option (ConnectorDefinition Runtime)) : Phase Scheduling → Prop
  | .reading => True
  | .draining _ => definition.isSome
  | .disposing _ _ => definition = none
  | .settled _ => True

structure SingleFlight (s : Resolutions Runtime Scheduling) : Prop where
  booked : s.Booked
  fits : ∀ w ∈ s.resolutions, fits (s.registry.definitions w.id) w.phase
  lawful : ∀ c ∈ s.registryCalls, c.Lawful

theorem singleFlight_initial : (initial : Resolutions Runtime Scheduling).SingleFlight := by
  refine ⟨booked_initial, ?_, ?_⟩ <;> simp [initial]

theorem SingleFlight.mem_running {w : Resolving Scheduling} (hw : w ∈ s.resolutions) : (w.number, w.id) ∈ s.running :=
  List.mem_map_of_mem hw

theorem SingleFlight.moved (h : s.SingleFlight) {w : Resolving Scheduling} (hw : w ∈ s.resolutions)
    {phase : Phase Scheduling} {t : Resolutions Runtime Scheduling}
    (resolutions : t.resolutions = (s.setPhase w.number phase).resolutions) (inFlight : t.inFlight = s.inFlight)
    (next : t.next = s.next) (waiting : t.waiting = s.waiting)
    (elsewhere : ∀ id, id ≠ w.id → t.registry.definitions id = s.registry.definitions id)
    (own : Resolutions.fits (t.registry.definitions w.id) phase) (lawful : ∀ c ∈ t.registryCalls, c.Lawful) :
    t.SingleFlight where
  booked := by
    refine h.booked.frame ?_ inFlight next waiting
    rw [running, resolutions]
    exact running_setPhase w.number phase
  fits := by
    rw [resolutions]
    intro w' hw'
    obtain ⟨w₀, hw₀, rfl⟩ := mem_updateWhere.1 hw'
    split
    · rename_i hn
      have hp₀ : (w.number, w₀.id) ∈ s.running := hn ▸ SingleFlight.mem_running hw₀
      rw [h.booked.id_eq hp₀ (SingleFlight.mem_running hw)]
      exact own
    · rename_i hn
      have hid : w₀.id ≠ w.id := by
        intro hid
        have hp₀ := (h.booked.held _ _).1 (SingleFlight.mem_running hw₀)
        rw [hid, (h.booked.held _ _).1 (SingleFlight.mem_running hw), Option.some.injEq] at hp₀
        exact hn hp₀.symm
      rw [elsewhere _ hid]
      exact h.fits w₀ hw₀
  lawful := lawful

theorem SingleFlight.setPhase (h : s.SingleFlight) {w : Resolving Scheduling} (hw : w ∈ s.resolutions)
    {phase : Phase Scheduling} (own : Resolutions.fits (s.registry.definitions w.id) phase) :
    (s.setPhase w.number phase).SingleFlight :=
  h.moved hw rfl rfl rfl rfl (fun _ _ => rfl) own h.lawful

theorem SingleFlight.frame (h : s.SingleFlight) {registry : ConnectorRegistry Runtime}
    (same : registry.definitions = s.registry.definitions) :
    ({ s with registry := registry } : Resolutions Runtime Scheduling).SingleFlight where
  booked := h.booked.frame rfl rfl rfl rfl
  fits := by rw [same]; exact h.fits
  lawful := h.lawful

theorem SingleFlight.ensure (h : s.SingleFlight) (call : Nat) (id : String) : (s.ensure call id).SingleFlight := by
  cases hin : s.inFlight id with
  | some n =>
    refine ⟨h.booked.joined call hin, ?_, ?_⟩
    all_goals simp only [Resolutions.ensure, hin]
    · exact h.fits
    · exact h.lawful
  | none =>
    refine ⟨h.booked.started call hin, ?_, ?_⟩
    all_goals simp only [Resolutions.ensure, hin]
    · intro w hw
      rcases List.mem_append.1 hw with hw | hw
      · exact h.fits w hw
      · rw [List.mem_singleton.1 hw]
        trivial
    · exact h.lawful

theorem SingleFlight.conclude (h : s.SingleFlight) {w : Resolving Scheduling} (hw : w ∈ s.resolutions)
    (free : s.registry.definitions w.id = none) (version : String) :
    (s.conclude docs v w.number w.id version).SingleFlight := by
  refine h.moved hw rfl rfl rfl rfl ?_ trivial ?_
  · intro id hid
    rcases register_cases docs v s.registry w.id version with ⟨e, he⟩ | ⟨-, d, -, ⟨e, he, -⟩ | ⟨app, he, -⟩⟩ <;>
      simp [Resolutions.conclude, Resolutions.setPhase, he, Function.update_of_ne hid]
  · intro c hc
    rcases List.mem_append.1 hc with hc | hc
    · exact h.lawful c hc
    · rw [List.mem_singleton.1 hc]
      simp [RegistryCall.Lawful, ConnectorRegistry.getDefinition, free]

theorem SingleFlight.resume (h : s.SingleFlight) {w : Resolving Scheduling} (hw : w ∈ s.resolutions)
    (entry : Except String (Option String)) : (s.resume docs v w.number w.id entry).SingleFlight := by
  unfold Resolutions.resume
  split
  · exact h.setPhase hw trivial
  · exact h.setPhase hw trivial
  · split
    · exact h.setPhase hw trivial
    · split
      · rename_i hdef
        exact h.setPhase hw (Option.isSome_iff_exists.2 ⟨_, hdef⟩)
      · rename_i hnone
        exact h.conclude hw hnone _

theorem SingleFlight.dispose (h : s.SingleFlight) {w : Resolving Scheduling} (hw : w ∈ s.resolutions)
    {version : String} (draining : w.phase = .draining version) : (s.dispose w.number w.id version).SingleFlight := by
  have defined : (s.registry.definitions w.id).isSome := by
    have hfits := h.fits w hw
    rw [draining] at hfits
    exact hfits
  refine h.moved hw rfl rfl rfl rfl (fun id hid => Function.update_of_ne hid ..) (Function.update_self ..) ?_
  intro c hc
  rcases List.mem_append.1 hc with hc | hc
  · exact h.lawful c hc
  · rw [List.mem_singleton.1 hc]
    exact defined

theorem SingleFlight.finish (h : s.SingleFlight) {w : Resolving Scheduling} (hw : w ∈ s.resolutions)
    (result : Except String (RegisteredApplication Scheduling)) : (s.finish w.number w.id result).SingleFlight where
  booked := h.booked.finish (SingleFlight.mem_running hw) result
  fits := fun w' hw' => h.fits w' (List.mem_filter.1 hw').1
  lawful := h.lawful

theorem singleFlight_step {s' : Resolutions Runtime Scheduling} {a : Action} (h : s.SingleFlight)
    (hstep : Stepped docs v drainTimeoutMs s a s') : s'.SingleFlight := by
  cases hstep with
  | ensured => exact h.ensure ..
  | read hw phase => exact h.resume hw _
  | drained hw phase => exact h.dispose hw phase
  | drainExpired hw phase held => exact h.setPhase hw trivial
  | @disposed w version built hw phase =>
    have gone := h.fits w hw
    rw [phase] at gone
    have same : (if built then s.registry.disposeBuilt w.id else s.registry).definitions = s.registry.definitions := by
      split <;> rfl
    exact (h.frame same).conclude hw ((congrFun same w.id).trans gone) version
  | finished hw phase => exact h.finish hw _
  | answered ha => exact ⟨h.booked.frame rfl rfl rfl rfl, h.fits, h.lawful⟩
  | startedBuild hb => exact h.frame (ConnectorRegistry.startBuild_definitions hb)
  | endedBuild hb => exact h.frame (ConnectorRegistry.endBuild_definitions hb)

theorem singleFlight_run (run : Runs (step docs v drainTimeoutMs) anyStep initial s) : s.SingleFlight :=
  run.invariant SingleFlight singleFlight_initial fun _ _ _ h hstep _ => singleFlight_step h (stepped hstep)

/-! ## The registrar of applications is an abstraction -/

/-- The resolution that runs for an application, as the registrar of applications has it. -/
def work (s : Resolutions Runtime Scheduling) (id : String) : Option (InFlight Scheduling) :=
  (lookup Resolving.id s.resolutions id).map fun w => ⟨s.callsOf w.number, w.phase⟩

def registrar (s : Resolutions Runtime Scheduling) (registrations : String → List Registration) :
    ApplicationRegistrar Runtime Scheduling :=
  ⟨s.registry, s.registered, s.work, registrations, s.settling, s.answered⟩

theorem Booked.ids (h : s.Booked) : (s.resolutions.map Resolving.id).Nodup := by
  rw [List.nodup_map_iff_inj_on (h.nodup.of_map _)]
  intro w hw w' hw' hid
  have hin := (h.held _ _).1 (List.mem_map_of_mem hw)
  rw [hid, (h.held _ _).1 (List.mem_map_of_mem hw'), Option.some.injEq] at hin
  exact eq_of_key_eq h.nodup hw hw' hin.symm

theorem Booked.work_of_mem (h : s.Booked) {w : Resolving Scheduling} (hw : w ∈ s.resolutions) :
    s.work w.id = some ⟨s.callsOf w.number, w.phase⟩ := by
  simp [work, lookup_of_mem h.ids hw]

theorem Booked.number_iff (h : s.Booked) {w w' : Resolving Scheduling} (hw : w ∈ s.resolutions)
    (hw' : w' ∈ s.resolutions) : w'.number = w.number ↔ w'.id = w.id :=
  ⟨fun hn => congrArg Resolving.id (eq_of_key_eq h.nodup hw' hw hn),
    fun hid => congrArg Resolving.number (eq_of_key_eq h.ids hw' hw hid)⟩

theorem Booked.work_setPhase (h : s.Booked) {w : Resolving Scheduling} (hw : w ∈ s.resolutions)
    (phase : Phase Scheduling) :
    (s.setPhase w.number phase).work = Function.update s.work w.id (some ⟨s.callsOf w.number, phase⟩) := by
  funext id
  have hlookup : lookup Resolving.id (s.setPhase w.number phase).resolutions id =
      (lookup Resolving.id s.resolutions id).map fun w' =>
        if w'.number = w.number then { w' with phase := phase } else w' :=
    lookup_updateWhere fun _ _ => rfl
  unfold work
  rw [hlookup]
  by_cases hid : id = w.id
  · subst hid
    simp [lookup_of_mem h.ids hw, callsOf, setPhase]
  · rw [Function.update_of_ne hid]
    cases hfound : lookup Resolving.id s.resolutions id with
    | none => rfl
    | some w' =>
      obtain ⟨hw', rfl⟩ := lookup_some_mem hfound
      simp [mt (h.number_iff hw hw').1 hid, callsOf, setPhase]

theorem Booked.registrar_setPhase (h : s.Booked) {w : Resolving Scheduling} (hw : w ∈ s.resolutions)
    (phase : Phase Scheduling) (regs : String → List Registration) :
    (s.setPhase w.number phase).registrar regs = (s.registrar regs).setPhase w.id (s.callsOf w.number) phase := by
  unfold registrar
  rw [h.work_setPhase hw]
  rfl

variable (docs v) in
/-- Whatever the registrations are: they are a record that only the registrar of applications keeps. -/
theorem Booked.registrar_conclude (h : s.Booked) {w : Resolving Scheduling} (hw : w ∈ s.resolutions)
    (version : String) (regs : String → List Registration) :
    ∃ regs', (s.conclude docs v w.number w.id version).registrar regs' =
      (s.registrar regs).conclude docs v w.id (s.callsOf w.number) version := by
  refine ⟨((s.registrar regs).conclude docs v w.id (s.callsOf w.number) version).registrations, ?_⟩
  have hframe : { s with
      registry := (register v s.registry (docs.config w.id version) version).1
      registered :=
        match (register v s.registry (docs.config w.id version) version).2 with
        | .ok app => Function.update s.registered w.id (some app)
        | .error _ => s.registered
      registryCalls := s.registryCalls ++
        [RegistryCall.registerInstance w.id (s.registry.getDefinition w.id).isSome] }.Booked := h.frame rfl rfl rfl rfl
  have hwork := hframe.work_setPhase hw (.settled (register v s.registry (docs.config w.id version) version).2)
  unfold registrar conclude ApplicationRegistrar.conclude
  simp only [hwork]
  rfl

variable (docs v) in
theorem Booked.registrar_resume (h : s.Booked) {w : Resolving Scheduling} (hw : w ∈ s.resolutions)
    (entry : Except String (Option String)) (regs : String → List Registration) :
    ∃ regs', (s.resume docs v w.number w.id entry).registrar regs' =
      (s.registrar regs).resume docs v w.id (s.callsOf w.number) entry := by
  unfold resume ApplicationRegistrar.resume
  match entry with
  | .error e => exact ⟨regs, h.registrar_setPhase hw _ regs⟩
  | .ok none => exact ⟨regs, h.registrar_setPhase hw _ regs⟩
  | .ok (some version) =>
    have hregistered : (s.registrar regs).registered w.id = s.registered w.id := rfl
    have hregistry : (s.registrar regs).registry = s.registry := rfl
    simp only [hregistered, hregistry]
    cases (s.registered w.id).filter fun current => current.version = version with
    | some current => exact ⟨regs, h.registrar_setPhase hw _ regs⟩
    | none =>
      cases s.registry.getDefinition w.id with
      | some definition => exact ⟨regs, h.registrar_setPhase hw _ regs⟩
      | none => exact h.registrar_conclude docs v hw version regs

theorem Booked.registrar_dispose (h : s.Booked) {w : Resolving Scheduling} (hw : w ∈ s.resolutions)
    (version : String) (regs : String → List Registration) :
    (s.dispose w.number w.id version).registrar regs =
      (s.registrar regs).dispose w.id (s.callsOf w.number) version := by
  have hframe : { s with
      registry := s.registry.disposeDefinition w.id
      registryCalls := s.registryCalls ++
        [RegistryCall.disposeInstance w.id (s.registry.getDefinition w.id).isSome] }.Booked := h.frame rfl rfl rfl rfl
  have hwork := hframe.work_setPhase hw (.disposing version (s.registry.instances w.id).isSome)
  unfold registrar dispose ApplicationRegistrar.dispose
  simp only [hwork]
  rfl

theorem Booked.registrar_finish (h : s.Booked) {w : Resolving Scheduling} (hw : w ∈ s.resolutions)
    (result : Except String (RegisteredApplication Scheduling)) (regs : String → List Registration) :
    (s.finish w.number w.id result).registrar regs =
      (s.registrar regs).clear w.id (s.callsOf w.number) result := by
  have hwork : (s.finish w.number w.id result).work = Function.update s.work w.id none := by
    funext id
    have hlookup : lookup Resolving.id (s.finish w.number w.id result).resolutions id =
        (lookup Resolving.id s.resolutions id).filter fun w' => w'.number ≠ w.number := lookup_filter h.ids
    unfold work
    rw [hlookup]
    by_cases hid : id = w.id
    · subst hid
      simp [lookup_of_mem h.ids hw, Option.filter]
    · rw [Function.update_of_ne hid]
      cases hfound : lookup Resolving.id s.resolutions id with
      | none => rfl
      | some w' =>
        obtain ⟨hw', rfl⟩ := lookup_some_mem hfound
        have hne : w'.number ≠ w.number := mt (h.number_iff hw hw').1 hid
        have hcalls : (s.finish w.number w.id result).callsOf w'.number = s.callsOf w'.number := by
          unfold callsOf Resolutions.finish
          rw [List.filter_filter]
          refine congrArg _ (List.filter_congr fun c _ => ?_)
          by_cases hc : c.number = w'.number <;> simp [hc, hne]
        simp [Option.filter, hne, hcalls]
  unfold registrar
  rw [hwork]
  rfl

theorem Booked.work_joined (h : s.Booked) {w : Resolving Scheduling} (hw : w ∈ s.resolutions) (call : Nat) :
    Resolutions.work { s with waiting := s.waiting ++ [⟨call, w.id, w.number⟩] } =
      Function.update s.work w.id (some ⟨s.callsOf w.number ++ [call], w.phase⟩) := by
  funext id'
  by_cases hid : id' = w.id
  · subst hid
    simp [work, lookup_of_mem h.ids hw, callsOf]
  · rw [Function.update_of_ne hid]
    cases hfound : lookup Resolving.id s.resolutions id' with
    | none => simp [work, hfound]
    | some w' =>
      obtain ⟨hw', rfl⟩ := lookup_some_mem hfound
      have hne : w.number ≠ w'.number := fun hn => hid ((h.number_iff hw hw').1 hn.symm)
      simp [work, hfound, callsOf, hne]

theorem Booked.not_mem_ids (h : s.Booked) {id : String} (hin : s.inFlight id = none) :
    id ∉ s.resolutions.map Resolving.id := by
  intro hmem
  obtain ⟨w, hw, rfl⟩ := List.mem_map.1 hmem
  simp [(h.held _ _).1 (List.mem_map_of_mem hw)] at hin

theorem Booked.callsOf_next (h : s.Booked) : s.callsOf s.next = [] := by
  unfold callsOf
  simp only [List.map_eq_nil_iff, List.filter_eq_nil_iff, decide_eq_true_eq]
  intro c hc hn
  have hlt := h.fresh _ (h.callers c hc)
  simp only at hlt
  omega

theorem Booked.work_started (h : s.Booked) {id : String} (hin : s.inFlight id = none) (call : Nat) :
    Resolutions.work { s with
      resolutions := s.resolutions ++ [⟨s.next, id, .reading⟩]
      inFlight := Function.update s.inFlight id (some s.next)
      next := s.next + 1
      waiting := s.waiting ++ [⟨call, id, s.next⟩] } =
      Function.update s.work id (some ⟨[call], .reading⟩) := by
  have hnobody := h.callsOf_next
  funext id'
  unfold work
  rw [lookup_append_singleton (h.not_mem_ids hin)]
  by_cases hid : id' = id
  · subst hid
    simpa [callsOf] using hnobody
  · rw [Function.update_of_ne hid, if_neg (Ne.symm hid)]
    cases hfound : lookup Resolving.id s.resolutions id' with
    | none => rfl
    | some w' =>
      obtain ⟨hw', rfl⟩ := lookup_some_mem hfound
      have hne : s.next ≠ w'.number := Nat.ne_of_gt (h.fresh _ (List.mem_map_of_mem hw'))
      simp [callsOf, hne]

theorem Booked.registrar_ensure (h : s.Booked) (call : Nat) (id : String) (regs : String → List Registration) :
    (s.ensure call id).registrar regs = (s.registrar regs).ensure call id := by
  unfold ensure ApplicationRegistrar.ensure
  cases hin : s.inFlight id with
  | some n =>
    obtain ⟨w, hw, hwn⟩ := List.mem_map.1 ((h.held n id).2 hin)
    obtain ⟨rfl, rfl⟩ := Prod.mk.inj hwn
    have hpending : (s.registrar regs).inFlight w.id = some ⟨s.callsOf w.number, w.phase⟩ := h.work_of_mem hw
    rw [hpending]
    unfold registrar
    dsimp only
    rw [h.work_joined hw]
    rfl
  | none =>
    have hpending : (s.registrar regs).inFlight id = none := by
      simp [registrar, work, lookup_none_iff.2 (h.not_mem_ids hin)]
    rw [hpending]
    unfold registrar
    dsimp only
    rw [h.work_started hin]
    rfl

theorem Booked.simulated (h : s.Booked) {a : Action} {s' : Resolutions Runtime Scheduling}
    (hstep : Stepped docs v drainTimeoutMs s a s') (regs : String → List Registration) :
    ∃ a' regs', (s.registrar regs).step docs v drainTimeoutMs a' = some (s'.registrar regs') := by
  cases hstep with
  | @ensured call id => exact ⟨.ensure call id, regs, congrArg some (h.registrar_ensure call id regs).symm⟩
  | @read w entry hw phase =>
    obtain ⟨regs', hregs⟩ := h.registrar_resume docs v hw entry regs
    have hwork : (s.registrar regs).inFlight w.id = some ⟨s.callsOf w.number, .reading⟩ := phase ▸ h.work_of_mem hw
    exact ⟨.configRead w.id entry, regs', by simp [ApplicationRegistrar.step, hwork, hregs]⟩
  | @drained w version hw phase =>
    have hwork : (s.registrar regs).inFlight w.id = some ⟨s.callsOf w.number, .draining version⟩ :=
      phase ▸ h.work_of_mem hw
    exact ⟨.drained w.id, regs, by simp [ApplicationRegistrar.step, hwork, h.registrar_dispose hw]⟩
  | @drainExpired w version leases hw phase held =>
    have hwork : (s.registrar regs).inFlight w.id = some ⟨s.callsOf w.number, .draining version⟩ :=
      phase ▸ h.work_of_mem hw
    exact ⟨.drainExpired w.id leases, regs, by simp [ApplicationRegistrar.step, hwork, held, h.registrar_setPhase hw]⟩
  | @disposed w version built hw phase =>
    have hwork : (s.registrar regs).inFlight w.id = some ⟨s.callsOf w.number, .disposing version built⟩ :=
      phase ▸ h.work_of_mem hw
    have hframe : { s with
        registry := if built then s.registry.disposeBuilt w.id else s.registry }.Booked := h.frame rfl rfl rfl rfl
    obtain ⟨regs', hregs⟩ := hframe.registrar_conclude docs v hw version regs
    refine ⟨.disposed w.id, regs', ?_⟩
    simp only [ApplicationRegistrar.step, hwork, hregs]
    rfl
  | @finished w result hw phase =>
    have hwork : (s.registrar regs).inFlight w.id = some ⟨s.callsOf w.number, .settled result⟩ :=
      phase ▸ h.work_of_mem hw
    exact ⟨.cleared w.id, regs, by simp [ApplicationRegistrar.step, hwork, h.registrar_finish hw]⟩
  | @answered i a ha => exact ⟨.answer i, regs, by simp [ApplicationRegistrar.step, registrar, ha]; rfl⟩
  | @startedBuild id registry hb =>
    exact ⟨.startBuild id, regs, by simp [ApplicationRegistrar.step, registrar, hb]; rfl⟩
  | @endedBuild id succeeded registry hb =>
    exact ⟨.endBuild id succeeded, regs, by simp [ApplicationRegistrar.step, registrar, hb]; rfl⟩

/-- The registrar of applications, in which the work of an application is in the map, does what this one does. -/
theorem registrar_run (run : Runs (step docs v drainTimeoutMs) anyStep initial s) :
    ∃ regs, Runs (ApplicationRegistrar.step docs v drainTimeoutMs) anyStep ApplicationRegistrar.initial
      (s.registrar regs) := by
  have init : (initial : Resolutions Runtime Scheduling).SingleFlight ∧
      ∃ regs, ApplicationRegistrar.initial = (initial : Resolutions Runtime Scheduling).registrar regs :=
    ⟨singleFlight_initial, fun _ => [], rfl⟩
  have sim : ∃ t, Runs (ApplicationRegistrar.step docs v drainTimeoutMs) anyStep ApplicationRegistrar.initial t ∧
      (s.SingleFlight ∧ ∃ regs, t = s.registrar regs) := by
    refine run.simulated (R := fun s t => s.SingleFlight ∧ ∃ regs, t = s.registrar regs) init ?_
    rintro s a s' t ⟨hs, regs, rfl⟩ h -
    obtain ⟨a', regs', h'⟩ := hs.booked.simulated (stepped h) regs
    exact ⟨_, Runs.start.next h' trivial, singleFlight_step hs (stepped h), regs', rfl⟩
  obtain ⟨t, hrun, -, regs, rfl⟩ := sim
  exact ⟨regs, hrun⟩

/-! ## Every interleaving -/

theorem Booked.resolutions_le_one (h : s.Booked) (id : String) : s.resolutions.countP (fun w => w.id = id) ≤ 1 := by
  refine countP_le_one h.nodup ?_
  intro w hw w' hw' hid hid'
  simp only [decide_eq_true_eq] at hid hid'
  have hin := (h.held _ _).1 (SingleFlight.mem_running hw)
  rw [hid, ← hid', (h.held _ _).1 (SingleFlight.mem_running hw'), Option.some.injEq] at hin
  exact hin.symm

theorem Booked.idle (h : s.Booked) {id : String} (settled : ∀ c ∈ s.waiting, c.id ≠ id) : s.inFlight id = none := by
  by_contra hin
  obtain ⟨n, hn⟩ := Option.ne_none_iff_exists'.1 hin
  have hp := (h.held n id).2 hn
  obtain ⟨c, hc, hnumber⟩ := h.awaited _ hp
  have hcid := h.callers c hc
  rw [hnumber] at hcid
  exact settled c hc (h.id_eq hcid hp)

/-- The next `ensure` of the application reads the config itself. -/
def Fresh (s : Resolutions Runtime Scheduling) (docs : Documents) (v : Validators Runtime Scheduling)
    (drainTimeoutMs : Nat) (id : String) : Prop :=
  s.inFlight id = none ∧ ∀ call, ∃ s', s.step docs v drainTimeoutMs (.ensure call id) = some s' ∧
    s'.resolutions = s.resolutions ++ [⟨s.next, id, .reading⟩] ∧ s'.waiting = s.waiting ++ [⟨call, id, s.next⟩]

theorem fresh_of_idle {id : String} (idle : s.inFlight id = none) : s.Fresh docs v drainTimeoutMs id :=
  ⟨idle, fun call => ⟨_, rfl, by simp [ensure, idle], by simp [ensure, idle]⟩⟩

theorem Booked.finishes (h : s.Booked) {w : Resolving Scheduling} (hw : w ∈ s.resolutions)
    {result : Except String (RegisteredApplication Scheduling)} (settled : w.phase = .settled result) :
    s.step docs v drainTimeoutMs (.finished w.number) = some (s.finish w.number w.id result) := by
  have hlookup : s.resolution? w.number = some w := lookup_of_mem h.nodup hw
  obtain ⟨n, id, phase⟩ := w
  subst settled
  simp [step, hlookup]

/-- **One resolution for each application**, which works on a registry that expects it, and of which nothing is
left for the calls after it. -/
theorem single_flight (run : Runs (step docs v drainTimeoutMs) anyStep initial s) :
    (∀ id, s.resolutions.countP (fun w => w.id = id) ≤ 1) ∧
    (∀ c ∈ s.registryCalls, c.Lawful) ∧
    (s.waiting = [] → ∀ id, s.inFlight id = none) ∧
    (∀ id, (∀ c ∈ s.waiting, c.id ≠ id) → s.Fresh docs v drainTimeoutMs id) ∧
    ∀ w ∈ s.resolutions, ∀ result, w.phase = .settled result →
      ∃ s', s.step docs v drainTimeoutMs (.finished w.number) = some s' ∧ s'.Fresh docs v drainTimeoutMs w.id ∧
        ∀ c ∈ s'.waiting, c.number ≠ w.number := by
  obtain ⟨booked, -, lawful⟩ := singleFlight_run run
  refine ⟨booked.resolutions_le_one, lawful, ?_, fun id settled => fresh_of_idle (booked.idle settled), ?_⟩
  · intro none id
    exact booked.idle (by simp [none])
  · intro w hw result settled
    refine ⟨_, booked.finishes hw settled, fresh_of_idle (Function.update_self ..), ?_⟩
    intro c hc
    simpa using (List.mem_filter.1 hc).2

open ApplicationRegistrar (sampleDocuments sampleValidators)

/-- Two calls share a resolution that core rejects, while another application is resolved. -/
theorem single_flight_shared :
    ∃ s, Runs (step sampleDocuments sampleValidators 30000) anyStep initial s ∧ s.waiting.length = 3 ∧
      s.registryCalls = [.registerInstance "app-1" false] ∧ s.resolutions.countP (fun w => w.id = "app-1") ≤ 1 := by
  have h : ∃ s, exec (step sampleDocuments sampleValidators 30000) anyStep initial
        [.ensure 0 "app-1", .ensure 1 "app-2", .ensure 2 "app-1", .configRead 0 (.ok (some "v2"))] = some s ∧
      s.waiting.length = 3 ∧ s.registryCalls = [.registerInstance "app-1" false] := ⟨_, rfl, rfl, rfl⟩
  obtain ⟨s, hs, waiting, calls⟩ := h
  exact ⟨s, runs_of_exec hs, waiting, calls, (single_flight (runs_of_exec hs)).1 "app-1"⟩

end Resolutions

end Provisioning
