import Provisioning.Config.Wiring
import Provisioning.Lib.Transition

/-!
# Starting and stopping the service

`start` and `stop` of `src/provisioning/wiring.ts`, any number of calls next to each other. A phase is an `await`, and
an action runs the code from one `await` to the next. The clock is `Date.now()`, which does not go back.
-/

namespace Provisioning

open Lib

/-- What `start` builds and a teardown releases. -/
inductive Part where
  | pool
  | registry
  | manager
  | dispatcher
  | maintainer
  deriving DecidableEq, Repr

inductive StartPhase where
  /-- In `pool.query("SELECT 1")`. -/
  | pinging
  /-- In `buildConfigStore`. -/
  | configuring
  /-- In `loadExternalConnectors`. -/
  | loading
  /-- In the `catch` block, which releases the first of `left`. -/
  | tearing (left : List Part) (err : Failure)
  | started
  | failed (err : Failure)

structure Starting where
  phase : StartPhase
  /-- In the order of their construction. -/
  opened : List Part

inductive StopPhase where
  | draining
  | stoppingMaintainer
  /-- In `sleep(50)` of the grace wait. -/
  | sleeping (wakeAt : Nat)
  | shuttingManager
  | endingPool
  | done

/-- A call of `stop` that found the service running. -/
structure Stopping where
  took : Nat
  phase : StopPhase
  graceDeadline : Nat
  /-- The last `inFlightCount`. -/
  inFlight : Nat

/-- A wiring is named by the call of `start` that built it. -/
structure Process where
  running : Option Nat
  starts : List Starting
  stops : List Stopping
  clock : Nat
  /-- The releases that were issued. -/
  released : List (Nat × Part)
  /-- The wirings that another one took the place of in `running`. -/
  overwritten : List Nat

inductive WiringAction where
  | tick (ms : Nat)
  /-- `made` is what `new Pool` does. -/
  | start (made : Except Failure Unit)
  | pinged (i : Nat) (r : Except Failure Unit)
  /-- `token` is how `getToken` settles if it is called, and `made` what `new ConnectorRegistry` does. -/
  | configured (i : Nat) (token made : Except Failure Unit)
  /-- `made` is what `new ConnectorManager` does, and `launched` what its `start` does. -/
  | loaded (i : Nat) (r made launched : Except Failure Unit)
  | torn (i : Nat) (r : Except Failure Unit)
  | stop
  | drained (j : Nat)
  | maintainerStopped (j : Nat) (r : Except Failure Unit) (inFlight : Nat)
  | slept (j inFlight : Nat)
  | managerShut (j : Nat) (r : Except Failure Unit)
  | poolEnded (j : Nat) (r : Except Failure Unit)

def WiringAction.isStart : WiringAction → Bool
  | .start _ => true
  | _ => false

def Starting.isOver (call : Starting) : Bool :=
  match call.phase with
  | .started | .failed _ => true
  | _ => false

/-- `buildConfigStore`. -/
def buildConfigStore (config : WiringConfig) (token : Except Failure Unit) : Except Failure Unit :=
  match config.appConfigStore with
  | .file =>
    match config.appConfigDir with
    | none => .error (.other "wiring: appConfigDir is required when appConfigStore is \"file\"")
    | some _ => .ok ()
  | .iga =>
    match config.iga with
    | none => .error (.other "wiring: iga config is required when appConfigStore is \"iga\"")
    | some _ =>
      match token with
      | .error e => .error e
      | .ok _ => .error (.other ("wiring: APP_CONFIG_STORE=iga validated its credentials, but the IGA-backed " ++
          "ApplicationConfigStore is not built until Phase P7. Use APP_CONFIG_STORE=file for now."))

namespace Process

variable (config : WiringConfig)

def initial (clock : Nat) : Process := ⟨none, [], [], clock, [], []⟩

/-! ## `start` -/

/-- What the `catch` block of `start` releases, in its order. -/
def teardown (opened : List Part) : List Part :=
  [.maintainer, .manager, .registry, .pool].filter fun part => part ∈ opened

def setStart (i : Nat) (call : Starting) (issued : List Part) (s : Process) : Process :=
  { s with starts := s.starts.set i call, released := s.released ++ issued.map fun part => (i, part) }

/-- `err` is thrown with these parts built. -/
def fail (i : Nat) (opened : List Part) (err : Failure) (s : Process) : Process :=
  match teardown opened with
  | [] => s.setStart i ⟨.failed err, opened⟩ []
  | part :: left => s.setStart i ⟨.tearing (part :: left) err, opened⟩ [part]

def start (made : Except Failure Unit) (s : Process) : Process :=
  if s.running.isSome then
    let err := Failure.other "wiring: start() called while already running; call stop() first"
    { s with starts := s.starts ++ [⟨.failed err, []⟩] }
  else
    match made with
    | .error err => { s with starts := s.starts ++ [⟨.failed err, []⟩] }
    | .ok _ => { s with starts := s.starts ++ [⟨.pinging, [.pool]⟩] }

def pinged (i : Nat) (opened : List Part) (r : Except Failure Unit) (s : Process) : Process :=
  match r with
  | .error err => s.fail i opened err
  | .ok _ => s.setStart i ⟨.configuring, opened⟩ []

def configured (i : Nat) (opened : List Part) (token made : Except Failure Unit) (s : Process) : Process :=
  match buildConfigStore config token, made with
  | .error err, _ | .ok _, .error err => s.fail i opened err
  | .ok _, .ok _ => s.setStart i ⟨.loading, opened ++ [.registry]⟩ []

def completed (opened : List Part) : Starting := ⟨.started, opened ++ [.manager, .dispatcher, .maintainer]⟩

/-- From here to the end nothing awaits. -/
def loaded (i : Nat) (opened : List Part) (r made launched : Except Failure Unit) (s : Process) : Process :=
  match r, made, launched with
  | .error err, _, _ | .ok _, .error err, _ => s.fail i opened err
  | .ok _, .ok _, .error err => s.fail i (opened ++ [.manager]) err
  | .ok _, .ok _, .ok _ =>
    { s.setStart i (completed opened) [] with
      running := some i
      overwritten := s.overwritten ++ s.running.toList }

/-- What a release throws is ignored. -/
def torn (i : Nat) (opened left : List Part) (err : Failure) (s : Process) : Process :=
  match left with
  | [] => s.setStart i ⟨.failed err, opened⟩ []
  | part :: rest => s.setStart i ⟨.tearing (part :: rest) err, opened⟩ [part]

/-! ## `stop` -/

def setStop (j : Nat) (call : Stopping) (issued : List Part) (s : Process) : Process :=
  { s with stops := s.stops.set j call, released := s.released ++ issued.map fun part => (call.took, part) }

def stop (s : Process) : Process :=
  match s.running with
  | none => s
  | some w =>
    { s with
      running := none
      stops := s.stops ++ [⟨w, .draining, 0, 0⟩]
      released := s.released ++ [(w, .dispatcher)] }

/-- The condition of the grace wait. -/
def graceWait (j : Nat) (call : Stopping) (s : Process) : Process :=
  if 0 < call.inFlight ∧ s.clock < call.graceDeadline then
    s.setStop j { call with phase := .sleeping (s.clock + 50) } []
  else s.setStop j { call with phase := .shuttingManager } [.manager]

/-! ## Steps -/

def stepStop (s : Process) (j : Nat) (call : Stopping) : WiringAction → Option Process
  | .drained _ =>
    match call.phase with
    | .draining => some (s.setStop j { call with phase := .stoppingMaintainer } [.maintainer])
    | _ => none
  | .maintainerStopped _ _ inFlight =>
    match call.phase with
    | .stoppingMaintainer =>
      some (s.graceWait j { call with graceDeadline := s.clock + config.shutdownGraceMs, inFlight := inFlight })
    | _ => none
  | .slept _ inFlight =>
    match call.phase with
    | .sleeping wakeAt =>
      if wakeAt ≤ s.clock then some (s.graceWait j { call with inFlight := inFlight }) else none
    | _ => none
  | .managerShut _ _ =>
    match call.phase with
    | .shuttingManager => some (s.setStop j { call with phase := .endingPool } [.pool])
    | _ => none
  | .poolEnded _ _ =>
    match call.phase with
    | .endingPool => some (s.setStop j { call with phase := .done } [])
    | _ => none
  | _ => none

def stepStart (s : Process) (i : Nat) (call : Starting) : WiringAction → Option Process
  | .pinged _ r =>
    match call.phase with
    | .pinging => some (s.pinged i call.opened r)
    | _ => none
  | .configured _ token made =>
    match call.phase with
    | .configuring => some (s.configured config i call.opened token made)
    | _ => none
  | .loaded _ r made launched =>
    match call.phase with
    | .loading => some (s.loaded i call.opened r made launched)
    | _ => none
  | .torn _ _ =>
    match call.phase with
    | .tearing left err => some (s.torn i call.opened left.tail err)
    | _ => none
  | _ => none

def step (s : Process) : WiringAction → Option Process
  | .tick ms => some { s with clock := s.clock + ms }
  | .start made => some (s.start made)
  | .stop => some s.stop
  | .pinged i r => s.starts[i]?.bind fun call => s.stepStart config i call (.pinged i r)
  | .configured i token made => s.starts[i]?.bind fun call => s.stepStart config i call (.configured i token made)
  | .loaded i r made launched => s.starts[i]?.bind fun call => s.stepStart config i call (.loaded i r made launched)
  | .torn i r => s.starts[i]?.bind fun call => s.stepStart config i call (.torn i r)
  | .drained j => s.stops[j]?.bind fun call => s.stepStop config j call (.drained j)
  | .maintainerStopped j r n => s.stops[j]?.bind fun call => s.stepStop config j call (.maintainerStopped j r n)
  | .slept j n => s.stops[j]?.bind fun call => s.stepStop config j call (.slept j n)
  | .managerShut j r => s.stops[j]?.bind fun call => s.stepStop config j call (.managerShut j r)
  | .poolEnded j r => s.stops[j]?.bind fun call => s.stepStop config j call (.poolEnded j r)

/-- No call of `start` begins while another one is under way. -/
def startsAlone (s : Process) (a : WiringAction) (_ : Process) : Prop :=
  a.isStart → s.starts.all Starting.isOver

instance (s : Process) (a : WiringAction) (s' : Process) : Decidable (startsAlone s a s') :=
  inferInstanceAs (Decidable (_ → _))

end Process

/-! ## The account of a call -/

/-- All that `start` builds. -/
def Part.all : List Part := [.pool, .registry, .manager, .dispatcher, .maintainer]

def Starting.isStarted (call : Starting) : Bool :=
  match call.phase with
  | .started => true
  | _ => false

theorem Starting.not_started {call : Starting} (h : call.isOver = false) : call.isStarted = false := by
  unfold isOver at h
  unfold isStarted
  split at h <;> simp_all

/-- What a call has built and released agrees with its phase. -/
def Starting.Accounted (call : Starting) (released : List Part) : Prop :=
  match call.phase with
  | .pinging | .configuring => call.opened = [.pool] ∧ released = []
  | .loading => call.opened = [.pool, .registry] ∧ released = []
  | .tearing left _ => call.opened <+: Part.all ∧ left ≠ [] ∧ released ++ left.tail = call.opened.reverse
  | .started => call.opened = Part.all
  | .failed _ => call.opened <+: Part.all ∧ released = call.opened.reverse

theorem Starting.accounted_started {call : Starting} {released released' : List Part} (h : call.isStarted)
    (accounted : call.Accounted released) : call.Accounted released' := by
  unfold isStarted at h
  unfold Accounted at accounted ⊢
  split at h
  · rename_i hphase
    rw [hphase] at accounted ⊢
    exact accounted
  · cases h

/-- What a call has released of the wiring that it took. -/
def StopPhase.releases : StopPhase → List Part
  | .draining => [.dispatcher]
  | .stoppingMaintainer | .sleeping _ => [.dispatcher, .maintainer]
  | .shuttingManager => [.dispatcher, .maintainer, .manager]
  | .endingPool | .done => [.dispatcher, .maintainer, .manager, .pool]

/-- The manager is shut down when no attempt is in flight or the grace is over. -/
def Stopping.Waited (call : Stopping) (clock : Nat) : Prop :=
  .manager ∈ call.phase.releases → call.inFlight = 0 ∨ call.graceDeadline ≤ clock

namespace Process

/-! ## What one step can do -/

variable {config : WiringConfig} {s s' : Process}

inductive Stepped (s : Process) : WiringAction → Process → Prop
  | ticked (ms : Nat) : Stepped s (.tick ms) { s with clock := s.clock + ms }
  | entered {made : Except Failure Unit} {call : Starting} (open' : call.isStarted = false)
      (accounted : call.Accounted []) (vacant : call.isOver = false → s.running = none) :
      Stepped s (.start made) { s with starts := s.starts ++ [call] }
  | advanced {a : WiringAction} {i : Nat} {call call' : Starting} {issued : List Part}
      (hi : s.starts[i]? = some call) (before : call.isOver = false) (after : call'.isStarted = false)
      (accounted : ∀ released, call.Accounted released → call'.Accounted (released ++ issued)) :
      Stepped s a (s.setStart i call' issued)
  | published {a : WiringAction} {i : Nat} {call : Starting} (hi : s.starts[i]? = some call)
      (loading : call.phase = .loading) :
      Stepped s a
        { s.setStart i (completed call.opened) [] with
          running := some i
          overwritten := s.overwritten ++ s.running.toList }
  | idle : Stepped s .stop s
  | took {w : Nat} (hw : s.running = some w) :
      Stepped s .stop
        { s with
          running := none
          stops := s.stops ++ [⟨w, .draining, 0, 0⟩]
          released := s.released ++ [(w, .dispatcher)] }
  | stopping {a : WiringAction} {j : Nat} {call call' : Stopping} {issued : List Part} (hj : s.stops[j]? = some call)
      (took : call'.took = call.took) (releases : call'.phase.releases = call.phase.releases ++ issued)
      (waited : call.Waited s.clock → call'.Waited s.clock) : Stepped s a (s.setStop j call' issued)

section Start

variable {i : Nat} {call : Starting}

/-- The parts are there that the `catch` block releases in the reverse order. -/
theorem fail_stepped {a : WiringAction} {opened : List Part} {err : Failure} (hi : s.starts[i]? = some call)
    (before : call.isOver = false) (fresh : ∀ released, call.Accounted released → released = [])
    (hopened : (∃ released, call.Accounted released) →
      opened <+: Part.all ∧ teardown opened = opened.reverse) :
    s.Stepped a (s.fail i opened err) := by
  unfold fail
  split
  · rename_i hnone
    refine .advanced hi before rfl fun released h => ?_
    obtain ⟨hbefore, hteardown⟩ := hopened ⟨released, h⟩
    refine ⟨hbefore, ?_⟩
    rw [List.append_nil, fresh released h]
    exact (hteardown ▸ hnone).symm
  · rename_i part left hsome
    refine .advanced hi before rfl fun released h => ?_
    obtain ⟨hbefore, hteardown⟩ := hopened ⟨released, h⟩
    refine ⟨hbefore, List.cons_ne_nil _ _, ?_⟩
    rw [fresh released h]
    exact (hteardown ▸ hsome).symm

theorem stepStart_stepped {a : WiringAction} (hi : s.starts[i]? = some call)
    (h : s.stepStart config i call a = some s') : s.Stepped a s' := by
  obtain ⟨phase, opened⟩ := call
  cases a <;> simp only [stepStart, reduceCtorEq] at h
  case pinged k r =>
    split at h <;> cases h
    unfold pinged
    split
    · refine fail_stepped hi rfl (fun _ h => h.2) fun ⟨_, h⟩ => ?_
      rw [show opened = _ from h.1]
      decide
    · refine .advanced hi rfl rfl fun released h => ⟨h.1, ?_⟩
      rw [List.append_nil]
      exact h.2
  case configured k token made =>
    split at h <;> cases h
    unfold configured
    split
    · refine fail_stepped hi rfl (fun _ h => h.2) fun ⟨_, h⟩ => ?_
      rw [show opened = _ from h.1]
      decide
    · refine fail_stepped hi rfl (fun _ h => h.2) fun ⟨_, h⟩ => ?_
      rw [show opened = _ from h.1]
      decide
    · refine .advanced hi rfl rfl fun released h => ⟨?_, ?_⟩
      · exact congrArg (· ++ [Part.registry]) h.1
      · simpa using h.2
  case loaded k r made launched =>
    split at h <;> cases h
    have hopened : (∃ released, (⟨.loading, opened⟩ : Starting).Accounted released) →
        opened = [.pool, .registry] := fun ⟨_, h⟩ => h.1
    unfold loaded
    split
    · refine fail_stepped hi rfl (fun _ h => h.2) fun h => ?_
      rw [hopened h]
      decide
    · refine fail_stepped hi rfl (fun _ h => h.2) fun h => ?_
      rw [hopened h]
      decide
    · refine fail_stepped hi rfl (fun _ h => h.2) fun h => ?_
      rw [hopened h]
      decide
    · exact .published hi rfl
  case torn k r =>
    split at h <;> cases h
    rename_i left err
    unfold torn
    split
    · rename_i hnone
      refine .advanced hi rfl rfl fun released h => ?_
      refine ⟨h.1, ?_⟩
      rw [← hnone]
      exact h.2.2
    · rename_i part rest hsome
      refine .advanced hi rfl rfl fun released h => ⟨h.1, List.cons_ne_nil _ _, ?_⟩
      rw [List.append_assoc]
      show released ++ part :: rest = opened.reverse
      rw [← hsome]
      exact h.2.2

end Start

section Stop

variable {j : Nat} {call : Stopping}

theorem graceWait_stepped {a : WiringAction} {call' : Stopping} (hj : s.stops[j]? = some call)
    (took : call'.took = call.took)
    (releases : call.phase.releases = [.dispatcher, .maintainer]) : s.Stepped a (s.graceWait j call') := by
  unfold graceWait
  split
  · refine .stopping hj ?_ ?_ fun _ hmanager => ?_
    · exact took
    · rw [releases]
      rfl
    · simp [StopPhase.releases] at hmanager
  · rename_i hover
    refine .stopping hj ?_ ?_ fun _ _ => ?_
    · exact took
    · rw [releases]
      rfl
    · show call'.inFlight = 0 ∨ call'.graceDeadline ≤ s.clock
      omega

theorem stepStop_stepped {a : WiringAction} (hj : s.stops[j]? = some call)
    (h : s.stepStop config j call a = some s') : s.Stepped a s' := by
  obtain ⟨took, phase, graceDeadline, inFlight⟩ := call
  cases a <;> simp only [stepStop, reduceCtorEq] at h
  case drained k =>
    split at h <;> cases h
    refine .stopping hj rfl rfl fun _ hmanager => ?_
    simp [StopPhase.releases] at hmanager
  case maintainerStopped k r n =>
    split at h <;> cases h
    exact graceWait_stepped hj rfl rfl
  case slept k n =>
    split at h
    · split at h <;> cases h
      exact graceWait_stepped hj rfl rfl
    · cases h
  case managerShut k r =>
    split at h <;> cases h
    exact .stopping hj rfl rfl fun waited _ => waited (by simp [StopPhase.releases])
  case poolEnded k r =>
    split at h <;> cases h
    exact .stopping hj rfl rfl fun waited _ => waited (by simp [StopPhase.releases])

end Stop

theorem start_stepped {made : Except Failure Unit} : s.Stepped (.start made) (s.start made) := by
  unfold start
  split
  · exact .entered rfl ⟨List.nil_prefix, rfl⟩ nofun
  · rename_i hvacant
    split
    · exact .entered rfl ⟨List.nil_prefix, rfl⟩ nofun
    · exact .entered rfl ⟨rfl, rfl⟩ fun _ => by simpa using hvacant

theorem stepped {a : WiringAction} (h : s.step config a = some s') : s.Stepped a s' := by
  cases a <;> simp only [step, Option.some.injEq, Option.bind_eq_some_iff] at h
  case tick ms =>
    subst h
    exact .ticked ms
  case start made =>
    subst h
    exact start_stepped
  case stop =>
    subst h
    unfold stop
    split
    · exact .idle
    · exact .took ‹_›
  case pinged | configured | loaded | torn =>
    obtain ⟨call, hi, h⟩ := h
    exact stepStart_stepped hi h
  case drained | maintainerStopped | slept | managerShut | poolEnded =>
    obtain ⟨call, hj, h⟩ := h
    exact stepStop_stepped hj h

/-! ## The ledger -/

/-- The releases of a wiring, in order. -/
def releasedOf (s : Process) (w : Nat) : List Part := (s.released.filter fun x => x.1 = w).map Prod.snd

/-- Who answers for a wiring that is complete. -/
def owners (s : Process) : List Nat := s.running.toList ++ s.overwritten ++ s.stops.map Stopping.took

def IsStarted (s : Process) (w : Nat) : Prop := ∃ call : Starting, s.starts[w]? = some call ∧ call.isStarted

structure Ledger (s : Process) : Prop where
  starts : ∀ (i : Nat) (call : Starting), s.starts[i]? = some call → call.Accounted (s.releasedOf i)
  resting : ∀ w ∈ s.running.toList ++ s.overwritten, s.releasedOf w = []
  stops : ∀ call ∈ s.stops, s.releasedOf call.took = call.phase.releases ∧ call.Waited s.clock
  nodup : s.owners.Nodup
  owned : ∀ w, w ∈ s.owners ↔ s.IsStarted w
  known : ∀ x ∈ s.released, x.1 < s.starts.length

theorem releasedOf_append {w w' : Nat} {issued : List Part} {released : List (Nat × Part)} :
    ((released ++ issued.map fun part => (w', part)).filter fun x => x.1 = w).map Prod.snd =
      (released.filter fun x => x.1 = w).map Prod.snd ++ if w' = w then issued else [] := by
  rw [List.filter_append, List.map_append]
  congr 1
  split
  · rename_i hw
    simp [hw, List.filter_map, Function.comp_def]
  · rename_i hw
    simp [hw, List.filter_map, Function.comp_def]

theorem releasedOf_setStart {i w : Nat} {call : Starting} {issued : List Part} :
    (s.setStart i call issued).releasedOf w = s.releasedOf w ++ if i = w then issued else [] := releasedOf_append

theorem releasedOf_setStop {j w : Nat} {call : Stopping} {issued : List Part} :
    (s.setStop j call issued).releasedOf w = s.releasedOf w ++ if call.took = w then issued else [] :=
  releasedOf_append

theorem Ledger.releasedOf_new (inv : s.Ledger) : s.releasedOf s.starts.length = [] := by
  unfold releasedOf
  rw [List.map_eq_nil_iff, List.filter_eq_nil_iff]
  intro x hx hnew
  have := inv.known x hx
  simp only [decide_eq_true_eq] at hnew
  omega

theorem ledger_initial (clock : Nat) : (initial clock).Ledger := by
  constructor <;> simp [initial, owners, IsStarted]

theorem Ledger.entered (inv : s.Ledger) {call : Starting} (open' : call.isStarted = false)
    (accounted : call.Accounted []) : ({ s with starts := s.starts ++ [call] } : Process).Ledger := by
  refine ⟨fun i c hc => ?_, inv.resting, inv.stops, inv.nodup, fun w => (inv.owned w).trans ?_, fun x hx => ?_⟩
  · rcases Nat.lt_trichotomy i s.starts.length with hi | rfl | hi
    · rw [List.getElem?_append_left hi] at hc
      exact inv.starts i c hc
    · rw [List.getElem?_concat_length] at hc
      cases hc
      show call.Accounted (s.releasedOf _)
      rw [inv.releasedOf_new]
      exact accounted
    · rw [List.getElem?_eq_none (by simpa using Nat.succ_le_of_lt hi)] at hc
      cases hc
  · constructor
    · rintro ⟨c, hc, hstarted⟩
      exact ⟨c, (List.getElem?_append_left (List.getElem?_eq_some_iff.1 hc).1).trans hc, hstarted⟩
    · rintro ⟨c, hc, hstarted⟩
      have hmem := List.mem_of_getElem? hc
      rcases Nat.lt_or_ge w s.starts.length with hw | hw
      · exact ⟨c, (List.getElem?_append_left hw).symm.trans hc, hstarted⟩
      · rw [List.getElem?_append_right hw, List.getElem?_singleton] at hc
        split at hc
        · cases hc
          rw [open'] at hstarted
          cases hstarted
        · cases hc
  · rw [List.length_append]
    exact Nat.lt_add_right _ (inv.known x hx)

theorem Ledger.not_owner (inv : s.Ledger) {i : Nat} {call : Starting} (hi : s.starts[i]? = some call)
    (before : call.isStarted = false) : i ∉ s.owners := by
  rintro hmem
  obtain ⟨c, hc, hstarted⟩ := (inv.owned i).1 hmem
  obtain rfl := Option.some.inj (hi.symm.trans hc)
  rw [before] at hstarted
  cases hstarted

theorem isStarted_setStart {i w : Nat} {call : Starting} {issued : List Part} (hi : i < s.starts.length) :
    (s.setStart i call issued).IsStarted w ↔ if w = i then call.isStarted = true else s.IsStarted w := by
  unfold IsStarted setStart
  simp only [List.getElem?_set]
  split
  · rename_i hw
    simp [hw]
  · rename_i hw
    rw [if_neg fun h => hw h.symm]

theorem Ledger.advanced (inv : s.Ledger) {i : Nat} {call call' : Starting} {issued : List Part}
    (hi : s.starts[i]? = some call) (before : call.isStarted = false) (after : call'.isStarted = false)
    (accounted : ∀ released, call.Accounted released → call'.Accounted (released ++ issued)) :
    (s.setStart i call' issued).Ledger := by
  have hlt := (List.getElem?_eq_some_iff.1 hi).1
  have hother {w : Nat} (hw : w ∈ s.owners) : (s.setStart i call' issued).releasedOf w = s.releasedOf w := by
    rw [releasedOf_setStart, if_neg, List.append_nil]
    rintro rfl
    exact inv.not_owner hi before hw
  refine ⟨fun k c hc => ?_, fun w hw => ?_, fun c hc => ?_, inv.nodup, fun w => ?_, fun x hx => ?_⟩
  · rw [releasedOf_setStart]
    simp only [setStart, List.getElem?_set] at hc
    split at hc
    · rename_i hk
      subst hk
      obtain rfl := Option.some.inj hc
      rw [if_pos rfl]
      exact accounted _ (inv.starts i call hi)
    · rename_i hk
      rw [if_neg hk, List.append_nil]
      exact inv.starts k c hc
  · rw [hother (List.mem_append_left _ hw)]
    exact inv.resting w hw
  · rw [hother (List.mem_append_right _ (List.mem_map_of_mem hc))]
    exact inv.stops c hc
  · rw [isStarted_setStart hlt]
    refine (inv.owned w).trans ?_
    split
    · rename_i hw
      subst hw
      rw [after]
      exact ⟨fun h => absurd ((inv.owned w).2 h) (inv.not_owner hi before), nofun⟩
    · exact Iff.rfl
  · show x.1 < (s.starts.set i call').length
    rw [List.length_set]
    rcases List.mem_append.1 hx with hx | hx
    · exact inv.known x hx
    · obtain ⟨part, -, rfl⟩ := List.mem_map.1 hx
      exact hlt

theorem Ledger.published (inv : s.Ledger) {i : Nat} {call : Starting} (hi : s.starts[i]? = some call)
    (loading : call.phase = .loading) :
    ({ s.setStart i (completed call.opened) [] with
      running := some i
      overwritten := s.overwritten ++ s.running.toList } : Process).Ledger := by
  have hlt := (List.getElem?_eq_some_iff.1 hi).1
  have before : call.isStarted = false := by
    unfold Starting.isStarted
    rw [loading]
  have accounted : call.opened = [.pool, .registry] ∧ s.releasedOf i = [] := by
    have h := inv.starts i call hi
    unfold Starting.Accounted at h
    rw [loading] at h
    exact h
  have hreleased (w : Nat) : (s.setStart i (completed call.opened) []).releasedOf w = s.releasedOf w := by
    rw [releasedOf_setStart, ite_self, List.append_nil]
  have hswap : (s.overwritten ++ s.running.toList ++ s.stops.map Stopping.took).Perm s.owners :=
    List.perm_append_comm.append_right _
  have hperm := hswap.cons i
  refine ⟨fun k c hc => ?_, fun w hw => ?_, fun c hc => ?_, ?_, fun w => ?_, fun x hx => ?_⟩
  · show c.Accounted ((s.setStart i (completed call.opened) []).releasedOf k)
    rw [hreleased]
    simp only [setStart, List.getElem?_set] at hc
    split at hc
    · obtain rfl := Option.some.inj hc
      show call.opened ++ [.manager, .dispatcher, .maintainer] = Part.all
      rw [accounted.1]
      rfl
    · exact inv.starts k c hc
  · show (s.setStart i (completed call.opened) []).releasedOf w = []
    rw [hreleased]
    simp only [Option.toList_some, List.mem_append, List.mem_singleton] at hw
    rcases hw with rfl | hw | hw
    · exact accounted.2
    · exact inv.resting w (List.mem_append_right _ hw)
    · exact inv.resting w (List.mem_append_left _ hw)
  · have hstop := inv.stops c hc
    exact ⟨(hreleased c.took).trans hstop.1, hstop.2⟩
  · exact hperm.nodup_iff.2 (List.nodup_cons.2 ⟨inv.not_owner hi before, inv.nodup⟩)
  · refine hperm.mem_iff.trans ?_
    have hstarted : ({ s.setStart i (completed call.opened) [] with
        running := some i
        overwritten := s.overwritten ++ s.running.toList } : Process).IsStarted w ↔ w = i ∨ s.IsStarted w := by
      refine Iff.trans (@isStarted_setStart s i w _ [] hlt) ?_
      split
      · rename_i hw
        exact ⟨fun _ => .inl hw, fun _ => rfl⟩
      · rename_i hw
        exact ⟨.inr, fun h => h.resolve_left hw⟩
    rw [List.mem_cons, inv.owned, hstarted]
  · show x.1 < (s.starts.set i (completed call.opened)).length
    rw [List.length_set]
    simp only [setStart, List.map_nil, List.append_nil] at hx
    exact inv.known x hx

theorem Ledger.took (inv : s.Ledger) {w : Nat} (hw : s.running = some w) :
    ({ s with
      running := none
      stops := s.stops ++ [⟨w, .draining, 0, 0⟩]
      released := s.released ++ [(w, .dispatcher)] } : Process).Ledger := by
  have hreleased (v : Nat) : ((s.released ++ [(w, Part.dispatcher)]).filter fun x => x.1 = v).map Prod.snd =
      s.releasedOf v ++ if w = v then [.dispatcher] else [] := @releasedOf_append v w [.dispatcher] s.released
  have howners : s.owners = w :: (s.overwritten ++ s.stops.map Stopping.took) := by
    unfold owners
    rw [hw]
    rfl
  have hperm : (s.overwritten ++ (s.stops ++ [(⟨w, .draining, 0, 0⟩ : Stopping)]).map Stopping.took).Perm s.owners := by
    rw [howners, List.map_append, ← List.append_assoc]
    exact List.perm_append_singleton w _
  have hnodup := inv.nodup
  rw [howners, List.nodup_cons, List.mem_append, not_or] at hnodup
  refine ⟨fun k c hc => ?_, fun v hv => ?_, fun c hc => ?_, ?_, fun v => ?_, fun x hx => ?_⟩
  · show c.Accounted (((s.released ++ [(w, Part.dispatcher)]).filter fun x => x.1 = k).map Prod.snd)
    rw [hreleased]
    split
    · rename_i hk
      subst hk
      obtain ⟨c', hc', hstarted⟩ := (inv.owned w).1 (howners ▸ List.mem_cons_self)
      obtain rfl := Option.some.inj (hc.symm.trans hc')
      exact Starting.accounted_started hstarted (inv.starts w c hc)
    · rw [List.append_nil]
      exact inv.starts k c hc
  · have hne : w ≠ v := by
      rintro rfl
      exact hnodup.1.1 hv
    refine (hreleased v).trans ?_
    rw [if_neg hne, List.append_nil]
    exact inv.resting v (List.mem_append_right _ hv)
  · show ((s.released ++ [(w, Part.dispatcher)]).filter fun x => x.1 = c.took).map Prod.snd = _ ∧ c.Waited s.clock
    rw [hreleased]
    rcases List.mem_append.1 hc with hold | hnew
    · have hne : w ≠ c.took := fun h => hnodup.1.2 (h ▸ List.mem_map_of_mem hold)
      rw [if_neg hne, List.append_nil]
      exact inv.stops c hold
    · obtain rfl := List.mem_singleton.1 hnew
      rw [if_pos rfl, inv.resting w (by simp [hw])]
      exact ⟨rfl, fun h => by simp [StopPhase.releases] at h⟩
  · exact hperm.nodup_iff.2 inv.nodup
  · exact hperm.mem_iff.trans (inv.owned v)
  · rcases List.mem_append.1 hx with hx | hx
    · exact inv.known x hx
    · obtain rfl := List.mem_singleton.1 hx
      obtain ⟨c, hc, -⟩ := (inv.owned w).1 (howners ▸ List.mem_cons_self)
      exact (List.getElem?_eq_some_iff.1 hc).1

theorem Ledger.stopping (inv : s.Ledger) {j : Nat} {call call' : Stopping} {issued : List Part}
    (hj : s.stops[j]? = some call) (took : call'.took = call.took)
    (releases : call'.phase.releases = call.phase.releases ++ issued)
    (waited : call.Waited s.clock → call'.Waited s.clock) : (s.setStop j call' issued).Ledger := by
  have hlt := (List.getElem?_eq_some_iff.1 hj).1
  have hmem := List.mem_of_getElem? hj
  have htook : (s.stops.set j call').map Stopping.took = s.stops.map Stopping.took := by
    apply List.ext_getElem?
    intro k
    rw [List.getElem?_map, List.getElem?_map, List.getElem?_set]
    split
    · rename_i hk
      subst hk
      rw [hj, Option.map_some, Option.map_some, took]
    · rfl
  have howners : (s.setStop j call' issued).owners = s.owners := by
    unfold owners setStop
    rw [htook]
  have howner : call.took ∈ s.owners := List.mem_append_right _ (List.mem_map_of_mem hmem)
  have hreleased {w : Nat} (hw : w ≠ call.took) : (s.setStop j call' issued).releasedOf w = s.releasedOf w := by
    rw [releasedOf_setStop, took, if_neg (Ne.symm hw), List.append_nil]
  have hnodup := List.nodup_append.1 inv.nodup
  refine ⟨fun k c hc => ?_, fun w hw => ?_, fun c hc => ?_, howners ▸ inv.nodup,
    fun w => howners ▸ inv.owned w, fun x hx => ?_⟩
  · by_cases hk : k = call.took
    · subst hk
      obtain ⟨c', hc', hstarted⟩ := (inv.owned _).1 howner
      obtain rfl := Option.some.inj (hc.symm.trans hc')
      exact Starting.accounted_started hstarted (inv.starts _ c hc)
    · rw [hreleased hk]
      exact inv.starts k c hc
  · have hne : w ≠ call.took := hnodup.2.2 w hw _ (List.mem_map_of_mem hmem)
    rw [hreleased hne]
    exact inv.resting w hw
  · obtain ⟨k, hk⟩ := List.mem_iff_getElem?.1 hc
    simp only [setStop, List.getElem?_set] at hk
    split at hk
    · obtain rfl := Option.some.inj hk
      obtain ⟨hold, hwaited⟩ := inv.stops call hmem
      refine ⟨?_, waited hwaited⟩
      rw [releasedOf_setStop, if_pos rfl, took, hold, releases]
    · rename_i hne
      have hc := List.mem_of_getElem? hk
      have hother : c.took ≠ call.took := by
        intro h
        have heq : (s.stops.map Stopping.took)[j]? = (s.stops.map Stopping.took)[k]? := by
          rw [List.getElem?_map, List.getElem?_map, hj, hk, Option.map_some, Option.map_some, h]
        exact hne ((List.getElem?_inj (by simpa using hlt) hnodup.2.1).1 heq)
      rw [hreleased hother]
      exact inv.stops c hc
  · rcases List.mem_append.1 hx with hx | hx
    · exact inv.known x hx
    · obtain ⟨part, -, rfl⟩ := List.mem_map.1 hx
      obtain ⟨c, hc, -⟩ := (inv.owned _).1 howner
      rw [took]
      exact (List.getElem?_eq_some_iff.1 hc).1

theorem Ledger.step (inv : s.Ledger) {a : WiringAction} (h : s.Stepped a s') : s'.Ledger := by
  cases h with
  | ticked ms =>
    refine ⟨inv.starts, inv.resting, fun call hcall => ?_, inv.nodup, inv.owned, inv.known⟩
    obtain ⟨hreleased, waited⟩ := inv.stops call hcall
    exact ⟨hreleased, fun h => (waited h).imp_right (Nat.le_add_right_of_le ·)⟩
  | entered open' accounted => exact inv.entered open' accounted
  | advanced hi before after accounted => exact inv.advanced hi (Starting.not_started before) after accounted
  | published hi loading => exact inv.published hi loading
  | idle => exact inv
  | took hw => exact inv.took hw
  | stopping hj took releases waited => exact inv.stopping hj took releases waited

theorem ledger_run {clock : Nat} {ok : Process → WiringAction → Process → Prop}
    (run : Runs (step config) ok (initial clock) s) : s.Ledger :=
  run.invariant Ledger (ledger_initial clock) fun _ _ _ inv h _ => inv.step (stepped h)

/-! ## Calls of `start` one after another -/

def underWay (s : Process) : Nat := s.starts.countP fun call => !call.isOver

structure Alone (s : Process) : Prop where
  one : s.underWay ≤ 1
  vacant : 0 < s.underWay → s.running = none
  kept : s.overwritten = []

theorem underWay_setStart {i : Nat} {call call' : Starting} {issued : List Part} (hi : s.starts[i]? = some call)
    (before : call.isOver = false) :
    (s.setStart i call' issued).underWay + 1 = s.underWay + if call'.isOver then 0 else 1 := by
  obtain ⟨hlt, hget⟩ := List.getElem?_eq_some_iff.1 hi
  have hpos : 0 < s.underWay := List.countP_pos_iff.2 ⟨call, List.mem_of_getElem? hi, by simp [before]⟩
  unfold underWay at hpos ⊢
  simp only [setStart, List.countP_set hlt, hget, before]
  cases call'.isOver <;> simp <;> omega

theorem Alone.step (inv : s.Alone) {a : WiringAction} (h : s.Stepped a s') (alone : startsAlone s a s') : s'.Alone := by
  cases h with
  | ticked | idle | stopping => exact ⟨inv.one, inv.vacant, inv.kept⟩
  | @entered made call open' accounted vacant =>
    have hnone : s.underWay = 0 := by
      unfold underWay
      rw [List.countP_eq_zero]
      intro call hcall
      simpa using List.all_eq_true.1 (alone rfl) call hcall
    have hcount : ({ s with starts := s.starts ++ [call] } : Process).underWay = if call.isOver then 0 else 1 := by
      show (s.starts ++ [call]).countP _ = _
      rw [List.countP_append, show s.starts.countP _ = 0 from hnone]
      cases hover : call.isOver <;> simp [hover]
    refine ⟨?_, fun hpos => ?_, inv.kept⟩
    · rw [hcount]
      split <;> omega
    · apply vacant
      rw [hcount] at hpos
      split at hpos
      · omega
      · rename_i hover
        exact Bool.eq_false_iff.2 hover
  | @advanced _ i call call' issued hi before after accounted =>
    have hcount := @underWay_setStart s i call call' issued hi before
    have hpos : 0 < s.underWay := List.countP_pos_iff.2 ⟨call, List.mem_of_getElem? hi, by simp [before]⟩
    refine ⟨?_, fun _ => inv.vacant hpos, inv.kept⟩
    have := inv.one
    split at hcount <;> omega
  | @published _ i call hi loading =>
    have before : call.isOver = false := by
      unfold Starting.isOver
      rw [loading]
    have hcount := @underWay_setStart s i call (completed call.opened) [] hi before
    have hpos : 0 < s.underWay := List.countP_pos_iff.2 ⟨call, List.mem_of_getElem? hi, by simp [before]⟩
    have hone := inv.one
    rw [if_pos (show (completed call.opened).isOver = true from rfl)] at hcount
    have hnone : (s.setStart i (completed call.opened) []).underWay = 0 := by omega
    refine ⟨?_, fun h => ?_, ?_⟩
    · exact hnone.le.trans (Nat.zero_le 1)
    · exact absurd hnone h.ne'
    · show s.overwritten ++ s.running.toList = []
      rw [inv.kept, inv.vacant hpos]
      rfl
  | took => exact ⟨inv.one, fun _ => rfl, inv.kept⟩

/-! ## The results -/

theorem releases_nodup (phase : StopPhase) : phase.releases.Nodup := by
  cases phase <;> simp [StopPhase.releases]

theorem nodup_of_reverse {released left opened : List Part} (hbefore : opened <+: Part.all)
    (h : released ++ left = opened.reverse) : released.Nodup := by
  have hall : Part.all.Nodup := by decide
  have hreverse := List.nodup_reverse.2 (hall.sublist hbefore.sublist)
  rw [← h] at hreverse
  exact (List.nodup_append.1 hreverse).1

theorem Ledger.released_nodup (inv : s.Ledger) (w : Nat) : (s.releasedOf w).Nodup := by
  by_cases howner : w ∈ s.owners
  · rcases List.mem_append.1 howner with hw | hw
    · rw [inv.resting w hw]
      exact List.nodup_nil
    · obtain ⟨stop, hstop, rfl⟩ := List.mem_map.1 hw
      rw [(inv.stops stop hstop).1]
      exact releases_nodup stop.phase
  · cases hcall : s.starts[w]? with
    | none =>
      have hnil : s.releasedOf w = [] := by
        unfold releasedOf
        rw [List.map_eq_nil_iff, List.filter_eq_nil_iff]
        intro x hx hxw
        have := inv.known x hx
        rw [List.getElem?_eq_none_iff] at hcall
        simp only [decide_eq_true_eq] at hxw
        omega
      rw [hnil]
      exact List.nodup_nil
    | some call =>
      have accounted := inv.starts w call hcall
      unfold Starting.Accounted at accounted
      split at accounted
      · rw [accounted.2]
        exact List.nodup_nil
      · rw [accounted.2]
        exact List.nodup_nil
      · rw [accounted.2]
        exact List.nodup_nil
      · exact nodup_of_reverse accounted.1 accounted.2.2
      · rename_i hphase
        refine absurd ((inv.owned w).2 ⟨call, hcall, ?_⟩) howner
        unfold Starting.isStarted
        rw [hphase]
      · exact nodup_of_reverse accounted.1 ((List.append_nil _).trans accounted.2)

/-- **No part is released twice, and a call that ends releases what it answers for**: a `start` that fails all that
it built, in the reverse order, and a `stop` the four parts that use the database, the manager only when no attempt is
in flight or the grace is over. -/
theorem released_once {clock : Nat} (run : Runs (step config) anyStep (initial clock) s) :
    (∀ (i : Nat) (call : Starting) (err : Failure), s.starts[i]? = some call → call.phase = .failed err →
      s.releasedOf i = call.opened.reverse) ∧
    (∀ call ∈ s.stops, s.releasedOf call.took = call.phase.releases ∧ call.Waited s.clock) ∧
    (s.stops.map Stopping.took).Nodup ∧
    ∀ w, (s.releasedOf w).Nodup := by
  have inv := ledger_run run
  refine ⟨fun i call err hi hphase => ?_, inv.stops, (List.nodup_append.1 inv.nodup).2.1, inv.released_nodup⟩
  have accounted := inv.starts i call hi
  unfold Starting.Accounted at accounted
  rw [hphase] at accounted
  exact accounted.2

section Runs

def fileConfig : WiringConfig where
  databaseUrl := "postgres://localhost/iga"
  connectorBundleDir := "/connectors"
  appConfigStore := .file
  drainBudgetMs := CONFIG_DEFAULTS.drainBudgetMs
  shutdownGraceMs := CONFIG_DEFAULTS.shutdownGraceMs
  statementTimeoutMs := CONFIG_DEFAULTS.statementTimeoutMs
  partitionRetentionDays := CONFIG_DEFAULTS.partitionRetentionDays
  partitionMaintenanceIntervalMs := CONFIG_DEFAULTS.partitionMaintenanceIntervalMs
  dispatcherPoolMax := CONFIG_DEFAULTS.poolMax
  claimIntervalMs := CONFIG_DEFAULTS.claimIntervalMs
  reaperThresholdMs := CONFIG_DEFAULTS.reaperThresholdMs
  appConfigDir := some "/config"
  iga := none

/-- The bundle directory is missing at first, and an attempt outlasts the grace. -/
def restarted : List WiringAction :=
  [.start (.ok ()), .pinged 0 (.ok ()), .configured 0 (.ok ()) (.ok ()),
    .loaded 0 (.error (.other "ENOENT")) (.ok ()) (.ok ()), .torn 0 (.ok ()), .torn 0 (.error (.other "closed")),
    .start (.ok ()), .pinged 1 (.ok ()), .configured 1 (.ok ()) (.ok ()), .loaded 1 (.ok ()) (.ok ()) (.ok ()),
    .stop, .drained 0, .maintainerStopped 0 (.ok ()) 1, .tick 2000, .slept 0 1, .managerShut 0 (.ok ()),
    .poolEnded 0 (.ok ())]

/-- The releases of both wirings and what the stop saw. -/
def account (s : Process) : List Part × List Part × List (Nat × Nat) :=
  (s.releasedOf 0, s.releasedOf 1, s.stops.map fun stop => (stop.took, stop.inFlight))

theorem released_once_restarted :
    ∃ s, exec (step fileConfig) anyStep (initial 0) restarted = some s ∧
      s.account = ([.registry, .pool], [.dispatcher, .maintainer, .manager, .pool], [(1, 1)]) ∧
      ∀ call ∈ s.stops, s.releasedOf call.took = call.phase.releases ∧ call.Waited s.clock := by
  have h : (exec (step fileConfig) anyStep (initial 0) restarted).map account =
      some ([.registry, .pool], [.dispatcher, .maintainer, .manager, .pool], [(1, 1)]) := by
    decide
  obtain ⟨s, run, hs⟩ := Option.map_eq_some_iff.1 h
  exact ⟨s, run, hs, (released_once (runs_of_exec run)).2.1⟩

end Runs

/-- **No wiring is lost** when a `start` begins only after the one before it is over: one that is complete is the
running one, or exactly one `stop` takes it down. -/
theorem no_wiring_lost {clock : Nat} (run : Runs (step config) startsAlone (initial clock) s) {i : Nat}
    {call : Starting} (hi : s.starts[i]? = some call) (started : call.phase = .started) :
    s.running = some i ∧ (∀ stop ∈ s.stops, stop.took ≠ i) ∧ s.releasedOf i = [] ∨
      s.running ≠ some i ∧ ∃ stop ∈ s.stops, stop.took = i ∧ s.releasedOf i = stop.phase.releases := by
  have inv := ledger_run run
  have alone : s.Alone := by
    have init : (initial clock).Alone := by constructor <;> simp [initial, underWay]
    exact run.invariant Alone init fun _ _ _ alone h good => alone.step (stepped h) good
  have howner : i ∈ s.owners := by
    refine (inv.owned i).2 ⟨call, hi, ?_⟩
    unfold Starting.isStarted
    rw [started]
  have hnodup := inv.nodup
  unfold owners at howner hnodup
  rw [alone.kept, List.append_nil] at howner hnodup
  obtain ⟨-, -, hdisjoint⟩ := List.nodup_append.1 hnodup
  rcases List.mem_append.1 howner with hrunning | hstopped
  · refine .inl ⟨by simpa using hrunning, fun stop hstop htook => ?_, ?_⟩
    · exact hdisjoint i hrunning stop.took (List.mem_map_of_mem hstop) htook.symm
    · exact inv.resting i (List.mem_append_left _ hrunning)
  · obtain ⟨stop, hstop, rfl⟩ := List.mem_map.1 hstopped
    refine .inr ⟨fun h => ?_, stop, hstop, rfl, (inv.stops stop hstop).1⟩
    exact hdisjoint stop.took (by simp [h]) _ (List.mem_map_of_mem hstop) rfl

theorem no_wiring_lost_restarted :
    ∃ s, exec (step fileConfig) startsAlone (initial 0) restarted = some s ∧
      (s.starts[1]?.map Starting.isStarted) = some true ∧ s.running ≠ some 1 ∧
      ∃ stop ∈ s.stops, stop.took = 1 ∧ s.releasedOf 1 = stop.phase.releases := by
  have h : (exec (step fileConfig) startsAlone (initial 0) restarted).map
      (fun s => (s.starts[1]?.map Starting.isStarted, s.running)) = some (some true, none) := by
    decide
  obtain ⟨s, run, hs⟩ := Option.map_eq_some_iff.1 h
  obtain ⟨hstarted, hrunning⟩ := Prod.mk.inj hs
  obtain ⟨call, hi, hcall⟩ := Option.map_eq_some_iff.1 hstarted
  have hphase : call.phase = .started := by
    unfold Starting.isStarted at hcall
    split at hcall
    · assumption
    · cases hcall
  rcases no_wiring_lost (runs_of_exec run) hi hphase with ⟨h, -⟩ | ⟨hne, stop⟩
  · rw [hrunning] at h
    cases h
  · exact ⟨s, run, hstarted, hne, stop⟩

end Process

end Provisioning
