import Provisioning.Config.Registrar

/-!
# What a resolved `ensure` says about the registry

The registry and the registrar agree about an application as long as the latest `register` call did not
throw. A call that throws leaves the application disposed of, or recorded from the rejected document,
while `registered` keeps the version of the older one.
-/

namespace Provisioning

open Lib

variable {Runtime Scheduling : Type}

/-! ## What a document asks for -/

namespace Documents

variable (docs : Documents) (v : Validators Runtime Scheduling) (id version : String)

def halves : SplitRuntime := splitRuntimeBlock (docs.config id version).runtime

/-- The definition that the execution half of the document describes. -/
def Defines (d : ConnectorDefinition Runtime) : Prop :=
  v.resolveRuntimeConfig (docs.halves id version).execution = .ok d.runtime ∧
    d.id = id ∧ d.type = (docs.config id version).connectorType ∧
    d.version = (docs.config id version).connectorVersion ∧ d.rawConfig = (docs.config id version).connectorConfig

/-- The application that the document describes, when both halves are valid. -/
def Describes (app : RegisteredApplication Scheduling) : Prop :=
  app.applicationId = id ∧ app.version = version ∧ app.schedulingInput = (docs.halves id version).scheduling ∧
    ∃ runtime, v.resolveRuntimeConfig (docs.halves id version).execution = .ok runtime ∧
      v.resolveSchedulingConfig (docs.halves id version).scheduling (v.mutationConcurrency runtime) =
        .ok app.scheduling

end Documents

theorem register_cases (docs : Documents) (v : Validators Runtime Scheduling) (registry : ConnectorRegistry Runtime)
    (id version : String) :
    (∃ e, register v registry (docs.config id version) version = (registry, .error e)) ∨
    registry.definitions id = none ∧ ∃ d, docs.Defines v id version d ∧
      ((∃ e, register v registry (docs.config id version) version =
          ({ registry with definitions := Function.update registry.definitions id (some d) }, .error e) ∧
          ∀ app, ¬ docs.Describes v id version app) ∨
        ∃ app, register v registry (docs.config id version) version =
          ({ registry with definitions := Function.update registry.definitions id (some d) }, .ok app) ∧
          docs.Describes v id version app) := by
  unfold register
  simp only [docs.own]
  split
  · exact .inl ⟨_, rfl⟩
  · rename_i registry' hreg
    obtain ⟨free, runtime, hruntime, rfl⟩ := ConnectorRegistry.registerInstance_ok hreg
    refine .inr ⟨free, ⟨id, _, _, _, runtime⟩, ⟨hruntime, rfl, rfl, rfl, rfl⟩, ?_⟩
    simp only [ConnectorRegistry.getDefinition, Function.update_self]
    split
    · rename_i e hsched
      refine .inl ⟨_, rfl, ?_⟩
      rintro app ⟨-, -, -, runtime', hruntime', hsched'⟩
      cases hruntime.symm.trans hruntime'
      cases hsched.symm.trans hsched'
    · rename_i scheduling hsched
      exact .inr ⟨_, rfl, rfl, rfl, rfl, runtime, hruntime, hsched⟩

namespace ApplicationRegistrar

variable (docs : Documents) (v : Validators Runtime Scheduling) (s : ApplicationRegistrar Runtime Scheduling)
  (id version : String)

/-- The version that the latest recorded definition was registered from. -/
def builtFrom : Option String := ((s.registrations id).find? (·.recorded)).map (·.version)

/-- A live registration that is current for this version of the document. -/
def LiveAndCurrent : Prop :=
  (∃ d, s.registry.getDefinition id = some d ∧ docs.Defines v id version d) ∧ s.builtFrom id = some version ∧
    s.schedulingOf id = some (docs.halves id version).scheduling

/-- The latest `register` call was for this version and did not throw. -/
def LastRegistered : Prop := (s.registrations id).head?.map (fun r => (r.version, r.threw)) = some (version, false)

def phaseOf : Option (Phase Scheduling) := (s.inFlight id).map (·.phase)

/-- A resolution has disposed of the definition and is to register another one. -/
def Replacing : Prop := ∃ version built, s.phaseOf id = some (.disposing version built)

/-! ## The invariant -/

/-- What holds of one application. -/
structure Coherent (id : String) : Prop where
  recorded : ∀ d, s.registry.definitions id = some d → ∃ r rest, s.registrations id = r :: rest ∧ r.recorded ∧
    docs.Defines v id r.version d
  rejected : ∀ r rest, s.registrations id = r :: rest → r.recorded → r.threw →
    ∀ app, ¬ docs.Describes v id r.version app
  succeeded : ∀ r rest, s.registrations id = r :: rest → r.threw = false →
    r.recorded ∧ (∃ app, s.registered id = some app ∧ app.version = r.version) ∧
      (s.registry.definitions id = none → s.Replacing id)
  registered : ∀ app, s.registered id = some app → docs.Describes v id app.version app
  replacing : s.Replacing id → s.registry.definitions id = none
  settled : ∀ app, s.phaseOf id = some (.settled (.ok app)) → docs.Describes v id app.version app
  settling : ∀ a ∈ s.settling, a.applicationId = id → ∀ app, a.result = .ok app →
    docs.Describes v id app.version app

variable {docs v s id version}

theorem coherent_initial : (initial : ApplicationRegistrar Runtime Scheduling).Coherent docs v id := by
  constructor <;> simp [initial, ConnectorRegistry.empty, Replacing, phaseOf]

/-! ## Steps -/

@[simp] theorem phaseOf_setPhase (calls : List Nat) (phase : Phase Scheduling) :
    (s.setPhase id calls phase).phaseOf id = some phase := by
  simp [phaseOf, setPhase]

theorem phaseOf_of_inFlight {calls : List Nat} {phase : Phase Scheduling} (h : s.inFlight id = some ⟨calls, phase⟩) :
    s.phaseOf id = some phase := by
  simp [phaseOf, h]

theorem Coherent.frame {s' : ApplicationRegistrar Runtime Scheduling} (h : s.Coherent docs v id)
    (definitions : s'.registry.definitions id = s.registry.definitions id)
    (registered : s'.registered id = s.registered id) (registrations : s'.registrations id = s.registrations id)
    (replacing : s'.Replacing id ↔ s.Replacing id)
    (settled : ∀ app, s'.phaseOf id = some (.settled (.ok app)) → docs.Describes v id app.version app)
    (settling : ∀ a ∈ s'.settling, a.applicationId = id → ∀ app, a.result = .ok app →
      docs.Describes v id app.version app) : s'.Coherent docs v id where
  recorded := by rw [definitions, registrations]; exact h.recorded
  rejected := by rw [registrations]; exact h.rejected
  succeeded := by rw [definitions, registered, registrations, replacing]; exact h.succeeded
  registered := by rw [registered]; exact h.registered
  replacing := by rw [definitions, replacing]; exact h.replacing
  settled := settled
  settling := settling

theorem Coherent.elsewhere {s' : ApplicationRegistrar Runtime Scheduling} (h : s.Coherent docs v id)
    (definitions : s'.registry.definitions id = s.registry.definitions id)
    (registered : s'.registered id = s.registered id) (registrations : s'.registrations id = s.registrations id)
    (inFlight : s'.inFlight id = s.inFlight id)
    (settling : ∀ a ∈ s'.settling, a.applicationId = id → a ∈ s.settling) : s'.Coherent docs v id := by
  have hphase : s'.phaseOf id = s.phaseOf id := by rw [phaseOf, inFlight, phaseOf]
  refine h.frame definitions registered registrations (by rw [Replacing, hphase, Replacing]) ?_ ?_
  · intro app happ
    exact h.settled app (hphase ▸ happ)
  · intro a ha hid
    exact h.settling a (settling a ha hid) hid

theorem Coherent.setPhase (h : s.Coherent docs v id) {id' : String} {calls : List Nat} {phase : Phase Scheduling}
    (calm : ¬ s.Replacing id') (next : ∀ version built, phase ≠ .disposing version built)
    (settled : ∀ app, phase = .settled (.ok app) → docs.Describes v id' app.version app) :
    (s.setPhase id' calls phase).Coherent docs v id := by
  by_cases hid : id = id'
  · subst hid
    refine h.frame rfl rfl rfl ?_ ?_ h.settling
    · simp only [Replacing, phaseOf_setPhase, Option.some.injEq]
      exact ⟨fun ⟨version, built, he⟩ => absurd he (next version built), fun hr => absurd hr calm⟩
    · simpa using settled
  · exact h.elsewhere rfl rfl rfl (Function.update_of_ne hid ..) fun a ha _ => ha

theorem Coherent.ensure (h : s.Coherent docs v id) (call : Nat) (id' : String) :
    (s.ensure call id').Coherent docs v id := by
  unfold ApplicationRegistrar.ensure
  split
  · rename_i pending hp
    by_cases hid : id = id'
    · subst hid
      have hphase : (s.setPhase id (pending.calls ++ [call]) pending.phase).phaseOf id = s.phaseOf id := by
        rw [phaseOf_setPhase, phaseOf, hp, Option.map_some]
      refine h.frame rfl rfl rfl (by rw [Replacing, hphase, Replacing]) ?_ h.settling
      intro app happ
      exact h.settled app (hphase ▸ happ)
    · exact h.elsewhere rfl rfl rfl (Function.update_of_ne hid ..) fun a ha _ => ha
  · rename_i hp
    have calm : ¬ s.Replacing id' := by simp [Replacing, phaseOf, hp]
    exact h.setPhase calm (fun _ _ => by simp) (fun _ => by simp)

theorem Coherent.conclude_of_ne (h : s.Coherent docs v id) {id' : String} (hid : id ≠ id') (calls : List Nat)
    (version : String) : (s.conclude docs v id' calls version).Coherent docs v id := by
  refine h.elsewhere ?_ ?_ (Function.update_of_ne hid ..) (Function.update_of_ne hid ..) fun a ha _ => ha
  all_goals
    rcases register_cases docs v s.registry id' version with ⟨e, he⟩ | ⟨-, d, -, ⟨e, he, -⟩ | ⟨app, he, -⟩⟩ <;>
      simp [ApplicationRegistrar.conclude, he, Function.update_of_ne hid]

theorem Coherent.conclude (h : s.Coherent docs v id) {id' : String} (free : s.registry.definitions id' = none)
    (calls : List Nat) (version : String) : (s.conclude docs v id' calls version).Coherent docs v id := by
  by_cases hid : id = id'
  · subst hid
    have calm : ¬ (s.conclude docs v id calls version).Replacing id := by
      simp [ApplicationRegistrar.conclude, Replacing, phaseOf]
    have settling : (s.conclude docs v id calls version).settling = s.settling := rfl
    rcases register_cases docs v s.registry id version with ⟨e, he⟩ | ⟨-, d, hd, ⟨e, he, hbad⟩ | ⟨app, he, happ⟩⟩
    · refine ⟨?_, ?_, ?_, ?_, fun hr => absurd hr calm, ?_, settling ▸ h.settling⟩ <;>
        simp [ApplicationRegistrar.conclude, he, ConnectorRegistry.getDefinition, free, threw, phaseOf]
      exact h.registered
    · refine ⟨?_, ?_, ?_, ?_, fun hr => absurd hr calm, ?_, settling ▸ h.settling⟩ <;>
        simp [ApplicationRegistrar.conclude, he, ConnectorRegistry.getDefinition, free, threw, phaseOf]
      · exact hd
      · exact hbad
      · exact h.registered
    · refine ⟨?_, ?_, ?_, ?_, fun hr => absurd hr calm, ?_, settling ▸ h.settling⟩ <;>
        simp [ApplicationRegistrar.conclude, he, ConnectorRegistry.getDefinition, free, threw, phaseOf]
      · exact hd
      · exact happ.2.1
      · exact happ.2.1.symm ▸ happ
      · exact happ.2.1.symm ▸ happ
  · exact h.conclude_of_ne hid calls version

theorem Coherent.dispose (h : s.Coherent docs v id) {id' : String} (calls : List Nat) (version : String) :
    (s.dispose id' calls version).Coherent docs v id := by
  by_cases hid : id = id'
  · subst hid
    have replacing : (s.dispose id calls version).Replacing id := by
      simp [ApplicationRegistrar.dispose, Replacing, phaseOf]
    have gone : (s.dispose id calls version).registry.definitions id = none := by
      simp [ApplicationRegistrar.dispose, ConnectorRegistry.disposeDefinition]
    refine ⟨by simp [gone], h.rejected, ?_, h.registered, fun _ => gone, ?_, h.settling⟩
    · intro r rest hregs hthrew
      obtain ⟨hrec, happ, -⟩ := h.succeeded r rest hregs hthrew
      exact ⟨hrec, happ, fun _ => replacing⟩
    · simp [ApplicationRegistrar.dispose, phaseOf]
  · exact h.elsewhere (Function.update_of_ne hid ..) rfl rfl (Function.update_of_ne hid ..) fun a ha _ => ha

theorem Coherent.clear (h : s.Coherent docs v id) {id' : String} {calls : List Nat}
    {result : Except String (RegisteredApplication Scheduling)} (hf : s.inFlight id' = some ⟨calls, .settled result⟩) :
    (s.clear id' calls result).Coherent docs v id := by
  by_cases hid : id = id'
  · subst hid
    have hphase := phaseOf_of_inFlight hf
    have cleared : (s.clear id calls result).phaseOf id = none := by simp [ApplicationRegistrar.clear, phaseOf]
    refine h.frame rfl rfl rfl (by simp [Replacing, hphase, cleared]) (by simp [cleared]) ?_
    intro a ha haid app happ
    rcases List.mem_append.1 ha with ha | ha
    · exact h.settling a ha haid app happ
    · obtain ⟨call, -, rfl⟩ := List.mem_map.1 ha
      exact h.settled app (happ ▸ hphase)
  · refine h.elsewhere rfl rfl rfl (Function.update_of_ne hid ..) fun a ha haid => ?_
    rcases List.mem_append.1 ha with ha | ha
    · exact ha
    · obtain ⟨call, -, rfl⟩ := List.mem_map.1 ha
      exact absurd haid.symm hid

theorem Coherent.resume (h : s.Coherent docs v id) {id' : String} (calls : List Nat)
    (entry : Except String (Option String)) (reading : s.phaseOf id' = some .reading)
    (current : ∀ app, s.registered id' = some app → docs.Describes v id' app.version app) :
    (s.resume docs v id' calls entry).Coherent docs v id := by
  have calm : ¬ s.Replacing id' := by simp [Replacing, reading]
  unfold ApplicationRegistrar.resume
  split
  · exact h.setPhase calm (by simp) (by simp)
  · exact h.setPhase calm (by simp) (by simp)
  · split
    · rename_i app happ
      refine h.setPhase calm (by simp) fun app' he => ?_
      cases he
      exact current app (Option.filter_eq_some_iff.1 happ).1
    · split
      · exact h.setPhase calm (by simp) (by simp)
      · rename_i hnone
        exact h.conclude hnone calls _

theorem coherent_step {drainTimeoutMs : Nat} {s' : ApplicationRegistrar Runtime Scheduling} {a : Action}
    (h : ∀ id, s.Coherent docs v id) (hstep : Stepped docs v drainTimeoutMs s a s') (id : String) :
    s'.Coherent docs v id := by
  cases hstep with
  | ensured => exact (h id).ensure ..
  | read hf => exact (h id).resume _ _ (phaseOf_of_inFlight hf) (h _).registered
  | drained hf => exact (h id).dispose ..
  | drainExpired hf held =>
    refine (h id).setPhase ?_ (by simp) (by simp)
    simp [Replacing, phaseOf_of_inFlight hf]
  | @disposed id' calls version built registry hf same =>
    have gone := (h id').replacing ⟨version, built, phaseOf_of_inFlight hf⟩
    have hreg : ({ s with registry := registry } : ApplicationRegistrar Runtime Scheduling).Coherent docs v id :=
      (h id).elsewhere (congrFun same id) rfl rfl rfl fun a ha _ => ha
    exact hreg.conclude ((congrFun same id').trans gone) calls version
  | cleared hf => exact (h id).clear hf
  | answered hs => exact (h id).elsewhere rfl rfl rfl rfl fun a ha _ => List.mem_of_mem_eraseIdx ha
  | startedBuild hb =>
    exact (h id).elsewhere (congrFun (ConnectorRegistry.startBuild_definitions hb) id) rfl rfl rfl fun a ha _ => ha
  | endedBuild hb =>
    exact (h id).elsewhere (congrFun (ConnectorRegistry.endBuild_definitions hb) id) rfl rfl rfl fun a ha _ => ha

theorem coherent_run {drainTimeoutMs : Nat} (run : Runs (step docs v drainTimeoutMs) anyStep initial s) (id : String) :
    s.Coherent docs v id :=
  run.invariant (fun s => ∀ id, s.Coherent docs v id) (fun _ => coherent_initial)
    (fun _ _ _ h hstep _ => coherent_step h (stepped hstep)) id

/-! ## The registry and the registrar -/

theorem Coherent.lastRegistered (h : s.Coherent docs v id) (live : s.LiveAndCurrent docs v id version)
    {app : RegisteredApplication Scheduling} (valid : docs.Describes v id version app) :
    s.LastRegistered id version ∧ ¬ s.Replacing id := by
  obtain ⟨⟨d, hd, -⟩, hfrom, -⟩ := live
  obtain ⟨r, rest, hregs, hrec, -⟩ := h.recorded d hd
  have hversion : r.version = version := by simpa [builtFrom, hregs, hrec] using hfrom
  have hthrew : r.threw = false := by
    by_contra hthrew
    exact h.rejected r rest hregs hrec (by simpa using hthrew) app (hversion ▸ valid)
  refine ⟨by simp [LastRegistered, hregs, hversion, hthrew], fun hreplacing => ?_⟩
  cases (h.replacing hreplacing).symm.trans hd

theorem Coherent.liveAndCurrent (h : s.Coherent docs v id) (last : s.LastRegistered id version)
    (calm : ¬ s.Replacing id) : s.LiveAndCurrent docs v id version := by
  simp only [LastRegistered, Option.map_eq_some_iff, Prod.mk.injEq, List.head?_eq_some_iff] at last
  obtain ⟨r, ⟨rest, hregs⟩, rfl, hthrew⟩ := last
  obtain ⟨hrec, ⟨app, happ, hversion⟩, hgone⟩ := h.succeeded r rest hregs hthrew
  obtain ⟨d, hd⟩ := Option.ne_none_iff_exists'.1 fun hnone => calm (hgone hnone)
  obtain ⟨r', rest', hregs', -, hdef⟩ := h.recorded d hd
  cases hregs.symm.trans hregs'
  refine ⟨⟨d, hd, hdef⟩, by simp [builtFrom, hregs, hrec], ?_⟩
  obtain ⟨-, -, hinput, -⟩ := h.registered app happ
  simp [schedulingOf, happ, hinput, hversion]

theorem answered_ensure (call : Nat) (id : String) : (s.ensure call id).answered = s.answered := by
  unfold ensure
  split <;> rfl

theorem answered_resume (calls : List Nat) (entry : Except String (Option String)) :
    (s.resume docs v id calls entry).answered = s.answered := by
  unfold resume
  split
  · rfl
  · rfl
  · split
    · rfl
    · split <;> rfl

theorem Stepped.answers {drainTimeoutMs : Nat} {s' : ApplicationRegistrar Runtime Scheduling} {a : Action}
    (hstep : Stepped docs v drainTimeoutMs s a s') {b : Answer Scheduling} (h : s'.answered = s.answered ++ [b]) :
    b ∈ s.settling ∧ ∃ settling, s' = { s with settling := settling, answered := s.answered ++ [b] } := by
  have grew : s'.answered ≠ s.answered := by simp [h]
  cases hstep with
  | ensured => exact absurd (answered_ensure ..) grew
  | read hf => exact absurd (answered_resume ..) grew
  | drained hf => exact absurd rfl grew
  | drainExpired hf held => exact absurd rfl grew
  | disposed hf same => exact absurd rfl grew
  | cleared hf => exact absurd rfl grew
  | @answered i b' hb =>
    obtain rfl : b' = b := by simpa using h
    exact ⟨List.mem_of_getElem? hb, _, rfl⟩
  | startedBuild hb => exact absurd rfl grew
  | endedBuild hb => exact absurd rfl grew

/-- **A resolved `ensure` and its instance.** -/
theorem ensure_resolved_live_iff {drainTimeoutMs : Nat}
    (run : Runs (step docs v drainTimeoutMs) anyStep initial s) {a : Action}
    {s' : ApplicationRegistrar Runtime Scheduling} (h : s.step docs v drainTimeoutMs a = some s')
    {call : Nat} {app : RegisteredApplication Scheduling}
    (resolved : s'.answered = s.answered ++ [⟨call, id, .ok app⟩]) :
    s'.LiveAndCurrent docs v id app.version ↔ s.LastRegistered id app.version ∧ ¬ s.Replacing id := by
  have coherent := coherent_run run id
  obtain ⟨hmem, settling, rfl⟩ := (stepped h).answers resolved
  have valid : docs.Describes v id app.version app := coherent.settling _ hmem rfl app rfl
  constructor
  · intro live
    exact coherent.lastRegistered live valid
  · rintro ⟨last, calm⟩
    exact coherent.liveAndCurrent last calm

/-! The first version is valid, the second asks for an unlimited deadline. -/

def unlimitedDeadline : String :=
  "runtime.attemptDeadlineMs must be between 1 and 120000 ms, got -1. Unlimited (-1) is rejected deliberately: " ++
    "a hung target would hold its lane slot until the process restarts. " ++
    "Set an explicit deadline up to the 120000 ms ceiling."

/-- The mutation budget is 10 and no slot is reserved. -/
def sampleValidators : Validators Nat Nat where
  resolveRuntimeConfig fields :=
    match (Json.obj fields).field "attemptDeadlineMs" with
    | some (.num "-1") => .error unlimitedDeadline
    | _ => .ok 10
  mutationConcurrency runtime := runtime
  resolveSchedulingConfig _ _ := .ok 0

def sampleDocuments : Documents where
  config id version :=
    ⟨id, "fake", "1.0.0", [],
      if version = "v2" then some [("attemptDeadlineMs", .num "-1")] else some [("interactiveSliceFraction", .num "0")]⟩
  own _ _ := rfl

def ensured (call : Nat) (version : String) (awaits : List Action) : List Action :=
  [.ensure call "app-1", .configRead "app-1" (.ok (some version))] ++ awaits ++ [.cleared "app-1"]

/-- An edit that is rejected, and then reverted. -/
def revertedEdit : List Action :=
  ensured 0 "v1" [] ++ [.answer 0] ++ ensured 1 "v2" [.drained "app-1", .disposed "app-1"] ++ [.answer 0] ++
    ensured 2 "v1" []

theorem ensure_resolved_without_instance :
    ∃ s s' app, Runs (step sampleDocuments sampleValidators 30000) anyStep initial s ∧
      s.step sampleDocuments sampleValidators 30000 (.answer 0) = some s' ∧
      s'.answered = s.answered ++ [⟨2, "app-1", .ok app⟩] ∧ app.version = "v1" ∧
      ¬ s'.LiveAndCurrent sampleDocuments sampleValidators "app-1" app.version := by
  have h : exec (step sampleDocuments sampleValidators 30000) anyStep initial revertedEdit = some _ := rfl
  refine ⟨_, _, _, runs_of_exec h, rfl, rfl, rfl, ?_⟩
  rintro ⟨⟨d, hd, -⟩, -⟩
  cases hd

/-- An edit that is valid. -/
def acceptedEdit : List Action :=
  ensured 0 "v1" [] ++ [.answer 0] ++ ensured 1 "v3" [.drained "app-1", .disposed "app-1"]

theorem ensure_resolved_live_edited :
    ∃ s s' app, Runs (step sampleDocuments sampleValidators 30000) anyStep initial s ∧
      s.step sampleDocuments sampleValidators 30000 (.answer 0) = some s' ∧
      s'.answered = s.answered ++ [⟨1, "app-1", .ok app⟩] ∧
      s'.LiveAndCurrent sampleDocuments sampleValidators "app-1" app.version := by
  have h : ∃ s s' app, exec (step sampleDocuments sampleValidators 30000) anyStep initial acceptedEdit = some s ∧
      s.step sampleDocuments sampleValidators 30000 (.answer 0) = some s' ∧
      s'.answered = s.answered ++ [⟨1, "app-1", .ok app⟩] ∧ s.LastRegistered "app-1" app.version ∧
      s.phaseOf "app-1" = none :=
    ⟨_, _, _, rfl, rfl, rfl, rfl, rfl⟩
  obtain ⟨s, s', app, hs, hstep, resolved, last, hphase⟩ := h
  refine ⟨s, s', app, runs_of_exec hs, hstep, resolved, ?_⟩
  exact (ensure_resolved_live_iff (runs_of_exec hs) hstep resolved).2 ⟨last, by simp [Replacing, hphase]⟩

end ApplicationRegistrar

end Provisioning
