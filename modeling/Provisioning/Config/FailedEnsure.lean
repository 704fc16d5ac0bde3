import Provisioning.Config.LiveRegistration

/-!
# What a failed `ensure` leaves

A resolution that fails before it disposes of the definition changes nothing. One that fails later has
lost the old definition, and when only the scheduling half is rejected it has recorded the new one.
-/

namespace Provisioning

open Lib

variable {Runtime Scheduling : Type}

/-! ## The end of `register` -/

namespace Documents

variable (docs : Documents) (v : Validators Runtime Scheduling) (registry : ConnectorRegistry Runtime)
  (id version : String)

/-- Core rejects the execution half of the document. -/
def Refused : Prop :=
  ∃ e, registry.registerInstance v id (docs.config id version).connectorType (docs.config id version).connectorVersion
    (docs.config id version).connectorConfig (docs.halves id version).execution = .error e

variable {docs v registry id version}

theorem Defines.unique {d d' : ConnectorDefinition Runtime} (h : docs.Defines v id version d)
    (h' : docs.Defines v id version d') : d = d' := by
  obtain ⟨hruntime, hid, htype, hversion, hraw⟩ := h
  obtain ⟨hruntime', hid', htype', hversion', hraw'⟩ := h'
  have hsame : d.runtime = d'.runtime := Except.ok.inj (hruntime.symm.trans hruntime')
  cases d
  cases d'
  simp_all

end Documents

/-- A rejection of the execution half leaves the registry, one of the scheduling half has recorded the new
definition. -/
theorem register_rejected {docs : Documents} {v : Validators Runtime Scheduling}
    {registry registry' : ConnectorRegistry Runtime} {id version e : String}
    (h : register v registry (docs.config id version) version = (registry', .error e)) :
    docs.Refused v registry id version ∧ registry' = registry ∨
      ¬ docs.Refused v registry id version ∧ ∃ d, docs.Defines v id version d ∧ registry'.definitions id = some d := by
  unfold register at h
  simp only [docs.own] at h
  unfold Documents.Refused
  split at h
  · rename_i e' hreg
    obtain ⟨rfl, -⟩ := Prod.mk.inj h
    exact .inl ⟨⟨e', hreg⟩, rfl⟩
  · rename_i registered hreg
    obtain ⟨-, runtime, hruntime, rfl⟩ := ConnectorRegistry.registerInstance_ok hreg
    have hok : ¬ ∃ e, registry.registerInstance v id (docs.config id version).connectorType
        (docs.config id version).connectorVersion (docs.config id version).connectorConfig
        (docs.halves id version).execution = .error e := by
      rintro ⟨e', he'⟩
      cases hreg.symm.trans he'
    refine .inr ⟨hok, ⟨id, _, _, _, runtime⟩, ⟨hruntime, rfl, rfl, rfl, rfl⟩, ?_⟩
    simp only [ConnectorRegistry.getDefinition, Function.update_self] at h
    split at h
    · obtain ⟨rfl, -⟩ := Prod.mk.inj h
      simp
    · cases (Prod.mk.inj h).2

/-! ## What the calls saw -/

/-- `getDefinition(id)` and `schedulingOf(id)` at a call of `ensure(id)`. -/
structure Seen (Runtime : Type) where
  call : Nat
  definition : Option (ConnectorDefinition Runtime)
  scheduling : Option Fields

/-- A registrar, with what the calls saw that share the resolution of an application. -/
structure WatchedRegistrar (Runtime Scheduling : Type) where
  registrar : ApplicationRegistrar Runtime Scheduling
  saw : String → List (Seen Runtime)

namespace ApplicationRegistrar

variable (s : ApplicationRegistrar Runtime Scheduling)

def seenBy (call : Nat) (id : String) : Seen Runtime := ⟨call, s.registry.getDefinition id, s.schedulingOf id⟩

/-- The application is as the call saw it. -/
def Kept (id : String) (b : Seen Runtime) : Prop :=
  s.registry.getDefinition id = b.definition ∧ s.schedulingOf id = b.scheduling

/-- The version that a step calls `register` with, and the registry that `register` finds. -/
def registering (id : String) : Action → Option (String × ConnectorRegistry Runtime)
  | .configRead id' (.ok entry) => if id' = id then entry.map fun version => (version, s.registry) else none
  | .disposed id' =>
    match s.phaseOf id with
    | some (.disposing version built) =>
      if id' = id then some (version, if built then s.registry.disposeBuilt id else s.registry) else none
    | _ => none
  | _ => none

/-- The step does not come to `register`; or there was no definition, and core rejects the execution half; or the
definition was the one that the new document describes, and core accepts it. -/
def Harmless (docs : Documents) (v : Validators Runtime Scheduling) (id : String) (a : Action) (b : Seen Runtime) :
    Prop :=
  ∀ version registry, s.registering id a = some (version, registry) →
    b.definition = none ∧ docs.Refused v registry id version ∨
      (∃ d, b.definition = some d ∧ docs.Defines v id version d) ∧ ¬ docs.Refused v registry id version

/-! ## Steps of other applications -/

/-- The application of the resolution that a step moves. -/
def Action.about : Action → Option String
  | .ensure _ id | .configRead id _ | .drained id | .drainExpired id _ | .disposed id | .cleared id => some id
  | .answer _ | .startBuild _ | .endBuild .. => none

structure SameAt (s s' : ApplicationRegistrar Runtime Scheduling) (id : String) : Prop where
  phase : s'.phaseOf id = s.phaseOf id
  definitions : s'.registry.definitions id = s.registry.definitions id
  registered : s'.registered id = s.registered id

variable {s} {s' : ApplicationRegistrar Runtime Scheduling} {docs : Documents} {v : Validators Runtime Scheduling}
  {drainTimeoutMs : Nat} {id id' : String}

theorem sameAt_setPhase (hid : id' ≠ id) (calls : List Nat) (phase : Phase Scheduling) :
    s.SameAt (s.setPhase id' calls phase) id :=
  ⟨by simp [phaseOf, setPhase, Function.update_of_ne hid.symm], rfl, rfl⟩

theorem sameAt_conclude (hid : id' ≠ id) (calls : List Nat) (version : String) :
    s.SameAt (s.conclude docs v id' calls version) id := by
  rcases register_cases docs v s.registry id' version with ⟨e, he⟩ | ⟨-, d, -, ⟨e, he, -⟩ | ⟨app, he, -⟩⟩ <;>
    constructor <;> simp [conclude, he, phaseOf, Function.update_of_ne hid.symm]

theorem sameAt_resume (hid : id' ≠ id) (calls : List Nat) (entry : Except String (Option String)) :
    s.SameAt (s.resume docs v id' calls entry) id := by
  unfold resume
  split
  · exact sameAt_setPhase hid ..
  · exact sameAt_setPhase hid ..
  · split
    · exact sameAt_setPhase hid ..
    · split
      · exact sameAt_setPhase hid ..
      · exact sameAt_conclude hid ..

theorem Stepped.sameAt {a : Action} (h : Stepped docs v drainTimeoutMs s a s') (hid : a.about ≠ some id) :
    s.SameAt s' id := by
  cases h with
  | ensured =>
    unfold ensure
    split <;> exact sameAt_setPhase (fun heq => hid (congrArg some heq)) ..
  | read => exact sameAt_resume (fun heq => hid (congrArg some heq)) ..
  | drained =>
    have hne := fun heq => hid (congrArg some heq)
    exact ⟨by simp [dispose, phaseOf, Function.update_of_ne (Ne.symm hne)], Function.update_of_ne (Ne.symm hne) .., rfl⟩
  | drainExpired => exact sameAt_setPhase (fun heq => hid (congrArg some heq)) ..
  | @disposed id' calls version built registry hf same =>
    have hne : id' ≠ id := fun heq => hid (congrArg some heq)
    have hsame : SameAt { s with registry := registry }
      (conclude docs v { s with registry := registry } id' calls version) id := sameAt_conclude hne calls version
    exact ⟨hsame.phase, hsame.definitions.trans (congrFun same id), hsame.registered⟩
  | cleared =>
    have hne := fun heq => hid (congrArg some heq)
    exact ⟨by simp [clear, phaseOf, Function.update_of_ne (Ne.symm hne)], rfl, rfl⟩
  | answered => exact ⟨rfl, rfl, rfl⟩
  | startedBuild hb => exact ⟨rfl, congrFun (ConnectorRegistry.startBuild_definitions hb) id, rfl⟩
  | endedBuild hb => exact ⟨rfl, congrFun (ConnectorRegistry.endBuild_definitions hb) id, rfl⟩

end ApplicationRegistrar

namespace WatchedRegistrar

open ApplicationRegistrar (Action Stepped)

variable (docs : Documents) (v : Validators Runtime Scheduling) (drainTimeoutMs : Nat)
  (w : WatchedRegistrar Runtime Scheduling)

def initial : WatchedRegistrar Runtime Scheduling := ⟨.initial, fun _ => []⟩

/-- A call that starts a resolution is the first to share it. -/
def watch : Action → String → List (Seen Runtime)
  | .ensure call id =>
    Function.update w.saw id
      ((if (w.registrar.inFlight id).isSome then w.saw id else []) ++ [w.registrar.seenBy call id])
  | _ => w.saw

def step (a : Action) : Option (WatchedRegistrar Runtime Scheduling) :=
  (w.registrar.step docs v drainTimeoutMs a).map fun registrar => ⟨registrar, w.watch a⟩

/-- No resolution of the application has come to an end, or none is in flight. -/
def Unsettled (id : String) : Prop := ∃ phase, w.registrar.phaseOf id = some phase ∧ ∀ result, phase ≠ .settled result

/-- The resolution has not disposed of the definition. -/
def Untouched (id : String) : Prop :=
  w.registrar.phaseOf id = some .reading ∨ ∃ version, w.registrar.phaseOf id = some (.draining version)

structure Faithful (id : String) : Prop where
  scheduling : w.Unsettled id → ∀ b ∈ w.saw id, w.registrar.schedulingOf id = b.scheduling
  definition : w.Untouched id → ∀ b ∈ w.saw id, w.registrar.registry.definitions id = b.definition

variable {docs v drainTimeoutMs w} {id : String}

theorem Untouched.unsettled (h : w.Untouched id) : w.Unsettled id := by
  rcases h with h | ⟨version, h⟩
  · exact ⟨_, h, by simp⟩
  · exact ⟨_, h, by simp⟩

theorem Faithful.frame {w' : WatchedRegistrar Runtime Scheduling} (h : w.Faithful id)
    (same : w.registrar.SameAt w'.registrar id) (saw : w'.saw id = w.saw id) : w'.Faithful id where
  scheduling hopen b hb := by
    unfold Unsettled at hopen
    rw [same.phase] at hopen
    unfold ApplicationRegistrar.schedulingOf
    rw [same.registered]
    exact h.scheduling hopen b (saw ▸ hb)
  definition hopen b hb := by
    unfold Untouched at hopen
    rw [same.phase] at hopen
    rw [same.definitions]
    exact h.definition hopen b (saw ▸ hb)

theorem faithful_of_settled (h : ¬ w.Unsettled id) : w.Faithful id where
  scheduling hopen := absurd hopen h
  definition hopen := absurd hopen.unsettled h

theorem Faithful.ensured (h : w.Faithful id) (call : Nat) :
    Faithful ⟨w.registrar.ensure call id, w.watch (.ensure call id)⟩ id := by
  have hsaw : w.watch (.ensure call id) id =
      (if (w.registrar.inFlight id).isSome then w.saw id else []) ++ [w.registrar.seenBy call id] :=
    Function.update_self ..
  have hsame : (w.registrar.ensure call id).registry = w.registrar.registry ∧
      (w.registrar.ensure call id).registered = w.registrar.registered := by
    unfold ApplicationRegistrar.ensure
    split <;> exact ⟨rfl, rfl⟩
  have hphase : (w.registrar.inFlight id).isSome →
      (w.registrar.ensure call id).phaseOf id = w.registrar.phaseOf id := by
    intro hsome
    obtain ⟨pending, hp⟩ := Option.isSome_iff_exists.1 hsome
    simp [ApplicationRegistrar.ensure, hp, ApplicationRegistrar.phaseOf, ApplicationRegistrar.setPhase]
  constructor
  · intro hopen b hb
    simp only [hsaw] at hb
    unfold ApplicationRegistrar.schedulingOf
    simp only [hsame.2]
    rcases List.mem_append.1 hb with hb | hb
    · split at hb
      · rename_i hsome
        unfold Unsettled at hopen
        simp only [hphase hsome] at hopen
        exact h.scheduling hopen b hb
      · cases hb
    · rw [List.mem_singleton.1 hb]
      rfl
  · intro hopen b hb
    simp only [hsaw] at hb
    simp only [hsame.1]
    rcases List.mem_append.1 hb with hb | hb
    · split at hb
      · rename_i hsome
        unfold Untouched at hopen
        simp only [hphase hsome] at hopen
        exact h.definition hopen b hb
      · cases hb
    · rw [List.mem_singleton.1 hb]
      rfl

theorem not_unsettled_of_settled {result : Except String (RegisteredApplication Scheduling)}
    (h : w.registrar.phaseOf id = some (.settled result)) : ¬ w.Unsettled id := by
  rintro ⟨phase, hphase, hopen⟩
  exact hopen result (Option.some.inj (hphase.symm.trans h))

theorem phaseOf_conclude (s : ApplicationRegistrar Runtime Scheduling) (calls : List Nat) (version : String) :
    (s.conclude docs v id calls version).phaseOf id =
      some (.settled (register v s.registry (docs.config id version) version).2) := by
  simp [ApplicationRegistrar.conclude, ApplicationRegistrar.phaseOf]

theorem Faithful.resume (h : w.Faithful id) (reading : w.registrar.phaseOf id = some .reading) (calls : List Nat)
    (entry : Except String (Option String)) :
    Faithful ⟨w.registrar.resume docs v id calls entry, w.saw⟩ id := by
  have settled (result : Except String (RegisteredApplication Scheduling)) :
      Faithful ⟨w.registrar.setPhase id calls (.settled result), w.saw⟩ id :=
    faithful_of_settled (not_unsettled_of_settled (ApplicationRegistrar.phaseOf_setPhase ..))
  unfold ApplicationRegistrar.resume
  split
  · exact settled _
  · exact settled _
  · split
    · exact settled _
    · split
      · have untouched : w.Untouched id := .inl reading
        exact ⟨fun _ b hb => h.scheduling untouched.unsettled b hb, fun _ b hb => h.definition untouched b hb⟩
      · exact faithful_of_settled (not_unsettled_of_settled (phaseOf_conclude ..))

theorem faithful_own {r : ApplicationRegistrar Runtime Scheduling} {a : Action} (h : w.Faithful id)
    (hstep : Stepped docs v drainTimeoutMs w.registrar a r) (hid : a.about = some id) :
    Faithful ⟨r, w.watch a⟩ id := by
  cases hstep with
  | ensured =>
    obtain rfl := Option.some.inj hid
    exact h.ensured _
  | read hf =>
    obtain rfl := Option.some.inj hid
    exact h.resume (ApplicationRegistrar.phaseOf_of_inFlight hf) ..
  | drained hf =>
    obtain rfl := Option.some.inj hid
    have untouched : w.Untouched _ := .inr ⟨_, ApplicationRegistrar.phaseOf_of_inFlight hf⟩
    refine ⟨fun _ b hb => h.scheduling untouched.unsettled b hb, fun hopen => ?_⟩
    simp [Untouched, ApplicationRegistrar.dispose, ApplicationRegistrar.phaseOf] at hopen
  | drainExpired =>
    obtain rfl := Option.some.inj hid
    exact faithful_of_settled (not_unsettled_of_settled (ApplicationRegistrar.phaseOf_setPhase ..))
  | disposed =>
    obtain rfl := Option.some.inj hid
    exact faithful_of_settled (not_unsettled_of_settled (phaseOf_conclude ..))
  | cleared =>
    obtain rfl := Option.some.inj hid
    refine faithful_of_settled ?_
    rintro ⟨_, hphase, _⟩
    simp [ApplicationRegistrar.clear, ApplicationRegistrar.phaseOf] at hphase
  | answered | startedBuild | endedBuild => simp [Action.about] at hid

theorem faithful_step {r : ApplicationRegistrar Runtime Scheduling} {a : Action} (h : w.Faithful id)
    (hstep : Stepped docs v drainTimeoutMs w.registrar a r) : Faithful ⟨r, w.watch a⟩ id := by
  by_cases hid : a.about = some id
  · exact faithful_own h hstep hid
  · refine h.frame (hstep.sameAt hid) ?_
    cases a with
    | ensure call id' => exact Function.update_of_ne (fun heq => hid (congrArg some heq.symm)) ..
    | _ => rfl

theorem faithful_run (run : Runs (step docs v drainTimeoutMs) anyStep initial w) (id : String) :
    w.registrar.Coherent docs v id ∧ w.Faithful id := by
  refine run.invariant (fun w => ∀ id, w.registrar.Coherent docs v id ∧ w.Faithful id) ?_ ?_ id
  · intro id
    refine ⟨ApplicationRegistrar.coherent_initial, faithful_of_settled fun ⟨_, hphase, _⟩ => ?_⟩
    simp [initial, ApplicationRegistrar.initial, ApplicationRegistrar.phaseOf] at hphase
  · intro w a w' inv h _ id
    obtain ⟨r, hr, rfl⟩ := Option.map_eq_some_iff.1 h
    have hstep := ApplicationRegistrar.stepped hr
    exact ⟨ApplicationRegistrar.coherent_step (fun id => (inv id).1) hstep id, faithful_step (inv id).2 hstep⟩

/-! ## The result -/

theorem kept_after_register {registry : ConnectorRegistry Runtime} {registry' : ConnectorRegistry Runtime}
    {version e : String} {b : Seen Runtime} (free : registry.definitions id = none)
    (h : register v registry (docs.config id version) version = (registry', .error e)) :
    registry'.definitions id = b.definition ↔ b.definition = none ∧ docs.Refused v registry id version ∨
      (∃ d, b.definition = some d ∧ docs.Defines v id version d) ∧ ¬ docs.Refused v registry id version := by
  rcases register_rejected h with ⟨hrefused, rfl⟩ | ⟨haccepted, d, hd, hrecorded⟩
  · rw [free]
    simp [hrefused, eq_comm]
  · rw [hrecorded]
    constructor
    · intro heq
      exact .inr ⟨⟨d, heq.symm, hd⟩, haccepted⟩
    · rintro (⟨-, hrefused⟩ | ⟨⟨d', hd', hdefines⟩, -⟩)
      · exact absurd hrefused haccepted
      · rw [hd', hd.unique hdefines]

theorem kept_conclude {s : ApplicationRegistrar Runtime Scheduling} {calls : List Nat} {version e : String}
    {b : Seen Runtime} (free : s.registry.definitions id = none) (hsched : s.schedulingOf id = b.scheduling)
    (rejected : (s.conclude docs v id calls version).phaseOf id = some (.settled (.error e))) :
    (s.conclude docs v id calls version).Kept id b ↔ b.definition = none ∧ docs.Refused v s.registry id version ∨
      (∃ d, b.definition = some d ∧ docs.Defines v id version d) ∧ ¬ docs.Refused v s.registry id version := by
  rw [phaseOf_conclude, Option.some.injEq, Phase.settled.injEq] at rejected
  have hregister : register v s.registry (docs.config id version) version =
      ((register v s.registry (docs.config id version) version).1, .error e) := Prod.ext rfl rejected
  rw [← kept_after_register free hregister]
  have hregistered : (s.conclude docs v id calls version).registered = s.registered := by
    simp [ApplicationRegistrar.conclude, rejected]
  unfold ApplicationRegistrar.Kept ApplicationRegistrar.schedulingOf
  rw [hregistered]
  exact and_iff_left hsched

theorem kept_resume (reading : w.registrar.phaseOf id = some .reading) (faithful : w.Faithful id) {calls : List Nat}
    {entry : Except String (Option String)} {e : String} {b : Seen Runtime} (hb : b ∈ w.saw id)
    (rejected : (w.registrar.resume docs v id calls entry).phaseOf id = some (.settled (.error e))) :
    (w.registrar.resume docs v id calls entry).Kept id b ↔ w.registrar.Harmless docs v id (.configRead id entry) b := by
  have untouched : w.Untouched id := .inl reading
  have hsched := faithful.scheduling untouched.unsettled b hb
  have hdef := faithful.definition untouched b hb
  unfold ApplicationRegistrar.Harmless
  match entry with
  | .error _ => exact iff_of_true ⟨hdef, hsched⟩ (by simp [ApplicationRegistrar.registering])
  | .ok none => exact iff_of_true ⟨hdef, hsched⟩ (by simp [ApplicationRegistrar.registering])
  | .ok (some version) =>
    simp only [ApplicationRegistrar.resume] at rejected ⊢
    split at rejected
    · simp at rejected
    · split at rejected
      · simp at rejected
      · rename_i free
        simp only [ApplicationRegistrar.registering, if_true, Option.map_some, Option.some.injEq, Prod.mk.injEq,
          and_imp, forall_eq', forall_apply_eq_imp_iff]
        exact kept_conclude free hsched rejected

theorem kept_disposed {s : ApplicationRegistrar Runtime Scheduling} {calls : List Nat} {version e : String}
    {built : Bool} {b : Seen Runtime} (hphase : s.phaseOf id = some (.disposing version built))
    (free : s.registry.definitions id = none) (hsched : s.schedulingOf id = b.scheduling)
    (rejected : (ApplicationRegistrar.conclude docs v
      { s with registry := if built then s.registry.disposeBuilt id else s.registry } id calls version).phaseOf id =
        some (.settled (.error e))) :
    (ApplicationRegistrar.conclude docs v
      { s with registry := if built then s.registry.disposeBuilt id else s.registry } id calls version).Kept id b ↔
        s.Harmless docs v id (.disposed id) b := by
  have hreg : ∀ version' registry, s.registering id (.disposed id) = some (version', registry) ↔
      version = version' ∧ (if built then s.registry.disposeBuilt id else s.registry) = registry := by
    simp [ApplicationRegistrar.registering, hphase]
  unfold ApplicationRegistrar.Harmless
  simp only [hreg, and_imp, forall_eq', forall_apply_eq_imp_iff]
  refine kept_conclude ?_ hsched rejected
  split <;> exact free

/-- **What a failed `ensure` keeps.** -/
theorem failed_ensure_keeps_iff (run : Runs (step docs v drainTimeoutMs) anyStep initial w) {a : Action}
    {w' : WatchedRegistrar Runtime Scheduling} (h : w.step docs v drainTimeoutMs a = some w') {e : String}
    (pending : w.Unsettled id) (rejected : w'.registrar.phaseOf id = some (.settled (.error e))) {b : Seen Runtime}
    (hb : b ∈ w.saw id) : w'.registrar.Kept id b ↔ w.registrar.Harmless docs v id a b := by
  obtain ⟨coherent, faithful⟩ := faithful_run run id
  obtain ⟨r, hr, rfl⟩ := Option.map_eq_some_iff.1 h
  have hstep := ApplicationRegistrar.stepped hr
  have hsched := faithful.scheduling pending b hb
  by_cases hid : a.about = some id
  · cases hstep with
    | @ensured call _ =>
      obtain rfl := Option.some.inj hid
      obtain ⟨phase, hphase, hopen⟩ := pending
      obtain ⟨work, hwork, rfl⟩ := Option.map_eq_some_iff.1 hphase
      simp only [ApplicationRegistrar.ensure, hwork, ApplicationRegistrar.phaseOf_setPhase, Option.some.injEq]
        at rejected
      exact absurd rejected (hopen _)
    | @read _ calls entry hf =>
      obtain rfl := Option.some.inj hid
      exact kept_resume (ApplicationRegistrar.phaseOf_of_inFlight hf) faithful hb rejected
    | drained =>
      obtain rfl := Option.some.inj hid
      simp [ApplicationRegistrar.dispose, ApplicationRegistrar.phaseOf] at rejected
    | drainExpired hf =>
      obtain rfl := Option.some.inj hid
      have untouched : w.Untouched _ := .inr ⟨_, ApplicationRegistrar.phaseOf_of_inFlight hf⟩
      refine iff_of_true ⟨faithful.definition untouched b hb, hsched⟩ fun version registry hreg => ?_
      simp [ApplicationRegistrar.registering] at hreg
    | @disposed id' calls version built registry hf same =>
      obtain rfl : id' = id := Option.some.inj hid
      simp only [ApplicationRegistrar.step, hf, Option.some.injEq] at hr
      rw [← hr] at rejected ⊢
      have hphase := ApplicationRegistrar.phaseOf_of_inFlight hf
      exact kept_disposed hphase (coherent.replacing ⟨version, built, hphase⟩) hsched rejected
    | cleared =>
      obtain rfl := Option.some.inj hid
      simp [ApplicationRegistrar.clear, ApplicationRegistrar.phaseOf] at rejected
    | answered | startedBuild | endedBuild => simp [Action.about] at hid
  · rw [(hstep.sameAt hid).phase] at rejected
    exact absurd pending (not_unsettled_of_settled rejected)

/-! The first version is valid, and core rejects the second. -/

open ApplicationRegistrar (ensured sampleDocuments sampleValidators)

/-- The definition of the first version is gone, and its scheduling input is still there. -/
theorem failed_ensure_loses_instance :
    ∃ w w' e b, Runs (step sampleDocuments sampleValidators 30000) anyStep initial w ∧
      w.step sampleDocuments sampleValidators 30000 (.disposed "app-1") = some w' ∧ w.Unsettled "app-1" ∧
      w'.registrar.phaseOf "app-1" = some (.settled (.error e)) ∧ b ∈ w.saw "app-1" ∧
      (b.definition.isSome ∧ w'.registrar.registry.getDefinition "app-1" = none) ∧ ¬ w'.registrar.Kept "app-1" b := by
  have h : exec (step sampleDocuments sampleValidators 30000) anyStep initial
      (ensured 0 "v1" [] ++
        [.ensure 1 "app-1", .configRead "app-1" (.ok (some "v2")), .drained "app-1"]) = some _ := rfl
  refine ⟨_, _, _, _, runs_of_exec h, rfl, ⟨_, rfl, by simp⟩, rfl, List.mem_singleton.2 rfl, ⟨rfl, rfl⟩, ?_⟩
  rintro ⟨hdefinition, -⟩
  cases hdefinition

theorem failed_ensure_keeps_unread :
    ∃ w w' b, Runs (step sampleDocuments sampleValidators 30000) anyStep initial w ∧
      w.step sampleDocuments sampleValidators 30000 (.configRead "app-1" (.error "ECONNREFUSED")) = some w' ∧
      b.definition.isSome ∧ w'.registrar.Kept "app-1" b := by
  have h : ∃ w w' e b, exec (step sampleDocuments sampleValidators 30000) anyStep initial
        (ensured 0 "v1" [] ++ [.ensure 1 "app-1"]) = some w ∧
      w.step sampleDocuments sampleValidators 30000 (.configRead "app-1" (.error "ECONNREFUSED")) = some w' ∧
      w.registrar.phaseOf "app-1" = some .reading ∧ w'.registrar.phaseOf "app-1" = some (.settled (.error e)) ∧
      w.saw "app-1" = [b] ∧ b.definition.isSome :=
    ⟨_, _, _, _, rfl, rfl, rfl, rfl, rfl, rfl⟩
  obtain ⟨w, w', e, b, hw, hstep, hreading, rejected, hsaw, hdefinition⟩ := h
  refine ⟨w, w', b, runs_of_exec hw, hstep, hdefinition, (failed_ensure_keeps_iff (runs_of_exec hw) hstep
    ⟨_, hreading, by simp⟩ rejected (hsaw ▸ List.mem_singleton_self b)).2 fun version registry hreg => ?_⟩
  simp [ApplicationRegistrar.registering] at hreg

end WatchedRegistrar

end Provisioning
