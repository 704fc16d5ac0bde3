import Provisioning.Config.Wiring
import Provisioning.Ops.Fates
import Provisioning.Ops.Holding

/-!
# The reaper and live attempts

When an attempt starts, its process knows the deadline of its instance. The reaper knows one
threshold for all rows, and counts from `claimed_at`, which comes before the start of the attempt.
-/

namespace Provisioning

open Lib

/-! ## Attempts with their deadlines -/

/-- The deadline that `optionsFor` takes. -/
def AttemptDeadlines.forOp (deadlines : AttemptDeadlines) : OperationType → Nat
  | .create => deadlines.create
  | .update => deadlines.update
  | _ => deadlines.delete

structure StartedAttempt where
  row : Uuid
  claim : Nat
  claimedAt : Nat
  startedAt : Nat
  deadlineMs : Nat
  deriving DecidableEq

structure TimedDeployment where
  deployment : Deployment
  /-- What the registry of a process has for an instance. -/
  registered : Nat → String → Option ResolvedInstanceConfig
  /-- Every attempt so far on an instance that its process knows. -/
  started : List StartedAttempt

inductive TimedAction where
  | deployment (a : Action)
  | register (proc : Nat) (instanceId : String) (runtime : Option ResolvedInstanceConfig)

namespace TimedDeployment

variable (advisoryLockKey : String → BitVec 64) (cfg : ResolvedDispatcherConfig) (s : TimedDeployment)

def start (now : Nat) (partitions : List Nat) : TimedDeployment :=
  ⟨Deployment.start now partitions, fun _ _ => none, []⟩

def startedAttempt (c : ClaimStatement) (r : Row × OperationPendingStatus) : Option StartedAttempt :=
  (s.registered c.caller r.1.instanceId).map fun runtime =>
    { row := r.1.id
      claim := claimsOf s.deployment.log r.1.id + 1
      claimedAt := c.snapshot.now
      startedAt := s.deployment.db.now
      deadlineMs := runtime.attemptDeadlineMs.forOp r.1.opType }

/-- The attempts that an action starts. -/
def starts : Action → List StartedAttempt
  | .commitClaim sid true =>
    match s.deployment.db.claim? sid with
    | some c => (s.deployment.db.returned sid).filterMap (s.startedAttempt c)
    | none => []
  | _ => []

def register (proc : Nat) (instanceId : String) (runtime : Option ResolvedInstanceConfig) : TimedDeployment :=
  { s with registered := Function.update s.registered proc (Function.update (s.registered proc) instanceId runtime) }

def step (s : TimedDeployment) : TimedAction → Option TimedDeployment
  | .deployment a => (s.deployment.step advisoryLockKey cfg a).map fun d =>
    { s with deployment := d, started := s.started ++ s.starts a }
  | .register proc instanceId runtime => some (s.register proc instanceId runtime)

/-- The threshold of the reaper lasts for the deadline and the grace of the attempt, and for the time
between `claimed_at` and its start. -/
def Covered (b : StartedAttempt) : Prop :=
  b.startedAt + (b.deadlineMs + cfg.readBackGraceMs) ≤ b.claimedAt + cfg.reaperThresholdMs

instance (b : StartedAttempt) : Decidable (Covered cfg b) := inferInstanceAs (Decidable (_ ≤ _))

/-- It falls short by more than a millisecond, the step of this clock. -/
def FallsShort (b : StartedAttempt) : Prop :=
  b.claimedAt + cfg.reaperThresholdMs + 1 < b.startedAt + (b.deadlineMs + cfg.readBackGraceMs)

instance (b : StartedAttempt) : Decidable (FallsShort cfg b) := inferInstanceAs (Decidable (_ < _))

/-- The runs in which each attempt that starts is covered. -/
def startsCovered (s : TimedDeployment) : TimedAction → TimedDeployment → Prop
  | .deployment a, _ => ∀ b ∈ s.starts a, Covered cfg b
  | .register .., _ => True

/-- No pass of a reaper in this state changes a row whose attempt began less than its deadline and
the grace ago. -/
def SparesLive : Prop :=
  ∀ readBackDelayMs began seen s',
    s.step advisoryLockKey cfg (.deployment (.reap readBackDelayMs began seen)) = some s' →
    ∀ b ∈ s.started, b.claim = claimsOf s.deployment.log b.row →
      s'.deployment.db.row? b.row ≠ s.deployment.db.row? b.row →
      b.startedAt + (b.deadlineMs + cfg.readBackGraceMs) ≤ s.deployment.db.now

end TimedDeployment

/-! ## A row that is `RUNNING` -/

namespace Deployment

variable {advisoryLockKey : String → BitVec 64} {cfg : ResolvedDispatcherConfig} {s s' : Deployment} {a : Action}
  {u : Uuid}

theorem Stepped.running_step (h : Stepped advisoryLockKey cfg s a s') (wf : s.db.WellFormed) {r' : Row}
    (hr' : s'.db.row? u = some r') (hrun : r'.status = .live .running) :
    (s.db.row? u = some r' ∧ claimsOf s'.log u = claimsOf s.log u) ∨
      ∃ sid delivered c, a = .commitClaim sid delivered ∧ s.db.claim? sid = some c ∧
        r'.claimedAt = some c.snapshot.now ∧ claimsOf s'.log u = claimsOf s.log u + 1 := by
  have hclaims := h.claimsOf_eq wf u
  have hafter : s'.db.running u := Db.running_iff.2 ⟨r', hr', hrun⟩
  have same (hr : s.db.row? u = some r') :
      s.db.row? u = some r' ∧ claimsOf s'.log u = claimsOf s.log u := by
    refine ⟨hr, ?_⟩
    rw [hclaims, if_neg fun hnot => hnot.1 (Db.running_iff.2 ⟨r', hr, hrun⟩), Nat.add_zero]
  obtain ⟨hmem, rfl⟩ := lookup_some_mem hr'
  have origin {b : DbAction} (hdb : s.db.Stepped advisoryLockKey b s'.db) (other : ∀ sid, b ≠ .commitClaim sid) :
      s.db.row? r'.id = some r' := by
    rcases hdb.running_origin wf hmem hrun with hold | ⟨c, _, hb, -⟩
    · exact wf.row?_of_mem hold
    · exact absurd hb (other c.sid)
  cases h with
  | database background _ h =>
    refine .inl (same (origin h ?_))
    rintro sid rfl
    cases background
  | @wrote _ _ _ _ _ e _ _ _ _ _ _ statement h =>
    refine .inl (same (origin h ?_))
    rintro sid rfl
    cases e <;> cases statement
  | reaped h => exact .inl (same (origin h (by simp)))
  | replied | writeLost | died => exact .inl (same hr')
  | @committed sid c delivered hc =>
    rw [Db.row?_claimLocked] at hr'
    obtain ⟨r, hr, heq⟩ := Option.map_eq_some_iff.1 hr'
    by_cases hlocked : ∃ l ∈ s.db.locksOf sid, l.id = r.id
    · rw [if_pos hlocked] at heq
      obtain ⟨l, hl, hid⟩ := hlocked
      obtain ⟨r₀, hr₀, hst, hidle⟩ := wf.locks.held l (List.mem_filter.1 hl).1
      have hbefore : ¬ s.db.running r'.id := by
        rw [Db.running_iff]
        rintro ⟨r₁, hr₁, hst₁⟩
        rw [hr] at hr₁
        cases hr₁
        rw [hid, Db.row?_id hr, hr] at hr₀
        cases hr₀
        exact hidle (OperationStatus.live.inj (hst.symm.trans hst₁))
      refine .inr ⟨sid, delivered, c, rfl, hc, ?_, ?_⟩
      · rw [← heq]
        rfl
      · rw [hclaims, if_pos ⟨hbefore, hafter⟩]
    · rw [if_neg hlocked] at heq
      exact .inl (same (heq ▸ hr))

end Deployment

/-! ## The run -/

namespace TimedDeployment

variable {advisoryLockKey : String → BitVec 64} {cfg : ResolvedDispatcherConfig} {s s' : TimedDeployment}

theorem mem_starts {a : Action} {b : StartedAttempt} (hb : b ∈ s.starts a) :
    ∃ sid c, a = .commitClaim sid true ∧ s.deployment.db.claim? sid = some c ∧
      b.row ∈ (s.deployment.db.returned sid).map (fun r => r.1.id) ∧
      b.claim = claimsOf s.deployment.log b.row + 1 ∧ b.claimedAt = c.snapshot.now := by
  unfold starts at hb
  split at hb
  · rename_i sid
    split at hb
    · rename_i c hc
      obtain ⟨r, hr, hstarted⟩ := List.mem_filterMap.1 hb
      obtain ⟨runtime, -, rfl⟩ := Option.map_eq_some_iff.1 hstarted
      exact ⟨sid, c, rfl, hc, List.mem_map.2 ⟨r, hr, rfl⟩, rfl, rfl⟩
    · cases hb
  · cases hb

/-- A `RUNNING` row in the claim of a started attempt has the `claimed_at` of that claim. -/
structure Tracked (s : TimedDeployment) : Prop where
  wf : s.deployment.db.WellFormed
  claims : ∀ b ∈ s.started, b.claim ≤ claimsOf s.deployment.log b.row
  claimed : ∀ b ∈ s.started, b.claim = claimsOf s.deployment.log b.row → ∀ r,
    s.deployment.db.row? b.row = some r → r.status = .live .running → r.claimedAt = some b.claimedAt

theorem tracked_start (now : Nat) (partitions : List Nat) : (start now partitions).Tracked where
  wf := Db.wellFormed_start now partitions
  claims := by simp [start]
  claimed := by simp [start]

theorem Tracked.step (inv : s.Tracked) {a : TimedAction} (h : s.step advisoryLockKey cfg a = some s') :
    s'.Tracked := by
  cases a with
  | register proc instanceId runtime =>
    cases h
    exact ⟨inv.wf, inv.claims, inv.claimed⟩
  | deployment a =>
    obtain ⟨d, hd, rfl⟩ := Option.map_eq_some_iff.1 h
    have hstep := Deployment.stepped hd
    have hgrows (u : Uuid) : claimsOf s.deployment.log u ≤ claimsOf d.log u := by
      rw [hstep.claimsOf_eq inv.wf u]
      omega
    -- An attempt that starts is of the claim that has just been counted.
    have hnew : ∀ b ∈ s.starts a, claimsOf d.log b.row = b.claim := by
      intro b hb
      obtain ⟨sid, c, rfl, hc, hrow, hclaim, -⟩ := mem_starts hb
      cases hstep with
      | committed =>
        rw [claimsOf_append, Deployment.claimsOf_newEntries inv.wf, if_pos hrow, hclaim]
    refine ⟨hstep.wellFormed inv.wf, fun b hb => ?_, fun b hb hcurrent r hr hrun => ?_⟩
    · rcases List.mem_append.1 hb with hb | hb
      · exact (inv.claims b hb).trans (hgrows b.row)
      · exact (hnew b hb).ge
    · rcases List.mem_append.1 hb with hb | hb
      · have hle := inv.claims b hb
        rcases hstep.running_step inv.wf hr hrun with ⟨hbefore, hsame⟩ | ⟨_, _, _, -, -, -, hmore⟩
        · exact inv.claimed b hb (hcurrent.trans hsame) r hbefore hrun
        · simp only at hcurrent
          omega
      · obtain ⟨sid, c, rfl, hc, -, hclaim, hat⟩ := mem_starts hb
        rcases hstep.running_step inv.wf hr hrun with ⟨-, hsame⟩ | ⟨_, _, c', ha, hc', hclaimed, -⟩
        · simp only at hcurrent
          omega
        · cases ha
          rw [hc] at hc'
          cases hc'
          rw [hclaimed, hat]

theorem Covered.step (inv : ∀ b ∈ s.started, Covered cfg b) {a : TimedAction}
    (h : s.step advisoryLockKey cfg a = some s') (good : startsCovered cfg s a s') :
    ∀ b ∈ s'.started, Covered cfg b := by
  cases a with
  | register proc instanceId runtime =>
    cases h
    exact inv
  | deployment a =>
    obtain ⟨d, -, rfl⟩ := Option.map_eq_some_iff.1 h
    intro b hb
    rcases List.mem_append.1 hb with hb | hb
    · exact inv b hb
    · exact good b hb

/-- What a pass changes is stale, so its attempt is old when it is covered. -/
theorem Tracked.sparesLive (inv : s.Tracked) (covered : ∀ b ∈ s.started, Covered cfg b) :
    s.SparesLive advisoryLockKey cfg := by
  intro readBackDelayMs began seen s' h b hb hcurrent hchanged
  obtain ⟨d, hd, rfl⟩ := Option.map_eq_some_iff.1 h
  cases Deployment.stepped hd with
  | reaped hreap =>
    have hbegan : began ≤ s.deployment.db.now := by cases hreap; assumption
    rw [Db.row?_reapStale hreap] at hchanged
    cases hr : s.deployment.db.row? b.row with
    | none =>
      rw [hr] at hchanged
      exact absurd rfl hchanged
    | some r =>
      rw [hr, Option.map_some] at hchanged
      by_cases hstale : r.id ∈ seen ∧ r.stale cfg.reaperThresholdMs began
      · obtain ⟨hrun, hage⟩ := hstale.2
        rw [inv.claimed b hb hcurrent r hr hrun] at hage
        have hcovered := covered b hb
        unfold Covered at hcovered
        simp only [Option.any_some, decide_eq_true_eq] at hage
        omega
      · rw [if_neg hstale] at hchanged
        exact absurd rfl hchanged

theorem mem_starts_after (wf : s.deployment.db.WellFormed) {a : Action} {b : StartedAttempt} (hb : b ∈ s.starts a)
    (h : s.step advisoryLockKey cfg (.deployment a) = some s') :
    b ∈ s'.started ∧ b.claim = claimsOf s'.deployment.log b.row ∧ b.startedAt = s'.deployment.db.now ∧
      ∃ r, s'.deployment.db.row? b.row = some r ∧ r.status = .live .running ∧ r.claimedAt = some b.claimedAt := by
  obtain ⟨d, hd, rfl⟩ := Option.map_eq_some_iff.1 h
  obtain ⟨sid, c, rfl, hc, hrow, hclaim, hat⟩ := mem_starts hb
  have hstarted : b.startedAt = s.deployment.db.now := by
    simp only [starts, hc] at hb
    obtain ⟨r, -, hr⟩ := List.mem_filterMap.1 hb
    obtain ⟨runtime, -, rfl⟩ := Option.map_eq_some_iff.1 hr
    rfl
  cases Deployment.stepped hd with
  | @committed _ c' _ hc' =>
    rw [hc] at hc'
    cases hc'
    refine ⟨List.mem_append_right _ hb, ?_, hstarted, ?_⟩
    · rw [claimsOf_append, Deployment.claimsOf_newEntries wf, if_pos hrow, hclaim]
    · obtain ⟨⟨r, p⟩, hr, hid⟩ := List.mem_map.1 hrow
      simp only at hid
      obtain ⟨l, hl, hlrow, -⟩ := Db.mem_returned.1 hr
      refine ⟨r.claimed c.snapshot.now, ?_, rfl, by rw [hat]; rfl⟩
      rw [Db.row?_claimLocked, ← hid, (Db.returned_lockable wf hr).1, Option.map_some,
        if_pos ⟨l, hl, (Db.row?_id hlrow).symm⟩]

theorem not_sparesLive_later {b : StartedAttempt} {r : Row} (hb : b ∈ s.started)
    (hcurrent : b.claim = claimsOf s.deployment.log b.row) (hnow : b.startedAt = s.deployment.db.now)
    (hr : s.deployment.db.row? b.row = some r) (hrun : r.status = .live .running)
    (hat : r.claimedAt = some b.claimedAt) (short : FallsShort cfg b) (grace : 0 < cfg.readBackGraceMs) :
    ∃ s₁, Runs (step advisoryLockKey cfg) anyStep s s₁ ∧ ¬ s₁.SparesLive advisoryLockKey cfg := by
  let wait := b.claimedAt + cfg.reaperThresholdMs + 1 - s.deployment.db.now
  let later : Db := { s.deployment.db with now := s.deployment.db.now + wait }
  let s₁ : TimedDeployment := { s with deployment := { s.deployment with db := later }, started := s.started ++ [] }
  have waited : s.step advisoryLockKey cfg (.deployment (.database (.tick wait))) = some s₁ := by
    simp [step, Deployment.step, DbAction.isBackground, DbAction.callerIn, Db.step, starts, s₁, later]
  have hstale : r.stale cfg.reaperThresholdMs later.now := by
    refine ⟨hrun, ?_⟩
    rw [hat]
    simp only [Option.any_some, decide_eq_true_eq, later, wait]
    omega
  refine ⟨s₁, Runs.start.next waited trivial, fun spares => ?_⟩
  obtain ⟨db, hdb⟩ : ∃ db, later.reapStale cfg.reaperThresholdMs 0 later.now [b.row] = some db := by
    simp [Db.reapStale]
  have reaped : s₁.step advisoryLockKey cfg (.deployment (.reap 0 later.now [b.row])) =
      some { s₁ with deployment := { s₁.deployment with db := db }, started := s₁.started ++ [] } := by
    simp [step, Deployment.step, starts, s₁, hdb]
  have hchanged : db.row? b.row ≠ later.row? b.row := by
    have hstep : later.Stepped advisoryLockKey (.reapStale cfg.reaperThresholdMs 0 later.now [b.row]) db :=
      Db.stepped hdb
    have hrow : later.row? b.row = some r := hr
    rw [Db.row?_reapStale hstep, hrow, Option.map_some, if_pos ⟨by simp [Db.row?_id hr], hstale⟩]
    intro heq
    have hstatus := congrArg Row.status (Option.some.inj heq)
    rw [hrun] at hstatus
    split at hstatus <;> cases hstatus
  have hold := spares 0 later.now [b.row] _ reaped b (List.mem_append_left _ hb) hcurrent hchanged
  unfold FallsShort at short
  simp only [s₁, later, wait] at hold
  omega

/-- The reaper of a configured service spares live attempts in the runs in which its threshold
covers each attempt, and an attempt for which it falls short may be taken. -/
theorem reaper_spares_live (env : ProcessEnv) (config : WiringConfig) (advisoryLockKey : String → BitVec 64)
    (now : Nat) (partitions : List Nat) (s : TimedDeployment) :
    loadWiringConfig env = .ok config →
    (Runs (step advisoryLockKey config.dispatcher) (startsCovered config.dispatcher) (start now partitions) s →
      s.SparesLive advisoryLockKey config.dispatcher) ∧
    (Runs (step advisoryLockKey config.dispatcher) anyStep (start now partitions) s →
      ∀ a s' b, s.step advisoryLockKey config.dispatcher (.deployment a) = some s' → b ∈ s.starts a →
        FallsShort config.dispatcher b →
        ∃ s₁, Runs (step advisoryLockKey config.dispatcher) anyStep s' s₁ ∧
          ¬ s₁.SparesLive advisoryLockKey config.dispatcher) := by
  intro _
  refine ⟨fun run => ?_, fun run a s' b h hb short => ?_⟩
  · have inv : s.Tracked ∧ ∀ b ∈ s.started, Covered config.dispatcher b :=
      run.invariant (fun s => s.Tracked ∧ ∀ b ∈ s.started, Covered config.dispatcher b)
        ⟨tracked_start now partitions, by simp [start]⟩
        fun _ _ _ inv h good => ⟨inv.1.step h, Covered.step inv.2 h good⟩
    exact inv.1.sparesLive inv.2
  · have inv : s.Tracked :=
      run.invariant Tracked (tracked_start now partitions) fun _ _ _ inv h _ => inv.step h
    obtain ⟨hstarted, hcurrent, hnow, r, hr, hrun, hat⟩ := mem_starts_after inv.wf hb h
    exact not_sparesLive_later hstarted hcurrent hnow hr hrun hat short (by simp [WiringConfig.dispatcher,
      ResolvedDispatcherConfig.DEFAULTS])

/-! One create with a deadline of 30 s, claimed as soon as it is enqueued. -/

def oneCreate : List TimedAction :=
  .register 1 "i" (some Deployment.someRuntime) ::
    (Deployment.submitted 1 (Deployment.request .create) 7 ++ Deployment.claimedBy 1 1 7).map .deployment

theorem wiring_threshold {text : String} {n : Nat}
    (h : (loadWiringConfig (envWith text)).toOption.map WiringConfig.reaperThresholdMs = some n) :
    ∃ config, loadWiringConfig (envWith text) = .ok config ∧
      config.dispatcher = { ResolvedDispatcherConfig.DEFAULTS with reaperThresholdMs := n } := by
  cases hload : loadWiringConfig (envWith text) with
  | error e => simp [hload, Except.toOption] at h
  | ok config =>
    simp only [hload, Except.toOption, Option.map_some, Option.some.injEq] at h
    exact ⟨config, rfl, by rw [WiringConfig.dispatcher, h]⟩

instance (cfg : ResolvedDispatcherConfig) (s : TimedDeployment) (a : TimedAction) (s' : TimedDeployment) :
    Decidable (startsCovered cfg s a s') :=
  match a with
  | .deployment a => inferInstanceAs (Decidable (∀ b ∈ s.starts a, Covered cfg b))
  | .register .. => .isTrue trivial

/-- The documented default covers the attempt. -/
theorem oneCreate_spared :
    ∃ config s, loadWiringConfig (envWith "600000") = .ok config ∧
      exec (step (fun _ => 0) config.dispatcher) (startsCovered config.dispatcher) (start 0 [0]) oneCreate = some s ∧
      s.SparesLive (fun _ => 0) config.dispatcher := by
  have hthreshold : (loadWiringConfig (envWith "600000")).toOption.map WiringConfig.reaperThresholdMs =
      some 600000 := by decide +kernel
  obtain ⟨config, hload, hcfg⟩ := wiring_threshold hthreshold
  have h : (exec (step (fun _ => 0) config.dispatcher) (startsCovered config.dispatcher) (start 0 [0])
      oneCreate).isSome := by
    rw [hcfg]
    decide
  obtain ⟨s, hs⟩ := Option.isSome_iff_exists.1 h
  exact ⟨config, s, hload, hs, (reaper_spares_live _ config (fun _ => 0) 0 [0] s hload).1 (runs_of_exec hs)⟩

/-- With a threshold of one second the reaper takes a create that has 30 s. -/
theorem oneCreate_reclaimed :
    ∃ config s, loadWiringConfig (envWith "1000") = .ok config ∧
      Runs (step (fun _ => 0) config.dispatcher) anyStep (start 0 [0]) s ∧
      ¬ s.SparesLive (fun _ => 0) config.dispatcher := by
  have hthreshold : (loadWiringConfig (envWith "1000")).toOption.map WiringConfig.reaperThresholdMs =
      some 1000 := by decide +kernel
  obtain ⟨config, hload, hcfg⟩ := wiring_threshold hthreshold
  have h : (exec (step (fun _ => 0) config.dispatcher) anyStep (start 0 [0]) oneCreate).any fun s =>
      s.started = [⟨7, 1, 0, 0, 30000⟩] ∧ claimsOf s.deployment.log 7 = 1 ∧ s.deployment.db.now = 0 ∧
        (s.deployment.db.row? 7).any fun r => r.status = .live .running ∧ r.claimedAt = some 0 := by
    rw [hcfg]
    decide
  obtain ⟨s, hs, hstate⟩ := (Option.any_eq_true _ _).1 h
  simp only [decide_eq_true_eq] at hstate
  obtain ⟨hb, hcurrent, hnow, hrow⟩ := hstate
  obtain ⟨r, hr, hst⟩ := (Option.any_eq_true _ _).1 hrow
  simp only [decide_eq_true_eq] at hst
  have hshort : FallsShort config.dispatcher ⟨7, 1, 0, 0, 30000⟩ := by
    rw [hcfg]
    decide
  have hmem : (⟨7, 1, 0, 0, 30000⟩ : StartedAttempt) ∈ s.started := by
    rw [hb]
    exact List.mem_singleton_self _
  obtain ⟨s₁, more, taken⟩ :=
    not_sparesLive_later hmem hcurrent.symm hnow.symm hr hst.1 hst.2 hshort (by rw [hcfg]; decide)
  exact ⟨config, s₁, hload, (runs_of_exec hs).trans more, taken⟩

end TimedDeployment

end Provisioning
