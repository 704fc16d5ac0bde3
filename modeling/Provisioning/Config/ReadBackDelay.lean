import Provisioning.Config.ConfigCache
import Provisioning.Ops.Dispatcher
import Provisioning.Ops.Rows

/-!
# How long a reaped create waits

`Dispatcher.maybeReap` takes one delay for all rows, the largest create deadline among the instances
that its process has registered. The rows are those of every process.
-/

namespace Provisioning

open Lib

variable {Scheduling : Type}

/-! ## The pass -/

namespace ConfiguredDispatcher

variable (v : Validators ResolvedInstanceConfig Scheduling)

/-- The loop of `readBackDelayCeilingMs`, over what `registry.registeredIds()` returned. -/
def largestCreateDeadline (largest : Nat) :
    List String → ConfiguredDispatcher ResolvedInstanceConfig Scheduling →
      Except String Nat × ConfiguredDispatcher ResolvedInstanceConfig Scheduling
  | [], s => (.ok largest, s)
  | instanceId :: rest, s =>
    match s.configOf v instanceId with
    | (.error e, s') => (.error e, s')
    | (.ok none, s') => largestCreateDeadline largest rest s'
    | (.ok (some config), s') =>
      largestCreateDeadline (max largest config.runtime.attemptDeadlineMs.create) rest s'

variable (cfg : ResolvedDispatcherConfig) (registeredIds : List String)
  (s : ConfiguredDispatcher ResolvedInstanceConfig Scheduling)

def readBackDelayCeilingMs : Except String Nat × ConfiguredDispatcher ResolvedInstanceConfig Scheduling :=
  ((largestCreateDeadline v 0 registeredIds s).1.map (· + cfg.readBackGraceMs),
    (largestCreateDeadline v 0 registeredIds s).2)

/-- A pass of `maybeReap` that is due. When the delay cannot be computed, the pass fails before its
first statement. -/
def reap (began : Nat) (seen : List Uuid) (t : Tables) : Tables :=
  match (s.readBackDelayCeilingMs v cfg registeredIds).1 with
  | .error _ => t
  | .ok delay => (OperationStore.reapStale cfg.reaperThresholdMs delay began seen t).2

end ConfiguredDispatcher

/-! ## The delay -/

namespace ConfiguredDispatcher

variable {v : Validators ResolvedInstanceConfig Scheduling} {cfg : ResolvedDispatcherConfig}
  {s : ConfiguredDispatcher ResolvedInstanceConfig Scheduling}

theorem configOf_fst (s : ConfiguredDispatcher ResolvedInstanceConfig Scheduling) (i : String) :
    (s.configOf v i).1 =
      match s.read i with
      | none => .ok none
      | some r =>
        match s.configCache (configKey i (v.mutationConcurrency r.runtime)) with
        | some hit => .ok (some hit)
        | none => (r.merge v).map some := by
  unfold configOf
  cases s.read i with
  | none => rfl
  | some r =>
    simp only
    cases s.configCache (configKey i (v.mutationConcurrency r.runtime)) with
    | some hit => rfl
    | none => cases r.merge v <;> rfl

theorem configOf_snd (s : ConfiguredDispatcher ResolvedInstanceConfig Scheduling) (i : String) :
    (s.configOf v i).2.read = s.read ∧
      ((s.configOf v i).2.configCache = s.configCache ∨
        ∃ r merged, s.read i = some r ∧ r.merge v = .ok merged ∧
          s.configCache (configKey i (v.mutationConcurrency r.runtime)) = none ∧
          (s.configOf v i).2.configCache =
            Function.update s.configCache (configKey i (v.mutationConcurrency r.runtime)) (some merged)) := by
  unfold configOf
  cases hr : s.read i with
  | none => exact ⟨rfl, .inl rfl⟩
  | some r =>
    simp only
    cases hhit : s.configCache (configKey i (v.mutationConcurrency r.runtime)) with
    | some hit => exact ⟨rfl, .inl rfl⟩
    | none =>
      cases hmerge : r.merge v with
      | error e => exact ⟨rfl, .inl rfl⟩
      | ok merged => exact ⟨rfl, .inr ⟨r, merged, rfl, hmerge, hhit, rfl⟩⟩

theorem configOf_configOf (s : ConfiguredDispatcher ResolvedInstanceConfig Scheduling) (i j : String) :
    ((s.configOf v i).2.configOf v j).1 = (s.configOf v j).1 := by
  obtain ⟨hread, hcache⟩ := configOf_snd (v := v) s i
  rw [configOf_fst, configOf_fst, hread]
  cases hj : s.read j with
  | none => rfl
  | some r =>
    simp only
    rcases hcache with hcache | ⟨r₀, merged, hi, hmerge, hmiss, hcache⟩
    · rw [hcache]
    · rw [hcache]
      by_cases hkey : configKey j (v.mutationConcurrency r.runtime) = configKey i (v.mutationConcurrency r₀.runtime)
      · obtain ⟨rfl, -⟩ := configKey_injective hkey
        obtain rfl : r₀ = r := Option.some.inj (hi.symm.trans hj)
        rw [Function.update_self, hmiss, hmerge]
        rfl
      · rw [Function.update_of_ne hkey]

/-- What the instances have, as `configOf` returns it. -/
def createDeadlineOf (v : Validators ResolvedInstanceConfig Scheduling)
    (s : ConfiguredDispatcher ResolvedInstanceConfig Scheduling) (id : String) : Except String (Option Nat) :=
  (s.configOf v id).1.map fun config => config.map fun c => c.runtime.attemptDeadlineMs.create

/-- The largest deadline is one that `configOf` returns now, and none that it returns is larger. -/
theorem largestCreateDeadline_ok {ids : List String} {largest n : Nat}
    {s : ConfiguredDispatcher ResolvedInstanceConfig Scheduling}
    (h : (largestCreateDeadline v largest ids s).1 = .ok n) (d : Nat) :
    d ≤ n ↔ d ≤ largest ∨ ∃ id ∈ ids, ∃ own, s.createDeadlineOf v id = .ok (some own) ∧ d ≤ own := by
  induction ids generalizing largest s with
  | nil =>
    cases h
    simp
  | cons i rest ih =>
    unfold largestCreateDeadline at h
    have hlater : ∀ j, ((s.configOf v i).2.createDeadlineOf v j) = s.createDeadlineOf v j := by
      intro j
      unfold createDeadlineOf
      rw [configOf_configOf]
    have hi : s.createDeadlineOf v i =
        (s.configOf v i).1.map fun config => config.map fun c => c.runtime.attemptDeadlineMs.create := rfl
    cases hconfig : s.configOf v i with
    | mk r s' =>
      rw [hconfig] at h hlater hi
      simp only at hlater hi
      simp only [List.mem_cons, exists_eq_or_imp, hi]
      cases r with
      | error e => cases h
      | ok config =>
        cases config with
        | none =>
          rw [ih h]
          simp [hlater, Except.map]
        | some c =>
          rw [ih h]
          simp only [hlater, Except.map, Option.map_some, Except.ok.injEq, Option.some.injEq, exists_eq_left',
            le_max_iff, or_assoc]

theorem largestCreateDeadline_error {ids : List String} {largest : Nat}
    {s : ConfiguredDispatcher ResolvedInstanceConfig Scheduling} :
    (∃ e, (largestCreateDeadline v largest ids s).1 = .error e) ↔
      ∃ id ∈ ids, ∃ e, s.createDeadlineOf v id = .error e := by
  induction ids generalizing largest s with
  | nil => simp [largestCreateDeadline]
  | cons i rest ih =>
    unfold largestCreateDeadline
    have hlater : ∀ j, ((s.configOf v i).2.createDeadlineOf v j) = s.createDeadlineOf v j := by
      intro j
      unfold createDeadlineOf
      rw [configOf_configOf]
    have hi : s.createDeadlineOf v i =
        (s.configOf v i).1.map fun config => config.map fun c => c.runtime.attemptDeadlineMs.create := rfl
    cases hconfig : s.configOf v i with
    | mk r s' =>
      rw [hconfig] at hlater hi
      simp only at hlater hi
      simp only [List.mem_cons, exists_eq_or_imp, hi]
      cases r with
      | error e => simp [Except.map]
      | ok config => cases config <;> simp [ih, hlater, Except.map]

/-! ## The result -/

/-- Each create that a pass moves waits for its own deadline and the grace. -/
def WaitsOut (cfg : ResolvedDispatcherConfig) (createDeadline : String → Nat) (began : Nat) (t t' : Tables) : Prop :=
  ∀ (i : Nat) (r r' : Row), t.operations[i]? = some r → t'.operations[i]? = some r' → r.opType = .create →
    r.status = .live .running → r'.status = .live .awaitingReadback →
    ∃ notBefore, r'.notBefore = some notBefore ∧
      began + (createDeadline r.instanceId + cfg.readBackGraceMs) ≤ notBefore

/-- Some instance that the process has registered has, as its `configOf` returns it, a create deadline
that is no shorter. -/
def CoversDeadline (v : Validators ResolvedInstanceConfig Scheduling) (registeredIds : List String)
    (s : ConfiguredDispatcher ResolvedInstanceConfig Scheduling) (deadlineMs : Nat) : Prop :=
  deadlineMs = 0 ∨ ∃ id ∈ registeredIds, ∃ own, s.createDeadlineOf v id = .ok (some own) ∧ deadlineMs ≤ own

theorem waitsOut_reapStale_iff {createDeadline : String → Nat} {delay began : Nat} {seen : List Uuid} {t : Tables} :
    WaitsOut cfg createDeadline began t (OperationStore.reapStale cfg.reaperThresholdMs delay began seen t).2 ↔
      ∀ r ∈ t.operations, r.opType = .create → r.id ∈ seen → r.stale cfg.reaperThresholdMs began →
        createDeadline r.instanceId + cfg.readBackGraceMs ≤ delay := by
  unfold WaitsOut
  constructor
  · intro h r hr hcreate hseen hstale
    obtain ⟨i, hi⟩ := List.getElem?_of_mem hr
    have hafter : (OperationStore.reapStale cfg.reaperThresholdMs delay began seen t).2.operations[i]? =
        some (r.deferred (began + delay)) := by
      rw [OperationStore.reapStale_operations, updateWhere, List.getElem?_map, hi, Option.map_some,
        if_pos ⟨hseen, hstale⟩, if_pos hcreate]
    obtain ⟨notBefore, hnb, hwait⟩ := h i r _ hi hafter hcreate hstale.1 rfl
    cases hnb
    omega
  · intro h i r r' hi hi' hcreate hrun hawaits
    rw [OperationStore.reapStale_operations, updateWhere, List.getElem?_map, hi, Option.map_some] at hi'
    have hr' := Option.some.inj hi'
    by_cases hmoved : r.id ∈ seen ∧ r.stale cfg.reaperThresholdMs began
    · rw [if_pos hmoved, if_pos hcreate] at hr'
      have hdelay := h r (List.mem_of_getElem? hi) hcreate hmoved.1 hmoved.2
      refine ⟨began + delay, ?_, by omega⟩
      rw [← hr']
      rfl
    · rw [if_neg hmoved] at hr'
      rw [← hr', hrun] at hawaits
      cases hawaits

/-- In every registry state, for every set of rows: the creates that a pass moves wait out their own
deadlines exactly when the process has registered an instance with a deadline as long for each of
them, or the pass fails. -/
theorem reap_waitsOut_iff (v : Validators ResolvedInstanceConfig Scheduling) (cfg : ResolvedDispatcherConfig)
    (registeredIds : List String) (s : ConfiguredDispatcher ResolvedInstanceConfig Scheduling)
    (createDeadline : String → Nat) (began : Nat) (seen : List Uuid) (t : Tables) :
    WaitsOut cfg createDeadline began t (s.reap v cfg registeredIds began seen t) ↔
      (∃ id ∈ registeredIds, ∃ e, s.createDeadlineOf v id = .error e) ∨
        ∀ r ∈ t.operations, r.opType = .create → r.id ∈ seen → r.stale cfg.reaperThresholdMs began →
          s.CoversDeadline v registeredIds (createDeadline r.instanceId) := by
  have herror := @largestCreateDeadline_error _ v registeredIds 0 s
  have hreap : s.reap v cfg registeredIds began seen t =
      match (largestCreateDeadline v 0 registeredIds s).1.map (· + cfg.readBackGraceMs) with
      | .error _ => t
      | .ok delay => (OperationStore.reapStale cfg.reaperThresholdMs delay began seen t).2 := rfl
  rw [hreap, ← herror]
  cases hlargest : (largestCreateDeadline v 0 registeredIds s).1 with
  | error e =>
    refine iff_of_true ?_ (.inl ⟨e, rfl⟩)
    intro i r r' hi hi' _ hrun hawaits
    obtain rfl : r = r' := Option.some.inj (hi.symm.trans hi')
    rw [hrun] at hawaits
    cases hawaits
  | ok n =>
    have hcovers (d : Nat) :
        d + cfg.readBackGraceMs ≤ n + cfg.readBackGraceMs ↔ s.CoversDeadline v registeredIds d := by
      unfold CoversDeadline
      rw [← Nat.le_zero, ← largestCreateDeadline_ok hlargest]
      omega
    simp only [Except.map, reduceCtorEq, exists_false, false_or]
    rw [waitsOut_reapStale_iff]
    simp only [hcovers]

/-! A process that has just started finds a create of an application it does not know yet. -/

def strandedCreate : Row :=
  (EnqueueInput.newRow ⟨"i", "user", .create, "l", "k", none, none, some "ada", none⟩ 7 0).claimed 0

def runtimeValidators : Validators ResolvedInstanceConfig Unit where
  resolveRuntimeConfig _ := .ok ⟨⟨30000, 30000, 30000, 30000⟩⟩
  mutationConcurrency _ := 10
  resolveSchedulingConfig _ _ := .ok ()

/-- The create has 30 s, and is read back 2 s after the pass. -/
theorem reap_unknown_instance :
    ¬ WaitsOut .DEFAULTS (fun _ => 30000) 700000 ⟨[strandedCreate], [], [0]⟩
      (initial.reap runtimeValidators .DEFAULTS [] 700000 [7] ⟨[strandedCreate], [], [0]⟩) := by
  intro h
  obtain ⟨notBefore, hnb, hwait⟩ := h 0 strandedCreate (strandedCreate.deferred 702000) rfl rfl rfl rfl rfl
  cases hnb
  revert hwait
  decide

end ConfiguredDispatcher

end Provisioning
