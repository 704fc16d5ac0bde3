import Provisioning.Config.Registrar
import Provisioning.Lib.Lines

/-!
# The config cache of a dispatcher

`Dispatcher.configOf` merges the two halves of a configuration once for each instance and budget. A
registration with the same budget does not change what it returns.
-/

namespace Provisioning

open Lib

variable {Runtime Scheduling : Type}

/-! ## Keys -/

def configKey (instanceId : String) (mutationConcurrency : Nat) : String :=
  s!"{instanceId}:{mutationConcurrency}"

theorem toList_configKey (instanceId : String) (n : Nat) :
    (configKey instanceId n).toList = instanceId.toList ++ ':' :: Nat.toDigits 10 n := by
  have hkey : configKey instanceId n = instanceId ++ ":" ++ Nat.repr n := by
    simp [configKey, toString, String.append_assoc]
  rw [hkey, String.toList_append, String.toList_append, Nat.toList_repr]
  simp

theorem colon_not_digit (n : Nat) : ':' ∉ Nat.toDigits 10 n := by
  intro h
  have := Nat.isDigit_of_mem_toDigits (by omega) (by omega) h
  simp at this

/-- The last colon ends the instance id, whatever the id is. -/
theorem configKey_injective {i j : String} {m n : Nat} (h : configKey i m = configKey j n) : i = j ∧ m = n := by
  have hlists := congrArg String.toList h
  rw [toList_configKey, toList_configKey] at hlists
  obtain ⟨hid, hdigits⟩ := (Lines.append_sep_inj_last (colon_not_digit m) (colon_not_digit n)).1 hlists
  refine ⟨String.toList_injective hid, ?_⟩
  have := congrArg (Nat.ofDigitChars 10 · 0) hdigits
  simpa [Nat.ofDigitChars_ten_toDigits] using this

/-! ## The dispatcher's view -/

/-- `{ ...runtime, ...scheduling }`. The two halves have no field in common. -/
structure MergedConfig (Runtime Scheduling : Type) where
  runtime : Runtime
  scheduling : Scheduling

/-- What a call of `configOf` read, for an instance that was registered. -/
structure ConfigRead (Runtime : Type) where
  instanceId : String
  runtime : Runtime
  schedulingInput : Option Fields

/-- `reads` is not kept by the code. -/
structure ConfiguredDispatcher (Runtime Scheduling : Type) where
  registrar : ApplicationRegistrar Runtime Scheduling
  configCache : String → Option (MergedConfig Runtime Scheduling)
  reads : List (ConfigRead Runtime)

/-- The merge, evaluated on what was read. `undefined` is resolved as an empty block. -/
def ConfigRead.merge (v : Validators Runtime Scheduling) (r : ConfigRead Runtime) :
    Except String (MergedConfig Runtime Scheduling) :=
  (v.resolveSchedulingConfig (r.schedulingInput.getD []) (v.mutationConcurrency r.runtime)).map fun scheduling =>
    ⟨r.runtime, scheduling⟩

namespace ConfiguredDispatcher

variable (docs : Documents) (v : Validators Runtime Scheduling) (drainTimeoutMs : Nat)
  (s : ConfiguredDispatcher Runtime Scheduling)

def initial : ConfiguredDispatcher Runtime Scheduling := ⟨.initial, fun _ => none, []⟩

/-- What a call reads now. -/
def read (instanceId : String) : Option (ConfigRead Runtime) :=
  (s.registrar.registry.getDefinition instanceId).map fun definition =>
    ⟨instanceId, definition.runtime, s.registrar.schedulingOf instanceId⟩

def configOf (instanceId : String) :
    Except String (Option (MergedConfig Runtime Scheduling)) × ConfiguredDispatcher Runtime Scheduling :=
  match s.read instanceId with
  | none => (.ok none, s)
  | some r =>
    let s := { s with reads := s.reads ++ [r] }
    let key := configKey instanceId (v.mutationConcurrency r.runtime)
    match s.configCache key with
    | some hit => (.ok (some hit), s)
    | none =>
      match r.merge v with
      | .error e => (.error e, s)
      | .ok merged => (.ok (some merged), { s with configCache := Function.update s.configCache key (some merged) })

/-- The merge of what the registry and the registrar hold now. -/
def uncached (instanceId : String) : Except String (Option (MergedConfig Runtime Scheduling)) :=
  match s.read instanceId with
  | none => .ok none
  | some r => (r.merge v).map some

inductive Action where
  | registrar (a : ApplicationRegistrar.Action)
  | configOf (instanceId : String)

def step : Action → Option (ConfiguredDispatcher Runtime Scheduling)
  | .registrar a => (s.registrar.step docs v drainTimeoutMs a).map fun registrar => { s with registrar := registrar }
  | .configOf instanceId => some (s.configOf v instanceId).2

/-! ## What the cache holds -/

/-- The read whose merge is cached: the first one with this key that could be merged. -/
def firstRead (instanceId : String) (mutationConcurrency : Nat) : Option (ConfigRead Runtime) :=
  s.reads.find? fun r =>
    r.instanceId = instanceId ∧ v.mutationConcurrency r.runtime = mutationConcurrency ∧ (r.merge v).isOk

/-- Each entry is the merge of that read, and there is an entry for each one. -/
def CachesFirst : Prop :=
  ∀ instanceId n,
    s.configCache (configKey instanceId n) = (s.firstRead v instanceId n).bind fun r => (r.merge v).toOption

variable {docs v drainTimeoutMs s}

theorem read_instanceId {instanceId : String} {r : ConfigRead Runtime} (h : s.read instanceId = some r) :
    r.instanceId = instanceId := by
  obtain ⟨d, -, rfl⟩ := Option.map_eq_some_iff.1 h
  rfl

theorem merge_of_firstRead {instanceId : String} {n : Nat} {r : ConfigRead Runtime}
    (h : s.firstRead v instanceId n = some r) : ∃ merged, r.merge v = .ok merged := by
  have := List.find?_some h
  simp only [decide_eq_true_eq] at this
  cases hm : r.merge v with
  | ok merged => exact ⟨merged, rfl⟩
  | error e => simp [hm, Except.isOk, Except.toBool] at this

theorem firstRead_append (r : ConfigRead Runtime) (cache : String → Option (MergedConfig Runtime Scheduling))
    (instanceId : String) (n : Nat) :
    ({ s with reads := s.reads ++ [r], configCache := cache } : ConfiguredDispatcher Runtime Scheduling).firstRead v
        instanceId n =
      (s.firstRead v instanceId n).or
        (if r.instanceId = instanceId ∧ v.mutationConcurrency r.runtime = n ∧ (r.merge v).isOk then some r
          else none) := by
  unfold firstRead
  rw [List.find?_append]
  congr 1
  by_cases h : r.instanceId = instanceId ∧ v.mutationConcurrency r.runtime = n ∧ (r.merge v).isOk <;> simp [h]

theorem CachesFirst.firstRead_none (inv : s.CachesFirst v) {instanceId : String} {n : Nat}
    (h : s.configCache (configKey instanceId n) = none) : s.firstRead v instanceId n = none := by
  rw [inv] at h
  cases hf : s.firstRead v instanceId n with
  | none => rfl
  | some r =>
    obtain ⟨merged, hm⟩ := merge_of_firstRead hf
    simp [hf, hm, Except.toOption] at h

theorem CachesFirst.configOf (inv : s.CachesFirst v) (instanceId : String) :
    (s.configOf v instanceId).2.CachesFirst v := by
  unfold ConfiguredDispatcher.configOf
  split
  · exact inv
  · rename_i r hr
    have hid := read_instanceId hr
    simp only
    split
    · rename_i hit hhit
      intro i n
      rw [firstRead_append]
      change s.configCache (configKey i n) = _
      cases hf : s.firstRead v i n with
      | some r₀ => rw [inv, hf, Option.some_or]
      | none =>
        rw [inv, hf, Option.none_or, if_neg]
        rintro ⟨hi, hn, -⟩
        rw [← hid, hi, hn, inv, hf] at hhit
        cases hhit
    · rename_i hmiss
      have hfirst := inv.firstRead_none hmiss
      split
      · rename_i e he
        intro i n
        rw [firstRead_append, he, if_neg (by simp [Except.isOk, Except.toBool]), Option.or_none]
        exact inv i n
      · rename_i merged hm
        intro i n
        rw [firstRead_append, hm]
        by_cases hkey : r.instanceId = i ∧ v.mutationConcurrency r.runtime = n
        · obtain ⟨rfl, rfl⟩ := hkey
          rw [hid, hfirst, Option.none_or]
          simp [Except.isOk, Except.toBool, hm, Except.toOption]
        · rw [if_neg (fun h => hkey ⟨h.1, h.2.1⟩), Option.or_none]
          have hne : configKey i n ≠ configKey instanceId (v.mutationConcurrency r.runtime) := by
            intro h
            obtain ⟨rfl, rfl⟩ := configKey_injective h
            exact hkey ⟨hid, rfl⟩
          exact (Function.update_of_ne hne _ _).trans (inv i n)

theorem CachesFirst.step {s' : ConfiguredDispatcher Runtime Scheduling} {a : Action} (inv : s.CachesFirst v)
    (h : s.step docs v drainTimeoutMs a = some s') : s'.CachesFirst v := by
  cases a with
  | registrar a =>
    obtain ⟨registrar, -, rfl⟩ := Option.map_eq_some_iff.1 h
    exact inv
  | configOf instanceId =>
    cases h
    exact inv.configOf instanceId

/-! ## The result -/

/-- The read whose merge is served is merged to what is read now. -/
def FirstReadCurrent (v : Validators Runtime Scheduling) (s : ConfiguredDispatcher Runtime Scheduling)
    (instanceId : String) : Prop :=
  ∀ r ∈ s.read instanceId, ∀ r₀ ∈ s.firstRead v instanceId (v.mutationConcurrency r.runtime),
    r₀.runtime = r.runtime ∧
      v.resolveSchedulingConfig (r₀.schedulingInput.getD []) (v.mutationConcurrency r₀.runtime) =
        v.resolveSchedulingConfig (r.schedulingInput.getD []) (v.mutationConcurrency r.runtime)

theorem merge_eq_iff {r r₀ : ConfigRead Runtime} {merged : MergedConfig Runtime Scheduling}
    (h : r₀.merge v = .ok merged) :
    .ok merged = r.merge v ↔
      r₀.runtime = r.runtime ∧
        v.resolveSchedulingConfig (r₀.schedulingInput.getD []) (v.mutationConcurrency r₀.runtime) =
          v.resolveSchedulingConfig (r.schedulingInput.getD []) (v.mutationConcurrency r.runtime) := by
  rw [← h]
  unfold ConfigRead.merge at h ⊢
  cases hs₀ : v.resolveSchedulingConfig (r₀.schedulingInput.getD []) (v.mutationConcurrency r₀.runtime) with
  | error e => simp [hs₀, Except.map] at h
  | ok scheduling₀ =>
    cases hs : v.resolveSchedulingConfig (r.schedulingInput.getD []) (v.mutationConcurrency r.runtime) <;>
      simp [Except.map]

/-- **When the cached config is the uncached one.** In every state that a run reaches, for every
instance; and `undefined` is returned exactly when the instance is not registered. -/
theorem configOf_eq_uncached_iff
    (run : Runs (step docs v drainTimeoutMs) anyStep initial s) (instanceId : String) :
    ((s.configOf v instanceId).1 = s.uncached v instanceId ↔ s.FirstReadCurrent v instanceId) ∧
      ((s.configOf v instanceId).1 = .ok none ↔ s.registrar.registry.getDefinition instanceId = none) := by
  have inv : s.CachesFirst v := by
    refine run.invariant _ ?_ fun _ _ _ inv h _ => inv.step h
    intro i n
    rfl
  unfold ConfiguredDispatcher.configOf uncached FirstReadCurrent
  cases hr : s.read instanceId with
  | none =>
    have hnone := Option.map_eq_none_iff.1 hr
    simp [hnone]
  | some r =>
    have hsome : s.registrar.registry.getDefinition instanceId ≠ none := by
      intro hnone
      simp [read, hnone] at hr
    simp only [hsome, iff_false, Option.mem_some_iff, forall_eq']
    cases hf : s.firstRead v instanceId (v.mutationConcurrency r.runtime) with
    | none =>
      have hmiss : s.configCache (configKey instanceId (v.mutationConcurrency r.runtime)) = none := by
        rw [inv, hf]
        rfl
      simp only [hmiss]
      cases r.merge v <;> simp [Except.map]
    | some r₀ =>
      obtain ⟨merged, hm⟩ := merge_of_firstRead hf
      have hhit : s.configCache (configKey instanceId (v.mutationConcurrency r.runtime)) = some merged := by
        rw [inv, hf, Option.bind_some, hm]
        rfl
      simp only [hhit, Option.mem_some_iff, forall_eq', ← merge_eq_iff hm]
      cases r.merge v <;> simp [Except.map]

/-! Version 1 and version 2 differ in the deadline only. -/

structure SampleRuntime where
  attemptDeadlineMs : Nat
  mutationConcurrency : Nat

def deadlineValidators : Validators SampleRuntime Nat where
  resolveRuntimeConfig fields :=
    match (Json.obj fields).field "attemptDeadlineMs" with
    | some (.num "60000") => .ok ⟨60000, 10⟩
    | _ => .ok ⟨30000, 10⟩
  mutationConcurrency := SampleRuntime.mutationConcurrency
  resolveSchedulingConfig _ _ := .ok 0

def deadlineDocuments : Documents where
  config id version :=
    ⟨id, "fake", "1.0.0", [], some [("attemptDeadlineMs", if version = "v2" then .num "60000" else .num "30000")]⟩
  own _ _ := rfl

def registeredAs (version : String) (awaits : List ApplicationRegistrar.Action) : List Action :=
  .registrar (.ensure 0 "app-1") :: .registrar (.configRead "app-1" (.ok (some version))) ::
    awaits.map .registrar ++ [.registrar (.cleared "app-1")]

/-- The deadline is edited after the first call. -/
def editedDeadline : List Action :=
  registeredAs "v1" [] ++ [.configOf "app-1"] ++ registeredAs "v2" [.drained "app-1", .disposed "app-1"]

theorem stale_config_edited :
    ∃ (s : ConfiguredDispatcher SampleRuntime Nat) (served current : MergedConfig SampleRuntime Nat),
      Runs (step deadlineDocuments deadlineValidators 30000) anyStep initial s ∧
      (s.configOf deadlineValidators "app-1").1 = .ok (some served) ∧ served.runtime.attemptDeadlineMs = 30000 ∧
      s.uncached deadlineValidators "app-1" = .ok (some current) ∧ current.runtime.attemptDeadlineMs = 60000 ∧
      ¬ (s.configOf deadlineValidators "app-1").1 = s.uncached deadlineValidators "app-1" := by
  have h : exec (step deadlineDocuments deadlineValidators 30000) anyStep initial editedDeadline = some _ := rfl
  refine ⟨_, ⟨⟨30000, 10⟩, 0⟩, ⟨⟨60000, 10⟩, 0⟩, runs_of_exec h, rfl, rfl, rfl, rfl, ?_⟩
  intro heq
  have hserved : (Except.ok (some ⟨⟨30000, 10⟩, 0⟩) : Except String (Option (MergedConfig SampleRuntime Nat))) =
      .ok (some ⟨⟨60000, 10⟩, 0⟩) := heq
  simp at hserved

/-- The first call comes after the edit. -/
theorem configOf_eq_uncached_edited :
    ∃ s : ConfiguredDispatcher SampleRuntime Nat,
      exec (step deadlineDocuments deadlineValidators 30000) anyStep initial
        (registeredAs "v1" [] ++ registeredAs "v2" [.drained "app-1", .disposed "app-1"] ++
          [.configOf "app-1"]) = some s ∧
      (s.configOf deadlineValidators "app-1").1 = s.uncached deadlineValidators "app-1" := by
  have h : exec (step deadlineDocuments deadlineValidators 30000) anyStep initial
      (registeredAs "v1" [] ++ registeredAs "v2" [.drained "app-1", .disposed "app-1"] ++ [.configOf "app-1"]) =
      some _ := rfl
  refine ⟨_, h, (configOf_eq_uncached_iff (runs_of_exec h) "app-1").1.2 ?_⟩
  intro r hr r₀ hr₀
  cases hr
  cases hr₀
  exact ⟨rfl, rfl⟩

end ConfiguredDispatcher

end Provisioning
