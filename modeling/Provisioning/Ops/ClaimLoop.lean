import Provisioning.Config.Scheduling
import Provisioning.Ops.Claims

/-!
# The claim loop

What a `Dispatcher` keeps in memory, and what `runCycle` does with it between two awaits. The
registry and the rate limiter of the framework are parameters. Metrics are left out, and so is the
backlog sample but for its await.
-/

namespace Provisioning

/-! ## Configuration -/

structure LoopConfig where
  claimBatchSize : Int
  reaperIntervalMs : Nat

def LoopConfig.DEFAULTS : LoopConfig where
  claimBatchSize := 100
  reaperIntervalMs := 60000

/-- The fields of `ResolvedInstanceConfig` that the loop reads. -/
structure InstanceBudget where
  mutationConcurrency : Nat
  interactiveSlots : Int
  batchSlots : Int
  rateLimits : RateLimits

/-- What the loop reads of the registry and of `schedulingOf`. -/
structure LoopRegistry where
  registeredIds : List String
  mutationConcurrency : String → Option Nat
  schedulingOf : String → SchedulingConfigInput

/-- `configOf`. -/
def LoopRegistry.configOf (mul : ℚ → ℚ → ℚ) (reg : LoopRegistry) (instanceId : String) :
    Except Failure (Option InstanceBudget) :=
  match reg.mutationConcurrency instanceId with
  | none => .ok none
  | some n =>
    (resolveSchedulingConfig mul (reg.schedulingOf instanceId) n).map fun c =>
      some ⟨n, c.interactiveSlots, c.batchSlots, c.rateLimits⟩

/-- `RateLimiter` of the framework, with limiters of type `L` and the time of a call. -/
structure RateLimiter (L : Type) where
  new : (capacity : Nat) → (perSecond : ℚ) → (now : Nat) → L
  tryConsume : L → (n now : Nat) → Bool × L

/-! ## Memory -/

/-- A claimed operation whose attempt has not settled. `no` tells the promises apart. -/
structure Task where
  no : Nat
  op : ClaimedOperation

/-- Where a call of `runCycle` awaits. -/
inductive Cycle where
  /-- In `maybeReap`. -/
  | reaping
  /-- In `sampleBacklog`. -/
  | sampling (available : List (String × InstanceAvailability))
  /-- In `claimBatch`. -/
  | claiming (args : ClaimArgs)

structure ClaimLoop (L : Type) where
  activeLanes : List String
  running : String → Option Int
  runningBatch : String → Option Int
  laneDeferredUntil : List (String × Nat)
  limiters : String → Option L
  roundRobinCursor : Nat
  lastReapAt : Nat
  cycleInFlight : Bool
  stopped : Bool
  /-- The calls of `runCycle` that have not returned. -/
  cycles : List Cycle
  tasks : List Task
  /-- The promises in the set `inFlight`. -/
  inFlight : List Nat
  nextTask : Nat

namespace ClaimLoop

variable {L : Type} (mul : ℚ → ℚ → ℚ) (cfg : LoopConfig) (reg : LoopRegistry) (limiter : RateLimiter L)
  (p : ClaimLoop L)

def start : ClaimLoop L where
  activeLanes := []
  running := fun _ => none
  runningBatch := fun _ => none
  laneDeferredUntil := []
  limiters := fun _ => none
  roundRobinCursor := 0
  lastReapAt := 0
  cycleInFlight := false
  stopped := false
  cycles := []
  tasks := []
  inFlight := []
  nextTask := 0

/-- `map.set(key, value)`. -/
def set {α : Type} (map : String → Option α) (key : String) (value : α) : String → Option α :=
  fun k => if k = key then some value else map k

/-- `(x ?? 0) + 1`. -/
def raised (x : Option Int) : Int := x.getD 0 + 1

/-- `Math.max(0, (x ?? 1) - 1)`. -/
def lowered (x : Option Int) : Int := max 0 (x.getD 1 - 1)

/-! ## Availability -/

/-- `limits.create ?? limits.update ?? limits.delete`. -/
def configuredLimit (limits : RateLimits) : Option RateLimit :=
  limits.create.or (limits.update.or limits.delete)

/-- `hasRateLimitTokens`. -/
def hasRateLimitTokens (now : Nat) (instanceId : String) (runtime : InstanceBudget)
    (limiters : String → Option L) : Bool × (String → Option L) :=
  match configuredLimit runtime.rateLimits with
  | none => (true, limiters)
  | some configured =>
    let l := (limiters instanceId).getD
      (limiter.new configured.requestLimit (configured.requestLimit / (configured.requestPeriodMs / 1000)) now)
    let consumed := limiter.tryConsume l 1 now
    (consumed.1, set limiters instanceId consumed.2)

def totalFree (instanceId : String) (runtime : InstanceBudget) : Int :=
  runtime.mutationConcurrency - (p.running instanceId).getD 0

def batchFree (instanceId : String) (runtime : InstanceBudget) : Int :=
  max 0 (min (runtime.batchSlots - (p.runningBatch instanceId).getD 0) (p.totalFree instanceId runtime))

/-- The loop of `computeAvailability`. `configOf` throws when a scheduling block does not resolve. -/
def availabilityFrom (now : Nat) : List String → (String → Option L) →
    Except Failure (List (String × InstanceAvailability)) × (String → Option L)
  | [], limiters => (.ok [], limiters)
  | instanceId :: rest, limiters =>
    match reg.configOf mul instanceId with
    | .error e => (.error e, limiters)
    | .ok none => availabilityFrom now rest limiters
    | .ok (some runtime) =>
      if p.totalFree instanceId runtime ≤ 0 then availabilityFrom now rest limiters
      else
        let consumed := hasRateLimitTokens limiter now instanceId runtime limiters
        let others := availabilityFrom now rest consumed.2
        if consumed.1 then
          (others.1.map fun out =>
            (instanceId, ⟨p.batchFree instanceId runtime, p.totalFree instanceId runtime⟩) :: out, others.2)
        else others

def computeAvailability (now : Nat) : Except Failure (List (String × InstanceAvailability)) × ClaimLoop L :=
  if reg.registeredIds = [] then (.ok [], p)
  else
    let offset := p.roundRobinCursor % reg.registeredIds.length
    let ordered := reg.registeredIds.drop offset ++ reg.registeredIds.take offset
    let out := p.availabilityFrom mul reg limiter now ordered p.limiters
    (out.1, { p with roundRobinCursor := p.roundRobinCursor + 1, limiters := out.2 })

/-! ## Lanes -/

/-- The loop of `excludedLanes` that forgets the backoffs that are over. -/
def forgetDeferrals (now : Nat) : ClaimLoop L :=
  { p with laneDeferredUntil := p.laneDeferredUntil.filter fun d => now < d.2 }

def excludedLanes : List String := (p.activeLanes ++ p.laneDeferredUntil.map Prod.fst).dedup

def deferLane (lane : String) (until' : Nat) : ClaimLoop L :=
  { p with laneDeferredUntil :=
      if p.laneDeferredUntil.any fun d => d.1 = lane then
        p.laneDeferredUntil.map fun d => if d.1 = lane then (lane, until') else d
      else p.laneDeferredUntil ++ [(lane, until')] }

/-! ## Attempts -/

/-- The body of the loop over the claimed operations. -/
def begin (op : ClaimedOperation) : ClaimLoop L :=
  { p with
    activeLanes := if op.laneKey ∈ p.activeLanes then p.activeLanes else p.activeLanes ++ [op.laneKey]
    running := set p.running op.instanceId (raised (p.running op.instanceId))
    runningBatch :=
      if op.priority = .batch then set p.runningBatch op.instanceId (raised (p.runningBatch op.instanceId))
      else p.runningBatch
    tasks := p.tasks ++ [⟨p.nextTask, op⟩]
    inFlight := p.inFlight ++ [p.nextTask]
    nextTask := p.nextTask + 1 }

def beginAll (ops : List ClaimedOperation) : ClaimLoop L := ops.foldl begin p

/-- The `finally` of task number `i`. -/
def settle (i : Nat) (t : Task) : ClaimLoop L :=
  { p with
    activeLanes := p.activeLanes.filter (· ≠ t.op.laneKey)
    running := set p.running t.op.instanceId (lowered (p.running t.op.instanceId))
    runningBatch :=
      if t.op.priority = .batch then
        set p.runningBatch t.op.instanceId (lowered (p.runningBatch t.op.instanceId))
      else p.runningBatch
    tasks := p.tasks.eraseIdx i }

/-! ## Steps -/

inductive LoopAction where
  /-- A call of `runCycle`. -/
  | runCycle (now : Nat)
  /-- `maybeReap` has returned in cycle `k`. -/
  | reaped (k now : Nat)
  /-- `sampleBacklog` has returned. -/
  | sampled (k now : Nat)
  /-- `claimBatch` has returned. -/
  | claimed (k : Nat) (ops : List ClaimedOperation)
  | claimFailed (k : Nat)
  /-- The attempt of task `i` puts its lane off. -/
  | deferLane (i until' : Nat)
  /-- The attempt of task `i` has settled. -/
  | settled (i : Nat)
  /-- The promise `i` of `inFlight` has settled as well. -/
  | forgotten (i : Nat)
  | stop

/-- Cycle `k` returns. -/
def endCycle (k : Nat) : ClaimLoop L := { p with cycleInFlight := false, cycles := p.cycles.eraseIdx k }

/-- The call of `store.reapStale` belongs to the store. -/
def maybeReap (now : Nat) : ClaimLoop L :=
  if now < p.lastReapAt + cfg.reaperIntervalMs then p else { p with lastReapAt := now }

def offer (k now : Nat) : ClaimLoop L :=
  let computed := p.computeAvailability mul reg limiter now
  match computed.1 with
  | .error _ | .ok [] => computed.2.endCycle k
  | .ok available => { computed.2 with cycles := p.cycles.set k (.sampling available) }

def claim (k now : Nat) (available : List (String × InstanceAvailability)) : ClaimLoop L :=
  let pruned := p.forgetDeferrals now
  { pruned with cycles := p.cycles.set k (.claiming ⟨cfg.claimBatchSize, pruned.excludedLanes, available⟩) }

def step (p : ClaimLoop L) : LoopAction → Option (ClaimLoop L)
  | .runCycle now =>
    if p.cycleInFlight ∨ p.stopped then some p
    else
      let p' := p.maybeReap cfg now
      some { p' with cycleInFlight := true, cycles := p.cycles ++ [.reaping] }
  | .reaped k now =>
    match p.cycles[k]? with
    | some .reaping => some (p.offer mul reg limiter k now)
    | _ => none
  | .sampled k now =>
    match p.cycles[k]? with
    | some (.sampling available) => some (p.claim cfg k now available)
    | _ => none
  | .claimed k ops =>
    match p.cycles[k]? with
    | some (.claiming _) => some ((p.beginAll ops).endCycle k)
    | _ => none
  | .claimFailed k =>
    match p.cycles[k]? with
    | some (.claiming _) => some (p.endCycle k)
    | _ => none
  | .deferLane i until' => p.tasks[i]?.map fun t => p.deferLane t.op.laneKey until'
  | .settled i => p.tasks[i]?.map fun t => p.settle i t
  | .forgotten i =>
    match p.inFlight[i]? with
    | none => none
    | some no => if no ∈ p.tasks.map Task.no then none else some { p with inFlight := p.inFlight.eraseIdx i }
  | .stop => some { p with stopped := true }

/-- `claimBatch` returns what the availability that it was given allows. -/
def claimsAllowed (p : ClaimLoop L) (a : LoopAction) (_ : ClaimLoop L) : Prop :=
  match a with
  | .claimed k ops => ∀ args, p.cycles[k]? = some (.claiming args) → args.MayReturn ops
  | _ => True

/-! ## What one step can do -/

inductive Stepped (p : ClaimLoop L) : LoopAction → ClaimLoop L → Prop
  | skipped {now : Nat} (busy : p.cycleInFlight ∨ p.stopped) : Stepped p (.runCycle now) p
  | started {now : Nat} (idle : p.cycleInFlight = false) (running : p.stopped = false) :
      Stepped p (.runCycle now)
        { p.maybeReap cfg now with cycleInFlight := true, cycles := p.cycles ++ [.reaping] }
  | reaped {k now : Nat} (hk : p.cycles[k]? = some .reaping) :
      Stepped p (.reaped k now) (p.offer mul reg limiter k now)
  | sampled {k now : Nat} {available : List (String × InstanceAvailability)}
      (hk : p.cycles[k]? = some (.sampling available)) : Stepped p (.sampled k now) (p.claim cfg k now available)
  | claimed {k : Nat} {args : ClaimArgs} {ops : List ClaimedOperation} (hk : p.cycles[k]? = some (.claiming args)) :
      Stepped p (.claimed k ops) ((p.beginAll ops).endCycle k)
  | claimFailed {k : Nat} {args : ClaimArgs} (hk : p.cycles[k]? = some (.claiming args)) :
      Stepped p (.claimFailed k) (p.endCycle k)
  | deferLane {i until' : Nat} {t : Task} (hi : p.tasks[i]? = some t) :
      Stepped p (.deferLane i until') (p.deferLane t.op.laneKey until')
  | settled {i : Nat} {t : Task} (hi : p.tasks[i]? = some t) : Stepped p (.settled i) (p.settle i t)
  | forgotten {i no : Nat} (hi : p.inFlight[i]? = some no) (done : no ∉ p.tasks.map Task.no) :
      Stepped p (.forgotten i) { p with inFlight := p.inFlight.eraseIdx i }
  | stop : Stepped p .stop { p with stopped := true }

variable {mul cfg reg limiter} {p p' : ClaimLoop L} {a : LoopAction}

theorem beginAll_kept (ops : List ClaimedOperation) :
    (p.beginAll ops).cycles = p.cycles ∧ (p.beginAll ops).limiters = p.limiters ∧
      (p.beginAll ops).laneDeferredUntil = p.laneDeferredUntil := by
  induction ops generalizing p with
  | nil => exact ⟨rfl, rfl, rfl⟩
  | cons op rest ih => exact ih

variable (cfg p) in
theorem maybeReap_eq (now : Nat) : ∃ reapedAt, p.maybeReap cfg now = { p with lastReapAt := reapedAt } := by
  unfold maybeReap
  split
  · exact ⟨_, rfl⟩
  · exact ⟨_, rfl⟩

variable (mul reg limiter p) in
theorem offer_eq (k now : Nat) : ∃ cursor limiters flag cycles, p.offer mul reg limiter k now =
    { p with roundRobinCursor := cursor, limiters := limiters, cycleInFlight := flag, cycles := cycles } := by
  have hcomputed : ∃ cursor limiters, (p.computeAvailability mul reg limiter now).2 =
      { p with roundRobinCursor := cursor, limiters := limiters } := by
    unfold computeAvailability
    split
    · exact ⟨_, _, rfl⟩
    · exact ⟨_, _, rfl⟩
  obtain ⟨cursor, limiters, heq⟩ := hcomputed
  unfold offer endCycle
  dsimp only
  rw [heq]
  split <;> exact ⟨_, _, _, _, rfl⟩

theorem stepped (h : p.step mul cfg reg limiter a = some p') : Stepped mul cfg reg limiter p a p' := by
  cases a with
  | runCycle now =>
    simp only [step] at h
    split at h
    · rename_i busy
      rw [← Option.some.inj h]
      exact .skipped busy
    · rename_i free
      simp only [not_or, Bool.not_eq_true] at free
      rw [← Option.some.inj h]
      exact .started free.1 free.2
  | reaped k now =>
    simp only [step] at h
    split at h
    · rename_i hk
      rw [← Option.some.inj h]
      exact .reaped hk
    · simp at h
  | sampled k now =>
    simp only [step] at h
    split at h
    · rename_i hk
      rw [← Option.some.inj h]
      exact .sampled hk
    · simp at h
  | claimed k ops =>
    simp only [step] at h
    split at h
    · rename_i hk
      rw [← Option.some.inj h]
      exact .claimed hk
    · simp at h
  | claimFailed k =>
    simp only [step] at h
    split at h
    · rename_i hk
      rw [← Option.some.inj h]
      exact .claimFailed hk
    · simp at h
  | deferLane i until' =>
    obtain ⟨t, hi, rfl⟩ := Option.map_eq_some_iff.1 h
    exact .deferLane hi
  | settled i =>
    obtain ⟨t, hi, rfl⟩ := Option.map_eq_some_iff.1 h
    exact .settled hi
  | forgotten i =>
    simp only [step] at h
    split at h
    · simp at h
    · rename_i no hi
      simp only [Option.ite_none_left_eq_some, Option.some.injEq] at h
      obtain ⟨done, rfl⟩ := h
      exact .forgotten hi done
  | stop =>
    rw [← Option.some.inj h]
    exact .stop

end ClaimLoop

end Provisioning
