import Provisioning.Ops.Backoff
import Provisioning.Ops.ReservedSlice

/-!
# Stopping a dispatcher

`stop` without a drain budget waits for the promises that it finds in `inFlight`. A cycle that is in its
claim at that time does not learn of it, and begins what the store returns. The timer of `start`
does no more than call `runCycle`.
-/

namespace Provisioning

open Lib

/-! ## The tasks of a loop and their promises -/

namespace ClaimLoop

variable {L : Type} {mul : ℚ → ℚ → ℚ} {cfg : LoopConfig} {reg : LoopRegistry} {limiter : RateLimiter L}
  {p p' : ClaimLoop L} {a : LoopAction}

/-- The promise of a task is in `inFlight`. -/
def Tracked (p : ClaimLoop L) : Prop := ∀ t ∈ p.tasks, t.no ∈ p.inFlight

theorem Tracked.beginAll (inv : p.Tracked) (ops : List ClaimedOperation) : (p.beginAll ops).Tracked := by
  induction ops generalizing p with
  | nil => exact inv
  | cons op rest ih =>
    refine ih fun t ht => ?_
    rcases List.mem_append.1 ht with hold | hnew
    · exact List.mem_append_left _ (inv t hold)
    · rw [List.mem_singleton.1 hnew]
      exact List.mem_append_right _ (List.mem_singleton_self _)

/-- What a step does to the tasks and promises, unless it begins some. -/
structure Settles (p : ClaimLoop L) (a : LoopAction) (p' : ClaimLoop L) : Prop where
  stopped : p.stopped → p'.stopped
  tasks : p'.tasks = p.tasks ∨ ∃ i t, a = .settled i ∧ p.tasks[i]? = some t ∧ p'.tasks = p.tasks.eraseIdx i
  inFlight : p'.inFlight.Sublist p.inFlight

theorem Stepped.settles (h : Stepped mul cfg reg limiter p a p') (other : ∀ k ops, a ≠ .claimed k ops) :
    p.Settles a p' := by
  cases h with
  | skipped | sampled | claimFailed | deferLane => exact ⟨id, .inl rfl, .refl _⟩
  | @started now =>
    obtain ⟨_, heq⟩ := maybeReap_eq cfg p now
    rw [heq]
    exact ⟨id, .inl rfl, .refl _⟩
  | @reaped k now =>
    obtain ⟨_, _, _, _, heq⟩ := offer_eq mul reg limiter p k now
    rw [heq]
    exact ⟨id, .inl rfl, .refl _⟩
  | claimed => exact absurd rfl (other _ _)
  | settled hi => exact ⟨id, .inr ⟨_, _, rfl, hi, rfl⟩, .refl _⟩
  | forgotten => exact ⟨id, .inl rfl, List.eraseIdx_sublist _ _⟩
  | stop => exact ⟨fun _ => rfl, .inl rfl, .refl _⟩

theorem Tracked.step (inv : p.Tracked) (h : Stepped mul cfg reg limiter p a p') : p'.Tracked := by
  cases h with
  | skipped | sampled | claimFailed | deferLane | stop => exact inv
  | @started now =>
    obtain ⟨_, heq⟩ := maybeReap_eq cfg p now
    rw [heq]
    exact inv
  | @reaped k now =>
    obtain ⟨_, _, _, _, heq⟩ := offer_eq mul reg limiter p k now
    rw [heq]
    exact inv
  | claimed => exact inv.beginAll _
  | settled => exact fun t ht => inv t (List.mem_of_mem_eraseIdx ht)
  | @forgotten i no hi done =>
    intro t ht
    have hne : t.no ≠ no := fun heq => done (heq ▸ List.mem_map_of_mem ht)
    obtain ⟨hlt, rfl⟩ := List.getElem?_eq_some_iff.1 hi
    have hmem := (List.getElem_cons_eraseIdx_perm hlt).mem_iff.2 (inv t ht)
    exact (List.mem_cons.1 hmem).resolve_left hne

end ClaimLoop

/-! ## The attempts of a process -/

namespace Fleet

variable {L : Type} {advisoryLockKey : String → BitVec 64} {cfg : ResolvedDispatcherConfig} {mul : ℚ → ℚ → ℚ}
  {loopCfg : LoopConfig} {limiter : RateLimiter L} {s s' : Fleet L} {act : FleetAction} {proc : Nat}

def attemptsAt (s : Fleet L) (proc : Nat) (id : String) : Nat :=
  s.deployment.attempts.countP fun att => att.proc = proc ∧ att.op.id = id

def tasksAt (s : Fleet L) (proc : Nat) (id : String) : Nat := (s.loops proc).tasks.countP fun t => t.op.id = id

/-- The attempts of a process are tasks of its loop. -/
def Covered (s : Fleet L) (proc : Nat) : Prop := ∀ id, s.attemptsAt proc id ≤ s.tasksAt proc id

variable (cfg proc) in
theorem countP_newAttempt (d : Deployment) (c : ClaimStatement) (rows : List (Row × OperationPendingStatus))
    (id : String) :
    (rows.map (d.newAttempt cfg c)).countP (fun att => att.proc = proc ∧ att.op.id = id) =
      if c.caller = proc then (rows.map fun r => r.1.toClaimed r.2).countP (fun op => op.id = id) else 0 := by
  rw [List.countP_map, List.countP_map]
  unfold Deployment.newAttempt
  by_cases hproc : c.caller = proc
  · simp [Function.comp_def, hproc]
  · simp [Function.comp_def, hproc]

theorem countP_tasks_beginAll (p : ClaimLoop L) (ops : List ClaimedOperation) (id : String) :
    (p.beginAll ops).tasks.countP (fun t => t.op.id = id) =
      p.tasks.countP (fun t => t.op.id = id) + ops.countP (fun op => op.id = id) := by
  have htally := ClaimLoop.tally_beginAll (p := p) (fun op => op.id = id) ops
  unfold ClaimLoop.tally at htally
  exact_mod_cast htally

theorem attempts_le {d d' : Deployment} {a : Action} (h : Deployment.Stepped advisoryLockKey cfg d a d')
    (other : ∀ sid, a ≠ .commitClaim sid true) (id : String) :
    d'.attempts.countP (fun att => att.proc = proc ∧ att.op.id = id) ≤
      d.attempts.countP (fun att => att.proc = proc ∧ att.op.id = id) := by
  cases h with
  | database | reaped => exact le_rfl
  | @committed sid c delivered =>
    cases delivered with
    | false => simp
    | true => exact absurd rfl (other sid)
  | replied _ split =>
    rw [split]
    simp [List.countP_cons]
  | wrote _ split | writeLost _ split =>
    rw [split]
    simp [List.countP_cons]
  | died => exact List.filter_sublist.countP_le

theorem Covered.deployment (inv : s.Covered proc) {a : Action}
    (h : Deployment.Stepped advisoryLockKey cfg s.deployment a s'.deployment)
    (other : ∀ sid, a ≠ .commitClaim sid true) (tasks : (s'.loops proc).tasks = (s.loops proc).tasks) :
    s'.Covered proc := by
  intro id
  unfold tasksAt
  rw [tasks]
  exact (attempts_le h other id).trans (inv id)

theorem Covered.same (inv : s.Covered proc) (deployment : s'.deployment = s.deployment)
    (tasks : (s'.loops proc).tasks = (s.loops proc).tasks) : s'.Covered proc := by
  intro id
  unfold attemptsAt tasksAt
  rw [deployment, tasks]
  exact inv id

theorem tasks_setLoop {q : Nat} {p : ClaimLoop L} (tasks : p.tasks = (s.loops q).tasks) :
    ((s.setLoop q p).loops proc).tasks = (s.loops proc).tasks := by
  unfold setLoop
  dsimp only
  split
  · rename_i heq
    rw [tasks, heq]
  · rfl

theorem Covered.deliver (inv : s.Covered proc) {sid k : Nat} {c : ClaimStatement} {d : Deployment}
    (hc : s.db.claim? sid = some c) (h : s.deployment.step advisoryLockKey cfg (.commitClaim sid true) = some d)
    (loops : s'.loops = (s.deliver c.caller k ((s.db.returned sid).map fun r => r.1.toClaimed r.2)).loops)
    (deployment : s'.deployment = d) : s'.Covered proc := by
  intro id
  have hold := inv id
  unfold attemptsAt tasksAt at hold ⊢
  rw [deployment, loops]
  cases Deployment.stepped h with
  | committed hc' =>
    obtain rfl := Option.some.inj (hc.symm.trans hc')
    have hnew := countP_newAttempt cfg proc s.deployment c (s.db.returned sid) id
    unfold Fleet.deliver setSent setLoop
    dsimp only
    rw [if_pos rfl, List.countP_append]
    by_cases hproc : proc = c.caller
    · rw [if_pos hproc.symm] at hnew
      rw [if_pos hproc, ← hproc]
      change _ ≤ ((s.loops proc).beginAll _).tasks.countP _
      rw [countP_tasks_beginAll]
      exact Nat.add_le_add hold hnew.le
    · rw [if_neg (Ne.symm hproc)] at hnew
      rw [if_neg hproc]
      exact (Nat.add_le_add hold hnew.le)

/-- A task settles after its attempt, so what is left covers the attempts that are left. -/
theorem Covered.loop (inv : s.Covered proc) {reg : LoopRegistry} {a : ClaimLoop.LoopAction} {p : ClaimLoop L}
    (may : s.mayStep proc a) (h : (s.loops proc).step mul loopCfg reg limiter a = some p) :
    (s.setLoop proc p).Covered proc := by
  intro id
  have hloop : (s.setLoop proc p).loops proc = p := if_pos rfl
  have other : ∀ k ops, a ≠ .claimed k ops := by
    rintro k ops rfl
    simp [mayStep] at may
  unfold tasksAt
  rw [hloop]
  rcases ((ClaimLoop.stepped h).settles other).tasks with heq | ⟨i, t, rfl, hi, heq⟩
  · rw [heq]
    exact inv id
  · rw [heq]
    have hold := inv id
    obtain ⟨hlt, rfl⟩ := List.getElem?_eq_some_iff.1 hi
    have hcount := (List.getElem_cons_eraseIdx_perm hlt).countP_eq fun t => decide (t.op.id = id)
    simp only [mayStep, hi, Option.any_some, decide_eq_true_eq] at may
    unfold tasksAt at hold
    rw [List.countP_cons] at hcount
    by_cases hid : (s.loops proc).tasks[i].op.id = id
    · subst hid
      change s.attemptsAt proc _ < _ at may
      simp only [decide_true, if_true] at hcount
      change s.attemptsAt proc _ ≤ _
      omega
    · simp only [hid, decide_false, Bool.false_eq_true, if_false] at hcount
      change s.attemptsAt proc _ ≤ _
      omega

theorem Covered.step (inv : s.Covered proc) (h : Stepped advisoryLockKey cfg mul loopCfg limiter s act s') :
    s'.Covered proc := by
  cases h with
  | deployment alone h =>
    refine inv.deployment (Deployment.stepped h) ?_ rfl
    rintro sid rfl
    simp [standsAlone] at alone
  | @loop proc' _ _ p _ may h =>
    by_cases hproc : proc = proc'
    · subst hproc
      exact inv.loop may h
    · exact inv.same rfl (congrArg ClaimLoop.tasks (if_neg hproc))
  | begun _ _ h => exact inv.deployment (Deployment.stepped h) (by simp) rfl
  | @turnedAway q k => exact inv.same rfl (tasks_setLoop (p := (s.loops q).endCycle k) rfl)
  | @claimFailed q k => exact inv.same rfl (tasks_setLoop (p := (s.loops q).endCycle k) rfl)
  | lost _ h => exact inv.deployment (Deployment.stepped h) (by simp) rfl
  | delivered hc _ _ h => exact inv.deliver hc h rfl rfl
  | deferred _ _ _ _ h => exact inv.deployment (Deployment.stepped h) (by simp) (tasks_setLoop rfl)

/-! ## The memory of a process -/

theorem Stepped.tracked (h : Stepped advisoryLockKey cfg mul loopCfg limiter s act s')
    (inv : (s.loops proc).Tracked) : (s'.loops proc).Tracked := by
  have here {q : Nat} {p : ClaimLoop L} (hp : (s.loops q).Tracked → p.Tracked) :
      ((s.setLoop q p).loops proc).Tracked := by
    unfold setLoop
    dsimp only
    split
    · rename_i heq
      exact hp (heq ▸ inv)
    · exact inv
  cases h with
  | deployment | begun | lost => exact inv
  | loop _ _ h => exact here fun hp => hp.step (ClaimLoop.stepped h)
  | turnedAway | claimFailed => exact here fun hp => hp
  | delivered => exact here fun hp => hp.beginAll _
  | deferred => exact here fun hp => hp

/-- No rows are returned to the process once `stop` has been called. -/
def comesBackEmpty (proc : Nat) (s : Fleet L) : FleetAction → Prop
  | .commitClaim sid _ true => ∀ c ∈ s.db.claim? sid, c.caller = proc → (s.loops proc).stopped → s.db.returned sid = []
  | _ => True

instance (proc : Nat) (s : Fleet L) (act : FleetAction) : Decidable (comesBackEmpty proc s act) :=
  match act with
  | .commitClaim sid _ true => inferInstanceAs (Decidable (∀ c ∈ s.db.claim? sid, _ → _ → _))
  | .commitClaim _ _ false | .deployment _ | .loop .. | .beginClaim .. | .turnedAway .. | .claimFailed ..
  | .deferLane .. => .isTrue trivial

theorem Stepped.still_stopped (h : Stepped advisoryLockKey cfg mul loopCfg limiter s act s')
    (empty : s.comesBackEmpty proc act) (stopped : (s.loops proc).stopped) :
    (s'.loops proc).stopped ∧ (s'.loops proc).inFlight.Sublist (s.loops proc).inFlight := by
  have here {q : Nat} {p : ClaimLoop L} (hp : q = proc → p.stopped ∧ p.inFlight.Sublist (s.loops proc).inFlight) :
      ((s.setLoop q p).loops proc).stopped ∧
        ((s.setLoop q p).loops proc).inFlight.Sublist (s.loops proc).inFlight := by
    unfold setLoop
    dsimp only
    split
    · rename_i heq
      exact hp heq.symm
    · exact ⟨stopped, .refl _⟩
  cases h with
  | deployment | begun | lost => exact ⟨stopped, .refl _⟩
  | @loop q _ a p _ may h =>
    refine here fun heq => ?_
    subst heq
    have other : ∀ k ops, a ≠ .claimed k ops := by
      rintro k ops rfl
      simp [mayStep] at may
    have settles := (ClaimLoop.stepped h).settles other
    exact ⟨settles.stopped stopped, settles.inFlight⟩
  | turnedAway | claimFailed | deferred =>
    refine here fun heq => ?_
    subst heq
    exact ⟨stopped, .refl _⟩
  | delivered hc =>
    refine here fun heq => ?_
    rw [empty _ hc heq stopped, heq]
    exact ⟨stopped, .refl _⟩

end Fleet

/-! ## The system -/

/-- A fleet with the calls of `stop` that have no drain budget. -/
structure StoppedFleet (L : Type) where
  fleet : Fleet L
  /-- The calls that have not resolved, each with the promises that it awaits. -/
  stops : Nat → List (List Nat)
  resolved : Nat → Bool

inductive StopAction where
  | fleet (act : FleetAction)
  /-- Call number `j` of `stop` in the process resolves. -/
  | resolve (proc j : Nat)

namespace StoppedFleet

variable {L : Type} (advisoryLockKey : String → BitVec 64) (cfg : ResolvedDispatcherConfig) (mul : ℚ → ℚ → ℚ)
  (loopCfg : LoopConfig) (limiter : RateLimiter L) (s : StoppedFleet L)

def start (now : Nat) (partitions : List Nat) : StoppedFleet L :=
  ⟨Fleet.start now partitions, fun _ => [], fun _ => false⟩

def called : FleetAction → Nat → List (List Nat)
  | .loop proc _ .stop => fun q => if q = proc then s.stops q ++ [(s.fleet.loops q).inFlight] else s.stops q
  | _ => s.stops

/-- `inFlight` forgets a promise before `allSettled` hears of it, which came to it later. -/
def resolve (proc j : Nat) : Option (StoppedFleet L) :=
  match (s.stops proc)[j]? with
  | none => none
  | some awaited =>
    if s.fleet.alive proc ∧ ∀ no ∈ awaited, no ∉ (s.fleet.loops proc).inFlight then
      some { s with
        stops := fun q => if q = proc then (s.stops q).eraseIdx j else s.stops q
        resolved := fun q => if q = proc then true else s.resolved q }
    else none

def step (s : StoppedFleet L) : StopAction → Option (StoppedFleet L)
  | .fleet act =>
    (s.fleet.step advisoryLockKey cfg mul loopCfg limiter act).map fun f =>
      { s with fleet := f, stops := s.called act }
  | .resolve proc j => s.resolve proc j

/-! ## What one step can do -/

inductive Stepped : StopAction → StoppedFleet L → Prop
  | fleet {act : FleetAction} {f : Fleet L} (h : Fleet.Stepped advisoryLockKey cfg mul loopCfg limiter s.fleet act f) :
      Stepped (.fleet act) { s with fleet := f, stops := s.called act }
  | resolved {proc j : Nat} {awaited : List Nat} (hj : (s.stops proc)[j]? = some awaited)
      (settled : ∀ no ∈ awaited, no ∉ (s.fleet.loops proc).inFlight) :
      Stepped (.resolve proc j)
        { s with
          stops := fun q => if q = proc then (s.stops q).eraseIdx j else s.stops q
          resolved := fun q => if q = proc then true else s.resolved q }

variable {advisoryLockKey cfg mul loopCfg limiter s} {s' : StoppedFleet L} {a : StopAction} {proc : Nat}

theorem stepped (h : s.step advisoryLockKey cfg mul loopCfg limiter a = some s') :
    Stepped advisoryLockKey cfg mul loopCfg limiter s a s' := by
  cases a with
  | fleet act =>
    obtain ⟨f, hf, rfl⟩ := Option.map_eq_some_iff.1 h
    exact .fleet (Fleet.stepped hf)
  | resolve proc j =>
    simp only [step, resolve] at h
    split at h
    · simp at h
    · rename_i awaited hj
      simp only [Option.ite_none_right_eq_some, Option.some.injEq] at h
      obtain ⟨⟨-, settled⟩, rfl⟩ := h
      exact .resolved hj settled

/-! ## The invariant -/

def comesBackEmpty (proc : Nat) (s : StoppedFleet L) (a : StopAction) (_ : StoppedFleet L) : Prop :=
  match a with
  | .fleet act => s.fleet.comesBackEmpty proc act
  | .resolve .. => True

instance (proc : Nat) (s : StoppedFleet L) (a : StopAction) (s' : StoppedFleet L) :
    Decidable (comesBackEmpty proc s a s') :=
  match a with
  | .fleet act => inferInstanceAs (Decidable (s.fleet.comesBackEmpty proc act))
  | .resolve .. => .isTrue trivial

structure Drains (s : StoppedFleet L) (proc : Nat) : Prop where
  covered : s.fleet.Covered proc
  tracked : (s.fleet.loops proc).Tracked
  awaited : ∀ awaited ∈ s.stops proc, (s.fleet.loops proc).stopped ∧ (s.fleet.loops proc).inFlight ⊆ awaited
  ended : s.resolved proc → (s.fleet.loops proc).stopped ∧ (s.fleet.loops proc).inFlight = []

theorem drains_start (now : Nat) (partitions : List Nat) : (start now partitions : StoppedFleet L).Drains proc where
  covered := by
    intro id
    simp [start, Fleet.start, Deployment.start, Fleet.attemptsAt]
  tracked := by
    intro t ht
    simp [start, Fleet.start, ClaimLoop.start] at ht
  awaited := by simp [start]
  ended := by simp [start]

theorem awaited_called {act : FleetAction} {f : Fleet L}
    (h : Fleet.Stepped advisoryLockKey cfg mul loopCfg limiter s.fleet act f) {awaited : List Nat}
    (hmem : awaited ∈ s.called act proc) :
    awaited ∈ s.stops proc ∨ (f.loops proc).stopped ∧ (f.loops proc).inFlight ⊆ awaited := by
  unfold called at hmem
  split at hmem
  · rename_i q _
    split at hmem
    · rename_i heq
      subst heq
      refine (List.mem_append.1 hmem).imp id fun hnew => ?_
      rw [List.mem_singleton.1 hnew]
      cases h with
      | loop _ _ h =>
        cases ClaimLoop.stepped h
        have hloop : (s.fleet.setLoop proc { s.fleet.loops proc with stopped := true }).loops proc =
          { s.fleet.loops proc with stopped := true } := if_pos rfl
        rw [hloop]
        exact ⟨rfl, List.Subset.refl _⟩
    · exact .inl hmem
  · exact .inl hmem

theorem Drains.step (inv : s.Drains proc) (h : Stepped advisoryLockKey cfg mul loopCfg limiter s a s')
    (empty : comesBackEmpty proc s a s') : s'.Drains proc := by
  cases h with
  | fleet h =>
    have later := h.still_stopped empty
    refine ⟨inv.covered.step h, h.tracked inv.tracked, fun awaited hmem => ?_, fun hended => ?_⟩
    · rcases awaited_called h hmem with hold | hnew
      · obtain ⟨stopped, hsub⟩ := inv.awaited awaited hold
        exact ⟨(later stopped).1, fun no hno => hsub ((later stopped).2.subset hno)⟩
      · exact hnew
    · obtain ⟨stopped, hnil⟩ := inv.ended hended
      obtain ⟨stopped', hsub⟩ := later stopped
      rw [hnil] at hsub
      exact ⟨stopped', List.sublist_nil.1 hsub⟩
  | @resolved q j awaited hj settled =>
    refine ⟨inv.covered, inv.tracked, fun awaited' hmem => ?_, fun hended => ?_⟩
    · dsimp only at hmem
      split at hmem
      · exact inv.awaited awaited' (List.mem_of_mem_eraseIdx hmem)
      · exact inv.awaited awaited' hmem
    · dsimp only at hended
      split at hended
      · rename_i heq
        subst heq
        obtain ⟨stopped, hsub⟩ := inv.awaited awaited (List.mem_of_getElem? hj)
        exact ⟨stopped, List.eq_nil_iff_forall_not_mem.2 fun no hno => settled no (hsub hno) hno⟩
      · exact inv.ended hended

/-! ## The result -/

/-- **Nothing starts after `stop`** in the runs in which a claim that comes back after the call is empty. An
attempt that there is not acquires no lease, and calls no facade. -/
theorem nothing_after_stop {now : Nat} {partitions : List Nat}
    (run : Runs (step advisoryLockKey cfg mul loopCfg limiter) (comesBackEmpty proc) (start now partitions) s)
    (resolved : s.resolved proc) :
    (s.fleet.loops proc).inFlight = [] ∧ ∀ att ∈ s.fleet.deployment.attempts, att.proc ≠ proc := by
  have inv : s.Drains proc :=
    run.invariant (Drains · proc) (drains_start now partitions) fun _ _ _ inv h empty => inv.step (stepped h) empty
  obtain ⟨-, hnil⟩ := inv.ended resolved
  refine ⟨hnil, fun att hatt hproc => ?_⟩
  have hattempts : 0 < s.fleet.attemptsAt proc att.op.id :=
    List.countP_pos_iff.2 ⟨att, hatt, decide_eq_true ⟨hproc, rfl⟩⟩
  obtain ⟨t, ht, -⟩ := List.countP_pos_iff.1 (hattempts.trans_le (inv.covered att.op.id))
  have hno := inv.tracked t ht
  rw [hnil] at hno
  simp at hno

/-! ## A claim that comes back late -/

/-- The attempt has asked for a lease or called the facade. -/
def waitsForTarget (att : Attempt) : Bool :=
  match att.prog with
  | .await (.acquire _) _ | .await .schema _ | .await (.search ..) _ | .await (.invoke _) _
  | .await (.settle _) _ => true
  | _ => false

def workWaits : List StopAction :=
  (Deployment.submitted 1 (Deployment.request .update) 7).map fun a => .fleet (.deployment a)

/-- `stop` resolves at once, and then the store returns the row. -/
def stoppedInClaim : List StopAction :=
  workWaits ++ (Fleet.cycle 1 1 0).map .fleet ++ [.fleet (.loop 1 Fleet.oneInstance .stop), .resolve 1 0] ++
    [.fleet (.deployment (.database (.lockRow 1 7 false))), .fleet (.commitClaim 1 0 true)] ++
    (Deployment.replied 0 [.lease (.ok ()), .config (.ok (some Deployment.someRuntime)), .time 0, .done]).map
      fun a => .fleet (.deployment a)

theorem attempt_after_stop :
    ∃ s, Runs (step (fun _ => 0) .DEFAULTS (· * ·) .DEFAULTS Fleet.unlimited) anyStep (start 0 [0]) s ∧
      s.resolved 1 ∧ (s.fleet.loops 1).inFlight = [0] ∧
      s.fleet.deployment.attempts.map (fun att => (att.proc, waitsForTarget att)) = [(1, true)] := by
  have h : (exec (step (fun _ => 0) .DEFAULTS (· * ·) .DEFAULTS Fleet.unlimited) anyStep (start 0 [0])
      stoppedInClaim).map (fun s => (s.resolved 1, (s.fleet.loops 1).inFlight,
        s.fleet.deployment.attempts.map fun att => (att.proc, waitsForTarget att))) =
          some (true, [0], [(1, true)]) := by
    decide +kernel
  obtain ⟨s, hs, heq⟩ := Option.map_eq_some_iff.1 h
  obtain ⟨hresolved, heq⟩ := Prod.mk.inj heq
  obtain ⟨hinFlight, hattempts⟩ := Prod.mk.inj heq
  exact ⟨s, runs_of_exec hs, hresolved, hinFlight, hattempts⟩

/-- `stop` waits for the attempt that it finds. -/
def stoppedInAttempt : List StopAction :=
  workWaits ++ (Fleet.claims 1 1 0 7).map .fleet ++ [.fleet (.loop 1 Fleet.oneInstance .stop)] ++
    (Deployment.replied 0 [.lease (.error (.other "gone"))]).map (fun a => .fleet (.deployment a)) ++
    [.fleet (.deployment (.write 0 (some 0))), .fleet (.loop 1 Fleet.oneInstance (.settled 0)),
      .fleet (.loop 1 Fleet.oneInstance (.forgotten 0)), .resolve 1 0]

theorem nothing_after_stop_waited :
    ∃ s : StoppedFleet Unit, s.resolved 1 ∧
      (s.fleet.loops 1).inFlight = [] ∧ ∀ att ∈ s.fleet.deployment.attempts, att.proc ≠ 1 := by
  have h : (exec (step (fun _ => 0) .DEFAULTS (· * ·) .DEFAULTS Fleet.unlimited) (comesBackEmpty 1) (start 0 [0])
      stoppedInAttempt).map (·.resolved 1) = some true := by
    decide +kernel
  obtain ⟨s, hs, hresolved⟩ := Option.map_eq_some_iff.1 h
  exact ⟨s, hresolved, nothing_after_stop (runs_of_exec hs) hresolved⟩

end StoppedFleet

end Provisioning
