import Provisioning.Ops.ClaimLoop
import Provisioning.Ops.Deployment

/-!
# Any number of dispatchers and their memories

The processes of a deployment, each with the memory of its claim loop. A process that restarts is a
process with another number, and begins with an empty memory. The clocks of the processes and of the
database show one time.
-/

namespace Provisioning

open Lib

/-! ## The log -/

/-- An attempt has resolved to `REQUEUE` with a delay. -/
structure Backoff where
  instanceId : String
  laneKey : String
  until' : Nat
  deriving DecidableEq

/-- The log of the backoffs, and of the claims with their `claimed_at`. -/
inductive LaneEvent where
  | backedOff (b : Backoff)
  | claimed (instanceId laneKey : String) (claimedAt : Nat)
  deriving DecidableEq

def LaneEvent.backoff? : LaneEvent → Option Backoff
  | .backedOff b => some b
  | .claimed .. => none

/-! ## The system -/

/-- The memories have limiters of type `L`. -/
structure Fleet (L : Type) where
  deployment : Deployment
  loops : Nat → ClaimLoop L
  /-- The statement that the call of `claimBatch` of a process has sent. -/
  sent : Nat → Option Nat
  lanes : List LaneEvent

inductive FleetAction where
  /-- An action of the deployment that is not one of those below. -/
  | deployment (a : Action)
  /-- A step of the claim loop of a process. `reg` is its registry at the time. -/
  | loop (proc : Nat) (reg : LoopRegistry) (a : ClaimLoop.LoopAction)
  /-- Cycle `k` of the process sends the statement of its `claimBatch`. -/
  | beginClaim (proc sid k : Nat) (tie : Uuid → Nat)
  /-- Its `claimBatch` returns early. -/
  | turnedAway (proc k : Nat)
  /-- Its `claimBatch` throws. The statement may go on. -/
  | claimFailed (proc k : Nat)
  /-- The statement commits. With `delivered`, its rows are returned to cycle `k`. -/
  | commitClaim (sid k : Nat) (delivered : Bool)
  /-- Attempt number `i`, which is task `j` of its process, puts its lane off. -/
  | deferLane (i j : Nat)

def Reply.onTime (now : Nat) : Reply → Bool
  | .time t => t = now
  | _ => true

/-- The attempt is about to put its lane off. -/
def Attempt.defers (att : Attempt) : Bool :=
  match att.prog with
  | .await (.deferLane ..) _ => true
  | _ => false

namespace Fleet

variable {L : Type} (advisoryLockKey : String → BitVec 64) (cfg : ResolvedDispatcherConfig) (mul : ℚ → ℚ → ℚ)
  (loopCfg : LoopConfig) (limiter : RateLimiter L) (s : Fleet L)

def start (now : Nat) (partitions : List Nat) : Fleet L :=
  ⟨Deployment.start now partitions, fun _ => ClaimLoop.start, fun _ => none, []⟩

def db : Db := s.deployment.db

def backoffs : List Backoff := s.lanes.filterMap LaneEvent.backoff?

def alive (proc : Nat) : Bool := proc ∉ s.deployment.dead

/-- The arguments of the `claimBatch` that cycle `k` awaits. -/
def args? (proc k : Nat) : Option ClaimArgs :=
  match (s.loops proc).cycles[k]? with
  | some (.claiming args) => some args
  | _ => none

def setLoop (proc : Nat) (p : ClaimLoop L) : Fleet L :=
  { s with loops := fun q => if q = proc then p else s.loops q }

def setSent (proc : Nat) (sid : Option Nat) : Fleet L :=
  { s with sent := fun q => if q = proc then sid else s.sent q }

/-! ## Steps -/

/-- An action that no process of the fleet has a part in but by its attempts. -/
def standsAlone : Action → Bool
  | .database (.beginClaim ..) | .commitClaim .. => false
  | .reply i r => r.onTime s.db.now ∧ ¬ s.deployment.attempts[i]?.any Attempt.defers
  | _ => true

/-- A task settles after its attempt. -/
def mayStep (proc : Nat) : ClaimLoop.LoopAction → Bool
  | .runCycle now | .reaped _ now | .sampled _ now => now = s.db.now
  | .settled i => (s.loops proc).tasks[i]?.any fun t =>
    s.deployment.attempts.countP (fun att => att.proc = proc ∧ att.op.id = t.op.id) <
      (s.loops proc).tasks.countP fun t' => t'.op.id = t.op.id
  | .forgotten _ | .stop => true
  | .claimed .. | .claimFailed _ | .deferLane .. => false

def beginClaim (proc sid k : Nat) (tie : Uuid → Nat) : Option (Fleet L) :=
  match s.args? proc k with
  | none => none
  | some args =>
    if (s.sent proc).isSome then none
    else (s.deployment.step advisoryLockKey cfg (.database (.beginClaim sid proc args tie))).map fun d =>
      { s.setSent proc (some sid) with deployment := d }

def turnedAway (proc k : Nat) : Option (Fleet L) :=
  match s.args? proc k with
  | none => none
  | some args =>
    if s.alive proc ∧ s.sent proc = none ∧ (args.caps = [] ∨ args.limit ≤ 0) then
      some (s.setLoop proc ((s.loops proc).endCycle k))
    else none

def claimFailed (proc k : Nat) : Option (Fleet L) :=
  match s.args? proc k with
  | none => none
  | some _ =>
    if s.alive proc then some ((s.setLoop proc ((s.loops proc).endCycle k)).setSent proc none) else none

/-- `claimBatch` returns the operations to cycle `k`. -/
def deliver (proc k : Nat) (ops : List ClaimedOperation) : Fleet L :=
  (s.setLoop proc (((s.loops proc).beginAll ops).endCycle k)).setSent proc none

def claimEvents (c : ClaimStatement) : List LaneEvent :=
  (s.db.returned c.sid).map fun r => .claimed r.1.instanceId r.1.laneKey c.snapshot.now

def commitClaim (sid k : Nat) (delivered : Bool) : Option (Fleet L) :=
  match s.db.claim? sid with
  | none => none
  | some c =>
    if delivered ∧ (s.sent c.caller ≠ some sid ∨ (s.args? c.caller k).isNone) then none
    else
      (s.deployment.step advisoryLockKey cfg (.commitClaim sid delivered)).map fun d =>
        { (if delivered then s.deliver c.caller k ((s.db.returned sid).map fun r => r.1.toClaimed r.2) else s) with
          deployment := d
          lanes := s.lanes ++ s.claimEvents c }

def deferLane (i j : Nat) : Option (Fleet L) :=
  match s.deployment.attempts[i]? with
  | none => none
  | some att =>
    match att.prog with
    | .await (.deferLane lane until') _ =>
      if (s.loops att.proc).tasks[j]?.any fun t => t.op.id = att.op.id ∧ t.op.laneKey = lane then
        (s.deployment.step advisoryLockKey cfg (.reply i .done)).map fun d =>
          { s.setLoop att.proc ((s.loops att.proc).deferLane lane until') with
            deployment := d
            lanes := s.lanes ++ [.backedOff ⟨att.op.instanceId, att.op.laneKey, until'⟩] }
      else none
    | _ => none

def step (s : Fleet L) : FleetAction → Option (Fleet L)
  | .deployment a =>
    if s.standsAlone a then
      (s.deployment.step advisoryLockKey cfg a).map fun d => { s with deployment := d }
    else none
  | .loop proc reg a =>
    if s.alive proc ∧ s.mayStep proc a then
      ((s.loops proc).step mul loopCfg reg limiter a).map (s.setLoop proc)
    else none
  | .beginClaim proc sid k tie => s.beginClaim advisoryLockKey cfg proc sid k tie
  | .turnedAway proc k => s.turnedAway proc k
  | .claimFailed proc k => s.claimFailed proc k
  | .commitClaim sid k delivered => s.commitClaim advisoryLockKey cfg sid k delivered
  | .deferLane i j => s.deferLane advisoryLockKey cfg i j

/-! ## What one step can do -/

inductive Stepped (s : Fleet L) : FleetAction → Fleet L → Prop
  | deployment {a : Action} {d : Deployment} (alone : s.standsAlone a)
      (h : s.deployment.step advisoryLockKey cfg a = some d) :
      Stepped s (.deployment a) { s with deployment := d }
  | loop {proc : Nat} {reg : LoopRegistry} {a : ClaimLoop.LoopAction} {p : ClaimLoop L} (alive : s.alive proc)
      (may : s.mayStep proc a) (h : (s.loops proc).step mul loopCfg reg limiter a = some p) :
      Stepped s (.loop proc reg a) (s.setLoop proc p)
  | begun {proc sid k : Nat} {tie : Uuid → Nat} {args : ClaimArgs} {d : Deployment}
      (hargs : s.args? proc k = some args) (idle : s.sent proc = none)
      (h : s.deployment.step advisoryLockKey cfg (.database (.beginClaim sid proc args tie)) = some d) :
      Stepped s (.beginClaim proc sid k tie) { s.setSent proc (some sid) with deployment := d }
  | turnedAway {proc k : Nat} {args : ClaimArgs} (hargs : s.args? proc k = some args) (alive : s.alive proc)
      (idle : s.sent proc = none) (early : args.caps = [] ∨ args.limit ≤ 0) :
      Stepped s (.turnedAway proc k) (s.setLoop proc ((s.loops proc).endCycle k))
  | claimFailed {proc k : Nat} {args : ClaimArgs} (hargs : s.args? proc k = some args) (alive : s.alive proc) :
      Stepped s (.claimFailed proc k) ((s.setLoop proc ((s.loops proc).endCycle k)).setSent proc none)
  | lost {sid k : Nat} {c : ClaimStatement} {d : Deployment} (hc : s.db.claim? sid = some c)
      (h : s.deployment.step advisoryLockKey cfg (.commitClaim sid false) = some d) :
      Stepped s (.commitClaim sid k false) { s with deployment := d, lanes := s.lanes ++ s.claimEvents c }
  | delivered {sid k : Nat} {c : ClaimStatement} {args : ClaimArgs} {d : Deployment}
      (hc : s.db.claim? sid = some c) (hsent : s.sent c.caller = some sid) (hargs : s.args? c.caller k = some args)
      (h : s.deployment.step advisoryLockKey cfg (.commitClaim sid true) = some d) :
      Stepped s (.commitClaim sid k true)
        { s.deliver c.caller k ((s.db.returned sid).map fun r => r.1.toClaimed r.2) with
          deployment := d
          lanes := s.lanes ++ s.claimEvents c }
  | deferred {i j : Nat} {att : Attempt} {t : Task} {until' : Nat}
      {k : (Io.deferLane t.op.laneKey until').Answer → Prog Dispatch (Except Failure Unit)} {d : Deployment}
      (hi : s.deployment.attempts[i]? = some att) (asks : att.prog = .await (.deferLane t.op.laneKey until') k)
      (hj : (s.loops att.proc).tasks[j]? = some t) (own : t.op.id = att.op.id)
      (h : s.deployment.step advisoryLockKey cfg (.reply i .done) = some d) :
      Stepped s (.deferLane i j)
        { s.setLoop att.proc ((s.loops att.proc).deferLane t.op.laneKey until') with
          deployment := d
          lanes := s.lanes ++ [.backedOff ⟨att.op.instanceId, att.op.laneKey, until'⟩] }

variable {advisoryLockKey cfg mul loopCfg limiter}

theorem stepped {s s' : Fleet L} {a : FleetAction}
    (h : s.step advisoryLockKey cfg mul loopCfg limiter a = some s') :
    Stepped advisoryLockKey cfg mul loopCfg limiter s a s' := by
  cases a with
  | deployment a =>
    simp only [step, Option.ite_none_right_eq_some, Option.map_eq_some_iff] at h
    obtain ⟨alone, d, hd, rfl⟩ := h
    exact .deployment alone hd
  | loop proc reg a =>
    simp only [step, Option.ite_none_right_eq_some, Option.map_eq_some_iff] at h
    obtain ⟨⟨alive, may⟩, p, hp, rfl⟩ := h
    exact .loop alive may hp
  | beginClaim proc sid k tie =>
    simp only [step, beginClaim] at h
    split at h
    · simp at h
    · rename_i args hargs
      simp only [Option.ite_none_left_eq_some, Option.map_eq_some_iff] at h
      obtain ⟨idle, d, hd, rfl⟩ := h
      exact .begun hargs (by simpa using idle) hd
  | turnedAway proc k =>
    simp only [step, turnedAway] at h
    split at h
    · simp at h
    · rename_i args hargs
      simp only [Option.ite_none_right_eq_some, Option.some.injEq] at h
      obtain ⟨⟨alive, idle, early⟩, rfl⟩ := h
      exact .turnedAway hargs alive idle early
  | claimFailed proc k =>
    simp only [step, claimFailed] at h
    split at h
    · simp at h
    · rename_i args hargs
      simp only [Option.ite_none_right_eq_some, Option.some.injEq] at h
      obtain ⟨alive, rfl⟩ := h
      exact .claimFailed hargs alive
  | commitClaim sid k delivered =>
    simp only [step, commitClaim] at h
    split at h
    · simp at h
    · rename_i c hc
      simp only [Option.ite_none_left_eq_some, Option.map_eq_some_iff] at h
      obtain ⟨hears, d, hd, rfl⟩ := h
      cases delivered with
      | false => exact .lost hc hd
      | true =>
        simp only [not_and, not_or, not_not] at hears
        obtain ⟨hsent, hargs⟩ := hears trivial
        obtain ⟨args, hargs⟩ := Option.ne_none_iff_exists'.1 (mt Option.isNone_iff_eq_none.2 hargs)
        exact .delivered hc hsent hargs hd
  | deferLane i j =>
    simp only [step, deferLane] at h
    split at h
    · simp at h
    · rename_i att hi
      split at h
      · rename_i lane until' k asks
        simp only [Option.ite_none_right_eq_some, Option.map_eq_some_iff] at h
        obtain ⟨task, d, hd, rfl⟩ := h
        obtain ⟨t, hj, ht⟩ := (Option.any_eq_true _ _).1 task
        obtain ⟨own, rfl⟩ := of_decide_eq_true ht
        exact .deferred hi asks hj own hd
      · simp at h

theorem standsAlone_db {s : Fleet L} {a : Action} {d : Deployment} (alone : s.standsAlone a)
    (h : s.deployment.step advisoryLockKey cfg a = some d) :
    d.db = s.db ∨ ∃ b, s.db.Stepped advisoryLockKey b d.db ∧
      ∀ sid caller args tie, b ≠ .beginClaim sid caller args tie := by
  cases Deployment.stepped h with
  | database _ _ hdb =>
    refine .inr ⟨_, hdb, ?_⟩
    rintro sid caller args tie rfl
    simp [standsAlone] at alone
  | committed => simp [standsAlone] at alone
  | wrote _ _ _ statement hdb =>
    refine .inr ⟨_, hdb, ?_⟩
    rintro sid caller args tie rfl
    unfold Io.statement at statement
    split at statement
    all_goals simp at statement
  | reaped hdb => exact .inr ⟨_, hdb, by simp⟩
  | replied | writeLost | died => exact .inl rfl

theorem beginClaim_db {s : Fleet L} {proc sid : Nat} {args : ClaimArgs} {tie : Uuid → Nat} {d : Deployment}
    (h : s.deployment.step advisoryLockKey cfg (.database (.beginClaim sid proc args tie)) = some d) :
    s.db.Stepped advisoryLockKey (.beginClaim sid proc args tie) d.db := by
  cases Deployment.stepped h with
  | database _ _ hdb => exact hdb

theorem commitClaim_db {s : Fleet L} {sid : Nat} {delivered : Bool} {d : Deployment}
    (h : s.deployment.step advisoryLockKey cfg (.commitClaim sid delivered) = some d) :
    s.db.Stepped advisoryLockKey (.commitClaim sid) d.db := by
  cases Deployment.stepped h with
  | committed hc done _ => exact .commitClaim hc done

theorem reply_db {s : Fleet L} {i : Nat} {r : Reply} {d : Deployment}
    (h : s.deployment.step advisoryLockKey cfg (.reply i r) = some d) : d.db = s.db := by
  cases Deployment.stepped h with
  | replied => rfl

/-- **A fleet is a deployment** whose claims ask for what the claim loops ask for. -/
theorem deployment_run {ok : Fleet L → FleetAction → Fleet L → Prop} {now : Nat} {partitions : List Nat} {s : Fleet L}
    (run : Runs (step advisoryLockKey cfg mul loopCfg limiter) ok (start now partitions) s) :
    Runs (Deployment.step advisoryLockKey cfg) anyStep (Deployment.start now partitions) s.deployment := by
  induction run with
  | start => exact .start
  | next run taken good ih =>
    cases stepped taken with
    | deployment _ h | begun _ _ h | lost _ h | delivered _ _ _ h | deferred _ _ _ _ h => exact ih.next h trivial
    | loop | turnedAway | claimFailed => exact ih

end Fleet

end Provisioning
