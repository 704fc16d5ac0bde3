import Provisioning.Ops.Protocol
import Provisioning.Ops.WellFormed

/-!
# Any number of dispatchers over one store

The processes share the database. A claim hands its rows to the process that issued it, each row
starts an attempt, and an attempt ends with its write or with its process. The log records, for
each claim of a row, what its attempt heard and wrote.
-/

namespace Provisioning

open Lib

/-! ## The log -/

inductive Event where
  | claimed (proc : Nat)
  | heard (e : Io) (a : e.Answer)
  /-- `current` is the number of the claim that the row was in when the write was sent. -/
  | wrote (e : Io) (applied : Bool) (current : Nat)
  | died

/-- `claim` counts the claims of the row, from 1. -/
structure Entry where
  row : Uuid
  claim : Nat
  event : Event

def Event.isClaimed : Event → Bool
  | .claimed _ => true
  | _ => false

def Event.isWrote : Event → Bool
  | .wrote .. => true
  | _ => false

/-- The effect that the event is about. -/
def Event.effect : Event → Option Io
  | .heard e _ | .wrote e _ _ => some e
  | _ => none

def claimsOf (log : List Entry) (u : Uuid) : Nat :=
  log.countP fun e => e.row = u ∧ e.event.isClaimed

def Facts.after (f : Facts) : Event → Facts
  | .heard e a => f.hear e a
  | _ => f

/-- What the attempt of this claim has heard. -/
def factsOf (log : List Entry) (u : Uuid) (claim : Nat) : Facts :=
  (log.filter fun e => e.row = u ∧ e.claim = claim).foldl (fun f e => f.after e.event) .nothing

/-! ## Attempts -/

structure Attempt where
  proc : Nat
  op : ClaimedOperation
  row : Uuid
  claim : Nat
  claimedAt : Nat
  prog : Prog Dispatch (Except Failure Unit)

def Attempt.key (att : Attempt) : Uuid × Nat := (att.row, att.claim)

def Entry.key (ent : Entry) : Uuid × Nat := (ent.row, ent.claim)

/-- An answer of the environment to an effect other than a write. -/
inductive Reply where
  | time (t : Nat)
  | lease (r : Except Failure Unit)
  | config (r : Except Failure (Option ResolvedInstanceConfig))
  | capabilities (c : ConnectorCapabilities)
  | schema (r : Except Failure ConnectorSchema)
  | found (r : Except Failure (List ConnectorObject))
  | settled (r : Except Failure (Option ConnectorObject))
  | done

def Reply.accept : (e : Io) → Reply → Option e.Answer
  | .now, .time t => some t
  | .acquire _, .lease r => some r
  | .configOf _, .config r => some r
  | .capabilitiesOf _, .capabilities c => some c
  | .schema, .schema r => some r
  | .search .., .found r => some r
  | .settle _, .settled r => some r
  | .invoke _, .done => some ()
  | .release, .done => some ()
  | .deferLane .., .done => some ()
  | _, _ => none

/-- The statement of a write, in a transaction that began at `began`. -/
def Io.statement (began : Nat) : Io → Option DbAction
  | .finalize id outcome result errorCode => some (.finalize id outcome result errorCode began)
  | .requeue id => some (.requeue id)
  | .deferForReadback id notBefore => some (.deferForReadback id notBefore)
  | _ => none

/-! ## The system -/

structure Deployment where
  db : Db
  attempts : List Attempt
  log : List Entry
  /-- The processes that died. A restarted process has a new number. -/
  dead : List Nat

inductive Action where
  /-- An action of the database that is not one of those below. -/
  | database (a : DbAction)
  /-- Without `delivered` the caller does not get the rows. -/
  | commitClaim (sid : Nat) (delivered : Bool)
  /-- The environment answers attempt number `i`. -/
  | reply (i : Nat) (r : Reply)
  /-- Attempt number `i` sends its write and ends. `began` is `none` when the write fails. -/
  | write (i : Nat) (began : Option Nat)
  | die (proc : Nat)
  | reap (readBackDelayMs began : Nat) (seen : List Uuid)

/-- The database actions that neither claim, nor write back, nor reap, nor drop. -/
def DbAction.isBackground : DbAction → Bool
  | .commitClaim _ | .finalize .. | .requeue _ | .deferForReadback .. | .reapStale .. | .countLive ..
  | .dropPartition _ | .abortDrop _ => false
  | _ => true

/-- A dead process issues no claim. -/
def DbAction.callerIn (dead : List Nat) : DbAction → Bool
  | .beginClaim _ caller _ _ => caller ∈ dead
  | _ => false

namespace Deployment

variable (advisoryLockKey : String → BitVec 64) (cfg : ResolvedDispatcherConfig)

def start (now : Nat) (partitions : List Nat) : Deployment := ⟨Db.start now partitions, [], [], []⟩

/-- The attempt that a returned row starts. -/
def newAttempt (s : Deployment) (c : ClaimStatement) (r : Row × OperationPendingStatus) : Attempt where
  proc := c.caller
  op := r.1.toClaimed r.2
  row := r.1.id
  claim := claimsOf s.log r.1.id + 1
  claimedAt := c.snapshot.now
  prog := (Dispatcher.execute cfg (r.1.toClaimed r.2)).run

def newEntry (s : Deployment) (c : ClaimStatement) (r : Row × OperationPendingStatus) : Entry :=
  ⟨r.1.id, claimsOf s.log r.1.id + 1, .claimed c.caller⟩

def commitClaim (sid : Nat) (delivered : Bool) (s : Deployment) : Option Deployment :=
  match s.db.claim? sid with
  | none => none
  | some c =>
    if delivered ∧ c.caller ∈ s.dead then none
    else
      (s.db.commitClaim sid).map fun db =>
        { s with
          db := db
          attempts := s.attempts ++ if delivered then (s.db.returned sid).map (s.newAttempt cfg c) else []
          log := s.log ++ (s.db.returned sid).map (s.newEntry c) }

def reply (i : Nat) (r : Reply) (s : Deployment) : Option Deployment :=
  match s.attempts[i]? with
  | none => none
  | some att =>
    match att.prog with
    | .pure _ => none
    | .await e k =>
      (r.accept e).map fun a =>
        { s with
          attempts := s.attempts.set i { att with prog := k a }
          log := s.log ++ [⟨att.row, att.claim, .heard e a⟩] }

def write (i : Nat) (began : Option Nat) (s : Deployment) : Option Deployment :=
  match s.attempts[i]? with
  | none => none
  | some att =>
    match att.prog with
    | .pure _ => none
    | .await e _ =>
      match e.statement (began.getD 0) with
      | none => none
      | some a =>
        (if began.isSome then s.db.step advisoryLockKey a else some s.db).map fun db =>
          { s with
            db := db
            attempts := s.attempts.eraseIdx i
            log := s.log ++ [⟨att.row, att.claim, .wrote e began.isSome (claimsOf s.log att.row)⟩] }

def die (proc : Nat) (s : Deployment) : Deployment :=
  { s with
    attempts := s.attempts.filter fun att => att.proc ≠ proc
    log := s.log ++ (s.attempts.filter fun att => att.proc = proc).map fun att => ⟨att.row, att.claim, .died⟩
    dead := s.dead ++ [proc] }

def step (s : Deployment) : Action → Option Deployment
  | .database a =>
    if a.isBackground ∧ ¬ a.callerIn s.dead then
      (s.db.step advisoryLockKey a).map fun db => { s with db := db }
    else none
  | .commitClaim sid delivered => s.commitClaim cfg sid delivered
  | .reply i r => s.reply i r
  | .write i began => s.write advisoryLockKey i began
  | .die proc => some (s.die proc)
  | .reap readBackDelayMs began seen =>
    (s.db.reapStale cfg.reaperThresholdMs readBackDelayMs began seen).map fun db => { s with db := db }

/-- No live attempt is old enough for the reaper. -/
def Timely (s : Deployment) : Prop := ∀ att ∈ s.attempts, s.db.now ≤ att.claimedAt + cfg.reaperThresholdMs

instance (s : Deployment) : Decidable (s.Timely cfg) := inferInstanceAs (Decidable (∀ att ∈ s.attempts, _))

/-- The runs in which each live attempt ends before its row is old enough to be reaped. -/
def staysTimely (_ : Deployment) (_ : Action) (s' : Deployment) : Prop := s'.Timely cfg

instance (s : Deployment) (a : Action) (s' : Deployment) : Decidable (staysTimely cfg s a s') :=
  inferInstanceAs (Decidable (s'.Timely cfg))

/-! ## What one step can do -/

inductive Stepped (s : Deployment) : Action → Deployment → Prop
  | database {a : DbAction} {db : Db} (background : a.isBackground) (alive : ¬ a.callerIn s.dead)
      (h : s.db.Stepped advisoryLockKey a db) : Stepped s (.database a) { s with db := db }
  | committed {sid : Nat} {c : ClaimStatement} {delivered : Bool} (hc : s.db.claim? sid = some c)
      (done : c.todo = []) (alive : delivered → c.caller ∉ s.dead) :
      Stepped s (.commitClaim sid delivered)
        { s with
          db := (s.db.claimLocked sid c.snapshot.now).endClaim sid
          attempts := s.attempts ++ if delivered then (s.db.returned sid).map (s.newAttempt cfg c) else []
          log := s.log ++ (s.db.returned sid).map (s.newEntry c) }
  | replied {i : Nat} {r : Reply} {before after : List Attempt} {att : Attempt} {e : Io}
      {k : e.Answer → Prog Dispatch (Except Failure Unit)} {a : e.Answer} (hi : s.attempts[i]? = some att)
      (split : s.attempts = before ++ att :: after) (asks : att.prog = .await e k)
      (accepted : r.accept e = some a) :
      Stepped s (.reply i r)
        { s with
          attempts := before ++ { att with prog := k a } :: after
          log := s.log ++ [⟨att.row, att.claim, .heard e a⟩] }
  | wrote {i began : Nat} {before after : List Attempt} {att : Attempt} {e : Io}
      {k : e.Answer → Prog Dispatch (Except Failure Unit)} {a : DbAction} {db : Db}
      (hi : s.attempts[i]? = some att) (split : s.attempts = before ++ att :: after)
      (asks : att.prog = .await e k) (statement : e.statement began = some a)
      (h : s.db.Stepped advisoryLockKey a db) :
      Stepped s (.write i (some began))
        { s with
          db := db
          attempts := before ++ after
          log := s.log ++ [⟨att.row, att.claim, .wrote e true (claimsOf s.log att.row)⟩] }
  | writeLost {i : Nat} {before after : List Attempt} {att : Attempt} {e : Io}
      {k : e.Answer → Prog Dispatch (Except Failure Unit)} {a : DbAction}
      (hi : s.attempts[i]? = some att) (split : s.attempts = before ++ att :: after)
      (asks : att.prog = .await e k) (statement : e.statement 0 = some a) :
      Stepped s (.write i none)
        { s with
          attempts := before ++ after
          log := s.log ++ [⟨att.row, att.claim, .wrote e false (claimsOf s.log att.row)⟩] }
  | died (proc : Nat) : Stepped s (.die proc) (s.die proc)
  | reaped {readBackDelayMs began : Nat} {seen : List Uuid} {db : Db}
      (h : s.db.Stepped advisoryLockKey (.reapStale cfg.reaperThresholdMs readBackDelayMs began seen) db) :
      Stepped s (.reap readBackDelayMs began seen) { s with db := db }

theorem split_at {α : Type} {l : List α} {i : Nat} {x : α} (h : l[i]? = some x) :
    l = l.take i ++ x :: l.drop (i + 1) := by
  obtain ⟨hi, rfl⟩ := List.getElem?_eq_some_iff.1 h
  simp

variable {advisoryLockKey cfg}

theorem stepped {s s' : Deployment} {a : Action} (h : s.step advisoryLockKey cfg a = some s') :
    Stepped advisoryLockKey cfg s a s' := by
  cases a with
  | database a =>
    simp only [step, Option.ite_none_right_eq_some, Option.map_eq_some_iff] at h
    obtain ⟨⟨hback, halive⟩, db, hdb, rfl⟩ := h
    exact .database hback halive (Db.stepped hdb)
  | commitClaim sid delivered =>
    simp only [step, commitClaim] at h
    split at h
    · cases h
    · rename_i c hc
      simp only [Option.ite_none_left_eq_some, Option.map_eq_some_iff, not_and] at h
      obtain ⟨halive, db, hdb, rfl⟩ := h
      simp only [Db.commitClaim, hc, Option.ite_none_right_eq_some, Option.some.injEq] at hdb
      obtain ⟨hdone, rfl⟩ := hdb
      exact .committed hc hdone halive
  | reply i r =>
    simp only [step, reply] at h
    split at h
    · cases h
    · rename_i att hi
      split at h
      · cases h
      · rename_i e k hprog
        obtain ⟨a, ha, rfl⟩ := Option.map_eq_some_iff.1 h
        have hset : s.attempts.set i { att with prog := k a } =
            s.attempts.take i ++ { att with prog := k a } :: s.attempts.drop (i + 1) :=
          List.set_eq_take_append_cons_drop .. |>.trans (if_pos (List.getElem?_eq_some_iff.1 hi).1)
        rw [hset]
        exact .replied hi (split_at hi) hprog ha
  | write i began =>
    simp only [step, write] at h
    split at h
    · cases h
    · rename_i att hi
      split at h
      · cases h
      · rename_i e k hprog
        split at h
        · cases h
        · rename_i a hstmt
          obtain ⟨db, hdb, rfl⟩ := Option.map_eq_some_iff.1 h
          rw [List.eraseIdx_eq_take_drop_succ]
          cases began with
          | none =>
            cases hdb
            exact .writeLost hi (split_at hi) hprog hstmt
          | some began => exact .wrote hi (split_at hi) hprog hstmt (Db.stepped hdb)
  | die proc => cases h; exact .died proc
  | reap readBackDelayMs began seen =>
    obtain ⟨db, hdb, rfl⟩ := Option.map_eq_some_iff.1 h
    exact .reaped (Db.stepped hdb)

end Deployment

end Provisioning
