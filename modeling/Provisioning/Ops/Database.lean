import Provisioning.Lib.Transition
import Provisioning.Ops.ClaimSql

/-!
# The database under concurrent callers

Any number of callers run the statements of the store. Each action is what Postgres does at one
moment: an autocommitted statement is one action, an enqueue is a transaction of several, and a
claim takes its snapshot, then locks the rows one by one, then updates and commits. An error or
the death of a caller aborts its transaction at any point.
-/

namespace Provisioning

open Lib

/-! ## Transactions in flight -/

/-- How far `enqueue` has come after its `BEGIN`. -/
inductive EnqueuePhase where
  | begun
  /-- It holds the advisory lock. -/
  | locked
  /-- The lookup found a row. `COMMIT` is next. -/
  | found (id : Uuid)
  /-- The lookup found nothing. `INSERT` is next. -/
  | missing
  /-- The row is inserted and not yet visible to others. -/
  | inserted (row : Row)

def EnqueuePhase.holdsLock : EnqueuePhase → Bool
  | .begun => false
  | _ => true

/-- The transaction has read or written `operations`. -/
def EnqueuePhase.touchesTable : EnqueuePhase → Bool
  | .begun | .locked => false
  | _ => true

structure EnqueueTxn where
  sid : Nat
  op : EnqueueInput
  startedAt : Nat
  phase : EnqueuePhase

structure ClaimStatement where
  sid : Nat
  caller : Nat
  args : ClaimArgs
  snapshot : Snapshot
  /-- The picked rows that it has not come to yet. -/
  todo : List Uuid

/-- A row lock of a claim, with the `prior_status` that it read. -/
structure RowLock where
  id : Uuid
  sid : Nat
  prior : OperationPendingStatus

/-- A successful call of `enqueue`. -/
structure EnqueueAnswer where
  key : String
  result : EnqueueResult
  deriving DecidableEq

structure Db where
  now : Nat
  tables : Tables
  enqueues : List EnqueueTxn
  claims : List ClaimStatement
  locks : List RowLock
  /-- Every id that `gen_random_uuid()` has returned. -/
  usedIds : List Uuid
  answers : List EnqueueAnswer
  /-- The rows whose inserting call did not hear that its `COMMIT` succeeded. -/
  lostAcks : List Uuid
  /-- The days in which `drop_operations_partition` has counted no live row, and which it is to drop next. -/
  dropping : List Nat

namespace Db

def start (now : Nat) (partitions : List Nat) : Db where
  now := now
  tables := { operations := [], history := [], partitions := partitions }
  enqueues := []
  claims := []
  locks := []
  usedIds := []
  answers := []
  lostAcks := []
  dropping := []

def row? (db : Db) (u : Uuid) : Option Row := db.tables.row? u

/-! ## Enqueue -/

def enqueue? (db : Db) (sid : Nat) : Option EnqueueTxn := lookup EnqueueTxn.sid db.enqueues sid

def setPhase (sid : Nat) (phase : EnqueuePhase) (db : Db) : Db :=
  { db with enqueues := updateWhere (fun e => e.sid = sid) (fun e => { e with phase := phase }) db.enqueues }

def endEnqueue (sid : Nat) (db : Db) : Db :=
  { db with enqueues := db.enqueues.filter fun e => e.sid ≠ sid }

def insertRow (row : Row) (db : Db) : Db :=
  { db with tables := { db.tables with operations := db.tables.operations ++ [row] } }

def answered (key : String) (id : Uuid) (deduplicated : Bool) (db : Db) : Db :=
  { db with answers := db.answers ++ [⟨key, ⟨id.text, deduplicated⟩⟩] }

/-- `BEGIN`. -/
def beginEnqueue (sid : Nat) (op : EnqueueInput) (db : Db) : Option Db :=
  if (db.enqueue? sid).isSome then none
  else some { db with enqueues := db.enqueues ++ [⟨sid, op, db.now, .begun⟩] }

/-- `SELECT pg_advisory_xact_lock($1)`, at the moment when no other transaction holds the lock. -/
def lockKey (advisoryLockKey : String → BitVec 64) (sid : Nat) (db : Db) : Option Db :=
  match db.enqueue? sid with
  | some ⟨_, op, _, .begun⟩ =>
    if ∃ e ∈ db.enqueues,
        e.phase.holdsLock ∧ advisoryLockKey e.op.idempotencyKey = advisoryLockKey op.idempotencyKey then none
    else some (db.setPhase sid .locked)
  | _ => none

def lookupKey (sid : Nat) (db : Db) : Option Db :=
  match db.enqueue? sid with
  | some ⟨_, op, _, .locked⟩ =>
    match db.tables.latestWithKey op.idempotencyKey with
    | some prior => some (db.setPhase sid (.found prior.id))
    | none => some (db.setPhase sid .missing)
  | _ => none

/-- The `INSERT`. Without a partition for the day of `created_at` it is an error. -/
def insertOperation (sid : Nat) (newId : Uuid) (db : Db) : Option Db :=
  match db.enqueue? sid with
  | some ⟨_, op, startedAt, .missing⟩ =>
    if newId ∈ db.usedIds then none
    else if dayOf startedAt ∈ db.tables.partitions then
      some ({ db with usedIds := db.usedIds ++ [newId] }.setPhase sid (.inserted (op.newRow newId startedAt)))
    else some (db.endEnqueue sid)
  | _ => none

/-- `COMMIT`. When it is not acknowledged, the call throws. -/
def commitEnqueue (sid : Nat) (acknowledged : Bool) (db : Db) : Option Db :=
  match db.enqueue? sid with
  | some ⟨_, op, _, .found id⟩ =>
    some (if acknowledged then (db.endEnqueue sid).answered op.idempotencyKey id true
      else db.endEnqueue sid)
  | some ⟨_, op, _, .inserted row⟩ =>
    some (if acknowledged then ((db.endEnqueue sid).insertRow row).answered op.idempotencyKey row.id false
      else { (db.endEnqueue sid).insertRow row with lostAcks := db.lostAcks ++ [row.id] })
  | _ => none

/-- An error, or the end of the connection, at any statement. -/
def abortEnqueue (sid : Nat) (db : Db) : Option Db :=
  if (db.enqueue? sid).isSome then some (db.endEnqueue sid) else none

/-! ## Claim -/

def claim? (db : Db) (sid : Nat) : Option ClaimStatement := lookup ClaimStatement.sid db.claims sid

/-- A call that passes the early return of `claimBatch` sends the statement. -/
def beginClaim (sid caller : Nat) (args : ClaimArgs) (tie : Uuid → Nat) (db : Db) : Option Db :=
  if (db.claim? sid).isSome ∨ args.caps = [] ∨ args.limit ≤ 0 then none
  else
    let snapshot : Snapshot := ⟨db.tables.operations, db.now, tie⟩
    some { db with claims := db.claims ++ [⟨sid, caller, args, snapshot, (snapshot.picked args).map Row.id⟩] }

def visit (sid : Nat) (u : Uuid) (db : Db) : Db :=
  { db with
    claims := updateWhere (fun c => c.sid = sid) (fun c => { c with todo := c.todo.filter (· ≠ u) }) db.claims }

/-- `FOR UPDATE OF o SKIP LOCKED` at one picked row. `busy` says that a statement other than a
claim has the row locked at this moment. -/
def lockRow (sid : Nat) (u : Uuid) (busy : Bool) (db : Db) : Option Db :=
  match db.claim? sid with
  | none => none
  | some c =>
    if u ∉ c.todo then none
    else if busy ∨ ∃ l ∈ db.locks, l.id = u then some (db.visit sid u)
    else
      match (db.row? u).bind Row.lockable with
      | none => some (db.visit sid u)
      | some prior => some { db.visit sid u with locks := db.locks ++ [⟨u, sid, prior⟩] }

def locksOf (db : Db) (sid : Nat) : List RowLock := db.locks.filter fun l => l.sid = sid

def endClaim (sid : Nat) (db : Db) : Db :=
  { db with
    claims := db.claims.filter fun c => c.sid ≠ sid
    locks := db.locks.filter fun l => l.sid ≠ sid }

/-- The `UPDATE` of the locked rows. -/
def claimLocked (sid now : Nat) (db : Db) : Db :=
  { db with tables := { db.tables with
      operations :=
        updateWhere (fun r => ∃ l ∈ db.locksOf sid, l.id = r.id) (Row.claimed now) db.tables.operations } }

def commitClaim (sid : Nat) (db : Db) : Option Db :=
  match db.claim? sid with
  | none => none
  | some c => if c.todo = [] then some ((db.claimLocked sid c.snapshot.now).endClaim sid) else none

/-- The rows of `RETURNING` when statement `sid` commits. -/
def returned (db : Db) (sid : Nat) : List (Row × OperationPendingStatus) :=
  (db.locksOf sid).filterMap fun l => (db.row? l.id).map fun r => (r, l.prior)

def abortClaim (sid : Nat) (db : Db) : Option Db :=
  if (db.claim? sid).isSome then some (db.endClaim sid) else none

/-! ## The other statements -/

/-- `finalize` waits for the lock of a row that a claim has locked. `began` is when the
transaction began. -/
def finalize (id : String) (outcome : OperationOutcome) (result : Option Json) (errorCode : Option String)
    (began : Nat) (db : Db) : Option Db :=
  if began ≤ db.now ∧ ∀ l ∈ db.locks, operationIdOf id ≠ some l.id then
    some { db with tables := (OperationStore.finalize id outcome result errorCode began db.tables).2 }
  else none

def requeue (id : String) (db : Db) : Db :=
  { db with tables := (OperationStore.requeue id db.tables).2 }

def deferForReadback (id : String) (notBefore : Nat) (db : Db) : Db :=
  { db with tables := (OperationStore.deferForReadback id notBefore db.tables).2 }

def reapStale (thresholdMs readBackDelayMs began : Nat) (seen : List Uuid) (db : Db) : Option Db :=
  if began ≤ db.now then
    some { db with tables := (OperationStore.reapStale thresholdMs readBackDelayMs began seen db.tables).2 }
  else none

/-- The first half of `drop_operations_partition`, as the maintenance pass calls it. The count sees what is committed
and waits for nothing. -/
def countLive (day retentionDays : Nat) (db : Db) : Option Db :=
  if 1 ≤ retentionDays ∧ day + retentionDays < dayOf db.now ∧ day ∈ db.tables.partitions then
    some (if db.tables.liveRows day = 0 then { db with dropping := db.dropping ++ [day] } else db)
  else none

/-- The second half. `DROP TABLE` waits for every transaction that has read or written the table, and it does not count
again. -/
def dropPartition (day : Nat) (db : Db) : Option Db :=
  if day ∈ db.dropping ∧ db.claims.isEmpty ∧ ∀ e ∈ db.enqueues, ¬ e.phase.touchesTable then
    some { db with tables := db.tables.dropTable day, dropping := db.dropping.filter (· ≠ day) }
  else none

/-- The pass fails before its `COMMIT`. -/
def abortDrop (day : Nat) (db : Db) : Db := { db with dropping := db.dropping.filter (· ≠ day) }

end Db

/-! ## Steps -/

inductive DbAction where
  | tick (ms : Nat)
  | beginEnqueue (sid : Nat) (op : EnqueueInput)
  | lockKey (sid : Nat)
  | lookupKey (sid : Nat)
  | insertOperation (sid : Nat) (newId : Uuid)
  | commitEnqueue (sid : Nat) (acknowledged : Bool)
  | abortEnqueue (sid : Nat)
  | beginClaim (sid caller : Nat) (args : ClaimArgs) (tie : Uuid → Nat)
  | lockRow (sid : Nat) (u : Uuid) (busy : Bool)
  | commitClaim (sid : Nat)
  | abortClaim (sid : Nat)
  | finalize (id : String) (outcome : OperationOutcome) (result : Option Json) (errorCode : Option String)
    (began : Nat)
  | requeue (id : String)
  | deferForReadback (id : String) (notBefore : Nat)
  | reapStale (thresholdMs readBackDelayMs began : Nat) (seen : List Uuid)
  | createPartition (day : Nat)
  | countLive (day retentionDays : Nat)
  | dropPartition (day : Nat)
  | abortDrop (day : Nat)

def Db.step (advisoryLockKey : String → BitVec 64) (db : Db) : DbAction → Option Db
  | .tick ms => some { db with now := db.now + ms }
  | .beginEnqueue sid op => db.beginEnqueue sid op
  | .lockKey sid => db.lockKey advisoryLockKey sid
  | .lookupKey sid => db.lookupKey sid
  | .insertOperation sid newId => db.insertOperation sid newId
  | .commitEnqueue sid acknowledged => db.commitEnqueue sid acknowledged
  | .abortEnqueue sid => db.abortEnqueue sid
  | .beginClaim sid caller args tie => db.beginClaim sid caller args tie
  | .lockRow sid u busy => db.lockRow sid u busy
  | .commitClaim sid => db.commitClaim sid
  | .abortClaim sid => db.abortClaim sid
  | .finalize id outcome result errorCode began => db.finalize id outcome result errorCode began
  | .requeue id => some (db.requeue id)
  | .deferForReadback id notBefore => some (db.deferForReadback id notBefore)
  | .reapStale thresholdMs readBackDelayMs began seen => db.reapStale thresholdMs readBackDelayMs began seen
  | .createPartition day => some { db with tables := db.tables.createPartition day }
  | .countLive day retentionDays => db.countLive day retentionDays
  | .dropPartition day => db.dropPartition day
  | .abortDrop day => some (db.abortDrop day)

end Provisioning
