import Provisioning.Lib.Table
import Provisioning.Ops.OperationId
import Provisioning.Ops.Types

/-!
# The operation store

The tables of `sql/schema.sql`, and the statements of `src/ops/OperationStore.ts` other than the
claim. A time is in milliseconds. `now` in a statement is Postgres' `now()`, the start of the
transaction.
-/

namespace Provisioning

open Lib

/-! ## Tables -/

structure Row where
  id : Uuid
  instanceId : String
  objectClass : String
  opType : OperationType
  priority : OperationPriority
  status : OperationStatus
  laneKey : String
  uid : Option String
  nameAttrValue : Option String
  attrs : Option Json
  result : Option Json
  errorCode : Option String
  attemptCount : Nat
  createdAt : Nat
  claimedAt : Option Nat
  finalizedAt : Option Nat
  idempotencyKey : String
  notBefore : Option Nat

structure HistoryRow where
  id : Uuid
  instanceId : String
  objectClass : String
  opType : OperationType
  status : OperationStatus
  uid : Option String
  errorCode : Option String
  createdAt : Nat
  finalizedAt : Nat

def dayOf (time : Nat) : Nat := time / 86400000

structure Tables where
  operations : List Row
  history : List HistoryRow
  /-- The days that have a partition. -/
  partitions : List Nat

namespace Tables

def row? (t : Tables) (id : Uuid) : Option Row := lookup Row.id t.operations id

def history? (t : Tables) (id : Uuid) : Option HistoryRow := lookup HistoryRow.id t.history id

end Tables

/-! ## Enqueue -/

structure EnqueueInput where
  instanceId : String
  objectClass : String
  opType : OperationType
  laneKey : String
  idempotencyKey : String
  priority : Option OperationPriority
  uid : Option String
  nameAttrValue : Option String
  attrs : Option Json

structure EnqueueResult where
  id : String
  deduplicated : Bool
  deriving DecidableEq, Repr

def Tables.withKey (t : Tables) (key : String) : List Row :=
  t.operations.filter fun r => r.idempotencyKey = key

/-- `SELECT id FROM operations WHERE idempotency_key = $1 ORDER BY created_at DESC LIMIT 1`. -/
def Tables.latestWithKey (t : Tables) (key : String) : Option Row :=
  (t.withKey key).find? fun r => ∀ r' ∈ t.withKey key, r'.createdAt ≤ r.createdAt

/-- The row of the `INSERT`, with the defaults of the schema. -/
def EnqueueInput.newRow (op : EnqueueInput) (id : Uuid) (now : Nat) : Row where
  id := id
  instanceId := op.instanceId
  objectClass := op.objectClass
  opType := op.opType
  priority := op.priority.getD .batch
  status := .live .pending
  laneKey := op.laneKey
  uid := op.uid
  nameAttrValue := op.nameAttrValue
  attrs := op.attrs
  result := none
  errorCode := none
  attemptCount := 0
  createdAt := now
  claimedAt := none
  finalizedAt := none
  idempotencyKey := op.idempotencyKey
  notBefore := none

/-- The transaction of `enqueue` when it is alone and no statement fails but the `INSERT` on a day
without a partition. -/
def OperationStore.enqueue (op : EnqueueInput) (newId : Uuid) (now : Nat) (t : Tables) :
    Option EnqueueResult × Tables :=
  match t.latestWithKey op.idempotencyKey with
  | some prior => (some ⟨prior.id.text, true⟩, t)
  | none =>
    if dayOf now ∈ t.partitions then
      (some ⟨newId.text, false⟩, { t with operations := t.operations ++ [op.newRow newId now] })
    else (none, t)

/-! ## Finalize -/

def Row.finalized (outcome : OperationOutcome) (result : Option Json) (errorCode : Option String)
    (now : Nat) (r : Row) : Row :=
  { r with
    status := .final outcome
    result := result.or r.result
    errorCode := errorCode
    finalizedAt := some now }

def Row.toHistory (r : Row) (finalizedAt : Nat) : HistoryRow where
  id := r.id
  instanceId := r.instanceId
  objectClass := r.objectClass
  opType := r.opType
  status := r.status
  uid := r.uid.or (r.result.bind (Json.fieldText "uid"))
  errorCode := r.errorCode
  createdAt := r.createdAt
  finalizedAt := finalizedAt

/-- `INSERT … ON CONFLICT (id) DO NOTHING`. -/
def Tables.insertHistory (h : HistoryRow) (t : Tables) : List HistoryRow :=
  if t.history.any (·.id = h.id) then t.history else t.history ++ [h]

/-- The transaction of `finalize`, for an id that passed the syntax check. -/
def Tables.finalizeRow (u : Uuid) (outcome : OperationOutcome) (result : Option Json)
    (errorCode : Option String) (now : Nat) (t : Tables) : Bool × Tables :=
  let updatable (r : Row) : Prop := r.id = u ∧ r.status ∉ TERMINAL_STATUSES.map .final
  match t.operations.find? (fun r => decide (updatable r)) with
  | none => (false, t)
  | some r =>
    (true,
      { t with
        operations := updateWhere updatable (Row.finalized outcome result errorCode now) t.operations
        history := t.insertHistory ((r.finalized outcome result errorCode now).toHistory now) })

namespace OperationStore

def finalize (id : String) (outcome : OperationOutcome) (result : Option Json)
    (errorCode : Option String) (now : Nat) (t : Tables) : Bool × Tables :=
  match operationIdOf id with
  | none => (false, t)
  | some u => t.finalizeRow u outcome result errorCode now

end OperationStore

/-! ## Requeue and defer -/

def Row.requeued (r : Row) : Row :=
  { r with status := .live .pending, claimedAt := none, attemptCount := r.attemptCount + 1 }

def Row.deferred (notBefore : Nat) (r : Row) : Row :=
  { r with status := .live .awaitingReadback, claimedAt := none, notBefore := some notBefore }

/-- `UPDATE operations SET … WHERE id = $1 AND status = 'RUNNING'`. -/
def Tables.updateRunning (u : Uuid) (f : Row → Row) (t : Tables) : Bool × Tables :=
  let held (r : Row) : Prop := r.id = u ∧ r.status = .live .running
  (t.operations.any (fun r => decide (held r)), { t with operations := updateWhere held f t.operations })

namespace OperationStore

def requeue (id : String) (t : Tables) : Bool × Tables :=
  match operationIdOf id with
  | none => (false, t)
  | some u => t.updateRunning u Row.requeued

def deferForReadback (id : String) (notBefore : Nat) (t : Tables) : Bool × Tables :=
  match operationIdOf id with
  | none => (false, t)
  | some u => t.updateRunning u (Row.deferred notBefore)

end OperationStore

/-! ## Reap -/

structure ReapResult where
  deferredForReadback : Nat
  requeued : Nat
  deriving DecidableEq, Repr

/-- `status = 'RUNNING' AND claimed_at < now() - threshold`. A comparison with `NULL` is not true. -/
def Row.stale (thresholdMs now : Nat) (r : Row) : Prop :=
  r.status = .live .running ∧ r.claimedAt.any fun claimedAt => claimedAt + thresholdMs < now

instance (thresholdMs now : Nat) (r : Row) : Decidable (r.stale thresholdMs now) :=
  inferInstanceAs (Decidable (_ ∧ _))

def Row.reaped (r : Row) : Row :=
  { r with status := .live .pending, claimedAt := none, notBefore := none }

/-- The pass of a replica that took the reaper's lock. `seen` are the rows that its two
statements found: such a row is locked by the statement until the pass commits. -/
def OperationStore.reapStale (thresholdMs readBackDelayMs now : Nat) (seen : List Uuid) (t : Tables) :
    ReapResult × Tables :=
  let create (r : Row) : Prop := r.id ∈ seen ∧ r.opType = .create ∧ r.stale thresholdMs now
  let other (r : Row) : Prop := r.id ∈ seen ∧ r.opType ≠ .create ∧ r.stale thresholdMs now
  let rows := updateWhere create (Row.deferred (now + readBackDelayMs)) t.operations
  ({ deferredForReadback := t.operations.countP (fun r => decide (create r))
     requeued := rows.countP (fun r => decide (other r)) },
    { t with operations := updateWhere other Row.reaped rows })

/-! ## Status -/

structure OperationStatusRow where
  id : String
  instanceId : String
  objectClass : String
  opType : OperationType
  status : OperationStatus
  attemptCount : Nat
  result : Option Json
  errorCode : Option String
  createdAt : Nat
  finalizedAt : Option Nat
  fromHistory : Bool
  priority : Option OperationPriority

def Row.toStatus (r : Row) : OperationStatusRow where
  id := r.id.text
  instanceId := r.instanceId
  objectClass := r.objectClass
  opType := r.opType
  status := r.status
  attemptCount := r.attemptCount
  result := r.result
  errorCode := r.errorCode
  createdAt := r.createdAt
  finalizedAt := r.finalizedAt
  fromHistory := false
  priority := some r.priority

def HistoryRow.toStatus (h : HistoryRow) : OperationStatusRow where
  id := h.id.text
  instanceId := h.instanceId
  objectClass := h.objectClass
  opType := h.opType
  status := h.status
  attemptCount := 0
  result := (h.uid.filter (· ≠ "")).map fun uid => .obj [("uid", .str uid)]
  errorCode := h.errorCode
  createdAt := h.createdAt
  finalizedAt := some h.finalizedAt
  fromHistory := true
  priority := none

/-- `hot` and `cold` are the tables at the time of the first and of the second query. -/
def OperationStore.getStatus (hot cold : Tables) (id : String) : Option OperationStatusRow :=
  match operationIdOf id with
  | none => none
  | some u =>
    match hot.row? u with
    | some r => some r.toStatus
    | none => (cold.history? u).map HistoryRow.toStatus

/-! ## Partitions -/

namespace Tables

def createPartition (day : Nat) (t : Tables) : Tables :=
  if day ∈ t.partitions then t else { t with partitions := t.partitions ++ [day] }

/-- `SELECT count(*)` of the rows of a day that are not terminal. -/
def liveRows (day : Nat) (t : Tables) : Nat :=
  t.operations.countP fun r => dayOf r.createdAt = day ∧ ¬ r.status.terminal

/-- `DROP TABLE`, with all the rows of the day. -/
def dropTable (day : Nat) (t : Tables) : Tables :=
  { t with
    operations := t.operations.filter fun r => dayOf r.createdAt ≠ day
    partitions := t.partitions.filter (· ≠ day) }

/-- `drop_operations_partition`, with no other transaction on the table. -/
def dropPartition (day : Nat) (t : Tables) : Bool × Tables :=
  if day ∉ t.partitions then (false, t)
  else if 0 < t.liveRows day then (false, t)
  else (true, t.dropTable day)

end Tables

end Provisioning
