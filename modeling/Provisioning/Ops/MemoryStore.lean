import Mathlib.Data.List.Sort
import Mathlib.Logic.Function.Basic
import Provisioning.Ops.ClaimSql

/-!
# The in-memory store

`test/harness/MemoryOperationStore.ts`, less what only a test asks for. A `Map` is a list in
insertion order. `now` is what the clock says when the method is called.
-/

namespace Provisioning

open Lib

structure MemoryRow where
  id : String
  instanceId : String
  objectClass : String
  opType : OperationType
  priority : OperationPriority
  status : OperationStatus
  laneKey : String
  uid : Option String
  nameAttrValue : Option String
  attrs : Option Json
  result : Option Json
  errorCode : Option String
  attemptCount : Nat
  createdAt : Nat
  claimedAt : Option Nat
  notBefore : Option Nat
  finalizedAt : Option Nat
  idempotencyKey : String

structure MemoryHistoryRow where
  id : String
  instanceId : String
  objectClass : String
  opType : OperationType
  status : OperationStatus
  uid : Option String
  errorCode : Option String
  createdAt : Nat
  finalizedAt : Nat

structure MemoryOperationStore where
  rows : List MemoryRow
  history : List MemoryHistoryRow
  byIdempotencyKey : List (String × String)
  seq : Nat

namespace MemoryOperationStore

def empty : MemoryOperationStore := ⟨[], [], [], 0⟩

variable (m : MemoryOperationStore)

def get (id : String) : Option MemoryRow := lookup MemoryRow.id m.rows id

def set (id : String) (f : MemoryRow → MemoryRow) : MemoryOperationStore :=
  { m with rows := updateWhere (fun r => r.id = id) f m.rows }

/-! ## Enqueue -/

/-- The id that the `n`-th operation gets. -/
def opId (n : Nat) : String := "op-" ++ toString n

def newRow (op : EnqueueInput) (id : String) (createdAt : Nat) : MemoryRow where
  id := id
  instanceId := op.instanceId
  objectClass := op.objectClass
  opType := op.opType
  priority := op.priority.getD .batch
  status := .live .pending
  laneKey := op.laneKey
  uid := op.uid
  nameAttrValue := op.nameAttrValue
  attrs := op.attrs
  result := none
  errorCode := none
  attemptCount := 0
  createdAt := createdAt
  claimedAt := none
  notBefore := none
  finalizedAt := none
  idempotencyKey := op.idempotencyKey

/-- `date now seq` is the time of `new Date(now + seq / 1e6)`, which rounds and truncates. -/
def enqueue (date : Nat → Nat → Nat) (op : EnqueueInput) (now : Nat) : EnqueueResult × MemoryOperationStore :=
  match lookup Prod.fst m.byIdempotencyKey op.idempotencyKey with
  | some (_, existingId) => (⟨existingId, true⟩, m)
  | none =>
    let seq := m.seq + 1
    (⟨opId seq, false⟩,
      { m with
        rows := m.rows ++ [newRow op (opId seq) (date now seq)]
        byIdempotencyKey := m.byIdempotencyKey ++ [(op.idempotencyKey, opId seq)]
        seq := seq })

/-! ## Claim -/

/-- Lanes are scoped per instance. -/
def laneOf (row : MemoryRow) : String := row.instanceId ++ "\x00" ++ row.laneKey

/-- Interactive ahead of batch, then oldest first. -/
def compareClaimOrder (a b : MemoryRow) : Int :=
  if a.priority.order ≠ b.priority.order then a.priority.order - b.priority.order else a.createdAt - b.createdAt

def occupiesLane (now : Nat) (row : MemoryRow) : Prop :=
  row.status = .live .running ∨ row.status = .live .awaitingReadback ∧ row.notBefore.any fun n => now < n

def isCandidate (now : Nat) (row : MemoryRow) : Prop :=
  row.status = .live .pending ∨ row.status = .live .awaitingReadback ∧ row.notBefore.all fun n => n ≤ now

instance (now : Nat) (row : MemoryRow) : Decidable (occupiesLane now row) := inferInstanceAs (Decidable (_ ∨ _))

instance (now : Nat) (row : MemoryRow) : Decidable (isCandidate now row) := inferInstanceAs (Decidable (_ ∨ _))

def blockedLanes (now : Nat) : List String := (m.rows.filter fun row => occupiesLane now row).map laneOf

/-- What is left of each budget, the lanes that are taken, and the claimed rows as they were before. -/
structure Round where
  remaining : String → Option Int
  batchRemaining : String → Option Int
  takenLanes : List String
  claimed : List MemoryRow

/-- `remaining` and `batchRemaining` before the loop. -/
def Round.first (available : List (String × InstanceAvailability)) : Round :=
  let free := available.filter fun a => a.2.totalFree > 0
  { remaining := fun i => (lookup Prod.fst free i).map fun a => a.2.totalFree
    batchRemaining := fun i => (lookup Prod.fst free i).map fun a => max 0 (min a.2.batchFree a.2.totalFree)
    takenLanes := []
    claimed := [] }

def Round.claim (round : Round) (row : MemoryRow) : Round where
  remaining := Function.update round.remaining row.instanceId
    (some ((round.remaining row.instanceId).getD 0 - 1))
  batchRemaining :=
    if row.priority = .batch then
      Function.update round.batchRemaining row.instanceId (some ((round.batchRemaining row.instanceId).getD 0 - 1))
    else round.batchRemaining
  takenLanes := round.takenLanes ++ [row.laneKey]
  claimed := round.claimed ++ [row]

def Round.visit (round : Round) (row : MemoryRow) : Round :=
  if (round.remaining row.instanceId).getD 0 ≤ 0 then round
  else if row.laneKey ∈ round.takenLanes then round
  else if row.priority = .batch ∧ (round.batchRemaining row.instanceId).getD 0 ≤ 0 then round
  else round.claim row

def claimLoop (limit : Int) : List MemoryRow → Round → Round
  | [], round => round
  | row :: rest, round => if limit ≤ round.claimed.length then round else claimLoop limit rest (round.visit row)

def candidates (args : ClaimArgs) (now : Nat) : List MemoryRow :=
  ((((m.rows.filter fun row => isCandidate now row).filter fun row =>
        ((Round.first args.perInstanceAvailable).remaining row.instanceId).isSome).filter fun row =>
        row.laneKey ∉ args.activeLaneKeys).filter fun row => laneOf row ∉ m.blockedLanes now).insertionSort
    fun a b => compareClaimOrder a b ≤ 0

def toClaimed (row : MemoryRow) (priorStatus : OperationPendingStatus) : ClaimedOperation where
  id := row.id
  instanceId := row.instanceId
  objectClass := row.objectClass
  opType := row.opType
  priority := row.priority
  laneKey := row.laneKey
  uid := row.uid
  nameAttrValue := row.nameAttrValue
  attrs := row.attrs
  attemptCount := row.attemptCount
  createdAt := row.createdAt
  idempotencyKey := row.idempotencyKey
  priorStatus := priorStatus

/-- `row.status as OperationPendingStatus`, of a candidate. -/
def priorStatus (row : MemoryRow) : OperationPendingStatus :=
  match row.status with
  | .live p => p
  | .final _ => .pending

def markRunning (now : Nat) (row : MemoryRow) : MemoryRow :=
  { row with status := .live .running, claimedAt := some now, notBefore := none }

def claimBatch (args : ClaimArgs) (now : Nat) : List ClaimedOperation × MemoryOperationStore :=
  let free := args.perInstanceAvailable.filter fun a => a.2.totalFree > 0
  if args.limit ≤ 0 ∨ free = [] then ([], m)
  else
    let claimed := (claimLoop args.limit (m.candidates args now) (Round.first args.perInstanceAvailable)).claimed
    (claimed.map fun row => toClaimed row (priorStatus row),
      { m with rows := updateWhere (fun r => r.id ∈ claimed.map MemoryRow.id) (markRunning now) m.rows })

/-! ## Defer, requeue and reap -/

/-- The shape of `deferForReadback` and `requeue`. -/
def updateRunning (id : String) (f : MemoryRow → MemoryRow) : Bool × MemoryOperationStore :=
  match m.get id with
  | none => (false, m)
  | some row => if row.status ≠ .live .running then (false, m) else (true, m.set id f)

def deferForReadback (id : String) (notBefore : Nat) : Bool × MemoryOperationStore :=
  m.updateRunning id fun r => { r with
    status := .live .awaitingReadback, claimedAt := none, notBefore := some notBefore }

def requeue (id : String) : Bool × MemoryOperationStore :=
  m.updateRunning id fun r => { r with status := .live .pending, attemptCount := r.attemptCount + 1 }

/-- The loop goes on past every row but these. -/
def isStale (thresholdMs now : Nat) (row : MemoryRow) : Prop :=
  row.status = .live .running ∧ row.claimedAt.any fun claimedAt => claimedAt + thresholdMs ≤ now

instance (thresholdMs now : Nat) (row : MemoryRow) : Decidable (isStale thresholdMs now row) :=
  inferInstanceAs (Decidable (_ ∧ _))

def reapStale (thresholdMs readBackDelayMs now : Nat) : ReapResult × MemoryOperationStore :=
  ({ deferredForReadback := m.rows.countP fun r => isStale thresholdMs now r ∧ r.opType = .create
     requeued := m.rows.countP fun r => isStale thresholdMs now r ∧ r.opType ≠ .create },
    { m with
      rows := updateWhere (isStale thresholdMs now)
        (fun r =>
          if r.opType = .create then { r with
            status := .live .awaitingReadback, claimedAt := none, notBefore := some (now + readBackDelayMs) }
          else { r with status := .live .pending, claimedAt := none, notBefore := none })
        m.rows })

/-! ## Finalize -/

def extractUid : Option Json → Option String
  | some result =>
    match result.field "uid" with
    | some (.str uid) => some uid
    | _ => none
  | none => none

def toHistory (row : MemoryRow) (finalizedAt : Nat) : MemoryHistoryRow where
  id := row.id
  instanceId := row.instanceId
  objectClass := row.objectClass
  opType := row.opType
  status := row.status
  uid := row.uid.or (extractUid row.result)
  errorCode := row.errorCode
  createdAt := row.createdAt
  finalizedAt := finalizedAt

def finalized (outcome : OperationOutcome) (result : Option Json) (errorCode : Option String) (now : Nat)
    (row : MemoryRow) : MemoryRow :=
  { row with
    status := .final outcome
    result := result.or row.result
    errorCode := errorCode
    finalizedAt := some now }

def finalize (id : String) (outcome : OperationOutcome) (result : Option Json) (errorCode : Option String)
    (now : Nat) : Bool × MemoryOperationStore :=
  match m.get id with
  | none => (false, m)
  | some row =>
    if row.status ∈ TERMINAL_STATUSES.map .final then (false, m)
    else
      (true, { m.set id (finalized outcome result errorCode now) with
        history :=
          (m.history.filter fun h => h.id ≠ id) ++ [toHistory (finalized outcome result errorCode now row) now] })

/-! ## Status -/

def toStatus (row : MemoryRow) : OperationStatusRow where
  id := row.id
  instanceId := row.instanceId
  objectClass := row.objectClass
  opType := row.opType
  status := row.status
  attemptCount := row.attemptCount
  result := row.result
  errorCode := row.errorCode
  createdAt := row.createdAt
  finalizedAt := row.finalizedAt
  fromHistory := false
  priority := none

def historyToStatus (hist : MemoryHistoryRow) : OperationStatusRow where
  id := hist.id
  instanceId := hist.instanceId
  objectClass := hist.objectClass
  opType := hist.opType
  status := hist.status
  attemptCount := 0
  result := (hist.uid.filter (· ≠ "")).map fun uid => .obj [("uid", .str uid)]
  errorCode := hist.errorCode
  createdAt := hist.createdAt
  finalizedAt := some hist.finalizedAt
  fromHistory := true
  priority := none

def getStatus (id : String) : Option OperationStatusRow :=
  match m.get id with
  | some row => some (toStatus row)
  | none => (lookup MemoryHistoryRow.id m.history id).map historyToStatus

end MemoryOperationStore

end Provisioning
