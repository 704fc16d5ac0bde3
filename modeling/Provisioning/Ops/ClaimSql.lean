import Provisioning.Lib.Rank
import Provisioning.Ops.OperationStore

/-!
# The claim query

`CLAIM_SQL`, one definition for each of its common table expressions. All but the last read one
snapshot.
-/

namespace Provisioning

open Lib

structure InstanceAvailability where
  batchFree : Int
  totalFree : Int

/-- The arguments of `claimBatch`. The keys of the map are distinct. -/
structure ClaimArgs where
  limit : Int
  activeLaneKeys : List String
  perInstanceAvailable : List (String × InstanceAvailability)

structure Cap where
  instanceId : String
  cap : Int
  batchCap : Int

def ClaimArgs.caps (args : ClaimArgs) : List Cap :=
  args.perInstanceAvailable.filterMap fun (instanceId, available) =>
    if available.totalFree > 0 then
      some ⟨instanceId, available.totalFree, max 0 (min available.batchFree available.totalFree)⟩
    else none

def ClaimArgs.cap? (args : ClaimArgs) (instanceId : String) : Option Cap :=
  args.caps.find? fun c => c.instanceId = instanceId

/-- `tie` is the order in which rows with one `created_at` come out of a sort. -/
structure Snapshot where
  rows : List Row
  now : Nat
  tie : Uuid → Nat

/-! ## Lanes -/

def Row.sameLane (r r' : Row) : Prop := r.instanceId = r'.instanceId ∧ r.laneKey = r'.laneKey

instance (r r' : Row) : Decidable (r.sameLane r') := inferInstanceAs (Decidable (_ ∧ _))

def Row.isDue (now : Nat) (r : Row) : Prop := r.notBefore.any fun n => n ≤ now

def Row.isWaiting (now : Nat) (r : Row) : Prop := r.notBefore.any fun n => now < n

instance (now : Nat) (r : Row) : Decidable (r.isDue now) := inferInstanceAs (Decidable (_ = _))

instance (now : Nat) (r : Row) : Decidable (r.isWaiting now) := inferInstanceAs (Decidable (_ = _))

def Row.blocksLane (now : Nat) (r : Row) : Prop :=
  r.status = .live .running ∨ (r.status = .live .awaitingReadback ∧ r.isWaiting now)

def Row.claimable (now : Nat) (r : Row) : Prop :=
  r.status = .live .pending ∨ (r.status = .live .awaitingReadback ∧ r.isDue now)

instance (now : Nat) (r : Row) : Decidable (r.blocksLane now) := inferInstanceAs (Decidable (_ ∨ _))

instance (now : Nat) (r : Row) : Decidable (r.claimable now) := inferInstanceAs (Decidable (_ ∨ _))

/-- `(priority = 'interactive') DESC`. -/
def OperationPriority.order : OperationPriority → Nat
  | .interactive => 0
  | .batch => 1

namespace Snapshot

variable (s : Snapshot)

/-- `(priority = 'interactive') DESC, created_at`. -/
def before (r r' : Row) : Prop :=
  r.priority.order < r'.priority.order ∨ r.priority.order = r'.priority.order ∧
    (r.createdAt < r'.createdAt ∨ r.createdAt = r'.createdAt ∧
      (s.tie r.id < s.tie r'.id ∨ s.tie r.id = s.tie r'.id ∧ r.id.toNat < r'.id.toNat))

instance (r r' : Row) : Decidable (s.before r r') := inferInstanceAs (Decidable (_ ∨ _))

/-- The lane of `r` is one of `blocked_lanes`. -/
def blocked (r : Row) : Prop := ∃ b ∈ s.rows, b.blocksLane s.now ∧ b.sameLane r

instance (r : Row) : Decidable (s.blocked r) :=
  inferInstanceAs (Decidable (∃ b ∈ s.rows, b.blocksLane s.now ∧ b.sameLane r))

/-! ## The query -/

/-- The rows that `lane_leaders` numbers. -/
def candidates (args : ClaimArgs) : List Row :=
  s.rows.filter fun r =>
    r.claimable s.now ∧ (args.cap? r.instanceId).isSome ∧ r.laneKey ∉ args.activeLaneKeys ∧ ¬ s.blocked r

def laneRn (args : ClaimArgs) (r : Row) : Nat :=
  rank (fun a b => a.sameLane b ∧ s.before a b) (s.candidates args) r

def laneLeaders (args : ClaimArgs) : List Row :=
  (s.candidates args).filter fun r => s.laneRn args r = 1

def rn (args : ClaimArgs) (r : Row) : Nat :=
  rank (fun a b => a.instanceId = b.instanceId ∧ s.before a b) (s.laneLeaders args) r

def classRn (args : ClaimArgs) (r : Row) : Nat :=
  rank (fun a b => (a.instanceId = b.instanceId ∧ a.priority = b.priority) ∧ s.before a b)
    (s.laneLeaders args) r

def withinCaps (args : ClaimArgs) (r : Row) : Prop :=
  (args.cap? r.instanceId).any fun c =>
    (s.rn args r : Int) ≤ c.cap ∧ (r.priority ≠ .batch ∨ (s.classRn args r : Int) ≤ c.batchCap)

instance (args : ClaimArgs) (r : Row) : Decidable (s.withinCaps args r) :=
  inferInstanceAs (Decidable (_ = _))

/-- `ranked`, cut at the caps. -/
def capped (args : ClaimArgs) : List Row := (s.laneLeaders args).filter fun r => s.withinCaps args r

def picked (args : ClaimArgs) : List Row :=
  (s.capped args).filter fun r => (rank s.before (s.capped args) r : Int) ≤ args.limit

end Snapshot

/-! ## The update -/

structure ClaimedOperation where
  id : String
  instanceId : String
  objectClass : String
  opType : OperationType
  priority : OperationPriority
  laneKey : String
  uid : Option String
  nameAttrValue : Option String
  attrs : Option Json
  attemptCount : Nat
  createdAt : Nat
  idempotencyKey : String
  priorStatus : OperationPendingStatus

def Row.toClaimed (r : Row) (prior : OperationPendingStatus) : ClaimedOperation where
  id := r.id.text
  instanceId := r.instanceId
  objectClass := r.objectClass
  opType := r.opType
  priority := r.priority
  laneKey := r.laneKey
  uid := r.uid
  nameAttrValue := r.nameAttrValue
  attrs := r.attrs
  attemptCount := r.attemptCount
  createdAt := r.createdAt
  idempotencyKey := r.idempotencyKey
  priorStatus := prior

/-- `WHERE NOT o.terminal AND o.status <> 'RUNNING'`, with the `prior_status` of a row that passes. -/
def Row.lockable (r : Row) : Option OperationPendingStatus :=
  match r.status with
  | .live .running => none
  | .live p => some p
  | .final _ => none

def Row.claimed (now : Nat) (r : Row) : Row :=
  { r with status := .live .running, claimedAt := some now, notBefore := none }

/-- The claim with no other transaction in flight. -/
def OperationStore.claimBatch (args : ClaimArgs) (now : Nat) (tie : Uuid → Nat) (t : Tables) :
    List ClaimedOperation × Tables :=
  if args.caps = [] ∨ args.limit ≤ 0 then ([], t)
  else
    let picked := (Snapshot.mk t.operations now tie).picked args
    (picked.filterMap fun r => r.lockable.map r.toClaimed,
      { t with
        operations :=
          updateWhere (fun r => ∃ p ∈ picked, p.id = r.id ∧ p.createdAt = r.createdAt) (Row.claimed now)
            t.operations })

end Provisioning
