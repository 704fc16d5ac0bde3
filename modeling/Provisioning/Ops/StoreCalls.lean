import Provisioning.Ops.Claims
import Provisioning.Ops.MemoryStore

/-!
# Two stores, one contract

The in-memory store and the Postgres store get the same calls at the same times. The statements of
Postgres run one at a time.
-/

namespace Provisioning

open Lib

/-! ## Calls -/

/-- An operation is given by its number in the order of the enqueues. -/
inductive StoreCall where
  | enqueue (op : EnqueueInput)
  | claimBatch (args : ClaimArgs)
  | requeue (n : Nat)
  | deferForReadback (n notBefore : Nat)
  | reapStale (thresholdMs readBackDelayMs : Nat)
  | finalize (n : Nat) (outcome : OperationOutcome) (result : Option Json) (errorCode : Option String)

structure Stores where
  now : Nat
  memory : MemoryOperationStore
  postgres : Tables

variable (uuids : Nat → Uuid) (date : Nat → Nat → Nat) (tie : Uuid → Nat)

namespace StoreCall

/-- What a claim returns, and the store after the call. -/
def onMemory (now : Nat) (m : MemoryOperationStore) : StoreCall → List ClaimedOperation × MemoryOperationStore
  | .enqueue op => ([], (m.enqueue date op now).2)
  | .claimBatch args => m.claimBatch args now
  | .requeue n => ([], (m.requeue (MemoryOperationStore.opId n)).2)
  | .deferForReadback n notBefore => ([], (m.deferForReadback (MemoryOperationStore.opId n) notBefore).2)
  | .reapStale thresholdMs readBackDelayMs => ([], (m.reapStale thresholdMs readBackDelayMs now).2)
  | .finalize n outcome result errorCode =>
    ([], (m.finalize (MemoryOperationStore.opId n) outcome result errorCode now).2)

/-- `uuids` are the ids of the inserted rows, from the first. -/
def onPostgres (now : Nat) (t : Tables) : StoreCall → List ClaimedOperation × Tables
  | .enqueue op => ([], (OperationStore.enqueue op (uuids (t.operations.length + 1)) now t).2)
  | .claimBatch args => OperationStore.claimBatch args now tie t
  | .requeue n => ([], (OperationStore.requeue (uuids n).text t).2)
  | .deferForReadback n notBefore => ([], (OperationStore.deferForReadback (uuids n).text notBefore t).2)
  | .reapStale thresholdMs readBackDelayMs =>
    ([], (OperationStore.reapStale thresholdMs readBackDelayMs now (t.operations.map Row.id) t).2)
  | .finalize n outcome result errorCode =>
    ([], (OperationStore.finalize (uuids n).text outcome result errorCode now t).2)

end StoreCall

/-! ## Agreement -/

/-- The same operation with the same prior status and attempt count. -/
def SameClaim (c d : ClaimedOperation) : Prop :=
  (∃ n, c.id = MemoryOperationStore.opId n ∧ d.id = (uuids n).text) ∧ c.priorStatus = d.priorStatus ∧
    c.attemptCount = d.attemptCount

def SameClaims (memory postgres : List ClaimedOperation) : Prop :=
  (∀ c ∈ memory, ∃ d ∈ postgres, SameClaim uuids c d) ∧ ∀ d ∈ postgres, ∃ c ∈ memory, SameClaim uuids c d

namespace Stores

def start (now : Nat) (partitions : List Nat) : Stores := ⟨now, .empty, ⟨[], [], partitions⟩⟩

/-- The call is made `ms` later. -/
def call (s : Stores) (ms : Nat) (c : StoreCall) : Stores where
  now := s.now + ms
  memory := (c.onMemory date (s.now + ms) s.memory).2
  postgres := (c.onPostgres uuids tie (s.now + ms) s.postgres).2

def SameStatuses (N : Nat) (s : Stores) : Prop :=
  ∀ n ≤ N, (s.memory.getStatus (MemoryOperationStore.opId n)).map OperationStatusRow.status =
    (OperationStore.getStatus s.postgres s.postgres (uuids n).text).map OperationStatusRow.status

/-- The stores agree on one call. -/
def AgreeOn (N : Nat) (s : Stores) (ms : Nat) (c : StoreCall) : Prop :=
  SameClaims uuids (c.onMemory date (s.now + ms) s.memory).1 (c.onPostgres uuids tie (s.now + ms) s.postgres).1 ∧
    (s.call uuids date tie ms c).SameStatuses uuids N

/-- They agree on each of a sequence of calls. -/
def Agree (N : Nat) (s : Stores) : List (Nat × StoreCall) → Prop
  | [] => True
  | (ms, c) :: rest => s.AgreeOn uuids date tie N ms c ∧ (s.call uuids date tie ms c).Agree N rest

/-! ## The calls in question -/

/-- No two rows have one `created_at`, and no row is exactly as old as the reaper's threshold. The table has
the partition, and an instance id is a text that it can hold. The ids are among the first `N`. -/
def Fair (N : Nat) (s : Stores) (ms : Nat) : StoreCall → Prop
  | .enqueue op => s.postgres.operations.length < N ∧ dayOf (s.now + ms) ∈ s.postgres.partitions ∧
      '\x00' ∉ op.instanceId.toList ∧
      (s.postgres.withKey op.idempotencyKey = [] → ∀ r ∈ s.postgres.operations, r.createdAt ≠ s.now + ms)
  | .reapStale thresholdMs _ => ∀ r ∈ s.postgres.operations, r.status = .live .running →
      ¬ r.claimedAt.any fun claimedAt => claimedAt + thresholdMs = s.now + ms
  | .requeue n | .deferForReadback n _ | .finalize n _ _ _ => n ≤ N
  | .claimBatch _ => True

instance (N : Nat) (s : Stores) (ms : Nat) (c : StoreCall) : Decidable (s.Fair N ms c) :=
  match c with
  | .enqueue _ => inferInstanceAs (Decidable (_ ∧ _ ∧ _ ∧ (_ → ∀ r ∈ _, _)))
  | .reapStale .. => inferInstanceAs (Decidable (∀ r ∈ _, _))
  | .requeue _ | .deferForReadback .. | .finalize .. => inferInstanceAs (Decidable (_ ≤ _))
  | .claimBatch _ => .isTrue trivial

def AllFair (N : Nat) (s : Stores) : List (Nat × StoreCall) → Prop
  | [] => True
  | (ms, c) :: rest => s.Fair N ms c ∧ (s.call uuids date tie ms c).AllFair N rest

instance decidableAllFair (N : Nat) (s : Stores) : (calls : List (Nat × StoreCall)) →
    Decidable (s.AllFair uuids date tie N calls)
  | [] => .isTrue trivial
  | (ms, c) :: rest =>
    have := decidableAllFair N (s.call uuids date tie ms c) rest
    inferInstanceAs (Decidable (_ ∧ _))

end Stores

/-- No two lanes of different instances whose turn it is have one key. -/
def Snapshot.KeysApart (s : Snapshot) (args : ClaimArgs) : Prop :=
  ∀ r ∈ s.laneLeaders args, ∀ r' ∈ s.laneLeaders args, s.InTurn args r → s.InTurn args r' →
    r.laneKey = r'.laneKey → r.instanceId = r'.instanceId

instance (s : Snapshot) (args : ClaimArgs) : Decidable (s.KeysApart args) :=
  inferInstanceAs (Decidable (∀ r ∈ _, ∀ r' ∈ _, _))

namespace Stores

def KeysApart (s : Stores) (ms : Nat) : StoreCall → Prop
  | .claimBatch args => (Snapshot.mk s.postgres.operations (s.now + ms) tie).KeysApart args
  | _ => True

instance (s : Stores) (ms : Nat) (c : StoreCall) : Decidable (s.KeysApart tie ms c) :=
  match c with
  | .claimBatch args => inferInstanceAs (Decidable (Snapshot.KeysApart _ args))
  | .enqueue _ | .requeue _ | .deferForReadback .. | .reapStale .. | .finalize .. => .isTrue trivial

def AllKeysApart (s : Stores) : List (Nat × StoreCall) → Prop
  | [] => True
  | (ms, c) :: rest => s.KeysApart tie ms c ∧ (s.call uuids date tie ms c).AllKeysApart rest

instance decidableAllKeysApart (s : Stores) : (calls : List (Nat × StoreCall)) →
    Decidable (s.AllKeysApart uuids date tie calls)
  | [] => .isTrue trivial
  | (ms, c) :: rest =>
    have := decidableAllKeysApart (s.call uuids date tie ms c) rest
    inferInstanceAs (Decidable (_ ∧ _))

end Stores

end Provisioning
