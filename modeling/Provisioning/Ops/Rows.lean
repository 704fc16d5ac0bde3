import Provisioning.Ops.Steps

/-!
# What the statements do to one row
-/

namespace Provisioning

open Lib

/-! ## The rows after a statement -/

theorem Tables.finalizeRow_operations {u : Uuid} {outcome : OperationOutcome} {result : Option Json}
    {errorCode : Option String} {now : Nat} {t : Tables} :
    (t.finalizeRow u outcome result errorCode now).2.operations =
      updateWhere (fun r => r.id = u ∧ r.status ∉ TERMINAL_STATUSES.map .final)
        (Row.finalized outcome result errorCode now) t.operations := by
  simp only [Tables.finalizeRow]
  split
  · rename_i hnone
    exact (updateWhere_of_none fun r hr => by simpa using List.find?_eq_none.1 hnone r hr).symm
  · rfl

namespace OperationStore

variable {id : String} {t : Tables}

theorem finalize_operations {outcome : OperationOutcome} {result : Option Json}
    {errorCode : Option String} {now : Nat} :
    (finalize id outcome result errorCode now t).2.operations =
      updateWhere (fun r => operationIdOf id = some r.id ∧ ¬ r.status.terminal)
        (Row.finalized outcome result errorCode now) t.operations := by
  simp only [finalize]
  split
  · rename_i h
    exact (updateWhere_of_none fun r _ => by simp [h]).symm
  · rename_i u h
    rw [Tables.finalizeRow_operations]
    simp only [h, Option.some.injEq, OperationStatus.terminal_iff_listed, eq_comm (a := u)]

theorem updateRunning_operations {f : Row → Row} :
    (match operationIdOf id with
      | none => (false, t)
      | some u => t.updateRunning u f).2.operations =
      updateWhere (fun r => operationIdOf id = some r.id ∧ r.status = .live .running) f t.operations := by
  split
  · rename_i h
    exact (updateWhere_of_none fun r _ => by simp [h]).symm
  · rename_i u h
    simp only [Tables.updateRunning, h, Option.some.injEq, eq_comm (a := u)]

theorem requeue_operations :
    (requeue id t).2.operations =
      updateWhere (fun r => operationIdOf id = some r.id ∧ r.status = .live .running) Row.requeued
        t.operations := updateRunning_operations

theorem deferForReadback_operations {notBefore : Nat} :
    (deferForReadback id notBefore t).2.operations =
      updateWhere (fun r => operationIdOf id = some r.id ∧ r.status = .live .running)
        (Row.deferred notBefore) t.operations := updateRunning_operations

/-- A row that one statement of the pass took is not stale for the other. -/
theorem reapStale_operations {thresholdMs readBackDelayMs now : Nat} {seen : List Uuid} :
    (reapStale thresholdMs readBackDelayMs now seen t).2.operations =
      updateWhere (fun r => r.id ∈ seen ∧ r.stale thresholdMs now)
        (fun r => if r.opType = .create then r.deferred (now + readBackDelayMs) else r.reaped)
        t.operations := by
  simp only [reapStale]
  rw [updateWhere_updateWhere fun r hr hr' => hr'.2.1 hr.2.1]
  refine List.map_congr_left fun r _ => ?_
  by_cases hs : r.id ∈ seen <;> by_cases ho : r.opType = .create <;>
    by_cases hst : r.stale thresholdMs now <;> simp [hs, ho, hst]

end OperationStore

/-! ## The history -/

theorem Tables.mem_insertHistory {t : Tables} {h h' : HistoryRow} (hh' : h' ∈ t.insertHistory h) :
    h' ∈ t.history ∨ h' = h := by
  simp only [insertHistory] at hh'
  split at hh'
  · exact .inl hh'
  · simpa using hh'

theorem OperationStore.finalize_history {id : String} {outcome : OperationOutcome} {result : Option Json}
    {errorCode : Option String} {now : Nat} {t : Tables} :
    (finalize id outcome result errorCode now t).2 = t ∨
      ∃ r ∈ t.operations, operationIdOf id = some r.id ∧ ¬ r.status.terminal ∧
        (finalize id outcome result errorCode now t).2.history =
          t.insertHistory ((r.finalized outcome result errorCode now).toHistory now) := by
  simp only [finalize]
  split
  · exact .inl rfl
  · rename_i u hu
    simp only [Tables.finalizeRow]
    split
    · exact .inl rfl
    · rename_i r hr
      obtain ⟨hid, hst⟩ : r.id = u ∧ r.status ∉ TERMINAL_STATUSES.map .final := by
        simpa using List.find?_some hr
      rw [← OperationStatus.terminal_iff_listed] at hst
      exact .inr ⟨r, List.mem_of_find?_eq_some hr, by rw [hid, hu], hst, rfl⟩

/-! ## The changes of a row -/

/-- What any one statement can do to any one row. -/
inductive Row.Change : Row → Row → Prop
  | same (r : Row) : Change r r
  | claimed {r : Row} {p : OperationPendingStatus} (now : Nat) (status : r.status = .live p)
      (idle : p ≠ .running) : Change r (r.claimed now)
  | finalized {r : Row} (outcome : OperationOutcome) (result : Option Json) (errorCode : Option String)
      (now : Nat) (open' : ¬ r.status.terminal) : Change r (r.finalized outcome result errorCode now)
  | requeued {r : Row} (status : r.status = .live .running) : Change r r.requeued
  | deferred {r : Row} (notBefore : Nat) (status : r.status = .live .running) :
      Change r (r.deferred notBefore)
  | reaped {r : Row} (status : r.status = .live .running) (opType : r.opType ≠ .create) :
      Change r r.reaped

/-- What the service never changes about an operation. -/
structure Row.SameOperation (r r' : Row) : Prop where
  id : r'.id = r.id
  instanceId : r'.instanceId = r.instanceId
  objectClass : r'.objectClass = r.objectClass
  opType : r'.opType = r.opType
  priority : r'.priority = r.priority
  laneKey : r'.laneKey = r.laneKey
  uid : r'.uid = r.uid
  nameAttrValue : r'.nameAttrValue = r.nameAttrValue
  attrs : r'.attrs = r.attrs
  createdAt : r'.createdAt = r.createdAt
  idempotencyKey : r'.idempotencyKey = r.idempotencyKey

theorem Row.SameOperation.trans {r r' r'' : Row} (h : r.SameOperation r') (h' : r'.SameOperation r'') :
    r.SameOperation r'' where
  id := h'.id.trans h.id
  instanceId := h'.instanceId.trans h.instanceId
  objectClass := h'.objectClass.trans h.objectClass
  opType := h'.opType.trans h.opType
  priority := h'.priority.trans h.priority
  laneKey := h'.laneKey.trans h.laneKey
  uid := h'.uid.trans h.uid
  nameAttrValue := h'.nameAttrValue.trans h.nameAttrValue
  attrs := h'.attrs.trans h.attrs
  createdAt := h'.createdAt.trans h.createdAt
  idempotencyKey := h'.idempotencyKey.trans h.idempotencyKey

namespace Row.Change

variable {r r' : Row}

theorem sameOperation (h : Change r r') : r.SameOperation r' := by
  cases h <;> constructor <;> rfl

theorem eq_of_terminal (h : Change r r') (ht : r.status.terminal) : r' = r := by
  cases h with
  | same => rfl
  | claimed _ status => simp [status] at ht
  | finalized _ _ _ _ hopen => exact absurd ht hopen
  | requeued status | deferred _ status | reaped status => simp [status] at ht

theorem terminal_of_terminal (h : Change r r') (ht : r.status.terminal) : r'.status.terminal := by
  rwa [h.eq_of_terminal ht]

end Row.Change

end Provisioning
