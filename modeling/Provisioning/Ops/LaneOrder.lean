import Provisioning.Ops.AtomicClaim
import Provisioning.Ops.ReadBackOrder

/-!
# The order on a lane

A claim takes the row in front of a lane that nothing blocks. A row of the lane with the same
priority that is older and not terminal would block the lane or stand in front.
-/

namespace Provisioning

open Lib

variable {advisoryLockKey : String → BitVec 64} {db : Db} {args : ClaimArgs} {tie : Uuid → Nat} {now : Nat}
  {t : Tables}

theorem Db.Reachable.claimBatch (reachable : Reachable advisoryLockKey db) (unclaimed : db.claims = []) :
    Reachable advisoryLockKey { db with tables := (OperationStore.claimBatch args db.now tie db.tables).2 } := by
  obtain ⟨start, partitions, run⟩ := reachable
  exact ⟨start, partitions, run.trans (claimBatch_runs ((wellFormed_start start partitions).run run) unclaimed)⟩

/-! ## The lane of a claimed operation -/

def Row.onLaneOf (op : ClaimedOperation) (w : Row) : Prop := w.instanceId = op.instanceId ∧ w.laneKey = op.laneKey

instance (op : ClaimedOperation) (w : Row) : Decidable (w.onLaneOf op) := inferInstanceAs (Decidable (_ ∧ _))

/-- On its lane `op` is not early: what is older and of its priority is terminal, and no other row is
`RUNNING` or waits for its read-back. -/
structure ClaimedOperation.InOrder (op : ClaimedOperation) (now : Nat) (t : Tables) : Prop where
  older : ∀ w ∈ t.operations, w.onLaneOf op → w.priority = op.priority → w.createdAt < op.createdAt →
    w.status.terminal
  alone : ∀ w ∈ t.operations, w.onLaneOf op → w.id.text ≠ op.id → ¬ w.blocksLane now

/-- What is older than the leader of its lane, with the same priority, is terminal. -/
theorem Db.WaitsForATime.older {r w : Row} (waits : db.WaitsForATime) (hw : w ∈ db.tables.operations)
    (lead : (Snapshot.mk db.tables.operations db.now tie).Leads r) (hl : w.sameLane r)
    (hp : w.priority = r.priority) (hc : w.createdAt < r.createdAt) : w.status.terminal := by
  have hfront : (Snapshot.mk db.tables.operations db.now tie).before w r := by
    unfold Snapshot.before
    rw [hp]
    omega
  have hunclaimable : ¬ w.claimable db.now := fun hclaim => lead.first w hw hclaim hl hfront
  by_contra hopen
  obtain ⟨p, hst⟩ := (OperationStatus.not_terminal_iff _).1 hopen
  cases p with
  | pending => exact hunclaimable (.inl hst)
  | running => exact lead.not_running hw hl hst
  | awaitingReadback =>
    have hfree : ¬ (Snapshot.mk db.tables.operations db.now tie).blocked w := by
      rw [Snapshot.blocked_sameLane hl]
      exact lead.unblocked
    exact hunclaimable (.inr ⟨hst, waits.due hw hst hfree⟩)

/-- The claim leaves every other row of the lane as it was. -/
theorem OperationStore.claimBatch_lane {r w' : Row} (ids : (t.operations.map Row.id).Nodup)
    (hr : r ∈ (Snapshot.mk t.operations now tie).picked args)
    (hw' : w' ∈ (claimBatch args now tie t).2.operations) (hl : w'.sameLane r) :
    ∃ w ∈ t.operations, w.SameOperation w' ∧ (w.id ≠ r.id → w' = w) := by
  unfold claimBatch at hw'
  split at hw'
  · exact ⟨w', hw', (Row.Change.same w').sameOperation, fun _ => rfl⟩
  · obtain ⟨w, hw, rfl⟩ := mem_updateWhere.1 hw'
    refine ⟨w, hw, ?_⟩
    split
    · rename_i hp
      rw [if_pos hp] at hl
      have same : w.SameOperation (w.claimed now) := by constructor <;> rfl
      refine ⟨same, fun hne => ?_⟩
      obtain ⟨q, hq, hid, -⟩ := hp
      obtain ⟨hqmem, hqlead⟩ := Snapshot.leads_of_picked hq
      obtain rfl : q = w := eq_of_key_eq ids hqmem hw hid
      obtain ⟨hmem, lead⟩ := Snapshot.leads_of_picked hr
      exact absurd (hqlead.unique hqmem lead hmem (same.sameLane.trans hl)) hne
    · exact ⟨(Row.Change.same w).sameOperation, fun _ => rfl⟩

/-! ## The result -/

/-- **Operations of one lane and class run in enqueue order.** -/
theorem claimed_in_order (reachable : Db.Reachable advisoryLockKey db) {op : ClaimedOperation}
    (claimed : op ∈ (OperationStore.claimBatch args db.now tie db.tables).1) :
    op.InOrder db.now db.tables ∧
      op.InOrder db.now (OperationStore.claimBatch args db.now tie db.tables).2 := by
  obtain ⟨r, hr, p, rfl⟩ := OperationStore.mem_claimBatch claimed
  obtain ⟨hmem, lead⟩ := Snapshot.leads_of_picked hr
  have older {w : Row} (hw : w ∈ db.tables.operations) (hl : w.sameLane r) (hp : w.priority = r.priority)
      (hc : w.createdAt < r.createdAt) : w.status.terminal := reachable.waitsForATime.older hw lead hl hp hc
  have alone {w : Row} (hw : w ∈ db.tables.operations) (hl : w.sameLane r) : ¬ w.blocksLane db.now :=
    fun hblocks => lead.unblocked ⟨w, hw, hblocks, hl⟩
  have after {w' : Row} (hw' : w' ∈ (OperationStore.claimBatch args db.now tie db.tables).2.operations)
      (hl : w'.sameLane r) := OperationStore.claimBatch_lane reachable.wellFormed.ids.nodup hr hw' hl
  constructor
  · exact ⟨fun w hw hl hp hc => older hw hl hp hc, fun w hw hl _ => alone hw hl⟩
  · constructor
    · intro w' hw' hl hp hc
      obtain ⟨w, hw, same, hspared⟩ := after hw' hl
      have hne : w.id ≠ r.id := by
        intro heq
        obtain rfl := eq_of_key_eq reachable.wellFormed.ids.nodup hw hmem heq
        exact absurd hc (same.createdAt ▸ Nat.lt_irrefl _)
      rw [hspared hne] at hl hp hc ⊢
      exact older hw hl hp hc
    · intro w' hw' hl hid
      obtain ⟨w, hw, same, hspared⟩ := after hw' hl
      have hne : w.id ≠ r.id := fun heq => hid (congrArg Uuid.text (same.id.trans heq))
      rw [hspared hne] at hl ⊢
      exact alone hw hl

/-! ## Two operations of one lane -/

/-- The first of two is claimed and finalized. -/
def firstFinalized : List DbAction :=
  Db.enqueued 1 "first" .batch 7 ++ [.tick 1] ++ Db.enqueued 2 "second" .batch 8 ++
    [.beginClaim 3 1 Db.claimAll fun _ => 0, .lockRow 3 7 false, .commitClaim 3,
      .finalize (Uuid.text 7) .succeeded none none 1]

theorem claimed_in_order_second :
    ∃ db, exec (Db.step fun _ => 0) anyStep (Db.start 0 [0]) firstFinalized = some db ∧
      ∃ op ∈ (OperationStore.claimBatch Db.claimAll db.now (fun _ => 0) db.tables).1, op.id = Uuid.text 8 ∧
        op.InOrder db.now db.tables ∧
          op.InOrder db.now (OperationStore.claimBatch Db.claimAll db.now (fun _ => 0) db.tables).2 := by
  have h : (exec (Db.step fun _ => 0) anyStep (Db.start 0 [0]) firstFinalized).any fun db =>
      (OperationStore.claimBatch Db.claimAll db.now (fun _ => 0) db.tables).1.any
        fun op => op.id = Uuid.text 8 := by
    decide
  obtain ⟨db, hdb, hany⟩ := (Option.any_eq_true ..).1 h
  obtain ⟨op, hop, hid⟩ := List.any_eq_true.1 hany
  exact ⟨db, hdb, op, hop, of_decide_eq_true hid, claimed_in_order ⟨0, [0], runs_of_exec hdb⟩ hop⟩

end Provisioning
