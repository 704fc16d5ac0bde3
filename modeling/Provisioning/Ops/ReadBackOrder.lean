import Provisioning.Ops.LaneExclusion

/-!
# Read-backs on a lane

The claim blocks a lane while a read-back waits. Once the wait is over the read-back is one
candidate among others, and `ORDER BY` puts an interactive operation before it.
-/

namespace Provisioning

open Lib

variable {advisoryLockKey : String → BitVec 64} {db db' : Db} {a : DbAction}

/-! ## A waiting row knows its time -/

namespace Db

def WaitsForATime (db : Db) : Prop :=
  ∀ r ∈ db.tables.operations, r.status = .live .awaitingReadback → r.notBefore.isSome

theorem WaitsForATime.step (inv : db.WaitsForATime) (wf : db.WellFormed)
    (h : db.Stepped advisoryLockKey a db') : db'.WaitsForATime := by
  intro r' hr' hwait
  rcases (h.rows wf).origin hr' with ⟨r, hr, hc⟩ | ⟨e, he, hp⟩
  · cases hc with
    | same => exact inv _ hr hwait
    | claimed => simp [Row.claimed] at hwait
    | finalized => simp [Row.finalized] at hwait
    | requeued => simp [Row.requeued] at hwait
    | deferred => rfl
    | reaped => simp [Row.reaped] at hwait
  · rw [(wf.ids.uncommitted e he r' hp).2.2] at hwait
    cases hwait

theorem Reachable.waitsForATime (h : Reachable advisoryLockKey db) : db.WaitsForATime := by
  obtain ⟨now, partitions, run⟩ := h
  refine (run.invariant (fun db => db.WellFormed ∧ db.WaitsForATime)
    ⟨wellFormed_start now partitions, ?_⟩ fun s a s' inv h _ => ?_).2
  · intro r hr
    simp [start] at hr
  · exact ⟨inv.1.step (stepped h), inv.2.step inv.1 (stepped h)⟩

end Db

/-! ## What an atomic claim takes -/

namespace Snapshot

variable {s : Snapshot} {args : ClaimArgs} {r w : Row}

/-- A claim that no cap and no active lane holds back. -/
def unlimited (instanceId : String) (n : Nat) : ClaimArgs := ⟨n, [], [(instanceId, ⟨n, n⟩)]⟩

theorem unlimited_cap? {instanceId : String} {n : Nat} (hn : 0 < n) :
    (unlimited instanceId n).cap? instanceId = some ⟨instanceId, n, n⟩ := by
  have hcaps : (unlimited instanceId n).caps = [⟨instanceId, n, n⟩] := by
    simp [unlimited, ClaimArgs.caps, hn]
  unfold ClaimArgs.cap?
  rw [hcaps]
  simp

theorem laneLeaders_of_leads {n : Nat} (hn : 0 < n) (hr : r ∈ s.rows) (hlead : s.Leads r) :
    r ∈ s.laneLeaders (unlimited r.instanceId n) := by
  have hcand : r ∈ s.candidates (unlimited r.instanceId n) := by
    refine mem_candidates.2 ⟨hr, hlead.claimable, ?_, ?_, hlead.unblocked⟩
    · rw [unlimited_cap? hn]
      rfl
    · simp [unlimited]
  refine List.mem_filter.2 ⟨hcand, ?_⟩
  have : s.laneRn (unlimited r.instanceId n) r = 1 := by
    unfold laneRn
    refine rank_one_iff.2 fun r' hr' hbefore => ?_
    obtain ⟨hmem, hclaim, -⟩ := mem_candidates.1 hr'
    exact hlead.first r' hmem hclaim hbefore.1 hbefore.2
  simpa using this

theorem picked_of_leads {n : Nat} (hn : s.rows.length ≤ n) (hr : r ∈ s.rows) (hlead : s.Leads r) :
    r ∈ s.picked (unlimited r.instanceId n) := by
  have hpos : 0 < n := Nat.lt_of_lt_of_le (List.length_pos_of_mem hr) hn
  have hleader := laneLeaders_of_leads hpos hr hlead
  have hlen : (s.laneLeaders (unlimited r.instanceId n)).length ≤ n :=
    Nat.le_trans (List.length_filter_le ..) (Nat.le_trans (List.length_filter_le ..) hn)
  have hrn : s.rn (unlimited r.instanceId n) r ≤ n :=
    Nat.le_trans (rank_le_length hleader fun h => before_irrefl r h.2) hlen
  have hclass : s.classRn (unlimited r.instanceId n) r ≤ n :=
    Nat.le_trans (rank_le_length hleader fun h => before_irrefl r h.2) hlen
  have hcapped : r ∈ s.capped (unlimited r.instanceId n) := by
    refine List.mem_filter.2 ⟨hleader, ?_⟩
    have : s.withinCaps (unlimited r.instanceId n) r := by
      unfold withinCaps
      rw [unlimited_cap? hpos]
      simp only [Option.any_some, decide_eq_true_eq]
      exact ⟨by omega, .inr (by omega)⟩
    simpa using this
  refine List.mem_filter.2 ⟨hcapped, ?_⟩
  have hrank : rank s.before (s.capped (unlimited r.instanceId n)) r ≤ n :=
    Nat.le_trans (rank_le_length hcapped (before_irrefl r)) (Nat.le_trans (List.length_filter_le ..) hlen)
  simp only [decide_eq_true_eq]
  exact Int.ofNat_le.2 hrank

theorem exists_leader (hr : r ∈ s.rows) (hclaim : r.claimable s.now) (hfree : ¬ s.blocked r) :
    ∃ m ∈ s.rows, m.sameLane r ∧ s.Leads m := by
  have hself : r ∈ s.rows.filter fun m => m.claimable s.now ∧ m.sameLane r :=
    List.mem_filter.2 ⟨hr, by simpa using ⟨hclaim, r.sameLane_refl⟩⟩
  obtain ⟨m, hm, hfirst⟩ := exists_first s.before (fun _ _ _ => before_trans) before_irrefl
    (List.ne_nil_of_mem hself)
  simp only [List.mem_filter, decide_eq_true_eq] at hm
  obtain ⟨hm, hmclaim, hml⟩ := hm
  refine ⟨m, hm, hml, hmclaim, ?_, fun r' hr' hclaim' hl => ?_⟩
  · rwa [blocked_sameLane hml]
  · exact hfirst r' (List.mem_filter.2 ⟨hr', by simpa using ⟨hclaim', hl.trans hml⟩⟩)

end Snapshot

theorem OperationStore.mem_claimBatch {args : ClaimArgs} {now : Nat} {tie : Uuid → Nat} {t : Tables}
    {op : ClaimedOperation} (h : op ∈ (claimBatch args now tie t).1) :
    ∃ r ∈ (Snapshot.mk t.operations now tie).picked args, ∃ p, op = r.toClaimed p := by
  unfold claimBatch at h
  split at h
  · cases h
  · obtain ⟨r, hr, hop⟩ := List.mem_filterMap.1 h
    obtain ⟨p, -, rfl⟩ := Option.map_eq_some_iff.1 hop
    exact ⟨r, hr, p, rfl⟩

theorem Row.claimable_live {now : Nat} {r : Row} (h : r.claimable now) :
    r.status = .live .pending ∨ r.status = .live .awaitingReadback := h.imp_right And.left

theorem OperationStore.claimBatch_of_leads {now : Nat} {tie : Uuid → Nat} {t : Tables} {m : Row}
    (hm : m ∈ t.operations) (hlead : (Snapshot.mk t.operations now tie).Leads m) :
    ∃ args, ∃ op ∈ (claimBatch args now tie t).1, ∃ p, op = m.toClaimed p := by
  have hpos : 0 < t.operations.length := List.length_pos_of_mem hm
  have hpicked : m ∈ (Snapshot.mk t.operations now tie).picked
      (Snapshot.unlimited m.instanceId t.operations.length) := Snapshot.picked_of_leads (Nat.le_refl _) hm hlead
  obtain ⟨p, hp⟩ : ∃ p, m.lockable = some p := by
    rcases Row.claimable_live hlead.claimable with hst | hst
    · exact ⟨_, Row.lockable_eq_some.2 ⟨hst, by simp⟩⟩
    · exact ⟨_, Row.lockable_eq_some.2 ⟨hst, by simp⟩⟩
  refine ⟨Snapshot.unlimited m.instanceId t.operations.length, m.toClaimed p, ?_, p, rfl⟩
  have hcaps : (Snapshot.unlimited m.instanceId t.operations.length).caps ≠ [] := by
    simp [Snapshot.unlimited, ClaimArgs.caps, hpos]
  have hlimit : ¬ (Snapshot.unlimited m.instanceId t.operations.length).limit ≤ 0 := by
    simp only [Snapshot.unlimited]
    omega
  unfold claimBatch
  rw [if_neg (by simp [hcaps, hlimit])]
  exact List.mem_filterMap.2 ⟨m, hpicked, by simp [hp]⟩

/-! ## The condition -/

/-- Before in `(priority = 'interactive') DESC, created_at`, and not only by the order of the scan. -/
def Row.strictlyBefore (r r' : Row) : Prop :=
  r.priority.order < r'.priority.order ∨ r.priority.order = r'.priority.order ∧ r.createdAt < r'.createdAt

instance (r r' : Row) : Decidable (r.strictlyBefore r') := inferInstanceAs (Decidable (_ ∨ _))

namespace Db

/-- On a lane that nothing blocks, a due read-back comes before every other claimable row, and
these are all `PENDING`. -/
def ReadBacksLead (db : Db) : Prop :=
  ∀ w ∈ db.tables.operations, w.status = .live .awaitingReadback → w.isDue db.now →
    ¬ (Snapshot.mk db.tables.operations db.now fun _ => 0).blocked w →
    ∀ r ∈ db.tables.operations, r.claimable db.now → r.sameLane w → r.id ≠ w.id →
      r.status = .live .pending ∧ w.strictlyBefore r

instance (db : Db) : Decidable db.ReadBacksLead :=
  inferInstanceAs (Decidable (∀ w ∈ db.tables.operations, _))

/-- No claim takes a row of a lane on which another row awaits its read-back. -/
def ClaimsRespectReadBacks (db : Db) : Prop :=
  ∀ args tie, ∀ op ∈ (OperationStore.claimBatch args db.now tie db.tables).1,
    ∀ w ∈ db.tables.operations, w.instanceId = op.instanceId → w.laneKey = op.laneKey →
      w.status = .live .awaitingReadback → w.id.text = op.id

theorem WaitsForATime.due {tie : Uuid → Nat} {w : Row} (waits : db.WaitsForATime)
    (hw : w ∈ db.tables.operations) (hst : w.status = .live .awaitingReadback)
    (hfree : ¬ (Snapshot.mk db.tables.operations db.now tie).blocked w) : w.isDue db.now := by
  obtain ⟨n, hn⟩ := Option.isSome_iff_exists.1 (waits w hw hst)
  by_contra hdue
  refine hfree ⟨w, hw, .inr ⟨hst, ?_⟩, w.sameLane_refl⟩
  unfold Row.isDue at hdue
  unfold Row.isWaiting
  simp only [hn, Option.any_some, decide_eq_true_eq] at hdue ⊢
  omega

theorem ReadBacksLead.respects (lead : db.ReadBacksLead) (waits : db.WaitsForATime) :
    db.ClaimsRespectReadBacks := by
  intro args tie op hop w hw hi hk hst
  obtain ⟨r, hr, p, rfl⟩ := OperationStore.mem_claimBatch hop
  obtain ⟨hmem, hlead⟩ := Snapshot.leads_of_picked hr
  have hl : r.sameLane w := ⟨hi.symm, hk.symm⟩
  have hfree : ¬ (Snapshot.mk db.tables.operations db.now tie).blocked w := by
    rw [← Snapshot.blocked_sameLane hl]
    exact hlead.unblocked
  have hdue := waits.due hw hst hfree
  by_contra hne
  have hid : r.id ≠ w.id := fun h => hne (congrArg Uuid.text h.symm)
  obtain ⟨-, hbefore⟩ := lead w hw hst hdue hfree r hmem hlead.claimable hl hid
  refine hlead.first w hw (.inr ⟨hst, hdue⟩) hl.symm ?_
  unfold Row.strictlyBefore at hbefore
  unfold Snapshot.before
  omega

theorem ClaimsRespectReadBacks.lead (respects : db.ClaimsRespectReadBacks) (wf : db.WellFormed) :
    db.ReadBacksLead := by
  intro w hw hst hdue hfree r hr hclaim hl hid
  -- Ties go against the read-back.
  let tie : Uuid → Nat := fun u => if u = w.id then 1 else 0
  obtain ⟨m, hm, hml, hlead⟩ := @Snapshot.exists_leader ⟨db.tables.operations, db.now, tie⟩ w hw
    (.inr ⟨hst, hdue⟩) hfree
  obtain ⟨args, op, hop, p, rfl⟩ := OperationStore.claimBatch_of_leads hm hlead
  have hmw : m.id = w.id :=
    (Uuid.text_injective (respects args tie _ hop w hw hml.1.symm hml.2.symm hst)).symm
  have hpending : r.status = .live .pending := by
    refine (Row.claimable_live hclaim).resolve_right fun hwait => hid ?_
    have hlm : r.sameLane m := hl.trans hml.symm
    exact (Uuid.text_injective (respects args tie _ hop r hr hlm.1 hlm.2 hwait)).trans hmw
  refine ⟨hpending, ?_⟩
  obtain rfl : m = w := eq_of_key_eq wf.ids.nodup hm hw hmw
  have hnot := hlead.first r hr hclaim hl
  have htie : tie r.id = 0 ∧ tie m.id = 1 := ⟨if_neg hid, if_pos rfl⟩
  unfold Snapshot.before at hnot
  unfold Row.strictlyBefore
  simp only [htie.1, htie.2] at hnot
  omega

/-! ## The result -/

/-- **When a pending read-back is not overtaken.** In a reachable state no atomic claim, whatever
its limit, active lanes and availability, takes a row beside a read-back of its lane, if and only
if the due read-backs lead their lanes. -/
theorem claims_respect_readBacks_iff (reachable : Reachable advisoryLockKey db) :
    db.ClaimsRespectReadBacks ↔ db.ReadBacksLead :=
  ⟨fun h => h.lead reachable.wellFormed, fun h => h.respects reachable.waitsForATime⟩

/-- A create is claimed and deferred, and its wait passes. -/
def deferredCreate : List DbAction :=
  enqueued 1 "first" .batch 7 ++
    [.beginClaim 1 1 claimAll fun _ => 0, .lockRow 1 7 false, .commitClaim 1,
      .deferForReadback (Uuid.text 7) 5, .tick 10]

theorem claims_respect_readBacks_alone :
    ∃ db, exec (Db.step fun _ => 0) anyStep (start 0 [0]) deferredCreate = some db ∧
      db.ClaimsRespectReadBacks := by
  have h : (exec (Db.step fun _ => 0) anyStep (start 0 [0]) deferredCreate).any
      fun db => decide db.ReadBacksLead := by
    decide
  obtain ⟨db, hdb, hlead⟩ := (Option.any_eq_true ..).1 h
  exact ⟨db, hdb, (claims_respect_readBacks_iff ⟨0, [0], runs_of_exec hdb⟩).2 (by simpa using hlead)⟩

/-- An interactive operation of the lane arrives, and the claim takes it instead of the read-back. -/
theorem overtaken_readBack : ∃ db, Reachable (fun _ => 0) db ∧ ¬ db.ClaimsRespectReadBacks := by
  have h : (exec (Db.step fun _ => 0) anyStep (start 0 [0])
        (deferredCreate ++ enqueued 2 "second" .interactive 8)).any fun db =>
      ((OperationStore.claimBatch claimAll db.now (fun _ => 0) db.tables).1.any fun op =>
        db.tables.operations.any fun w =>
          w.instanceId = op.instanceId ∧ w.laneKey = op.laneKey ∧ w.status = .live .awaitingReadback ∧
            w.id.text ≠ op.id) := by
    decide
  obtain ⟨db, hdb, hop⟩ := (Option.any_eq_true ..).1 h
  obtain ⟨op, hop, hw⟩ := List.any_eq_true.1 hop
  obtain ⟨w, hw, hwait⟩ := List.any_eq_true.1 hw
  obtain ⟨hi, hk, hst, hne⟩ := of_decide_eq_true hwait
  exact ⟨db, ⟨0, [0], runs_of_exec hdb⟩, fun respects => hne (respects _ _ op hop w hw hi hk hst)⟩

end Db

end Provisioning
