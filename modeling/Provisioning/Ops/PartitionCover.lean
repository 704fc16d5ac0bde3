import Provisioning.Ops.PartitionPass
import Provisioning.Ops.WellFormed

/-!
# A partition for every insert

`operations` has no default partition, so an `INSERT` on a day without one is an error. The passes of the
maintainers create the days ahead: while no more than `lookaheadDays` days go by without a pass that commits, every
`INSERT` finds its partition, whatever the passes drop.
-/

namespace Provisioning

open Lib

/-- The database with its maintainers. -/
structure MaintainedDb where
  db : Db
  /-- The day of the first pass. -/
  since : Nat
  /-- The latest day of a pass that committed. -/
  passDay : Nat

inductive MaintainedAction where
  | database (a : DbAction)
  /-- A pass ends that began on day `today`. -/
  | pass (faults : Nat → Option Fault) (today : Nat)

/-- Only a maintainer creates or drops partitions. -/
def DbAction.isPartition : DbAction → Bool
  | .createPartition _ | .countLive .. | .dropPartition _ | .abortDrop _ => true
  | _ => false

theorem Db.Stepped.partitions_eq {advisoryLockKey : String → BitVec 64} {db db' : Db} {a : DbAction}
    (h : db.Stepped advisoryLockKey a db') (hpart : a.isPartition = false) :
    db'.tables.partitions = db.tables.partitions := by
  cases h with
  | createPartition | countedNone | countedSome | dropPartition | abortDrop => cases hpart
  | finalize =>
    simp only [OperationStore.finalize]
    split
    · rfl
    · simp only [Tables.finalizeRow]
      split <;> rfl
  | requeue =>
    change (OperationStore.requeue _ _).2.partitions = _
    unfold OperationStore.requeue
    split <;> rfl
  | deferForReadback =>
    change (OperationStore.deferForReadback _ _ _).2.partitions = _
    unfold OperationStore.deferForReadback
    split <;> rfl
  | _ => rfl

theorem Db.Stepped.now_le {advisoryLockKey : String → BitVec 64} {db db' : Db} {a : DbAction}
    (h : db.Stepped advisoryLockKey a db') : db.now ≤ db'.now := by
  cases h with
  | tick ms => exact Nat.le_add_right _ _
  | _ => exact le_refl _

theorem Db.Stepped.startedAt_origin {advisoryLockKey : String → BitVec 64} {db db' : Db} {a : DbAction}
    (h : db.Stepped advisoryLockKey a db') {e : EnqueueTxn} (he : e ∈ db'.enqueues) :
    (∃ e₀ ∈ db.enqueues, e₀.startedAt = e.startedAt) ∨ e.startedAt = db.now := by
  have moved {db : Db} {sid : Nat} {phase : EnqueuePhase} (h : e ∈ (db.setPhase sid phase).enqueues) :
      ∃ e₀ ∈ db.enqueues, e₀.startedAt = e.startedAt := by
    obtain ⟨e₀, he₀, rfl⟩ := mem_setPhase.1 h
    exact ⟨e₀, he₀, by split <;> rfl⟩
  cases h with
  | beginEnqueue op fresh =>
    rcases List.mem_append.1 he with he | he
    · exact .inl ⟨e, he, rfl⟩
    · rw [List.mem_singleton.1 he]
      exact .inr rfl
  | lockKey | lookupFound | lookupMissing | inserted => exact .inl (moved he)
  | insertFailed | commitFound | commitFoundLost | commitInserted | commitInsertedLost | abortEnqueue =>
    exact .inl ⟨e, (mem_endEnqueue.1 he).1, rfl⟩
  | _ => exact .inl ⟨e, he, rfl⟩

namespace MaintainedDb

open PartitionMaintainer

variable (advisoryLockKey : String → BitVec 64) (config : PartitionMaintainerConfig)

/-- After the first pass. -/
def start (now : Nat) (t : Tables) : MaintainedDb where
  db := { Db.start now [] with tables := maintained config (dayOf now) t }
  since := dayOf now
  passDay := dayOf now

def step (s : MaintainedDb) : MaintainedAction → Option MaintainedDb
  | .database a => if a.isPartition then none else (s.db.step advisoryLockKey a).map fun db => { s with db := db }
  | .pass faults today =>
    if dayOf s.db.now < today then none
    else
      let pass := runPass faults config today s.db.tables
      some { s with
        db := { s.db with tables := pass.committed }
        passDay := if pass.ended then max s.passDay today else s.passDay }

/-- No more than `lookaheadDays` days go by without a pass that commits. -/
def punctual (_ : MaintainedDb) (_ : MaintainedAction) (s' : MaintainedDb) : Prop :=
  dayOf s'.db.now ≤ s'.passDay + config.lookahead

instance (s : MaintainedDb) (a : MaintainedAction) (s' : MaintainedDb) : Decidable (punctual config s a s') :=
  inferInstanceAs (Decidable (_ ≤ _))

variable {advisoryLockKey config} {s s' : MaintainedDb} {a : MaintainedAction}

structure Covers (config : PartitionMaintainerConfig) (s : MaintainedDb) : Prop where
  since : s.since ≤ dayOf s.db.now
  /-- The days from the first pass to the last day ahead, as far as they are retained. -/
  days : ∀ d, s.since ≤ d → d ≤ s.passDay + config.lookahead → dayOf s.db.now ≤ d + config.retentionDays →
    d ∈ s.db.tables.partitions
  current : dayOf s.db.now ≤ s.passDay + config.lookahead
  begun : ∀ e ∈ s.db.enqueues, s.since ≤ dayOf e.startedAt ∧ e.startedAt ≤ s.db.now

theorem dayOf_mono {t t' : Nat} (h : t ≤ t') : dayOf t ≤ dayOf t' := Nat.div_le_div_right h

theorem mem_maintained_of {t : Tables} {today d : Nat} (h : today ≤ d ∧ d ≤ today + config.lookahead ∨
    d ∈ t.partitions ∧ today ≤ d + config.retentionDays) : d ∈ (maintained config today t).partitions := by
  unfold maintained Tables.without
  refine List.mem_filter.2 ⟨?_, decide_eq_true fun hdrop => ?_⟩
  · rw [createSeries_spec.1]
    rcases h with h | h
    · exact .inr h
    · exact .inl h.1
  · have hold := (Tables.mem_candidates.1 (List.mem_filter.1 hdrop).1).2.2
    omega

theorem start_covers (now : Nat) (t : Tables) : (start config now t).Covers config where
  since := le_refl _
  days d hsince hahead _ := mem_maintained_of (.inl ⟨hsince, hahead⟩)
  current := Nat.le_add_right _ _
  begun e he := by simp [start, Db.start] at he

theorem Covers.stepped (inv : s.Covers config) {b : DbAction} {db : Db} (h : s.db.Stepped advisoryLockKey b db)
    (hpart : b.isPartition = false) (good : dayOf db.now ≤ s.passDay + config.lookahead) :
    ({ s with db := db } : MaintainedDb).Covers config where
  since := inv.since.trans (dayOf_mono h.now_le)
  days d hsince hahead hkept := by
    have hday := dayOf_mono h.now_le
    simp only [h.partitions_eq hpart]
    exact inv.days d hsince hahead (hday.trans hkept)
  current := good
  begun e he := by
    rcases h.startedAt_origin he with ⟨e₀, he₀, heq⟩ | heq
    · rw [← heq]
      exact ⟨(inv.begun e₀ he₀).1, (inv.begun e₀ he₀).2.trans h.now_le⟩
    · rw [heq]
      exact ⟨inv.since, h.now_le⟩

theorem Covers.step (inv : s.Covers config) (h : s.step advisoryLockKey config a = some s')
    (good : punctual config s a s') : s'.Covers config := by
  cases a with
  | database b =>
    simp only [MaintainedDb.step] at h
    split at h
    · cases h
    · rename_i hpart
      obtain ⟨db, hdb, rfl⟩ := Option.map_eq_some_iff.1 h
      exact inv.stepped (Db.stepped hdb) (by simpa using hpart) good
  | pass faults today =>
    simp only [MaintainedDb.step] at h
    split at h
    · cases h
    · rename_i htoday
      cases h
      rcases runPass_done_or_open faults config today s.db.tables with ⟨_, hdone⟩ | hopen
      · refine ⟨inv.since, fun d hsince hahead hkept => ?_, good, inv.begun⟩
        simp only [hdone.ended, if_true] at hahead hkept
        rw [hdone.committed]
        apply mem_maintained_of
        have hcurrent := inv.current
        by_cases hd : d ≤ s.passDay + config.lookahead
        · exact .inr ⟨inv.days d hsince hd hkept, by omega⟩
        · exact .inl (by omega)
      · refine ⟨inv.since, fun d hsince hahead hkept => ?_, good, inv.begun⟩
        simp only [hopen.ended, Bool.false_eq_true, if_false] at hahead
        rw [hopen.committed]
        exact inv.days d hsince hahead hkept

/-- **Every insert finds its partition.** The transaction is younger than the retention. -/
theorem inserts_find_partition {now : Nat} {t : Tables}
    (run : Runs (step advisoryLockKey config) (punctual config) (start config now t) s) {sid : Nat} {e : EnqueueTxn}
    (he : s.db.enqueue? sid = some e) (young : dayOf s.db.now ≤ dayOf e.startedAt + config.retentionDays) :
    dayOf e.startedAt ∈ s.db.tables.partitions ∧
      ∀ newId, e.phase = .missing → newId ∉ s.db.usedIds → s.db.insertOperation sid newId =
        some ({ s.db with usedIds := s.db.usedIds ++ [newId] }.setPhase sid
          (.inserted (e.op.newRow newId e.startedAt))) := by
  have inv : s.Covers config :=
    run.invariant _ (start_covers now t) fun _ _ _ inv h good => inv.step h good
  obtain ⟨hsince, hstarted⟩ := inv.begun e (lookup_some_mem he).1
  have covered := inv.days _ hsince ((dayOf_mono hstarted).trans inv.current) young
  refine ⟨covered, fun newId missing fresh => ?_⟩
  obtain ⟨sid', op, startedAt, phase⟩ := e
  simp only at missing
  subst missing
  simp only [Db.insertOperation, he]
  rw [if_neg fresh, if_pos covered]

/-- Two days go by. The pass of the first day is lost with its connection, and the pass of the second one drops the
first day. -/
def overMidnight : List MaintainedAction :=
  [.database (.tick 86400000), .pass (fun n => if n = 3 then some (.failed "connection lost") else none) 1,
    .database (.tick 86400000), .pass (fun _ => none) 2,
    .database (.beginEnqueue 1 ⟨"i", "User", .delete, "42", "k", none, some "42", none, none⟩),
    .database (.lockKey 1), .database (.lookupKey 1)]

def twoDaysAhead : PartitionMaintainerConfig := ⟨1, some 2, none⟩

theorem inserts_find_partition_overMidnight :
    ∃ s, exec (step (fun _ => 0) twoDaysAhead) (punctual twoDaysAhead) (start twoDaysAhead 0 ⟨[], [], []⟩)
        overMidnight = some s ∧ s.db.tables.partitions.contains 0 = false ∧
      ∃ e, s.db.enqueue? 1 = some e ∧ dayOf e.startedAt = 2 ∧ dayOf e.startedAt ∈ s.db.tables.partitions := by
  have h : (exec (step (fun _ => 0) twoDaysAhead) (punctual twoDaysAhead) (start twoDaysAhead 0 ⟨[], [], []⟩)
      overMidnight).bind (fun s => (s.db.enqueue? 1).map fun e =>
        (s.db.tables.partitions.contains 0, dayOf e.startedAt, dayOf s.db.now)) = some (false, 2, 2) := by
    decide +kernel
  obtain ⟨s, hs, h⟩ := Option.bind_eq_some_iff.1 h
  obtain ⟨e, he, h⟩ := Option.map_eq_some_iff.1 h
  simp only [Prod.mk.injEq] at h
  obtain ⟨hdropped, hday, hnow⟩ := h
  refine ⟨s, hs, hdropped, e, he, hday, (inserts_find_partition (runs_of_exec hs) he ?_).1⟩
  rw [hday, hnow]
  decide

end MaintainedDb

end Provisioning
