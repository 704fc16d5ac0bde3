import Provisioning.Ops.Database

/-!
# What one step of the database can do

`Stepped` says everything that a step does, guards included. The invariants are proved from it.
-/

namespace Provisioning

open Lib

inductive Db.Stepped (advisoryLockKey : String → BitVec 64) (db : Db) : DbAction → Db → Prop
  | tick (ms : Nat) : Stepped advisoryLockKey db (.tick ms) { db with now := db.now + ms }
  | beginEnqueue {sid : Nat} (op : EnqueueInput) (fresh : db.enqueue? sid = none) :
      Stepped advisoryLockKey db (.beginEnqueue sid op)
        { db with enqueues := db.enqueues ++ [⟨sid, op, db.now, .begun⟩] }
  | lockKey {sid : Nat} {e : EnqueueTxn} (he : db.enqueue? sid = some e) (phase : e.phase = .begun)
      (free : ∀ e' ∈ db.enqueues, e'.phase.holdsLock →
        advisoryLockKey e'.op.idempotencyKey ≠ advisoryLockKey e.op.idempotencyKey) :
      Stepped advisoryLockKey db (.lockKey sid) (db.setPhase sid .locked)
  | lookupFound {sid : Nat} {e : EnqueueTxn} {prior : Row} (he : db.enqueue? sid = some e)
      (phase : e.phase = .locked) (hit : db.tables.latestWithKey e.op.idempotencyKey = some prior) :
      Stepped advisoryLockKey db (.lookupKey sid) (db.setPhase sid (.found prior.id))
  | lookupMissing {sid : Nat} {e : EnqueueTxn} (he : db.enqueue? sid = some e)
      (phase : e.phase = .locked) (miss : db.tables.latestWithKey e.op.idempotencyKey = none) :
      Stepped advisoryLockKey db (.lookupKey sid) (db.setPhase sid .missing)
  | inserted {sid : Nat} {e : EnqueueTxn} {newId : Uuid} (he : db.enqueue? sid = some e)
      (phase : e.phase = .missing) (fresh : newId ∉ db.usedIds)
      (covered : dayOf e.startedAt ∈ db.tables.partitions) :
      Stepped advisoryLockKey db (.insertOperation sid newId)
        ({ db with usedIds := db.usedIds ++ [newId] }.setPhase sid (.inserted (e.op.newRow newId e.startedAt)))
  | insertFailed {sid : Nat} {e : EnqueueTxn} {newId : Uuid} (he : db.enqueue? sid = some e)
      (phase : e.phase = .missing) :
      Stepped advisoryLockKey db (.insertOperation sid newId) (db.endEnqueue sid)
  | commitFound {sid : Nat} {e : EnqueueTxn} {id : Uuid} (he : db.enqueue? sid = some e)
      (phase : e.phase = .found id) :
      Stepped advisoryLockKey db (.commitEnqueue sid true)
        ((db.endEnqueue sid).answered e.op.idempotencyKey id true)
  | commitFoundLost {sid : Nat} {e : EnqueueTxn} {id : Uuid} (he : db.enqueue? sid = some e)
      (phase : e.phase = .found id) :
      Stepped advisoryLockKey db (.commitEnqueue sid false) (db.endEnqueue sid)
  | commitInserted {sid : Nat} {e : EnqueueTxn} {row : Row} (he : db.enqueue? sid = some e)
      (phase : e.phase = .inserted row) :
      Stepped advisoryLockKey db (.commitEnqueue sid true)
        (((db.endEnqueue sid).insertRow row).answered e.op.idempotencyKey row.id false)
  | commitInsertedLost {sid : Nat} {e : EnqueueTxn} {row : Row} (he : db.enqueue? sid = some e)
      (phase : e.phase = .inserted row) :
      Stepped advisoryLockKey db (.commitEnqueue sid false)
        { (db.endEnqueue sid).insertRow row with lostAcks := db.lostAcks ++ [row.id] }
  | abortEnqueue (sid : Nat) : Stepped advisoryLockKey db (.abortEnqueue sid) (db.endEnqueue sid)
  | beginClaim {sid caller : Nat} {args : ClaimArgs} {tie : Uuid → Nat} (fresh : db.claim? sid = none) :
      Stepped advisoryLockKey db (.beginClaim sid caller args tie)
        { db with claims := db.claims ++
            [⟨sid, caller, args, ⟨db.tables.operations, db.now, tie⟩,
              ((Snapshot.mk db.tables.operations db.now tie).picked args).map Row.id⟩] }
  | rowSkipped {sid : Nat} {u : Uuid} {busy : Bool} :
      Stepped advisoryLockKey db (.lockRow sid u busy) (db.visit sid u)
  | rowLocked {sid : Nat} {u : Uuid} {c : ClaimStatement} {r : Row} {prior : OperationPendingStatus}
      (hc : db.claim? sid = some c) (picked : u ∈ c.todo) (free : ∀ l ∈ db.locks, l.id ≠ u)
      (hr : db.row? u = some r) (lockable : r.lockable = some prior) :
      Stepped advisoryLockKey db (.lockRow sid u false)
        { db.visit sid u with locks := db.locks ++ [⟨u, sid, prior⟩] }
  | commitClaim {sid : Nat} {c : ClaimStatement} (hc : db.claim? sid = some c) (done : c.todo = []) :
      Stepped advisoryLockKey db (.commitClaim sid) ((db.claimLocked sid c.snapshot.now).endClaim sid)
  | abortClaim (sid : Nat) : Stepped advisoryLockKey db (.abortClaim sid) (db.endClaim sid)
  | finalize {id : String} {outcome : OperationOutcome} {result : Option Json} {errorCode : Option String}
      {began : Nat} (hb : began ≤ db.now) (free : ∀ l ∈ db.locks, operationIdOf id ≠ some l.id) :
      Stepped advisoryLockKey db (.finalize id outcome result errorCode began)
        { db with tables := (OperationStore.finalize id outcome result errorCode began db.tables).2 }
  | requeue (id : String) : Stepped advisoryLockKey db (.requeue id) (db.requeue id)
  | deferForReadback (id : String) (notBefore : Nat) :
      Stepped advisoryLockKey db (.deferForReadback id notBefore) (db.deferForReadback id notBefore)
  | reapStale {thresholdMs readBackDelayMs began : Nat} {seen : List Uuid} (hb : began ≤ db.now) :
      Stepped advisoryLockKey db (.reapStale thresholdMs readBackDelayMs began seen)
        { db with tables :=
            (OperationStore.reapStale thresholdMs readBackDelayMs began seen db.tables).2 }
  | createPartition (day : Nat) :
      Stepped advisoryLockKey db (.createPartition day) { db with tables := db.tables.createPartition day }
  | countedNone {day retentionDays : Nat} (retained : day + retentionDays < dayOf db.now)
      (none : db.tables.liveRows day = 0) :
      Stepped advisoryLockKey db (.countLive day retentionDays) { db with dropping := db.dropping ++ [day] }
  | countedSome {day retentionDays : Nat} : Stepped advisoryLockKey db (.countLive day retentionDays) db
  | dropPartition {day : Nat} (counted : day ∈ db.dropping) (unclaimed : db.claims = [])
      (untouched : ∀ e ∈ db.enqueues, ¬ e.phase.touchesTable) :
      Stepped advisoryLockKey db (.dropPartition day)
        { db with tables := db.tables.dropTable day, dropping := db.dropping.filter (· ≠ day) }
  | abortDrop (day : Nat) : Stepped advisoryLockKey db (.abortDrop day) (db.abortDrop day)

theorem Db.stepped {advisoryLockKey : String → BitVec 64} {db db' : Db} {a : DbAction}
    (h : db.step advisoryLockKey a = some db') : db.Stepped advisoryLockKey a db' := by
  cases a with
  | tick ms => cases h; exact .tick ms
  | beginEnqueue sid op =>
    simp only [Db.step, Db.beginEnqueue, Option.ite_none_left_eq_some, Option.some.injEq] at h
    obtain ⟨hn, rfl⟩ := h
    exact .beginEnqueue op (by simpa using hn)
  | lockKey sid =>
    simp only [Db.step, Db.lockKey] at h
    split at h
    · rename_i he
      simp only [Option.ite_none_left_eq_some, Option.some.injEq] at h
      obtain ⟨hn, rfl⟩ := h
      exact .lockKey he rfl fun e' he' hl heq => hn ⟨e', he', hl, heq⟩
    · cases h
  | lookupKey sid =>
    simp only [Db.step, Db.lookupKey] at h
    split at h
    · rename_i he
      split at h <;> cases h
      · exact .lookupFound he rfl ‹_›
      · exact .lookupMissing he rfl ‹_›
    · cases h
  | insertOperation sid newId =>
    simp only [Db.step, Db.insertOperation] at h
    split at h
    · rename_i he
      simp only [Option.ite_none_left_eq_some] at h
      obtain ⟨hfresh, h⟩ := h
      split at h <;> cases h
      · exact .inserted he rfl hfresh ‹_›
      · exact .insertFailed he rfl
    · cases h
  | commitEnqueue sid acknowledged =>
    simp only [Db.step, Db.commitEnqueue] at h
    split at h
    · rename_i he
      cases acknowledged <;> cases h
      · exact .commitFoundLost he rfl
      · exact .commitFound he rfl
    · rename_i he
      cases acknowledged <;> cases h
      · exact .commitInsertedLost he rfl
      · exact .commitInserted he rfl
    · cases h
  | abortEnqueue sid =>
    simp only [Db.step, Db.abortEnqueue, Option.ite_none_right_eq_some, Option.some.injEq] at h
    obtain ⟨-, rfl⟩ := h
    exact .abortEnqueue sid
  | beginClaim sid caller args tie =>
    simp only [Db.step, Db.beginClaim, Option.ite_none_left_eq_some, Option.some.injEq, not_or] at h
    obtain ⟨⟨hn, -⟩, rfl⟩ := h
    exact .beginClaim (by simpa using hn)
  | lockRow sid u busy =>
    simp only [Db.step, Db.lockRow] at h
    split at h
    · cases h
    · rename_i c hc
      simp only [Option.ite_none_left_eq_some, not_not] at h
      obtain ⟨hu, h⟩ := h
      split at h
      · cases h; exact .rowSkipped
      · rename_i hfree
        simp only [not_or, Bool.not_eq_true, not_exists, not_and] at hfree
        obtain ⟨rfl, hfree⟩ := hfree
        split at h <;> cases h
        · exact .rowSkipped
        · rename_i prior hprior
          obtain ⟨r, hr, hlock⟩ := Option.bind_eq_some_iff.1 hprior
          exact .rowLocked hc hu hfree hr hlock
  | commitClaim sid =>
    simp only [Db.step, Db.commitClaim] at h
    split at h
    · cases h
    · rename_i c hc
      simp only [Option.ite_none_right_eq_some, Option.some.injEq] at h
      obtain ⟨hdone, rfl⟩ := h
      exact .commitClaim hc hdone
  | abortClaim sid =>
    simp only [Db.step, Db.abortClaim, Option.ite_none_right_eq_some, Option.some.injEq] at h
    obtain ⟨-, rfl⟩ := h
    exact .abortClaim sid
  | finalize id outcome result errorCode began =>
    simp only [Db.step, Db.finalize, Option.ite_none_right_eq_some, Option.some.injEq] at h
    obtain ⟨⟨hb, hfree⟩, rfl⟩ := h
    exact .finalize hb hfree
  | requeue id => cases h; exact .requeue id
  | deferForReadback id notBefore => cases h; exact .deferForReadback id notBefore
  | reapStale thresholdMs readBackDelayMs began seen =>
    simp only [Db.step, Db.reapStale, Option.ite_none_right_eq_some, Option.some.injEq] at h
    obtain ⟨hb, rfl⟩ := h
    exact .reapStale hb
  | createPartition day => cases h; exact .createPartition day
  | countLive day retentionDays =>
    simp only [Db.step, Db.countLive, Option.ite_none_right_eq_some, Option.some.injEq] at h
    obtain ⟨⟨-, hday, -⟩, rfl⟩ := h
    split
    · rename_i hnone
      exact .countedNone hday hnone
    · exact .countedSome
  | dropPartition day =>
    simp only [Db.step, Db.dropPartition, Option.ite_none_right_eq_some, Option.some.injEq,
      List.isEmpty_iff] at h
    obtain ⟨⟨hcounted, hclaims, htouch⟩, rfl⟩ := h
    exact .dropPartition hcounted hclaims htouch
  | abortDrop day => cases h; exact .abortDrop day

end Provisioning
