import Provisioning.Ops.Admission
import Provisioning.Ops.EnqueueOnce

/-!
# A repeated request at the gate

`admitAndEnqueue` of `src/ops/admission.ts` with the store behind it. The gate reads the backlog
before `enqueue` looks for the key, so a repeat can be refused where the first call was accepted.
-/

namespace Provisioning

open Lib

/-! ## One enqueue -/

namespace Db

/-- `db` with one more transaction. -/
def during (sid : Nat) (op : EnqueueInput) (phase : EnqueuePhase) (used : List Uuid) (db : Db) : Db :=
  { db with enqueues := db.enqueues ++ [⟨sid, op, db.now, phase⟩], usedIds := used }

variable {advisoryLockKey : String → BitVec 64} {db : Db} {sid : Nat} {op : EnqueueInput} {used : List Uuid}

theorem enqueue?_during (idle : db.enqueue? sid = none) (phase : EnqueuePhase) :
    (db.during sid op phase used).enqueue? sid = some ⟨sid, op, db.now, phase⟩ := by
  unfold enqueue? at idle ⊢
  unfold during
  rw [lookup_append, idle]
  simp [lookup]

theorem setPhase_during (idle : db.enqueue? sid = none) (phase phase' : EnqueuePhase) :
    (db.during sid op phase used).setPhase sid phase' = db.during sid op phase' used := by
  have others : updateWhere (fun e => e.sid = sid) (fun e => { e with phase := phase' }) db.enqueues =
      db.enqueues := by
    refine updateWhere_of_none fun e he hs => ?_
    exact lookup_none_iff.1 idle (List.mem_map.2 ⟨e, he, hs⟩)
  unfold updateWhere at others
  simp [during, setPhase, updateWhere, others]

theorem endEnqueue_during (idle : db.enqueue? sid = none) (phase : EnqueuePhase) :
    (db.during sid op phase used).endEnqueue sid = { db with usedIds := used } := by
  have others : db.enqueues.filter (fun e => e.sid ≠ sid) = db.enqueues := by
    refine List.filter_eq_self.2 fun e he => decide_eq_true fun hs => ?_
    exact lookup_none_iff.1 idle (List.mem_map.2 ⟨e, he, hs⟩)
  unfold during endEnqueue
  rw [List.filter_append, others]
  simp

/-- What `lookupKey` leaves behind. -/
def lookedUp (op : EnqueueInput) (db : Db) : EnqueuePhase :=
  ((db.tables.latestWithKey op.idempotencyKey).map fun prior => .found prior.id).getD .missing

theorem runs_lookup (idle : db.enqueue? sid = none)
    (free : ∀ e ∈ db.enqueues, e.phase.holdsLock →
      advisoryLockKey e.op.idempotencyKey ≠ advisoryLockKey op.idempotencyKey) :
    Runs (Db.step advisoryLockKey) anyStep db (db.during sid op (db.lookedUp op) db.usedIds) := by
  have begun : db.step advisoryLockKey (.beginEnqueue sid op) = some (db.during sid op .begun db.usedIds) := by
    simp [Db.step, beginEnqueue, idle, during]
  have locked : (db.during sid op .begun db.usedIds).step advisoryLockKey (.lockKey sid) =
      some (db.during sid op .locked db.usedIds) := by
    simp only [Db.step, lockKey, enqueue?_during idle, setPhase_during idle]
    refine if_neg ?_
    rintro ⟨e, he, hl, hkey⟩
    rcases List.mem_append.1 he with he | he
    · exact free e he hl hkey
    · rw [List.mem_singleton.1 he] at hl
      simp [EnqueuePhase.holdsLock] at hl
  have looked : (db.during sid op .locked db.usedIds).step advisoryLockKey (.lookupKey sid) =
      some (db.during sid op (db.lookedUp op) db.usedIds) := by
    have htables : (db.during sid op .locked db.usedIds).tables = db.tables := rfl
    simp only [Db.step, lookupKey, enqueue?_during idle, setPhase_during idle, htables, lookedUp]
    cases db.tables.latestWithKey op.idempotencyKey <;> rfl
  exact ((Runs.start.next begun trivial).next locked trivial).next looked trivial

/-- The steps of one transaction compute `OperationStore.enqueue`. -/
theorem runs_enqueue (idle : db.enqueue? sid = none)
    (free : ∀ e ∈ db.enqueues, e.phase.holdsLock →
      advisoryLockKey e.op.idempotencyKey ≠ advisoryLockKey op.idempotencyKey)
    {newId : Uuid} (fresh : newId ∉ db.usedIds) :
    ∃ db', Runs (Db.step advisoryLockKey) anyStep db db' ∧
      db'.tables = (OperationStore.enqueue op newId db.now db.tables).2 ∧
      db'.answers = db.answers ++
        ((OperationStore.enqueue op newId db.now db.tables).1.map (EnqueueAnswer.mk op.idempotencyKey)).toList := by
  have run := runs_lookup idle free
  unfold OperationStore.enqueue
  cases hprior : db.tables.latestWithKey op.idempotencyKey with
  | some prior =>
    have hlooked : db.lookedUp op = .found prior.id := by simp [lookedUp, hprior]
    rw [hlooked] at run
    have committed : (db.during sid op (.found prior.id) db.usedIds).step advisoryLockKey
        (.commitEnqueue sid true) = some (db.answered op.idempotencyKey prior.id true) := by
      simp only [Db.step, commitEnqueue, enqueue?_during idle, endEnqueue_during idle, if_true]
    exact ⟨_, run.next committed trivial, rfl, rfl⟩
  | none =>
    have hlooked : db.lookedUp op = .missing := by simp [lookedUp, hprior]
    rw [hlooked] at run
    have hused : (db.during sid op .missing db.usedIds).usedIds = db.usedIds := rfl
    have hparts : (db.during sid op .missing db.usedIds).tables = db.tables := rfl
    by_cases hday : dayOf db.now ∈ db.tables.partitions
    · let row := op.newRow newId db.now
      let used := db.usedIds ++ [newId]
      have inserted : (db.during sid op .missing db.usedIds).step advisoryLockKey (.insertOperation sid newId) =
          some (db.during sid op (.inserted row) used) := by
        simp only [Db.step, insertOperation, enqueue?_during idle, hused, hparts, fresh, hday, if_true, if_false]
        exact congrArg some (setPhase_during idle .missing (.inserted row))
      have committed : (db.during sid op (.inserted row) used).step advisoryLockKey (.commitEnqueue sid true) =
          some ((({ db with usedIds := used } : Db).insertRow row).answered op.idempotencyKey newId false) := by
        simp only [Db.step, commitEnqueue, enqueue?_during idle, endEnqueue_during idle, if_true]
        rfl
      refine ⟨_, (run.next inserted trivial).next committed trivial, ?_, ?_⟩
      · simp [hday, answered, insertRow, row]
      · simp [hday, answered, insertRow]
    · have failed : (db.during sid op .missing db.usedIds).step advisoryLockKey (.insertOperation sid newId) =
          some db := by
        simp only [Db.step, insertOperation, enqueue?_during idle, hused, hparts, fresh, hday, if_false,
          endEnqueue_during idle]
      exact ⟨_, run.next failed trivial, by simp [hday], by simp [hday]⟩

end Db

/-! ## One admission -/

/-- `admitAndEnqueue` with the store in state `t`. -/
def OperationStore.admitAndEnqueue (op : AdmitInput) (caps : AdmissionCaps) (newId : Uuid) (now : Nat)
    (t : Tables) : Except RouteError (Option EnqueueResult) × Tables :=
  match Provisioning.admitAndEnqueue op caps (.ok (pendingCounts op.instanceId t)) with
  | .error e => (.error e, t)
  | .ok input => ((.ok (enqueue input newId now t).1), (enqueue input newId now t).2)

/-- The input names its lane, or has what the lane is built from. -/
def AdmitInput.NamesLane (op : AdmitInput) : Prop :=
  op.laneKey.isSome ∨ (if op.opType = .create then op.nameAttrValue else op.uid).any (· ≠ "")

instance (op : AdmitInput) : Decidable op.NamesLane := inferInstanceAs (Decidable (_ ∨ _))

theorem AdmitInput.laneKeyOf_isOk {op : AdmitInput} : (∃ laneKey, op.laneKeyOf = .ok laneKey) ↔ op.NamesLane := by
  unfold laneKeyOf NamesLane
  cases op.laneKey with
  | some laneKey => simp [pure, Except.pure]
  | none =>
    unfold laneKeyFor
    cases op.opType <;> simp only [reduceCtorEq, if_true, if_false] <;> split <;> simp_all [Except.mapError]

variable {op : AdmitInput} {caps : AdmissionCaps} {newId : Uuid} {now : Nat} {t : Tables}

theorem Db.KeyLocked.latestWithKey {advisoryLockKey : String → BitVec 64} {db : Db}
    (inv : db.KeyLocked advisoryLockKey) {r : Row} (hr : r ∈ db.tables.operations) :
    db.tables.latestWithKey r.idempotencyKey = some r := by
  have hkeys : (db.tables.operations.map Row.idempotencyKey).Nodup := by
    have := inv.keys
    simpa [keyed, Function.comp_def] using this
  cases hlatest : db.tables.latestWithKey r.idempotencyKey with
  | none => exact absurd rfl (Tables.latestWithKey_eq_none hlatest r hr)
  | some prior =>
    obtain ⟨hprior, hkey⟩ := Tables.latestWithKey_mem hlatest
    rw [eq_of_key_eq hkeys hprior hr hkey]

theorem OperationStore.enqueue_known {input : EnqueueInput} {r : Row}
    (h : t.latestWithKey input.idempotencyKey = some r) :
    enqueue input newId now t = (some ⟨r.id.text, true⟩, t) := by
  unfold enqueue
  rw [h]

theorem admitAndEnqueue_key {counts : Except Failure PendingCounts} {input : EnqueueInput}
    (h : admitAndEnqueue op caps counts = .ok input) : input.idempotencyKey = op.idempotencyKey := by
  unfold admitAndEnqueue at h
  obtain ⟨n, -, h⟩ := bind_eq_ok.1 h
  split at h
  · cases h
  · obtain ⟨laneKey, -, h⟩ := bind_eq_ok.1 h
    cases h
    rfl

theorem admitAndEnqueue_isOk {n : PendingCounts} :
    (∃ input, admitAndEnqueue op caps (.ok n) = .ok input ∧ input.idempotencyKey = op.idempotencyKey) ↔
      n.depth (op.priority.getD .batch) < caps.cap (op.priority.getD .batch) ∧ op.NamesLane := by
  unfold admitAndEnqueue
  rw [← AdmitInput.laneKeyOf_isOk]
  simp only [Except.mapError, bind, Except.bind]
  by_cases hcap : caps.cap (op.priority.getD .batch) ≤ n.depth (op.priority.getD .batch)
  · simp only [hcap, if_true]
    constructor
    · rintro ⟨input, h, -⟩
      cases h
    · rintro ⟨hlt, -⟩
      omega
  · simp only [hcap, if_false]
    cases op.laneKeyOf with
    | error e => simp
    | ok laneKey => simp [pure, Except.pure]; omega

/-- The answer to a request whose key a hot row has, and the store after it. -/
def Repeated (op : AdmitInput) (t : Tables) (outcome : Except RouteError (Option EnqueueResult) × Tables) : Prop :=
  ∃ r, t.latestWithKey op.idempotencyKey = some r ∧ outcome = (.ok (some ⟨r.id.text, true⟩), t)

/-- A repeat is told the id of the first request exactly when a new request of its class would also
get through the gate. -/
theorem admitAndEnqueue_repeated_iff (op : AdmitInput) (caps : AdmissionCaps) (newId : Uuid) (now : Nat)
    (t : Tables) (known : ∃ r ∈ t.operations, r.idempotencyKey = op.idempotencyKey) :
    Repeated op t (OperationStore.admitAndEnqueue op caps newId now t) ↔
      (OperationStore.pendingCounts op.instanceId t).depth (op.priority.getD .batch) <
          caps.cap (op.priority.getD .batch) ∧
        op.NamesLane := by
  obtain ⟨r, hlatest⟩ : ∃ r, t.latestWithKey op.idempotencyKey = some r := by
    obtain ⟨r, hr, hkey⟩ := known
    refine Option.ne_none_iff_exists'.1 fun hnone => ?_
    exact Tables.latestWithKey_eq_none hnone r hr hkey
  rw [← admitAndEnqueue_isOk]
  unfold OperationStore.admitAndEnqueue
  constructor
  · rintro ⟨r', -, houtcome⟩
    cases hgate : admitAndEnqueue op caps (.ok (OperationStore.pendingCounts op.instanceId t)) with
    | error e => simp [hgate] at houtcome
    | ok input => exact ⟨input, rfl, admitAndEnqueue_key hgate⟩
  · rintro ⟨input, hgate, hkey⟩
    have hknown : t.latestWithKey input.idempotencyKey = some r := by rw [hkey, hlatest]
    rw [hgate]
    refine ⟨r, hlatest, ?_⟩
    simp [OperationStore.enqueue_known hknown]

/-! A class with room for one operation: the request is accepted, and its repeat is refused. -/

def firstRequest : AdmitInput where
  instanceId := "crm"
  objectClass := "user"
  opType := .delete
  laneKey := none
  idempotencyKey := "k"
  priority := none
  uid := some "u"
  nameAttrValue := none
  attrs := none

def capOfOne : AdmissionCaps := ⟨some 1, none⟩

def noOperations : Tables := ⟨[], [], [0]⟩

def afterFirst : Tables := (OperationStore.admitAndEnqueue firstRequest capOfOne 1 0 noOperations).2

theorem repeated_under_open_cap :
    Repeated firstRequest afterFirst (OperationStore.admitAndEnqueue firstRequest ⟨none, none⟩ 2 0 afterFirst) :=
  (admitAndEnqueue_repeated_iff firstRequest ⟨none, none⟩ 2 0 afterFirst ⟨_, List.mem_singleton_self _, rfl⟩).2
    (by decide)

/-- The first call is accepted, and a second one with the same input is refused. -/
theorem repeated_at_full_cap_refused :
    (∃ answer, (OperationStore.admitAndEnqueue firstRequest capOfOne 1 0 noOperations).1 = .ok (some answer)) ∧
      (∃ r ∈ afterFirst.operations, r.idempotencyKey = firstRequest.idempotencyKey) ∧
      (∃ e, (OperationStore.admitAndEnqueue firstRequest capOfOne 2 0 afterFirst).1 = .error (.rejected e)) ∧
      ¬ Repeated firstRequest afterFirst (OperationStore.admitAndEnqueue firstRequest capOfOne 2 0 afterFirst) := by
  have refused : (OperationStore.admitAndEnqueue firstRequest capOfOne 2 0 afterFirst).1 =
      .error (.rejected ⟨"crm", .batch, 1, 1⟩) := rfl
  refine ⟨⟨_, rfl⟩, ⟨_, List.mem_singleton_self _, rfl⟩, ⟨_, refused⟩, ?_⟩
  rintro ⟨r, -, h⟩
  rw [h] at refused
  cases refused

end Provisioning
