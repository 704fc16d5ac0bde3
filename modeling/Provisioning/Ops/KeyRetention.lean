import Provisioning.Ops.EnqueueOnce

/-!
# Idempotency keys and retention

`enqueue` looks a key up among the hot rows. The history has no keys, so a key is forgotten with
the day of its row, and holds as long as each lookup comes before that.
-/

namespace Provisioning

open Lib

variable {advisoryLockKey : String → BitVec 64} {db db' : Db} {a : DbAction}

namespace Db

/-- The row of this answer is in the table. -/
def isHot (db : Db) (x : EnqueueAnswer) : Prop :=
  ∃ r ∈ db.tables.operations, r.idempotencyKey = x.key ∧ r.id.text = x.result.id

instance (x : EnqueueAnswer) : Decidable (db.isHot x) := inferInstanceAs (Decidable (∃ r ∈ db.tables.operations, _))

/-- A lookup comes before any row that was returned for its key is dropped. -/
def looksUpHot (db : Db) : DbAction → Bool
  | .lookupKey sid =>
    (db.enqueue? sid).all fun e => decide (∀ x ∈ db.answers, x.key = e.op.idempotencyKey → db.isHot x)
  | _ => true

/-! ## The invariant -/

structure Remembered (advisoryLockKey : String → BitVec 64) (db : Db) : Prop where
  locked : db.KeyLocked advisoryLockKey
  /-- A transaction whose key was answered inserts nothing, and has found no other row. -/
  settled : ∀ x ∈ db.answers, ∀ e ∈ db.enqueues, e.op.idempotencyKey = x.key →
    e.phase ≠ .missing ∧ (∀ row, e.phase ≠ .inserted row) ∧ ∀ id, e.phase = .found id → id.text = x.result.id
  repeats : db.answers.Pairwise fun x y => x.key = y.key → y.result = ⟨x.result.id, true⟩

theorem Remembered.of_quiet (inv : db.Remembered advisoryLockKey) (locked : db'.KeyLocked advisoryLockKey)
    (hans : db'.answers = db.answers)
    (henq : ∀ e ∈ db'.enqueues, e ∈ db.enqueues ∨ e.phase = .begun ∨ e.phase = .locked) :
    db'.Remembered advisoryLockKey := by
  refine ⟨locked, fun x hx e he hkey => ?_, hans ▸ inv.repeats⟩
  rcases henq e he with he | hb | hl
  · exact inv.settled x (hans ▸ hx) e he hkey
  · simp [hb]
  · simp [hl]

theorem Remembered.setPhase (inv : db.Remembered advisoryLockKey) (sessions : db.Sessions) {sid : Nat}
    {e : EnqueueTxn} {phase : EnqueuePhase} (locked : (db.setPhase sid phase).KeyLocked advisoryLockKey)
    (he : db.enqueue? sid = some e)
    (settled : ∀ x ∈ db.answers, x.key = e.op.idempotencyKey →
      phase ≠ .missing ∧ (∀ row, phase ≠ .inserted row) ∧ ∀ id, phase = .found id → id.text = x.result.id) :
    (db.setPhase sid phase).Remembered advisoryLockKey := by
  refine ⟨locked, fun x hx e' he' hkey => ?_, inv.repeats⟩
  obtain ⟨e₁, h₁, rfl⟩ := mem_setPhase.1 he'
  by_cases hs : e₁.sid = sid
  · obtain rfl := sessions.enqueue_eq he h₁ hs
    simp only [hs, if_true] at hkey ⊢
    exact settled x hx hkey.symm
  · simp only [hs, if_false] at hkey ⊢
    exact inv.settled x hx e₁ h₁ hkey

/-- A call returns. Every other transaction with its key waits for the lock. -/
theorem Remembered.returned (inv : db.Remembered advisoryLockKey) {sid : Nat} {e : EnqueueTxn}
    {answer : EnqueueAnswer} (locked : db'.KeyLocked advisoryLockKey) (he : db.enqueue? sid = some e)
    (holds : e.phase.holdsLock) (hkey : answer.key = e.op.idempotencyKey)
    (hans : db'.answers = db.answers ++ [answer]) (henq : db'.enqueues = (db.endEnqueue sid).enqueues)
    (same : ∀ x ∈ db.answers, x.key = answer.key → answer.result = ⟨x.result.id, true⟩) :
    db'.Remembered advisoryLockKey := by
  refine ⟨locked, fun x hx e' he' hk => ?_, ?_⟩
  · obtain ⟨hmem, hsid⟩ := mem_endEnqueue.1 (henq ▸ he')
    rcases List.mem_append.1 (hans ▸ hx) with hx | hx
    · exact inv.settled x hx e' hmem hk
    · rw [List.mem_singleton.1 hx] at hk
      have waits : e'.phase.holdsLock ≠ true := fun hl =>
        inv.locked.alone he holds e' hmem hsid hl (congrArg _ (hk.trans hkey))
      cases hp : e'.phase <;> simp [hp, EnqueuePhase.holdsLock] at waits ⊢
  · rw [hans, List.pairwise_append]
    refine ⟨inv.repeats, List.pairwise_singleton _ _, fun x hx y hy => ?_⟩
    rw [List.mem_singleton.1 hy]
    exact same x hx

theorem Remembered.step (inv : db.Remembered advisoryLockKey) (wf : db.WellFormed) (hot : db.looksUpHot a)
    (h : db.Stepped advisoryLockKey a db') : db'.Remembered advisoryLockKey := by
  have locked := inv.locked.step wf h
  have ended (sid : Nat) (henq : db'.enqueues = (db.endEnqueue sid).enqueues) (hans : db'.answers = db.answers) :
      db'.Remembered advisoryLockKey :=
    inv.of_quiet locked hans fun e he => .inl (mem_endEnqueue.1 (henq ▸ he)).1
  cases h with
  | beginEnqueue =>
    refine inv.of_quiet locked rfl fun e he => ?_
    rcases List.mem_append.1 he with he | he
    · exact .inl he
    · rw [List.mem_singleton.1 he]
      exact .inr (.inl rfl)
  | lockKey he => exact inv.setPhase wf.sessions locked he (by simp)
  | lookupFound he phase hit =>
    refine inv.setPhase wf.sessions locked he fun x hx hkey => ⟨by simp, by simp, fun id hid => ?_⟩
    cases hid
    simp only [looksUpHot, he, Option.all_some, decide_eq_true_eq] at hot
    obtain ⟨r, hr, hrkey, hrid⟩ := hot x hx hkey
    obtain ⟨hmem, hprior⟩ := Tables.latestWithKey_mem hit
    have hkeys : (db.tables.operations.map Row.idempotencyKey).Nodup := by
      have := inv.locked.keys
      rwa [keyed, List.map_map] at this
    rw [← hrid, eq_of_key_eq hkeys hmem hr (hprior.trans (hkey.symm.trans hrkey.symm))]
  | lookupMissing he phase miss =>
    refine inv.setPhase wf.sessions locked he fun x hx hkey => ?_
    simp only [looksUpHot, he, Option.all_some, decide_eq_true_eq] at hot
    obtain ⟨r, hr, hrkey, -⟩ := hot x hx hkey
    exact absurd (hrkey.trans hkey) (Tables.latestWithKey_eq_none miss r hr)
  | @inserted sid e _ he phase =>
    have kept : (db.setPhase sid (.inserted (e.op.newRow _ e.startedAt))).Remembered advisoryLockKey :=
      inv.setPhase wf.sessions { locked with } he
        fun x hx hkey => absurd phase (inv.settled x hx e (lookup_some_mem he).1 hkey.symm).1
    exact { kept with locked := locked }
  | insertFailed | commitFoundLost | commitInsertedLost | abortEnqueue => exact ended _ rfl rfl
  | @commitFound sid e id he phase =>
    refine inv.returned locked he (by rw [phase]; rfl) rfl rfl rfl fun x hx hkey => ?_
    rw [← (inv.settled x hx e (lookup_some_mem he).1 hkey.symm).2.2 id phase]
  | @commitInserted sid e row he phase =>
    refine inv.returned locked he (by rw [phase]; rfl) rfl rfl rfl fun x hx hkey => ?_
    exact absurd phase ((inv.settled x hx e (lookup_some_mem he).1 hkey.symm).2.1 row)
  | _ => exact inv.of_quiet locked rfl fun e he => .inl he

/-! ## The result -/

/-- **A key that was answered is remembered**, in the runs whose lookups come before its day is
dropped: every later call with the key returns the same id, and none inserts a row. -/
theorem key_remembered {now : Nat} {partitions : List Nat}
    (run : Runs (Db.step advisoryLockKey) (fun db a _ => db.looksUpHot a) (start now partitions) db) :
    (db.answers.Pairwise fun x y => x.key = y.key → y.result = ⟨x.result.id, true⟩) ∧
    ∀ x ∈ db.answers, ∀ e ∈ db.enqueues, e.op.idempotencyKey = x.key →
      e.phase ≠ .missing ∧ ∀ row, e.phase ≠ .inserted row := by
  have inv : db.WellFormed ∧ db.Remembered advisoryLockKey := by
    refine run.invariant (fun db => db.WellFormed ∧ db.Remembered advisoryLockKey) ?_ ?_
    · refine ⟨wellFormed_start now partitions, (enqueueOnce_start now partitions).toKeyLocked, ?_, ?_⟩ <;> simp [start]
    · intro _ _ _ inv h hot
      exact ⟨inv.1.step (stepped h), inv.2.step inv.1 hot (stepped h)⟩
  exact ⟨inv.2.repeats, fun x hx e he hkey => (inv.2.settled x hx e he hkey).imp_right And.left⟩

def keyedDelete : EnqueueInput := ⟨"i", "User", .delete, "42", "k", none, some "42", none, none⟩

/-- A delete is requested and finalized, and two days pass. -/
def deletedLate : List DbAction :=
  [.beginEnqueue 1 keyedDelete, .lockKey 1, .lookupKey 1, .insertOperation 1 7, .commitEnqueue 1 true,
    .finalize (Uuid.text 7) .succeeded none none 0, .tick 172800000]

/-- The day is dropped, and the request is repeated. -/
def repeatedAfterDrop : List DbAction :=
  deletedLate ++ [.countLive 0 1, .dropPartition 0, .beginEnqueue 2 keyedDelete, .lockKey 2, .lookupKey 2,
    .insertOperation 2 8, .commitEnqueue 2 true]

theorem key_forgotten_dropped :
    ∃ db, exec (Db.step fun _ => 0) anyStep (start 0 [0, 2]) repeatedAfterDrop = some db ∧
      (db.tables.history? 7).isSome ∧
      ¬ db.answers.Pairwise fun x y => x.key = y.key → y.result = ⟨x.result.id, true⟩ := by
  have h : (exec (Db.step fun _ => 0) anyStep (start 0 [0, 2]) repeatedAfterDrop).map
      (fun db => (db.answers, (db.tables.history? 7).isSome)) =
      some ([⟨"k", ⟨Uuid.text 7, false⟩⟩, ⟨"k", ⟨Uuid.text 8, false⟩⟩], true) := by
    decide
  obtain ⟨db, hdb, h⟩ := Option.map_eq_some_iff.1 h
  simp only [Prod.mk.injEq] at h
  refine ⟨db, hdb, h.2, ?_⟩
  rw [h.1]
  simp

/-- The request is repeated, and the day is dropped after that. -/
def repeatedBeforeDrop : List DbAction :=
  deletedLate ++
    [.beginEnqueue 2 keyedDelete, .lockKey 2, .lookupKey 2, .commitEnqueue 2 true, .countLive 0 1, .dropPartition 0]

theorem key_remembered_hot :
    ∃ db, exec (Db.step fun _ => 0) (fun db a _ => db.looksUpHot a) (start 0 [0, 2]) repeatedBeforeDrop = some db ∧
      db.answers.length = 2 ∧ db.tables.operations.length = 0 ∧
      db.answers.Pairwise fun x y => x.key = y.key → y.result = ⟨x.result.id, true⟩ := by
  have h : (exec (Db.step fun _ => 0) (fun db a _ => db.looksUpHot a) (start 0 [0, 2]) repeatedBeforeDrop).map
      (fun db => (db.answers.length, db.tables.operations.length)) = some (2, 0) := by
    decide
  obtain ⟨db, hdb, h⟩ := Option.map_eq_some_iff.1 h
  simp only [Prod.mk.injEq] at h
  exact ⟨db, hdb, h.1, h.2, (key_remembered (runs_of_exec hdb)).1⟩

end Db

end Provisioning
