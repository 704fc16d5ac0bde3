import Provisioning.Ops.Admission
import Provisioning.Ops.WellFormed

/-!
# By how much a backlog passes its cap

The gate reads the backlog and the insert comes later, so requests that are past the gate together may pass the cap
together, and a row that was running when the gate looked may come back. Nothing else adds to the backlog.
-/

namespace Provisioning

open Lib

/-! ## Requests past the gate -/

/-- The store with the calls of `admitAndEnqueue` that the gate let through and that have not begun their
transaction. -/
structure Gate where
  db : Db
  waiting : List (Nat × EnqueueInput)

inductive GateAction where
  /-- The gate reads the counts and decides. -/
  | pass (sid : Nat) (op : AdmitInput)
  /-- Call `sid` goes on to `store.enqueue`. -/
  | begin (sid : Nat)
  /-- Its process is gone. -/
  | drop (sid : Nat)
  | database (a : DbAction)

def DbAction.isBegin : DbAction → Bool
  | .beginEnqueue .. => true
  | _ => false

namespace Gate

variable (advisoryLockKey : String → BitVec 64) (caps : AdmissionCaps)

def start (now : Nat) (partitions : List Nat) : Gate := ⟨Db.start now partitions, []⟩

def step (s : Gate) : GateAction → Option Gate
  | .pass sid op =>
    match admitAndEnqueue op caps (.ok (OperationStore.pendingCounts op.instanceId s.db.tables)) with
    | .error _ => some s
    | .ok input => some { s with waiting := s.waiting ++ [(sid, input)] }
  | .begin sid =>
    match lookup Prod.fst s.waiting sid with
    | none => none
    | some (_, input) =>
      (s.db.beginEnqueue sid input).map fun db => ⟨db, s.waiting.filter fun w => w.1 ≠ sid⟩
  | .drop sid => some { s with waiting := s.waiting.filter fun w => w.1 ≠ sid }
  | .database a => if a.isBegin then none else (s.db.step advisoryLockKey a).map fun db => { s with db := db }

end Gate

/-! ## One instance and one class -/

section Counts

variable (instanceId : String) (priority : OperationPriority)

def EnqueueInput.isFor (op : EnqueueInput) : Bool :=
  op.instanceId = instanceId ∧ op.priority.getD .batch = priority

def Row.isFor (r : Row) : Bool := r.instanceId = instanceId ∧ r.priority = priority

namespace Db

/-- The operations that are not finished. -/
def unfinished (db : Db) : Nat :=
  db.tables.operations.countP fun r => r.isFor instanceId priority ∧ ¬ r.status.terminal

def runningOf (db : Db) : Nat :=
  db.tables.operations.countP fun r => r.isFor instanceId priority ∧ r.status = .live .running

/-- The transactions of `enqueue` in flight. -/
def inserting (db : Db) : Nat := db.enqueues.countP fun e => e.op.isFor instanceId priority

theorem unfinished_eq (db : Db) : db.unfinished instanceId priority =
    (OperationStore.pendingCounts instanceId db.tables).depth priority + db.runningOf instanceId priority := by
  have hdepth : (OperationStore.pendingCounts instanceId db.tables).depth priority =
      db.tables.operations.countP fun r =>
        r.instanceId = instanceId ∧ r.status ∈ [.live .pending, .live .awaitingReadback] ∧ r.priority = priority := by
    cases priority <;> rfl
  rw [hdepth]
  unfold unfinished runningOf
  induction db.tables.operations with
  | nil => rfl
  | cons r rest ih =>
    simp only [List.countP_cons, ih]
    have hone : ∀ st : OperationStatus, (¬ st.terminal) ↔
        st ∈ [.live .pending, .live .awaitingReadback] ∨ st = .live .running := by
      rintro (p | o)
      · cases p <;> simp
      · simp
    have hapart : ∀ st : OperationStatus, st ∈ [.live .pending, .live .awaitingReadback] → st ≠ .live .running := by
      simp
    by_cases hi : r.instanceId = instanceId <;> by_cases hp : r.priority = priority <;>
      by_cases hw : r.status ∈ [OperationStatus.live .pending, .live .awaitingReadback] <;>
      by_cases hr : r.status = .live .running <;> simp_all [Row.isFor] <;> omega

end Db

/-! ## Only a transaction that begins adds to the load -/

namespace Db

variable {advisoryLockKey : String → BitVec 64} {instanceId priority} {db db' : Db} {a : DbAction}

/-- The rows and the transactions that may become one. -/
def load (instanceId : String) (priority : OperationPriority) (db : Db) : Nat :=
  db.unfinished instanceId priority + db.inserting instanceId priority

theorem inserting_setPhase (sid : Nat) (phase : EnqueuePhase) :
    (db.setPhase sid phase).inserting instanceId priority = db.inserting instanceId priority := by
  unfold inserting setPhase updateWhere
  rw [List.countP_map]
  refine List.countP_congr fun e _ => ?_
  simp only [Function.comp]
  split <;> rfl

theorem inserting_endEnqueue_le (sid : Nat) :
    (db.endEnqueue sid).inserting instanceId priority ≤ db.inserting instanceId priority :=
  List.filter_sublist.countP_le

theorem countP_filter_add_le {α : Type} {p q : α → Bool} {l : List α} {x : α} (hx : x ∈ l) (hp : p x = false) :
    (l.filter p).countP q + (q x).toNat ≤ l.countP q := by
  have hrest : (q x).toNat ≤ (l.filter fun a => !p a).countP q := by
    cases hq : q x with
    | false => exact Nat.zero_le _
    | true => exact List.countP_pos_iff.2 ⟨x, List.mem_filter.2 ⟨hx, by simp [hp]⟩, hq⟩
  have hsplit := List.countP_eq_countP_filter_add l q p
  omega

theorem inserting_endEnqueue {sid : Nat} {e : EnqueueTxn} (he : db.enqueue? sid = some e) :
    (db.endEnqueue sid).inserting instanceId priority + (e.op.isFor instanceId priority).toNat ≤
      db.inserting instanceId priority := by
  obtain ⟨hmem, hsid⟩ := lookup_some_mem he
  exact countP_filter_add_le (q := fun e : EnqueueTxn => e.op.isFor instanceId priority) hmem (by simp [hsid])

theorem unfinished_insertRow (row : Row) : (db.insertRow row).unfinished instanceId priority ≤
    db.unfinished instanceId priority + (row.isFor instanceId priority).toNat := by
  unfold unfinished insertRow
  rw [List.countP_append, List.countP_singleton]
  cases row.isFor instanceId priority <;> by_cases ht : row.status.terminal <;> simp [ht]

theorem unfinished_of_changed {f : Row → Row} (hf : ∀ r ∈ db.tables.operations, r.Change (f r))
    (rows : db'.tables.operations = db.tables.operations.map f) :
    db'.unfinished instanceId priority ≤ db.unfinished instanceId priority := by
  unfold unfinished
  rw [rows, List.countP_map]
  refine List.countP_mono_left fun r hr h => ?_
  have same := (hf r hr).sameOperation
  simp only [Function.comp, Row.isFor, same.instanceId, same.priority, Bool.decide_and, decide_eq_true_eq,
    Bool.and_eq_true, decide_not, Bool.not_eq_true', decide_eq_false_iff_not] at h ⊢
  exact ⟨h.1, fun ht => h.2 ((hf r hr).terminal_of_terminal ht)⟩

theorem Stepped.load_le (h : db.Stepped advisoryLockKey a db') (wf : db.WellFormed) (hbegin : a.isBegin = false) :
    db'.load instanceId priority ≤ db.load instanceId priority := by
  -- A statement that adds no row.
  have quiet (hlength : db'.tables.operations.length ≤ db.tables.operations.length)
      (hinserting : db'.inserting instanceId priority ≤ db.inserting instanceId priority) :
      db'.load instanceId priority ≤ db.load instanceId priority := by
    unfold load
    have hunfinished : db'.unfinished instanceId priority ≤ db.unfinished instanceId priority := by
      cases h.rows wf with
      | changed f hf rows => exact unfinished_of_changed hf rows
      | inserted e row _ _ rows => simp [rows] at hlength
      | dropped day _ rows =>
        unfold unfinished
        rw [rows]
        exact List.filter_sublist.countP_le
    omega
  -- The row of a transaction that ends.
  have insertion {sid : Nat} {e : EnqueueTxn} {row : Row} (he : db.enqueue? sid = some e)
      (phase : e.phase = .inserted row) :
      ((db.endEnqueue sid).insertRow row).load instanceId priority ≤ db.load instanceId priority := by
    unfold load
    have hended := @inserting_endEnqueue instanceId priority db sid e he
    have hrow := @unfinished_insertRow instanceId priority (db.endEnqueue sid) row
    have hfor : row.isFor instanceId priority = e.op.isFor instanceId priority := by
      rw [(wf.ids.uncommitted e (lookup_some_mem he).1 row phase).2.2]
      rfl
    rw [hfor] at hrow
    exact (Nat.add_le_add_right hrow _).trans (by
      show (db.unfinished instanceId priority + _) + (db.endEnqueue sid).inserting instanceId priority ≤ _
      omega)
  cases h with
  | beginEnqueue => cases hbegin
  | tick | beginClaim | rowSkipped | rowLocked | abortClaim | countedNone | countedSome | abortDrop => exact le_refl _
  | lockKey | lookupFound | lookupMissing | inserted =>
    exact quiet (le_refl _) (inserting_setPhase _ _).le
  | insertFailed | commitFound | commitFoundLost | abortEnqueue => exact quiet (le_refl _) (inserting_endEnqueue_le _)
  | commitInserted he phase | commitInsertedLost he phase => exact insertion he phase
  | commitClaim => exact quiet (by simp [endClaim, claimLocked, updateWhere]) (le_refl _)
  | finalize => exact quiet (by simp [OperationStore.finalize_operations, updateWhere]) (le_refl _)
  | requeue => exact quiet (by simp [Db.requeue, OperationStore.requeue_operations, updateWhere]) (le_refl _)
  | deferForReadback =>
    exact quiet (by simp [Db.deferForReadback, OperationStore.deferForReadback_operations, updateWhere]) (le_refl _)
  | reapStale => exact quiet (by simp [OperationStore.reapStale_operations, updateWhere]) (le_refl _)
  | createPartition => exact quiet (by rw [operations_createPartition]) (le_refl _)
  | dropPartition => exact quiet (List.length_filter_le _ _) (le_refl _)

end Db

/-! ## Runs -/

namespace Gate

variable {advisoryLockKey : String → BitVec 64} {caps : AdmissionCaps} {instanceId priority} {s s' : Gate}
  {a : GateAction}

/-- The requests past the gate whose rows are not stored yet. -/
def inFlight (instanceId : String) (priority : OperationPriority) (s : Gate) : Nat :=
  s.waiting.countP (fun w => w.2.isFor instanceId priority) + s.db.inserting instanceId priority

/-- At most `running` operations run, and at most `passed` requests are past the gate. -/
def within (instanceId : String) (priority : OperationPriority) (running passed : Nat) (_ : Gate) (_ : GateAction)
    (s' : Gate) : Prop :=
  s'.db.runningOf instanceId priority ≤ running ∧ s'.inFlight instanceId priority ≤ passed

instance (running passed : Nat) (s : Gate) (a : GateAction) (s' : Gate) :
    Decidable (within instanceId priority running passed s a s') := inferInstanceAs (Decidable (_ ∧ _))

def total (instanceId : String) (priority : OperationPriority) (s : Gate) : Nat :=
  s.db.unfinished instanceId priority + s.inFlight instanceId priority

theorem total_eq (s : Gate) : s.total instanceId priority =
    s.db.load instanceId priority + s.waiting.countP fun w => w.2.isFor instanceId priority := by
  unfold total inFlight Db.load
  omega

theorem admit_below {op : AdmitInput} {counts : PendingCounts} {input : EnqueueInput}
    (h : admitAndEnqueue op caps (.ok counts) = .ok input) (hfor : input.isFor instanceId priority) :
    op.instanceId = instanceId ∧ counts.depth priority < caps.cap priority := by
  unfold admitAndEnqueue at h
  obtain ⟨n, hn, h⟩ := bind_eq_ok.1 h
  cases hn
  split at h
  · cases h
  · obtain ⟨laneKey, -, h⟩ := bind_eq_ok.1 h
    cases h
    simp only [EnqueueInput.isFor, Option.getD_some, Bool.decide_and, Bool.and_eq_true, decide_eq_true_eq] at hfor
    obtain ⟨hinst, rfl⟩ := hfor
    exact ⟨hinst, by omega⟩

/-- Either the load does not grow, or the gate let one more through. -/
theorem step_total (h : s.step advisoryLockKey caps a = some s') (wf : s.db.WellFormed) :
    s'.db.WellFormed ∧ (s'.total instanceId priority ≤ s.total instanceId priority ∨
      s'.db = s.db ∧ 1 ≤ s'.inFlight instanceId priority ∧
        (OperationStore.pendingCounts instanceId s.db.tables).depth priority < caps.cap priority) := by
  simp only [total_eq]
  cases a with
  | pass sid op =>
    simp only [step] at h
    split at h
    · cases h
      exact ⟨wf, .inl (le_refl _)⟩
    · rename_i input hinput
      cases h
      refine ⟨wf, ?_⟩
      cases hfor : input.isFor instanceId priority with
      | false => simp [hfor]
      | true =>
        obtain ⟨rfl, hbelow⟩ := admit_below hinput hfor
        refine .inr ⟨rfl, ?_, hbelow⟩
        simp [inFlight, hfor]
        omega
  | begin sid =>
    simp only [step] at h
    split at h
    · cases h
    · rename_i sid' input hwait
      obtain ⟨db, hdb, rfl⟩ := Option.map_eq_some_iff.1 h
      obtain ⟨hmem, hsid⟩ := lookup_some_mem hwait
      have hstep : s.db.step advisoryLockKey (.beginEnqueue sid input) = some db := hdb
      refine ⟨wf.step (Db.stepped hstep), .inl ?_⟩
      simp only [Db.beginEnqueue, Option.ite_none_left_eq_some, Option.some.injEq] at hdb
      obtain ⟨-, rfl⟩ := hdb
      have hrest := Db.countP_filter_add_le (p := fun w : Nat × EnqueueInput => w.1 ≠ sid)
        (q := fun w => w.2.isFor instanceId priority) hmem (by simpa using hsid)
      simp only [Db.load, Db.unfinished, Db.inserting, List.countP_append, List.countP_singleton]
      cases hfor : input.isFor instanceId priority <;> simp [hfor] at hrest ⊢ <;> omega
  | drop sid =>
    cases h
    have hrest := (List.filter_sublist (p := fun w : Nat × EnqueueInput => decide (w.1 ≠ sid))
      (l := s.waiting)).countP_le (p := fun w => w.2.isFor instanceId priority)
    exact ⟨wf, .inl (Nat.add_le_add_left hrest _)⟩
  | database b =>
    simp only [step] at h
    split at h
    · cases h
    · rename_i hbegin
      obtain ⟨db, hdb, rfl⟩ := Option.map_eq_some_iff.1 h
      have hstep := Db.stepped hdb
      exact ⟨wf.step hstep, .inl (Nat.add_le_add_right (hstep.load_le wf (by simpa using hbegin)) _)⟩

/-- **The cap bounds the backlog** up to the operations that run and the requests that are past the gate together. -/
theorem backlog_bounded {now : Nat} {partitions : List Nat} {running passed : Nat}
    (run : Runs (step advisoryLockKey caps) (within instanceId priority running passed) (start now partitions) s) :
    (OperationStore.pendingCounts instanceId s.db.tables).depth priority + s.inFlight instanceId priority ≤
      caps.cap priority + running + (passed - 1) := by
  have inv : s.db.WellFormed ∧ s.db.runningOf instanceId priority ≤ running ∧
      s.total instanceId priority ≤ caps.cap priority + running + (passed - 1) := by
    refine run.invariant (fun s => s.db.WellFormed ∧ s.db.runningOf instanceId priority ≤ running ∧
      s.total instanceId priority ≤ caps.cap priority + running + (passed - 1)) ?_ ?_
    · refine ⟨Db.wellFormed_start now partitions, ?_, ?_⟩ <;>
        simp [start, Db.start, Db.runningOf, total, inFlight, Db.unfinished, Db.inserting]
    · rintro s a s' ⟨wf, hrunning, hload⟩ h ⟨hrunning', hpassed⟩
      obtain ⟨wf', hless | ⟨hdb, hone, hbelow⟩⟩ := @step_total instanceId priority advisoryLockKey caps _ _ _ h wf
      · exact ⟨wf', hrunning', hless.trans hload⟩
      · refine ⟨wf', hrunning', ?_⟩
        have hsplit := s.db.unfinished_eq instanceId priority
        unfold total
        rw [hdb]
        omega
  have hsplit := s.db.unfinished_eq instanceId priority
  have htotal := inv.2.2
  unfold total at htotal
  omega

def removal (key : String) : AdmitInput where
  instanceId := "i"
  objectClass := "User"
  opType := .delete
  laneKey := none
  idempotencyKey := key
  priority := none
  uid := some "42"
  nameAttrValue := none
  attrs := none

/-- Two requests pass the gate together, below a cap of one. -/
def passedTogether : List GateAction :=
  [.pass 1 (removal "a"), .pass 2 (removal "b"), .begin 1, .begin 2] ++
    ([.lockKey 1, .lookupKey 1, .insertOperation 1 7, .commitEnqueue 1 true, .lockKey 2, .lookupKey 2,
      .insertOperation 2 8, .commitEnqueue 2 true].map .database)

/-- The bound is reached. -/
theorem backlog_bounded_together :
    ∃ s, exec (step (fun _ => 0) ⟨some 1, none⟩) (within "i" .batch 0 2) (start 0 [0]) passedTogether = some s ∧
      (OperationStore.pendingCounts "i" s.db.tables).depth .batch = 2 ∧
      (OperationStore.pendingCounts "i" s.db.tables).depth .batch + s.inFlight "i" .batch ≤ 1 + 0 + (2 - 1) := by
  have h : (exec (step (fun _ => 0) ⟨some 1, none⟩) (within "i" .batch 0 2) (start 0 [0]) passedTogether).map
      (fun s => (OperationStore.pendingCounts "i" s.db.tables).depth .batch) = some 2 := by
    decide
  obtain ⟨s, hs, hdepth⟩ := Option.map_eq_some_iff.1 h
  exact ⟨s, hs, hdepth, backlog_bounded (runs_of_exec hs)⟩

end Gate

end Counts

end Provisioning
