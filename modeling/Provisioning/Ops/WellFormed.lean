import Provisioning.Ops.Rows

/-!
# What every reachable database looks like

Ids are unique, the rows that enqueues have not committed are new, and a row lock is held on a
row that is neither terminal nor `RUNNING`.
-/

namespace Provisioning

open Lib

variable {advisoryLockKey : String → BitVec 64} {db db' : Db} {a : DbAction}

/-! ## Enqueue transactions -/

namespace Db

theorem mem_setPhase {sid : Nat} {phase : EnqueuePhase} {e' : EnqueueTxn} :
    e' ∈ (db.setPhase sid phase).enqueues ↔
      ∃ e ∈ db.enqueues, (if e.sid = sid then { e with phase := phase } else e) = e' :=
  mem_updateWhere

theorem mem_endEnqueue {sid : Nat} {e : EnqueueTxn} :
    e ∈ (db.endEnqueue sid).enqueues ↔ e ∈ db.enqueues ∧ e.sid ≠ sid := by
  simp [endEnqueue]

theorem setPhase_sids (sid : Nat) (phase : EnqueuePhase) :
    (db.setPhase sid phase).enqueues.map EnqueueTxn.sid = db.enqueues.map EnqueueTxn.sid :=
  keys_updateWhere fun _ _ => rfl

theorem visit_sids (sid : Nat) (u : Uuid) :
    (db.visit sid u).claims.map ClaimStatement.sid = db.claims.map ClaimStatement.sid :=
  keys_updateWhere fun _ _ => rfl

/-- Session ids tell the transactions in flight apart. -/
structure Sessions (db : Db) : Prop where
  enqueues : (db.enqueues.map EnqueueTxn.sid).Nodup
  claims : (db.claims.map ClaimStatement.sid).Nodup

theorem Sessions.step (inv : db.Sessions) (h : db.Stepped advisoryLockKey a db') : db'.Sessions := by
  cases h with
  | beginEnqueue op fresh => exact ⟨nodup_append_singleton inv.enqueues (lookup_none_iff.1 fresh), inv.claims⟩
  | lockKey | lookupFound | lookupMissing | inserted =>
    exact ⟨by rw [setPhase_sids]; exact inv.enqueues, inv.claims⟩
  | insertFailed | commitFound | commitFoundLost | commitInserted | commitInsertedLost | abortEnqueue =>
    exact ⟨nodup_filter inv.enqueues, inv.claims⟩
  | beginClaim fresh => exact ⟨inv.enqueues, nodup_append_singleton inv.claims (lookup_none_iff.1 fresh)⟩
  | rowSkipped | rowLocked => exact ⟨inv.enqueues, by rw [visit_sids]; exact inv.claims⟩
  | commitClaim | abortClaim => exact ⟨inv.enqueues, nodup_filter inv.claims⟩
  | tick | finalize | requeue | deferForReadback | reapStale | createPartition | countedNone | countedSome
  | dropPartition | abortDrop => exact ⟨inv.enqueues, inv.claims⟩

theorem Sessions.enqueue_eq (inv : db.Sessions) {sid : Nat} {e e' : EnqueueTxn}
    (he : db.enqueue? sid = some e) (he' : e' ∈ db.enqueues) (hsid : e'.sid = sid) : e' = e := by
  have := lookup_of_mem inv.enqueues he'
  rw [hsid] at this
  exact Option.some.inj (this.symm.trans he)

/-! ## Ids -/

structure Ids (db : Db) : Prop where
  nodup : (db.tables.operations.map Row.id).Nodup
  used : ∀ u ∈ db.tables.operations.map Row.id, u ∈ db.usedIds
  uncommitted : ∀ e ∈ db.enqueues, ∀ row, e.phase = .inserted row →
    row.id ∈ db.usedIds ∧ row.id ∉ db.tables.operations.map Row.id ∧ row = e.op.newRow row.id e.startedAt
  distinct : ∀ e ∈ db.enqueues, ∀ e' ∈ db.enqueues, ∀ row row', e.phase = .inserted row →
    e'.phase = .inserted row' → row.id = row'.id → e.sid = e'.sid

theorem Ids.of_quiet (inv : db.Ids)
    (hids : List.Sublist (db'.tables.operations.map Row.id) (db.tables.operations.map Row.id))
    (hused : db'.usedIds = db.usedIds)
    (henq : ∀ e ∈ db'.enqueues, ∀ row, e.phase = .inserted row → e ∈ db.enqueues) : db'.Ids where
  nodup := inv.nodup.sublist hids
  used u hu := hused ▸ inv.used u (hids.subset hu)
  uncommitted e he row hrow := by
    obtain ⟨hu, hn, heq⟩ := inv.uncommitted e (henq e he row hrow) row hrow
    exact ⟨hused ▸ hu, fun h => hn (hids.subset h), heq⟩
  distinct e he e' he' row row' hrow hrow' :=
    inv.distinct e (henq e he row hrow) e' (henq e' he' row' hrow') row row' hrow hrow'

theorem inserted_of_setPhase {sid : Nat} {phase : EnqueuePhase} (hp : ∀ row, phase ≠ .inserted row) :
    ∀ e ∈ (db.setPhase sid phase).enqueues, ∀ row, e.phase = .inserted row → e ∈ db.enqueues := by
  rintro e' he' row hrow
  obtain ⟨e, he, rfl⟩ := mem_setPhase.1 he'
  split at hrow
  · exact absurd hrow (hp row)
  · rename_i hs; rwa [if_neg hs]

theorem Ids.insertOperation (inv : db.Ids) {sid : Nat} {e : EnqueueTxn} {newId : Uuid}
    (sessions : db.Sessions) (he : db.enqueue? sid = some e) (fresh : newId ∉ db.usedIds) :
    ({ db with usedIds := db.usedIds ++ [newId] }.setPhase sid
      (.inserted (e.op.newRow newId e.startedAt))).Ids where
  nodup := inv.nodup
  used u hu := List.mem_append_left _ (inv.used u hu)
  uncommitted e' he' row hrow := by
    obtain ⟨e₀, he₀, rfl⟩ := mem_setPhase.1 he'
    split at hrow
    · rename_i hs
      obtain rfl := sessions.enqueue_eq he he₀ hs
      cases hrow
      refine ⟨by simp [setPhase, EnqueueInput.newRow], fun hu => fresh (inv.used _ hu), ?_⟩
      rw [if_pos hs]
      rfl
    · rename_i hs
      obtain ⟨hu, hn, heq⟩ := inv.uncommitted e₀ he₀ row hrow
      rw [if_neg hs]
      exact ⟨List.mem_append_left _ hu, hn, heq⟩
  distinct e₁ he₁ e₂ he₂ row row' hrow hrow' hid := by
    obtain ⟨e₁, h₁, rfl⟩ := mem_setPhase.1 he₁
    obtain ⟨e₂, h₂, rfl⟩ := mem_setPhase.1 he₂
    split at hrow <;> split at hrow' <;> rename_i hs₁ hs₂
    · simp [hs₁, hs₂]
    · cases hrow
      have hid : newId = row'.id := hid
      exact absurd (hid ▸ (inv.uncommitted e₂ h₂ row' hrow').1) fresh
    · cases hrow'
      have hid : row.id = newId := hid
      exact absurd (hid ▸ (inv.uncommitted e₁ h₁ row hrow).1) fresh
    · rw [if_neg hs₁, if_neg hs₂]
      exact inv.distinct e₁ h₁ e₂ h₂ row row' hrow hrow' hid

theorem Ids.insertRow (inv : db.Ids) {sid : Nat} {e : EnqueueTxn} {row : Row}
    (he : db.enqueue? sid = some e) (phase : e.phase = .inserted row) :
    ((db.endEnqueue sid).insertRow row).Ids where
  nodup := nodup_append_singleton inv.nodup (inv.uncommitted e (lookup_some_mem he).1 row phase).2.1
  used u hu := by
    simp only [Db.insertRow, List.map_append, List.mem_append, List.map_singleton, List.mem_singleton] at hu
    rcases hu with hu | rfl
    · exact inv.used u hu
    · exact (inv.uncommitted e (lookup_some_mem he).1 row phase).1
  uncommitted e' he' row' hrow' := by
    obtain ⟨he'', hsid⟩ := mem_endEnqueue.1 he'
    obtain ⟨hu, hn, heq⟩ := inv.uncommitted e' he'' row' hrow'
    refine ⟨hu, fun hin => ?_, heq⟩
    simp only [Db.insertRow, List.map_append, List.mem_append, List.map_singleton, List.mem_singleton] at hin
    rcases hin with hin | hin
    · exact hn hin
    · exact hsid ((inv.distinct e' he'' e (lookup_some_mem he).1 row' row hrow' phase hin).trans
        (lookup_some_mem he).2)
  distinct e₁ he₁ e₂ he₂ := inv.distinct e₁ (mem_endEnqueue.1 he₁).1 e₂ (mem_endEnqueue.1 he₂).1

theorem ids_finalize {id : String} {outcome : OperationOutcome} {result : Option Json}
    {errorCode : Option String} {now : Nat} {t : Tables} :
    (OperationStore.finalize id outcome result errorCode now t).2.operations.map Row.id =
      t.operations.map Row.id := by
  rw [OperationStore.finalize_operations]
  exact keys_updateWhere fun _ _ => rfl

theorem ids_requeue {id : String} {t : Tables} :
    (OperationStore.requeue id t).2.operations.map Row.id = t.operations.map Row.id := by
  rw [OperationStore.requeue_operations]
  exact keys_updateWhere fun _ _ => rfl

theorem ids_deferForReadback {id : String} {notBefore : Nat} {t : Tables} :
    (OperationStore.deferForReadback id notBefore t).2.operations.map Row.id = t.operations.map Row.id := by
  rw [OperationStore.deferForReadback_operations]
  exact keys_updateWhere fun _ _ => rfl

theorem ids_reapStale {thresholdMs readBackDelayMs now : Nat} {seen : List Uuid} {t : Tables} :
    (OperationStore.reapStale thresholdMs readBackDelayMs now seen t).2.operations.map Row.id =
      t.operations.map Row.id := by
  rw [OperationStore.reapStale_operations]
  refine keys_updateWhere fun r _ => ?_
  split <;> rfl

theorem ids_claimLocked {sid now : Nat} :
    (db.claimLocked sid now).tables.operations.map Row.id = db.tables.operations.map Row.id :=
  keys_updateWhere fun _ _ => rfl

theorem operations_createPartition {day : Nat} {t : Tables} :
    (t.createPartition day).operations = t.operations := by
  simp only [Tables.createPartition]
  split <;> rfl

theorem Stepped.usedIds_subset (h : db.Stepped advisoryLockKey a db') : db.usedIds ⊆ db'.usedIds := by
  cases h with
  | inserted => exact List.subset_append_left _ _
  | _ => exact List.Subset.refl _

theorem Ids.step (inv : db.Ids) (sessions : db.Sessions) (h : db.Stepped advisoryLockKey a db') :
    db'.Ids := by
  have same {db' : Db} (hids : db'.tables.operations.map Row.id = db.tables.operations.map Row.id)
      (hused : db'.usedIds = db.usedIds) (henq : db'.enqueues = db.enqueues) : db'.Ids :=
    inv.of_quiet (hids ▸ List.Sublist.refl _) hused fun e he _ _ => henq ▸ he
  have ended (sid : Nat) : (db.endEnqueue sid).Ids :=
    inv.of_quiet (List.Sublist.refl _) rfl fun e he _ _ => (mem_endEnqueue.1 he).1
  cases h with
  | beginEnqueue =>
    refine inv.of_quiet (List.Sublist.refl _) rfl fun e he row hrow => ?_
    rcases List.mem_append.1 he with he | he
    · exact he
    · rw [List.mem_singleton.1 he] at hrow
      cases hrow
  | lockKey | lookupFound | lookupMissing =>
    exact inv.of_quiet (List.Sublist.refl _) rfl (inserted_of_setPhase fun _ h => by cases h)
  | inserted he phase fresh => exact inv.insertOperation sessions he fresh
  | insertFailed | commitFound | commitFoundLost | abortEnqueue => exact { ended _ with }
  | commitInserted he phase | commitInsertedLost he phase => exact { inv.insertRow he phase with }
  | tick | beginClaim | rowSkipped | rowLocked | abortClaim | countedNone | countedSome | abortDrop =>
    exact same rfl rfl rfl
  | commitClaim => exact same ids_claimLocked rfl rfl
  | finalize => exact same ids_finalize rfl rfl
  | requeue => exact same ids_requeue rfl rfl
  | deferForReadback => exact same ids_deferForReadback rfl rfl
  | reapStale => exact same ids_reapStale rfl rfl
  | createPartition => exact same (by rw [operations_createPartition]) rfl rfl
  | dropPartition => exact inv.of_quiet (List.filter_sublist.map Row.id) rfl fun e he _ _ => he

/-! ## Row locks -/

structure Locks (db : Db) : Prop where
  nodup : (db.locks.map RowLock.id).Nodup
  held : ∀ l ∈ db.locks, ∃ r, db.row? l.id = some r ∧ r.status = .live l.prior ∧ l.prior ≠ .running
  owner : ∀ l ∈ db.locks, ∃ c ∈ db.claims, c.sid = l.sid

theorem Locks.of_rows (inv : db.Locks) (hlocks : db'.locks = db.locks) (hclaims : db'.claims = db.claims)
    (hrows : ∀ l ∈ db.locks, ∀ r, db.row? l.id = some r → r.status = .live l.prior → l.prior ≠ .running →
      db'.row? l.id = some r) : db'.Locks where
  nodup := hlocks ▸ inv.nodup
  held l hl := by
    rw [hlocks] at hl
    obtain ⟨r, hr, hst, hidle⟩ := inv.held l hl
    exact ⟨r, hrows l hl r hr hst hidle, hst, hidle⟩
  owner l hl := hclaims ▸ inv.owner l (hlocks ▸ hl)

theorem row?_of_updateWhere {p : Row → Prop} [DecidablePred p] {f : Row → Row} {u : Uuid}
    (hops : db'.tables.operations = updateWhere p f db.tables.operations) (hf : ∀ r, p r → (f r).id = r.id) :
    db'.row? u = (db.row? u).map fun r => if p r then f r else r := by
  unfold row? Tables.row?
  rw [hops, lookup_updateWhere hf]

theorem row?_of_spared {p : Row → Prop} [DecidablePred p] {f : Row → Row} {u : Uuid} {r : Row}
    (hops : db'.tables.operations = updateWhere p f db.tables.operations) (hf : ∀ r, p r → (f r).id = r.id)
    (hr : db.row? u = some r) (spared : ¬ p r) : db'.row? u = some r := by
  rw [row?_of_updateWhere hops hf, hr, Option.map_some, if_neg spared]

end Db

theorem Row.lockable_eq_some {r : Row} {p : OperationPendingStatus} :
    r.lockable = some p ↔ r.status = .live p ∧ p ≠ .running := by
  simp only [Row.lockable]
  split <;> simp_all
  rintro rfl
  assumption

namespace Db

theorem Locks.step (inv : db.Locks) (ids : db.Ids) (h : db.Stepped advisoryLockKey a db') : db'.Locks := by
  have idle {l : RowLock} {r : Row} (hst : r.status = .live l.prior) (hi : l.prior ≠ .running) :
      r.status ≠ .live .running := fun h => hi (by simpa [h] using hst.symm)
  cases h with
  | tick | beginEnqueue | lockKey | lookupFound | lookupMissing | inserted | insertFailed | commitFound
  | commitFoundLost | abortEnqueue | countedNone | countedSome | abortDrop =>
    exact inv.of_rows rfl rfl fun _ _ _ hr _ _ => hr
  | commitInserted he phase | commitInsertedLost he phase =>
    refine inv.of_rows rfl rfl fun l _ r hr _ _ => ?_
    refine (lookup_append_singleton (ids.uncommitted _ (lookup_some_mem he).1 _ phase).2.1).trans ?_
    rw [if_neg, ← hr]
    · rfl
    · rintro hid
      refine (ids.uncommitted _ (lookup_some_mem he).1 _ phase).2.1 ?_
      rw [hid, ← (lookup_some_mem hr).2]
      exact List.mem_map_of_mem (lookup_some_mem hr).1
  | beginClaim =>
    exact ⟨inv.nodup, inv.held, fun l hl => (inv.owner l hl).imp fun c hc => ⟨List.mem_append_left _ hc.1, hc.2⟩⟩
  | rowSkipped =>
    refine ⟨inv.nodup, inv.held, fun l hl => ?_⟩
    obtain ⟨c, hc, hsid⟩ := inv.owner l hl
    refine ⟨_, mem_updateWhere.2 ⟨c, hc, rfl⟩, ?_⟩
    split <;> exact hsid
  | @rowLocked sid u c r prior hc _ free hr lockable =>
    have hlock := Row.lockable_eq_some.1 lockable
    refine ⟨nodup_append_singleton inv.nodup ?_, fun l hl => ?_, fun l hl => ?_⟩
    · simpa using free
    · rcases List.mem_append.1 hl with hl | hl
      · exact inv.held l hl
      · rw [List.mem_singleton.1 hl]
        exact ⟨r, hr, hlock.1, hlock.2⟩
    · have : ∃ c ∈ db.claims, c.sid = l.sid := by
        rcases List.mem_append.1 hl with hl | hl
        · exact inv.owner l hl
        · rw [List.mem_singleton.1 hl]
          exact ⟨c, (lookup_some_mem hc).1, (lookup_some_mem hc).2⟩
      obtain ⟨c, hc, hsid⟩ := this
      refine ⟨_, mem_updateWhere.2 ⟨c, hc, rfl⟩, ?_⟩
      split <;> exact hsid
  | @commitClaim sid c hc =>
    refine ⟨nodup_filter inv.nodup, fun l hl => ?_, fun l hl => ?_⟩
    · obtain ⟨hl, hsid⟩ := List.mem_filter.1 hl
      obtain ⟨r, hr, hst, hi⟩ := inv.held l hl
      refine ⟨r, row?_of_spared rfl (fun _ _ => rfl) hr ?_, hst, hi⟩
      rintro ⟨l', hl', hid⟩
      obtain ⟨hl', hsid'⟩ := List.mem_filter.1 hl'
      rw [(lookup_some_mem hr).2] at hid
      rw [eq_of_key_eq inv.nodup hl' hl hid] at hsid'
      simp_all
    · obtain ⟨hl, hsid⟩ := List.mem_filter.1 hl
      obtain ⟨c', hc', hs⟩ := inv.owner l hl
      exact ⟨c', List.mem_filter.2 ⟨hc', by simpa [hs] using hsid⟩, hs⟩
  | abortClaim sid =>
    refine ⟨nodup_filter inv.nodup, fun l hl => inv.held l (List.mem_filter.1 hl).1, fun l hl => ?_⟩
    obtain ⟨hl, hsid⟩ := List.mem_filter.1 hl
    obtain ⟨c', hc', hs⟩ := inv.owner l hl
    exact ⟨c', List.mem_filter.2 ⟨hc', by simpa [hs] using hsid⟩, hs⟩
  | finalize _ free =>
    refine inv.of_rows rfl rfl fun l hl r hr _ _ => ?_
    refine row?_of_spared OperationStore.finalize_operations (fun _ _ => rfl) hr fun hp => free l hl ?_
    rw [hp.1, (lookup_some_mem hr).2]
  | requeue =>
    exact inv.of_rows rfl rfl fun l _ r hr hst hi =>
      row?_of_spared OperationStore.requeue_operations (fun _ _ => rfl) hr fun hp => idle hst hi hp.2
  | deferForReadback =>
    exact inv.of_rows rfl rfl fun l _ r hr hst hi =>
      row?_of_spared OperationStore.deferForReadback_operations (fun _ _ => rfl) hr fun hp => idle hst hi hp.2
  | reapStale =>
    refine inv.of_rows rfl rfl fun l _ r hr hst hi => ?_
    refine row?_of_spared OperationStore.reapStale_operations (fun r _ => ?_) hr fun hp => idle hst hi hp.2.1
    split <;> rfl
  | createPartition =>
    refine inv.of_rows rfl rfl fun l _ r hr _ _ => ?_
    simpa only [row?, Tables.row?, operations_createPartition] using hr
  | dropPartition _ unclaimed =>
    have : db.locks = [] := by
      refine List.eq_nil_iff_forall_not_mem.2 fun l hl => ?_
      obtain ⟨c, hc, -⟩ := inv.owner l hl
      simp [unclaimed] at hc
    exact inv.of_rows rfl rfl fun l hl => by simp [this] at hl

/-! ## All together -/

structure WellFormed (db : Db) : Prop where
  sessions : db.Sessions
  ids : db.Ids
  locks : db.Locks

theorem wellFormed_start (now : Nat) (partitions : List Nat) : (start now partitions).WellFormed where
  sessions := ⟨List.nodup_nil, List.nodup_nil⟩
  ids := ⟨List.nodup_nil, by simp [start], by simp [start], by simp [start]⟩
  locks := ⟨List.nodup_nil, by simp [start], by simp [start]⟩

theorem WellFormed.step (wf : db.WellFormed) (h : db.Stepped advisoryLockKey a db') : db'.WellFormed :=
  ⟨wf.sessions.step h, wf.ids.step wf.sessions h, wf.locks.step wf.ids h⟩

/-- The states of the database that some run of any callers reaches. -/
abbrev Reachable (advisoryLockKey : String → BitVec 64) (db : Db) : Prop :=
  ∃ now partitions, Runs (Db.step advisoryLockKey) anyStep (start now partitions) db

theorem WellFormed.run {ok : Db → DbAction → Db → Prop} (wf : db.WellFormed)
    (run : Runs (Db.step advisoryLockKey) ok db db') : db'.WellFormed :=
  run.invariant _ wf fun _ _ _ wf h _ => wf.step (stepped h)

theorem Reachable.wellFormed (h : Reachable advisoryLockKey db) : db.WellFormed := by
  obtain ⟨now, partitions, run⟩ := h
  exact (wellFormed_start now partitions).run run

theorem WellFormed.row?_of_mem (wf : db.WellFormed) {r : Row} (hr : r ∈ db.tables.operations) :
    db.row? r.id = some r := lookup_of_mem wf.ids.nodup hr

/-! ## Where the rows come from and where they go -/

/-- A step changes the rows in place, or commits one new row, or drops the rows of one day. -/
inductive RowsStep (db : Db) (a : DbAction) (db' : Db) : Prop
  | changed (f : Row → Row) (hf : ∀ r ∈ db.tables.operations, r.Change (f r))
      (rows : db'.tables.operations = db.tables.operations.map f)
  | inserted (e : EnqueueTxn) (row : Row) (he : e ∈ db.enqueues) (phase : e.phase = .inserted row)
      (rows : db'.tables.operations = db.tables.operations ++ [row])
  | dropped (day : Nat) (drop : a = .dropPartition day)
      (rows : db'.tables.operations = db.tables.operations.filter fun r => dayOf r.createdAt ≠ day)
      (unclaimed : db.claims = [])

theorem RowsStep.of_updateWhere {p : Row → Prop} [DecidablePred p] {f : Row → Row}
    (hops : db'.tables.operations = updateWhere p f db.tables.operations)
    (hf : ∀ r ∈ db.tables.operations, p r → r.Change (f r)) : db.RowsStep a db' := by
  refine .changed _ (fun r hr => ?_) hops
  split
  · rename_i hp; exact hf r hr hp
  · exact .same r

theorem RowsStep.of_eq (h : db'.tables.operations = db.tables.operations) : db.RowsStep a db' :=
  .changed id (fun r _ => .same r) (by simpa using h)

theorem Stepped.rows (wf : db.WellFormed) (h : db.Stepped advisoryLockKey a db') : db.RowsStep a db' := by
  cases h with
  | tick | beginEnqueue | lockKey | lookupFound | lookupMissing | inserted | insertFailed | commitFound
  | commitFoundLost | abortEnqueue | beginClaim | rowSkipped | rowLocked | abortClaim | countedNone | countedSome
  | abortDrop => exact .of_eq rfl
  | commitInserted he phase | commitInsertedLost he phase =>
    exact .inserted _ _ (lookup_some_mem he).1 phase rfl
  | @commitClaim sid c hc =>
    refine .of_updateWhere rfl fun r hr hp => ?_
    obtain ⟨l, hl, hid⟩ := hp
    obtain ⟨r', hr', hst, hi⟩ := wf.locks.held l (List.mem_filter.1 hl).1
    rw [hid, wf.row?_of_mem hr] at hr'
    cases hr'
    exact .claimed _ hst hi
  | finalize =>
    exact .of_updateWhere OperationStore.finalize_operations fun r _ hp => .finalized _ _ _ _ hp.2
  | requeue => exact .of_updateWhere OperationStore.requeue_operations fun r _ hp => .requeued hp.2
  | deferForReadback =>
    exact .of_updateWhere OperationStore.deferForReadback_operations fun r _ hp => .deferred _ hp.2
  | reapStale =>
    refine .of_updateWhere OperationStore.reapStale_operations fun r _ hp => ?_
    split
    · exact .deferred _ hp.2.1
    · rename_i hop; exact .reaped hp.2.1 hop
  | createPartition => exact .of_eq operations_createPartition
  | dropPartition _ unclaimed => exact .dropped _ rfl rfl unclaimed

theorem RowsStep.origin (h : db.RowsStep a db') {r' : Row} (hr' : r' ∈ db'.tables.operations) :
    (∃ r ∈ db.tables.operations, r.Change r') ∨ ∃ e ∈ db.enqueues, e.phase = .inserted r' := by
  cases h with
  | changed f hf rows =>
    rw [rows] at hr'
    obtain ⟨r, hr, rfl⟩ := List.mem_map.1 hr'
    exact .inl ⟨r, hr, hf r hr⟩
  | inserted e row he phase rows =>
    rw [rows] at hr'
    rcases List.mem_append.1 hr' with hr' | hr'
    · exact .inl ⟨r', hr', .same r'⟩
    · rw [List.mem_singleton.1 hr']
      exact .inr ⟨e, he, phase⟩
  | dropped day _ rows =>
    rw [rows] at hr'
    exact .inl ⟨r', (List.mem_filter.1 hr').1, .same r'⟩

/-- A row stays in the table until its day is dropped. -/
theorem RowsStep.kept (h : db.RowsStep a db') {r : Row} (hr : r ∈ db.tables.operations)
    (hday : a ≠ .dropPartition (dayOf r.createdAt)) : ∃ r' ∈ db'.tables.operations, r.Change r' := by
  cases h with
  | changed f hf rows => exact ⟨f r, rows ▸ List.mem_map_of_mem hr, hf r hr⟩
  | inserted e row he phase rows => exact ⟨r, rows ▸ List.mem_append_left _ hr, .same r⟩
  | dropped day drop rows =>
    refine ⟨r, rows ▸ List.mem_filter.2 ⟨hr, ?_⟩, .same r⟩
    have hne : dayOf r.createdAt ≠ day := fun heq => hday (heq ▸ drop)
    simpa using hne

/-- A row becomes `RUNNING` only when the claim that has it locked commits. -/
theorem Stepped.running_origin (wf : db.WellFormed) (h : db.Stepped advisoryLockKey a db') {r' : Row}
    (hr' : r' ∈ db'.tables.operations) (hrun : r'.status = .live .running) :
    r' ∈ db.tables.operations ∨ ∃ c r, a = .commitClaim c.sid ∧ db.claim? c.sid = some c ∧
      r ∈ db.tables.operations ∧ (∃ l ∈ db.locksOf c.sid, l.id = r.id) ∧ r' = r.claimed c.snapshot.now := by
  have idle {p : Row → Prop} [DecidablePred p] {f : Row → Row}
      (hops : db'.tables.operations = updateWhere p f db.tables.operations)
      (hf : ∀ r, (f r).status ≠ .live .running) : r' ∈ db.tables.operations := by
    rw [hops] at hr'
    obtain ⟨r, hr, rfl⟩ := mem_updateWhere.1 hr'
    split at hrun
    · exact absurd hrun (hf r)
    · rename_i hp
      rwa [if_neg hp]
  cases h with
  | commitInserted he phase | commitInsertedLost he phase =>
    rcases List.mem_append.1 hr' with hr' | hr'
    · exact .inl hr'
    · rw [List.mem_singleton.1 hr', (wf.ids.uncommitted _ (lookup_some_mem he).1 _ phase).2.2] at hrun
      cases hrun
  | @commitClaim sid c hc =>
    obtain ⟨r, hr, rfl⟩ := mem_updateWhere.1 hr'
    have hsid : c.sid = sid := (lookup_some_mem hc).2
    split
    · rename_i hp
      exact .inr ⟨c, r, by rw [hsid], by rw [hsid]; exact hc, hr, by rw [hsid]; exact hp, rfl⟩
    · exact .inl hr
  | finalize => exact .inl (idle OperationStore.finalize_operations fun r => by simp [Row.finalized])
  | requeue => exact .inl (idle OperationStore.requeue_operations fun r => by simp [Row.requeued])
  | deferForReadback =>
    exact .inl (idle OperationStore.deferForReadback_operations fun r => by simp [Row.deferred])
  | reapStale =>
    refine .inl (idle OperationStore.reapStale_operations fun r => ?_)
    split <;> simp [Row.deferred, Row.reaped]
  | createPartition => exact .inl (by simpa only [operations_createPartition] using hr')
  | dropPartition => exact .inl (List.mem_filter.1 hr').1
  | _ => exact .inl hr'

end Db

end Provisioning
