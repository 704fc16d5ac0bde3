import Provisioning.Ops.Deployment

/-!
# What becomes of a row

How a step of a deployment changes the row of a given id. No row leaves the table.
-/

namespace Provisioning

open Lib

variable {advisoryLockKey : String → BitVec 64}

/-! ## Statements -/

namespace Db

variable {db db' : Db} {u : Uuid}

theorem row?_id {r : Row} (hr : db.row? u = some r) : r.id = u := (lookup_some_mem hr).2

theorem row?_claimLocked {sid now : Nat} :
    ((db.claimLocked sid now).endClaim sid).row? u =
      (db.row? u).map fun r => if ∃ l ∈ db.locksOf sid, l.id = r.id then r.claimed now else r :=
  row?_of_updateWhere rfl fun _ _ => rfl

theorem Stepped.background {a : DbAction} (h : db.Stepped advisoryLockKey a db') (wf : db.WellFormed)
    (hb : a.isBackground) :
    db'.row? u = db.row? u ∨
      db.row? u = none ∧ ∃ r, db'.row? u = some r ∧ r.status = .live .pending ∧ r.attemptCount = 0 := by
  cases h with
  | commitInserted he phase | commitInsertedLost he phase =>
    obtain ⟨-, hnew, hrow⟩ := wf.ids.uncommitted _ (lookup_some_mem he).1 _ phase
    simp only [row?, Tables.row?, insertRow, endEnqueue, answered]
    rw [lookup_append_singleton hnew]
    split
    · rename_i hid
      subst hid
      exact .inr ⟨lookup_none_iff.2 hnew, _, rfl, by rw [hrow]; rfl, by rw [hrow]; rfl⟩
    · exact .inl rfl
  | createPartition => exact .inl (by simp only [row?, Tables.row?, operations_createPartition])
  | commitClaim | finalize | requeue | deferForReadback | reapStale | dropPartition => cases hb
  | _ => exact .inl rfl

theorem row?_reapStale {thresholdMs readBackDelayMs now : Nat} {seen : List Uuid}
    (h : db.Stepped advisoryLockKey (.reapStale thresholdMs readBackDelayMs now seen) db') :
    db'.row? u = (db.row? u).map fun r =>
      if r.id ∈ seen ∧ r.stale thresholdMs now then
        if r.opType = .create then r.deferred (now + readBackDelayMs) else r.reaped
      else r := by
  cases h
  refine row?_of_updateWhere OperationStore.reapStale_operations fun r _ => ?_
  split <;> rfl

end Db

/-! ## Writes of an attempt -/

/-- The row that a write is about. -/
def Io.row : Io → Option Uuid
  | .finalize id .. | .requeue id | .deferForReadback id _ => operationIdOf id
  | _ => none

def Io.outcome : Io → Option ResolutionOutcome
  | .finalize _ outcome _ _ => some (.final outcome)
  | .requeue _ => some .requeue
  | .deferForReadback .. => some .deferReadback
  | _ => none

/-- What the row becomes. -/
def Io.write (began : Nat) (r : Row) : Io → Row
  | .finalize _ outcome result errorCode =>
    if r.status.terminal then r else r.finalized outcome result errorCode began
  | .requeue _ => if r.status = .live .running then r.requeued else r
  | .deferForReadback _ notBefore => if r.status = .live .running then r.deferred notBefore else r
  | _ => r

theorem Io.change_write (e : Io) (began : Nat) (r : Row) : r.Change (e.write began r) := by
  unfold Io.write
  split
  · split
    · exact .same r
    · rename_i hopen
      exact .finalized _ _ _ _ hopen
  · split
    · rename_i hrun
      exact .requeued hrun
    · exact .same r
  · split
    · rename_i hrun
      exact .deferred _ hrun
    · exact .same r
  · exact .same r

theorem Db.row?_write {db db' : Db} {u : Uuid} {e : Io} {began : Nat} {a : DbAction}
    (statement : e.statement began = some a) (h : db.Stepped advisoryLockKey a db') :
    db'.row? u = (db.row? u).map fun r => if e.row = some r.id then e.write began r else r := by
  have rearranged {p : Row → Prop} [DecidablePred p] {f : Row → Row}
      (hops : db'.tables.operations = updateWhere p f db.tables.operations) (hf : ∀ r, p r → (f r).id = r.id)
      (hwrite : ∀ r, (if p r then f r else r) = if e.row = some r.id then e.write began r else r) :
      db'.row? u = (db.row? u).map fun r => if e.row = some r.id then e.write began r else r := by
    rw [Db.row?_of_updateWhere hops hf]
    exact congrArg (fun g => Option.map g (db.row? u)) (funext hwrite)
  cases e <;> cases statement <;> cases h
  case finalize id outcome result errorCode _ _ =>
    refine rearranged OperationStore.finalize_operations (fun _ _ => rfl) fun r => ?_
    by_cases hid : operationIdOf id = some r.id <;> simp [Io.row, Io.write, hid]
  case requeue id =>
    refine rearranged OperationStore.requeue_operations (fun _ _ => rfl) fun r => ?_
    by_cases hid : operationIdOf id = some r.id <;> simp [Io.row, Io.write, hid]
  case deferForReadback id notBefore =>
    refine rearranged OperationStore.deferForReadback_operations (fun _ _ => rfl) fun r => ?_
    by_cases hid : operationIdOf id = some r.id <;> simp [Io.row, Io.write, hid]

/-! ## Steps of a deployment -/

namespace Deployment

variable {cfg : ResolvedDispatcherConfig} {s s' : Deployment} {a : Action} {u : Uuid}

theorem Stepped.database_step (h : Stepped advisoryLockKey cfg s a s') :
    s'.db = s.db ∨ ∃ b, s.db.Stepped advisoryLockKey b s'.db := by
  cases h with
  | database _ _ h | wrote _ _ _ _ h | reaped h => exact .inr ⟨_, h⟩
  | @committed sid c _ hc done => exact .inr ⟨.commitClaim sid, .commitClaim hc done⟩
  | replied | writeLost | died => exact .inl rfl

theorem Stepped.wellFormed (h : Stepped advisoryLockKey cfg s a s') (wf : s.db.WellFormed) :
    s'.db.WellFormed := by
  rcases h.database_step with hdb | ⟨b, hdb⟩
  · exact hdb ▸ wf
  · exact wf.step hdb

/-- **No row is lost.** -/
theorem Stepped.row_kept (h : Stepped advisoryLockKey cfg s a s') (wf : s.db.WellFormed) {r : Row}
    (hr : s.db.row? u = some r) : ∃ r', s'.db.row? u = some r' ∧ r.Change r' := by
  cases h with
  | database background _ h =>
    rcases h.background wf background (u := u) with h | ⟨hnone, -⟩
    · exact ⟨r, h.trans hr, .same r⟩
    · rw [hr] at hnone
      cases hnone
  | committed hc done =>
    refine ⟨_, by rw [Db.row?_claimLocked, hr, Option.map_some], ?_⟩
    split
    · rename_i hl
      obtain ⟨l, hl, hid⟩ := hl
      obtain ⟨r', hr', hst, hidle⟩ := wf.locks.held l (List.mem_filter.1 hl).1
      rw [hid, Db.row?_id hr, hr] at hr'
      cases hr'
      exact .claimed _ hst hidle
    · exact .same r
  | wrote _ _ _ statement h =>
    refine ⟨_, by rw [Db.row?_write statement h, hr, Option.map_some], ?_⟩
    split
    · exact Io.change_write ..
    · exact .same r
  | reaped h =>
    refine ⟨_, by rw [Db.row?_reapStale h, hr, Option.map_some], ?_⟩
    split
    · rename_i hst
      split
      · exact .deferred _ hst.2.1
      · rename_i hop
        exact .reaped hst.2.1 hop
    · exact .same r
  | replied | writeLost | died => exact ⟨r, hr, .same r⟩

/-- Where a row of the new state comes from. -/
inductive RowOrigin (cfg : ResolvedDispatcherConfig) (s : Deployment) (a : Action) (s' : Deployment) (u : Uuid) :
    Row → Prop
  | same {r : Row} (hr : s.db.row? u = some r) : RowOrigin cfg s a s' u r
  | entered {r : Row} (pending : r.status = .live .pending) : RowOrigin cfg s a s' u r
  | claimed {r : Row} {now : Nat} : RowOrigin cfg s a s' u (r.claimed now)
  | wrote {r : Row} {att : Attempt} {e : Io} {began : Nat} {k : e.Answer → Prog Dispatch (Except Failure Unit)}
      (hr : s.db.row? u = some r) (hatt : att ∈ s.attempts) (asks : att.prog = .await e k) (hrow : e.row = some r.id)
      (logged : (⟨att.row, att.claim, .wrote e true (claimsOf s.log att.row)⟩ : Entry) ∈ s'.log) :
      RowOrigin cfg s a s' u (e.write began r)
  | reaped {r : Row} {readBackDelayMs began : Nat} {seen : List Uuid} (ha : a = .reap readBackDelayMs began seen)
      (hr : s.db.row? u = some r) (hseen : r.id ∈ seen) (stale : r.stale cfg.reaperThresholdMs began) :
      RowOrigin cfg s a s' u (if r.opType = .create then r.deferred (began + readBackDelayMs) else r.reaped)

theorem Stepped.row_origin (h : Stepped advisoryLockKey cfg s a s') (wf : s.db.WellFormed) {r' : Row}
    (hr' : s'.db.row? u = some r') : RowOrigin cfg s a s' u r' := by
  cases h with
  | database background _ h =>
    rcases h.background wf background (u := u) with hsame | ⟨-, r, hr, hpending, -⟩
    · exact .same (hsame ▸ hr')
    · obtain rfl := Option.some.inj (hr.symm.trans hr')
      exact .entered hpending
  | @committed sid c delivered hc done =>
    rw [Db.row?_claimLocked] at hr'
    obtain ⟨r, hr, rfl⟩ := Option.map_eq_some_iff.1 hr'
    by_cases hlocked : ∃ l ∈ s.db.locksOf sid, l.id = r.id
    · rw [if_pos hlocked]
      exact .claimed
    · rw [if_neg hlocked]
      exact .same hr
  | wrote hi split asks statement h =>
    rw [Db.row?_write statement h] at hr'
    obtain ⟨r, hr, rfl⟩ := Option.map_eq_some_iff.1 hr'
    split
    · rename_i hrow
      exact .wrote hr (split ▸ List.mem_append_right _ List.mem_cons_self) asks hrow
        (List.mem_append_right _ List.mem_cons_self)
    · exact .same hr
  | reaped h =>
    rw [Db.row?_reapStale h] at hr'
    obtain ⟨r, hr, rfl⟩ := Option.map_eq_some_iff.1 hr'
    split
    · rename_i hp
      exact .reaped rfl hr hp.1 hp.2
    · exact .same hr
  | replied | writeLost | died => exact .same hr'

theorem Stepped.awaiting_origin (h : Stepped advisoryLockKey cfg s a s') (wf : s.db.WellFormed) {r' : Row}
    (hr' : s'.db.row? u = some r') (hst : r'.status = .live .awaitingReadback) :
    ∃ r, s.db.row? u = some r ∧ r.SameOperation r' ∧
      (r.status = .live .awaitingReadback ∨
        (∃ readBackDelayMs began seen, a = .reap readBackDelayMs began seen ∧ r.id ∈ seen ∧
          r.stale cfg.reaperThresholdMs began ∧ r.opType = .create) ∨
        ∃ att ∈ s.attempts, ∃ id notBefore k,
          att.prog = .await (.deferForReadback id notBefore) k ∧ operationIdOf id = some r.id) := by
  cases h.row_origin wf hr' with
  | same hr => exact ⟨r', hr, (Row.Change.same r').sameOperation, .inl hst⟩
  | entered pending => simp [pending] at hst
  | claimed => simp [Row.claimed] at hst
  | @wrote r att e began k hr hatt asks hrow =>
    refine ⟨r, hr, (Io.change_write e began r).sameOperation, ?_⟩
    unfold Io.write at hst
    split at hst
    · split at hst
      · exact .inl hst
      · simp [Row.finalized] at hst
    · split at hst
      · simp [Row.requeued] at hst
      · exact .inl hst
    · exact .inr (.inr ⟨att, hatt, _, _, k, asks, hrow⟩)
    · exact .inl hst
  | @reaped r readBackDelayMs began seen ha hr hseen stale =>
    split at hst
    · rename_i hop
      rw [if_pos hop]
      exact ⟨r, hr, (Row.Change.deferred _ stale.1).sameOperation, .inr (.inl ⟨_, _, _, ha, hseen, stale, hop⟩)⟩
    · simp [Row.reaped] at hst

/-- A row is final because it was so before, or the step is the write of its `finalize`. -/
theorem Stepped.final_origin (h : Stepped advisoryLockKey cfg s a s') (wf : s.db.WellFormed) {r' : Row}
    (hr' : s'.db.row? u = some r') {o : OperationOutcome} (hst : r'.status = .final o) :
    s.db.row? u = some r' ∨ ∃ r att id result errorCode began k, s.db.row? u = some r ∧ ¬ r.status.terminal ∧
      r' = r.finalized o result errorCode began ∧ operationIdOf id = some u ∧ att ∈ s.attempts ∧
      att.prog = .await (.finalize id o result errorCode) k ∧
      (⟨att.row, att.claim, .wrote (.finalize id o result errorCode) true (claimsOf s.log att.row)⟩ : Entry) ∈
        s'.log := by
  cases h.row_origin wf hr' with
  | same hr => exact .inl hr
  | entered pending => simp [pending] at hst
  | claimed => simp [Row.claimed] at hst
  | @wrote r att e began k hr hatt asks hrow logged =>
    have hru := Db.row?_id hr
    unfold Io.write at hst ⊢
    split at hst
    · rename_i id outcome result errorCode
      split at hst
      · rename_i hterminal
        rw [if_pos hterminal]
        exact .inl hr
      · rename_i hopen
        rw [if_neg hopen]
        simp only [Row.finalized, OperationStatus.final.injEq] at hst
        subst hst
        exact .inr ⟨r, att, id, result, errorCode, began, k, hr, hopen, rfl, hru ▸ hrow, hatt, asks, logged⟩
    · split at hst
      · simp [Row.requeued] at hst
      · rename_i hp
        rw [if_neg hp]
        exact .inl hr
    · split at hst
      · simp [Row.deferred] at hst
      · rename_i hp
        rw [if_neg hp]
        exact .inl hr
    · exact .inl hr
  | reaped =>
    split at hst
    · simp [Row.deferred] at hst
    · simp [Row.reaped] at hst

/-! ## Attempts and entries -/

theorem Stepped.attempt_origin (h : Stepped advisoryLockKey cfg s a s') {att : Attempt} (hatt : att ∈ s'.attempts) :
    (∃ old ∈ s.attempts, att = { old with prog := att.prog }) ∨
      ∃ sid c r, s.db.claim? sid = some c ∧ r ∈ s.db.returned sid ∧ att = s.newAttempt cfg c r := by
  cases h with
  | @committed sid c delivered hc =>
    rcases List.mem_append.1 hatt with hatt | hatt
    · exact .inl ⟨att, hatt, rfl⟩
    · split at hatt
      · obtain ⟨r, hr, rfl⟩ := List.mem_map.1 hatt
        exact .inr ⟨sid, c, r, hc, hr, rfl⟩
      · cases hatt
  | replied hi split =>
    simp only [List.mem_append, List.mem_cons] at hatt
    rcases hatt with hatt | rfl | hatt
    · exact .inl ⟨att, split ▸ List.mem_append_left _ hatt, rfl⟩
    · exact .inl ⟨_, split ▸ List.mem_append_right _ List.mem_cons_self, rfl⟩
    · exact .inl ⟨att, split ▸ List.mem_append_right _ (List.mem_cons_of_mem _ hatt), rfl⟩
  | wrote hi split | writeLost hi split =>
    refine .inl ⟨att, ?_, rfl⟩
    rw [split]
    simp only [List.mem_append, List.mem_cons] at hatt ⊢
    tauto
  | died => exact .inl ⟨att, (List.mem_filter.1 hatt).1, rfl⟩
  | database | reaped => exact .inl ⟨att, hatt, rfl⟩

theorem Stepped.log_prefix (h : Stepped advisoryLockKey cfg s a s') : s.log <+: s'.log := by
  cases h with
  | database | reaped => exact List.prefix_rfl
  | committed | replied | wrote | writeLost | died => exact List.prefix_append _ _

theorem Stepped.entry_origin (h : Stepped advisoryLockKey cfg s a s') {ent : Entry} (hent : ent ∈ s'.log) {e : Io}
    (he : ent.event.effect = some e) :
    ent ∈ s.log ∨ ∃ att ∈ s.attempts, att.key = ent.key ∧ ∃ k, att.prog = .await e k := by
  have asked {before after : List Attempt} {att : Attempt} (split : s.attempts = before ++ att :: after) :
      att ∈ s.attempts := split ▸ List.mem_append_right _ List.mem_cons_self
  cases h with
  | committed =>
    rcases List.mem_append.1 hent with hent | hent
    · exact .inl hent
    · obtain ⟨r, -, rfl⟩ := List.mem_map.1 hent
      cases he
  | replied hi split asks =>
    rcases List.mem_append.1 hent with hent | hent
    · exact .inl hent
    · obtain rfl := List.mem_singleton.1 hent
      cases he
      exact .inr ⟨_, asked split, rfl, _, asks⟩
  | wrote hi split asks | writeLost hi split asks =>
    rcases List.mem_append.1 hent with hent | hent
    · exact .inl hent
    · obtain rfl := List.mem_singleton.1 hent
      cases he
      exact .inr ⟨_, asked split, rfl, _, asks⟩
  | died =>
    rcases List.mem_append.1 hent with hent | hent
    · exact .inl hent
    · obtain ⟨att, -, rfl⟩ := List.mem_map.1 hent
      cases he
  | database | reaped => exact .inl hent

theorem Stepped.heard_origin (h : Stepped advisoryLockKey cfg s a s') {ent : Entry} (hent : ent ∈ s'.log) {e : Io}
    {x : e.Answer} (hev : ent.event = .heard e x) :
    ent ∈ s.log ∨ ∃ i r att k, a = .reply i r ∧ s.attempts[i]? = some att ∧ att.key = ent.key ∧
      att.prog = .await e k ∧ r.accept e = some x := by
  cases h with
  | replied hi split asks accepted =>
    rcases List.mem_append.1 hent with hent | hent
    · exact .inl hent
    · obtain rfl := List.mem_singleton.1 hent
      cases hev
      exact .inr ⟨_, _, _, _, rfl, hi, rfl, asks, accepted⟩
  | committed =>
    rcases List.mem_append.1 hent with hent | hent
    · exact .inl hent
    · obtain ⟨r, -, rfl⟩ := List.mem_map.1 hent
      cases hev
  | wrote | writeLost =>
    rcases List.mem_append.1 hent with hent | hent
    · exact .inl hent
    · obtain rfl := List.mem_singleton.1 hent
      cases hev
  | died =>
    rcases List.mem_append.1 hent with hent | hent
    · exact .inl hent
    · obtain ⟨att, -, rfl⟩ := List.mem_map.1 hent
      cases hev
  | database | reaped => exact .inl hent

end Deployment

end Provisioning
