import Mathlib.Data.List.Dedup
import Provisioning.Ops.Claims
import Provisioning.Ops.Fates
import Provisioning.Ops.Fleet
import Provisioning.Ops.Holding

/-!
# Backoffs

A requeued row is `PENDING` in the shared table, and how long to leave its lane alone is known to the
process that ran the attempt. The backoff holds in a run in which whoever claims leaves the lane out.
-/

namespace Provisioning

open Lib

variable {advisoryLockKey : String → BitVec 64} {db db' : Db} {a : DbAction}

/-! ## What a dispatcher leaves out -/

namespace ClaimLoop

variable {L : Type} {p : ClaimLoop L} {lane : String} {now until' : Nat}

theorem mem_excludedLanes : lane ∈ (p.forgetDeferrals now).excludedLanes ↔
    lane ∈ p.activeLanes ∨ ∃ until', (lane, until') ∈ p.laneDeferredUntil ∧ now < until' := by
  unfold excludedLanes forgetDeferrals
  simp

theorem mem_deferLane {other : String} {t : Nat} :
    (other, t) ∈ (p.deferLane lane until').laneDeferredUntil ↔
      (other = lane ∧ t = until') ∨ (other ≠ lane ∧ (other, t) ∈ p.laneDeferredUntil) := by
  unfold deferLane
  dsimp only
  split
  · rename_i hany
    simp only [List.any_eq_true, decide_eq_true_eq] at hany
    obtain ⟨d, hd, rfl⟩ := hany
    rw [List.mem_map]
    constructor
    · rintro ⟨d', hd', heq⟩
      split at heq
      · cases heq
        exact .inl ⟨rfl, rfl⟩
      · rename_i hne
        subst heq
        exact .inr ⟨hne, hd'⟩
    · rintro (⟨rfl, rfl⟩ | ⟨hne, hmem⟩)
      · exact ⟨d, hd, if_pos rfl⟩
      · exact ⟨_, hmem, if_neg hne⟩
  · rename_i hnone
    simp only [List.any_eq_true, decide_eq_true_eq, not_exists, not_and] at hnone
    rw [List.mem_append, List.mem_singleton, Prod.mk.injEq]
    constructor
    · rintro (hmem | heq)
      · exact .inr ⟨hnone _ hmem, hmem⟩
      · exact .inl heq
    · rintro (heq | ⟨-, hmem⟩)
      · exact .inr heq
      · exact .inl hmem

variable {mul : ℚ → ℚ → ℚ} {cfg : LoopConfig} {reg : LoopRegistry} {limiter : RateLimiter L} {p' : ClaimLoop L}

theorem deferral_kept {a : LoopAction} {t : Nat} (h : step mul cfg reg limiter p a = some p')
    (hmem : (lane, t) ∈ p.laneDeferredUntil) (early : ∀ k now, a = .sampled k now → now < t)
    (other : ∀ i until' task, a = .deferLane i until' → p.tasks[i]? = some task → task.op.laneKey ≠ lane) :
    (lane, t) ∈ p'.laneDeferredUntil := by
  cases stepped h with
  | skipped | claimFailed | settled | forgotten | stop => exact hmem
  | @started now =>
    obtain ⟨_, heq⟩ := maybeReap_eq cfg p now
    rw [heq]
    exact hmem
  | @reaped k now =>
    obtain ⟨_, _, _, _, heq⟩ := offer_eq mul reg limiter p k now
    rw [heq]
    exact hmem
  | @sampled k now => exact List.mem_filter.2 ⟨hmem, decide_eq_true (early k now rfl)⟩
  | @claimed k _ ops =>
    rw [← (beginAll_kept ops).2.2] at hmem
    exact hmem
  | @deferLane i until' task hi => exact mem_deferLane.2 (.inr ⟨(other i until' task rfl hi).symm, hmem⟩)

end ClaimLoop

/-! ## Lanes put off -/

def Backoff.Covers (b : Backoff) (r : Row) : Prop := r.instanceId = b.instanceId ∧ r.laneKey = b.laneKey

instance (b : Backoff) (r : Row) : Decidable (b.Covers r) := inferInstanceAs (Decidable (_ ∧ _))

namespace Snapshot

variable {s : Snapshot} {args : ClaimArgs} {b : Backoff} {r : Row}

/-- No row of the lane waits to be claimed, or one of its rows holds the lane. -/
def Rests (s : Snapshot) (b : Backoff) : Prop := ∀ r ∈ s.rows, b.Covers r → r.claimable s.now → s.blocked r

/-- The rows of the list that come before this one in claim order. -/
def aheadOf (s : Snapshot) (rows : List Row) (r : Row) : Int := rows.countP fun r' => s.before r' r

/-- The first row of the lane comes too late for the slots that the statement offers to its instance, or for the
limit. -/
def ComesLate (s : Snapshot) (args : ClaimArgs) (b : Backoff) : Prop :=
  ∀ r ∈ s.rows, b.Covers r → s.Leads r →
    (∀ c ∈ args.cap? r.instanceId,
      c.cap ≤ s.aheadOf ((s.laneLeaders args).filter fun r' => r'.instanceId = r.instanceId) r ∨
        r.priority = .batch ∧ c.batchCap ≤ s.aheadOf
          ((s.laneLeaders args).filter fun r' => r'.instanceId = r.instanceId ∧ r'.priority = r.priority) r) ∨
    args.limit ≤ s.aheadOf (s.capped args) r

instance (s : Snapshot) (b : Backoff) : Decidable (s.Rests b) := inferInstanceAs (Decidable (∀ r ∈ s.rows, _))

instance (s : Snapshot) (args : ClaimArgs) (b : Backoff) : Decidable (s.ComesLate args b) :=
  inferInstanceAs (Decidable (∀ r ∈ s.rows, _ → _ → (∀ c ∈ args.cap? r.instanceId, _) ∨ _))

/-- The cycle remembered the lane when it looked, or the lane rests, or it comes too late. -/
def LeavesAlone (s : Snapshot) (args : ClaimArgs) (b : Backoff) : Prop :=
  b.laneKey ∈ args.activeLaneKeys ∨ s.Rests b ∨ s.ComesLate args b

instance (s : Snapshot) (args : ClaimArgs) (b : Backoff) : Decidable (s.LeavesAlone args b) :=
  inferInstanceAs (Decidable (_ ∨ _ ∨ _))

theorem rn_eq_aheadOf : (s.rn args r : Int) =
    s.aheadOf ((s.laneLeaders args).filter fun r' => r'.instanceId = r.instanceId) r + 1 := by
  unfold rn rank aheadOf
  rw [List.countP_filter]
  simp [Bool.and_comm]

theorem classRn_eq_aheadOf : (s.classRn args r : Int) = s.aheadOf
    ((s.laneLeaders args).filter fun r' => r'.instanceId = r.instanceId ∧ r'.priority = r.priority) r + 1 := by
  unfold classRn rank aheadOf
  rw [List.countP_filter]
  simp [Bool.and_comm]

theorem ComesLate.not_picked (h : s.ComesLate args b) (hr : r ∈ s.picked args) : ¬ b.Covers r := by
  intro hcovers
  obtain ⟨hmem, hlead⟩ := leads_of_picked hr
  obtain ⟨c, hc, hcap, hclass⟩ := (fits_of_picked hr).caps
  have hlimit : (rank s.before (s.capped args) r : Int) ≤ args.limit := (mem_picked_iff.1 hr).2.2
  rw [rn_eq_aheadOf] at hcap
  rw [classRn_eq_aheadOf] at hclass
  rcases h r hmem hcovers hlead with hfull | hfull
  · rcases hfull c hc with hfull | ⟨hbatch, hfull⟩
    · omega
    · have := hclass hbatch
      omega
  · unfold rank at hlimit
    unfold aheadOf at hfull
    push_cast at hlimit
    omega

theorem LeavesAlone.not_picked (h : s.LeavesAlone args b) (hr : r ∈ s.picked args) : ¬ b.Covers r := by
  intro hcovers
  rcases h with hactive | hrests | hlate
  · exact (fits_of_picked hr).active (hcovers.2 ▸ hactive)
  · obtain ⟨hmem, hlead⟩ := leads_of_picked hr
    exact hlead.unblocked (hrests r hmem hcovers hlead.claimable)
  · exact hlate.not_picked hr hcovers

end Snapshot

/-- **A cycle remembers** the lanes of the attempts of its own process, and the lanes that they have put off. -/
theorem ClaimLoop.remembers_iff {L : Type} {mul : ℚ → ℚ → ℚ} {cfg : LoopConfig} {reg : LoopRegistry}
    {limiter : RateLimiter L} {p p' : ClaimLoop L} {k now : Nat} {args : ClaimArgs} {lane : String}
    (h : p.step mul cfg reg limiter (.sampled k now) = some p') (hargs : p'.cycles[k]? = some (.claiming args)) :
    lane ∈ args.activeLaneKeys ↔
      lane ∈ p.activeLanes ∨ ∃ until', (lane, until') ∈ p.laneDeferredUntil ∧ now < until' := by
  simp only [ClaimLoop.step] at h
  split at h
  · rename_i available hk
    rw [Option.some.injEq] at h
    subst h
    have hlt := (List.getElem?_eq_some_iff.1 hk).1
    unfold ClaimLoop.claim at hargs
    rw [List.getElem?_set_self hlt, Option.some.injEq, Cycle.claiming.injEq] at hargs
    subst hargs
    exact ClaimLoop.mem_excludedLanes
  · simp at h

namespace Db

/-- The statement has locked the row, or has still to lock it. -/
def WantedBy (db : Db) (c : ClaimStatement) (u : Uuid) : Prop := u ∈ c.todo ∨ ∃ l ∈ db.locks, l.sid = c.sid ∧ l.id = u

theorem WantedBy.wanted {c : ClaimStatement} {u : Uuid} (h : db.WantedBy c u) (hc : c ∈ db.claims) : db.Wanted u := by
  rcases h with hu | ⟨l, hl, -, hid⟩
  · exact .inl ⟨c, hc, hu⟩
  · exact .inr ⟨l, hl, hid⟩

theorem Stepped.wantedBy_origin (wf : db.WellFormed) (h : db.Stepped advisoryLockKey a db') {c' : ClaimStatement}
    (hc' : c' ∈ db'.claims) {u : Uuid} (hu : db'.WantedBy c' u) :
    (∃ c ∈ db.claims, c'.snapshot = c.snapshot ∧ db.WantedBy c u) ∨
      ∃ tie, a = .beginClaim c'.sid c'.caller c'.args tie ∧ c'.snapshot = ⟨db.tables.operations, db.now, tie⟩ ∧
        ∃ r ∈ c'.snapshot.picked c'.args, r.id = u := by
  rcases h.claim_origin hc' with ⟨c, hc, hsid, -, -, hsnapshot, htodo⟩ | ⟨tie, ha, fresh, hsnapshot, htodo, hlocks⟩
  · refine .inl ⟨c, hc, hsnapshot, ?_⟩
    rcases hu with hu | ⟨l, hl, hown, rfl⟩
    · exact .inl (htodo hu)
    · rcases h.lock_origin hl with hold | ⟨c₀, hc₀, hsid₀, hpicked⟩
      · exact .inr ⟨l, hold, hown.trans hsid, rfl⟩
      · have hsame : c₀.sid = c.sid := hsid₀.trans (hown.trans hsid)
        obtain rfl := eq_of_key_eq wf.sessions.claims hc₀ hc hsame
        exact .inl hpicked
  · refine .inr ⟨tie, ha, hsnapshot, ?_⟩
    rcases hu with hu | ⟨l, hl, hown, -⟩
    · rw [htodo] at hu
      exact List.mem_map.1 hu
    · rw [hlocks] at hl
      obtain ⟨c, hc, hsid⟩ := wf.locks.owner l hl
      exact absurd (hown ▸ hsid ▸ List.mem_map_of_mem hc) (lookup_none_iff.1 fresh)

/-- No statement from before the end of the backoff wants a row of the lane that it could claim. -/
def Spares (db : Db) (b : Backoff) : Prop :=
  ∀ c ∈ db.claims, c.snapshot.now < b.until' →
    ∀ r ∈ db.tables.operations, b.Covers r → ¬ r.status.terminal → ¬ db.WantedBy c r.id

variable {b : Backoff}

theorem Spares.step (inv : db.Spares b) (wf : db.WellFormed) (known : db.WantedKnown)
    (h : db.Stepped advisoryLockKey a db')
    (leaves : ∀ sid caller args tie, a = .beginClaim sid caller args tie → db.now < b.until' →
      (Snapshot.mk db.tables.operations db.now tie).LeavesAlone args b) : db'.Spares b := by
  intro c' hc' hearly r' hr' hcovers hopen hwants
  rcases h.wantedBy_origin wf hc' hwants with ⟨c, hc, hsnapshot, hold⟩ | ⟨tie, rfl, hsnapshot, r₀, hr₀, hid⟩
  · rw [hsnapshot] at hearly
    rcases (h.rows wf).origin hr' with ⟨r, hr, hchange⟩ | ⟨e, he, hphase⟩
    · -- The row was on the lane before the step, and was not terminal.
      have same := hchange.sameOperation
      rw [same.id] at hold
      refine inv c hc hearly r hr ?_ (fun ht => hopen (hchange.terminal_of_terminal ht)) hold
      exact ⟨same.instanceId.symm.trans hcovers.1, same.laneKey.symm.trans hcovers.2⟩
    · -- Nobody can want a row that has just been inserted.
      exact (wf.ids.uncommitted e he r' hphase).2.1 (known _ (hold.wanted hc))
  · rw [hsnapshot] at hearly hr₀
    have htables : db'.tables = db.tables := by
      cases h
      rfl
    have hmem : r₀ ∈ db.tables.operations := (Snapshot.leads_of_picked hr₀).1
    rw [htables] at hr'
    obtain rfl := eq_of_key_eq wf.ids.nodup hmem hr' hid
    exact (leaves _ _ _ tie rfl hearly).not_picked hr₀ hcovers

theorem Spares.not_returned (inv : db.Spares b) (wf : db.WellFormed) {sid : Nat} {c : ClaimStatement}
    (hc : db.claim? sid = some c) (hearly : c.snapshot.now < b.until') {r : Row} {p : OperationPendingStatus}
    (hr : (r, p) ∈ db.returned sid) : ¬ b.Covers r := by
  intro hcovers
  obtain ⟨hmem, rfl⟩ := lookup_some_mem hc
  obtain ⟨l, hl, hrow, -⟩ := mem_returned.1 hr
  obtain ⟨hlock, hown⟩ := List.mem_filter.1 hl
  obtain ⟨-, hst, -⟩ := returned_lockable wf hr
  have hid : l.id = r.id := (lookup_some_mem hrow).2.symm
  refine inv c hmem hearly r (lookup_some_mem hrow).1 hcovers ?_ (.inr ⟨l, hlock, of_decide_eq_true hown, hid⟩)
  simp [hst]

end Db

namespace Fleet

variable {L : Type} {cfg : ResolvedDispatcherConfig} {mul : ℚ → ℚ → ℚ} {loopCfg : LoopConfig} {limiter : RateLimiter L}
  {s s' : Fleet L} {act : FleetAction}

/-! ## The property -/

/-- What comes later respects what came before. -/
def Honours : LaneEvent → LaneEvent → Prop
  | .backedOff b, .claimed instanceId laneKey claimedAt =>
    b.instanceId = instanceId → b.laneKey = laneKey → b.until' ≤ claimedAt
  | _, _ => True

instance : DecidableRel Honours
  | .backedOff _, .claimed .. => inferInstanceAs (Decidable (_ → _ → _ ≤ _))
  | .backedOff _, .backedOff _ | .claimed .., _ => .isTrue trivial

/-- After a backoff began, nothing is claimed on its lane before it is over. -/
def HonoursBackoffs (s : Fleet L) : Prop := s.lanes.Pairwise Honours

instance (s : Fleet L) : Decidable s.HonoursBackoffs := inferInstanceAs (Decidable (List.Pairwise _ _))

/-! ## The condition -/

/-- A claim statement that starts during a backoff leaves the lane alone, and no statement in flight wants a row of
the lane when the backoff begins. -/
def heedsBackoffs (s : Fleet L) (act : FleetAction) (_ : Fleet L) : Prop :=
  match act with
  | .beginClaim proc _ k tie => ∀ args ∈ s.args? proc k, ∀ b ∈ s.backoffs, s.db.now < b.until' →
    (Snapshot.mk s.db.tables.operations s.db.now tie).LeavesAlone args b
  | .deferLane i _ => ∀ att ∈ s.deployment.attempts[i]?, ∀ r ∈ s.db.tables.operations,
    r.instanceId = att.op.instanceId → r.laneKey = att.op.laneKey → ¬ r.status.terminal → ¬ s.db.Wanted r.id
  | _ => True

instance (s : Fleet L) (act : FleetAction) (s' : Fleet L) : Decidable (heedsBackoffs s act s') :=
  match act with
  | .beginClaim proc _ k _ => inferInstanceAs (Decidable (∀ args ∈ s.args? proc k, ∀ b ∈ s.backoffs, _ → _))
  | .deferLane i _ => inferInstanceAs (Decidable (∀ att ∈ s.deployment.attempts[i]?, ∀ r ∈ _, _))
  | .deployment _ | .loop .. | .turnedAway .. | .claimFailed .. | .commitClaim .. => .isTrue trivial

/-! ## The process that ran the attempt -/

/-- The process does not put the lane off again, and its cycles look before the backoff is over. -/
def keepsEntry (proc : Nat) (lane : String) (until' : Nat) (s : Fleet L) (act : FleetAction) (_ : Fleet L) : Prop :=
  match act with
  | .loop q _ (.sampled _ now) => q = proc → now < until'
  | .deferLane i j => ∀ att ∈ s.deployment.attempts[i]?, att.proc = proc →
    ∀ t ∈ (s.loops proc).tasks[j]?, t.op.laneKey ≠ lane
  | _ => True

theorem entry_survives {proc until' : Nat} {lane : String}
    (run : Runs (step advisoryLockKey cfg mul loopCfg limiter) (keepsEntry proc lane until') s s')
    (entry : (lane, until') ∈ (s.loops proc).laneDeferredUntil) :
    (lane, until') ∈ (s'.loops proc).laneDeferredUntil := by
  refine run.invariant (fun s => (lane, until') ∈ (s.loops proc).laneDeferredUntil) entry
    fun s act s' entry h keeps => ?_
  have elsewhere {q : Nat} {p : ClaimLoop L}
      (hp : q = proc → (lane, until') ∈ p.laneDeferredUntil) :
      (lane, until') ∈ ((s.setLoop q p).loops proc).laneDeferredUntil := by
    simp only [setLoop]
    split
    · rename_i hq
      exact hp hq.symm
    · exact entry
  cases stepped h with
  | deployment | begun | lost => exact entry
  | @loop q reg a p alive may hp =>
    refine elsewhere fun hq => ?_
    subst hq
    refine ClaimLoop.deferral_kept hp entry ?_ ?_
    · rintro k now rfl
      exact keeps rfl
    · rintro i until' t rfl
      simp [mayStep] at may
  | turnedAway | claimFailed =>
    refine elsewhere fun hq => ?_
    subst hq
    exact entry
  | @delivered sid k c =>
    refine elsewhere fun hq => ?_
    subst hq
    unfold ClaimLoop.endCycle
    rwa [(ClaimLoop.beginAll_kept _).2.2]
  | @deferred i j att t until'' k d hi asks hj =>
    refine elsewhere fun hq => ?_
    subst hq
    exact ClaimLoop.mem_deferLane.2 (.inr ⟨(keeps att hi rfl t hj).symm, entry⟩)

/-- **The process that ran the attempt keeps off the lane**, until it puts it off again. -/
theorem own_backoff_remembered {proc k now until' : Nat} {lane : String} {reg : LoopRegistry} {s₀ : Fleet L}
    {args : ClaimArgs}
    (run : Runs (step advisoryLockKey cfg mul loopCfg limiter) (keepsEntry proc lane until') s₀ s)
    (entry : (lane, until') ∈ (s₀.loops proc).laneDeferredUntil)
    (h : s.step advisoryLockKey cfg mul loopCfg limiter (.loop proc reg (.sampled k now)) = some s')
    (early : now < until') (hargs : s'.args? proc k = some args) : lane ∈ args.activeLaneKeys := by
  have survives := entry_survives run entry
  cases stepped h with
  | @loop _ _ _ p alive may hp =>
    unfold args? setLoop at hargs
    simp only [if_true] at hargs
    split at hargs
    · rename_i hcycle
      obtain rfl := Option.some.inj hargs
      exact (ClaimLoop.remembers_iff hp hcycle).2 (.inr ⟨until', survives, early⟩)
    · simp at hargs

/-! ## Steps -/

/-- What a step does to the log and to the database. -/
inductive LaneStep (advisoryLockKey : String → BitVec 64) (s : Fleet L) (act : FleetAction) (s' : Fleet L) : Prop
  | still (lanes : s'.lanes = s.lanes) (db : s'.db = s.db)
  | moved {a : DbAction} (other : ∀ sid caller args tie, a ≠ .beginClaim sid caller args tie)
      (lanes : s'.lanes = s.lanes) (db : s.db.Stepped advisoryLockKey a s'.db)
  | begun {proc sid k : Nat} {tie : Uuid → Nat} {args : ClaimArgs} (hact : act = .beginClaim proc sid k tie)
      (hargs : s.args? proc k = some args) (lanes : s'.lanes = s.lanes)
      (db : s.db.Stepped advisoryLockKey (.beginClaim sid proc args tie) s'.db)
  | claimed {c : ClaimStatement} (hc : s.db.claim? c.sid = some c) (lanes : s'.lanes = s.lanes ++ s.claimEvents c)
      (db : s.db.Stepped advisoryLockKey (.commitClaim c.sid) s'.db)
  | deferred {i j : Nat} {att : Attempt} {until' : Nat} (hact : act = .deferLane i j)
      (hi : s.deployment.attempts[i]? = some att)
      (lanes : s'.lanes = s.lanes ++ [.backedOff ⟨att.op.instanceId, att.op.laneKey, until'⟩]) (db : s'.db = s.db)

theorem Stepped.laneStep (h : Stepped advisoryLockKey cfg mul loopCfg limiter s act s') :
    LaneStep advisoryLockKey s act s' := by
  cases h with
  | deployment alone h =>
    rcases standsAlone_db alone h with hdb | ⟨a, hdb, hother⟩
    · exact .still rfl hdb
    · exact .moved hother rfl hdb
  | begun hargs idle h => exact .begun rfl hargs rfl (beginClaim_db h)
  | lost hc h | delivered hc _ _ h =>
    obtain ⟨-, rfl⟩ := lookup_some_mem hc
    exact .claimed hc rfl (commitClaim_db h)
  | deferred hi _ _ _ h => exact .deferred rfl hi rfl (reply_db h)
  | loop | turnedAway | claimFailed => exact .still rfl rfl

/-! ## The result -/

structure Heeded (s : Fleet L) : Prop where
  wf : s.db.WellFormed
  known : s.db.WantedKnown
  spares : ∀ b ∈ s.backoffs, s.db.Spares b
  honours : s.HonoursBackoffs

theorem mem_backoffs {b : Backoff} : b ∈ s.backoffs ↔ .backedOff b ∈ s.lanes := by
  unfold backoffs
  rw [List.mem_filterMap]
  constructor
  · rintro ⟨e, he, hb⟩
    cases e with
    | backedOff b' =>
      cases hb
      exact he
    | claimed => simp [LaneEvent.backoff?] at hb
  · intro h
    exact ⟨_, h, rfl⟩

theorem Heeded.same (inv : s.Heeded) (lanes : s'.lanes = s.lanes) (hdb : s'.db = s.db) : s'.Heeded := by
  refine ⟨hdb ▸ inv.wf, hdb ▸ inv.known, ?_, ?_⟩
  · unfold backoffs
    rw [lanes, hdb]
    exact inv.spares
  · unfold HonoursBackoffs
    rw [lanes]
    exact inv.honours

theorem Heeded.next (inv : s.Heeded) {a : DbAction} {more : List LaneEvent}
    (hdb : s.db.Stepped advisoryLockKey a s'.db)
    (leaves : ∀ b ∈ s.backoffs, ∀ sid caller args tie, a = .beginClaim sid caller args tie → s.db.now < b.until' →
      (Snapshot.mk s.db.tables.operations s.db.now tie).LeavesAlone args b)
    (lanes : s'.lanes = s.lanes ++ more)
    (claims : ∀ e ∈ more, ∃ i l t, e = .claimed i l t ∧ ∀ b ∈ s.backoffs, Honours (.backedOff b) e) : s'.Heeded := by
  have hnone : more.filterMap LaneEvent.backoff? = [] := by
    refine List.filterMap_eq_nil_iff.2 fun e he => ?_
    obtain ⟨i, l, t, rfl, -⟩ := claims e he
    rfl
  have hbackoffs : s'.backoffs = s.backoffs := by
    unfold backoffs
    rw [lanes, List.filterMap_append, hnone, List.append_nil]
  refine ⟨inv.wf.step hdb, inv.known.step inv.wf hdb, fun b hb => ?_, ?_⟩
  · rw [hbackoffs] at hb
    exact (inv.spares b hb).step inv.wf inv.known hdb (leaves b hb)
  · unfold HonoursBackoffs
    rw [lanes, List.pairwise_append]
    refine ⟨inv.honours, List.pairwise_of_forall_mem_list fun e he _ _ => ?_, fun e he e' he' => ?_⟩
    · obtain ⟨i, l, t, rfl, -⟩ := claims e he
      trivial
    · obtain ⟨-, -, -, -, hafter⟩ := claims e' he'
      cases e with
      | backedOff b => exact hafter b (mem_backoffs.2 he)
      | claimed => trivial

theorem Heeded.defer (inv : s.Heeded) {b : Backoff} (spares : s.db.Spares b) (hdb : s'.db = s.db)
    (lanes : s'.lanes = s.lanes ++ [.backedOff b]) : s'.Heeded := by
  refine ⟨hdb ▸ inv.wf, hdb ▸ inv.known, fun b' hb' => ?_, ?_⟩
  · rw [hdb]
    rw [mem_backoffs, lanes, List.mem_append, List.mem_singleton] at hb'
    rcases hb' with hold | hnew
    · exact inv.spares b' (mem_backoffs.2 hold)
    · cases hnew
      exact spares
  · unfold HonoursBackoffs
    rw [lanes, List.pairwise_append]
    refine ⟨inv.honours, List.pairwise_singleton _ _, fun e _ e' he' => ?_⟩
    rw [List.mem_singleton.1 he']
    cases e <;> trivial

theorem Heeded.step (inv : s.Heeded) (h : Stepped advisoryLockKey cfg mul loopCfg limiter s act s')
    (heeds : heedsBackoffs s act s') : s'.Heeded := by
  cases h.laneStep with
  | still lanes hdb => exact inv.same lanes hdb
  | moved hother lanes hdb =>
    rw [← List.append_nil s.lanes] at lanes
    exact inv.next hdb (fun _ _ _ _ _ _ heq => absurd heq (hother _ _ _ _)) lanes (by simp)
  | @begun proc sid k tie args hact hargs lanes hdb =>
    rw [← List.append_nil s.lanes] at lanes
    subst hact
    refine inv.next hdb (fun b hb _ _ _ _ heq hearly => ?_) lanes (by simp)
    cases heq
    exact heeds args hargs b hb hearly
  | @claimed c hc lanes hdb =>
    refine inv.next hdb (by simp) lanes fun e he => ?_
    obtain ⟨⟨r, p⟩, hr, rfl⟩ := List.mem_map.1 he
    refine ⟨_, _, _, rfl, fun b hb hinstance hlane => ?_⟩
    by_contra hearly
    exact (inv.spares b hb).not_returned inv.wf hc (not_le.1 hearly) hr ⟨hinstance.symm, hlane.symm⟩
  | @deferred i j att until' hact hi lanes hdb =>
    subst hact
    refine inv.defer (fun c hc _ r hr hcovers hopen hwants => ?_) hdb lanes
    exact heeds att hi r hr hcovers.1 hcovers.2 hopen (hwants.wanted hc)

def oneInstance : LoopRegistry := ⟨["i"], fun _ => some 2, fun _ => ⟨some ⟨1 / 2, "0.5"⟩, ⟨none, none, none⟩⟩⟩

def unlimited : RateLimiter Unit := ⟨fun _ _ _ => (), fun l _ _ => (true, l)⟩

/-- A cycle of the process, up to the statement of its claim. -/
def cycle (proc sid now : Nat) : List FleetAction :=
  [.loop proc oneInstance (.runCycle now), .loop proc oneInstance (.reaped 0 now),
    .loop proc oneInstance (.sampled 0 now), .beginClaim proc sid 0 fun _ => 0]

def claims (proc sid now : Nat) (u : Uuid) : List FleetAction :=
  cycle proc sid now ++ [.deployment (.database (.lockRow sid u false)), .commitClaim sid 0 true]

end Fleet

end Provisioning
