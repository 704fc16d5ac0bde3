import Provisioning.Ops.Attempts

/-!
# One attempt at a time

A claim leaves no token behind: that an attempt still owns its row is implied by `RUNNING` and by
the age of the claim. When every live attempt is younger than the reaper's threshold, this is enough.
-/

namespace Provisioning

open Lib

variable {advisoryLockKey : String → BitVec 64} {cfg : ResolvedDispatcherConfig}

/-- A write that the protocol allows is about the row of the operation. -/
theorem protocol_write {op : ClaimedOperation} {r : Row} {f : Facts} {e : Io} (hop : op.Describes r)
    (h : (protocol cfg op).allows f e) {o : ResolutionOutcome} (ho : e.outcome = some o) :
    f.wrote = false ∧ e.row = some r.id ∧ Ruled cfg op f o := by
  cases e <;> cases ho <;> obtain ⟨hw, rfl, hruled⟩ := h <;> exact ⟨hw, hop.id, hruled⟩

/-- What an attempt keeps from its claim. -/
def Attempt.ticket (att : Attempt) : Uuid × Nat × Nat × Nat × ClaimedOperation :=
  (att.row, att.claim, att.proc, att.claimedAt, att.op)

namespace Deployment

variable {s s' : Deployment} {a : Action} {att : Attempt} {e : Io}
  {k : e.Answer → Prog Dispatch (Except Failure Unit)}

theorem Follows.write_row (h : s.Follows cfg att) (asks : att.prog = .await e k) (hout : e.outcome.isSome) :
    e.row = some att.row := by
  obtain ⟨o, ho⟩ := Option.isSome_iff_exists.1 hout
  obtain ⟨r, hr, hop⟩ := h.about
  have hsafe := h.safe
  rw [asks] at hsafe
  rw [(protocol_write hop hsafe.allowed ho).2.1, Db.row?_id hr]

/-- The row is as the attempt's own claim left it, and that claim is its last. The claim returned the
row to the attempt's process. -/
structure Holds (s : Deployment) (att : Attempt) : Prop where
  row : ∃ (r : Row) (p : OperationPendingStatus), s.db.row? att.row = some (r.claimed att.claimedAt) ∧
    r.status = .live p ∧ p ≠ .running ∧ att.op = r.toClaimed p
  current : claimsOf s.log att.row = att.claim
  returned : ⟨att.row, att.claim, .claimed att.proc⟩ ∈ s.log

structure Held (s : Deployment) : Prop where
  rows : (s.attempts.map Attempt.row).Nodup
  holds : ∀ att ∈ s.attempts, s.Holds att
  writes : ∀ ent ∈ s.log, ∀ e applied current, ent.event = .wrote e applied current → current = ent.claim

/-! ## Steps -/

theorem Holds.of_eq {att' : Attempt} (h : s.Holds att) (hticket : att'.ticket = att.ticket)
    (hrow : s'.db.row? att.row = s.db.row? att.row)
    (hclaims : claimsOf s'.log att.row = claimsOf s.log att.row) (hlog : s.log ⊆ s'.log) : s'.Holds att' := by
  simp only [Attempt.ticket, Prod.mk.injEq] at hticket
  obtain ⟨hr, hc, hproc, hat, hop⟩ := hticket
  refine ⟨?_, ?_, ?_⟩
  · rw [hr, hat, hop, hrow]
    exact h.row
  · rw [hr, hc, hclaims]
    exact h.current
  · rw [hr, hc, hproc]
    exact hlog h.returned

theorem Holds.not_locked (h : s.Holds att) (wf : s.db.WellFormed) : ∀ l ∈ s.db.locks, l.id ≠ att.row := by
  rintro l hl hid
  obtain ⟨r, hr, hst, hidle⟩ := wf.locks.held l hl
  obtain ⟨r', p, hr', -⟩ := h.row
  rw [hid, hr'] at hr
  cases hr
  exact hidle (OperationStatus.live.inj hst).symm

/-- The reaper does not see a claim that is still young. -/
theorem Holds.not_stale (h : s.Holds att) {thresholdMs now : Nat} (young : now ≤ att.claimedAt + thresholdMs)
    {r : Row} (hr : s.db.row? att.row = some r) : ¬ r.stale thresholdMs now := by
  obtain ⟨r', p, hr', -⟩ := h.row
  rw [hr] at hr'
  cases hr'
  rintro ⟨-, hage⟩
  simp only [Row.claimed, Option.any_some, decide_eq_true_eq] at hage
  omega

theorem Held.quiet (inv : s.Held) {more : List Entry}
    (hatts : (s'.attempts.map Attempt.ticket).Sublist (s.attempts.map Attempt.ticket))
    (hlog : s'.log = s.log ++ more) (unclaimed : ∀ ent ∈ more, ent.event.isClaimed = false)
    (hrows : ∀ att ∈ s'.attempts, s'.db.row? att.row = s.db.row? att.row)
    (hwrites : ∀ ent ∈ more, ∀ e applied current, ent.event = .wrote e applied current → current = ent.claim) :
    s'.Held where
  rows := by
    have := (hatts.map Prod.fst).nodup
    rw [List.map_map, List.map_map] at this
    exact this inv.rows
  holds att hatt := by
    obtain ⟨old, hold, heq⟩ := List.mem_map.1 (hatts.subset (List.mem_map_of_mem hatt))
    have hrow : old.row = att.row := congrArg Prod.fst heq
    refine (inv.holds old hold).of_eq heq.symm (hrow ▸ hrows att hatt) ?_ (hlog ▸ List.subset_append_left _ _)
    rw [hlog, claimsOf_append, claimsOf_unclaimed unclaimed, Nat.add_zero]
  writes ent hent := by
    rcases List.mem_append.1 (hlog ▸ hent) with hent | hent
    · exact inv.writes ent hent
    · exact hwrites ent hent

theorem Held.committed (inv : s.Held) (wf : s.db.WellFormed) {sid : Nat} {c : ClaimStatement}
    {fresh : List Attempt} (hfresh : fresh.Sublist ((s.db.returned sid).map (s.newAttempt cfg c)))
    (hdb : s'.db = (s.db.claimLocked sid c.snapshot.now).endClaim sid)
    (hatts : s'.attempts = s.attempts ++ fresh)
    (hlog : s'.log = s.log ++ (s.db.returned sid).map (s.newEntry c)) : s'.Held := by
  have hlocked {r : Row} {p : OperationPendingStatus} (h : (r, p) ∈ s.db.returned sid) :
      ∃ l ∈ s.db.locksOf sid, l.id = r.id := by
    obtain ⟨l, hl, hr, -⟩ := Db.mem_returned.1 h
    exact ⟨l, hl, (Db.row?_id hr).symm⟩
  have hfree : ∀ att ∈ s.attempts, ¬ ∃ l ∈ s.db.locksOf sid, l.id = att.row := by
    rintro att hatt ⟨l, hl, hid⟩
    exact (inv.holds att hatt).not_locked wf l (List.mem_filter.1 hl).1 hid
  have hreturned : ∀ att ∈ s.attempts, att.row ∉ (s.db.returned sid).map (fun r => r.1.id) := by
    intro att hatt h
    obtain ⟨⟨r, p⟩, hr, hid⟩ := List.mem_map.1 h
    obtain ⟨l, hl, hl'⟩ := hlocked hr
    exact hfree att hatt ⟨l, hl, hl'.trans hid⟩
  have hclaims (u : Uuid) : claimsOf s'.log u = claimsOf s.log u +
      if u ∈ (s.db.returned sid).map (fun r => r.1.id) then 1 else 0 := by
    rw [hlog, claimsOf_append, claimsOf_newEntries wf]
  refine ⟨?_, ?_, ?_⟩
  · rw [hatts, List.map_append, List.nodup_append]
    refine ⟨inv.rows, ?_, ?_⟩
    · refine List.Nodup.sublist (hfresh.map _) ?_
      rw [List.map_map]
      exact Db.nodup_returned wf
    · rintro u hu u' hu' rfl
      obtain ⟨att, hatt, rfl⟩ := List.mem_map.1 hu
      obtain ⟨att', hatt', heq⟩ := List.mem_map.1 hu'
      obtain ⟨r, hr, rfl⟩ := List.mem_map.1 (hfresh.subset hatt')
      exact hreturned att hatt (List.mem_map.2 ⟨r, hr, heq⟩)
  · intro att hatt
    rw [hatts] at hatt
    rcases List.mem_append.1 hatt with hatt | hatt
    · refine (inv.holds att hatt).of_eq rfl ?_ ?_ (hlog ▸ List.subset_append_left _ _)
      · obtain ⟨r, _, hr, -⟩ := (inv.holds att hatt).row
        rw [hdb, Db.row?_claimLocked, hr, Option.map_some, if_neg]
        rw [Db.row?_id hr]
        exact hfree att hatt
      · rw [hclaims, if_neg (hreturned att hatt), Nat.add_zero]
    · obtain ⟨⟨r, p⟩, hr, rfl⟩ := List.mem_map.1 (hfresh.subset hatt)
      obtain ⟨hrow, hst, hidle⟩ := Db.returned_lockable wf hr
      refine ⟨⟨r, p, ?_, hst, hidle, rfl⟩, ?_, ?_⟩
      · rw [hdb, Db.row?_claimLocked]
        simp only [newAttempt]
        rw [hrow, Option.map_some, if_pos (hlocked hr)]
      · have hin : r.id ∈ (s.db.returned sid).map (fun r => r.1.id) := List.mem_map.2 ⟨(r, p), hr, rfl⟩
        exact (hclaims r.id).trans (by rw [if_pos hin]; rfl)
      · exact hlog ▸ List.mem_append_right _ (List.mem_map.2 ⟨(r, p), hr, rfl⟩)
  · intro ent hent e applied current hev
    rcases List.mem_append.1 (hlog ▸ hent) with hent | hent
    · exact inv.writes ent hent e applied current hev
    · rw [(mem_newEntries hent).2.2] at hev
      cases hev

/-- The reaper spares the row of an attempt that is still in time. -/
theorem Held.spared (inv : s.Held) {readBackDelayMs began : Nat} {seen : List Uuid} {db : Db}
    (h : s.db.Stepped advisoryLockKey (.reapStale cfg.reaperThresholdMs readBackDelayMs began seen) db)
    (timely : ({ s with db := db } : Deployment).Timely cfg) (hatt : att ∈ s.attempts) {r : Row}
    (hr : s.db.row? att.row = some r) : ¬ r.stale cfg.reaperThresholdMs began := by
  have hb : began ≤ s.db.now := by cases h; assumption
  have hnow : db.now = s.db.now := by cases h; rfl
  have young := timely att hatt
  refine (inv.holds att hatt).not_stale ?_ hr
  simp only [hnow] at young
  omega


/-- **Each live attempt holds its row**, as long as no live attempt is too old. -/
theorem Held.step (inv : s.Held) (followed : s.Followed cfg) (h : Stepped advisoryLockKey cfg s a s')
    (timely : s'.Timely cfg) : s'.Held := by
  have wf := followed.wf
  have held {att : Attempt} (hatt : att ∈ s.attempts) : ∃ r, s.db.row? att.row = some r :=
    (followed.follows att hatt).about.imp fun _ h => h.1
  have idle {db : Db} (hrows : ∀ att ∈ s.attempts, db.row? att.row = s.db.row? att.row) :
      ({ s with db := db } : Deployment).Held :=
    have hlog : s.log = s.log ++ [] := (List.append_nil _).symm
    inv.quiet (List.Sublist.refl _) hlog (by simp) hrows (by simp)
  -- The attempt that writes is over, and its write is about its own row.
  have written {before after : List Attempt} {att : Attempt} {e : Io} {applied : Bool} {db : Db}
      (split : s.attempts = before ++ att :: after)
      (hrows : ∀ att' ∈ before ++ after, att'.row ≠ att.row → db.row? att'.row = s.db.row? att'.row) :
      ({ s with
        db := db
        attempts := before ++ after
        log := s.log ++ [⟨att.row, att.claim, .wrote e applied (claimsOf s.log att.row)⟩] } : Deployment).Held := by
    have hn := inv.rows
    rw [split, List.map_append, List.map_cons, List.nodup_middle, List.nodup_cons, ← List.map_append] at hn
    refine inv.quiet ?_ rfl ?_ ?_ ?_
    · rw [split]
      exact (List.Sublist.append_left (List.sublist_cons_self _ _) _).map _
    · intro ent hent
      rw [List.mem_singleton.1 hent]
      rfl
    · intro att' hatt'
      exact hrows att' hatt' fun heq => hn.1 (heq ▸ List.mem_map_of_mem hatt')
    · intro ent hent e' applied' current hev
      rw [List.mem_singleton.1 hent] at hev ⊢
      cases hev
      exact (inv.holds att (split ▸ List.mem_append_right _ List.mem_cons_self)).current
  cases h with
  | database background _ h =>
    refine idle fun att hatt => ?_
    rcases h.background wf background (u := att.row) with h | ⟨hnone, -⟩
    · exact h
    · obtain ⟨r, hr⟩ := held hatt
      rw [hr] at hnone
      cases hnone
  | @committed sid c delivered =>
    have hfresh : (if delivered then (s.db.returned sid).map (s.newAttempt cfg c) else []).Sublist
        ((s.db.returned sid).map (s.newAttempt cfg c)) := by
      cases delivered
      · exact List.nil_sublist _
      · exact List.Sublist.refl _
    exact inv.committed wf hfresh rfl rfl rfl
  | replied _ split asks accepted =>
    refine inv.quiet ?_ rfl ?_ (fun _ _ => rfl) ?_
    · rw [split, List.map_append, List.map_append]
      exact List.Sublist.refl _
    · intro ent hent
      rw [List.mem_singleton.1 hent]
      rfl
    · intro ent hent e applied current hev
      rw [List.mem_singleton.1 hent] at hev
      cases hev
  | @wrote _ _ before after att e _ _ _ _ split asks statement h =>
    refine written split fun att' hatt' hne => ?_
    have hmine := (followed.follows att (split ▸ List.mem_append_right _ List.mem_cons_self)).write_row asks
      (Io.outcome_of_statement statement)
    obtain ⟨r, hr⟩ := held (split ▸ (by simp at hatt' ⊢; tauto) : att' ∈ s.attempts)
    rw [Db.row?_write statement h, hr, Option.map_some, if_neg]
    rw [hmine, Db.row?_id hr]
    exact fun heq => hne (Option.some.inj heq).symm
  | writeLost _ split => exact written split fun _ _ _ => rfl
  | died proc =>
    refine inv.quiet (List.filter_sublist.map _) rfl ?_ (fun _ _ => rfl) ?_
    · intro ent hent
      obtain ⟨att, -, rfl⟩ := List.mem_map.1 hent
      rfl
    · intro ent hent e applied current hev
      obtain ⟨att, -, rfl⟩ := List.mem_map.1 hent
      cases hev
  | @reaped _ began _ db h =>
    refine idle fun att hatt => ?_
    obtain ⟨r, hr⟩ := held hatt
    rw [Db.row?_reapStale h, hr, Option.map_some, if_neg]
    exact fun hst => inv.spared h timely hatt hr hst.2

theorem held_start (now : Nat) (partitions : List Nat) : (start now partitions).Held where
  rows := List.nodup_nil
  holds := by simp [start]
  writes := by simp [start]

/-! ## Transitions into `RUNNING` -/

end Deployment

def Db.running (db : Db) (u : Uuid) : Prop := (db.row? u).any fun r => r.status = .live .running

instance (db : Db) (u : Uuid) : Decidable (db.running u) := inferInstanceAs (Decidable (_ = true))

theorem Db.running_iff {db : Db} {u : Uuid} :
    db.running u ↔ ∃ r, db.row? u = some r ∧ r.status = .live .running := by
  simp [Db.running, Option.any_eq_true]

theorem Db.Stepped.running_before {db db' : Db} {a : DbAction} {u : Uuid}
    (h : db.Stepped advisoryLockKey a db') (wf : db.WellFormed) (other : ∀ sid, a ≠ .commitClaim sid)
    (hrun : db'.running u) : db.running u := by
  obtain ⟨r, hr, hst⟩ := Db.running_iff.1 hrun
  obtain ⟨hmem, rfl⟩ := lookup_some_mem hr
  rcases h.running_origin wf hmem hst with hold | ⟨c, _, ha, -⟩
  · exact Db.running_iff.2 ⟨r, wf.row?_of_mem hold, hst⟩
  · exact absurd ha (other c.sid)

namespace Deployment

theorem Stepped.claimsOf_eq (h : Stepped advisoryLockKey cfg s a s') (wf : s.db.WellFormed) (u : Uuid) :
    claimsOf s'.log u = claimsOf s.log u + if ¬ s.db.running u ∧ s'.db.running u then 1 else 0 := by
  have same {more : List Entry} (hlog : s'.log = s.log ++ more)
      (unclaimed : ∀ ent ∈ more, ent.event.isClaimed = false) (hrun : s'.db.running u → s.db.running u) :
      claimsOf s'.log u = claimsOf s.log u + if ¬ s.db.running u ∧ s'.db.running u then 1 else 0 := by
    rw [hlog, claimsOf_append, claimsOf_unclaimed unclaimed, if_neg fun h => h.1 (hrun h.2)]
  have one {ent : Entry} (hent : ent.event.isClaimed = false) : ∀ ent' ∈ [ent], ent'.event.isClaimed = false :=
    fun ent' h => by rwa [List.mem_singleton.1 h]
  cases h with
  | database background _ h =>
    refine same (List.append_nil _).symm (by simp) (h.running_before wf ?_)
    rintro sid rfl
    cases background
  | reaped h => exact same (List.append_nil _).symm (by simp) (h.running_before wf (by simp))
  | replied => exact same rfl (one rfl) id
  | @wrote _ _ _ _ _ e _ _ _ _ _ _ statement h =>
    refine same rfl (one rfl) (h.running_before wf ?_)
    rintro sid rfl
    cases e <;> cases statement
  | writeLost => exact same rfl (one rfl) id
  | died =>
    refine same rfl (fun ent hent => ?_) id
    obtain ⟨att, -, rfl⟩ := List.mem_map.1 hent
    rfl
  | @committed sid c _ hc =>
    rw [claimsOf_append, claimsOf_newEntries wf]
    congr 1
    refine if_congr ?_ rfl rfl
    rw [Db.running_iff, Db.running_iff, Db.row?_claimLocked]
    constructor
    · intro h
      obtain ⟨⟨r, p⟩, hr, rfl⟩ := List.mem_map.1 h
      obtain ⟨hrow, hst, hidle⟩ := Db.returned_lockable wf hr
      obtain ⟨l, hl, hl', -⟩ := Db.mem_returned.1 hr
      refine ⟨?_, _, by rw [hrow, Option.map_some, if_pos ⟨l, hl, (Db.row?_id hl').symm⟩], rfl⟩
      rintro ⟨r', hr', hrun⟩
      rw [hrow] at hr'
      cases hr'
      rw [hst] at hrun
      exact hidle (OperationStatus.live.inj hrun)
    · rintro ⟨hbefore, r', hr', hrun⟩
      obtain ⟨r, hr, rfl⟩ := Option.map_eq_some_iff.1 hr'
      split at hrun
      · rename_i hl
        obtain ⟨l, hl, hid⟩ := hl
        have hrow : s.db.row? l.id = some r := by rw [hid, Db.row?_id hr, hr]
        exact List.mem_map.2 ⟨(r, l.prior), Db.mem_returned.2 ⟨l, hl, hrow, rfl⟩, Db.row?_id hr⟩
      · exact absurd ⟨r, hr, hrun⟩ hbefore

/-- **One attempt at a time.** Each transition of a row into `RUNNING` is returned once, to the
process whose attempt then holds the row. No two live attempts are of one operation, and every
write was sent in the claim that started its attempt. -/
theorem one_attempt_at_a_time {now : Nat} {partitions : List Nat}
    (run : Runs (step advisoryLockKey cfg) (staysTimely cfg) (start now partitions) s) :
    (∀ a s', s.step advisoryLockKey cfg a = some s' → ∀ u,
      claimsOf s'.log u = claimsOf s.log u + if ¬ s.db.running u ∧ s'.db.running u then 1 else 0) ∧
    (s.attempts.map Attempt.row).Nodup ∧
    (∀ att ∈ s.attempts, s.db.running att.row ∧ claimsOf s.log att.row = att.claim ∧
      ⟨att.row, att.claim, .claimed att.proc⟩ ∈ s.log) ∧
    ∀ ent ∈ s.log, ∀ e applied current, ent.event = .wrote e applied current → current = ent.claim := by
  have inv : s.Followed cfg ∧ s.Held :=
    run.invariant (fun s => s.Followed cfg ∧ s.Held) ⟨followed_start now partitions, held_start now partitions⟩
      fun _ _ _ inv h timely => ⟨inv.1.step (stepped h), inv.2.step inv.1 (stepped h) timely⟩
  refine ⟨fun a s' h => (stepped h).claimsOf_eq inv.1.wf, inv.2.rows, fun att hatt => ?_, inv.2.writes⟩
  have holds := inv.2.holds att hatt
  obtain ⟨r, p, hr, -⟩ := holds.row
  exact ⟨Db.running_iff.2 ⟨_, hr, rfl⟩, holds.current, holds.returned⟩

/-! Two replicas take turns on one operation. -/

def submitted (sid : Nat) (op : EnqueueInput) (u : Uuid) : List Action :=
  [.beginEnqueue sid op, .lockKey sid, .lookupKey sid, .insertOperation sid u, .commitEnqueue sid true].map .database

def claimedBy (proc sid : Nat) (u : Uuid) : List Action :=
  [.database (.beginClaim sid proc ⟨100, [], [("i", ⟨10, 10⟩)]⟩ fun _ => 0), .database (.lockRow sid u false),
    .commitClaim sid true]

def replied (i : Nat) (replies : List Reply) : List Action := replies.map (.reply i)

def request (opType : OperationType) : EnqueueInput where
  instanceId := "i"
  objectClass := "User"
  opType := opType
  laneKey := "ada"
  idempotencyKey := "k"
  priority := none
  uid := if opType = .create then none else some "42"
  nameAttrValue := if opType = .create then some "ada" else none
  attrs := some (.obj [("groups", .arr [.str "admins"])])

def someRuntime : ResolvedInstanceConfig := ⟨⟨30000, 30000, 30000, 30000⟩⟩

/-- The first attempt is told to retry, the second dies, and its row is reaped. -/
def takenTurns : List Action :=
  submitted 1 (request .update) 7 ++ claimedBy 1 1 7 ++
    replied 0 [.lease (.ok ()), .config (.ok (some someRuntime)), .time 0, .done,
      .settled (.error (.connector .connectionFailed true "reset")), .time 0, .done] ++
    [.write 0 (some 0)] ++ claimedBy 2 2 7 ++
    [.die 2, .database (.tick 600001), .reap 2000 600001 [7]] ++ claimedBy 1 3 7

theorem one_attempt_at_a_time_taken_turns :
    ∃ s, exec (step (fun _ => 0) .DEFAULTS) (staysTimely .DEFAULTS) (start 0 [0]) takenTurns = some s ∧
      s.attempts.map Attempt.key = [(7, 3)] ∧ (s.attempts.map Attempt.row).Nodup ∧
      ∀ ent ∈ s.log, ∀ e applied current, ent.event = .wrote e applied current → current = ent.claim := by
  have h : (exec (step (fun _ => 0) .DEFAULTS) (staysTimely .DEFAULTS) (start 0 [0]) takenTurns).map
      (fun s => s.attempts.map Attempt.key) = some [(7, 3)] := by
    decide
  obtain ⟨s, hs, hkeys⟩ := Option.map_eq_some_iff.1 h
  have result := one_attempt_at_a_time (runs_of_exec hs)
  exact ⟨s, hs, hkeys, result.2.1, result.2.2.2⟩

end Deployment

end Provisioning
