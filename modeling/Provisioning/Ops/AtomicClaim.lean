import Provisioning.Ops.Claims

/-!
# The claim as one action

With no other claim in flight, a statement that takes its snapshot, locks the picked rows and
commits at once leaves the tables that `claimBatch` says, and returns what it says.
-/

namespace Provisioning

open Lib

variable {advisoryLockKey : String → BitVec 64} {db : Db} {sid caller : Nat} {args : ClaimArgs} {tie : Uuid → Nat}

theorem Row.claimable.lockable {now : Nat} {r : Row} (h : r.claimable now) : ∃ p, r.lockable = some p := by
  rcases h with hst | ⟨hst, -⟩
  · exact ⟨.pending, Row.lockable_eq_some.2 ⟨hst, by simp⟩⟩
  · exact ⟨.awaitingReadback, Row.lockable_eq_some.2 ⟨hst, by simp⟩⟩

def Row.lock (sid : Nat) (r : Row) : Option RowLock := r.lockable.map fun p => ⟨r.id, sid, p⟩

namespace Db

/-- The claim `c` is the only one in flight. It has the locks `locks`, and has still to come to the
rows `todo`. -/
def claiming (c : ClaimStatement) (locks : List RowLock) (todo : List Row) (db : Db) : Db :=
  { db with claims := [{ c with todo := todo.map Row.id }], locks := locks }

theorem claim?_claiming {c : ClaimStatement} {locks : List RowLock} {todo : List Row} :
    (db.claiming c locks todo).claim? c.sid = some { c with todo := todo.map Row.id } := by
  simp [claim?, claiming, lookup]

theorem lockRow_claiming {c : ClaimStatement} {locks : List RowLock} {r : Row} {p : OperationPendingStatus}
    {rest : List Row} (row : db.row? r.id = some r) (lockable : r.lockable = some p)
    (fresh : r.id ∉ locks.map RowLock.id) (other : r.id ∉ rest.map Row.id) :
    (db.claiming c locks (r :: rest)).lockRow c.sid r.id false =
      some (db.claiming c (locks ++ [⟨r.id, c.sid, p⟩]) rest) := by
  have hfree : ¬ ∃ l ∈ (db.claiming c locks (r :: rest)).locks, l.id = r.id := by
    rintro ⟨l, hl, hid⟩
    exact fresh (hid ▸ List.mem_map_of_mem hl)
  have hrow : (db.claiming c locks (r :: rest)).row? r.id = some r := row
  have hrest : (rest.map Row.id).filter (· ≠ r.id) = rest.map Row.id := by
    refine List.filter_eq_self.2 fun u hu => ?_
    exact decide_eq_true fun heq => other (heq ▸ hu)
  unfold lockRow
  rw [claim?_claiming, hrow]
  simp only [List.map_cons, List.mem_cons_self, not_true_eq_false, if_false, Bool.false_eq_true, false_or,
    Option.bind_some, lockable]
  rw [if_neg hfree]
  simp only [claiming, visit, updateWhere, List.map_cons, List.map_nil, if_true]
  rw [List.filter_cons_of_neg (by simp), hrest]

theorem locks_claiming {c : ClaimStatement} (locks : List RowLock) {rows : List Row}
    (row : ∀ r ∈ rows, db.row? r.id = some r) (lockable : ∀ r ∈ rows, ∃ p, r.lockable = some p)
    (nodup : (locks.map RowLock.id ++ rows.map Row.id).Nodup) :
    Runs (Db.step advisoryLockKey) anyStep (db.claiming c locks rows)
      (db.claiming c (locks ++ rows.filterMap (Row.lock c.sid)) []) := by
  induction rows generalizing locks with
  | nil =>
    rw [List.filterMap_nil, List.append_nil]
    exact .start
  | cons r rest ih =>
    obtain ⟨p, hp⟩ := lockable r List.mem_cons_self
    rw [List.map_cons, List.nodup_middle, List.nodup_cons, List.mem_append, not_or] at nodup
    have hstep : (db.claiming c locks (r :: rest)).step advisoryLockKey (.lockRow c.sid r.id false) =
        some (db.claiming c (locks ++ [⟨r.id, c.sid, p⟩]) rest) :=
      lockRow_claiming (row r List.mem_cons_self) hp nodup.1.1 nodup.1.2
    have hlock : Row.lock c.sid r = some ⟨r.id, c.sid, p⟩ := by
      unfold Row.lock
      rw [hp, Option.map_some]
    have hrest := ih (locks ++ [⟨r.id, c.sid, p⟩]) (fun x hx => row x (List.mem_cons_of_mem _ hx))
      (fun x hx => lockable x (List.mem_cons_of_mem _ hx)) (by
        rw [List.map_append, List.map_singleton, List.append_assoc, List.singleton_append, List.nodup_middle,
          List.nodup_cons, List.mem_append, not_or]
        exact nodup)
    rw [List.filterMap_cons_some hlock]
    rw [List.append_assoc, List.singleton_append] at hrest
    exact (Runs.start.next hstep trivial).trans hrest

theorem WellFormed.unlocked (wf : db.WellFormed) (unclaimed : db.claims = []) : db.locks = [] := by
  refine List.eq_nil_iff_forall_not_mem.2 fun l hl => ?_
  obtain ⟨c, hc, -⟩ := wf.locks.owner l hl
  simp [unclaimed] at hc

/-- What the commit finds: the claim has locked the rows that it picked. -/
def allLocked (db : Db) (sid caller : Nat) (args : ClaimArgs) (tie : Uuid → Nat) : Db :=
  let snapshot : Snapshot := ⟨db.tables.operations, db.now, tie⟩
  db.claiming ⟨sid, caller, args, snapshot, []⟩ ((snapshot.picked args).filterMap (Row.lock sid)) []

theorem runs_allLocked (wf : db.WellFormed) (unclaimed : db.claims = []) (hcaps : args.caps ≠ [])
    (hlimit : 0 < args.limit) :
    Runs (Db.step advisoryLockKey) anyStep db (db.allLocked sid caller args tie) := by
  have hlocks := wf.unlocked unclaimed
  have hbegin : db.step advisoryLockKey (.beginClaim sid caller args tie) =
      some (db.claiming ⟨sid, caller, args, ⟨db.tables.operations, db.now, tie⟩, []⟩ []
        ((Snapshot.mk db.tables.operations db.now tie).picked args)) := by
    simp [Db.step, beginClaim, claim?, lookup, claiming, unclaimed, hlocks, hcaps, not_le.2 hlimit]
  have hpicked {r : Row} (hr : r ∈ (Snapshot.mk db.tables.operations db.now tie).picked args) :=
    Snapshot.leads_of_picked hr
  refine (Runs.start.next hbegin trivial).trans ?_
  refine locks_claiming _ (fun r hr => wf.row?_of_mem (hpicked hr).1) (fun r hr => (hpicked hr).2.claimable.lockable) ?_
  exact Snapshot.nodup_picked wf.ids.nodup

theorem locksOf_allLocked : (db.allLocked sid caller args tie).locksOf sid =
    ((Snapshot.mk db.tables.operations db.now tie).picked args).filterMap (Row.lock sid) := by
  refine List.filter_eq_self.2 fun l hl => ?_
  obtain ⟨r, -, hr⟩ := List.mem_filterMap.1 hl
  obtain ⟨p, -, rfl⟩ := Option.map_eq_some_iff.1 hr
  exact decide_eq_true rfl

theorem returned_allLocked (wf : db.WellFormed) (hcaps : args.caps ≠ []) (hlimit : 0 < args.limit) :
    ((db.allLocked sid caller args tie).returned sid).map (fun r => r.1.toClaimed r.2) =
      (OperationStore.claimBatch args db.now tie db.tables).1 := by
  unfold returned OperationStore.claimBatch
  rw [locksOf_allLocked, if_neg (not_or.2 ⟨hcaps, not_le.2 hlimit⟩), List.filterMap_filterMap, List.map_filterMap]
  refine List.filterMap_congr fun r hr => ?_
  have hrow : (db.allLocked sid caller args tie).row? r.id = some r :=
    wf.row?_of_mem (Snapshot.leads_of_picked hr).1
  obtain ⟨p, hp⟩ := (Snapshot.leads_of_picked hr).2.claimable.lockable
  simp [Row.lock, hp, hrow]

theorem commitClaim_allLocked (wf : db.WellFormed) (unclaimed : db.claims = []) (hcaps : args.caps ≠ [])
    (hlimit : 0 < args.limit) : (db.allLocked sid caller args tie).commitClaim sid =
      some { db with tables := (OperationStore.claimBatch args db.now tie db.tables).2 } := by
  have hclaim : (db.allLocked sid caller args tie).claim? sid =
      some ⟨sid, caller, args, ⟨db.tables.operations, db.now, tie⟩, []⟩ := by
    simp [claim?, allLocked, claiming, lookup]
  have hwhere : ∀ r ∈ db.tables.operations, (∃ l ∈ (db.allLocked sid caller args tie).locksOf sid, l.id = r.id) ↔
      ∃ p ∈ (Snapshot.mk db.tables.operations db.now tie).picked args, p.id = r.id ∧ p.createdAt = r.createdAt := by
    intro r hr
    rw [locksOf_allLocked]
    constructor
    · rintro ⟨l, hl, hid⟩
      obtain ⟨r', hr', hlock⟩ := List.mem_filterMap.1 hl
      obtain ⟨p, -, rfl⟩ := Option.map_eq_some_iff.1 hlock
      obtain rfl := eq_of_key_eq wf.ids.nodup (Snapshot.leads_of_picked hr').1 hr hid
      exact ⟨r', hr', rfl, rfl⟩
    · rintro ⟨r', hr', hid, -⟩
      obtain ⟨p, hp⟩ := (Snapshot.leads_of_picked hr').2.claimable.lockable
      exact ⟨⟨r'.id, sid, p⟩, List.mem_filterMap.2 ⟨r', hr', by simp [Row.lock, hp]⟩, hid⟩
  have hnone : (db.allLocked sid caller args tie).locks.filter (fun l => l.sid ≠ sid) = [] := by
    refine List.filter_eq_nil_iff.2 fun l hl => ?_
    have hown : l ∈ (db.allLocked sid caller args tie).locksOf sid := by
      rw [locksOf_allLocked]
      exact hl
    simpa [locksOf] using (List.mem_filter.1 hown).2
  unfold commitClaim
  rw [hclaim]
  have hrows : updateWhere (fun r => ∃ l ∈ (db.allLocked sid caller args tie).locksOf sid, l.id = r.id)
      (Row.claimed db.now) db.tables.operations =
        (OperationStore.claimBatch args db.now tie db.tables).2.operations := by
    unfold OperationStore.claimBatch
    rw [if_neg (not_or.2 ⟨hcaps, not_le.2 hlimit⟩)]
    refine List.map_congr_left fun r hr => ?_
    simp only [hwhere r hr]
  simp only [if_true, endClaim, hnone, claimLocked]
  unfold OperationStore.claimBatch at hrows ⊢
  rw [if_neg (not_or.2 ⟨hcaps, not_le.2 hlimit⟩)] at hrows ⊢
  simp only [allLocked, claiming, unclaimed, wf.unlocked unclaimed] at hrows ⊢
  rw [hrows]
  simp

/-- **The claim as one action.** -/
theorem claimBatch_runs (wf : db.WellFormed) (unclaimed : db.claims = []) :
    Runs (Db.step advisoryLockKey) anyStep db
      { db with tables := (OperationStore.claimBatch args db.now tie db.tables).2 } := by
  by_cases hidle : args.caps = [] ∨ args.limit ≤ 0
  · unfold OperationStore.claimBatch
    rw [if_pos hidle]
    exact .start
  · obtain ⟨hcaps, hlimit⟩ := not_or.1 hidle
    have hcommit : (db.allLocked 0 0 args tie).step advisoryLockKey (.commitClaim 0) =
        some { db with tables := (OperationStore.claimBatch args db.now tie db.tables).2 } := by
      change (db.allLocked 0 0 args tie).commitClaim 0 = _
      exact commitClaim_allLocked wf unclaimed hcaps (not_le.1 hlimit)
    exact (runs_allLocked wf unclaimed hcaps (not_le.1 hlimit)).next hcommit trivial

end Db

end Provisioning
