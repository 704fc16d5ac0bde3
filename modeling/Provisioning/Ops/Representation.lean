import Provisioning.Ops.Answerable
import Provisioning.Ops.Holding

/-!
# No row is stranded

Each of the six statements rewrites its own columns. In every state of every run the columns of
a row fit its status, so that each open row is found by the claim or by the reaper.
-/

namespace Provisioning

open Lib

variable {advisoryLockKey : String → BitVec 64}

/-! ## The columns of a row -/

/-- What `claimed_at`, `not_before` and `finalized_at` are in each status. -/
structure Row.Formed (r : Row) : Prop where
  pending : r.status = .live .pending → r.claimedAt = none ∧ r.notBefore = none
  running : r.status = .live .running → r.claimedAt ≠ none ∧ r.notBefore = none
  awaiting : r.status = .live .awaitingReadback → r.claimedAt = none ∧ r.notBefore ≠ none
  finalized : r.status.terminal ↔ r.finalizedAt ≠ none

namespace Row.Formed

variable {r r' : Row}

theorem newRow (op : EnqueueInput) (id : Uuid) (now : Nat) : (op.newRow id now).Formed := by
  constructor <;> simp [EnqueueInput.newRow]

theorem finalizedAt_live (h : r.Formed) {p : OperationPendingStatus} (hst : r.status = .live p) :
    r.finalizedAt = none := by
  have := h.finalized
  rw [hst] at this
  simpa using this

/-- Each statement keeps it, from every status that the statement admits. -/
theorem change (h : r.Formed) (hc : r.Change r') : r'.Formed := by
  cases hc with
  | same => exact h
  | claimed now status idle =>
    have := h.finalizedAt_live status
    constructor <;> simp [Row.claimed, this]
  | finalized outcome result errorCode now hopen => constructor <;> simp [Row.finalized]
  | requeued status =>
    have := h.finalizedAt_live status
    have := (h.running status).2
    constructor <;> simp [Row.requeued, *]
  | deferred notBefore status =>
    have := h.finalizedAt_live status
    constructor <;> simp [Row.deferred, this]
  | reaped status =>
    have := h.finalizedAt_live status
    constructor <;> simp [Row.reaped, this]

/-- An open row satisfies the predicate of the claim, or does from its `not_before` on, or
satisfies the predicate of the reaper once it is old enough. -/
theorem found (h : r.Formed) (hopen : ¬ r.status.terminal) (thresholdMs : Nat) :
    (∀ t, r.claimable t) ∨ (∃ n, r.notBefore = some n ∧ ∀ t, r.claimable t ↔ n ≤ t) ∨
      ∃ c, r.claimedAt = some c ∧ ∀ t, r.stale thresholdMs t ↔ c + thresholdMs < t := by
  obtain ⟨p, hp⟩ := (OperationStatus.not_terminal_iff _).1 hopen
  unfold Row.claimable Row.stale Row.isDue
  cases p with
  | pending => exact .inl fun t => .inl hp
  | running =>
    obtain ⟨c, hc⟩ := Option.ne_none_iff_exists'.1 (h.running hp).1
    right; right
    exact ⟨c, hc, fun t => by simp [hp, hc]⟩
  | awaitingReadback =>
    obtain ⟨n, hn⟩ := Option.ne_none_iff_exists'.1 (h.awaiting hp).2
    right; left
    exact ⟨n, hn, fun t => by simp [hp, hn]⟩

end Row.Formed

/-! ## The tables -/

namespace Db

variable {db db' : Db} {a : DbAction}

structure Represented (db : Db) : Prop where
  formed : ∀ r ∈ db.tables.operations, r.Formed
  historyIds : (db.tables.history.map HistoryRow.id).Nodup

theorem nodup_insertHistory {t : Tables} (hn : (t.history.map HistoryRow.id).Nodup) (x : HistoryRow) :
    ((t.insertHistory x).map HistoryRow.id).Nodup := by
  unfold Tables.insertHistory
  split
  · exact hn
  · rename_i hnew
    apply nodup_append_singleton hn
    simpa using hnew

theorem Represented.step (inv : db.Represented) (wf : db.WellFormed) (h : db.Stepped advisoryLockKey a db') :
    db'.Represented := by
  constructor
  · intro r' hr'
    rcases (h.rows wf).origin hr' with ⟨r, hr, hc⟩ | ⟨e, he, hp⟩
    · exact (inv.formed r hr).change hc
    · rw [(wf.ids.uncommitted e he r' hp).2.2]
      exact .newRow _ _ _
  · rcases h.history with hh | ⟨_, _, _, _, _, _, _, _, _, _, _, _, hh⟩
    · rw [hh]
      exact inv.historyIds
    · rw [hh]
      exact nodup_insertHistory inv.historyIds _

/-- A row is terminal exactly when it has its one history row. -/
theorem Represented.terminal_iff (inv : db.Represented) (answerable : db.Answerable) {r : Row}
    (hr : r ∈ db.tables.operations) :
    r.status.terminal ↔ db.tables.history.countP (fun x => x.id = r.id) = 1 := by
  have hcount : db.tables.history.countP (fun x => x.id = r.id) = (db.history? r.id).toList.length := by
    rw [List.countP_eq_length_filter, filter_key inv.historyIds]
    rfl
  rw [hcount]
  constructor
  · intro ht
    obtain ⟨x, hx⟩ := Option.isSome_iff_exists.1 (answerable.terminal r hr ht)
    rw [hx]
    rfl
  · intro hone
    cases hx : db.history? r.id with
    | none => simp [hx] at hone
    | some x =>
      rw [← answerable.agrees r hr x hx]
      exact (answerable.final x (history?_eq_some_mem hx).1).1

end Db

/-! ## Runs -/

namespace Deployment

variable {cfg : ResolvedDispatcherConfig} {s s' : Deployment} {a : Action}

/-- Only a create waits for a read-back. -/
def AwaitsCreate (s : Deployment) : Prop :=
  ∀ u r, s.db.row? u = some r → r.status = .live .awaitingReadback → r.opType = .create

theorem AwaitsCreate.step (inv : s.AwaitsCreate) (followed : s.Followed cfg)
    (h : Stepped advisoryLockKey cfg s a s') : s'.AwaitsCreate := by
  intro u r' hr' hst
  obtain ⟨r, hr, same, hcause⟩ := h.awaiting_origin followed.wf hr' hst
  rw [same.opType]
  rcases hcause with hwas | ⟨_, _, _, -, -, -, hop⟩ | ⟨att, hatt, id, notBefore, k, asks, hid⟩
  · exact inv u r hr hwas
  · exact hop
  · obtain ⟨-, hop, hruled⟩ := followed.deferral hatt asks hid (Db.row?_id hr ▸ hr)
    rw [← hop.opType]
    exact hruled.1

structure Unstranded (cfg : ResolvedDispatcherConfig) (s : Deployment) : Prop where
  followed : s.Followed cfg
  answerable : s.db.Answerable
  represented : s.db.Represented
  awaitsCreate : s.AwaitsCreate

theorem Unstranded.step (inv : s.Unstranded cfg) (h : Stepped advisoryLockKey cfg s a s') : s'.Unstranded cfg where
  followed := inv.followed.step h
  answerable := by
    rcases h.database_step with hdb | ⟨b, hdb⟩
    · exact hdb ▸ inv.answerable
    · exact inv.answerable.step inv.followed.wf hdb
  represented := by
    rcases h.database_step with hdb | ⟨b, hdb⟩
    · exact hdb ▸ inv.represented
    · exact inv.represented.step inv.followed.wf hdb
  awaitsCreate := inv.awaitsCreate.step inv.followed h

theorem unstranded_start (now : Nat) (partitions : List Nat) : (start now partitions).Unstranded cfg where
  followed := followed_start now partitions
  answerable := Db.answerable_start now partitions
  represented := by constructor <;> simp [start, Db.start]
  awaitsCreate := by intro u r hr; simp [start, Db.start, Db.row?, Tables.row?, lookup] at hr

/-- **No row is ever stranded**, whatever the dispatchers do. -/
theorem no_row_stranded {now : Nat} {partitions : List Nat}
    (run : Runs (step advisoryLockKey cfg) anyStep (start now partitions) s) {r : Row}
    (hr : r ∈ s.db.tables.operations) :
    (r.status = .live .pending → r.claimedAt = none ∧ r.notBefore = none) ∧
    (r.status = .live .running → r.claimedAt ≠ none ∧ r.notBefore = none) ∧
    (r.status = .live .awaitingReadback → r.opType = .create ∧ r.claimedAt = none ∧ r.notBefore ≠ none) ∧
    (r.status.terminal ↔ r.finalizedAt ≠ none) ∧
    (r.status.terminal ↔ s.db.tables.history.countP (fun x => x.id = r.id) = 1) ∧
    (¬ r.status.terminal →
      r.claimable s.db.now ∨ (∃ n, r.notBefore = some n ∧ ∀ t, r.claimable t ↔ n ≤ t) ∨
        ∃ c, r.claimedAt = some c ∧
          ∀ t, r.stale cfg.reaperThresholdMs t ↔ c + cfg.reaperThresholdMs < t) := by
  have inv : s.Unstranded cfg :=
    run.invariant _ (unstranded_start now partitions) fun _ _ _ inv h _ => inv.step (stepped h)
  have formed := inv.represented.formed r hr
  refine ⟨formed.pending, formed.running, fun hst => ⟨?_, formed.awaiting hst⟩, formed.finalized,
    inv.represented.terminal_iff inv.answerable hr, fun hopen => ?_⟩
  · exact inv.awaitsCreate r.id r (inv.followed.wf.row?_of_mem hr) hst
  · rcases formed.found hopen cfg.reaperThresholdMs with hnow | hlater
    · exact .inl (hnow s.db.now)
    · exact .inr hlater

/-- A create whose deadline expires. -/
def expiredCreate : List Action :=
  submitted 1 (request .create) 7 ++ claimedBy 1 1 7 ++
    replied 0 [.lease (.ok ()), .config (.ok (some someRuntime)), .time 0, .done,
      .settled (.error (.deadlineExpired "late")), .capabilities ⟨true, true, true⟩, .time 5] ++
    [.write 0 (some 0)]

theorem no_row_stranded_expired :
    ∃ s r, exec (step (fun _ => 0) .DEFAULTS) anyStep (start 0 [0]) expiredCreate = some s ∧
      s.db.row? 7 = some r ∧ r.status = .live .awaitingReadback ∧ ¬ r.claimable s.db.now ∧
      ∃ n, r.notBefore = some n ∧ ∀ t, r.claimable t ↔ n ≤ t := by
  have h : (exec (step (fun _ => 0) .DEFAULTS) anyStep (start 0 [0]) expiredCreate).bind
      (fun s => (s.db.row? 7).map fun r => (r.status, decide (r.claimable s.db.now))) =
      some (.live .awaitingReadback, false) := by
    decide
  obtain ⟨s, hs, h⟩ := Option.bind_eq_some_iff.1 h
  obtain ⟨r, hr, h⟩ := Option.map_eq_some_iff.1 h
  simp only [Prod.mk.injEq, decide_eq_false_iff_not] at h
  obtain ⟨hst, hnot⟩ := h
  have result := no_row_stranded (runs_of_exec hs) (lookup_some_mem hr).1
  refine ⟨s, r, hs, hr, hst, hnot, ?_⟩
  rcases result.2.2.2.2.2 (by simp [hst]) with h | h | ⟨c, hc, -⟩
  · exact absurd h hnot
  · exact h
  · rw [(result.2.2.1 hst).2.1] at hc
    cases hc

end Deployment

end Provisioning
