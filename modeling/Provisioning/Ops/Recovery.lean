import Provisioning.Ops.Representation

/-!
# Nothing accepted is out of reach

Whatever happened to the processes, the store alone is enough to finish every operation: a fresh process
reaps what nobody holds, waits until every read-back is due, and claims one operation at a time.
-/

namespace Provisioning

open Lib

/-! ## A claim of one row -/

/-- A claim of at most one row of one instance. -/
def ClaimArgs.one (instanceId : String) : ClaimArgs := ⟨1, [], [(instanceId, ⟨1, 1⟩)]⟩

theorem ClaimArgs.cap?_one (instanceId : String) :
    (ClaimArgs.one instanceId).cap? instanceId = some ⟨instanceId, 1, 1⟩ := by
  simp [one, cap?, caps]

namespace Snapshot

variable {s : Snapshot} {args : ClaimArgs} {r : Row}

/-- **A claim with room is not empty** when a row of an instance with room for both classes is a candidate. -/
theorem picked_ne_nil (hr : r ∈ s.candidates args) {c : Cap} (hc : args.cap? r.instanceId = some c)
    (total : 1 ≤ c.cap) (batch : 1 ≤ c.batchCap) (limit : 1 ≤ args.limit) : s.picked args ≠ [] := by
  have first {l : List Row} (hl : l ≠ []) := exists_first s.before (fun _ _ _ => before_trans) before_irrefl hl
  -- The first candidate of the instance leads its lane, and is the first of its instance and of its class.
  obtain ⟨m, hm, hfirst⟩ := first (l := (s.candidates args).filter fun x => x.instanceId = r.instanceId)
    (List.ne_nil_of_mem (List.mem_filter.2 ⟨hr, by simp⟩))
  obtain ⟨hcand, hsame⟩ := List.mem_filter.1 hm
  have hsame : m.instanceId = r.instanceId := of_decide_eq_true hsame
  have earliest : ∀ x ∈ s.candidates args, x.instanceId = m.instanceId → ¬ s.before x m := by
    intro x hx hinst
    apply hfirst x
    simp [hx, hinst, hsame]
  have hleader : m ∈ s.laneLeaders args := by
    refine List.mem_filter.2 ⟨hcand, ?_⟩
    simp only [laneRn, decide_eq_true_eq, rank_one_iff]
    exact fun x hx h => earliest x hx h.1.1 h.2
  have leading : ∀ x ∈ s.laneLeaders args, x.instanceId = m.instanceId → ¬ s.before x m :=
    fun x hx => earliest x (List.mem_filter.1 hx).1
  have hrn : s.rn args m = 1 := by
    simp only [rn, rank_one_iff]
    exact fun x hx h => leading x hx h.1 h.2
  have hclass : s.classRn args m = 1 := by
    simp only [classRn, rank_one_iff]
    exact fun x hx h => leading x hx h.1.1 h.2
  have hcapped : m ∈ s.capped args := by
    refine List.mem_filter.2 ⟨hleader, ?_⟩
    simp only [withinCaps, hsame, hc, Option.any_some, hrn, hclass, decide_eq_true_eq]
    omega
  obtain ⟨p, hp, hpfirst⟩ := first (List.ne_nil_of_mem hcapped)
  apply List.ne_nil_of_mem (a := p)
  refine List.mem_filter.2 ⟨hp, ?_⟩
  simp only [decide_eq_true_eq, rank_one_iff.2 hpfirst]
  omega

theorem picked_one (nodup : (s.rows.map Row.id).Nodup) (hr : r ∈ s.rows) (claimable : r.claimable s.now)
    (free : ¬ s.blocked r) : ∃ p ∈ s.rows, p.claimable s.now ∧ s.picked (.one r.instanceId) = [p] := by
  have hcap := ClaimArgs.cap?_one r.instanceId
  have hcand : r ∈ s.candidates (.one r.instanceId) := by
    refine mem_candidates.2 ⟨hr, claimable, ?_, ?_, free⟩
    · rw [hcap]
      rfl
    · simp [ClaimArgs.one]
  have hne := picked_ne_nil hcand hcap (le_refl 1) (le_refl 1) (le_refl 1)
  have hlen : (s.picked (.one r.instanceId)).length ≤ 1 := by
    have hids : ((s.picked (.one r.instanceId)).map Row.id).Nodup := nodup_picked nodup
    have hsub : (s.capped (.one r.instanceId)).Sublist s.rows :=
      (List.filter_sublist.trans List.filter_sublist).trans List.filter_sublist
    have htrans : ∀ a b c, s.before a b → s.before b c → s.before a c := fun _ _ _ => before_trans
    refine length_le_of_rank_le (l := s.capped (.one r.instanceId)) htrans before_irrefl (hids.of_map _)
      List.filter_sublist.subset ?_ ?_
    · intro a ha b hb hab
      have hmem (x : Row) (hx : x ∈ s.picked (.one r.instanceId)) : x ∈ s.rows :=
        hsub.subset (List.filter_sublist.subset hx)
      exact before_total fun heq => hab (eq_of_key_eq nodup (hmem a ha) (hmem b hb) heq)
    · intro a ha
      have hrank : (rank s.before (s.capped (.one r.instanceId)) a : Int) ≤ 1 :=
        of_decide_eq_true (List.mem_filter.1 ha).2
      omega
  obtain ⟨p, hp⟩ := List.exists_mem_of_ne_nil _ hne
  have hone : s.picked (.one r.instanceId) = [p] := by
    obtain ⟨q, hq⟩ := List.length_eq_one_iff.1 (Nat.le_antisymm hlen (List.length_pos_of_mem hp))
    rw [hq, List.mem_singleton] at hp
    rw [hq, hp]
  obtain ⟨hmem, hclaim, -⟩ := mem_candidates.1 (List.mem_filter.1 (fits_of_picked hp).mem).1
  exact ⟨p, hmem, hclaim, hone⟩

end Snapshot

/-! ## An attempt that is well served -/

def anyObject : ConnectorObject := ⟨"", "", none, []⟩

/-- The answers of a target that does all that it is asked for. -/
def serving : (e : Io) → e.Answer
  | .now => (0 : Nat)
  | .acquire _ => (.ok () : Except Failure Unit)
  | .configOf _ => (.ok (some ⟨⟨0, 0, 0, 0⟩⟩) : Except Failure (Option ResolvedInstanceConfig))
  | .capabilitiesOf _ => (⟨true, true, true⟩ : ConnectorCapabilities)
  | .schema => (.ok ⟨[]⟩ : Except Failure ConnectorSchema)
  | .search .. => (.ok [anyObject] : Except Failure (List ConnectorObject))
  | .settle _ => (.ok (some anyObject) : Except Failure (Option ConnectorObject))
  | .finalize .. | .requeue _ | .deferForReadback .. => (.ok true : Except Failure Bool)
  | .invoke _ | .release | .deferLane .. => ()

/-- What is left of the program when it comes to its write. -/
def toWrite {α : Type} : Prog Dispatch α → Prog Dispatch α
  | .pure a => .pure a
  | .await e k => if e.outcome = none then toWrite (k (serving e)) else .await e k

/-- The operation has what its call needs. -/
structure ClaimedOperation.Named (op : ClaimedOperation) : Prop where
  name : op.priorStatus = .awaitingReadback → op.nameAttrValue ≠ none
  uid : ¬ op.missesUid

variable {cfg : ResolvedDispatcherConfig}

/-- **A well-served attempt finalizes.** -/
theorem toWrite_execute (op : ClaimedOperation) : ∃ outcome result errorCode k,
    toWrite (Dispatcher.execute cfg op).run = .await (.finalize op.id outcome result errorCode) k ∧
      (op.Named → outcome = .succeeded) := by
  obtain ⟨id, inst, oc, opType, prio, lane, uid, name, attrs, n, created, key, prior⟩ := op
  by_cases hprior : prior = .awaitingReadback
  · subst hprior
    cases name with
    | none => exact ⟨_, _, _, _, rfl, fun h => absurd rfl (h.name rfl)⟩
    | some name => exact ⟨_, _, _, _, rfl, fun _ => rfl⟩
  · have hfresh : prior = .pending ∨ prior = .running := by cases prior <;> simp at hprior ⊢
    rcases hfresh with rfl | rfl
    all_goals
      cases opType with
      | create | update | delete => exact ⟨_, _, _, _, rfl, fun _ => rfl⟩
      | addValues | removeValues =>
        cases uid with
        | none => exact ⟨_, _, _, _, rfl, fun h => absurd ⟨rfl, .inl rfl⟩ h.uid⟩
        | some uid =>
          by_cases huid : uid = ""
          · subst huid
            exact ⟨_, _, _, _, rfl, fun h => absurd ⟨rfl, .inr rfl⟩ h.uid⟩
          · simp only [Dispatcher.execute, Dispatcher.attempt, Dispatcher.attemptDelta]
            exact ⟨_, _, _, _, rfl, fun _ => rfl⟩

theorem exists_reply {e : Io} (h : e.outcome = none) (a : e.Answer) : ∃ r : Reply, r.accept e = some a := by
  cases e with
  | now => exact ⟨.time a, rfl⟩
  | acquire => exact ⟨.lease a, rfl⟩
  | configOf => exact ⟨.config a, rfl⟩
  | capabilitiesOf => exact ⟨.capabilities a, rfl⟩
  | schema => exact ⟨.schema a, rfl⟩
  | search => exact ⟨.found a, rfl⟩
  | settle => exact ⟨.settled a, rfl⟩
  | invoke | release | deferLane => exact ⟨.done, rfl⟩
  | finalize | requeue | deferForReadback => cases h

/-! ## What becomes of a row -/

/-- The row has what the call of its operation needs. -/
structure Row.Named (r : Row) : Prop where
  name : r.opType = .create → r.nameAttrValue ≠ none
  uid : ¬ (r.opType.isDelta ∧ (r.uid = none ∨ r.uid = some ""))

theorem Row.Named.congr {r r' : Row} (h : r.Named) (same : r.SameOperation r') : r'.Named where
  name := by
    rw [same.opType, same.nameAttrValue]
    exact h.name
  uid := by
    rw [same.opType, same.uid]
    exact h.uid

/-- A final row stays as it is, and one that becomes final succeeds if it can. -/
structure Row.Served (r r' : Row) : Prop where
  same : r.SameOperation r'
  kept : r.status.terminal → r' = r
  done : ¬ r.status.terminal → r'.status.terminal → r.Named → r'.status = .final .succeeded

namespace Row.Served

variable {r r' r'' : Row}

theorem refl (r : Row) : r.Served r where
  same := (Row.Change.same r).sameOperation
  kept _ := rfl
  done hopen ht := absurd ht hopen

theorem trans (h : r.Served r') (h' : r'.Served r'') : r.Served r'' where
  same := h.same.trans h'.same
  kept ht := by
    obtain rfl := h.kept ht
    exact h'.kept ht
  done hopen ht hnamed := by
    by_cases ht' : r'.status.terminal
    · rw [h'.kept ht']
      exact h.done hopen ht' hnamed
    · exact h'.done ht' ht (hnamed.congr h.same)

theorem of_open (h : r.Change r') (hopen : ¬ r.status.terminal → ¬ r'.status.terminal) : r.Served r' where
  same := h.sameOperation
  kept := h.eq_of_terminal
  done ho ht := absurd ht (hopen ho)

end Row.Served

namespace Deployment

variable {advisoryLockKey : String → BitVec 64} {s s' : Deployment}

theorem runs_toWrite {att : Attempt} (hatt : s.attempts = [att]) :
    ∃ s', Runs (step advisoryLockKey cfg) anyStep s s' ∧ s'.db = s.db ∧
      s'.attempts = [{ att with prog := toWrite att.prog }] := by
  obtain ⟨proc, op, row, claim, claimedAt, prog⟩ := att
  induction prog generalizing s with
  | pure a => exact ⟨s, .start, rfl, hatt⟩
  | await e k ih =>
    unfold toWrite
    split
    · rename_i hquiet
      obtain ⟨r, hr⟩ := exists_reply hquiet (serving e)
      have taken : s.step advisoryLockKey cfg (.reply 0 r) = some
          { s with
            attempts := [⟨proc, op, row, claim, claimedAt, k (serving e)⟩]
            log := s.log ++ [⟨row, claim, .heard e (serving e)⟩] } := by
        simp only [step, reply, hatt, List.getElem?_cons_zero, hr]
        rfl
      obtain ⟨s', run, hdb, hatts⟩ := ih (serving e)
        (s := { s with
          attempts := [⟨proc, op, row, claim, claimedAt, k (serving e)⟩]
          log := s.log ++ [⟨row, claim, .heard e (serving e)⟩] }) rfl
      exact ⟨s', (Runs.start.next taken trivial).trans run, hdb, hatts⟩
    · exact ⟨s, .start, rfl, hatt⟩

/-! ## Every process is gone -/

theorem runs_die : ∃ s', Runs (step advisoryLockKey cfg) anyStep s s' ∧ s'.attempts = [] ∧ s'.db = s.db := by
  induction hn : s.attempts.length using Nat.strongRecOn generalizing s with
  | ind n ih =>
    cases hatts : s.attempts with
    | nil => exact ⟨s, .start, hatts, rfl⟩
    | cons att rest =>
      have hlt : (s.die att.proc).attempts.length < n := by
        rw [← hn, die, List.length_filter_lt_length_iff_exists]
        exact ⟨att, by simp [hatts], by simp⟩
      obtain ⟨s', run, hnone, hdb⟩ := ih _ hlt rfl
      exact ⟨s', (Runs.start.next (a := .die att.proc) rfl trivial).trans run, hnone, hdb⟩

/-- Postgres rolls back the claims whose connections are gone. -/
theorem runs_abort (hatts : s.attempts = []) : ∃ s', Runs (step advisoryLockKey cfg) anyStep s s' ∧
    s'.attempts = [] ∧ s'.db.claims = [] ∧ s'.db.tables = s.db.tables := by
  induction hn : s.db.claims.length using Nat.strongRecOn generalizing s with
  | ind n ih =>
    cases hclaims : s.db.claims with
    | nil => exact ⟨s, .start, hatts, hclaims, rfl⟩
    | cons c rest =>
      have taken : s.step advisoryLockKey cfg (.database (.abortClaim c.sid)) =
          some { s with db := s.db.endClaim c.sid } := by
        simp [step, DbAction.isBackground, DbAction.callerIn, Db.step, Db.abortClaim, Db.claim?, lookup, hclaims]
      have hlt : (s.db.endClaim c.sid).claims.length < n := by
        rw [← hn, Db.endClaim, List.length_filter_lt_length_iff_exists]
        exact ⟨c, by simp [hclaims], by simp⟩
      obtain ⟨s', run, hnone, hclear, htables⟩ := ih _ hlt (s := { s with db := s.db.endClaim c.sid }) hatts rfl
      exact ⟨s', (Runs.start.next taken trivial).trans run, hnone, hclear, htables⟩

/-- Nobody holds a row. -/
structure Idle (cfg : ResolvedDispatcherConfig) (s : Deployment) : Prop where
  unstranded : s.Unstranded cfg
  attempts : s.attempts = []
  claims : s.db.claims = []

theorem Idle.locks (idle : s.Idle cfg) : s.db.locks = [] := by
  refine List.eq_nil_iff_forall_not_mem.2 fun l hl => ?_
  obtain ⟨c, hc, -⟩ := idle.unstranded.followed.wf.locks.owner l hl
  simp [idle.claims] at hc

theorem runs_idle (inv : s.Unstranded cfg) : ∃ s', Runs (step advisoryLockKey cfg) anyStep s s' ∧ s'.Idle cfg ∧
    s'.db.tables = s.db.tables := by
  obtain ⟨s₁, run₁, hatts, hdb⟩ := @runs_die cfg advisoryLockKey s
  obtain ⟨s₂, run₂, hnone, hclaims, htables⟩ := @runs_abort cfg advisoryLockKey s₁ hatts
  have run := run₁.trans run₂
  refine ⟨s₂, run, ⟨?_, hnone, hclaims⟩, hdb ▸ htables⟩
  exact run.invariant _ inv fun _ _ _ inv h _ => inv.step (stepped h)

/-! ## Every row is due -/

/-- Every open row can be claimed now. -/
structure Due (cfg : ResolvedDispatcherConfig) (s : Deployment) : Prop extends s.Idle cfg where
  due : ∀ r ∈ s.db.tables.operations, ¬ r.status.terminal → r.claimable s.db.now

def Serves (s s' : Deployment) : Prop :=
  ∀ u r, s.db.row? u = some r → ∃ r', s'.db.row? u = some r' ∧ r.Served r'

theorem Serves.trans {s'' : Deployment} (h : s.Serves s') (h' : s'.Serves s'') : s.Serves s'' := by
  intro u r hr
  obtain ⟨r', hr', hserved⟩ := h u r hr
  obtain ⟨r'', hr'', hserved'⟩ := h' u r' hr'
  exact ⟨r'', hr'', hserved.trans hserved'⟩

theorem serves_of_updateWhere {p : Row → Prop} [DecidablePred p] {f : Row → Row}
    (hops : s'.db.tables.operations = updateWhere p f s.db.tables.operations)
    (hf : ∀ r ∈ s.db.tables.operations, p r → r.Served (f r)) (hid : ∀ r, p r → (f r).id = r.id) : s.Serves s' := by
  intro u r hr
  refine ⟨_, by rw [Db.row?_of_updateWhere hops hid, hr, Option.map_some], ?_⟩
  split
  · exact hf r (lookup_some_mem hr).1 ‹_›
  · exact .refl r

theorem exists_bound {α : Type} (f : α → Nat) (l : List α) : ∃ n, ∀ a ∈ l, f a ≤ n := by
  induction l with
  | nil => exact ⟨0, by simp⟩
  | cons a rest ih =>
    obtain ⟨n, hn⟩ := ih
    refine ⟨max n (f a), fun b hb => ?_⟩
    rcases List.mem_cons.1 hb with rfl | hb
    · exact Nat.le_max_right _ _
    · exact (hn b hb).trans (Nat.le_max_left _ _)

/-- **One pass of the reaper**, late enough, makes every open row due. -/
theorem runs_due (idle : s.Idle cfg) :
    ∃ s', Runs (step advisoryLockKey cfg) anyStep s s' ∧ s'.Due cfg ∧ s.Serves s' := by
  obtain ⟨n, hn⟩ := exists_bound (fun r : Row => max (r.claimedAt.getD 0) (r.notBefore.getD 0)) s.db.tables.operations
  generalize hlate : s.db.now + (n + cfg.reaperThresholdMs + 1) = late
  let reaped : Deployment := { s with db := { s.db with
    now := late
    tables :=
      (OperationStore.reapStale cfg.reaperThresholdMs 0 late (s.db.tables.operations.map Row.id) s.db.tables).2 } }
  have waited : s.step advisoryLockKey cfg (.database (.tick (n + cfg.reaperThresholdMs + 1))) =
      some { s with db := { s.db with now := late } } := by
    simp [step, DbAction.isBackground, DbAction.callerIn, Db.step, hlate]
  have passed : ({ s with db := { s.db with now := late } } : Deployment).step advisoryLockKey cfg
      (.reap 0 late (s.db.tables.operations.map Row.id)) = some reaped := by
    simp [step, Db.reapStale, reaped]
  have run : Runs (step advisoryLockKey cfg) anyStep s reaped := (Runs.start.next waited trivial).next passed trivial
  have hops : reaped.db.tables.operations = _ := OperationStore.reapStale_operations
  have formed := idle.unstranded.represented.formed
  refine ⟨reaped, run, ⟨⟨?_, idle.attempts, idle.claims⟩, ?_⟩, ?_⟩
  · exact run.invariant _ idle.unstranded fun _ _ _ inv h _ => inv.step (stepped h)
  · intro r' hr' hopen
    rw [hops] at hr'
    obtain ⟨r, hr, rfl⟩ := mem_updateWhere.1 hr'
    have hbound := hn r hr
    split
    · split
      · right
        simp [Row.deferred, Row.isDue, reaped]
      · exact .inl rfl
    · rename_i hp
      simp only [hp, if_false] at hopen
      obtain ⟨p, hst⟩ := (OperationStatus.not_terminal_iff _).1 hopen
      cases p with
      | pending => exact .inl hst
      | running =>
        -- Its claim is older than the threshold.
        obtain ⟨c, hc⟩ := Option.ne_none_iff_exists'.1 ((formed r hr).running hst).1
        refine absurd ⟨List.mem_map_of_mem hr, hst, ?_⟩ hp
        simp only [hc, Option.getD_some] at hbound
        simp only [hc, Option.any_some, decide_eq_true_eq]
        omega
      | awaitingReadback =>
        obtain ⟨m, hm⟩ := Option.ne_none_iff_exists'.1 ((formed r hr).awaiting hst).2
        refine .inr ⟨hst, ?_⟩
        simp only [hm, Option.getD_some] at hbound
        simp only [Row.isDue, hm, Option.any_some, decide_eq_true_eq, reaped]
        omega
  · refine serves_of_updateWhere hops (fun r hr hp => ?_) fun r _ => by split <;> rfl
    split
    · exact .of_open (.deferred _ hp.2.1) fun _ => by simp [Row.deferred]
    · rename_i hop
      exact .of_open (.reaped hp.2.1 hop) fun _ => by simp [Row.reaped]

/-! ## One operation at a time -/

theorem countP_map_lt {α : Type} {q : α → Bool} {g : α → α} {l : List α} (keeps : ∀ a ∈ l, q (g a) → q a)
    {a : α} (ha : a ∈ l) (hq : q a) (hg : ¬ q (g a)) : (l.map g).countP q < l.countP q := by
  rw [List.countP_map]
  obtain ⟨before, after, rfl⟩ := List.append_of_mem ha
  have hbefore := List.countP_mono_left fun b hb => keeps b (List.mem_append_left (a :: after) hb)
  have hafter := List.countP_mono_left fun b hb =>
    keeps b (List.mem_append_right before (List.mem_cons_of_mem a hb))
  have hcomp : q ∘ g = fun b => q (g b) := rfl
  simp only [Bool.not_eq_true] at hg
  simp only [List.countP_append, List.countP_cons, hcomp, hq, hg, if_true, Bool.false_eq_true, if_false] at *
  omega

/-- The row is claimed and its attempt has come to its write. -/
structure Claiming (cfg : ResolvedDispatcherConfig) (s s' : Deployment) (p : Row) (prior : OperationPendingStatus) :
    Prop where
  rows : s'.db.tables.operations = updateWhere (fun r => r.id = p.id) (Row.claimed s.db.now) s.db.tables.operations
  history : s'.db.tables.history = s.db.tables.history
  now : s'.db.now = s.db.now
  claims : s'.db.claims = []
  locks : s'.db.locks = []
  attempt : ∃ att, s'.attempts = [att] ∧ att.prog = (Dispatcher.execute cfg (p.toClaimed prior)).run

theorem commitClaim_eq {sid : Nat} {c : ClaimStatement} {delivered : Bool} (hc : s.db.claim? sid = some c)
    (done : c.todo = []) (alive : delivered → c.caller ∉ s.dead) :
    s.step advisoryLockKey cfg (.commitClaim sid delivered) =
      some { s with
        db := (s.db.claimLocked sid c.snapshot.now).endClaim sid
        attempts := s.attempts ++ if delivered then (s.db.returned sid).map (s.newAttempt cfg c) else []
        log := s.log ++ (s.db.returned sid).map (s.newEntry c) } := by
  have halive : ¬ (delivered = true ∧ c.caller ∈ s.dead) := fun h => alive h.1 h.2
  simp only [step, commitClaim, hc, Db.commitClaim, done, halive, if_true, if_false, Option.map_some]

theorem runs_claiming (due : s.Due cfg) {r : Row} (hr : r ∈ s.db.tables.operations) (hopen : ¬ r.status.terminal) :
    ∃ s' p prior, Runs (step advisoryLockKey cfg) anyStep s s' ∧ p ∈ s.db.tables.operations ∧
      p.lockable = some prior ∧ Claiming cfg s s' p prior := by
  have wf := due.unstranded.followed.wf
  have formed := due.unstranded.represented.formed
  obtain ⟨proc, hproc⟩ : ∃ proc, proc ∉ s.dead := by
    obtain ⟨n, hn⟩ := exists_bound id s.dead
    exact ⟨n + 1, fun h => absurd (hn _ h) (by simp)⟩
  let snapshot : Snapshot := ⟨s.db.tables.operations, s.db.now, fun _ => 0⟩
  have unblocked : ¬ snapshot.blocked r := by
    rintro ⟨b, hb, hblocks, -⟩
    rcases hblocks with hst | ⟨hst, hwaits⟩
    · have hclaim := due.due b hb (by simp [hst])
      simp [Row.claimable, hst] at hclaim
    · have hclaim := due.due b hb (by simp [hst])
      obtain ⟨n, hn⟩ := Option.ne_none_iff_exists'.1 ((formed b hb).awaiting hst).2
      simp only [Row.claimable, hst, Row.isDue, Row.isWaiting, hn, Option.any_some, decide_eq_true_eq, snapshot] at *
      simp at hclaim
      omega
  obtain ⟨p, hp, hclaimable, hpicked⟩ := Snapshot.picked_one wf.ids.nodup hr (due.due r hr hopen) unblocked
  obtain ⟨prior, hprior⟩ : ∃ prior, p.lockable = some prior := by
    rcases hclaimable with hst | ⟨hst, -⟩ <;> exact ⟨_, Row.lockable_eq_some.2 ⟨hst, by simp⟩⟩
  have hcaps : (ClaimArgs.one r.instanceId).caps ≠ [] := by simp [ClaimArgs.one, ClaimArgs.caps]
  let claim (todo : List Uuid) : ClaimStatement := ⟨0, proc, .one r.instanceId, snapshot, todo⟩
  let begun : Deployment := { s with db := { s.db with claims := [claim [p.id]] } }
  let locked : Deployment := { s with db := { s.db with claims := [claim []], locks := [⟨p.id, 0, prior⟩] } }
  have hrow (db : Db) (h : db.tables = s.db.tables) : db.row? p.id = some p := by
    unfold Db.row?
    rw [h]
    exact wf.row?_of_mem hp
  have begins : s.step advisoryLockKey cfg
      (.database (.beginClaim 0 proc (.one r.instanceId) fun _ => 0)) = some begun := by
    simp [step, DbAction.isBackground, DbAction.callerIn, hproc, Db.step, Db.beginClaim, Db.claim?, lookup, due.claims,
      hcaps, begun, claim, snapshot, hpicked]
    simp [ClaimArgs.one]
  have locks : begun.step advisoryLockKey cfg (.database (.lockRow 0 p.id false)) = some locked := by
    simp [step, DbAction.isBackground, DbAction.callerIn, Db.step, Db.lockRow, Db.claim?, lookup, hrow, hprior, begun,
      claim, due.locks, Db.visit, updateWhere, locked]
  have commits : ∃ s', locked.step advisoryLockKey cfg (.commitClaim 0 true) = some s' ∧
      Claiming cfg s s' p prior := by
    have hreturned : locked.db.returned 0 = [(p, prior)] := by simp [Db.returned, Db.locksOf, hrow, locked]
    have hclaim : locked.db.claim? 0 = some (claim []) := by simp [Db.claim?, lookup, locked, claim]
    have taken := @commitClaim_eq cfg advisoryLockKey locked 0 (claim []) true hclaim rfl fun _ => hproc
    rw [hreturned] at taken
    refine ⟨_, taken, ?_, rfl, rfl, ?_, ?_, ?_⟩
    · have hlocks : locked.db.locksOf 0 = [⟨p.id, 0, prior⟩] := by simp [Db.locksOf, locked]
      refine List.map_congr_left fun x _ => ?_
      rw [hlocks]
      simp [claim, snapshot, eq_comm]
    · simp [Db.endClaim, Db.claimLocked, locked, claim]
    · simp [Db.endClaim, Db.claimLocked, locked]
    · refine ⟨locked.newAttempt cfg (claim []) (p, prior), ?_, rfl⟩
      rw [due.attempts]
      rfl
  obtain ⟨s', hs', claiming⟩ := commits
  exact ⟨s', p, prior, ((Runs.start.next begins trivial).next locks trivial).next hs' trivial, hp, hprior, claiming⟩

/-- The operations that are not finished. -/
def openRows (s : Deployment) : Nat := s.db.tables.operations.countP fun r => ¬ r.status.terminal

/-- The claimed row as its attempt leaves it. -/
def settledAs (now : Nat) (outcome : OperationOutcome) (result : Option Json) (errorCode : Option String) (r : Row) :
    Row := (r.claimed now).finalized outcome result errorCode now

theorem write_finalize_eq {att : Attempt} {id : String} {outcome : OperationOutcome} {result : Option Json}
    {errorCode : Option String} {k : Except Failure Bool → Prog Dispatch (Except Failure Unit)} {began : Nat}
    (hatts : s.attempts = [att]) (hprog : att.prog = .await (.finalize id outcome result errorCode) k)
    (hbegan : began ≤ s.db.now) (hlocks : s.db.locks = []) : s.step advisoryLockKey cfg (.write 0 (some began)) =
      some { s with
        db := { s.db with tables := (OperationStore.finalize id outcome result errorCode began s.db.tables).2 }
        attempts := []
        log := s.log ++ [⟨att.row, att.claim, .wrote (.finalize id outcome result errorCode) true
          (claimsOf s.log att.row)⟩] } := by
  have hfree : ∀ l ∈ s.db.locks, operationIdOf id ≠ some l.id := by simp [hlocks]
  simp only [step, write, hatts, List.getElem?_cons_zero, hprog, Io.statement, Option.getD_some, Option.isSome_some,
    if_true, Db.step, Db.finalize]
  rw [if_pos ⟨hbegan, hfree⟩]
  rfl

theorem runs_finalized {s₁ : Deployment} {p : Row} {prior : OperationPendingStatus}
    (claiming : Claiming cfg s s₁ p prior) : ∃ s' outcome result errorCode,
    Runs (step advisoryLockKey cfg) anyStep s₁ s' ∧ s'.attempts = [] ∧ s'.db.claims = [] ∧ s'.db.now = s.db.now ∧
      s'.db.tables.operations = updateWhere (fun x => x.id = p.id) (settledAs s.db.now outcome result errorCode)
        s.db.tables.operations ∧ ((p.toClaimed prior).Named → outcome = .succeeded) := by
  obtain ⟨att, hatt, hprog⟩ := claiming.attempt
  obtain ⟨s₂, run, hdb, hatts⟩ := @runs_toWrite cfg advisoryLockKey s₁ att hatt
  obtain ⟨outcome, result, errorCode, k, hwrite, hnamed⟩ := @toWrite_execute cfg (p.toClaimed prior)
  rw [hprog, hwrite] at hatts
  have taken := @write_finalize_eq cfg advisoryLockKey s₂ _ _ _ _ _ k s.db.now hatts rfl
    (by rw [hdb, claiming.now]) (by rw [hdb, claiming.locks])
  refine ⟨_, outcome, result, errorCode, run.next taken trivial, rfl, ?_, ?_, ?_, hnamed⟩
  · exact (congrArg Db.claims hdb).trans claiming.claims
  · exact (congrArg Db.now hdb).trans claiming.now
  · dsimp only
    rw [OperationStore.finalize_operations, hdb, claiming.rows]
    unfold updateWhere
    rw [List.map_map]
    refine List.map_congr_left fun x hx => ?_
    simp only [Function.comp, Row.toClaimed, operationIdOf_text, Option.some.injEq]
    by_cases hid : x.id = p.id
    · simp [hid, Row.claimed, settledAs]
    · simp [hid, Ne.symm hid]

theorem runs_settled (due : s.Due cfg) {r : Row} (hr : r ∈ s.db.tables.operations) (hopen : ¬ r.status.terminal) :
    ∃ s', Runs (step advisoryLockKey cfg) anyStep s s' ∧ s'.Due cfg ∧ s.Serves s' ∧ s'.openRows < s.openRows := by
  have wf := due.unstranded.followed.wf
  obtain ⟨s₁, p, prior, run₁, hp, hprior, claiming⟩ := @runs_claiming cfg advisoryLockKey s due r hr hopen
  obtain ⟨s', outcome, result, errorCode, run₂, hatts, hclaims, hnow, hops, hnamed⟩ :=
    @runs_finalized cfg advisoryLockKey s s₁ p prior claiming
  obtain ⟨hstatus, -⟩ := Row.lockable_eq_some.1 hprior
  have run := run₁.trans run₂
  have hfinal (x : Row) : (settledAs s.db.now outcome result errorCode x).status.terminal := by
    simp [settledAs, Row.finalized]
  refine ⟨s', run, ⟨⟨?_, hatts, hclaims⟩, ?_⟩, ?_, ?_⟩
  · exact run.invariant _ due.unstranded fun _ _ _ inv h _ => inv.step (stepped h)
  · intro x hx ho
    rw [hops] at hx
    obtain ⟨x₀, hx₀, rfl⟩ := mem_updateWhere.1 hx
    rw [hnow]
    by_cases hid : x₀.id = p.id
    · rw [if_pos hid] at ho
      exact absurd (hfinal x₀) ho
    · rw [if_neg hid] at ho ⊢
      exact due.due x₀ hx₀ ho
  · refine serves_of_updateWhere hops (fun x hx hid => ?_) fun x _ => rfl
    obtain rfl : x = p := eq_of_key_eq wf.ids.nodup hx hp hid
    refine ⟨by constructor <;> rfl, fun ht => by simp [hstatus] at ht, fun _ _ named => ?_⟩
    refine congrArg OperationStatus.final (hnamed ⟨fun hawait => ?_, named.uid⟩)
    apply named.name
    refine due.unstranded.awaitsCreate x.id x (wf.row?_of_mem hx) ?_
    rw [hstatus, show prior = .awaitingReadback from hawait]
  · unfold openRows
    rw [hops]
    refine countP_map_lt (fun x hx h => ?_) hp (by simp [hstatus]) (by simp [hfinal])
    by_cases hid : x.id = p.id
    · simp [hid, hfinal] at h
    · rwa [if_neg hid] at h

/-! ## All of them -/

theorem runs_drained (due : s.Due cfg) : ∃ s', Runs (step advisoryLockKey cfg) anyStep s s' ∧ s'.openRows = 0 ∧
    s.Serves s' := by
  induction hn : s.openRows using Nat.strongRecOn generalizing s with
  | ind n ih =>
    by_cases hzero : s.openRows = 0
    · exact ⟨s, .start, hzero, fun u r hr => ⟨r, hr, .refl r⟩⟩
    · obtain ⟨r, hr, hopen⟩ := List.countP_pos_iff.1 (Nat.pos_of_ne_zero hzero)
      obtain ⟨s₁, run₁, due₁, serves₁, hlt⟩ := @runs_settled cfg advisoryLockKey s due r hr (of_decide_eq_true hopen)
      obtain ⟨s₂, run₂, hdone, serves₂⟩ := ih _ (hn ▸ hlt) due₁ rfl
      exact ⟨s₂, run₁.trans run₂, hdone, serves₁.trans serves₂⟩

/-- **Nothing accepted is out of reach.** From every state that a run reaches, however its processes died, a run
leads to a state in which every operation is final: those that were final are as they were, and those that have what
their call needs have succeeded. -/
theorem every_operation_can_finish {now : Nat} {partitions : List Nat}
    (reached : Runs (step advisoryLockKey cfg) anyStep (start now partitions) s) :
    ∃ s', Runs (step advisoryLockKey cfg) anyStep s s' ∧ (∀ r ∈ s'.db.tables.operations, r.status.terminal) ∧
      ∀ u r, s.db.row? u = some r → ∃ r', s'.db.row? u = some r' ∧ r.SameOperation r' ∧
        (r.status.terminal → r' = r) ∧ (¬ r.status.terminal → r.Named → r'.status = .final .succeeded) := by
  have inv : s.Unstranded cfg :=
    reached.invariant _ (unstranded_start now partitions) fun _ _ _ inv h _ => inv.step (stepped h)
  obtain ⟨s₁, run₁, idle, htables⟩ := @runs_idle cfg advisoryLockKey s inv
  obtain ⟨s₂, run₂, due, serves₂⟩ := @runs_due cfg advisoryLockKey s₁ idle
  obtain ⟨s₃, run₃, hdone, serves₃⟩ := @runs_drained cfg advisoryLockKey s₂ due
  have final : ∀ r ∈ s₃.db.tables.operations, r.status.terminal := fun r hr => by
    simpa using List.countP_eq_zero.1 hdone r hr
  refine ⟨s₃, (run₁.trans run₂).trans run₃, final, fun u r hr => ?_⟩
  have hrow : s₁.db.row? u = some r := by
    unfold Db.row?
    rw [htables]
    exact hr
  obtain ⟨r', hr', served⟩ := (serves₂.trans serves₃) u r hrow
  exact ⟨r', hr', served.same, served.kept, fun hopen => served.done hopen (final r' (lookup_some_mem hr').1)⟩

/-- A process dies with a call to the target in flight. -/
def crashedInCall : List Action :=
  submitted 1 (request .update) 7 ++ claimedBy 1 1 7 ++
    replied 0 [.lease (.ok ()), .config (.ok (some someRuntime)), .time 0, .done] ++ [.die 1]

theorem every_operation_can_finish_crashed :
    ∃ s s', exec (step (fun _ => 0) .DEFAULTS) anyStep (start 0 [0]) crashedInCall = some s ∧
      (s.db.row? 7).map Row.status = some (.live .running) ∧ s.attempts.length = 0 ∧
      Runs (step (fun _ => 0) .DEFAULTS) anyStep s s' ∧
      (s'.db.row? 7).map Row.status = some (.final .succeeded) := by
  have h : (exec (step (fun _ => 0) .DEFAULTS) anyStep (start 0 [0]) crashedInCall).bind (fun s =>
      (s.db.row? 7).map fun r =>
        (s.attempts.length, r.status, r.opType, r.uid)) = some (0, .live .running, .update, some "42") := by
    decide
  obtain ⟨s, hs, h⟩ := Option.bind_eq_some_iff.1 h
  obtain ⟨r, hr, h⟩ := Option.map_eq_some_iff.1 h
  simp only [Prod.mk.injEq] at h
  obtain ⟨hatts, hst, hop, -⟩ := h
  obtain ⟨s', run, -, rows⟩ := every_operation_can_finish (runs_of_exec hs)
  obtain ⟨r', hr', -, -, hdone⟩ := rows 7 r hr
  refine ⟨s, s', hs, by rw [hr, ← hst]; rfl, hatts, run, ?_⟩
  rw [hr', Option.map_some, hdone (by simp [hst]) ⟨by simp [hop], by simp [hop, OperationType.isDelta]⟩]

end Deployment

end Provisioning
