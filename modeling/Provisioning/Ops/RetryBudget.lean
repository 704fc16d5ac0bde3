import Provisioning.Ops.BlindCreate

/-!
# How often an operation is tried

`attempt_count` counts the requeues, and two ceilings are tested against it. What the other ways back
into the backlog cost is counted along the history: a deferral spends the call before it, and only the
reaper makes an operation `PENDING` for nothing.
-/

namespace Provisioning

open Lib

variable {advisoryLockKey : String → BitVec 64} {cfg : ResolvedDispatcherConfig}

/-! ## What a history says -/

/-- A call of a facade method that changes the target. -/
def Event.isMutation : Event → Bool
  | .heard (.invoke _) _ => true
  | _ => false

/-- A requeue that was applied to the row. -/
def Event.isRequeued : Event → Bool
  | .wrote (.requeue _) applied _ => applied
  | _ => false

def Event.isDeferred : Event → Bool
  | .wrote (.deferForReadback ..) applied _ => applied
  | _ => false

theorem creates_le_mutations (history : List Event) :
    history.countP Event.isCreate ≤ history.countP Event.isMutation := by
  refine List.countP_mono_left fun ev _ h => ?_
  unfold Event.isCreate at h
  split at h
  · rfl
  · simp at h

theorem countP_snoc (q : Event → Bool) (history : List Event) (ev : Event) :
    (history ++ [ev]).countP q = history.countP q + (q ev).toNat := by
  cases h : q ev <;> simp [h]

/-! ## The budget -/

/-- How often an operation may be `PENDING`, the reaper apart. -/
def ResolvedDispatcherConfig.tries (cfg : ResolvedDispatcherConfig) : OperationType → Nat
  | .create => max cfg.maxAttempts 2
  | _ => max cfg.maxAttempts 1

/-- The passes of the reaper that made the operation `PENDING`. -/
def freeTries (reaps : Nat) : OperationType → Nat
  | .create => 0
  | _ => reaps

namespace Life

/-- The row may make one more call before it is requeued. -/
def owesCall (l : Life) : Bool :=
  match l.live with
  | some (op, f) => op.priorStatus ≠ .awaitingReadback && f.calls.isEmpty
  | none => l.row.any fun r => r.status = .live .pending

/-- The live attempt has made its call. -/
def called (l : Life) : Bool := l.live.any fun x => !x.2.calls.isEmpty

def waits (l : Life) : Bool := l.row.any fun r => r.lockable.isSome

structure Budgeted (cfg : ResolvedDispatcherConfig) (reaps : Nat) (l : Life) : Prop where
  counted : ∀ r, l.row = some r → r.attemptCount = l.history.countP Event.isRequeued
  capped : ∀ r, l.row = some r → l.history.countP Event.isRequeued + 1 ≤ cfg.tries r.opType
  /-- Only a create waits for a read-back. -/
  resumed : ∀ r, l.row = some r → r.opType ≠ .create → r.status ≠ .live .awaitingReadback ∧
    ∀ op f, l.live = some (op, f) → op.priorStatus ≠ .awaitingReadback
  calls : ∀ r, l.row = some r → l.history.countP Event.isMutation + l.owesCall.toNat ≤
    l.history.countP Event.isRequeued + freeTries reaps r.opType + 1
  deferred : l.history.countP Event.isDeferred + l.called.toNat ≤ l.history.countP Event.isMutation
  claims : l.history.countP Event.isClaimed + l.waits.toNat ≤
    l.history.countP Event.isRequeued + l.history.countP Event.isDeferred + reaps + 1

section

variable {reaps : Nat} {l t : Life} {op : ClaimedOperation} {f : Facts} {r : Row}

theorem budgeted_absent : (⟨none, none, []⟩ : Life).Budgeted cfg reaps := by
  constructor <;> simp [called, waits]

theorem Budgeted.mono (h : l.Budgeted cfg reaps) {reaps' : Nat} (hle : reaps ≤ reaps') : l.Budgeted cfg reaps' where
  counted := h.counted
  capped := h.capped
  resumed := h.resumed
  calls r hr := by
    have hcalls := h.calls r hr
    have hfree : freeTries reaps r.opType ≤ freeTries reaps' r.opType := by
      unfold freeTries
      split <;> omega
    omega
  deferred := h.deferred
  claims := by
    have hclaims := h.claims
    omega

/-! ## Steps -/

/-- The row stays `RUNNING`, and no attempt holds it. -/
theorem Budgeted.parked (inv : l.Budgeted cfg reaps) (hr : l.row = some r) (running : r.status = .live .running)
    {ev : Event} (quiet : ev.isMutation = false ∧ ev.isRequeued = false ∧ ev.isDeferred = false ∧ ev.isClaimed = false)
    (row : t.row = l.row) (live : t.live = none) (history : t.history = l.history ++ [ev]) : t.Budgeted cfg reaps := by
  obtain ⟨hm, hq, hd, hc⟩ := quiet
  have owes : t.owesCall = false := by simp [owesCall, live, row, hr, running]
  have silent : t.called = false := by simp [called, live]
  have waits : t.waits = l.waits := by simp [Life.waits, row]
  refine ⟨?_, ?_, ?_, ?_, ?_, ?_⟩ <;>
    simp only [row, history, countP_snoc, hm, hq, hd, hc, Bool.toNat_false, Nat.add_zero]
  · exact inv.counted
  · exact inv.capped
  · intro r' hr' hop
    exact ⟨(inv.resumed r' hr' hop).1, by simp [live]⟩
  · intro r' hr'
    have hcalls := inv.calls r' hr'
    simp only [owes, Bool.toNat_false]
    omega
  · have hdeferred := inv.deferred
    simp only [silent, Bool.toNat_false]
    omega
  · simpa only [waits] using inv.claims

theorem hear_calls {e : Io} (x : e.Answer) (allowed : (protocol cfg op).allows f e)
    (h : (Event.heard e x).isMutation = false) : (f.hear e x).calls.isEmpty = f.calls.isEmpty := by
  cases e with
  | invoke m => simp [Event.isMutation] at h
  | settle m => simp [Facts.hear, allowed.2]
  | configOf => cases x <;> rfl
  | _ => rfl

theorem Budgeted.heard (inv : l.Budgeted cfg reaps) {e : Io} {x : e.Answer} (hl : l.live = some (op, f))
    (allowed : (protocol cfg op).allows f e) (row : t.row = l.row) (live : t.live = some (op, f.hear e x))
    (history : t.history = l.history ++ [.heard e x]) : t.Budgeted cfg reaps := by
  have hq : (Event.heard e x).isRequeued = false := rfl
  have hd : (Event.heard e x).isDeferred = false := rfl
  have hc : (Event.heard e x).isClaimed = false := rfl
  have waits : t.waits = l.waits := by simp [Life.waits, row]
  have moved : t.owesCall.toNat + (Event.heard e x).isMutation.toNat = l.owesCall.toNat ∧
      t.called.toNat = l.called.toNat + (Event.heard e x).isMutation.toNat := by
    cases hm : (Event.heard e x).isMutation with
    | false =>
      have hempty := hear_calls x allowed hm
      simp [owesCall, called, live, hl, hempty]
    | true =>
      obtain ⟨m, rfl⟩ : ∃ m, e = .invoke m := by
        unfold Event.isMutation at hm
        split at hm
        · rename_i heq
          cases heq
          exact ⟨_, rfl⟩
        · simp at hm
      obtain ⟨-, hnone, hprior, -⟩ := allowed
      simp [owesCall, called, live, hl, hnone, hprior, Facts.hear]
  refine ⟨?_, ?_, ?_, ?_, ?_, ?_⟩ <;> simp only [row, history, countP_snoc, hq, hd, hc, Bool.toNat_false, Nat.add_zero]
  · exact inv.counted
  · exact inv.capped
  · intro r hr hop
    refine ⟨(inv.resumed r hr hop).1, fun op' f' heq => ?_⟩
    rw [live] at heq
    obtain ⟨rfl, -⟩ := Prod.mk.inj (Option.some.inj heq)
    exact (inv.resumed r hr hop).2 op f hl
  · intro r hr
    have hcalls := inv.calls r hr
    omega
  · have hdeferred := inv.deferred
    omega
  · simpa only [waits] using inv.claims

theorem Budgeted.claimed (inv : l.Budgeted cfg reaps) {p : OperationPendingStatus} {now proc : Nat} {delivered : Bool}
    (hr : l.row = some r) (status : r.status = .live p) (waiting : p ≠ .running) (free : l.live = none)
    (row : t.row = some (r.claimed now)) (live : t.live = if delivered then some (r.toClaimed p, .nothing) else none)
    (history : t.history = l.history ++ [.claimed proc]) : t.Budgeted cfg reaps := by
  have hm : (Event.claimed proc).isMutation = false := rfl
  have hq : (Event.claimed proc).isRequeued = false := rfl
  have hd : (Event.claimed proc).isDeferred = false := rfl
  have hc : (Event.claimed proc).isClaimed = true := rfl
  have owes : t.owesCall.toNat ≤ l.owesCall.toNat := by
    cases delivered <;> cases p <;>
      simp_all [owesCall, Row.claimed, Row.toClaimed, Facts.nothing]
  have silent : t.called = false := by
    cases delivered <;> simp [called, live, Facts.nothing]
  have waited : l.waits = true := by simp [waits, hr, Row.lockable_eq_some.2 ⟨status, waiting⟩]
  have taken : t.waits = false := by simp [waits, row, Row.lockable, Row.claimed]
  refine ⟨?_, ?_, ?_, ?_, ?_, ?_⟩ <;>
    simp only [row, history, countP_snoc, hm, hq, hd, hc, Bool.toNat_false, Nat.add_zero, Option.some.injEq, forall_eq']
  · exact inv.counted r hr
  · exact inv.capped r hr
  · intro hop
    refine ⟨by simp [Row.claimed], fun op f hl => ?_⟩
    rw [live] at hl
    obtain ⟨-, heq⟩ := Option.ite_none_right_eq_some.1 hl
    obtain ⟨rfl, -⟩ := Prod.mk.inj (Option.some.inj heq)
    rintro rfl
    exact (inv.resumed r hr hop).1 status
  · exact (Nat.add_le_add_left owes _).trans (inv.calls r hr)
  · have hdeferred := inv.deferred
    simp only [silent, Bool.toNat_false]
    omega
  · have hclaims := inv.claims
    simp only [waited, Bool.toNat_true] at hclaims
    simp only [taken, Bool.toNat_false, Bool.toNat_true]
    omega

theorem Budgeted.room (inv : l.Budgeted cfg reaps) (hl : l.live = some (op, f)) (hr : l.row = some r)
    (count : op.attemptCount = r.attemptCount) (ruled : Ruled cfg op f .requeue) :
    l.history.countP Event.isRequeued + 2 ≤ cfg.tries r.opType := by
  have hcount := inv.counted r hr
  rcases ruled with ⟨-, -, -, -, -, -, hlt⟩ | ⟨-, resumed, -, hlt⟩
  · unfold ResolvedDispatcherConfig.tries
    split <;> omega
  · have hop : r.opType = .create := by
      by_contra hop
      exact (inv.resumed r hr hop).2 op f hl resumed
    simp only [ResolvedDispatcherConfig.tries, hop]
    omega

theorem Budgeted.requeued (inv : l.Budgeted cfg reaps) (hl : l.live = some (op, f)) (hr : l.row = some r)
    (count : op.attemptCount = r.attemptCount) (ruled : Ruled cfg op f .requeue) {id : String} {current : Nat}
    (row : t.row = some r.requeued) (live : t.live = none)
    (history : t.history = l.history ++ [.wrote (.requeue id) true current]) : t.Budgeted cfg reaps := by
  have room := inv.room hl hr count ruled
  have hm : (Event.wrote (.requeue id) true current).isMutation = false := rfl
  have hq : (Event.wrote (.requeue id) true current).isRequeued = true := rfl
  have hd : (Event.wrote (.requeue id) true current).isDeferred = false := rfl
  have hc : (Event.wrote (.requeue id) true current).isClaimed = false := rfl
  have silent : t.called = false := by simp [called, live]
  refine ⟨?_, ?_, ?_, ?_, ?_, ?_⟩ <;>
    simp only [row, history, countP_snoc, hm, hq, hd, hc, Bool.toNat_false, Bool.toNat_true, Nat.add_zero,
      Option.some.injEq, forall_eq']
  · exact congrArg (· + 1) (inv.counted r hr)
  · exact room
  · intro hop
    exact ⟨by simp [Row.requeued], by simp [live]⟩
  · have hcalls := inv.calls r hr
    have howes := Bool.toNat_le t.owesCall
    change _ ≤ _ + freeTries reaps r.opType + 1
    omega
  · have hdeferred := inv.deferred
    simp only [silent, Bool.toNat_false]
    omega
  · have hclaims := inv.claims
    have hwaits := Bool.toNat_le t.waits
    omega

/-- The deferral spends the call of its attempt. -/
theorem Budgeted.deferredForReadback (inv : l.Budgeted cfg reaps) (hl : l.live = some (op, f)) (hr : l.row = some r)
    (same : op.opType = r.opType) (ruled : Ruled cfg op f .deferReadback) {id : String} {notBefore current : Nat}
    (row : t.row = some (r.deferred notBefore)) (live : t.live = none)
    (history : t.history = l.history ++ [.wrote (.deferForReadback id notBefore) true current]) :
    t.Budgeted cfg reaps := by
  obtain ⟨hop, m, e, ⟨hcalls, -⟩, -⟩ := ruled
  have hm : (Event.wrote (.deferForReadback id notBefore) true current).isMutation = false := rfl
  have hq : (Event.wrote (.deferForReadback id notBefore) true current).isRequeued = false := rfl
  have hd : (Event.wrote (.deferForReadback id notBefore) true current).isDeferred = true := rfl
  have hc : (Event.wrote (.deferForReadback id notBefore) true current).isClaimed = false := rfl
  have spent : l.called = true := by simp [called, hl, hcalls]
  have silent : t.called = false := by simp [called, live]
  have owes : t.owesCall = false := by simp [owesCall, live, row, Row.deferred]
  refine ⟨?_, ?_, ?_, ?_, ?_, ?_⟩ <;>
    simp only [row, history, countP_snoc, hm, hq, hd, hc, Bool.toNat_false, Bool.toNat_true, Nat.add_zero,
      Option.some.injEq, forall_eq']
  · exact inv.counted r hr
  · exact inv.capped r hr
  · intro hne
    exact absurd (same.symm.trans hop) hne
  · have hcalls := inv.calls r hr
    simp only [owes, Bool.toNat_false]
    change _ ≤ _ + freeTries reaps r.opType + 1
    omega
  · have hdeferred := inv.deferred
    simp only [spent, Bool.toNat_true] at hdeferred
    simp only [silent, Bool.toNat_false]
    omega
  · have hclaims := inv.claims
    have hwaits := Bool.toNat_le t.waits
    omega

theorem Budgeted.finalized (inv : l.Budgeted cfg reaps) (hr : l.row = some r) {id : String} {outcome : OperationOutcome}
    {result : Option Json} {errorCode : Option String} {began current : Nat}
    (row : t.row = some (r.finalized outcome result errorCode began)) (live : t.live = none)
    (history : t.history = l.history ++ [.wrote (.finalize id outcome result errorCode) true current]) :
    t.Budgeted cfg reaps := by
  have hm : (Event.wrote (.finalize id outcome result errorCode) true current).isMutation = false := rfl
  have hq : (Event.wrote (.finalize id outcome result errorCode) true current).isRequeued = false := rfl
  have hd : (Event.wrote (.finalize id outcome result errorCode) true current).isDeferred = false := rfl
  have hc : (Event.wrote (.finalize id outcome result errorCode) true current).isClaimed = false := rfl
  have silent : t.called = false := by simp [called, live]
  have owes : t.owesCall = false := by simp [owesCall, live, row, Row.finalized]
  have waits : t.waits = false := by simp [Life.waits, row, Row.lockable, Row.finalized]
  refine ⟨?_, ?_, ?_, ?_, ?_, ?_⟩ <;>
    simp only [row, history, countP_snoc, hm, hq, hd, hc, Bool.toNat_false, Nat.add_zero, Option.some.injEq, forall_eq']
  · exact inv.counted r hr
  · exact inv.capped r hr
  · intro hop
    exact ⟨by simp [Row.finalized], by simp [live]⟩
  · have hcalls := inv.calls r hr
    simp only [owes, Bool.toNat_false]
    change _ ≤ _ + freeTries reaps r.opType + 1
    omega
  · have hdeferred := inv.deferred
    simp only [silent, Bool.toNat_false]
    omega
  · have hclaims := inv.claims
    simp only [waits, Bool.toNat_false]
    omega

/-- The reaper gives one more try, to a create for its read-back only. -/
theorem Budgeted.reaped (inv : l.Budgeted cfg reaps) (hr : l.row = some r) {notBefore : Nat}
    (row : t.row = some (if r.opType = .create then r.deferred notBefore else r.reaped)) (live : t.live = none)
    (history : t.history = l.history) : t.Budgeted cfg (reaps + 1) := by
  have silent : t.called = false := by simp [called, live]
  have hclaims := inv.claims
  have hwaits := Bool.toNat_le t.waits
  have hcalls := inv.calls r hr
  have hdeferred : t.history.countP Event.isDeferred + t.called.toNat ≤ t.history.countP Event.isMutation := by
    have hdeferred := inv.deferred
    simp only [silent, history, Bool.toNat_false]
    omega
  by_cases hop : r.opType = .create
  · rw [if_pos hop] at row
    have owes : t.owesCall = false := by simp [owesCall, live, row, Row.deferred]
    refine ⟨?_, ?_, ?_, ?_, hdeferred, ?_⟩ <;> simp only [row, history, Option.some.injEq, forall_eq']
    · exact inv.counted r hr
    · exact inv.capped r hr
    · intro hne
      exact absurd hop hne
    · simp only [owes, Bool.toNat_false, Row.deferred, hop, freeTries] at hcalls ⊢
      omega
    · omega
  · rw [if_neg hop] at row
    have hfree (n : Nat) : freeTries n r.opType = n := by
      unfold freeTries
      split
      · exact absurd (by assumption) hop
      · rfl
    refine ⟨?_, ?_, ?_, ?_, hdeferred, ?_⟩ <;> simp only [row, history, Option.some.injEq, forall_eq']
    · exact inv.counted r hr
    · exact inv.capped r hr
    · intro _
      exact ⟨by simp [Row.reaped], by simp [live]⟩
    · have howes := Bool.toNat_le t.owesCall
      change _ ≤ _ + freeTries (reaps + 1) r.opType + 1
      rw [hfree] at hcalls ⊢
      omega
    · omega

theorem Budgeted.entered (empty : l.history = []) (new : r.attemptCount = 0)
    (status : r.status = .live .pending) (row : t.row = some r) (live : t.live = none)
    (history : t.history = l.history) : t.Budgeted cfg reaps := by
  have silent : t.called = false := by simp [called, live]
  have howes := Bool.toNat_le t.owesCall
  have hwaits := Bool.toNat_le t.waits
  refine ⟨?_, ?_, ?_, ?_, ?_, ?_⟩ <;>
    simp only [row, history, empty, List.countP_nil, Option.some.injEq, forall_eq', silent, Bool.toNat_false]
  · exact new
  · unfold ResolvedDispatcherConfig.tries
    split <;> omega
  · intro _
    exact ⟨by simp [status], by simp [live]⟩
  · omega
  · omega
  · omega

theorem Budgeted.step {act : LifeAction} (inv : l.Budgeted cfg reaps) (coherent : l.Coherent) (h : Step cfg l act t)
    (new : ∀ r, l.row = none → t.row = some r → r.attemptCount = 0) {reaps' : Nat} (more : reaps ≤ reaps')
    (taken : act = .reaped → reaps < reaps') : t.Budgeted cfg reaps' := by
  have kept := inv.mono more
  have held {op : ClaimedOperation} {f : Facts} (hl : l.live = some (op, f)) {r : Row} (hr : l.row = some r) :
      r.status = .live .running ∧ op.opType = r.opType ∧ op.attemptCount = r.attemptCount := by
    obtain ⟨r₀, p, now, hr₀, rfl, -⟩ := coherent.live op f hl
    obtain rfl := Option.some.inj (hr.symm.trans hr₀)
    exact ⟨rfl, rfl, rfl⟩
  have present {op : ClaimedOperation} {f : Facts} (hl : l.live = some (op, f)) :
      ∃ r, l.row = some r ∧ r.status = .live .running := by
    obtain ⟨r, p, now, hr, -⟩ := coherent.live op f hl
    exact ⟨_, hr, rfl⟩
  cases h with
  | idle => exact kept
  | @entered r absent status =>
    have idle : l.live = none := by
      refine Option.eq_none_iff_forall_not_mem.2 fun x hx => ?_
      obtain ⟨r₀, hr₀, -⟩ := present hx
      simp [absent] at hr₀
    exact entered (coherent.absent absent) (new r absent rfl) status rfl idle rfl
  | claimed _ hr status waiting free => exact kept.claimed hr status waiting free rfl rfl rfl
  | heard hl allowed => exact kept.heard hl allowed rfl rfl rfl
  | @wrote op f r e o began current hl hr ho ruled =>
    obtain ⟨running, hop, hcount⟩ := held hl hr
    cases e <;> simp only [Io.outcome, Option.some.injEq, reduceCtorEq] at ho
    case finalize id outcome result errorCode =>
      have hrow : Io.write began r (.finalize id outcome result errorCode) =
          r.finalized outcome result errorCode began := by
        simp [Io.write, running]
      exact kept.finalized hr (congrArg some hrow) rfl rfl
    case requeue => exact kept.requeued hl hr hcount (ho ▸ ruled) (by simp [Io.write, running]) rfl rfl
    case deferForReadback => exact kept.deferredForReadback hl hr hop (ho ▸ ruled) (by simp [Io.write, running]) rfl rfl
  | @writeLost _ _ e current hl =>
    obtain ⟨r, hr, running⟩ := present hl
    have quiet : (Event.wrote e false current).isRequeued = false ∧
        (Event.wrote e false current).isDeferred = false := by
      cases e <;> exact ⟨rfl, rfl⟩
    exact kept.parked hr running ⟨rfl, quiet.1, quiet.2, rfl⟩ rfl rfl rfl
  | died hl =>
    obtain ⟨r, hr, running⟩ := present hl
    have quiet : Event.died.isMutation = false ∧ Event.died.isRequeued = false ∧ Event.died.isDeferred = false ∧
        Event.died.isClaimed = false := ⟨rfl, rfl, rfl, rfl⟩
    exact kept.parked hr running quiet rfl rfl rfl
  | reaped hr _ free =>
    refine mono ?_ (taken rfl)
    exact inv.reaped hr rfl free rfl

end

end Life

theorem Deployment.Stepped.entered_new {s s' : Deployment} {a : Action} (h : Stepped advisoryLockKey cfg s a s')
    (wf : s.db.WellFormed) {u : Uuid} {r : Row} (absent : s.db.row? u = none) (hr : s'.db.row? u = some r) :
    r.attemptCount = 0 := by
  cases h with
  | database background _ h =>
    rcases h.background wf background (u := u) with hsame | ⟨-, r', hr', -, new⟩
    · simp [hsame, absent] at hr
    · rw [← Option.some.inj (hr'.symm.trans hr)]
      exact new
  | committed => simp [Db.row?_claimLocked, absent] at hr
  | wrote _ _ _ statement h => simp [Db.row?_write statement h, absent] at hr
  | reaped h => simp [Db.row?_reapStale h, absent] at hr
  | replied | writeLost | died => exact absurd (absent.symm.trans hr) (by simp)

theorem Deployment.claims_life {s : Deployment} (u : Uuid) :
    (s.life u).history.countP Event.isClaimed = claimsOf s.log u := by
  simp [claimsOf, life, List.countP_map, List.countP_filter, Function.comp_def, Bool.and_comm]

/-! ## The passes of the reaper -/

instance (s : Deployment) (u : Uuid) (a : Action) : Decidable (a.reaps cfg s u) :=
  match a with
  | .reap _ began seen =>
    decidable_of_iff (∃ r ∈ s.db.row? u, u ∈ seen ∧ r.stale cfg.reaperThresholdMs began) Iff.rfl
  | .database _ | .commitClaim .. | .reply .. | .write .. | .die _ => .isFalse id

/-- A deployment, with how often the reaper took each row. -/
structure ReapedDeployment where
  deployment : Deployment
  reaps : Uuid → Nat

namespace ReapedDeployment

variable (advisoryLockKey : String → BitVec 64) (cfg : ResolvedDispatcherConfig) (w : ReapedDeployment)

def start (now : Nat) (partitions : List Nat) : ReapedDeployment := ⟨.start now partitions, fun _ => 0⟩

def step (a : Action) : Option ReapedDeployment :=
  (w.deployment.step advisoryLockKey cfg a).map fun d =>
    ⟨d, fun u => if a.reaps cfg w.deployment u then w.reaps u + 1 else w.reaps u⟩

/-- The runs in which each live attempt ends before its row is old enough to be reaped. -/
def staysTimely (w : ReapedDeployment) (a : Action) (w' : ReapedDeployment) : Prop :=
  Deployment.staysTimely cfg w.deployment a w'.deployment

instance (w : ReapedDeployment) (a : Action) (w' : ReapedDeployment) : Decidable (staysTimely cfg w a w') :=
  inferInstanceAs (Decidable (Deployment.staysTimely ..))

variable {advisoryLockKey cfg w}

theorem budgeted_run {now : Nat} {partitions : List Nat}
    (run : Runs (step advisoryLockKey cfg) (staysTimely cfg) (start now partitions) w) :
    w.deployment.Followed cfg ∧ w.deployment.Held ∧
      ∀ u, (w.deployment.life u).Coherent ∧ (w.deployment.life u).Budgeted cfg (w.reaps u) := by
  refine run.invariant (fun w => w.deployment.Followed cfg ∧ w.deployment.Held ∧
    ∀ u, (w.deployment.life u).Coherent ∧ (w.deployment.life u).Budgeted cfg (w.reaps u)) ?_ ?_
  · refine ⟨Deployment.followed_start now partitions, Deployment.held_start now partitions, fun u => ⟨?_, ?_⟩⟩
    · exact ⟨by simp [start, Deployment.life_start], by simp [start, Deployment.life_start]⟩
    · exact Life.budgeted_absent
  · rintro w a w' ⟨followed, held, lives⟩ h timely
    obtain ⟨d, hd, rfl⟩ := Option.map_eq_some_iff.1 h
    have hstep := Deployment.stepped hd
    refine ⟨followed.step hstep, held.step followed hstep timely, fun u => ?_⟩
    obtain ⟨act, hlife, hreaps⟩ := hstep.life_step followed held timely u
    obtain ⟨coherent, budgeted⟩ := lives u
    refine ⟨coherent.step hlife, budgeted.step coherent hlife ?_ ?_ ?_⟩
    · intro r absent hr
      exact hstep.entered_new followed.wf absent hr
    · dsimp only
      split <;> omega
    · intro hact
      dsimp only
      rw [if_pos (hreaps hact)]
      omega

/-- **The retry protocol is bounded.** -/
theorem retries_bounded {now : Nat} {partitions : List Nat}
    (run : Runs (step advisoryLockKey cfg) (staysTimely cfg) (start now partitions) w) {u : Uuid} {r : Row}
    (hr : w.deployment.db.row? u = some r) :
    r.attemptCount = (w.deployment.life u).history.countP Event.isRequeued ∧
    (r.opType = .create → (w.deployment.life u).history.countP Event.isCreate ≤ max cfg.maxAttempts 2) ∧
    (r.opType ≠ .create →
      (w.deployment.life u).history.countP Event.isMutation ≤ max cfg.maxAttempts 1 + w.reaps u) ∧
    (w.reaps u = 0 → claimsOf w.deployment.log u ≤ 2 * max cfg.maxAttempts 2) := by
  obtain ⟨-, budgeted⟩ := (budgeted_run run).2.2 u
  have capped := budgeted.capped r hr
  have calls := budgeted.calls r hr
  have deferred := budgeted.deferred
  have claims := budgeted.claims
  refine ⟨budgeted.counted r hr, ?_, ?_, ?_⟩
  · intro hop
    have creates := creates_le_mutations (w.deployment.life u).history
    simp only [hop, ResolvedDispatcherConfig.tries, freeTries] at capped calls
    omega
  · intro hop
    have tries : cfg.tries r.opType = max cfg.maxAttempts 1 := by
      unfold ResolvedDispatcherConfig.tries
      split
      · exact absurd (by assumption) hop
      · rfl
    have free : freeTries (w.reaps u) r.opType ≤ w.reaps u := by
      unfold freeTries
      split <;> omega
    omega
  · intro never
    have tries : cfg.tries r.opType ≤ max cfg.maxAttempts 2 := by
      unfold ResolvedDispatcherConfig.tries
      split <;> omega
    have free : freeTries (w.reaps u) r.opType = 0 := by
      unfold freeTries
      split <;> simp [never]
    have count := Deployment.claims_life (s := w.deployment) u
    omega

/-- A create that is tried once and then, after its read-back has missed, once more. -/
def singleAttempt : ResolvedDispatcherConfig := { ResolvedDispatcherConfig.DEFAULTS with maxAttempts := 1 }

theorem retries_bounded_abandoned :
    ∃ w r, Runs (step (fun _ => 0) singleAttempt) (staysTimely singleAttempt) (start 0 [0]) w ∧
      w.deployment.db.row? 7 = some r ∧ w.reaps 7 = 1 ∧ r.attemptCount = 1 ∧
      (w.deployment.life 7).history.countP Event.isCreate = 2 ∧
      (w.deployment.life 7).history.countP Event.isCreate ≤ max singleAttempt.maxAttempts 2 := by
  have h : (exec (step (fun _ => 0) singleAttempt) (staysTimely singleAttempt) (start 0 [0])
      Deployment.abandonedCreate).map (fun w =>
        ((w.deployment.db.row? 7).map fun r => (r.opType, r.attemptCount), w.reaps 7,
          (w.deployment.life 7).history.countP Event.isCreate)) = some (some (.create, 1), 1, 2) := by
    decide
  obtain ⟨w, hw, h⟩ := Option.map_eq_some_iff.1 h
  simp only [Prod.mk.injEq, Option.map_eq_some_iff] at h
  obtain ⟨⟨r, hr, hop, hcount⟩, hreaps, hcreates⟩ := h
  have bounded := retries_bounded (runs_of_exec hw) hr
  exact ⟨w, r, runs_of_exec hw, hr, hreaps, hcount, hcreates, bounded.2.1 hop⟩

end ReapedDeployment

end Provisioning
