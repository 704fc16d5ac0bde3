import Provisioning.Ops.Life

/-!
# A delta that is not idempotent

The dispatcher never requeues such a delta after its call. The reaper does: it makes every stale
row that is no create `PENDING` again.
-/

namespace Provisioning

open Lib

variable {advisoryLockKey : String → BitVec 64} {cfg : ResolvedDispatcherConfig}

/-! ## What a history says -/

def Event.isDeltaCall : Event → Bool
  | .heard (.invoke (.addAttributeValues ..)) _ | .heard (.invoke (.removeAttributeValues ..)) _ => true
  | _ => false

def deltaCalls (history : List Event) : Nat := history.countP Event.isDeltaCall

/-- `capabilitiesOf(instanceId).idempotentDelta` was read, and was true. -/
def Event.declaresIdempotent (instanceId : String) : Event → Bool
  | .heard (.capabilitiesOf i) (caps : ConnectorCapabilities) => i = instanceId && caps.idempotentDelta
  | _ => false

theorem deltaCalls_snoc (history : List Event) (ev : Event) :
    deltaCalls (history ++ [ev]) = deltaCalls history + if ev.isDeltaCall then 1 else 0 := by
  simp [deltaCalls, List.countP_append, List.countP_singleton]

theorem deltaCalls_quiet {history : List Event} {ev : Event} (h : ev.isDeltaCall = false) :
    deltaCalls (history ++ [ev]) = deltaCalls history := by
  simp [deltaCalls_snoc, h]

theorem Event.invoke_of_isDeltaCall {e : Io} {x : e.Answer} (h : (Event.heard e x).isDeltaCall) :
    ∃ m, e = .invoke m := by
  unfold Event.isDeltaCall at h
  split at h
  · rename_i heq
    cases heq
    exact ⟨_, rfl⟩
  · rename_i heq
    cases heq
    exact ⟨_, rfl⟩
  · cases h

/-! ## The invariant -/

theorem Facts.calls_hear {e : Io} {f : Facts} (h : f.calls ≠ []) (x : e.Answer) : (f.hear e x).calls ≠ [] := by
  cases e <;> try exact h
  case configOf => cases x <;> exact h
  all_goals simp [Facts.hear]

namespace Life

/-- Once the call is made, the row waits for no claim, and its attempt makes no other call. -/
structure DeltaSafe (instanceId : String) (l : Life) : Prop where
  once : ∀ r, l.row = some r → r.opType.isDelta → r.instanceId = instanceId → deltaCalls l.history ≤ 1
  spent : ∀ r, l.row = some r → r.opType.isDelta → r.instanceId = instanceId → 0 < deltaCalls l.history →
    r.lockable = none ∧ ∀ op f, l.live = some (op, f) → f.calls ≠ []
  denied : ∀ op f, l.live = some (op, f) → op.instanceId = instanceId → ∀ caps, f.capabilities = some caps →
    caps.idempotentDelta = false

variable {l l' : Life} {instanceId : String}

/-- A requeue or a deferral never follows the call. -/
theorem DeltaSafe.written (inv : l.DeltaSafe instanceId) {op : ClaimedOperation} {f : Facts} {r : Row} {e : Io}
    {o : ResolutionOutcome} {began : Nat} (hl : l.live = some (op, f)) (hr : l.row = some r)
    (hop : op.opType = r.opType ∧ op.instanceId = r.instanceId) (ho : e.outcome = some o)
    (ruled : Ruled cfg op f o) (hdelta : r.opType.isDelta) (hinst : r.instanceId = instanceId)
    (hcalled : 0 < deltaCalls l.history) : (e.write began r).lockable = none := by
  obtain ⟨hlock, hcalls⟩ := inv.spent r hr hdelta hinst hcalled
  have hcalls := hcalls op f hl
  cases e <;> cases ho
  case finalize =>
    simp only [Io.write]
    split
    · exact hlock
    · rfl
  case requeue =>
    rcases ruled with ⟨m, e', -, -, -, hcaps, -⟩ | ⟨hnone, -⟩
    · obtain ⟨caps, hcaps, hidem⟩ := hcaps (hop.1 ▸ hdelta)
      rw [inv.denied op f hl (hop.2.trans hinst) caps hcaps] at hidem
      cases hidem
    · exact absurd hnone hcalls
  case deferForReadback =>
    rw [← hop.1, ruled.1] at hdelta
    cases hdelta

theorem DeltaSafe.step (inv : l.DeltaSafe instanceId) (coherent : l.Coherent) {act : LifeAction}
    (h : Step cfg l act l') (undeclared : ∀ ev ∈ l'.history, ev.declaresIdempotent instanceId = false)
    (spared : act = .reaped → ∀ r, l.row = some r → r.opType.isDelta → r.instanceId = instanceId →
      deltaCalls l.history = 0) : l'.DeltaSafe instanceId := by
  have running {op : ClaimedOperation} {f : Facts} (hl : l.live = some (op, f)) {r : Row} (hr : l.row = some r) :
      (op.opType = r.opType ∧ op.instanceId = r.instanceId) ∧ r.lockable = none := by
    obtain ⟨r₀, p, now, hr₀, rfl, -⟩ := coherent.live _ _ hl
    cases hr.symm.trans hr₀
    exact ⟨⟨rfl, rfl⟩, rfl⟩
  -- The row stays, and no attempt is live.
  have parked {ev : Event} (hev : ev.isDeltaCall = false) :
      ({ l with live := none, history := l.history ++ [ev] } : Life).DeltaSafe instanceId := by
    refine ⟨?_, ?_, by simp⟩
    · simpa only [deltaCalls_quiet hev] using inv.once
    · intro r hr hdelta hinst hcalled
      simp only [deltaCalls_quiet hev] at hcalled
      exact ⟨(inv.spent r hr hdelta hinst hcalled).1, by simp⟩
  cases h with
  | idle => exact inv
  | entered absent =>
    have hnone : deltaCalls l.history = 0 := by rw [coherent.absent absent]; rfl
    refine ⟨fun _ _ _ _ => ?_, fun _ _ _ _ hcalled => ?_, inv.denied⟩
    · simp only [hnone, Nat.zero_le]
    · simp only [hnone, Nat.lt_irrefl] at hcalled
  | @claimed r p now proc delivered hr status waiting free =>
    have hquiet : deltaCalls (l.history ++ [.claimed proc]) = deltaCalls l.history := deltaCalls_quiet rfl
    refine ⟨fun r' hr' hdelta hinst => ?_, fun r' hr' hdelta hinst hcalled => ?_, fun op f hl hinst caps hcaps => ?_⟩
    · cases hr'
      simpa only [hquiet] using inv.once r hr hdelta hinst
    · cases hr'
      simp only [hquiet] at hcalled
      have hlock := (inv.spent r hr hdelta hinst hcalled).1
      rw [Row.lockable_eq_some.2 ⟨status, waiting⟩] at hlock
      cases hlock
    · cases delivered with
      | false => simp at hl
      | true =>
        simp only [if_true, Option.some.injEq, Prod.mk.injEq] at hl
        rw [← hl.2] at hcaps
        cases hcaps
  | @heard op f e x hl allowed quiet =>
    refine ⟨fun r hr hdelta hinst => ?_, fun r hr hdelta hinst hcalled => ?_, fun op' f' hl' hinst caps hcaps => ?_⟩
    · rw [deltaCalls_snoc]
      split
      · rename_i hev
        have hcalls : f.calls = [] := by
          obtain ⟨m, rfl⟩ := Event.invoke_of_isDeltaCall hev
          exact allowed.2.1
        have hzero : ¬ 0 < deltaCalls l.history :=
          fun hcalled => (inv.spent r hr hdelta hinst hcalled).2 op f hl hcalls
        omega
      · exact inv.once r hr hdelta hinst
    · refine ⟨(running hl hr).2, fun op' f' hl' => ?_⟩
      simp only [Option.some.injEq, Prod.mk.injEq] at hl'
      obtain ⟨rfl, rfl⟩ := hl'
      by_cases hold : 0 < deltaCalls l.history
      · exact Facts.calls_hear ((inv.spent r hr hdelta hinst hold).2 op f hl) x
      · have hev : (Event.heard e x).isDeltaCall := by
          rw [deltaCalls_snoc] at hcalled
          split at hcalled
          · assumption
          · omega
        obtain ⟨m, rfl⟩ := Event.invoke_of_isDeltaCall hev
        simp [Facts.hear]
    · simp only [Option.some.injEq, Prod.mk.injEq] at hl'
      obtain ⟨rfl, rfl⟩ := hl'
      rcases Facts.capabilities_hear hcaps with hcaps | ⟨i, heq⟩
      · exact inv.denied op f hl hinst caps hcaps
      · cases heq
        have := undeclared _ (List.mem_append_right _ List.mem_cons_self)
        have hi : i = op.instanceId := allowed
        simpa [Event.declaresIdempotent, hi, hinst] using this
  | @wrote op f r e o began current hl hr ho ruled =>
    have hquiet : deltaCalls (l.history ++ [.wrote e true current]) = deltaCalls l.history := deltaCalls_quiet rfl
    have hsame := (Io.change_write e began r).sameOperation
    refine ⟨fun r' hr' hdelta hinst => ?_, fun r' hr' hdelta hinst hcalled => ⟨?_, by simp⟩, by simp⟩
    · cases hr'
      simpa only [hquiet] using inv.once r hr (hsame.opType ▸ hdelta) (hsame.instanceId.symm.trans hinst)
    · cases hr'
      simp only [hquiet] at hcalled
      exact inv.written hl hr (running hl hr).1 ho ruled (hsame.opType ▸ hdelta)
        (hsame.instanceId.symm.trans hinst) hcalled
  | writeLost => exact parked rfl
  | died => exact parked rfl
  | @reaped r notBefore hr status free =>
    have hsame : r.SameOperation (if r.opType = .create then r.deferred notBefore else r.reaped) := by
      split <;> constructor <;> rfl
    refine ⟨fun r' hr' hdelta hinst => ?_, fun r' hr' hdelta hinst hcalled => ?_, inv.denied⟩
    · cases hr'
      exact inv.once r hr (hsame.opType ▸ hdelta) (hsame.instanceId.symm.trans hinst)
    · cases hr'
      have hzero := spared rfl r hr (hsame.opType ▸ hdelta) (hsame.instanceId.symm.trans hinst)
      simp only [hzero, Nat.lt_irrefl] at hcalled

end Life

/-! ## The result -/

namespace Deployment

variable (cfg) (instanceId : String)

/-- The capabilities of the instance were never read as idempotent. -/
def NeverIdempotent (s : Deployment) : Prop :=
  ∀ ent ∈ s.log, ent.event.declaresIdempotent instanceId = false

instance (s : Deployment) : Decidable (s.NeverIdempotent instanceId) :=
  inferInstanceAs (Decidable (∀ ent ∈ s.log, _))

/-- Timely runs over an instance whose deltas are not idempotent. -/
def staysTimelyWithout (s : Deployment) (a : Action) (s' : Deployment) : Prop :=
  staysTimely cfg s a s' ∧ s'.NeverIdempotent instanceId

instance (s : Deployment) (a : Action) (s' : Deployment) :
    Decidable (staysTimelyWithout cfg instanceId s a s') := inferInstanceAs (Decidable (_ ∧ _))

/-- The reaper finds no delta of the instance whose call was made. -/
def sparesDeltas (s : Deployment) : Action → Bool
  | .reap _ began seen =>
    decide (∀ r ∈ s.db.tables.operations, r.id ∈ seen → r.stale cfg.reaperThresholdMs began →
      r.opType.isDelta → r.instanceId = instanceId → deltaCalls (s.life r.id).history = 0)
  | _ => true

variable {cfg instanceId} {s : Deployment}

/-- **At most one call of a delta**, in the runs in which the reaper spares those that were called. -/
theorem delta_called_once {now : Nat} {partitions : List Nat}
    (run : Runs (step advisoryLockKey cfg)
      (fun s a s' => staysTimelyWithout cfg instanceId s a s' ∧ s.sparesDeltas cfg instanceId a)
      (start now partitions) s) {u : Uuid} {r : Row} (hr : s.db.row? u = some r) (delta : r.opType.isDelta)
    (hinst : r.instanceId = instanceId) : deltaCalls (s.life u).history ≤ 1 := by
  have inv := life_run (Life.DeltaSafe instanceId) run (fun _ _ _ h => h.1.1) ⟨by simp, by simp, by simp⟩ ?_
  · exact (inv.2.2 u).2.once r hr delta hinst
  · rintro s a s' u act ⟨⟨-, never⟩, spares⟩ hstep hreaped coherent inv
    refine inv.step coherent hstep (fun ev hev => ?_) fun hact r hr hdelta hinst => ?_
    · obtain ⟨ent, hent, rfl⟩ := List.mem_map.1 hev
      exact never ent (List.mem_filter.1 hent).1
    · have hreaps := hreaped hact
      unfold Action.reaps at hreaps
      split at hreaps
      · obtain ⟨r', hr', hseen, hstale⟩ := hreaps
        cases hr.symm.trans hr'
        obtain ⟨hmem, rfl⟩ := lookup_some_mem hr
        exact of_decide_eq_true spares r hmem hseen hstale hdelta hinst
      · cases hreaps

/-- A process dies in the call, the row is reaped, and the next attempt makes the call again. -/
def replayedDelta : List Action :=
  submitted 1 (request .addValues) 7 ++ claimedBy 1 1 7 ++
    replied 0 [.lease (.ok ()), .config (.ok (some someRuntime)), .time 0, .done] ++
    [.die 1, .database (.tick 600001), .reap 2000 600001 [7]] ++ claimedBy 2 2 7 ++
    replied 0 [.lease (.ok ()), .config (.ok (some someRuntime)), .time 0, .done]

theorem delta_called_twice :
    ∃ s r, Runs (step (fun _ => 0) .DEFAULTS) (staysTimelyWithout .DEFAULTS "i") (start 0 [0]) s ∧
      s.db.row? 7 = some r ∧ r.opType = .addValues ∧ r.instanceId = "i" ∧ ¬ deltaCalls (s.life 7).history ≤ 1 := by
  have h : (exec (step (fun _ => 0) .DEFAULTS) (staysTimelyWithout .DEFAULTS "i") (start 0 [0]) replayedDelta).map
      (fun s => ((s.db.row? 7).map fun r => (r.opType, r.instanceId), deltaCalls (s.life 7).history)) =
      some (some (.addValues, "i"), 2) := by
    decide
  obtain ⟨s, hs, h⟩ := Option.map_eq_some_iff.1 h
  simp only [Prod.mk.injEq, Option.map_eq_some_iff] at h
  obtain ⟨⟨r, hr, hop, hinst⟩, hcalls⟩ := h
  exact ⟨s, r, runs_of_exec hs, hr, hop, hinst, by omega⟩

/-- The same, with a process that dies before the call. -/
def resumedDelta : List Action :=
  submitted 1 (request .addValues) 7 ++ claimedBy 1 1 7 ++ replied 0 [.lease (.ok ())] ++
    [.die 1, .database (.tick 600001), .reap 2000 600001 [7]] ++ claimedBy 2 2 7 ++
    replied 0 [.lease (.ok ()), .config (.ok (some someRuntime)), .time 0, .done,
      .settled (.error (.connector .connectionFailed true "reset")), .capabilities ⟨true, false, true⟩]

theorem delta_called_once_resumed :
    ∃ s, exec (step (fun _ => 0) .DEFAULTS)
        (fun s a s' => staysTimelyWithout .DEFAULTS "i" s a s' ∧ s.sparesDeltas .DEFAULTS "i" a)
        (start 0 [0]) resumedDelta = some s ∧ claimsOf s.log 7 = 2 ∧ deltaCalls (s.life 7).history ≤ 1 := by
  have h : (exec (step (fun _ => 0) .DEFAULTS)
      (fun s a s' => staysTimelyWithout .DEFAULTS "i" s a s' ∧ s.sparesDeltas .DEFAULTS "i" a)
      (start 0 [0]) resumedDelta).map
      (fun s => (claimsOf s.log 7, (s.db.row? 7).map fun r => (r.opType, r.instanceId))) =
      some (2, some (.addValues, "i")) := by
    decide
  obtain ⟨s, hs, h⟩ := Option.map_eq_some_iff.1 h
  simp only [Prod.mk.injEq, Option.map_eq_some_iff] at h
  obtain ⟨hclaims, r, hr, hop, hinst⟩ := h
  have delta : r.opType.isDelta := by rw [hop]; rfl
  exact ⟨s, hs, hclaims, delta_called_once (runs_of_exec hs) hr delta hinst⟩

end Deployment

end Provisioning
