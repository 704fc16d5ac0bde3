import Provisioning.Ops.Fates
import Provisioning.Ops.Fleet
import Provisioning.Ops.ReservedSlice

/-!
# The claim loops of a fleet

A claim of the fleet returns to a claim loop what its arguments allow. So each process keeps to its
budgets, whatever the others do.
-/

namespace Provisioning

open Lib

theorem Db.Stepped.claim_fresh {advisoryLockKey : String → BitVec 64} {db db' : Db} {sid caller : Nat}
    {args : ClaimArgs} {tie : Uuid → Nat} (h : db.Stepped advisoryLockKey (.beginClaim sid caller args tie) db') :
    db.claim? sid = none := by
  cases h with
  | beginClaim fresh => exact fresh

theorem ClaimArgs.mayReturn_nil {args : ClaimArgs} : args.MayReturn [] :=
  ⟨⟨[], 0, fun _ => 0⟩, [], List.nodup_nil, List.nodup_nil, by simp, rfl⟩

namespace Fleet

variable {L : Type} {advisoryLockKey : String → BitVec 64} {cfg : ResolvedDispatcherConfig} {mul : ℚ → ℚ → ℚ}
  {loopCfg : LoopConfig} {limiter : RateLimiter L} {registry : Nat → LoopRegistry} {s s' : Fleet L} {act : FleetAction}
  {proc : Nat}

/-- The registry of a process does not change. -/
def keepsRegistry (registry : Nat → LoopRegistry) (_ : Fleet L) (act : FleetAction) (_ : Fleet L) : Prop :=
  match act with
  | .loop proc reg _ => reg = registry proc
  | _ => True

/-! ## The cycle that awaits a claim -/

theorem args?_eq_some {k : Nat} {args : ClaimArgs} :
    s.args? proc k = some args ↔ (s.loops proc).cycles[k]? = some (.claiming args) := by
  unfold args?
  split
  · rename_i args' h
    rw [h]
    simp
  · rename_i hnone
    constructor
    · intro h
      simp at h
    · intro h
      exact absurd h (hnone args)

theorem claiming_kept {reg : LoopRegistry} {a : ClaimLoop.LoopAction} {p : ClaimLoop L} {args : ClaimArgs}
    (inv : (s.loops proc).Budgeted mul reg) (may : s.mayStep proc a)
    (h : (s.loops proc).step mul loopCfg reg limiter a = some p) (hargs : s.args? proc 0 = some args) :
    p.cycles[0]? = some (.claiming args) := by
  have hc := args?_eq_some.1 hargs
  obtain ⟨hflag, hcycles, -⟩ := ClaimLoop.OneCycle.at inv.guard hc
  -- No cycle awaits anything but the claim.
  have only {k : Nat} {c : Cycle} (hk : (s.loops proc).cycles[k]? = some c) : c = .claiming args := by
    have hc' := (ClaimLoop.OneCycle.at inv.guard hk).2.1
    rw [hcycles] at hc'
    exact (List.cons.inj hc').1.symm
  cases ClaimLoop.stepped h with
  | skipped | settled | forgotten | stop => exact hc
  | started idle => simp [hflag] at idle
  | reaped hk | sampled hk => exact absurd (only hk) (by simp)
  | claimed | claimFailed | deferLane => simp [mayStep] at may

/-! ## Who awaits what -/

theorem awaits_setLoop {p : ClaimLoop L} (hp : ∀ sid args, s.sent proc = some sid →
      (s.loops proc).cycles[0]? = some (.claiming args) → p.cycles[0]? = some (.claiming args)) (q sid : Nat)
    (hsent : (s.setLoop proc p).sent q = some sid) :
    s.sent q = some sid ∧ ∀ args, (s.loops q).cycles[0]? = some (.claiming args) →
      ((s.setLoop proc p).loops q).cycles[0]? = some (.claiming args) := by
  refine ⟨hsent, fun args hc => ?_⟩
  unfold setLoop
  dsimp only
  split
  · rename_i hq
    subst hq
    exact hp sid args hsent hc
  · exact hc

theorem awaits_heard {p : ClaimLoop L} (q sid : Nat)
    (hsent : ((s.setLoop proc p).setSent proc none).sent q = some sid) :
    s.sent q = some sid ∧ ∀ args, (s.loops q).cycles[0]? = some (.claiming args) →
      (((s.setLoop proc p).setSent proc none).loops q).cycles[0]? = some (.claiming args) := by
  unfold setSent setLoop at hsent ⊢
  dsimp only at hsent ⊢
  split at hsent
  · simp at hsent
  · rename_i hq
    rw [if_neg hq]
    exact ⟨hsent, fun _ hc => hc⟩

/-! ## The runs of the loops -/

/-- Each loop has run as a loop does on its own, and a statement in flight has the arguments that its
caller awaits it with. -/
structure LoopsRun (mul : ℚ → ℚ → ℚ) (loopCfg : LoopConfig) (limiter : RateLimiter L) (registry : Nat → LoopRegistry)
    (s : Fleet L) : Prop where
  wf : s.db.WellFormed
  sound : s.db.ClaimsSound
  runs : ∀ proc, Runs (ClaimLoop.step mul loopCfg (registry proc) limiter) ClaimLoop.claimsAllowed ClaimLoop.start
    (s.loops proc)
  issued : ∀ c ∈ s.db.claims, s.sent c.caller = some c.sid →
    (s.loops c.caller).cycles[0]? = some (.claiming c.args)

namespace LoopsRun

theorem budgeted (inv : s.LoopsRun mul loopCfg limiter registry) (proc : Nat) :
    (s.loops proc).Budgeted mul (registry proc) :=
  (inv.runs proc).invariant _ ClaimLoop.budgeted_start fun _ _ _ inv h allowed => inv.step h allowed

theorem first (inv : s.LoopsRun mul loopCfg limiter registry) {k : Nat} {args : ClaimArgs}
    (hargs : s.args? proc k = some args) : k = 0 :=
  (ClaimLoop.OneCycle.at (inv.budgeted proc).guard (args?_eq_some.1 hargs)).2.2

theorem still (inv : s.LoopsRun mul loopCfg limiter registry) (hdb : s'.db = s.db)
    (runs : ∀ q, Runs (ClaimLoop.step mul loopCfg (registry q) limiter) ClaimLoop.claimsAllowed ClaimLoop.start
      (s'.loops q))
    (awaits : ∀ q sid, s'.sent q = some sid → s.sent q = some sid ∧
      ∀ args, (s.loops q).cycles[0]? = some (.claiming args) → (s'.loops q).cycles[0]? = some (.claiming args)) :
    s'.LoopsRun mul loopCfg limiter registry := by
  refine ⟨hdb ▸ inv.wf, hdb ▸ inv.sound, runs, fun c hc hsent => ?_⟩
  rw [hdb] at hc
  obtain ⟨hold, hkept⟩ := awaits c.caller c.sid hsent
  exact hkept _ (inv.issued c hc hold)

theorem next (inv : s.LoopsRun mul loopCfg limiter registry)
    (hdb : s'.db = s.db ∨ ∃ b, s.db.Stepped advisoryLockKey b s'.db ∧
      ∀ sid caller args tie, b ≠ .beginClaim sid caller args tie)
    (runs : ∀ q, Runs (ClaimLoop.step mul loopCfg (registry q) limiter) ClaimLoop.claimsAllowed ClaimLoop.start
      (s'.loops q))
    (awaits : ∀ q sid, s'.sent q = some sid → s.sent q = some sid ∧
      ∀ args, (s.loops q).cycles[0]? = some (.claiming args) → (s'.loops q).cycles[0]? = some (.claiming args)) :
    s'.LoopsRun mul loopCfg limiter registry := by
  rcases hdb with hdb | ⟨b, hdb, hother⟩
  · exact inv.still hdb runs awaits
  · refine ⟨inv.wf.step hdb, inv.sound.step inv.wf hdb, runs, fun c' hc' hsent => ?_⟩
    rcases hdb.claim_origin hc' with ⟨c, hc, hsid, hcaller, hargs, -⟩ | ⟨tie, hb, -⟩
    · rw [hcaller, hsid] at hsent
      rw [hcaller, hargs]
      obtain ⟨hold, hkept⟩ := awaits c.caller c.sid hsent
      exact hkept _ (inv.issued c hc hold)
    · exact absurd hb (hother _ _ _ _)

theorem runs_setLoop (inv : s.LoopsRun mul loopCfg limiter registry) {a : ClaimLoop.LoopAction} {p : ClaimLoop L}
    (h : (s.loops proc).step mul loopCfg (registry proc) limiter a = some p)
    (allowed : ClaimLoop.claimsAllowed (s.loops proc) a p) (q : Nat) :
    Runs (ClaimLoop.step mul loopCfg (registry q) limiter) ClaimLoop.claimsAllowed ClaimLoop.start
      ((s.setLoop proc p).loops q) := by
  unfold setLoop
  dsimp only
  split
  · rename_i hq
    subst hq
    exact (inv.runs q).next h allowed
  · exact inv.runs q

theorem step (inv : s.LoopsRun mul loopCfg limiter registry)
    (h : Stepped advisoryLockKey cfg mul loopCfg limiter s act s') (keeps : keepsRegistry registry s act s') :
    s'.LoopsRun mul loopCfg limiter registry := by
  cases h with
  | deployment alone h => exact inv.next (standsAlone_db alone h) inv.runs fun _ _ h => ⟨h, fun _ hc => hc⟩
  | @loop proc reg a p alive may h =>
    obtain rfl : reg = registry proc := keeps
    have allowed : ClaimLoop.claimsAllowed (s.loops proc) a p := by
      cases a with
      | claimed => simp [mayStep] at may
      | _ => trivial
    refine inv.still rfl (inv.runs_setLoop h allowed) (awaits_setLoop fun _ args _ hc => ?_)
    exact claiming_kept (inv.budgeted proc) may h (args?_eq_some.2 hc)
  | @begun proc sid k tie args d hargs idle h =>
    obtain rfl := inv.first hargs
    have hdb := beginClaim_db h
    refine ⟨inv.wf.step hdb, inv.sound.step inv.wf hdb, inv.runs, fun c' hc' hsent => ?_⟩
    unfold setSent at hsent ⊢
    dsimp only at hsent ⊢
    rcases hdb.claim_origin hc' with ⟨c, hc, hsid, hcaller, hcargs, -⟩ | ⟨tie', hb, -⟩
    · rw [hcaller, hsid] at hsent
      rw [hcaller, hcargs]
      split at hsent
      · -- The number of the new statement is not that of an old one.
        rw [Option.some.injEq] at hsent
        exact absurd (hsent ▸ List.mem_map_of_mem hc) (lookup_none_iff.1 hdb.claim_fresh)
      · exact inv.issued c hc hsent
    · cases hb
      exact args?_eq_some.1 hargs
  | @turnedAway proc k args hargs alive idle early =>
    refine inv.still rfl (inv.runs_setLoop (a := .claimed k []) ?_ ?_) (awaits_setLoop fun sid _ hsent _ => ?_)
    · simp only [ClaimLoop.step, args?_eq_some.1 hargs]
      rfl
    · exact fun args _ => ClaimArgs.mayReturn_nil
    · rw [idle] at hsent
      simp at hsent
  | @claimFailed proc k args hargs alive =>
    refine inv.still rfl (inv.runs_setLoop (a := .claimFailed k) ?_ trivial) awaits_heard
    simp only [ClaimLoop.step, args?_eq_some.1 hargs]
  | lost hc h =>
    exact inv.next (.inr ⟨_, commitClaim_db h, by simp⟩) inv.runs fun _ _ h => ⟨h, fun _ hc => hc⟩
  | @delivered sid k c args d hc hsent hargs h =>
    obtain rfl := inv.first hargs
    obtain ⟨hmem, rfl⟩ := lookup_some_mem hc
    refine inv.next (.inr ⟨_, commitClaim_db h, by simp⟩)
      (inv.runs_setLoop (a := .claimed 0 ((s.db.returned c.sid).map fun r => r.1.toClaimed r.2)) ?_ ?_) awaits_heard
    · simp only [ClaimLoop.step, args?_eq_some.1 hargs]
    · intro args' hargs'
      rw [inv.issued c hmem hsent] at hargs'
      cases hargs'
      exact inv.sound.mayReturn inv.wf hc
  | @deferred i j att t until' k d hi asks hj own h =>
    refine inv.still (reply_db h) (inv.runs_setLoop (a := .deferLane j until') ?_ trivial)
      (awaits_setLoop (p := (s.loops att.proc).deferLane t.op.laneKey until') fun _ _ _ hc => hc)
    simp only [ClaimLoop.step, hj, Option.map_some]

end LoopsRun

theorem loopsRun_start (now : Nat) (partitions : List Nat) :
    (start now partitions : Fleet L).LoopsRun mul loopCfg limiter registry where
  wf := Db.wellFormed_start now partitions
  sound := by
    intro c hc
    simp [start, db, Deployment.start, Db.start] at hc
  runs _ := .start
  issued := by
    intro c hc
    simp [start, db, Deployment.start, Db.start] at hc

variable {now : Nat} {partitions : List Nat}

theorem loopsRun_run
    (run : Runs (step advisoryLockKey cfg mul loopCfg limiter) (keepsRegistry registry) (start now partitions) s) :
    s.LoopsRun mul loopCfg limiter registry :=
  run.invariant _ (loopsRun_start now partitions) fun _ _ _ inv h keeps => inv.step (stepped h) keeps

/-- **In a fleet a claim loop runs as on its own.** What the store returns to it is what it may return. -/
theorem loop_run
    (run : Runs (step advisoryLockKey cfg mul loopCfg limiter) (keepsRegistry registry) (start now partitions) s)
    (proc : Nat) :
    Runs (ClaimLoop.step mul loopCfg (registry proc) limiter) ClaimLoop.claimsAllowed ClaimLoop.start (s.loops proc) :=
  (loopsRun_run run).runs proc

/-- **Each process keeps to its budgets**, whatever the others do. -/
theorem slots_kept
    (run : Runs (step advisoryLockKey cfg mul loopCfg limiter) (keepsRegistry registry) (start now partitions) s)
    {i : String} {runtime : InstanceBudget} (h : (registry proc).configOf mul i = .ok (some runtime)) :
    (s.loops proc).inFlightOf i ≤ runtime.mutationConcurrency ∧
      (s.loops proc).batchInFlightOf i ≤ runtime.mutationConcurrency - runtime.interactiveSlots := by
  have within := ((loopsRun_run run).budgeted proc).within_of_config h
  have hslots := (ClaimLoop.configOf_ok h).1
  exact ⟨within.total, hslots ▸ within.batch⟩

end Fleet

end Provisioning
