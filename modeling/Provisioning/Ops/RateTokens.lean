import Provisioning.Ops.FleetSlots
import Provisioning.Ops.WatchedLoop

/-!
# What a token pays for

A cycle takes one token of each instance that it offers, and comes back from the store with any number
of its operations. The tokens are counted in the limiter.
-/

namespace Provisioning

open Lib

variable {L : Type}

/-! ## Counting tokens -/

/-- The limiter, with the tokens that it has granted. -/
def RateLimiter.counting (limiter : RateLimiter L) : RateLimiter (L × Nat) where
  new capacity perSecond now := (limiter.new capacity perSecond now, 0)
  tryConsume l n now :=
    let consumed := limiter.tryConsume l.1 n now
    (consumed.1, consumed.2, if consumed.1 then l.2 + n else l.2)

namespace ClaimLoop

variable {mul : ℚ → ℚ → ℚ} {cfg : LoopConfig} {reg : LoopRegistry} {limiter : RateLimiter L}
  {p : ClaimLoop (L × Nat)} {limiters : String → Option (L × Nat)} {i : String}

/-- The tokens that the limiter of an instance has granted. -/
def grantedBy (limiters : String → Option (L × Nat)) (i : String) : Nat := (limiters i).elim 0 Prod.snd

def granted (p : ClaimLoop (L × Nat)) (i : String) : Nat := grantedBy p.limiters i

/-- The instance declares a rate limit. -/
def Limited (mul : ℚ → ℚ → ℚ) (reg : LoopRegistry) (i : String) : Prop :=
  ∀ runtime, reg.configOf mul i = .ok (some runtime) → configuredLimit runtime.rateLimits ≠ none

variable (limiter limiters i) in
/-- A token is paid for by the instance that asked for it. -/
theorem grantedBy_hasRateLimitTokens (now : Nat) (j : String) (runtime : InstanceBudget) :
    grantedBy limiters i ≤ grantedBy (hasRateLimitTokens limiter.counting now j runtime limiters).2 i ∧
      (j = i → configuredLimit runtime.rateLimits ≠ none →
        (hasRateLimitTokens limiter.counting now j runtime limiters).1 →
        grantedBy limiters i + 1 ≤ grantedBy (hasRateLimitTokens limiter.counting now j runtime limiters).2 i) := by
  unfold hasRateLimitTokens
  split
  · rename_i hnone
    exact ⟨le_rfl, fun _ hsome => absurd hnone hsome⟩
  · rename_i configured _
    dsimp only
    generalize hl : (limiters j).getD (limiter.counting.new _ _ now) = l
    by_cases hij : j = i
    · subst hij
      have hold : grantedBy limiters j = l.2 := by
        rw [← hl, grantedBy]
        cases limiters j <;> rfl
      have hnew : grantedBy (set limiters j (limiter.counting.tryConsume l 1 now).2) j =
          if (limiter.tryConsume l.1 1 now).1 then l.2 + 1 else l.2 := by
        simp [grantedBy, set, RateLimiter.counting]
      rw [hold, hnew]
      refine ⟨by split <;> omega, fun _ _ hgranted => ?_⟩
      exact (if_pos hgranted).ge
    · simp [grantedBy, set, hij, Ne.symm hij]

variable (limiter limiters) in
theorem grantedBy_availabilityFrom (limited : Limited mul reg i) (now : Nat) (ids : List String) :
    grantedBy limiters i ≤ grantedBy (p.availabilityFrom mul reg limiter.counting now ids limiters).2 i ∧
      ∀ available, (p.availabilityFrom mul reg limiter.counting now ids limiters).1 = .ok available →
        i ∈ available.map Prod.fst →
        grantedBy limiters i + 1 ≤ grantedBy (p.availabilityFrom mul reg limiter.counting now ids limiters).2 i := by
  induction ids generalizing limiters with
  | nil => simp [availabilityFrom]
  | cons j rest ih =>
    simp only [availabilityFrom]
    split
    · simp
    · exact ih _
    · rename_i runtime hconfig
      split
      · exact ih _
      · obtain ⟨hle, hpaid⟩ := grantedBy_hasRateLimitTokens limiter limiters i now j runtime
        obtain ⟨hrest, hothers⟩ := ih (hasRateLimitTokens limiter.counting now j runtime limiters).2
        split
        · rename_i hgranted
          refine ⟨hle.trans hrest, fun available hok hmem => ?_⟩
          obtain ⟨others, hout, rfl⟩ := ok_of_map hok
          rw [List.map_cons, List.mem_cons] at hmem
          rcases hmem with rfl | hmem
          · exact (hpaid rfl (limited runtime hconfig) hgranted).trans hrest
          · exact (Nat.add_le_add_right hle 1).trans (hothers others hout hmem)
        · exact ⟨hle.trans hrest, fun available hok hmem =>
            (Nat.add_le_add_right hle 1).trans (hothers available hok hmem)⟩

variable (limiter p) in
theorem granted_computed (limited : Limited mul reg i) (now : Nat) :
    p.granted i ≤ (p.computeAvailability mul reg limiter.counting now).2.granted i ∧
      ∀ available, (p.computeAvailability mul reg limiter.counting now).1 = .ok available →
        i ∈ available.map Prod.fst →
        p.granted i + 1 ≤ (p.computeAvailability mul reg limiter.counting now).2.granted i := by
  unfold computeAvailability
  split
  · simp
  · exact grantedBy_availabilityFrom _ _ limited now _

/-! ## Offers -/

def offersTo (c : Cycle) (i : String) : Bool := i ∈ c.offers.map Prod.fst

/-- The cycles that have taken a token of the instance and not come back. -/
def offersOut (p : ClaimLoop (L × Nat)) (i : String) : Nat := p.cycles.countP fun c => offersTo c i

theorem offersOut_eraseIdx {k : Nat} {c : Cycle} (hk : p.cycles[k]? = some c) :
    p.offersOut i = (p.cycles.eraseIdx k).countP (fun c => offersTo c i) + if offersTo c i then 1 else 0 := by
  obtain ⟨hlt, rfl⟩ := List.getElem?_eq_some_iff.1 hk
  unfold offersOut
  rw [← (List.getElem_cons_eraseIdx_perm hlt).countP_eq, List.countP_cons]

theorem offersOut_set (c' : Cycle) {k : Nat} {c : Cycle} (hk : p.cycles[k]? = some c) :
    (p.cycles.set k c').countP (fun c => offersTo c i) + (if offersTo c i then 1 else 0) =
      p.offersOut i + if offersTo c' i then 1 else 0 := by
  obtain ⟨hlt, rfl⟩ := List.getElem?_eq_some_iff.1 hk
  have hle := List.boole_getElem_le_countP (p := (fun c => offersTo c i)) hlt
  unfold offersOut
  rw [List.countP_set hlt]
  omega

end ClaimLoop

/-! ## Paid claims -/

namespace WatchedLoop

variable {mul : ℚ → ℚ → ℚ} {cfg : LoopConfig} {limiter : RateLimiter L} {w w' : WatchedLoop (L × Nat)} {i : String}

/-- The operations of an instance that were claimed for execution. -/
def claimedOf (w : WatchedLoop L) (i : String) : Nat := w.claimed.countP fun op => op.instanceId = i

/-- What was claimed and what may still be claimed is paid for. -/
def Paid (w : WatchedLoop (L × Nat)) (i : String) : Prop := w.claimedOf i + w.loop.offersOut i ≤ w.loop.granted i

/-- The instance declares a rate limit whenever the loop looks. -/
def limited (mul : ℚ → ℚ → ℚ) (i : String) : Action → Prop
  | .tick _ => True
  | .loop reg _ => ClaimLoop.Limited mul reg i

/-- An answer of the store holds at most one operation of the instance. -/
def oneAnAnswer (i : String) : Action → Prop
  | .tick _ => True
  | .loop _ a => (returned a).countP (fun op => op.instanceId = i) ≤ 1

instance (i : String) (a : Action) : Decidable (oneAnAnswer i a) :=
  match a with
  | .tick _ => .isTrue trivial
  | .loop _ a => inferInstanceAs (Decidable ((returned a).countP _ ≤ 1))

def paysEach (mul : ℚ → ℚ → ℚ) (i : String) (w : WatchedLoop (L × Nat)) (a : Action)
    (w' : WatchedLoop (L × Nat)) : Prop :=
  claimsAllowed w a w' ∧ limited mul i a ∧ oneAnAnswer i a

theorem Paid.quiet (inv : w.Paid i) (claimed : w'.claimed = w.claimed ++ [])
    (offers : w'.loop.offersOut i ≤ w.loop.offersOut i) (granted : w'.loop.granted i = w.loop.granted i) :
    w'.Paid i := by
  unfold Paid claimedOf at inv ⊢
  rw [claimed, List.append_nil, granted]
  exact (Nat.add_le_add_left offers _).trans inv

theorem Paid.offer {reg : LoopRegistry} {k now : Nat} (inv : w.Paid i) (limited : ClaimLoop.Limited mul reg i)
    (hk : w.loop.cycles[k]? = some .reaping) (claimed : w'.claimed = w.claimed ++ [])
    (loop : w'.loop = w.loop.offer mul reg limiter.counting k now) : w'.Paid i := by
  obtain ⟨hle, hpaid⟩ := ClaimLoop.granted_computed limiter w.loop limited now
  obtain ⟨-, hcycles, -⟩ := ClaimLoop.computeAvailability_same mul reg limiter.counting w.loop now
  unfold Paid claimedOf at inv ⊢
  rw [claimed, List.append_nil, loop]
  have returned : w.claimed.countP (fun op => op.instanceId = i) +
      ((w.loop.computeAvailability mul reg limiter.counting now).2.endCycle k).offersOut i ≤
      ((w.loop.computeAvailability mul reg limiter.counting now).2.endCycle k).granted i := by
    have herase := ClaimLoop.offersOut_eraseIdx (i := i) hk
    rw [← hcycles] at herase
    change _ + ((w.loop.computeAvailability mul reg limiter.counting now).2.cycles.eraseIdx k).countP _ ≤
      (w.loop.computeAvailability mul reg limiter.counting now).2.granted i
    omega
  unfold ClaimLoop.offer
  dsimp only
  split
  · exact returned
  · exact returned
  · rename_i available _ hok
    have hset := ClaimLoop.offersOut_set (i := i) (.sampling available) hk
    have hreaping : ClaimLoop.offersTo .reaping i = false := rfl
    change _ + (w.loop.cycles.set k (.sampling available)).countP _ ≤
      (w.loop.computeAvailability mul reg limiter.counting now).2.granted i
    by_cases hoffer : ClaimLoop.offersTo (.sampling available) i
    · have hgranted := hpaid available hok (of_decide_eq_true hoffer)
      simp only [hreaping, hoffer, if_true, Bool.false_eq_true, if_false] at hset
      omega
    · simp only [hreaping, hoffer, Bool.false_eq_true, if_false] at hset
      omega

theorem Paid.claim {k : Nat} {args : ClaimArgs} {ops : List ClaimedOperation} (inv : w.Paid i)
    (hk : w.loop.cycles[k]? = some (.claiming args)) (allowed : args.MayReturn ops)
    (one : ops.countP (fun op => op.instanceId = i) ≤ 1) (claimed : w'.claimed = w.claimed ++ ops)
    (loop : w'.loop = (w.loop.beginAll ops).endCycle k) : w'.Paid i := by
  obtain ⟨hcycles, hlimiters, -⟩ := ClaimLoop.beginAll_kept (p := w.loop) ops
  have herase := ClaimLoop.offersOut_eraseIdx (i := i) hk
  have offered : ops.countP (fun op => op.instanceId = i) ≤ if ClaimLoop.offersTo (.claiming args) i then 1 else 0 := by
    rcases allowed.within i with hnone | ⟨c, hcap, -⟩
    · omega
    · obtain ⟨offer, hmem, -⟩ := ClaimArgs.cap?_some hcap
      have hoffers : ClaimLoop.offersTo (.claiming args) i := decide_eq_true (List.mem_map_of_mem hmem)
      rwa [if_pos hoffers]
  have hgranted : w'.loop.granted i = w.loop.granted i := by
    rw [loop]
    exact congrArg (ClaimLoop.grantedBy · i) hlimiters
  have houts : w'.loop.offersOut i = (w.loop.cycles.eraseIdx k).countP fun c => ClaimLoop.offersTo c i := by
    rw [loop]
    exact congrArg (fun cycles : List Cycle => (cycles.eraseIdx k).countP _) hcycles
  unfold Paid claimedOf at inv ⊢
  rw [hgranted, houts, claimed, List.countP_append]
  omega

theorem Paid.step {a : Action} (inv : w.Paid i) (h : Stepped mul cfg limiter.counting w a w')
    (good : paysEach mul i w a w') : w'.Paid i := by
  obtain ⟨allowed, limited, one⟩ := good
  cases h with
  | tick => exact inv
  | loop enabled h =>
    cases h with
    | skipped | deferLane | settled | forgotten | stop => exact inv.quiet rfl le_rfl rfl
    | @started now =>
      refine inv.quiet rfl ?_ ?_
      · simp [ClaimLoop.offersOut, ClaimLoop.offersTo, Cycle.offers]
      · unfold ClaimLoop.maybeReap
        split <;> rfl
    | reaped hk => exact inv.offer limited hk rfl rfl
    | @sampled k now available hk =>
      have hset := ClaimLoop.offersOut_set (i := i)
        (.claiming ⟨cfg.claimBatchSize, (w.loop.forgetDeferrals now).excludedLanes, available⟩) hk
      exact inv.quiet rfl (Nat.add_right_cancel hset).le rfl
    | @claimed k args ops hk => exact inv.claim hk (allowed args hk) one rfl rfl
    | @claimFailed k args hk =>
      have herase := ClaimLoop.offersOut_eraseIdx (i := i) hk
      refine inv.quiet rfl ?_ rfl
      change (w.loop.cycles.eraseIdx k).countP _ ≤ _
      omega

/-- **A rate limit bounds dispatch** in the runs in which a token pays for one operation. -/
theorem claimed_within_tokens {now : Nat}
    (run : Runs (step mul cfg limiter.counting) (paysEach mul i) (start now) w) :
    w.claimedOf i ≤ w.loop.granted i := by
  have paid : w.Paid i := by
    refine run.invariant (Paid · i) ?_ fun _ _ _ inv h good => inv.step (stepped h) good
    simp [Paid, claimedOf, start, ClaimLoop.start, ClaimLoop.offersOut, ClaimLoop.granted, ClaimLoop.grantedBy]
  unfold Paid at paid
  omega

/-! ## One token, two operations -/

/-- A bucket of tokens that is refilled as time goes by. -/
structure Bucket where
  capacity : ℚ
  perSecond : ℚ
  tokens : ℚ
  filledAt : Nat

def tokenBucket : RateLimiter Bucket where
  new capacity perSecond now := ⟨capacity, perSecond, capacity, now⟩
  tryConsume b n now :=
    let refilled := b.tokens + b.perSecond * ((now - b.filledAt : Nat) / 1000)
    let tokens := if b.capacity ≤ refilled then b.capacity else refilled
    if n ≤ tokens then (true, { b with tokens := tokens - n, filledAt := now })
    else (false, { b with tokens := tokens, filledAt := now })

/-- Two slots, and one request a second. -/
def oneRequest : LoopRegistry := ⟨["hr"], fun _ => some 2, fun _ => ⟨some ⟨0, "0"⟩, ⟨some ⟨1, 1000⟩, none, none⟩⟩⟩

def waiting (id : Uuid) (laneKey : String) : Row :=
  ⟨id, "hr", "User", .create, .interactive, .live .pending, laneKey, none, some laneKey, none, none, none, 0, 0, none,
    none, laneKey, none⟩

def twoWait : Snapshot := ⟨[waiting 7 "ada", waiting 8 "bob"], 0, fun _ => 0⟩

def claims (ids : List Uuid) : List Script :=
  [.act (.loop oneRequest (.runCycle 0)), .act (.loop oneRequest (.reaped 0 0)), .act (.loop oneRequest (.sampled 0 0)),
    .answer oneRequest ids]

theorem limited_oneRequest {mul : ℚ → ℚ → ℚ} : ClaimLoop.Limited mul oneRequest "hr" := by
  intro runtime h
  unfold LoopRegistry.configOf at h
  obtain ⟨c, hc, heq⟩ := ok_of_map h
  have hlimits : c.rateLimits = ⟨some ⟨1, 1000⟩, none, none⟩ := by
    unfold resolveSchedulingConfig at hc
    cases hf : parseSliceFraction (oneRequest.schedulingOf "hr").interactiveSliceFraction with
    | error e => simp [hf, bind, Except.bind] at hc
    | ok fraction =>
      rw [hf] at hc
      rw [← Except.ok.inj hc]
      rfl
  rw [← Option.some.inj heq]
  simp [ClaimLoop.configuredLimit, hlimits]

theorem limited_claims {mul : ℚ → ℚ → ℚ} (ids : List Uuid) : ∀ x ∈ claims ids, limited mul "hr" (x.action twoWait) := by
  intro x hx
  simp only [claims, List.mem_cons, List.not_mem_nil, or_false] at hx
  rcases hx with rfl | rfl | rfl | rfl <;> exact limited_oneRequest

/-- Two operations are claimed, and the limiter has granted one token. -/
theorem one_token_two_operations :
    ∃ w, Runs (step (· * ·) .DEFAULTS tokenBucket.counting)
        (fun w a w' => claimsAllowed w a w' ∧ limited (· * ·) "hr" a) (start 0) w ∧
      w.claimedOf "hr" = 2 ∧ w.loop.granted "hr" = 1 ∧ ¬ w.claimedOf "hr" ≤ w.loop.granted "hr" := by
  have h : (exec (served (· * ·) .DEFAULTS tokenBucket.counting twoWait) anyStep (start 0) (claims [7, 8])).map
      (fun w => (w.claimedOf "hr", w.loop.granted "hr")) = some (2, 1) := by
    decide +kernel
  obtain ⟨w, hw, heq⟩ := Option.map_eq_some_iff.1 h
  obtain ⟨hclaimed, hgranted⟩ := Prod.mk.inj heq
  exact ⟨w, runs_of_served (by decide) (limited_claims _) hw, hclaimed, hgranted, by omega⟩

theorem claimed_within_tokens_one :
    ∃ w, Runs (step (· * ·) .DEFAULTS tokenBucket.counting) (paysEach (· * ·) "hr") (start 0) w ∧
      w.claimedOf "hr" = 1 ∧ w.claimedOf "hr" ≤ w.loop.granted "hr" := by
  have h : (exec (served (· * ·) .DEFAULTS tokenBucket.counting twoWait) anyStep (start 0) (claims [7])).map
      (claimedOf · "hr") = some 1 := by
    decide +kernel
  obtain ⟨w, hw, hclaimed⟩ := Option.map_eq_some_iff.1 h
  have one : ∀ x ∈ claims [7], oneAnAnswer "hr" (x.action twoWait) := by decide
  have run : Runs (step (· * ·) .DEFAULTS tokenBucket.counting) (paysEach (· * ·) "hr") (start 0) w :=
    runs_of_served (by decide) (fun x hx => ⟨limited_claims _ x hx, one x hx⟩) hw
  exact ⟨w, run, hclaimed, claimed_within_tokens run⟩

end WatchedLoop

end Provisioning
