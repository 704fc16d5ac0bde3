import Provisioning.Lib.Transition
import Provisioning.Ops.ClaimLoop

/-!
# The rotation of the instances

`computeAvailability` starts its loop at another instance in each cycle. The rate limiters are asked one instance at
a time and the claim orders its rows by priority and age, so the order of the loop is lost.
-/

namespace Provisioning

open Lib

/-! ## The claim -/

/-- Two maps with the same entries, and one entry for each key. -/
def SameEntries (a b : List (String × InstanceAvailability)) : Prop := a.Perm b ∧ (a.map Prod.fst).Nodup

theorem ClaimArgs.caps_perm {limit limit' : Int} {lanes lanes' : List String}
    {a b : List (String × InstanceAvailability)} (h : a.Perm b) :
    (ClaimArgs.mk limit lanes a).caps.Perm (ClaimArgs.mk limit' lanes' b).caps := h.filterMap _

theorem find?_perm {α : Type} {p : α → Bool} {l l' : List α} (h : l.Perm l')
    (one : ∀ x ∈ l, ∀ y ∈ l, p x → p y → x = y) : l.find? p = l'.find? p := by
  cases hx : l.find? p with
  | none =>
    apply Eq.symm
    rw [List.find?_eq_none] at hx ⊢
    exact fun y hy => hx y (h.mem_iff.2 hy)
  | some x =>
    cases hy : l'.find? p with
    | none =>
      rw [List.find?_eq_none] at hy
      exact absurd (List.find?_some hx) (hy x (h.mem_iff.1 (List.mem_of_find?_eq_some hx)))
    | some y =>
      have hmem : y ∈ l := h.mem_iff.2 (List.mem_of_find?_eq_some hy)
      rw [one x (List.mem_of_find?_eq_some hx) y hmem (List.find?_some hx) (List.find?_some hy)]

theorem ClaimArgs.cap?_perm {limit : Int} {lanes : List String} {a b : List (String × InstanceAvailability)}
    (h : SameEntries a b) (instanceId : String) :
    (ClaimArgs.mk limit lanes a).cap? instanceId = (ClaimArgs.mk limit lanes b).cap? instanceId := by
  unfold ClaimArgs.cap?
  apply find?_perm (caps_perm h.1)
  -- A cap is made of the only entry of its instance.
  intro c hc c' hc' hid hid'
  obtain ⟨⟨i, x⟩, hx, hcx⟩ := List.mem_filterMap.1 hc
  obtain ⟨⟨i', x'⟩, hx', hcx'⟩ := List.mem_filterMap.1 hc'
  simp only [Option.ite_none_right_eq_some, Option.some.injEq] at hcx hcx'
  obtain ⟨-, rfl⟩ := hcx
  obtain ⟨-, rfl⟩ := hcx'
  simp only [decide_eq_true_eq] at hid hid'
  have hpair : (i, x) = (i', x') := List.inj_on_of_nodup_map h.2 hx hx' (hid.trans hid'.symm)
  cases hpair
  rfl

section Claim

variable {limit : Int} {lanes : List String} {a b : List (String × InstanceAvailability)}

theorem Snapshot.picked_perm (h : SameEntries a b) (s : Snapshot) :
    s.picked ⟨limit, lanes, a⟩ = s.picked ⟨limit, lanes, b⟩ := by
  have hcap : (ClaimArgs.mk limit lanes a).cap? = (ClaimArgs.mk limit lanes b).cap? :=
    funext (ClaimArgs.cap?_perm h)
  have hcandidates : s.candidates ⟨limit, lanes, a⟩ = s.candidates ⟨limit, lanes, b⟩ := by
    unfold candidates
    rw [hcap]
  have hleaders : s.laneLeaders ⟨limit, lanes, a⟩ = s.laneLeaders ⟨limit, lanes, b⟩ := by
    unfold laneLeaders laneRn
    rw [hcandidates]
  have hwithin : ∀ r, s.withinCaps ⟨limit, lanes, a⟩ r ↔ s.withinCaps ⟨limit, lanes, b⟩ r := by
    intro r
    unfold withinCaps rn classRn
    rw [hleaders, hcap]
  have hcapped : s.capped ⟨limit, lanes, a⟩ = s.capped ⟨limit, lanes, b⟩ := by
    unfold capped
    rw [hleaders]
    exact List.filter_congr fun r _ => decide_eq_decide.2 (hwithin r)
  unfold picked
  rw [hcapped]

theorem OperationStore.claimBatch_perm (h : SameEntries a b) (now : Nat) (tie : Uuid → Nat) (t : Tables) :
    OperationStore.claimBatch ⟨limit, lanes, a⟩ now tie t = OperationStore.claimBatch ⟨limit, lanes, b⟩ now tie t := by
  have hcaps : (ClaimArgs.mk limit lanes a).caps = [] ↔ (ClaimArgs.mk limit lanes b).caps = [] := by
    have hperm := @ClaimArgs.caps_perm limit limit lanes lanes a b h.1
    exact ⟨fun hnil => (hnil ▸ hperm).nil_eq.symm, fun hnil => (hnil ▸ hperm).eq_nil⟩
  unfold OperationStore.claimBatch
  simp only [hcaps, Snapshot.picked_perm h]

end Claim

def Cycle.Alike : Cycle → Cycle → Prop
  | .reaping, .reaping => True
  | .sampling a, .sampling b => SameEntries a b
  | .claiming args, .claiming args' =>
    args.limit = args'.limit ∧ args.activeLaneKeys = args'.activeLaneKeys ∧
      SameEntries args.perInstanceAvailable args'.perInstanceAvailable
  | _, _ => False

/-! ## The offer -/

namespace ClaimLoop

variable {L : Type} {mul : ℚ → ℚ → ℚ} {cfg : LoopConfig} {reg : LoopRegistry} {limiter : RateLimiter L}
  {p q p' : ClaimLoop L}

/-- The scheduling block of every registered instance resolves, and its id is registered once. -/
structure Registered (mul : ℚ → ℚ → ℚ) (reg : LoopRegistry) : Prop where
  nodup : reg.registeredIds.Nodup
  resolves : ∀ instanceId ∈ reg.registeredIds, ∃ c, reg.configOf mul instanceId = .ok c

/-- What the loop of `computeAvailability` does for one instance: its entry, and its limiter afterwards. -/
def offerOne (mul : ℚ → ℚ → ℚ) (reg : LoopRegistry) (limiter : RateLimiter L) (p : ClaimLoop L) (now : Nat)
    (limiters : String → Option L) (instanceId : String) : Option (String × InstanceAvailability) × Option L :=
  match reg.configOf mul instanceId with
  | .error _ | .ok none => (none, limiters instanceId)
  | .ok (some runtime) =>
    if p.totalFree instanceId runtime ≤ 0 then (none, limiters instanceId)
    else
      let consumed := hasRateLimitTokens limiter now instanceId runtime limiters
      (if consumed.1 then some (instanceId, ⟨p.batchFree instanceId runtime, p.totalFree instanceId runtime⟩) else none,
        consumed.2 instanceId)

theorem hasRateLimitTokens_congr {now : Nat} {instanceId : String} {runtime : InstanceBudget}
    {limiters limiters' : String → Option L} (h : limiters instanceId = limiters' instanceId) :
    (hasRateLimitTokens limiter now instanceId runtime limiters).1 =
        (hasRateLimitTokens limiter now instanceId runtime limiters').1 ∧
      (hasRateLimitTokens limiter now instanceId runtime limiters).2 instanceId =
        (hasRateLimitTokens limiter now instanceId runtime limiters').2 instanceId := by
  unfold hasRateLimitTokens
  split
  · exact ⟨rfl, h⟩
  · simp [set, h]

theorem hasRateLimitTokens_other {now : Nat} {instanceId other : String} {runtime : InstanceBudget}
    {limiters : String → Option L} (h : other ≠ instanceId) :
    (hasRateLimitTokens limiter now instanceId runtime limiters).2 other = limiters other := by
  unfold hasRateLimitTokens
  split
  · rfl
  · simp [set, h]

theorem offerOne_congr {now : Nat} {instanceId : String} {limiters limiters' : String → Option L}
    (h : limiters instanceId = limiters' instanceId) :
    p.offerOne mul reg limiter now limiters instanceId = p.offerOne mul reg limiter now limiters' instanceId := by
  unfold offerOne
  split
  · rw [h]
  · rw [h]
  · rename_i runtime _
    obtain ⟨hfirst, hsecond⟩ := @hasRateLimitTokens_congr L limiter now instanceId runtime limiters limiters' h
    simp only [hfirst, hsecond, h]

theorem offerOne_key {now : Nat} {instanceId : String} {limiters : String → Option L}
    {x : String × InstanceAvailability} (h : (p.offerOne mul reg limiter now limiters instanceId).1 = some x) :
    x.1 = instanceId := by
  unfold offerOne at h
  split at h
  · cases h
  · cases h
  · split at h
    · cases h
    · simp only [Option.ite_none_right_eq_some, Option.some.injEq] at h
      exact h.2 ▸ rfl

theorem availabilityFrom_cons {now : Nat} {instanceId : String} {rest : List String} {limiters : String → Option L}
    (resolves : ∃ c, reg.configOf mul instanceId = .ok c) :
    p.availabilityFrom mul reg limiter now (instanceId :: rest) limiters =
      let one := p.offerOne mul reg limiter now limiters instanceId
      let others := p.availabilityFrom mul reg limiter now rest fun id =>
        if id = instanceId then one.2 else limiters id
      (others.1.map (one.1.toList ++ ·), others.2) := by
  have asked {consumed : Bool × (String → Option L)} (h : ∀ id, id ≠ instanceId → consumed.2 id = limiters id) :
      (fun id => if id = instanceId then consumed.2 instanceId else limiters id) = consumed.2 := by
    funext id
    split
    · rename_i hid
      rw [hid]
    · exact (h id ‹_›).symm
  have skipped : (fun id => if id = instanceId then limiters instanceId else limiters id) = limiters :=
    @asked (true, limiters) fun _ _ => rfl
  have unchanged {x : Except Failure (List (String × InstanceAvailability))} :
      x.map (Option.toList (none : Option (String × InstanceAvailability)) ++ ·) = x := by
    cases x <;> rfl
  obtain ⟨c, hc⟩ := resolves
  cases c with
  | none => simp only [availabilityFrom, offerOne, hc, skipped, unchanged]
  | some runtime =>
    simp only [availabilityFrom, offerOne, hc]
    by_cases hfree : p.totalFree instanceId runtime ≤ 0
    · simp only [hfree, if_true, skipped, unchanged]
    · have hasked := asked fun id hid => @hasRateLimitTokens_other L limiter now instanceId id runtime limiters hid
      simp only [hfree, if_false, hasked]
      split
      · rfl
      · rw [unchanged]

theorem availabilityFrom_eq {now : Nat} {ids : List String} (nodup : ids.Nodup)
    (resolves : ∀ instanceId ∈ ids, ∃ c, reg.configOf mul instanceId = .ok c) (limiters : String → Option L) :
    p.availabilityFrom mul reg limiter now ids limiters =
      (.ok (ids.filterMap fun id => (p.offerOne mul reg limiter now limiters id).1),
        fun id => if id ∈ ids then (p.offerOne mul reg limiter now limiters id).2 else limiters id) := by
  induction ids generalizing limiters with
  | nil => simp [availabilityFrom]
  | cons instanceId rest ih =>
    obtain ⟨hnot, nodup⟩ := List.nodup_cons.1 nodup
    have later : ∀ id ∈ rest, p.offerOne mul reg limiter now (fun id =>
        if id = instanceId then (p.offerOne mul reg limiter now limiters instanceId).2 else limiters id) id =
          p.offerOne mul reg limiter now limiters id := by
      intro id hid
      apply offerOne_congr
      rw [if_neg]
      rintro rfl
      exact hnot hid
    rw [availabilityFrom_cons (resolves instanceId List.mem_cons_self)]
    simp only [ih nodup fun id hid => resolves id (List.mem_cons_of_mem _ hid)]
    refine Prod.ext ?_ (funext fun id => ?_)
    · rw [List.filterMap_congr fun id hid => congrArg Prod.fst (later id hid)]
      simp only [Except.map, List.filterMap_cons]
      cases (p.offerOne mul reg limiter now limiters instanceId).1 <;> rfl
    · by_cases hrest : id ∈ rest
      · simp only [hrest, if_true, List.mem_cons, or_true, later id hrest]
      · by_cases hid : id = instanceId
        · simp [hid, hnot]
        · simp [hrest, hid]

/-! ## Two loops that differ in the cursor -/

/-- The same memory, but for the cursor and the order of the entries. -/
def Alike (p q : ClaimLoop L) : Prop :=
  ∃ cursor cycles, q = { p with roundRobinCursor := cursor, cycles := cycles } ∧
    List.Forall₂ Cycle.Alike p.cycles cycles

theorem rotated_perm {ids : List String} {n : Nat} : (ids.drop n ++ ids.take n).Perm ids := by
  apply List.perm_append_comm.trans
  rw [List.take_append_drop]

theorem computeAvailability_eq (registered : Registered mul reg) (p : ClaimLoop L) (now : Nat) :
    ∃ n next, p.computeAvailability mul reg limiter now =
      (.ok ((reg.registeredIds.drop n ++ reg.registeredIds.take n).filterMap fun id =>
          (p.offerOne mul reg limiter now p.limiters id).1),
        { p with
          roundRobinCursor := next
          limiters := fun id =>
            if id ∈ reg.registeredIds then (p.offerOne mul reg limiter now p.limiters id).2 else p.limiters id }) := by
  unfold computeAvailability
  split
  · rename_i hnil
    exact ⟨0, p.roundRobinCursor, by simp [hnil]⟩
  · refine ⟨p.roundRobinCursor % reg.registeredIds.length, p.roundRobinCursor + 1, ?_⟩
    simp only [availabilityFrom_eq (rotated_perm.nodup_iff.2 registered.nodup) fun id hid =>
      registered.resolves id (rotated_perm.mem_iff.1 hid), rotated_perm.mem_iff]

theorem offers_nodup {now : Nat} {ids : List String} (nodup : ids.Nodup) (limiters : String → Option L) :
    ((ids.filterMap fun id => (p.offerOne mul reg limiter now limiters id).1).map Prod.fst).Nodup := by
  have hsub : ((ids.filterMap fun id => (p.offerOne mul reg limiter now limiters id).1).map Prod.fst).Sublist ids := by
    induction ids with
    | nil => exact .slnil
    | cons id rest ih =>
      have ih := ih (List.nodup_cons.1 nodup).2
      rw [List.filterMap_cons]
      split
      · exact ih.cons id
      · rename_i x hone
        rw [List.map_cons, offerOne_key hone]
        exact ih.cons_cons id
  exact nodup.sublist hsub

/-- The entries and the limiters do not depend on where the loop starts. -/
theorem computeAvailability_alike (registered : Registered mul reg) (now cursor : Nat) (cycles : List Cycle) :
    ∃ a b next next' limiters, p.computeAvailability mul reg limiter now =
        (.ok a, { p with roundRobinCursor := next, limiters := limiters }) ∧
      ({ p with roundRobinCursor := cursor, cycles := cycles } : ClaimLoop L).computeAvailability mul reg limiter now =
        (.ok b, { p with roundRobinCursor := next', limiters := limiters, cycles := cycles }) ∧
      SameEntries a b := by
  obtain ⟨n, next, h⟩ := @computeAvailability_eq L mul reg limiter registered p now
  obtain ⟨n', next', h'⟩ := @computeAvailability_eq L mul reg limiter registered
    { p with roundRobinCursor := cursor, cycles := cycles } now
  refine ⟨_, _, next, next', _, h, h', (rotated_perm.trans rotated_perm.symm).filterMap _, ?_⟩
  exact offers_nodup (rotated_perm.nodup_iff.2 registered.nodup) _

theorem beginAll_moved {ops : List ClaimedOperation} {cursor : Nat} {cycles : List Cycle} :
    ({ p with roundRobinCursor := cursor, cycles := cycles } : ClaimLoop L).beginAll ops =
      { p.beginAll ops with roundRobinCursor := cursor, cycles := cycles } := by
  unfold beginAll
  induction ops generalizing p with
  | nil => rfl
  | cons op rest ih => exact @ih (p.begin op)

theorem beginAll_cycles {ops : List ClaimedOperation} : (p.beginAll ops).cycles = p.cycles := by
  unfold beginAll
  induction ops generalizing p with
  | nil => rfl
  | cons op rest ih => exact @ih (p.begin op)

/-! ## Steps -/

section Cycles

variable {cycles cycles' : List Cycle} {k : Nat} {c c' : Cycle}

theorem alike_getElem? (h : List.Forall₂ Cycle.Alike cycles cycles') (hk : cycles[k]? = some c) :
    ∃ c', cycles'[k]? = some c' ∧ c.Alike c' := by
  obtain ⟨hlt, rfl⟩ := List.getElem?_eq_some_iff.1 hk
  have hlt' : k < cycles'.length := h.length_eq ▸ hlt
  exact ⟨cycles'[k], List.getElem?_eq_getElem hlt', h.get hlt hlt'⟩

theorem alike_eraseIdx (h : List.Forall₂ Cycle.Alike cycles cycles') :
    List.Forall₂ Cycle.Alike (cycles.eraseIdx k) (cycles'.eraseIdx k) := by
  rw [List.eraseIdx_eq_take_drop_succ, List.eraseIdx_eq_take_drop_succ]
  exact List.rel_append (List.forall₂_take k h) (List.forall₂_drop (k + 1) h)

theorem alike_set (h : List.Forall₂ Cycle.Alike cycles cycles') (hc : c.Alike c') :
    List.Forall₂ Cycle.Alike (cycles.set k c) (cycles'.set k c') := by
  rw [List.set_eq_take_append_cons_drop, List.set_eq_take_append_cons_drop, h.length_eq]
  split
  · exact List.rel_append (List.forall₂_take k h) (.cons hc (List.forall₂_drop (k + 1) h))
  · exact h

end Cycles

theorem maybeReap_moved {now cursor : Nat} {cycles : List Cycle} :
    ({ p with roundRobinCursor := cursor, cycles := cycles } : ClaimLoop L).maybeReap cfg now =
      { p.maybeReap cfg now with roundRobinCursor := cursor, cycles := cycles } := by
  by_cases hearly : now < p.lastReapAt + cfg.reaperIntervalMs <;> simp [maybeReap, hearly]

theorem offer_alike (registered : Registered mul reg) {k now cursor : Nat} {cycles : List Cycle}
    (h : List.Forall₂ Cycle.Alike p.cycles cycles) :
    (p.offer mul reg limiter k now).Alike
      (({ p with roundRobinCursor := cursor, cycles := cycles } : ClaimLoop L).offer mul reg limiter k now) := by
  obtain ⟨a, b, next, next', limiters, ha, hb, same⟩ :=
    @computeAvailability_alike L mul reg limiter p registered now cursor cycles
  unfold offer
  simp only [ha, hb]
  have hlength := same.1.length_eq
  cases a with
  | nil =>
    obtain rfl := List.length_eq_zero_iff.1 hlength.symm
    exact ⟨next', cycles.eraseIdx k, rfl, alike_eraseIdx h⟩
  | cons x rest =>
    cases b with
    | nil => simp at hlength
    | cons y rest' => exact ⟨next', cycles.set k _, rfl, alike_set h same⟩

/-- **A step does the same from two memories that differ in the cursor.** -/
theorem Alike.step (registered : Registered mul reg) (h : p.Alike q) {a : LoopAction}
    (hp : p.step mul cfg reg limiter a = some p') : ∃ q', q.step mul cfg reg limiter a = some q' ∧ p'.Alike q' := by
  obtain ⟨cursor, cycles, rfl, h⟩ := h
  cases stepped hp with
  | skipped busy => exact ⟨_, by simp [ClaimLoop.step, busy], cursor, cycles, rfl, h⟩
  | @started now idle running =>
    have hidle : ¬ (p.cycleInFlight = true ∨ p.stopped = true) := by simp [idle, running]
    refine ⟨_, by simp only [ClaimLoop.step, maybeReap_moved, if_neg hidle], cursor, cycles ++ [.reaping], rfl, ?_⟩
    exact List.rel_append h (.cons trivial .nil)
  | @reaped k now hk =>
    obtain ⟨c, hc, alike⟩ := alike_getElem? h hk
    cases c <;> try exact absurd alike id
    exact ⟨_, by simp only [ClaimLoop.step, hc]; rfl, offer_alike registered h⟩
  | @sampled k now available hk =>
    obtain ⟨c, hc, alike⟩ := alike_getElem? h hk
    cases c <;> try exact absurd alike id
    rename_i available'
    have alike : (Cycle.claiming ⟨cfg.claimBatchSize, (p.forgetDeferrals now).excludedLanes, available⟩).Alike
        (.claiming ⟨cfg.claimBatchSize, (p.forgetDeferrals now).excludedLanes, available'⟩) := ⟨rfl, rfl, alike⟩
    exact ⟨_, by simp only [ClaimLoop.step, hc]; rfl, cursor, _, rfl, alike_set h alike⟩
  | @claimed k args ops hk =>
    obtain ⟨c, hc, alike⟩ := alike_getElem? h hk
    cases c <;> try exact absurd alike id
    refine ⟨_, by simp only [ClaimLoop.step, hc, beginAll_moved]; rfl, cursor, cycles.eraseIdx k, rfl, ?_⟩
    simp only [endCycle, beginAll_cycles]
    exact alike_eraseIdx h
  | @claimFailed k args hk =>
    obtain ⟨c, hc, alike⟩ := alike_getElem? h hk
    cases c <;> try exact absurd alike id
    exact ⟨_, by simp only [ClaimLoop.step, hc]; rfl, cursor, cycles.eraseIdx k, rfl, alike_eraseIdx h⟩
  | deferLane hi => exact ⟨_, by simp only [ClaimLoop.step, hi, Option.map_some]; rfl, cursor, cycles, rfl, h⟩
  | settled hi => exact ⟨_, by simp only [ClaimLoop.step, hi, Option.map_some]; rfl, cursor, cycles, rfl, h⟩
  | forgotten hi done => exact ⟨_, by simp only [ClaimLoop.step, hi, if_neg done], cursor, cycles, rfl, h⟩
  | stop => exact ⟨_, rfl, cursor, cycles, rfl, h⟩

/-- Instances register while the loop runs, so every step has a registry of its own. -/
def stepIn (mul : ℚ → ℚ → ℚ) (cfg : LoopConfig) (limiter : RateLimiter L) (p : ClaimLoop L)
    (x : LoopRegistry × LoopAction) : Option (ClaimLoop L) :=
  p.step mul cfg x.1 limiter x.2

theorem Alike.exec (h : p.Alike q) {actions : List (LoopRegistry × LoopAction)}
    (registered : ∀ x ∈ actions, Registered mul x.1)
    (run : Lib.exec (stepIn mul cfg limiter) anyStep p actions = some p') :
    ∃ q', Lib.exec (stepIn mul cfg limiter) anyStep q actions = some q' ∧ p'.Alike q' := by
  induction actions generalizing p q with
  | nil =>
    cases run
    exact ⟨q, rfl, h⟩
  | cons x rest ih =>
    simp only [Lib.exec] at run ⊢
    split at run
    · cases run
    · rename_i p₁ hp₁
      obtain ⟨q₁, hq₁, h₁⟩ := h.step (registered x List.mem_cons_self) hp₁
      have hq₁ : stepIn mul cfg limiter q x = some q₁ := hq₁
      rw [if_pos (show anyStep p x p₁ from trivial)] at run
      simp only [hq₁, if_pos (show anyStep q x q₁ from trivial)]
      exact ih h₁ (fun y hy => registered y (List.mem_cons_of_mem _ hy)) run

/-- **The rotation decides nothing.** The same calls and answers take a loop with any other cursor to the same
memory, and every claim of the one takes what the claim of the other takes. -/
theorem rotation_decides_nothing (idle : p.cycles = []) (cursor : Nat)
    {actions : List (LoopRegistry × LoopAction)} (registered : ∀ x ∈ actions, Registered mul x.1)
    (run : Lib.exec (stepIn mul cfg limiter) anyStep p actions = some p') :
    ∃ q', Lib.exec (stepIn mul cfg limiter) anyStep { p with roundRobinCursor := cursor } actions = some q' ∧
      q' = { p' with roundRobinCursor := q'.roundRobinCursor, cycles := q'.cycles } ∧
      ∀ (k : Nat) (args : ClaimArgs), p'.cycles[k]? = some (Cycle.claiming args) →
        ∃ args', q'.cycles[k]? = some (Cycle.claiming args') ∧
          ∀ now tie t, OperationStore.claimBatch args now tie t = OperationStore.claimBatch args' now tie t := by
  have h : p.Alike { p with roundRobinCursor := cursor } := by
    refine ⟨cursor, p.cycles, rfl, ?_⟩
    rw [idle]
    exact .nil
  obtain ⟨q', hq', next, cycles, rfl, hcycles⟩ := h.exec registered run
  refine ⟨_, hq', rfl, fun k args hk => ?_⟩
  obtain ⟨c, hc, alike⟩ := alike_getElem? hcycles hk
  cases c <;> try exact absurd alike id
  rename_i args'
  obtain ⟨limit, lanes, a⟩ := args
  obtain ⟨limit', lanes', b⟩ := args'
  obtain ⟨rfl, rfl, same⟩ := alike
  exact ⟨_, hc, OperationStore.claimBatch_perm same⟩

/-- Half of a budget of 2 is reserved. -/
def halved (registered : List String) : LoopRegistry :=
  ⟨registered, fun _ => some 2, fun _ => ⟨some ⟨1 / 2, "0.5"⟩, ⟨none, none, none⟩⟩⟩

theorem halved_registered {ids : List String} (h : ids.Nodup) : Registered (· * ·) (halved ids) := by
  have hok : Except.isOk ((halved []).configOf (· * ·) "") := by decide +kernel
  refine ⟨h, fun instanceId _ => ?_⟩
  -- All instances have the same configuration.
  change ∃ c, (halved []).configOf (· * ·) "" = .ok c
  cases hconfig : (halved []).configOf (· * ·) "" with
  | ok c => exact ⟨c, rfl⟩
  | error e =>
    rw [hconfig] at hok
    cases hok

/-- A cycle up to its claim. The second instance registers while the cycle reaps. -/
def firstCycle : List (LoopRegistry × LoopAction) :=
  [(halved ["i"], .runCycle 0), (halved ["i", "j"], .reaped 0 0), (halved ["i", "j"], .sampled 0 0)]

theorem firstCycle_registered : ∀ x ∈ firstCycle, Registered (· * ·) x.1 := by
  intro x hx
  simp only [firstCycle, List.mem_cons, List.not_mem_nil, or_false] at hx
  rcases hx with rfl | rfl | rfl <;> exact halved_registered (by decide)

def neverLimited : RateLimiter Unit := ⟨fun _ _ _ => (), fun l _ _ => (true, l)⟩

/-- The entries of the claim. -/
def claimed (p : ClaimLoop Unit) : List (List String) := p.cycles.map fun
  | .claiming args => args.perInstanceAvailable.map Prod.fst
  | _ => []

theorem rotation_decides_nothing_two :
    ∃ p q, Lib.exec (stepIn (· * ·) .DEFAULTS neverLimited) anyStep start firstCycle = some p ∧
      p.claimed = [["i", "j"]] ∧
      Lib.exec (stepIn (· * ·) .DEFAULTS neverLimited) anyStep { start with roundRobinCursor := 1 } firstCycle =
        some q ∧
      q.claimed = [["j", "i"]] ∧
      ∀ (k : Nat) (args : ClaimArgs), p.cycles[k]? = some (Cycle.claiming args) →
        ∃ args', q.cycles[k]? = some (Cycle.claiming args') ∧
          ∀ now tie t, OperationStore.claimBatch args now tie t = OperationStore.claimBatch args' now tie t := by
  have hp : (Lib.exec (stepIn (· * ·) .DEFAULTS neverLimited) anyStep start firstCycle).map claimed =
      some [["i", "j"]] := by
    decide +kernel
  have hq : (Lib.exec (stepIn (· * ·) .DEFAULTS neverLimited) anyStep { start with roundRobinCursor := 1 }
      firstCycle).map claimed = some [["j", "i"]] := by
    decide +kernel
  obtain ⟨p, run, hp⟩ := Option.map_eq_some_iff.1 hp
  obtain ⟨q, hexec, -, hclaims⟩ := rotation_decides_nothing rfl 1 firstCycle_registered run
  rw [hexec, Option.map_some, Option.some.injEq] at hq
  exact ⟨p, q, run, hp, hexec, hq, hclaims⟩

end ClaimLoop

end Provisioning
