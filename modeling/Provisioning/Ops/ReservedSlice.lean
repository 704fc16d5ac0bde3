import Mathlib.Data.List.Perm.Basic
import Provisioning.Ops.ClaimLoop

/-!
# The budget and its reserved slice

The counters of a claim loop count its tasks, and an instance never has more tasks than its budget,
nor more batch tasks than the budget less the interactive slice.
-/

namespace Provisioning

open Lib

theorem ok_of_map {ε α β : Type} {f : α → β} {x : Except ε α} {b : β} (h : x.map f = .ok b) :
    ∃ a, x = .ok a ∧ f a = b := by
  cases x with
  | error e => cases h
  | ok a =>
    cases h
    exact ⟨a, rfl, rfl⟩

/-- What a cycle goes to the store with. -/
def Cycle.offers : Cycle → List (String × InstanceAvailability)
  | .reaping => []
  | .sampling available => available
  | .claiming args => args.perInstanceAvailable

theorem ClaimArgs.cap?_some {args : ClaimArgs} {i : String} {c : Cap} (h : args.cap? i = some c) :
    ∃ offered, (i, offered) ∈ args.perInstanceAvailable ∧ c.cap = offered.totalFree ∧
      c.batchCap = max 0 (min offered.batchFree offered.totalFree) := by
  have hid : c.instanceId = i := by simpa using List.find?_some h
  obtain ⟨⟨instanceId, offered⟩, hmem, hc⟩ := List.mem_filterMap.1 (List.mem_of_find?_eq_some h)
  simp only [Option.ite_none_right_eq_some, Option.some.injEq] at hc
  obtain ⟨-, rfl⟩ := hc
  exact ⟨offered, hid ▸ hmem, rfl, rfl⟩

namespace ClaimLoop

variable {L : Type} {mul : ℚ → ℚ → ℚ} {cfg : LoopConfig} {reg : LoopRegistry} {limiter : RateLimiter L}
  {p p' : ClaimLoop L} {i : String}

/-! ## Counting tasks -/

def tally (p : ClaimLoop L) (sel : ClaimedOperation → Bool) : Int := p.tasks.countP fun t => sel t.op

/-- The operations of an instance that are in flight. -/
def inFlightOf (p : ClaimLoop L) (i : String) : Int := p.tally fun op => op.instanceId = i

/-- The batch operations among them. -/
def batchInFlightOf (p : ClaimLoop L) (i : String) : Int :=
  p.tally fun op => op.instanceId = i ∧ op.priority = .batch

theorem tally_nonneg {sel : ClaimedOperation → Bool} : 0 ≤ p.tally sel := by
  unfold tally
  omega

theorem batchInFlightOf_le : p.batchInFlightOf i ≤ p.inFlightOf i := by
  unfold batchInFlightOf inFlightOf tally
  apply Int.ofNat_le.2
  apply List.countP_mono_left
  intro t _ h
  simp only [decide_eq_true_eq] at h ⊢
  exact h.1

theorem tally_begin (sel : ClaimedOperation → Bool) (op : ClaimedOperation) :
    (p.begin op).tally sel = p.tally sel + if sel op then 1 else 0 := by
  unfold tally begin
  simp only [List.countP_append, List.countP_singleton, Nat.cast_add]
  split <;> rfl

theorem tally_beginAll (sel : ClaimedOperation → Bool) (ops : List ClaimedOperation) :
    (p.beginAll ops).tally sel = p.tally sel + ops.countP sel := by
  induction ops generalizing p with
  | nil => simp [beginAll]
  | cons op rest ih =>
    have hrest : (p.beginAll (op :: rest)).tally sel = (p.begin op).tally sel + rest.countP sel := ih
    rw [hrest, tally_begin, List.countP_cons]
    split <;> push_cast <;> omega

theorem inFlightOf_beginAll (ops : List ClaimedOperation) :
    (p.beginAll ops).inFlightOf i = p.inFlightOf i + ops.countP fun op => op.instanceId = i :=
  tally_beginAll _ ops

theorem batchInFlightOf_beginAll (ops : List ClaimedOperation) :
    (p.beginAll ops).batchInFlightOf i =
      p.batchInFlightOf i + ops.countP fun op => op.instanceId = i ∧ op.priority = .batch :=
  tally_beginAll _ ops

theorem tally_settle (sel : ClaimedOperation → Bool) {k : Nat} {t : Task} (h : p.tasks[k]? = some t) :
    p.tally sel = (p.settle k t).tally sel + if sel t.op then 1 else 0 := by
  obtain ⟨hlt, rfl⟩ := List.getElem?_eq_some_iff.1 h
  unfold tally settle
  rw [← (List.getElem_cons_eraseIdx_perm hlt).countP_eq, List.countP_cons]
  push_cast
  rfl

/-! ## Counters -/

/-- The counters count the tasks. -/
structure Counted (p : ClaimLoop L) : Prop where
  running : ∀ i, (p.running i).getD 0 = p.inFlightOf i
  batch : ∀ i, (p.runningBatch i).getD 0 = p.batchInFlightOf i

theorem set_raised (map : String → Option Int) (key i : String) :
    (set map key (raised (map key)) i).getD 0 = (map i).getD 0 + if key = i then 1 else 0 := by
  unfold set raised
  by_cases h : key = i
  · subst h
    simp
  · rw [if_neg (Ne.symm h), if_neg h, Int.add_zero]

theorem lowered_of_pos {x : Option Int} (h : 0 < x.getD 0) : lowered x = x.getD 0 - 1 := by
  cases x with
  | none => exact absurd h (by simp)
  | some n =>
    simp only [Option.getD_some] at h
    simp only [lowered, Option.getD_some]
    omega

theorem set_lowered {map : String → Option Int} {key : String} (i : String) (h : 0 < (map key).getD 0) :
    (map i).getD 0 = (set map key (lowered (map key)) i).getD 0 + if key = i then 1 else 0 := by
  rw [lowered_of_pos h]
  unfold set
  by_cases hi : key = i
  · subst hi
    simp
  · rw [if_neg (Ne.symm hi), if_neg hi, Int.add_zero]

theorem Counted.begin (h : p.Counted) (op : ClaimedOperation) : (p.begin op).Counted := by
  constructor
  · intro i
    have htally := tally_begin (p := p) (fun op => op.instanceId = i) op
    have hset := set_raised p.running op.instanceId i
    have hold := h.running i
    unfold inFlightOf at hold ⊢
    simp only [decide_eq_true_eq] at htally
    rw [htally, ← hold]
    exact hset
  · intro i
    have htally := tally_begin (p := p) (fun op => op.instanceId = i ∧ op.priority = .batch) op
    have hold := h.batch i
    unfold batchInFlightOf at hold ⊢
    rw [htally, ← hold]
    by_cases hbatch : op.priority = .batch
    · have hset := set_raised p.runningBatch op.instanceId i
      simp only [ClaimLoop.begin, hbatch, if_true, and_true, decide_eq_true_eq]
      exact hset
    · simp [ClaimLoop.begin, hbatch]

theorem Counted.beginAll (h : p.Counted) (ops : List ClaimedOperation) : (p.beginAll ops).Counted := by
  induction ops generalizing p with
  | nil => exact h
  | cons op rest ih => exact ih (h.begin op)

theorem Counted.pos (h : p.Counted) {t : Task} (ht : t ∈ p.tasks) :
    0 < (p.running t.op.instanceId).getD 0 ∧
      (t.op.priority = .batch → 0 < (p.runningBatch t.op.instanceId).getD 0) := by
  rw [h.running, h.batch]
  unfold inFlightOf batchInFlightOf tally
  refine ⟨?_, fun hbatch => ?_⟩
  · exact Int.natCast_pos.2 (List.countP_pos_iff.2 ⟨t, ht, by simp⟩)
  · exact Int.natCast_pos.2 (List.countP_pos_iff.2 ⟨t, ht, by simp [hbatch]⟩)

theorem Counted.settle (h : p.Counted) {k : Nat} {t : Task} (ht : p.tasks[k]? = some t) :
    (p.settle k t).Counted := by
  have hpos := h.pos (List.mem_of_getElem? ht)
  constructor
  · intro i
    have htally := tally_settle (fun op => op.instanceId = i) ht
    have hset := set_lowered i hpos.1
    have hold := h.running i
    unfold inFlightOf at hold ⊢
    simp only [decide_eq_true_eq] at htally
    have hcounter : ((p.settle k t).running i) =
        ClaimLoop.set p.running t.op.instanceId (lowered (p.running t.op.instanceId)) i := rfl
    rw [hcounter]
    omega
  · intro i
    have htally := tally_settle (fun op => op.instanceId = i ∧ op.priority = .batch) ht
    have hold := h.batch i
    unfold batchInFlightOf at hold ⊢
    by_cases hbatch : t.op.priority = .batch
    · have hset := set_lowered i (hpos.2 hbatch)
      have hcounter : ((p.settle k t).runningBatch i) =
          ClaimLoop.set p.runningBatch t.op.instanceId (lowered (p.runningBatch t.op.instanceId)) i := by
        simp only [ClaimLoop.settle, hbatch, if_true]
      simp only [hbatch, and_true, decide_eq_true_eq] at htally
      rw [hcounter]
      omega
    · have hcounter : (p.settle k t).runningBatch = p.runningBatch := by
        simp only [ClaimLoop.settle, hbatch, if_false]
      simp only [hbatch, and_false, decide_false, Bool.false_eq_true, if_false] at htally
      rw [hcounter]
      omega

/-! ## Cycles -/

/-- The tasks and their counters are as before. -/
structure SameTasks (p p' : ClaimLoop L) : Prop where
  tasks : p'.tasks = p.tasks
  running : p'.running = p.running
  runningBatch : p'.runningBatch = p.runningBatch

theorem SameTasks.tally (h : p.SameTasks p') (sel : ClaimedOperation → Bool) : p'.tally sel = p.tally sel := by
  unfold ClaimLoop.tally
  rw [h.tasks]

theorem SameTasks.inFlightOf (h : p.SameTasks p') : p'.inFlightOf i = p.inFlightOf i := h.tally _

theorem SameTasks.batchInFlightOf (h : p.SameTasks p') : p'.batchInFlightOf i = p.batchInFlightOf i := h.tally _

theorem SameTasks.counted (h : p.SameTasks p') (counted : p.Counted) : p'.Counted := by
  refine ⟨fun i => ?_, fun i => ?_⟩
  · rw [h.running, h.inFlightOf, counted.running]
  · rw [h.runningBatch, h.batchInFlightOf, counted.batch]

variable (mul cfg reg limiter p) in
theorem computeAvailability_same (now : Nat) :
    p.SameTasks (p.computeAvailability mul reg limiter now).2 ∧
      (p.computeAvailability mul reg limiter now).2.cycles = p.cycles ∧
      (p.computeAvailability mul reg limiter now).2.cycleInFlight = p.cycleInFlight := by
  unfold computeAvailability
  split <;> exact ⟨⟨rfl, rfl, rfl⟩, rfl, rfl⟩

def OneCycle (p : ClaimLoop L) : Prop := ∀ c ∈ p.cycles, p.cycleInFlight ∧ p.cycles = [c]

theorem OneCycle.at (inv : p.OneCycle) {k : Nat} {c : Cycle} (hk : p.cycles[k]? = some c) :
    p.cycleInFlight ∧ p.cycles = [c] ∧ k = 0 := by
  obtain ⟨hflag, hcycles⟩ := inv c (List.mem_of_getElem? hk)
  rw [hcycles] at hk
  cases k with
  | zero => exact ⟨hflag, hcycles, rfl⟩
  | succ k => simp at hk

theorem OneCycle.ended (inv : p.OneCycle) {k : Nat} {c : Cycle} (hk : p.cycles[k]? = some c)
    (hcycles : p'.cycles = p.cycles) : (p'.endCycle k).cycles = [] := by
  obtain ⟨-, hone, rfl⟩ := inv.at hk
  unfold endCycle
  rw [hcycles, hone]
  rfl

theorem OneCycle.step {a : LoopAction} (inv : p.OneCycle) (h : Stepped mul cfg reg limiter p a p') :
    p'.OneCycle := by
  cases h with
  | skipped | deferLane | settled | forgotten | stop => exact inv
  | started idle =>
    have hcycles : p.cycles = [] := by
      refine List.eq_nil_iff_forall_not_mem.2 fun c hc => ?_
      simp [(inv c hc).1] at idle
    simp [OneCycle, hcycles]
  | @reaped k now hk =>
    obtain ⟨-, hsame, hflag'⟩ := computeAvailability_same mul reg limiter p now
    have hnil := inv.ended hk hsame
    obtain ⟨hflag, hcycles, rfl⟩ := inv.at hk
    unfold offer
    dsimp only
    split
    · simp [OneCycle, hnil]
    · simp [OneCycle, hnil]
    · simp [OneCycle, hcycles, hflag', hflag]
  | sampled hk =>
    obtain ⟨hflag, hcycles, rfl⟩ := inv.at hk
    simp [OneCycle, claim, forgetDeferrals, hcycles, hflag]
  | @claimed k _ ops hk => simp [OneCycle, inv.ended hk (beginAll_kept ops).1]
  | claimFailed hk => simp [OneCycle, inv.ended hk rfl]

/-! ## The budget -/

variable (mul reg) in
/-- The instance has a budget and has not used it up. -/
structure WithinBudget (p : ClaimLoop L) (i : String) (runtime : InstanceBudget) : Prop where
  config : reg.configOf mul i = .ok (some runtime)
  total : p.inFlightOf i ≤ runtime.mutationConcurrency
  batch : p.batchInFlightOf i ≤ runtime.batchSlots

variable (mul reg) in
/-- What an instance was offered is still free. -/
structure Room (p : ClaimLoop L) (i : String) (offered : InstanceAvailability) : Prop where
  budget : ∃ runtime, reg.configOf mul i = .ok (some runtime) ∧
    p.inFlightOf i + offered.totalFree ≤ runtime.mutationConcurrency ∧
    p.batchInFlightOf i + offered.batchFree ≤ runtime.batchSlots
  total : 0 < offered.totalFree
  batch : 0 ≤ offered.batchFree

variable (mul reg) in
structure Budgeted (p : ClaimLoop L) : Prop where
  counted : p.Counted
  within : ∀ i, p.inFlightOf i = 0 ∨ ∃ runtime, p.WithinBudget mul reg i runtime
  /-- There is one cycle at a time. -/
  guard : ∀ c ∈ p.cycles, p.cycleInFlight ∧ p.cycles = [c]
  room : ∀ c ∈ p.cycles, ∀ x ∈ c.offers, p.Room mul reg x.1 x.2

theorem configOf_ok {runtime : InstanceBudget} (h : reg.configOf mul i = .ok (some runtime)) :
    runtime.batchSlots = runtime.mutationConcurrency - runtime.interactiveSlots ∧ 0 ≤ runtime.batchSlots ∧
      runtime.batchSlots ≤ runtime.mutationConcurrency := by
  unfold LoopRegistry.configOf at h
  split at h
  · cases h
  · obtain ⟨c, hc, heq⟩ := ok_of_map h
    cases heq
    exact resolveSchedulingConfig_ok hc

/-- Without a budget there is nothing in flight, so whoever has one is within it. -/
theorem Budgeted.within_of_config (inv : p.Budgeted mul reg) {runtime : InstanceBudget}
    (h : reg.configOf mul i = .ok (some runtime)) : p.WithinBudget mul reg i runtime := by
  rcases inv.within i with hnone | ⟨runtime', hwithin⟩
  · have hbatch := batchInFlightOf_le (p := p) (i := i)
    have hok := configOf_ok h
    exact ⟨h, by omega, by omega⟩
  · have hconfig := hwithin.config
    rw [h] at hconfig
    cases hconfig
    exact hwithin

/-- The clamp of the batch budget does not act. -/
theorem Budgeted.batchFree_eq (inv : p.Budgeted mul reg) {runtime : InstanceBudget}
    (h : reg.configOf mul i = .ok (some runtime)) :
    p.batchFree i runtime =
      min (runtime.batchSlots - p.batchInFlightOf i) (runtime.mutationConcurrency - p.inFlightOf i) := by
  have hwithin := inv.within_of_config h
  have htotal := hwithin.total
  have hbatch := hwithin.batch
  unfold batchFree totalFree
  rw [inv.counted.running, inv.counted.batch]
  omega

theorem Budgeted.room_of_free (inv : p.Budgeted mul reg) {runtime : InstanceBudget}
    (h : reg.configOf mul i = .ok (some runtime)) (hfree : ¬ p.totalFree i runtime ≤ 0) :
    p.Room mul reg i ⟨p.batchFree i runtime, p.totalFree i runtime⟩ := by
  have hwithin := inv.within_of_config h
  have htotal := hwithin.total
  have hbatch := hwithin.batch
  have hfree' : p.totalFree i runtime = runtime.mutationConcurrency - p.inFlightOf i := by
    unfold totalFree
    rw [inv.counted.running]
  have heq := inv.batchFree_eq h
  constructor
  · exact ⟨runtime, h, by dsimp only; omega, by dsimp only; omega⟩
  · exact not_le.1 hfree
  · dsimp only
    omega

theorem Budgeted.room_of_available (inv : p.Budgeted mul reg) {now : Nat} {ids : List String}
    {limiters : String → Option L} {out : List (String × InstanceAvailability)}
    (h : (p.availabilityFrom mul reg limiter now ids limiters).1 = .ok out) :
    ∀ x ∈ out, p.Room mul reg x.1 x.2 := by
  induction ids generalizing limiters out with
  | nil =>
    cases h
    simp
  | cons i rest ih =>
    simp only [availabilityFrom] at h
    split at h
    · cases h
    · exact ih h
    · rename_i runtime hconfig
      split at h
      · exact ih h
      · rename_i hfree
        split at h
        · obtain ⟨others, hothers, rfl⟩ := ok_of_map h
          intro x hx
          rcases List.mem_cons.1 hx with rfl | hx
          · exact inv.room_of_free hconfig hfree
          · exact ih hothers x hx
        · exact ih h

/-! ## Steps -/

theorem WithinBudget.of_le {runtime : InstanceBudget} (h : p.WithinBudget mul reg i runtime)
    (htotal : p'.inFlightOf i ≤ p.inFlightOf i) (hbatch : p'.batchInFlightOf i ≤ p.batchInFlightOf i) :
    p'.WithinBudget mul reg i runtime :=
  ⟨h.config, htotal.trans h.total, hbatch.trans h.batch⟩

theorem Room.of_le {offered : InstanceAvailability} (h : p.Room mul reg i offered)
    (htotal : p'.inFlightOf i ≤ p.inFlightOf i) (hbatch : p'.batchInFlightOf i ≤ p.batchInFlightOf i) :
    p'.Room mul reg i offered := by
  obtain ⟨⟨runtime, hconfig, hr, hb⟩, hpos, hnonneg⟩ := h
  exact ⟨⟨runtime, hconfig, by omega, by omega⟩, hpos, hnonneg⟩

theorem Budgeted.offering (inv : p.Budgeted mul reg) (same : p.SameTasks p') (guard : p'.OneCycle)
    (room : ∀ c ∈ p'.cycles, ∀ x ∈ c.offers, p.Room mul reg x.1 x.2) : p'.Budgeted mul reg := by
  refine ⟨same.counted inv.counted, fun i => ?_, guard, fun c hc x hx => ?_⟩
  · rw [same.inFlightOf]
    refine (inv.within i).imp_right ?_
    rintro ⟨runtime, hwithin⟩
    exact ⟨runtime, hwithin.of_le same.inFlightOf.le same.batchInFlightOf.le⟩
  · exact (room c hc x hx).of_le same.inFlightOf.le same.batchInFlightOf.le

theorem Budgeted.ended (inv : p.Budgeted mul reg) (same : p.SameTasks p') (hcycles : p'.cycles = []) :
    p'.Budgeted mul reg := by
  refine inv.offering same ?_ ?_ <;> simp [OneCycle, hcycles]

theorem Budgeted.room_of_computed (inv : p.Budgeted mul reg) {now : Nat}
    {out : List (String × InstanceAvailability)}
    (h : (p.computeAvailability mul reg limiter now).1 = .ok out) : ∀ x ∈ out, p.Room mul reg x.1 x.2 := by
  unfold computeAvailability at h
  split at h
  · cases h
    simp
  · exact inv.room_of_available h

theorem Budgeted.offer (inv : p.Budgeted mul reg) {k now : Nat} {c : Cycle} (hc : p.cycles[k]? = some c)
    (guard : (p.offer mul reg limiter k now).OneCycle) : (p.offer mul reg limiter k now).Budgeted mul reg := by
  obtain ⟨same, hsame, -⟩ := computeAvailability_same mul reg limiter p now
  have ended : (p.computeAvailability mul reg limiter now).2.endCycle k |>.Budgeted mul reg :=
    inv.ended ⟨same.tasks, same.running, same.runningBatch⟩ (OneCycle.ended inv.guard hc hsame)
  unfold ClaimLoop.offer at guard ⊢
  dsimp only at guard ⊢
  split
  · exact ended
  · exact ended
  · rename_i available _ hok
    refine inv.offering ⟨same.tasks, same.running, same.runningBatch⟩ (by simpa [hok] using guard) ?_
    obtain ⟨-, hcycles, rfl⟩ := OneCycle.at inv.guard hc
    simp only [hcycles, List.set_cons_zero, List.mem_singleton, forall_eq]
    exact inv.room_of_computed hok

theorem Budgeted.claim (inv : p.Budgeted mul reg) {k now : Nat} {available : List (String × InstanceAvailability)}
    (hc : p.cycles[k]? = some (.sampling available)) (guard : (p.claim cfg k now available).OneCycle) :
    (p.claim cfg k now available).Budgeted mul reg := by
  have hroom := inv.room _ (List.mem_of_getElem? hc)
  obtain ⟨-, hcycles, rfl⟩ := OneCycle.at inv.guard hc
  refine inv.offering ⟨rfl, rfl, rfl⟩ guard ?_
  simp only [ClaimLoop.claim, hcycles, List.set_cons_zero, List.mem_singleton, forall_eq]
  exact hroom

theorem Budgeted.claimed (inv : p.Budgeted mul reg) {k : Nat} {args : ClaimArgs} {ops : List ClaimedOperation}
    (hc : p.cycles[k]? = some (.claiming args)) (allowed : args.MayReturn ops) :
    ((p.beginAll ops).endCycle k).Budgeted mul reg := by
  have hroom := inv.room _ (List.mem_of_getElem? hc)
  have hnil := OneCycle.ended inv.guard hc (beginAll_kept ops).1
  have same : (p.beginAll ops).SameTasks ((p.beginAll ops).endCycle k) := ⟨rfl, rfl, rfl⟩
  refine ⟨same.counted (inv.counted.beginAll ops), fun i => ?_, by simp [hnil], by simp [hnil]⟩
  have htotal : ((p.beginAll ops).endCycle k).inFlightOf i = _ := same.inFlightOf.trans (inFlightOf_beginAll ops)
  have hbatch : ((p.beginAll ops).endCycle k).batchInFlightOf i = _ :=
    same.batchInFlightOf.trans (batchInFlightOf_beginAll ops)
  rcases allowed.within i with hnone | ⟨c, hcap, hcount, hbatchCount⟩
  · have hnoBatch : ops.countP (fun op => op.instanceId = i ∧ op.priority = .batch) = 0 := by
      rw [List.countP_eq_zero] at hnone ⊢
      intro op hop h
      simp only [decide_eq_true_eq] at h
      exact hnone op hop (decide_eq_true h.1)
    rw [hnone] at htotal
    rw [hnoBatch] at hbatch
    refine (inv.within i).imp (fun h => by omega) ?_
    rintro ⟨runtime, hwithin⟩
    exact ⟨runtime, hwithin.of_le (by omega) (by omega)⟩
  · obtain ⟨offered, hmem, hcapEq, hbatchEq⟩ := ClaimArgs.cap?_some hcap
    obtain ⟨⟨runtime, hconfig, htotalRoom, hbatchRoom⟩, hpos, hnonneg⟩ := hroom _ hmem
    dsimp only at hconfig htotalRoom hbatchRoom hpos hnonneg
    exact .inr ⟨runtime, hconfig, by omega, by omega⟩

theorem Budgeted.settled (inv : p.Budgeted mul reg) {k : Nat} {t : Task} (ht : p.tasks[k]? = some t) :
    (p.settle k t).Budgeted mul reg := by
  have hle : ∀ sel : ClaimedOperation → Bool, (p.settle k t).tally sel ≤ p.tally sel := by
    intro sel
    rw [tally_settle sel ht]
    split <;> omega
  refine ⟨inv.counted.settle ht, fun i => ?_, inv.guard, fun c hc x hx => ?_⟩
  · have hnonneg : 0 ≤ (p.settle k t).inFlightOf i := tally_nonneg
    have hlei : (p.settle k t).inFlightOf i ≤ p.inFlightOf i := hle _
    refine (inv.within i).imp (fun h => by omega) ?_
    rintro ⟨runtime, hwithin⟩
    exact ⟨runtime, hwithin.of_le (hle _) (hle _)⟩
  · exact (inv.room c hc x hx).of_le (hle _) (hle _)

theorem Budgeted.step (inv : p.Budgeted mul reg) {a : LoopAction} (h : step mul cfg reg limiter p a = some p')
    (allowed : claimsAllowed p a p') : p'.Budgeted mul reg := by
  have guard : p'.OneCycle := OneCycle.step inv.guard (stepped h)
  cases stepped h with
  | skipped => exact inv
  | @started now =>
    have same : p.SameTasks (p.maybeReap cfg now) := by
      unfold maybeReap
      split <;> exact ⟨rfl, rfl, rfl⟩
    refine inv.offering ⟨same.tasks, same.running, same.runningBatch⟩ guard fun c hc => ?_
    rcases List.mem_append.1 hc with hold | hnew
    · exact inv.room c hold
    · rw [List.mem_singleton.1 hnew]
      simp [Cycle.offers]
  | reaped hc => exact inv.offer hc guard
  | sampled hc => exact inv.claim hc guard
  | @claimed _ args _ hc => exact inv.claimed hc (allowed args hc)
  | claimFailed hc => exact inv.ended ⟨rfl, rfl, rfl⟩ (OneCycle.ended inv.guard hc rfl)
  | deferLane | forgotten | stop => exact inv.offering ⟨rfl, rfl, rfl⟩ inv.guard inv.room
  | settled ht => exact inv.settled ht

theorem budgeted_start : (start : ClaimLoop L).Budgeted mul reg := by
  refine ⟨⟨?_, ?_⟩, ?_, ?_, ?_⟩ <;> simp [start, inFlightOf, batchInFlightOf, tally]

/-! ## The result -/

/-- **The budget and the reserved slice hold over whole runs.** -/
theorem reserved_slice (run : Runs (step mul cfg reg limiter) claimsAllowed start p) (i : String) :
    ((p.running i).getD 0 = p.inFlightOf i ∧ (p.runningBatch i).getD 0 = p.batchInFlightOf i) ∧
    (∀ runtime, reg.configOf mul i = .ok (some runtime) →
      p.inFlightOf i ≤ runtime.mutationConcurrency ∧ p.batchInFlightOf i ≤ runtime.batchSlots ∧
      0 ≤ runtime.batchSlots ∧ runtime.batchSlots ≤ runtime.mutationConcurrency ∧
      p.batchInFlightOf i ≤ runtime.mutationConcurrency - runtime.interactiveSlots ∧
      p.batchFree i runtime =
        min (runtime.batchSlots - p.batchInFlightOf i) (runtime.mutationConcurrency - p.inFlightOf i)) ∧
    ((∀ runtime, reg.configOf mul i ≠ .ok (some runtime)) → p.inFlightOf i = 0) ∧
    ∀ t ∈ p.tasks, t.op.instanceId = i →
      lowered (p.running i) = (p.running i).getD 0 - 1 ∧
      (t.op.priority = .batch → lowered (p.runningBatch i) = (p.runningBatch i).getD 0 - 1) := by
  have inv : p.Budgeted mul reg := run.invariant _ budgeted_start fun _ _ _ inv h allowed => inv.step h allowed
  refine ⟨⟨inv.counted.running i, inv.counted.batch i⟩, ?_, ?_, ?_⟩
  · intro runtime h
    have hwithin := inv.within_of_config h
    obtain ⟨hslots, hnonneg, hle⟩ := configOf_ok h
    exact ⟨hwithin.total, hwithin.batch, hnonneg, hle, hslots ▸ hwithin.batch, inv.batchFree_eq h⟩
  · intro hnone
    refine (inv.within i).resolve_right ?_
    rintro ⟨runtime, hwithin⟩
    exact hnone runtime hwithin.config
  · rintro t ht rfl
    have hpos := inv.counted.pos ht
    exact ⟨lowered_of_pos hpos.1, fun hbatch => lowered_of_pos (hpos.2 hbatch)⟩

/-! ## A batch operation in flight -/

def twoSlots : LoopRegistry := ⟨["hr"], fun _ => some 2, fun _ => ⟨some ⟨1 / 2, "0.5"⟩, ⟨none, none, none⟩⟩⟩

def noLimit : RateLimiter Unit := ⟨fun _ _ _ => (), fun l _ _ => (true, l)⟩

def waitingBatch : Row :=
  ⟨7, "hr", "User", .create, .batch, .live .pending, "ada", none, some "ada", none, none, none, 0, 0, none, none,
    "first", none⟩

def batchWaits : Snapshot := ⟨[waitingBatch], 100, fun _ => 0⟩

/-- Nothing is in flight, the cycle is in its claim, and the claim picks the row. -/
def picksBatch (p : ClaimLoop Unit) : Bool :=
  match p.tasks, p.cycles with
  | [], [.claiming args] => (batchWaits.picked args).map Row.id = [7]
  | _, _ => false

/-- The store has not returned anything yet. -/
def beforeClaimed (_ : ClaimLoop Unit) (a : LoopAction) (_ : ClaimLoop Unit) : Prop :=
  match a with
  | .claimed .. => False
  | _ => True

instance (p : ClaimLoop Unit) (a : LoopAction) (p' : ClaimLoop Unit) : Decidable (beforeClaimed p a p') :=
  match a with
  | .claimed .. => .isFalse not_false
  | .runCycle _ | .reaped .. | .sampled .. | .claimFailed _ | .deferLane .. | .settled _ | .forgotten _ | .stop =>
    .isTrue trivial

theorem reserved_slice_batch :
    ∃ p : ClaimLoop Unit, p.batchInFlightOf "hr" = 1 ∧ (p.runningBatch "hr").getD 0 = 1 ∧
      ∀ runtime, twoSlots.configOf (· * ·) "hr" = .ok (some runtime) →
        p.batchInFlightOf "hr" ≤ runtime.mutationConcurrency - runtime.interactiveSlots := by
  have h : (exec (step (· * ·) .DEFAULTS twoSlots noLimit) beforeClaimed start
      [.runCycle 100000, .reaped 0 100000, .sampled 0 100000]).any picksBatch := by
    decide +kernel
  obtain ⟨q, hq, hpicks⟩ := (Option.any_eq_true _ _).1 h
  have run : Runs (step (· * ·) .DEFAULTS twoSlots noLimit) claimsAllowed start q := by
    refine (runs_of_exec hq).mono ?_
    rintro s (_ | _) s' hok
    all_goals trivial
  unfold picksBatch at hpicks
  split at hpicks
  · rename_i args htasks hcycles
    obtain ⟨r, hr, -⟩ := List.mem_map.1 ((of_decide_eq_true hpicks).symm ▸ List.mem_singleton_self 7)
    have hrow : r = waitingBatch := List.mem_singleton.1 (Snapshot.leads_of_picked hr).1
    have allowed : args.MayReturn [waitingBatch.toClaimed .pending] := by
      refine ⟨batchWaits, [(waitingBatch, .pending)], by decide, by decide, ?_, rfl⟩
      intro x hx
      rw [List.mem_singleton.1 hx]
      exact ⟨r, hr, hrow ▸ (Row.Change.same r).sameOperation⟩
    have taken : step (· * ·) .DEFAULTS twoSlots noLimit q (.claimed 0 [waitingBatch.toClaimed .pending]) =
        some ((q.beginAll [waitingBatch.toClaimed .pending]).endCycle 0) := by
      simp only [step, hcycles]
      rfl
    have good : claimsAllowed q (.claimed 0 [waitingBatch.toClaimed .pending])
        ((q.beginAll [waitingBatch.toClaimed .pending]).endCycle 0) := by
      intro args' h
      rw [hcycles] at h
      cases h
      exact allowed
    have slice := reserved_slice (run.next taken good) "hr"
    have hone : ((q.beginAll [waitingBatch.toClaimed .pending]).endCycle 0).batchInFlightOf "hr" = 1 := by
      have hbegun := batchInFlightOf_beginAll (p := q) (i := "hr") [waitingBatch.toClaimed .pending]
      have hnone : q.batchInFlightOf "hr" = 0 := by simp [batchInFlightOf, tally, htasks]
      rw [hnone] at hbegun
      exact hbegun
    exact ⟨_, hone, slice.1.2.trans hone, fun runtime h => (slice.2.1 runtime h).2.2.2.2.1⟩
  · cases hpicks

end ClaimLoop

end Provisioning
