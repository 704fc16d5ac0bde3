import Provisioning.Ops.Backoff
import Provisioning.Ops.ReservedSlice
import Provisioning.Ops.WatchedLoop

/-!
# The lane keys of a dispatcher

`activeLanes` and `laneDeferredUntil` are keyed by `laneKey`, and the store keeps lanes apart by instance
and `laneKey`. The two agree for a lane in the runs in which no other instance uses its key.
-/

namespace Provisioning

open Lib

/-! ## What a claim returns of a lane -/

namespace ClaimArgs

variable {args : ClaimArgs} {ops : List ClaimedOperation}

theorem MayReturn.not_excluded (h : args.MayReturn ops) {op : ClaimedOperation} (hop : op ∈ ops) :
    op.laneKey ∉ args.activeLaneKeys := by
  obtain ⟨s, rows, -, -, picked, rfl⟩ := h
  obtain ⟨r, hr, rfl⟩ := List.mem_map.1 hop
  obtain ⟨r₀, hr₀, same⟩ := picked r hr
  have hactive := (Snapshot.fits_of_picked hr₀).active
  rwa [← same.laneKey] at hactive

theorem MayReturn.countP_lane (h : args.MayReturn ops) (i k : String) :
    ops.countP (fun op => op.instanceId = i ∧ op.laneKey = k) ≤ 1 := by
  obtain ⟨s, rows, unique, distinct, picked, rfl⟩ := h
  rw [List.countP_map]
  refine (countP_le_picked (p := fun r => r.instanceId = i ∧ r.laneKey = k) distinct picked ?_).trans ?_
  · intro r r' same
    simp [same.instanceId, same.laneKey]
  · rw [← List.countP_eq_length_filter]
    refine countP_le_one (Snapshot.nodup_picked unique) fun r hr r' hr' hlane hlane' => ?_
    simp only [decide_eq_true_eq] at hlane hlane'
    obtain ⟨hmem, leads⟩ := Snapshot.leads_of_picked hr
    obtain ⟨hmem', leads'⟩ := Snapshot.leads_of_picked hr'
    exact leads.unique hmem leads' hmem' ⟨hlane.1.trans hlane'.1.symm, hlane.2.trans hlane'.2.symm⟩

end ClaimArgs

/-! ## The tasks of a lane key -/

namespace ClaimLoop

variable {L : Type} {mul : ℚ → ℚ → ℚ} {cfg : LoopConfig} {reg : LoopRegistry} {limiter : RateLimiter L}
  {p p' : ClaimLoop L} {a : LoopAction} {k : String}

def tasksOn (p : ClaimLoop L) (k : String) : Int := p.tally fun op => op.laneKey = k

theorem tasksOn_pos_iff : 0 < p.tasksOn k ↔ ∃ t ∈ p.tasks, t.op.laneKey = k := by
  unfold tasksOn tally
  rw [Int.natCast_pos, List.countP_pos_iff]
  simp

theorem mem_activeLanes_beginAll (ops : List ClaimedOperation) :
    k ∈ (p.beginAll ops).activeLanes ↔ k ∈ p.activeLanes ∨ 0 < ops.countP fun op => op.laneKey = k := by
  induction ops generalizing p with
  | nil => simp [beginAll]
  | cons op rest ih =>
    have hrest : k ∈ (p.beginAll (op :: rest)).activeLanes ↔ k ∈ (p.begin op).activeLanes ∨ _ := ih
    have hbegin : k ∈ (p.begin op).activeLanes ↔ k ∈ p.activeLanes ∨ op.laneKey = k := by
      unfold begin
      dsimp only
      split
      · rename_i hmem
        exact ⟨.inl, fun h => h.elim id fun heq => heq ▸ hmem⟩
      · rw [List.mem_append, List.mem_singleton, eq_comm]
    rw [hrest, hbegin, or_assoc, List.countP_cons]
    by_cases hlane : op.laneKey = k <;> simp [hlane]

theorem mem_tasks_beginAll {ops : List ClaimedOperation} {t : Task} (h : t ∈ (p.beginAll ops).tasks) :
    t ∈ p.tasks ∨ t.op ∈ ops := by
  induction ops generalizing p with
  | nil => exact .inl h
  | cons op rest ih =>
    rcases ih h with hold | hmem
    · rcases List.mem_append.1 hold with hold | hnew
      · exact .inl hold
      · rw [List.mem_singleton.1 hnew]
        exact .inr List.mem_cons_self
    · exact .inr (List.mem_cons_of_mem _ hmem)

/-- `activeLanes` has the keys of the tasks, and a key has one task. -/
structure KeyedByTasks (p : ClaimLoop L) (k : String) : Prop where
  active : k ∈ p.activeLanes ↔ 0 < p.tasksOn k
  one : p.tasksOn k ≤ 1

theorem KeyedByTasks.unique (inv : p.KeyedByTasks k) {t t' : Task} (ht : t ∈ p.tasks) (hk : t.op.laneKey = k)
    (ht' : t' ∈ p.tasks) (hk' : t'.op.laneKey = k) : t = t' := by
  have hone := inv.one
  unfold tasksOn tally at hone
  rw [List.countP_eq_length_filter] at hone
  have hmem : t ∈ p.tasks.filter fun t => t.op.laneKey = k := List.mem_filter.2 ⟨ht, decide_eq_true hk⟩
  have hmem' : t' ∈ p.tasks.filter fun t => t.op.laneKey = k := List.mem_filter.2 ⟨ht', decide_eq_true hk'⟩
  match hfilter : p.tasks.filter fun t => t.op.laneKey = k with
  | [] => simp [hfilter] at hmem
  | [x] =>
    rw [hfilter] at hmem hmem'
    exact (List.mem_singleton.1 hmem).trans (List.mem_singleton.1 hmem').symm
  | _ :: _ :: _ =>
    rw [hfilter] at hone
    simp only [List.length_cons] at hone
    omega

theorem KeyedByTasks.same (inv : p.KeyedByTasks k) (active : p'.activeLanes = p.activeLanes)
    (tasks : p'.tasks = p.tasks) : p'.KeyedByTasks k := by
  have hsame : p'.tasksOn k = p.tasksOn k := by
    unfold tasksOn tally
    rw [tasks]
  exact ⟨by rw [active, hsame]; exact inv.active, hsame ▸ inv.one⟩

theorem KeyedByTasks.beginAll (inv : p.KeyedByTasks k) {ops : List ClaimedOperation}
    (free : 0 < ops.countP (fun op => op.laneKey = k) → p.tasksOn k = 0)
    (one : ops.countP (fun op => op.laneKey = k) ≤ 1) : (p.beginAll ops).KeyedByTasks k := by
  have htally : (p.beginAll ops).tasksOn k = p.tasksOn k + ops.countP fun op => op.laneKey = k :=
    tally_beginAll _ ops
  have hnonneg : 0 ≤ p.tasksOn k := tally_nonneg
  have hold := inv.one
  constructor
  · rw [mem_activeLanes_beginAll, inv.active, htally]
    omega
  · omega

theorem KeyedByTasks.settle (inv : p.KeyedByTasks k) {i : Nat} {t : Task} (hi : p.tasks[i]? = some t) :
    (p.settle i t).KeyedByTasks k := by
  have htally : p.tasksOn k = (p.settle i t).tasksOn k + if decide (t.op.laneKey = k) then 1 else 0 :=
    tally_settle (fun op => op.laneKey = k) hi
  have hnonneg : 0 ≤ (p.settle i t).tasksOn k := tally_nonneg
  have hactive : k ∈ (p.settle i t).activeLanes ↔ k ∈ p.activeLanes ∧ k ≠ t.op.laneKey := by
    unfold ClaimLoop.settle
    simp
  have hold := inv.one
  constructor
  · rw [hactive, inv.active]
    by_cases hlane : t.op.laneKey = k
    · simp only [hlane, decide_true, if_true] at htally
      simp only [hlane, ne_eq, not_true_eq_false, and_false, false_iff]
      omega
    · simp only [hlane, decide_false, Bool.false_eq_true, if_false] at htally
      simp only [htally, Int.add_zero, ne_eq, Ne.symm hlane, not_false_eq_true, and_true]
  · split at htally <;> omega

/-! ## Cycles -/

/-- What a cycle leaves alone on its way to the claim. -/
structure SameLanes (p p' : ClaimLoop L) : Prop where
  active : p'.activeLanes = p.activeLanes
  deferred : p'.laneDeferredUntil = p.laneDeferredUntil
  tasks : p'.tasks = p.tasks

variable (cfg p) in
theorem sameLanes_maybeReap (now : Nat) : p.SameLanes (p.maybeReap cfg now) := by
  obtain ⟨_, heq⟩ := maybeReap_eq cfg p now
  rw [heq]
  exact ⟨rfl, rfl, rfl⟩

variable (mul reg limiter p) in
theorem sameLanes_offer (j now : Nat) : p.SameLanes (p.offer mul reg limiter j now) := by
  obtain ⟨_, _, _, _, heq⟩ := offer_eq mul reg limiter p j now
  rw [heq]
  exact ⟨rfl, rfl, rfl⟩

theorem Stepped.claiming_origin (h : Stepped mul cfg reg limiter p a p') {args : ClaimArgs}
    (hargs : .claiming args ∈ p'.cycles) :
    .claiming args ∈ p.cycles ∨
      ∃ j now available, a = .sampled j now ∧ p' = p.claim cfg j now available ∧
        args.activeLaneKeys = (p.forgetDeferrals now).excludedLanes := by
  cases h with
  | skipped | deferLane | settled | forgotten | stop => exact .inl hargs
  | started => exact .inl (by simpa using hargs)
  | @reaped j now =>
    obtain ⟨-, hcycles, -⟩ := computeAvailability_same mul reg limiter p now
    unfold offer at hargs
    dsimp only at hargs
    split at hargs
    · exact .inl (hcycles ▸ List.mem_of_mem_eraseIdx hargs)
    · exact .inl (hcycles ▸ List.mem_of_mem_eraseIdx hargs)
    · exact .inl ((List.mem_or_eq_of_mem_set hargs).resolve_right (by simp))
  | @sampled j now available =>
    refine (List.mem_or_eq_of_mem_set hargs).imp id fun heq => ?_
    exact ⟨j, now, available, rfl, rfl, by rw [Cycle.claiming.inj heq]⟩
  | @claimed j _ ops =>
    have hcycles : (p.beginAll ops).cycles = p.cycles := (beginAll_kept ops).1
    exact .inl (hcycles ▸ List.mem_of_mem_eraseIdx hargs)
  | claimFailed => exact .inl (List.mem_of_mem_eraseIdx hargs)

end ClaimLoop

namespace WatchedLoop

variable {L : Type} {mul : ℚ → ℚ → ℚ} {cfg : LoopConfig} {limiter : RateLimiter L} {w w' : WatchedLoop L}
  {i k : String} {t u : Nat}

/-! ## A lane of an instance -/

/-- The lane key is one of `excludedLanes()` at time `t`. -/
def Excludes (w : WatchedLoop L) (k : String) (t : Nat) : Prop := k ∈ (w.loop.forgetDeferrals t).excludedLanes

def Attempting (w : WatchedLoop L) (i k : String) : Prop :=
  ∃ task ∈ w.loop.tasks, task.op.instanceId = i ∧ task.op.laneKey = k

/-- An operation of the lane has set a backoff that ends at `u`. -/
def HasSet (w : WatchedLoop L) (i k : String) (u : Nat) : Prop := ∃ no, (no, Backoff.mk i k u) ∈ w.backoffs

def BackingOff (w : WatchedLoop L) (i k : String) (t : Nat) : Prop := ∃ u, w.HasSet i k u ∧ t < u

instance (w : WatchedLoop L) (k : String) (t : Nat) : Decidable (w.Excludes k t) := inferInstanceAs (Decidable (_ ∈ _))

instance (w : WatchedLoop L) (i k : String) : Decidable (w.Attempting i k) :=
  inferInstanceAs (Decidable (∃ task ∈ _, _))

/-- An operation of the lane starts, finishes or backs off. -/
def concerns (i k : String) (w : WatchedLoop L) : Action → Prop
  | .loop _ (.claimed _ ops) => ∃ op ∈ ops, op.instanceId = i ∧ op.laneKey = k
  | .loop _ (.settled j) | .loop _ (.deferLane j _) =>
    ∃ task, w.loop.tasks[j]? = some task ∧ task.op.instanceId = i ∧ task.op.laneKey = k
  | _ => False

/-- No other instance uses the key. -/
def ownKey (i k : String) : Action → Prop
  | .tick _ => True
  | .loop _ a => ∀ op ∈ returned a, op.laneKey = k → op.instanceId = i

instance (i k : String) (a : Action) : Decidable (ownKey i k a) :=
  match a with
  | .tick _ => .isTrue trivial
  | .loop _ a => inferInstanceAs (Decidable (∀ op ∈ returned a, _ → _))

def lanesApart (i k : String) (w : WatchedLoop L) (a : Action) (w' : WatchedLoop L) : Prop :=
  claimsAllowed w a w' ∧ ownKey i k a

/-! ## The invariant -/

structure LaneKept (i k : String) (w : WatchedLoop L) : Prop where
  guard : w.loop.OneCycle
  keyed : w.loop.KeyedByTasks k
  own : ∀ task ∈ w.loop.tasks, task.op.laneKey = k → task.op.instanceId = i
  set : ∀ u, (k, u) ∈ w.loop.laneDeferredUntil → w.HasSet i k u
  remembered : ∀ u, w.HasSet i k u → w.now < u → (k, u) ∈ w.loop.laneDeferredUntil
  /-- An attempt that has not set a backoff began when none was running. -/
  rested : ∀ task ∈ w.loop.tasks, task.op.laneKey = k → task.no ∉ w.backoffs.map Prod.fst → ¬ w.BackingOff i k w.now
  /-- Nor is one running when the claim leaves the lane in. -/
  claiming : ∀ args, .claiming args ∈ w.loop.cycles → k ∉ args.activeLaneKeys →
    w.loop.tasksOn k = 0 ∧ ¬ w.BackingOff i k w.now

theorem LaneKept.attempting_iff (inv : w.LaneKept i k) : w.Attempting i k ↔ k ∈ w.loop.activeLanes := by
  rw [inv.keyed.active, ClaimLoop.tasksOn_pos_iff]
  unfold Attempting
  constructor
  · rintro ⟨task, hmem, -, hlane⟩
    exact ⟨task, hmem, hlane⟩
  · rintro ⟨task, hmem, hlane⟩
    exact ⟨task, hmem, inv.own task hmem hlane, hlane⟩

theorem LaneKept.excludes_iff (inv : w.LaneKept i k) (ht : w.now ≤ t) :
    w.Excludes k t ↔ w.Attempting i k ∨ w.BackingOff i k t := by
  unfold Excludes
  rw [ClaimLoop.mem_excludedLanes, inv.attempting_iff]
  refine or_congr Iff.rfl ?_
  constructor
  · rintro ⟨u, hmem, hlt⟩
    exact ⟨u, inv.set u hmem, hlt⟩
  · rintro ⟨u, hset, hlt⟩
    exact ⟨u, inv.remembered u hset (ht.trans_lt hlt), hlt⟩

theorem laneKept_start (now : Nat) : (start now : WatchedLoop L).LaneKept i k := by
  constructor <;> simp [start, ClaimLoop.start, ClaimLoop.OneCycle, HasSet]
  constructor <;> simp [ClaimLoop.tasksOn, ClaimLoop.tally]

/-! ## Steps -/

theorem hasSet_append (more : List (Nat × Backoff)) (backoffs : w'.backoffs = w.backoffs ++ more) :
    w'.HasSet i k u ↔ w.HasSet i k u ∨ ⟨i, k, u⟩ ∈ more.map Prod.snd := by
  unfold HasSet
  rw [backoffs]
  simp [exists_or]

theorem hasSet_of_others {more : List (Nat × Backoff)} (backoffs : w'.backoffs = w.backoffs ++ more)
    (others : ∀ b ∈ more, b.2.laneKey ≠ k) : w'.HasSet i k u ↔ w.HasSet i k u := by
  rw [hasSet_append _ backoffs, or_iff_left]
  intro hmem
  obtain ⟨b, hb, heq⟩ := List.mem_map.1 hmem
  exact others b hb (congrArg Backoff.laneKey heq)

theorem LaneKept.quiet (inv : w.LaneKept i k) {more : List (Nat × Backoff)} (guard : w'.loop.OneCycle)
    (keyed : w'.loop.KeyedByTasks k) (tasks : w'.loop.tasks.Sublist w.loop.tasks) (time : w.now ≤ w'.now)
    (backoffs : w'.backoffs = w.backoffs ++ more) (others : ∀ b ∈ more, b.2.laneKey ≠ k)
    (forgets : ∀ u, (k, u) ∈ w'.loop.laneDeferredUntil → (k, u) ∈ w.loop.laneDeferredUntil)
    (keeps : ∀ u, w'.now < u → (k, u) ∈ w.loop.laneDeferredUntil → (k, u) ∈ w'.loop.laneDeferredUntil)
    (claiming : ∀ args, .claiming args ∈ w'.loop.cycles → k ∉ args.activeLaneKeys →
      w.loop.tasksOn k = 0 ∧ ¬ w.BackingOff i k w.now) : w'.LaneKept i k := by
  have hset (u : Nat) : w'.HasSet i k u ↔ w.HasSet i k u := hasSet_of_others backoffs others
  have quieter : w'.BackingOff i k w'.now → w.BackingOff i k w.now := by
    rintro ⟨u, hu, hlt⟩
    exact ⟨u, (hset u).1 hu, time.trans_lt hlt⟩
  constructor
  · exact guard
  · exact keyed
  · exact fun task hmem => inv.own task (tasks.subset hmem)
  · exact fun u hmem => (hset u).2 (inv.set u (forgets u hmem))
  · exact fun u hu hlt => keeps u hlt (inv.remembered u ((hset u).1 hu) (time.trans_lt hlt))
  · intro task hmem hlane hno
    rw [backoffs, List.map_append, List.mem_append, not_or] at hno
    exact mt quieter (inv.rested task (tasks.subset hmem) hlane hno.1)
  · intro args hargs hactive
    obtain ⟨hnone, hrest⟩ := claiming args hargs hactive
    have hle : w'.loop.tasksOn k ≤ w.loop.tasksOn k := Int.ofNat_le.2 tasks.countP_le
    have hnonneg : 0 ≤ w'.loop.tasksOn k := ClaimLoop.tally_nonneg
    exact ⟨by omega, mt quieter hrest⟩

theorem LaneKept.free_of_not_excluded (inv : w.LaneKept i k) (h : ¬ w.Excludes k w.now) :
    w.loop.tasksOn k = 0 ∧ ¬ w.BackingOff i k w.now := by
  rw [inv.excludes_iff le_rfl, not_or, inv.attempting_iff, inv.keyed.active] at h
  have hnonneg : 0 ≤ w.loop.tasksOn k := ClaimLoop.tally_nonneg
  exact ⟨by omega, h.2⟩

theorem LaneKept.deferred (inv : w.LaneKept i k) {j until' : Nat} {task : Task} (hj : w.loop.tasks[j]? = some task)
    (hlane : task.op.laneKey = k) (first : task.no ∉ w.backoffs.map Prod.fst)
    (loop : w'.loop = w.loop.deferLane task.op.laneKey until') (now : w'.now = w.now)
    (backoffs : w'.backoffs = w.backoffs ++ [(task.no, ⟨task.op.instanceId, task.op.laneKey, until'⟩)]) :
    w'.LaneKept i k := by
  have hmem := List.mem_of_getElem? hj
  have hrest := inv.rested task hmem hlane first
  have hset (u : Nat) : w'.HasSet i k u ↔ w.HasSet i k u ∨ u = until' := by
    rw [hasSet_append _ backoffs]
    simp [inv.own task hmem hlane, hlane]
  have hdeferred (u : Nat) : (k, u) ∈ w'.loop.laneDeferredUntil ↔ u = until' := by
    rw [loop, ClaimLoop.mem_deferLane, hlane]
    simp
  have htasks : w'.loop.tasks = w.loop.tasks := by
    rw [loop]
    rfl
  have hcycles : w'.loop.cycles = w.loop.cycles := by
    rw [loop]
    rfl
  constructor
  · rw [loop]
    exact inv.guard
  · rw [loop]
    exact inv.keyed.same rfl rfl
  · rw [htasks]
    exact inv.own
  · exact fun u hu => (hset u).2 (.inr ((hdeferred u).1 hu))
  · intro u hu hlt
    rw [now] at hlt
    exact (hdeferred u).2 (((hset u).1 hu).resolve_left fun hold => hrest ⟨u, hold, hlt⟩)
  · intro task' hmem' hlane' hno
    rw [htasks] at hmem'
    rw [inv.keyed.unique hmem' hlane' hmem hlane, backoffs] at hno
    simp at hno
  · intro args hargs hactive
    rw [hcycles] at hargs
    have hpos := ClaimLoop.tasksOn_pos_iff.2 ⟨task, hmem, hlane⟩
    have hzero := (inv.claiming args hargs hactive).1
    omega

theorem LaneKept.begun (inv : w.LaneKept i k) {j : Nat} {args : ClaimArgs} {ops : List ClaimedOperation}
    (hj : w.loop.cycles[j]? = some (.claiming args)) (allowed : args.MayReturn ops)
    (own : ∀ op ∈ ops, op.laneKey = k → op.instanceId = i) (guard : w'.loop.OneCycle)
    (loop : w'.loop = (w.loop.beginAll ops).endCycle j) (now : w'.now = w.now) (backoffs : w'.backoffs = w.backoffs) :
    w'.LaneKept i k := by
  have atRest : 0 < ops.countP (fun op => op.laneKey = k) → w.loop.tasksOn k = 0 ∧ ¬ w.BackingOff i k w.now := by
    intro hpos
    obtain ⟨op, hop, hlane⟩ := List.countP_pos_iff.1 hpos
    have hactive := allowed.not_excluded hop
    rw [of_decide_eq_true hlane] at hactive
    exact inv.claiming args (List.mem_of_getElem? hj) hactive
  have one : ops.countP (fun op => op.laneKey = k) ≤ 1 := by
    refine le_trans (le_of_eq (List.countP_congr fun op hop => ?_)) (allowed.countP_lane i k)
    simp only [decide_eq_true_eq]
    exact ⟨fun hlane => ⟨own op hop hlane, hlane⟩, And.right⟩
  have hsame (u : Nat) : w'.HasSet i k u ↔ w.HasSet i k u := by
    unfold HasSet
    rw [backoffs]
  have hbacking : w'.BackingOff i k w'.now ↔ w.BackingOff i k w.now := by
    unfold BackingOff
    rw [now]
    exact exists_congr fun u => and_congr (hsame u) Iff.rfl
  have hdeferred : w'.loop.laneDeferredUntil = w.loop.laneDeferredUntil := by
    rw [loop]
    exact (ClaimLoop.beginAll_kept ops).2.2
  have hcycles : w'.loop.cycles = [] := by
    rw [loop]
    exact inv.guard.ended hj (ClaimLoop.beginAll_kept ops).1
  have origin {task : Task} (hmem : task ∈ w'.loop.tasks) : task ∈ w.loop.tasks ∨ task.op ∈ ops := by
    rw [loop] at hmem
    exact ClaimLoop.mem_tasks_beginAll hmem
  constructor
  · exact guard
  · rw [loop]
    exact (inv.keyed.beginAll (fun hpos => (atRest hpos).1) one).same rfl rfl
  · intro task hmem hlane
    rcases origin hmem with hold | hnew
    · exact inv.own task hold hlane
    · exact own task.op hnew hlane
  · rw [hdeferred]
    exact fun u hmem => (hsame u).2 (inv.set u hmem)
  · rw [hdeferred, now]
    exact fun u hu => inv.remembered u ((hsame u).1 hu)
  · intro task hmem hlane hno
    rw [hbacking]
    rw [backoffs] at hno
    rcases origin hmem with hold | hnew
    · exact inv.rested task hold hlane hno
    · exact (atRest (List.countP_pos_iff.2 ⟨task.op, hnew, decide_eq_true hlane⟩)).2
  · rw [hcycles]
    simp

theorem LaneKept.same (inv : w.LaneKept i k) (guard : w'.loop.OneCycle) (lanes : w.loop.SameLanes w'.loop)
    (now : w'.now = w.now) (backoffs : w'.backoffs = w.backoffs ++ [])
    (cycles : ∀ args, .claiming args ∈ w'.loop.cycles → .claiming args ∈ w.loop.cycles) : w'.LaneKept i k := by
  refine inv.quiet guard (inv.keyed.same lanes.active lanes.tasks) ?_ now.ge backoffs (by simp) ?_ ?_ ?_
  · rw [lanes.tasks]
  · rw [lanes.deferred]
    exact fun _ => id
  · rw [lanes.deferred]
    exact fun _ _ => id
  · exact fun args hargs => inv.claiming args (cycles args hargs)

theorem LaneKept.step {a : Action} (inv : w.LaneKept i k) (h : Stepped mul cfg limiter w a w')
    (good : lanesApart i k w a w') : w'.LaneKept i k := by
  obtain ⟨allowed, own⟩ := good
  cases h with
  | tick ms =>
    refine inv.quiet inv.guard inv.keyed (.refl _) (Nat.le_add_right _ _) (List.append_nil _).symm (by simp) ?_ ?_
      inv.claiming
    · exact fun _ => id
    · exact fun _ _ => id
  | @loop reg a p ready h =>
    have guard : p.OneCycle := inv.guard.step h
    -- Only the sampled backlog leads on to a claim.
    have cycles (hother : ∀ j now, a ≠ .sampled j now) (args : ClaimArgs) (hargs : .claiming args ∈ p.cycles) :
        .claiming args ∈ w.loop.cycles :=
      (h.claiming_origin hargs).resolve_right fun ⟨j, now, _, ha, _⟩ => hother j now ha
    cases h with
    | skipped | forgotten | stop | claimFailed => exact inv.same guard ⟨rfl, rfl, rfl⟩ rfl rfl (cycles (by simp))
    | @started now =>
      have lanes := w.loop.sameLanes_maybeReap cfg now
      exact inv.same guard ⟨lanes.active, lanes.deferred, lanes.tasks⟩ rfl rfl (cycles (by simp))
    | reaped => exact inv.same guard (w.loop.sameLanes_offer mul reg limiter _ _) rfl rfl (cycles (by simp))
    | @sampled j now available hj =>
      obtain rfl : now = w.now := of_decide_eq_true ready
      refine inv.quiet guard (inv.keyed.same rfl rfl) (.refl _) le_rfl rfl (by simp [backedOff]) ?_ ?_ ?_
      · exact fun u hmem => (List.mem_filter.1 hmem).1
      · exact fun u hlt hmem => List.mem_filter.2 ⟨hmem, decide_eq_true hlt⟩
      · intro args hargs hactive
        rcases List.mem_or_eq_of_mem_set hargs with hold | hnew
        · exact inv.claiming args hold hactive
        · rw [Cycle.claiming.inj hnew] at hactive
          exact inv.free_of_not_excluded hactive
    | claimed hj => exact inv.begun hj (allowed _ hj) own guard rfl rfl (List.append_nil _)
    | @deferLane j until' task hj =>
      have hbacked : w.backedOff (.deferLane j until') =
          [(task.no, ⟨task.op.instanceId, task.op.laneKey, until'⟩)] := by
        simp [backedOff, hj]
      by_cases hlane : task.op.laneKey = k
      · refine inv.deferred hj hlane ?_ rfl rfl (congrArg _ hbacked)
        simpa [enabled, hj] using ready
      · refine inv.quiet guard (inv.keyed.same rfl rfl) (.refl _) le_rfl (congrArg _ hbacked) (by simpa using hlane)
          ?_ ?_ fun args hargs => inv.claiming args (cycles (by simp) args hargs)
        · exact fun u hmem => (ClaimLoop.mem_deferLane.1 hmem).elim (fun h => absurd h.1.symm hlane) And.right
        · exact fun u _ hmem => ClaimLoop.mem_deferLane.2 (.inr ⟨Ne.symm hlane, hmem⟩)
    | @settled j task hj =>
      refine inv.quiet guard (inv.keyed.settle hj) (List.eraseIdx_sublist _ _) le_rfl rfl (by simp [backedOff]) ?_ ?_
        fun args hargs => inv.claiming args (cycles (by simp) args hargs)
      · exact fun _ => id
      · exact fun _ _ => id

/-! ## Steps of other lanes -/

theorem attempting_iff_tally :
    w.Attempting i k ↔ 0 < w.loop.tally fun op => op.instanceId = i ∧ op.laneKey = k := by
  unfold Attempting ClaimLoop.tally
  rw [Int.natCast_pos, List.countP_pos_iff]
  simp

theorem Stepped.attempting_iff {a : Action} (h : Stepped mul cfg limiter w a w') (other : ¬ w.concerns i k a) :
    w'.Attempting i k ↔ w.Attempting i k := by
  cases h with
  | tick => exact Iff.rfl
  | @loop reg _ p _ h =>
    cases h with
    | skipped | sampled | claimFailed | deferLane | forgotten | stop => exact Iff.rfl
    | started =>
      unfold Attempting
      dsimp only
      rw [(w.loop.sameLanes_maybeReap cfg _).tasks]
    | reaped =>
      unfold Attempting
      dsimp only
      rw [(w.loop.sameLanes_offer mul reg limiter _ _).tasks]
    | @claimed j _ ops =>
      have hnone : ops.countP (fun op => op.instanceId = i ∧ op.laneKey = k) = 0 := by
        refine List.countP_eq_zero.2 fun op hop hlane => other ⟨op, hop, of_decide_eq_true hlane⟩
      have htally := ClaimLoop.tally_beginAll (p := w.loop) (fun op => op.instanceId = i ∧ op.laneKey = k) ops
      rw [hnone, Nat.cast_zero, Int.add_zero] at htally
      rw [attempting_iff_tally, attempting_iff_tally, ← htally]
      exact Iff.rfl
    | @settled j task hj =>
      have htally := ClaimLoop.tally_settle (fun op => op.instanceId = i ∧ op.laneKey = k) hj
      rw [if_neg fun hlane => other ⟨task, hj, of_decide_eq_true hlane⟩] at htally
      rw [attempting_iff_tally, attempting_iff_tally, htally]
      simp

theorem Stepped.hasSet_iff {a : Action} (h : Stepped mul cfg limiter w a w') (other : ¬ w.concerns i k a) :
    w'.HasSet i k u ↔ w.HasSet i k u := by
  cases h with
  | tick => exact Iff.rfl
  | @loop reg a p ready h =>
    rw [hasSet_append (w.backedOff a) rfl, or_iff_left]
    cases h with
    | @deferLane j until' task hj =>
      intro hmem
      simp only [backedOff, hj, Option.toList_some, List.map_cons, List.map_nil, List.mem_singleton,
        Backoff.mk.injEq] at hmem
      exact other ⟨task, hj, hmem.1.symm, hmem.2.1.symm⟩
    | _ => simp [backedOff]

theorem Stepped.time {a : Action} (h : Stepped mul cfg limiter w a w') : w.now ≤ w'.now := by
  cases h with
  | tick => exact Nat.le_add_right _ _
  | loop => exact le_rfl

/-! ## The result -/

theorem laneKept_run {now : Nat} (run : Runs (step mul cfg limiter) (lanesApart i k) (start now) w) : w.LaneKept i k :=
  run.invariant (LaneKept i k) (laneKept_start now) fun _ _ _ inv h good => inv.step (stepped h) good

/-- **The lanes of an instance are its own** in the runs in which no other instance uses the lane key. -/
theorem lane_excluded_iff {now : Nat} (run : Runs (step mul cfg limiter) (lanesApart i k) (start now) w) :
    (∀ t, w.now ≤ t → (w.Excludes k t ↔ w.Attempting i k ∨ w.BackingOff i k t)) ∧
      ∀ a w', w.step mul cfg limiter a = some w' → lanesApart i k w a w' → ¬ w.concerns i k a →
        ∀ t, w'.now ≤ t → (w'.Excludes k t ↔ w.Excludes k t) := by
  refine ⟨fun t ht => (laneKept_run run).excludes_iff ht, fun a w' h good other t ht => ?_⟩
  have hstep := stepped h
  have hbacking : w'.BackingOff i k t ↔ w.BackingOff i k t :=
    exists_congr fun u => and_congr (hstep.hasSet_iff other) Iff.rfl
  rw [(laneKept_run (run.next h good)).excludes_iff ht, (laneKept_run run).excludes_iff (hstep.time.trans ht),
    hstep.attempting_iff other, hbacking]

/-! ## One key, two instances -/

def twoInstances : LoopRegistry := ⟨["hr", "crm"], fun _ => some 2, fun _ => ⟨some ⟨0, "0"⟩, ⟨none, none, none⟩⟩⟩

def adaIn (id : Uuid) (instanceId : String) : Row :=
  ⟨id, instanceId, "User", .create, .interactive, .live .pending, "ada", none, some "ada", none, none, none, 0, 0, none,
    none, instanceId, none⟩

def adaTwice : Snapshot := ⟨[adaIn 7 "hr", adaIn 8 "crm"], 0, fun _ => 0⟩

def claimsAda (ids : List Uuid) : List Script :=
  [.act (.loop twoInstances (.runCycle 0)), .act (.loop twoInstances (.reaped 0 0)),
    .act (.loop twoInstances (.sampled 0 0)), .answer twoInstances ids]

/-- The attempt of `crm` settles, and takes the lane key of the attempt of `hr` with it. -/
theorem lane_released_by_other :
    ∃ w : WatchedLoop Unit, Runs (step (· * ·) .DEFAULTS ClaimLoop.noLimit) claimsAllowed (start 0) w ∧
      w.Attempting "hr" "ada" ∧ ¬ w.Excludes "ada" w.now ∧
      ¬ (w.Excludes "ada" w.now ↔ w.Attempting "hr" "ada" ∨ w.BackingOff "hr" "ada" w.now) := by
  have h : (exec (served (· * ·) .DEFAULTS ClaimLoop.noLimit adaTwice) anyStep (start 0)
      (claimsAda [7, 8] ++ [.act (.loop twoInstances (.settled 1))])).map
        (fun w => (decide (w.Attempting "hr" "ada"), decide (w.Excludes "ada" w.now))) = some (true, false) := by
    decide +kernel
  obtain ⟨w, hw, heq⟩ := Option.map_eq_some_iff.1 h
  obtain ⟨hattempting, hexcludes⟩ := Prod.mk.inj heq
  have run : Runs (step (· * ·) .DEFAULTS ClaimLoop.noLimit) (fun w a w' => claimsAllowed w a w' ∧ True) (start 0) w :=
    runs_of_served (by decide) (fun _ _ => trivial) hw
  have attempting := of_decide_eq_true hattempting
  have excludes := of_decide_eq_false hexcludes
  exact ⟨w, run.mono fun _ _ _ good => good.1, attempting, excludes, fun hiff => excludes (hiff.2 (.inl attempting))⟩

/-- The attempt of `hr` alone holds its lane, and puts it off until time 1000. -/
theorem lane_excluded_iff_alone :
    ∃ w : WatchedLoop Unit, Runs (step (· * ·) .DEFAULTS ClaimLoop.noLimit) (lanesApart "hr" "ada") (start 0) w ∧
      w.backoffs = [(0, ⟨"hr", "ada", 1000⟩)] ∧
      ∀ t, w.Excludes "ada" t ↔ w.Attempting "hr" "ada" ∨ w.BackingOff "hr" "ada" t := by
  have h : (exec (served (· * ·) .DEFAULTS ClaimLoop.noLimit adaTwice) anyStep (start 0)
      (claimsAda [7] ++ [.act (.loop twoInstances (.deferLane 0 1000)), .act (.loop twoInstances (.settled 0))])).map
        (fun w => (w.backoffs, w.now)) = some ([(0, ⟨"hr", "ada", 1000⟩)], 0) := by
    decide +kernel
  obtain ⟨w, hw, heq⟩ := Option.map_eq_some_iff.1 h
  obtain ⟨hbackoffs, hnow⟩ := Prod.mk.inj heq
  have own : ∀ x ∈ claimsAda [7] ++ [.act (.loop twoInstances (.deferLane 0 1000)),
      .act (.loop twoInstances (.settled 0))], ownKey "hr" "ada" (x.action adaTwice) := by
    decide
  have run : Runs (step (· * ·) .DEFAULTS ClaimLoop.noLimit) (lanesApart "hr" "ada") (start 0) w :=
    runs_of_served (by decide) own hw
  exact ⟨w, run, hbackoffs, fun t => (lane_excluded_iff run).1 t (hnow.le.trans (Nat.zero_le t))⟩

end WatchedLoop

end Provisioning
