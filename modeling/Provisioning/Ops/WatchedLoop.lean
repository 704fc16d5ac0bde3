import Provisioning.Ops.Fleet

/-!
# A claim loop under observation

One dispatcher over a store that returns what its arguments allow, with what an observer writes down:
the operations that it has claimed, and the backoffs that its attempts have set. The clock does not go
back, and what the registry knows may change from one step to the next.
-/

namespace Provisioning

open Lib

structure WatchedLoop (L : Type) where
  loop : ClaimLoop L
  now : Nat
  /-- The operations that were claimed for execution. -/
  claimed : List ClaimedOperation
  /-- The backoffs that were set, each with the number of its task. -/
  backoffs : List (Nat × Backoff)

namespace WatchedLoop

variable {L : Type} (mul : ℚ → ℚ → ℚ) (cfg : LoopConfig) (limiter : RateLimiter L) (w : WatchedLoop L)

def start (now : Nat) : WatchedLoop L := ⟨.start, now, [], []⟩

inductive Action where
  | tick (ms : Nat)
  | loop (reg : LoopRegistry) (a : ClaimLoop.LoopAction)

/-- The loop reads the clock, and the one write of an attempt puts its lane off at most once. -/
def enabled : ClaimLoop.LoopAction → Bool
  | .runCycle now | .reaped _ now | .sampled _ now => now = w.now
  | .deferLane i _ => w.loop.tasks[i]?.any fun t => t.no ∉ w.backoffs.map Prod.fst
  | _ => true

def returned : ClaimLoop.LoopAction → List ClaimedOperation
  | .claimed _ ops => ops
  | _ => []

def backedOff : ClaimLoop.LoopAction → List (Nat × Backoff)
  | .deferLane i until' =>
    w.loop.tasks[i]?.toList.map fun t => (t.no, ⟨t.op.instanceId, t.op.laneKey, until'⟩)
  | _ => []

def step : Action → Option (WatchedLoop L)
  | .tick ms => some { w with now := w.now + ms }
  | .loop reg a =>
    if w.enabled a then
      (w.loop.step mul cfg reg limiter a).map fun p =>
        { w with loop := p, claimed := w.claimed ++ returned a, backoffs := w.backoffs ++ w.backedOff a }
    else none

/-- `claimBatch` returns what it may. -/
def claimsAllowed (w : WatchedLoop L) (a : Action) (w' : WatchedLoop L) : Prop :=
  match a with
  | .tick _ => True
  | .loop _ a => ClaimLoop.claimsAllowed w.loop a w'.loop

/-! ## What one step can do -/

inductive Stepped : Action → WatchedLoop L → Prop
  | tick (ms : Nat) : Stepped (.tick ms) { w with now := w.now + ms }
  | loop {reg : LoopRegistry} {a : ClaimLoop.LoopAction} {p : ClaimLoop L} (enabled : w.enabled a)
      (h : ClaimLoop.Stepped mul cfg reg limiter w.loop a p) :
      Stepped (.loop reg a)
        { w with loop := p, claimed := w.claimed ++ returned a, backoffs := w.backoffs ++ w.backedOff a }

variable {mul cfg limiter w}

theorem stepped {w' : WatchedLoop L} {a : Action} (h : w.step mul cfg limiter a = some w') :
    Stepped mul cfg limiter w a w' := by
  cases a with
  | tick ms =>
    rw [← Option.some.inj h]
    exact .tick ms
  | loop reg a =>
    simp only [step, Option.ite_none_right_eq_some, Option.map_eq_some_iff] at h
    obtain ⟨enabled, p, hp, rfl⟩ := h
    exact .loop enabled (ClaimLoop.stepped hp)

/-! ## Runs over a snapshot -/

/-- An action, or an answer of the store with the rows of a snapshot that have these ids. -/
inductive Script where
  | act (a : Action)
  | answer (reg : LoopRegistry) (ids : List Uuid)

def Script.action (s : Snapshot) : Script → Action
  | .act a => a
  | .answer reg ids =>
    .loop reg (.claimed 0 ((s.rows.filter fun r => r.id ∈ ids).map fun r => r.toClaimed .pending))

variable (mul cfg limiter) in
/-- The store answers with rows that the claim picks. -/
def served (s : Snapshot) (w : WatchedLoop L) : Script → Option (WatchedLoop L)
  | .act (.loop _ (.claimed ..)) => none
  | .act a => w.step mul cfg limiter a
  | .answer reg ids =>
    match w.loop.cycles with
    | [.claiming args] =>
      if ids.all fun u => u ∈ (s.picked args).map Row.id then
        w.step mul cfg limiter ((Script.answer reg ids).action s)
      else none
    | _ => none

theorem served_ok {s : Snapshot} (nodup : (s.rows.map Row.id).Nodup) {x : Script} {w' : WatchedLoop L}
    (h : w.served mul cfg limiter s x = some w') :
    w.step mul cfg limiter (x.action s) = some w' ∧ claimsAllowed w (x.action s) w' := by
  unfold served at h
  split at h
  · simp at h
  · rename_i a hother
    refine ⟨h, ?_⟩
    cases a with
    | tick => trivial
    | loop reg a =>
      cases a with
      | claimed k ops => exact absurd rfl (hother reg k ops)
      | _ => trivial
  · rename_i reg ids
    split at h
    · rename_i args hcycles
      simp only [Option.ite_none_right_eq_some] at h
      obtain ⟨hpicked, h⟩ := h
      simp only [List.all_eq_true, decide_eq_true_eq] at hpicked
      refine ⟨h, fun args' hargs => ?_⟩
      obtain rfl : args = args' := by simpa [hcycles] using hargs
      refine ⟨s, (s.rows.filter fun r => r.id ∈ ids).map fun r => (r, .pending), nodup, ?_, ?_, ?_⟩
      · rw [List.map_map]
        exact nodup.sublist (List.filter_sublist.map _)
      · intro x hx
        obtain ⟨r, hr, rfl⟩ := List.mem_map.1 hx
        obtain ⟨hmem, hid⟩ := List.mem_filter.1 hr
        obtain ⟨r', hr', hsame⟩ := List.mem_map.1 (hpicked r.id (of_decide_eq_true hid))
        obtain rfl := eq_of_key_eq nodup (Snapshot.leads_of_picked hr').1 hmem hsame
        exact ⟨r', hr', (Row.Change.same r').sameOperation⟩
      · rw [List.map_map]
        rfl
    · simp at h

theorem runs_of_served {s : Snapshot} (nodup : (s.rows.map Row.id).Nodup) {Extra : Action → Prop} {script : List Script}
    (extra : ∀ x ∈ script, Extra (x.action s)) {w' : WatchedLoop L}
    (h : exec (served mul cfg limiter s) anyStep w script = some w') :
    Runs (step mul cfg limiter) (fun w a w' => claimsAllowed w a w' ∧ Extra a) w w' := by
  induction script generalizing w with
  | nil =>
    rw [← Option.some.inj h]
    exact .start
  | cons x rest ih =>
    simp only [exec] at h
    split at h
    · simp at h
    · rename_i w₁ hw₁
      rw [if_pos (show anyStep w x w₁ from trivial)] at h
      obtain ⟨taken, allowed⟩ := served_ok nodup hw₁
      have more := ih (fun y hy => extra y (List.mem_cons_of_mem _ hy)) h
      exact (Runs.start.next taken ⟨allowed, extra x List.mem_cons_self⟩).trans more

end WatchedLoop

end Provisioning
