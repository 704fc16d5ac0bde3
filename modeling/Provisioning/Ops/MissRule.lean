import Provisioning.Lib.Monitoring
import Provisioning.Ops.Fates
import Provisioning.Ops.Protocol

/-!
# What an attempt does about a miss

A read-back search that finds nothing is followed by one of two writes. An attempt on a create
that a requeue made `PENDING` again creates as soon as it has its lease and its configuration.
-/

namespace Provisioning

open Lib

/-! ## Stages -/

/-- What there is to do about a miss. `requeued` is after a requeue, and the four stages from
`claimed` on are of the attempt that follows it. -/
inductive Stage where
  | requeued
  | claimed
  | leased
  | configured
  | timed
  | missed
  | other
  deriving DecidableEq, Repr

def Stage.hear : Stage → (e : Io) → e.Answer → Stage
  | .claimed, .acquire _, .ok _ => .leased
  | .leased, .configOf _, .ok (some _) => .configured
  | .configured, .now, _ => .timed
  | _, .search .., .ok [] => .missed
  | _, _, _ => .other

/-- What an attempt has to do to come to its create. -/
def Stage.next : Stage → Io → Prop
  | .claimed, .acquire _ | .leased, .configOf _ | .configured, .now | .timed, .invoke (.create ..) => True
  | .claimed, _ | .leased, _ | .configured, _ | .timed, _ => False
  | _, _ => True

/-- The write that follows a miss, after so many requeues. -/
def missWrite (id : String) (requeues : Nat) : Io :=
  if requeues < 1 then .requeue id else .finalize id .indeterminate none (some "READBACK_MISS")

def missRule (op : ClaimedOperation) : Monitor Dispatch Stage where
  allows g e :=
    (g = .missed → e = missWrite op.id op.attemptCount) ∧ (op.opType = .create → g.next e)
  expects _ _ := True
  next := Stage.hear

namespace Dispatcher

variable {cfg : ResolvedDispatcherConfig} {op : ClaimedOperation}

/-! ## Attempts that do not search -/

theorem hear_of_no_search {g : Stage} {f : Facts} {e : Io} (resumed : op.priorStatus ≠ .awaitingReadback)
    (allowed : (protocol cfg op).allows f e) (x : e.Answer) :
    g.hear e x ≠ .missed ∧ (g = .other → g.hear e x = .other) := by
  cases e with
  | search => exact absurd allowed.2.2.2 resumed
  | acquire => cases g <;> cases x <;> simp [Stage.hear]
  | configOf =>
    rcases x with e | _ | c <;> cases g <;> simp [Stage.hear]
  | _ => cases g <;> simp [Stage.hear]

theorem Safe.unmissed {g : Stage} {f : Facts} {post : Facts → Except Failure Unit → Prop}
    {p : Prog Dispatch (Except Failure Unit)} (resumed : op.priorStatus ≠ .awaitingReadback)
    (safe : Prog.Safe (protocol cfg op) post f p) (unmissed : g ≠ .missed) (free : op.opType = .create → g = .other) :
    Prog.Safe (missRule op) (fun _ _ => True) g p := by
  refine (safe.simulate (fun _ g => g ≠ .missed ∧ (op.opType = .create → g = .other)) ?_ (fun _ _ _ => trivial) ?_
    ⟨unmissed, free⟩).mono fun _ _ _ => trivial
  · intro f g e h _
    refine ⟨fun hmissed => absurd hmissed h.1, fun hop => ?_⟩
    rw [h.2 hop]
    trivial
  · intro f g e x h allowed
    obtain ⟨hne, hother⟩ := hear_of_no_search resumed allowed x
    exact ⟨hne, fun hop => hother (h.2 hop)⟩

/-! ## The attempt that follows a requeue -/

theorem attempt_of_create (resumed : op.priorStatus ≠ .awaitingReadback) (hop : op.opType = .create) :
    attempt cfg op = (do
      match ← await (.configOf op.instanceId) fun r => r with
      | none => pure (.failed .rejectedPreDispatch "UNKNOWN_INSTANCE")
      | some runtime => do
        let now : Nat ← perform .now
        attemptCreate cfg op runtime ⟨now + runtime.attemptDeadlineMs.create, op.priority⟩) := by
  unfold attempt
  congr 1
  funext c
  cases c with
  | none => rfl
  | some runtime =>
    simp only [resumed, if_false, optionsFor, hop]
    rfl

theorem execute_creates (resumed : op.priorStatus ≠ .awaitingReadback) (hop : op.opType = .create) :
    Prog.Safe (missRule op) (fun _ _ => True) .claimed (execute cfg op).run := by
  have follows := execute_follows cfg op
  unfold Async.Safe at follows
  unfold execute at follows ⊢
  rw [attempt_of_create resumed hop] at follows ⊢
  refine ⟨⟨by simp, fun _ => trivial⟩, fun r _ => ?_⟩
  have leased := follows.resume r trivial
  cases r with
  | error e => exact Safe.unmissed resumed leased (by simp [missRule, Stage.hear]) (fun _ => rfl)
  | ok u =>
    refine ⟨⟨by simp [missRule, Stage.hear], fun _ => trivial⟩, fun r _ => ?_⟩
    have configured := leased.resume r trivial
    rcases r with e | _ | runtime
    · exact Safe.unmissed resumed configured (by simp [missRule, Stage.hear]) (fun _ => rfl)
    · exact Safe.unmissed resumed configured (by simp [missRule, Stage.hear]) (fun _ => rfl)
    · refine ⟨⟨by simp [missRule, Stage.hear], fun _ => trivial⟩, fun t _ => ?_⟩
      have timed := configured.resume t trivial
      refine ⟨⟨by simp [missRule, Stage.hear], fun _ => trivial⟩, fun u _ => ?_⟩
      exact Safe.unmissed resumed (timed.resume u trivial) (by simp [missRule, Stage.hear]) (fun _ => rfl)

/-! ## The attempt that resumes a read-back -/

theorem ask_other {α : Type} {e : Io} {result : e.Answer → Except Failure α} {post : Stage → Except Failure α → Prop}
    (h : ∀ x, post (Stage.hear .other e x) (result x)) : Async.Safe (missRule op) post .other (await e result) :=
  Async.Safe.call ⟨by simp, fun _ => trivial⟩ fun x _ => h x

theorem perform_other {e : Io} {post : Stage → Except Failure e.Answer → Prop}
    (h : ∀ x, post (Stage.hear .other e x) (.ok x)) : Async.Safe (missRule op) post .other (perform e) :=
  Async.Safe.ask ⟨by simp, fun _ => trivial⟩ fun x _ => h x

theorem resolveNameAttribute_unmissed :
    Async.Safe (missRule op) (fun g _ => g = .other) .other (resolveNameAttribute op) := by
  unfold resolveNameAttribute
  refine Async.Safe.catching (fun g _ => g = .other) ?_ (fun _ _ h => h) ?_
  · refine Async.Safe.bind (fun g _ => g = .other) (ask_other fun x => ?_) ?_ (fun _ _ h => h)
    · simp [Stage.hear]
    · rintro g schema rfl
      split <;> exact Async.Safe.pure rfl
  · rintro g e rfl
    exact Async.Safe.pure rfl

theorem readBackByName_misses {nameAttribute nameValue : String} {runtime : ResolvedInstanceConfig} :
    Async.Safe (missRule op) (fun g r => g = .other ∨ g = .missed ∧ r = .ok none) .other
      (readBackByName op nameAttribute nameValue runtime) := by
  unfold readBackByName
  refine Async.Safe.bind (fun g r => g = .other ∧ ∃ t, r = .ok t) (perform_other fun t => ?_) ?_ ?_
  · exact ⟨rfl, t, rfl⟩
  · rintro g t ⟨rfl, -⟩
    refine Async.Safe.bind (fun g r => g = .other ∨ g = .missed ∧ r = .ok []) (ask_other fun r => ?_) ?_ ?_
    · rcases r with e | _ | ⟨o, rest⟩
      · exact .inl rfl
      · exact .inr ⟨rfl, rfl⟩
      · exact .inl rfl
    · rintro g results (rfl | ⟨rfl, h⟩)
      · exact Async.Safe.pure (.inl rfl)
      · cases h
        exact Async.Safe.pure (.inr ⟨rfl, rfl⟩)
    · rintro g e (rfl | ⟨-, h⟩)
      · exact .inl rfl
      · cases h
  · rintro g e ⟨-, t, h⟩
    cases h

/-- What an attempt has resolved, when it may have missed. -/
def Judged (op : ClaimedOperation) (g : Stage) (r : Except Failure Resolution) : Prop :=
  g = .other ∨ g = .missed ∧ r = .ok (readBackVerdict op none)

theorem resumeReadBack_judged {runtime : ResolvedInstanceConfig} :
    Async.Safe (missRule op) (Judged op) .other (resumeReadBack op runtime) := by
  unfold resumeReadBack
  split
  · exact Async.Safe.pure (.inl rfl)
  · refine Async.Safe.bind _ resolveNameAttribute_unmissed ?_ (fun _ _ h => .inl h)
    rintro g name rfl
    refine Async.Safe.catching (Judged op) ?_ (fun _ _ h => h) ?_
    · refine Async.Safe.bind _ readBackByName_misses ?_ ?_
      · rintro g found (rfl | ⟨rfl, h⟩)
        · exact Async.Safe.pure (.inl rfl)
        · cases h
          exact Async.Safe.pure (.inr ⟨rfl, rfl⟩)
      · rintro g e (rfl | ⟨-, h⟩)
        · exact .inl rfl
        · cases h
    · rintro g e (rfl | ⟨-, h⟩)
      · exact Async.Safe.pure (.inl rfl)
      · cases h

theorem attempt_judged (resumed : op.priorStatus = .awaitingReadback) :
    Async.Safe (missRule op) (Judged op) .other (attempt cfg op) := by
  unfold attempt
  refine Async.Safe.bind (fun g _ => g = .other) (ask_other fun x => ?_) ?_ (fun _ _ h => .inl h)
  · simp [Stage.hear]
  · rintro g c rfl
    split
    · exact Async.Safe.pure (.inl rfl)
    · rw [if_pos resumed]
      exact resumeReadBack_judged

theorem logged_other {e : Io} {result : e.Answer → Except Failure Bool} (hout : e.outcome.isSome)
    {g : Stage} (allowed : (missRule op).allows g e) :
    Async.Safe (missRule op) (fun g _ => g = .other) g (logged e result) := by
  unfold logged
  refine Async.Safe.catching (fun g _ => g = .other) ?_ (fun _ _ h => h) ?_
  · refine Async.Safe.bind (fun g _ => g = .other) (Async.Safe.call allowed fun x _ => ?_) ?_ (fun _ _ h => h)
    · cases e <;> cases g <;> first | rfl | cases hout
    · rintro g b rfl
      exact Async.Safe.pure rfl
  · rintro g e rfl
    exact Async.Safe.pure rfl

theorem finalize_other (r : Resolution) :
    Async.Safe (missRule op) (fun g _ => g = .other) .other (finalize op r) := by
  have free (e : Io) : (missRule op).allows .other e := ⟨by simp, fun _ => trivial⟩
  have plain {e : Io} {β : Type} {f : e.Answer → DispatchM β} {post : Stage → Except Failure β → Prop}
      (hplain : ∀ x, Stage.hear .other e x = .other) (hf : ∀ x, Async.Safe (missRule op) post .other (f x)) :
      Async.Safe (missRule op) post .other (perform e >>= f) := by
    refine Async.Safe.bind (fun g r => g = .other ∧ ∃ x, r = .ok x) (perform_other fun x => ⟨hplain x, x, rfl⟩) ?_ ?_
    · rintro g x ⟨rfl, -⟩
      exact hf x
    · rintro g e ⟨-, x, h⟩
      cases h
  unfold finalize
  split
  · exact plain (fun _ => rfl) fun _ => logged_other rfl (free _)
  · split
    · exact plain (fun _ => rfl) fun _ => plain (fun _ => rfl) fun _ => logged_other rfl (free _)
    · exact logged_other rfl (free _)
  · exact logged_other rfl (free _)

/-- The verdict on a miss is written at once. -/
theorem finalize_missed :
    Async.Safe (missRule op) (fun g _ => g = .other) .missed (finalize op (readBackVerdict op none)) := by
  have verdict : readBackVerdict op none =
      if op.attemptCount < 1 then ⟨.requeue, none, some "READBACK_MISS", some 0⟩
      else .failed .indeterminate "READBACK_MISS" := rfl
  rw [verdict]
  split
  · rename_i hlt
    exact logged_other rfl ⟨fun _ => (if_pos hlt).symm, fun _ => trivial⟩
  · rename_i hlt
    exact logged_other rfl ⟨fun _ => (if_neg hlt).symm, fun _ => trivial⟩

theorem execute_reads_back (resumed : op.priorStatus = .awaitingReadback) :
    Prog.Safe (missRule op) (fun _ _ => True) .other (execute cfg op).run := by
  unfold execute
  refine Async.Safe.bind (fun g r => g = .other ∧ ∃ leased, r = .ok leased) (perform_other fun x => ?_) ?_ ?_
  · refine ⟨?_, x, rfl⟩
    simp [Stage.hear]
  · rintro g leased ⟨rfl, -⟩
    split
    · exact (finalize_other _).mono fun _ _ _ => trivial
    · refine Async.Safe.andFinally (fun g _ => g = .other) ?_ ?_
      · refine Async.Safe.catching (fun g r => g = .other) ?_ (fun _ _ h => h) ?_
        · refine Async.Safe.bind _ (attempt_judged resumed) ?_ ?_
          · rintro g r (rfl | ⟨rfl, h⟩)
            · exact finalize_other r
            · cases h
              exact finalize_missed
          · rintro g e (rfl | ⟨-, h⟩)
            · rfl
            · cases h
        · rintro g e rfl
          exact finalize_other _
      · rintro g r rfl
        exact perform_other fun _ => ⟨fun _ _ => trivial, fun _ _ => trivial⟩
  · rintro g e ⟨-, x, h⟩
    cases h

theorem execute_missRule {g : Stage}
    (h : g = .other ∨ g = .claimed ∧ op.priorStatus ≠ .awaitingReadback) :
    Prog.Safe (missRule op) (fun _ _ => True) g (execute cfg op).run := by
  by_cases resumed : op.priorStatus = .awaitingReadback
  · rcases h with rfl | ⟨-, h⟩
    · exact execute_reads_back resumed
    · exact absurd resumed h
  · have unmissed : g ≠ .missed := by rcases h with rfl | ⟨rfl, -⟩ <;> simp
    by_cases free : op.opType = .create → g = .other
    · exact Safe.unmissed resumed (execute_follows cfg op) unmissed free
    · rcases h with rfl | ⟨rfl, -⟩
      · simp at free
      · simp only [reduceCtorEq, imp_false, not_not] at free
        exact execute_creates resumed free

end Dispatcher

end Provisioning
