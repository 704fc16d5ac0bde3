import Provisioning.Ops.PreDispatch
import Provisioning.Ops.Transcript

/-!
# `FAILED_CONFIRMED`

An attempt reports `FAILED_CONFIRMED` by the error of its own call, whatever the error is and whatever
became of the calls of earlier attempts. The status means a refusal in the runs where that error comes
from the target, and no other call of the operation was left open or ended in another way.
-/

namespace Provisioning

open Lib

variable {advisoryLockKey : String → BitVec 64} {cfg : ResolvedDispatcherConfig}

/-- A `ConnectorError` that is not retryable. -/
def isRefusal : Except Failure (Option ConnectorObject) → Bool
  | .error (.connector _ false _) => true
  | _ => false

def Event.isRefusal : Event → Bool
  | .heard (.settle _) r => Provisioning.isRefusal r
  | _ => false

/-- What the one call of the attempt was answered. -/
def Facts.answer (f : Facts) : Option (Except Failure (Option ConnectorObject)) :=
  match f.calls with
  | [.invoked _, .settled _ r] => some r
  | _ => none

theorem Facts.answer_of_called {op : ClaimedOperation} {f : Facts} {m : Mutation}
    {r : Except Failure (Option ConnectorObject)} (h : f.called op m r) : f.answer = some r := by
  unfold answer
  rw [h.1]

instance (opType : OperationType) (r : Except Failure (Option ConnectorObject)) : Decidable (Refused opType r) :=
  match r, opType with
  | .error _, .delete => inferInstanceAs (Decidable (_ ∧ _))
  | .error _, .create | .error _, .update | .error _, .addValues | .error _, .removeValues =>
    inferInstanceAs (Decidable (_ ∨ _))
  | .ok none, _ => inferInstanceAs (Decidable (_ = _))
  | .ok (some _), _ => .isFalse not_false

namespace Deployment

variable {s s' : Deployment} {a : Action} {u : Uuid}

/-! ## The property -/

/-- The call of the attempt, which makes one at most, was answered by a `ConnectorError` that is not retryable. -/
def RefusedCall (s : Deployment) (key : Uuid × Nat) : Prop := ∃ ent ∈ s.log, ent.key = key ∧ ent.event.isRefusal

/-- So was every mutating call ever made for the operation. -/
def RefusedThroughout (s : Deployment) (u : Uuid) : Prop :=
  ∀ ent ∈ s.log, ent.row = u → ent.event.isInvoke → s.RefusedCall ent.key

def FailedConfirmed (s : Deployment) (u : Uuid) : Prop :=
  (s.db.row? u).any fun r => r.status = .final .failedConfirmed

instance (s : Deployment) (key : Uuid × Nat) : Decidable (s.RefusedCall key) :=
  inferInstanceAs (Decidable (∃ ent ∈ s.log, _ ∧ _))

instance (s : Deployment) (u : Uuid) : Decidable (s.RefusedThroughout u) :=
  inferInstanceAs (Decidable (∀ ent ∈ s.log, _ → _))

instance (s : Deployment) (u : Uuid) : Decidable (s.FailedConfirmed u) := inferInstanceAs (Decidable (_ = true))

/-! ## The condition -/

/-- An answer that an attempt takes for final is a `ConnectorError` that is not retryable. -/
def AnsweredByTarget (s : Deployment) : Prop :=
  ∀ att ∈ s.attempts, ∀ r ∈ (s.facts att.key).answer, Refused att.op.opType r → isRefusal r

/-- When an attempt takes its answer for final, the calls of the other attempts of its operation were refused too. -/
def OthersRefused (s : Deployment) : Prop :=
  ∀ att ∈ s.attempts, ∀ r ∈ (s.facts att.key).answer, Refused att.op.opType r →
    ∀ ent ∈ s.log, ent.row = att.row → ent.key ≠ att.key → ent.event.isInvoke → s.RefusedCall ent.key

instance (s : Deployment) : Decidable s.AnsweredByTarget :=
  inferInstanceAs (Decidable (∀ att ∈ s.attempts, ∀ r ∈ (s.facts att.key).answer, _ → _))

instance (s : Deployment) : Decidable s.OthersRefused :=
  inferInstanceAs (Decidable (∀ att ∈ s.attempts, ∀ r ∈ (s.facts att.key).answer, _ → ∀ ent ∈ s.log, _))

/-- The answers come from the target, the calls before them were refused, and no attempt calls the target once the
operation is `FAILED_CONFIRMED`. -/
def refusesThroughout (s : Deployment) (a : Action) (s' : Deployment) : Prop :=
  s'.AnsweredByTarget ∧ s'.OthersRefused ∧ s.callsBefore .failedConfirmed a

instance (s : Deployment) (a : Action) (s' : Deployment) : Decidable (refusesThroughout s a s') :=
  inferInstanceAs (Decidable (_ ∧ _ ∧ _))

/-! ## The invariant -/

/-- The operations that the log has confirmed as failed were refused throughout. -/
def Confirmed (s : Deployment) : Prop :=
  ∀ u, resolution s.log u = some .failedConfirmed → s.RefusedThroughout u

theorem answer_heard (op : ClaimedOperation) {key : Uuid × Nat} {r : Except Failure (Option ConnectorObject)}
    (h : (s.facts key).answer = some r) : ∃ m, (⟨key.1, key.2, .heard (.settle m) r⟩ : Entry) ∈ s.log := by
  have hcall : ∃ m, Call.settled m r ∈ (s.facts key).calls := by
    unfold Facts.answer at h
    split at h
    · rename_i m m' r' hcalls
      obtain rfl := Option.some.inj h
      exact ⟨m', by simp [hcalls]⟩
    · cases h
  obtain ⟨m, hcall⟩ := hcall
  have hrecall : s.facts key = (protocol .DEFAULTS op).recall .nothing (s.transcript key) := facts_eq_recall op key
  rw [hrecall] at hcall
  obtain ⟨⟨e, x⟩, hx, f, hnot, hknown⟩ :=
    Prog.recall_learned (fun f : Facts => Call.settled m r ∈ f.calls) (by simp [Facts.nothing]) hcall
  have hlearned : (⟨e, x⟩ : Heard) = ⟨.settle m, r⟩ := by
    cases e <;> try exact absurd hknown hnot
    case configOf => cases x <;> exact absurd hknown hnot
    case invoke => exact absurd (by simpa [protocol, Facts.hear] using hknown) hnot
    case settle =>
      rcases List.mem_append.1 hknown with hold | hnew
      · exact absurd hold hnot
      · cases List.mem_singleton.1 hnew
        rfl
  exact ⟨m, mem_transcriptOf.1 (hlearned ▸ hx)⟩

theorem RefusedThroughout.append {more : List Entry} (h : s.RefusedThroughout u) (hlog : s'.log = s.log ++ more)
    (calm : ∀ ent ∈ more, ent.row = u → ent.event.isInvoke = false) : s'.RefusedThroughout u := by
  intro ent hent hrow hinvoke
  rcases List.mem_append.1 (hlog ▸ hent) with hent | hent
  · obtain ⟨ent', hent', hkey, hrefusal⟩ := h ent hent hrow hinvoke
    exact ⟨ent', hlog ▸ List.mem_append_left _ hent', hkey, hrefusal⟩
  · rw [calm ent hent hrow] at hinvoke
    cases hinvoke

theorem refusedThroughout_of_ruled (answered : s.AnsweredByTarget) (others : s.OthersRefused) {att : Attempt}
    (hatt : att ∈ s.attempts) (ruled : Ruled cfg att.op (s.facts att.key) (.final .failedConfirmed)) :
    s.RefusedThroughout att.row := by
  obtain ⟨m, r, hcalled, href⟩ := ruled
  have hanswer := Facts.answer_of_called hcalled
  intro ent hent hrow hinvoke
  by_cases hkey : ent.key = att.key
  · obtain ⟨m', hheard⟩ := answer_heard att.op hanswer
    exact ⟨_, hheard, hkey.symm, answered att hatt r hanswer href⟩
  · exact others att hatt r hanswer href ent hent hrow hkey hinvoke

theorem Confirmed.step (inv : s.Confirmed) (recorded : s.Recorded) (followed : s.Followed cfg)
    (answered : s.AnsweredByTarget) (others : s.OthersRefused) (h : Stepped advisoryLockKey cfg s a s')
    (calls : s.callsBefore .failedConfirmed a) : s'.Confirmed := by
  cases h.logStep with
  | quiet hlog unresolved calm =>
    intro u hres
    rw [resolution_quiet hlog unresolved] at hres
    exact (inv u hres).append hlog fun ent hent _ => calm ent hent
  | @invoked i reply att m x k act hi asks hlog =>
    subst act
    intro u hres
    rw [resolution_quiet hlog (by simp [Event.resolution])] at hres
    refine (inv u hres).append hlog fun ent hent hrow => ?_
    rw [List.mem_singleton.1 hent] at hrow
    subst hrow
    exact absurd hres (not_ended_of_invoked recorded followed calls hi asks)
  | @wrote att e k current hatt asks hlog =>
    intro u hres
    refine RefusedThroughout.append ?_ hlog fun ent hent _ => by rw [List.mem_singleton.1 hent]; rfl
    rcases resolution_write hlog hres with hold | ⟨rfl, id, result, errorCode, rfl⟩
    · exact inv u hold
    · have hsafe := (followed.follows att hatt).safe
      rw [asks] at hsafe
      exact refusedThroughout_of_ruled answered others hatt hsafe.allowed.2.2

/-! ## The result -/

/-- **`FAILED_CONFIRMED` means that the target refused** every call of the operation, in every run, at any speed, whose
answers come from the target and whose calls before were refused. -/
theorem failed_confirmed_refused {now : Nat} {partitions : List Nat}
    (run : Runs (step advisoryLockKey cfg) refusesThroughout (start now partitions) s) (h : s.FailedConfirmed u) :
    s.RefusedThroughout u := by
  have inv : s.Followed cfg ∧ s.Recorded ∧ s.AnsweredByTarget ∧ s.OthersRefused ∧ s.Confirmed := by
    refine run.invariant (fun s => s.Followed cfg ∧ s.Recorded ∧ s.AnsweredByTarget ∧ s.OthersRefused ∧ s.Confirmed)
      ⟨followed_start now partitions, ?_, ?_, ?_, ?_⟩ ?_
    · intro u r hr
      cases hr
    · simp [AnsweredByTarget, start]
    · simp [OthersRefused, start]
    · rintro u ⟨⟩
    · rintro s a s' ⟨followed, recorded, answered, others, inv⟩ h ⟨hanswered, hothers, calls⟩
      have hs := stepped h
      exact ⟨followed.step hs, recorded.step followed hs, hanswered, hothers,
        inv.step recorded followed answered others hs calls⟩
  exact inv.2.2.2.2 u ((ended_iff inv.2.1 inv.1).1 h)

def triedOnce (op : EnqueueInput) (answer : Except Failure (Option ConnectorObject)) : List Action :=
  submitted 1 op 7 ++ claimedBy 1 1 7 ++
    replied 0 [.lease (.ok ()), .config (.ok (some someRuntime)), .time 0, .done, .settled answer]

/-- The answer to a create is lost, and the second attempt finds the name taken. -/
def confirmedAfterRetry : List Action :=
  triedOnce (request .create) (.error (.connector .connectionFailed true "reset")) ++ replied 0 [.time 0, .done] ++
    [.write 0 (some 0)] ++ claimedBy 1 2 7 ++
    replied 0 [.lease (.ok ()), .config (.ok (some someRuntime)), .time 0, .done,
      .settled (.error (.connector .alreadyExists false "taken"))] ++
    [.write 0 (some 0)]

/-- The facade throws before it calls the target. -/
def confirmedUnasked : List Action :=
  triedOnce (request .update) (.error (.other "circuit open")) ++ [.write 0 (some 0)]

theorem failed_confirmed_unrefused :
    (∃ s, Runs (step (fun _ => 0) .DEFAULTS) anyStep (start 0 [0]) s ∧ s.FailedConfirmed 7 ∧ ¬ s.RefusedThroughout 7) ∧
      ∃ s, exec (step (fun _ => 0) .DEFAULTS) anyStep (start 0 [0]) confirmedUnasked = some s ∧ s.FailedConfirmed 7 ∧
        ¬ s.RefusedThroughout 7 := by
  have h : (exec (step (fun _ => 0) .DEFAULTS) anyStep (start 0 [0]) confirmedAfterRetry).map
      (fun s => (decide (s.FailedConfirmed 7), decide (s.RefusedThroughout 7))) = some (true, false) := by
    decide
  have h' : (exec (step (fun _ => 0) .DEFAULTS) anyStep (start 0 [0]) confirmedUnasked).map
      (fun s => (decide (s.FailedConfirmed 7), decide (s.RefusedThroughout 7))) = some (true, false) := by
    decide
  obtain ⟨s, hs, h⟩ := Option.map_eq_some_iff.1 h
  obtain ⟨s', hs', h'⟩ := Option.map_eq_some_iff.1 h'
  simp only [Prod.mk.injEq, decide_eq_true_eq, decide_eq_false_iff_not] at h h'
  exact ⟨⟨s, runs_of_exec hs, h⟩, s', hs', h'⟩

/-- The write of a refused attempt is lost, and the next attempt is refused as well. -/
def refusedTwice : List Action :=
  triedOnce (request .update) (.error (.connector .unknownUid false "gone")) ++
    [.write 0 none, .database (.tick 600001), .reap 2000 600001 [7]] ++ claimedBy 2 2 7 ++
    replied 0 [.lease (.ok ()), .config (.ok (some someRuntime)), .time 600001, .done,
      .settled (.error (.connector .unknownUid false "gone"))] ++
    [.write 0 (some 600001)]

theorem failed_confirmed_refused_twice :
    ∃ s, exec (step (fun _ => 0) .DEFAULTS) refusesThroughout (start 0 [0]) refusedTwice = some s ∧
      s.FailedConfirmed 7 ∧ s.RefusedThroughout 7 := by
  have h : (exec (step (fun _ => 0) .DEFAULTS) refusesThroughout (start 0 [0]) refusedTwice).map
      (fun s => decide (s.FailedConfirmed 7)) = some true := by
    decide
  obtain ⟨s, hs, h⟩ := Option.map_eq_some_iff.1 h
  exact ⟨s, hs, of_decide_eq_true h, failed_confirmed_refused (runs_of_exec hs) (of_decide_eq_true h)⟩

end Deployment

end Provisioning
