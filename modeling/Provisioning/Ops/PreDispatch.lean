import Provisioning.Ops.Outcomes

/-!
# `REJECTED_PRE_DISPATCH`

An attempt that gets no lease, or finds no definition, rejects its operation without a look at what
earlier attempts did. The status is sound in the runs where no such attempt is one of an operation
that was called.
-/

namespace Provisioning

open Lib

variable {advisoryLockKey : String → BitVec 64} {cfg : ResolvedDispatcherConfig}

/-- A mutating call was made. -/
def Event.isInvoke : Event → Bool
  | .heard (.invoke _) _ => true
  | _ => false

/-- The attempt got no lease, or found no definition. -/
def Facts.barred (f : Facts) : Prop := f.leased = some false ∨ f.configured = some false

instance (f : Facts) : Decidable f.barred := inferInstanceAs (Decidable (_ ∨ _))

namespace Deployment

variable {s s' : Deployment} {a : Action} {u : Uuid}

/-- Some attempt of the operation made a mutating call. -/
def Called (s : Deployment) (u : Uuid) : Prop := ∃ ent ∈ s.log, ent.row = u ∧ ent.event.isInvoke

instance (s : Deployment) (u : Uuid) : Decidable (s.Called u) :=
  inferInstanceAs (Decidable (∃ ent ∈ s.log, _ ∧ _))

def Rejected (s : Deployment) (u : Uuid) : Prop :=
  (s.db.row? u).any fun r => r.status = .final .rejectedPreDispatch

instance (s : Deployment) (u : Uuid) : Decidable (s.Rejected u) := inferInstanceAs (Decidable (_ = true))

/-- No barred attempt is one of an operation that was called. -/
def Apart (s : Deployment) : Prop := ∀ att ∈ s.attempts, (s.facts att.key).barred → ¬ s.Called att.row

instance (s : Deployment) : Decidable s.Apart := inferInstanceAs (Decidable (∀ att ∈ s.attempts, _ → _))

/-- No attempt makes a mutating call for an operation that ended so. -/
def callsBefore (o : OperationOutcome) (s : Deployment) : Action → Bool
  | .reply i _ =>
    s.attempts[i]?.all fun att =>
      match att.prog with
      | .await (.invoke _) _ => !(s.db.row? att.row).any fun r => r.status = .final o
      | _ => true
  | _ => true

/-- No attempt makes a mutating call for an operation that is rejected. -/
def callsOpen (s : Deployment) (a : Action) : Bool := s.callsBefore .rejectedPreDispatch a

/-- An attempt that holds its row calls an operation that is `RUNNING`. -/
theorem Held.callsBefore (inv : s.Held) (o : OperationOutcome) (a : Action) : s.callsBefore o a := by
  unfold Deployment.callsBefore
  split
  · rename_i i reply
    rw [Option.all_eq_true]
    intro att hi
    obtain ⟨r, p, hr, -⟩ := (inv.holds att (List.mem_of_getElem? hi)).row
    split
    · simp [hr, Row.claimed]
    · rfl
  · rfl

/-- **Only an attempt that outlived its claim calls after the end.** -/
theorem callsBefore_of_timely {now : Nat} {partitions : List Nat}
    (run : Runs (step advisoryLockKey cfg) (staysTimely cfg) (start now partitions) s) (o : OperationOutcome)
    (a : Action) : s.callsBefore o a := by
  have inv : s.Followed cfg ∧ s.Held :=
    run.invariant (fun s => s.Followed cfg ∧ s.Held) ⟨followed_start now partitions, held_start now partitions⟩
      fun _ _ _ inv h timely => ⟨inv.1.step (stepped h), inv.2.step inv.1 (stepped h) timely⟩
  exact inv.2.callsBefore o a

/-- The runs in which barred attempts and calls keep apart. -/
def keepsApart (s : Deployment) (a : Action) (s' : Deployment) : Prop := s'.Apart ∧ s.callsOpen a

instance (s : Deployment) (a : Action) (s' : Deployment) : Decidable (keepsApart s a s') :=
  inferInstanceAs (Decidable (_ ∧ _))

theorem Followed.not_called (inv : s.Followed cfg) {r : Row} (hr : s.db.row? u = some r)
    {op : ClaimedOperation} (hop : op.Describes r) (missing : op.missesUid) : ¬ s.Called u := by
  rintro ⟨ent, hent, rfl, hev⟩
  unfold Event.isInvoke at hev
  split at hev
  · rename_i heq
    obtain ⟨r', op', f, hr', hop', hallowed, -⟩ := inv.admitted ent hent _ (by rw [heq]; rfl)
    cases hr.symm.trans hr'
    refine hallowed.2.2.2.not_missesUid ⟨?_, ?_⟩
    · rw [hop'.opType, ← hop.opType]
      exact missing.1
    · rw [hop'.uid, ← hop.uid]
      exact missing.2
  · cases hev

theorem called_append {more : List Entry} (hlog : s'.log = s.log ++ more)
    (calm : ∀ ent ∈ more, ent.row = u → ent.event.isInvoke = false) (h : s'.Called u) : s.Called u := by
  obtain ⟨ent, hent, hrow, hev⟩ := h
  rcases List.mem_append.1 (hlog ▸ hent) with hent | hent
  · exact ⟨ent, hent, hrow, hev⟩
  · rw [calm ent hent hrow] at hev
    cases hev

theorem ended_iff (recorded : s.Recorded) (followed : s.Followed cfg) {o : OperationOutcome} :
    ((s.db.row? u).any fun r => r.status = .final o) ↔ resolution s.log u = some o := by
  simp only [Option.any_eq_true, decide_eq_true_eq]
  constructor
  · rintro ⟨r, hr, hst⟩
    rw [← recorded u r hr, hst]
    rfl
  · intro h
    cases hr : s.db.row? u with
    | none =>
      rw [followed.resolution_absent hr] at h
      cases h
    | some r =>
      refine ⟨r, rfl, ?_⟩
      rw [← recorded u r hr] at h
      cases hst : r.status with
      | live => simp [hst, OperationStatus.outcome?] at h
      | final o => simpa [hst, OperationStatus.outcome?] using h

/-- What a step logs: nothing of a call or of an outcome, or a call, or a write. -/
inductive LogStep (s : Deployment) (a : Action) (s' : Deployment) : Prop
  | quiet {more : List Entry} (log : s'.log = s.log ++ more) (unresolved : ∀ ent ∈ more, ent.event.resolution = none)
      (calm : ∀ ent ∈ more, ent.event.isInvoke = false)
  | invoked {i : Nat} {reply : Reply} {att : Attempt} {m : Mutation} {x : (Io.invoke m).Answer}
      {k : (Io.invoke m).Answer → Prog Dispatch (Except Failure Unit)} (act : a = .reply i reply)
      (hi : s.attempts[i]? = some att) (asks : att.prog = .await (.invoke m) k)
      (log : s'.log = s.log ++ [⟨att.row, att.claim, .heard (.invoke m) x⟩])
  | wrote {att : Attempt} {e : Io} {k : e.Answer → Prog Dispatch (Except Failure Unit)} {current : Nat}
      (hatt : att ∈ s.attempts) (asks : att.prog = .await e k)
      (log : s'.log = s.log ++ [⟨att.row, att.claim, .wrote e true current⟩])

theorem Stepped.logStep (h : Stepped advisoryLockKey cfg s a s') : s.LogStep a s' := by
  have one {p : Entry → Prop} {ent : Entry} (h : p ent) : ∀ ent' ∈ [ent], p ent' :=
    fun ent' h' => by rwa [List.mem_singleton.1 h']
  cases h with
  | database | reaped => exact .quiet (List.append_nil _).symm (by simp) (by simp)
  | committed =>
    refine .quiet rfl (fun ent hent => ?_) fun ent hent => ?_ <;> rw [(mem_newEntries hent).2.2] <;> rfl
  | @replied _ _ _ _ att e k x hi split asks =>
    cases e with
    | invoke m => exact .invoked rfl hi asks rfl
    | _ => exact .quiet rfl (one rfl) (one rfl)
  | wrote _ split asks => exact .wrote (split ▸ List.mem_append_right _ List.mem_cons_self) asks rfl
  | @writeLost _ _ _ _ e => exact .quiet rfl (one (by cases e <;> rfl)) (one rfl)
  | died =>
    refine .quiet rfl (fun ent hent => ?_) fun ent hent => ?_ <;>
    · obtain ⟨att, -, rfl⟩ := List.mem_map.1 hent
      rfl

theorem resolution_quiet {more : List Entry} (hlog : s'.log = s.log ++ more)
    (unresolved : ∀ ent ∈ more, ent.event.resolution = none) : resolution s'.log u = resolution s.log u := by
  rw [hlog, resolution_append, resolution_unresolved unresolved, Option.or_none]

theorem not_ended_of_invoked (recorded : s.Recorded) (followed : s.Followed cfg) {o : OperationOutcome} {i : Nat}
    {reply : Reply} {att : Attempt} {m : Mutation} {k : (Io.invoke m).Answer → Prog Dispatch (Except Failure Unit)}
    (calls : s.callsBefore o (.reply i reply)) (hi : s.attempts[i]? = some att)
    (asks : att.prog = .await (.invoke m) k) : resolution s.log att.row ≠ some o := by
  intro hres
  have hended := (ended_iff recorded followed).2 hres
  simp [callsBefore, hi, asks, hended] at calls

/-- The first outcome is the one that counts. -/
theorem resolution_write {att : Attempt} {e : Io} {current : Nat} {o : OperationOutcome}
    (hlog : s'.log = s.log ++ [⟨att.row, att.claim, .wrote e true current⟩]) (hres : resolution s'.log u = some o) :
    resolution s.log u = some o ∨ att.row = u ∧ ∃ id result errorCode, e = .finalize id o result errorCode := by
  rw [hlog, resolution_append] at hres
  cases hold : resolution s.log u with
  | some o' =>
    rw [hold, Option.some_or] at hres
    exact .inl hres
  | none =>
    right
    rw [hold, Option.none_or] at hres
    by_cases hu : att.row = u
    · refine ⟨hu, ?_⟩
      have hev : (Event.wrote e true current).resolution = some o := by simpa [resolution, hu] using hres
      unfold Event.resolution at hev
      split at hev
      · rename_i heq
        cases heq
        cases hev
        exact ⟨_, _, _, rfl⟩
      · cases hev
    · simp [resolution, hu] at hres

/-! ## The invariant -/

/-- No operation that the log rejects was called. -/
def RejectedUncalled (s : Deployment) : Prop :=
  ∀ u, resolution s.log u = some .rejectedPreDispatch → ¬ s.Called u

theorem RejectedUncalled.written (inv : s.RejectedUncalled) (followed : s.Followed cfg) (apart : s.Apart)
    {att : Attempt} {e : Io} {k : e.Answer → Prog Dispatch (Except Failure Unit)} {current : Nat}
    (hatt : att ∈ s.attempts) (asks : att.prog = .await e k)
    (hlog : s'.log = s.log ++ [⟨att.row, att.claim, .wrote e true current⟩]) : s'.RejectedUncalled := by
  intro u hres hcalled
  have hbefore : s.Called u := called_append hlog (fun ent hent _ => by rw [List.mem_singleton.1 hent]; rfl) hcalled
  rcases resolution_write hlog hres with hold | ⟨rfl, id, result, errorCode, rfl⟩
  · exact inv u hold hbefore
  · have own := followed.follows att hatt
    have hsafe := own.safe
    rw [asks] at hsafe
    obtain ⟨r, hr, hop⟩ := own.about
    obtain ⟨-, -, hcalls, hbarred | hbarred | hmissing⟩ := hsafe.allowed
    · exact apart att hatt (.inl hbarred) hbefore
    · exact apart att hatt (.inr hbarred) hbefore
    · exact followed.not_called hr hop hmissing hbefore

theorem RejectedUncalled.step (inv : s.RejectedUncalled) (recorded : s.Recorded) (followed : s.Followed cfg)
    (apart : s.Apart) (h : Stepped advisoryLockKey cfg s a s') (hopen : s.callsOpen a) : s'.RejectedUncalled := by
  cases h.logStep with
  | quiet hlog unresolved calm =>
    intro u hres hcalled
    rw [resolution_quiet hlog unresolved] at hres
    exact inv u hres (called_append hlog (fun ent hent _ => calm ent hent) hcalled)
  | @invoked i reply att m x k act hi asks hlog =>
    subst act
    intro u hres hcalled
    rw [resolution_quiet hlog (by simp [Event.resolution])] at hres
    refine inv u hres (called_append hlog (fun ent hent hrow => ?_) hcalled)
    rw [List.mem_singleton.1 hent] at hrow
    subst hrow
    exact absurd hres (not_ended_of_invoked recorded followed hopen hi asks)
  | wrote hatt asks hlog => exact inv.written followed apart hatt asks hlog

/-! ## The result -/

/-- **`REJECTED_PRE_DISPATCH` is sound** in every run, at any speed, in which barred attempts and
calls keep apart. -/
theorem rejected_was_never_called {now : Nat} {partitions : List Nat}
    (run : Runs (step advisoryLockKey cfg) keepsApart (start now partitions) s) (h : s.Rejected u) :
    ¬ s.Called u := by
  have inv : s.Followed cfg ∧ s.Recorded ∧ s.Apart ∧ s.RejectedUncalled := by
    refine run.invariant (fun s => s.Followed cfg ∧ s.Recorded ∧ s.Apart ∧ s.RejectedUncalled) ?_ ?_
    · refine ⟨followed_start now partitions, ?_, ?_, ?_⟩
      · intro u r hr
        cases hr
      · simp [Apart, start]
      · rintro u ⟨⟩
    · rintro s a s' ⟨followed, recorded, apart, inv⟩ h ⟨hapart, hopen⟩
      have hs := stepped h
      exact ⟨followed.step hs, recorded.step followed hs, hapart, inv.step recorded followed apart hs hopen⟩
  exact inv.2.2.2 u ((ended_iff inv.2.1 inv.1).1 h)

/-- An update is called, its answer is lost, and the second attempt gets no lease. -/
def rejectedAfterCall : List Action :=
  submitted 1 (request .update) 7 ++ claimedBy 1 1 7 ++
    replied 0 [.lease (.ok ()), .config (.ok (some someRuntime)), .time 0, .done,
      .settled (.error (.connector .connectionFailed true "reset")), .time 0, .done] ++
    [.write 0 (some 0)] ++ claimedBy 1 2 7 ++ replied 0 [.lease (.error (.other "pool exhausted"))] ++
    [.write 0 (some 0)]

theorem rejected_after_call :
    ∃ s, Runs (step (fun _ => 0) .DEFAULTS) anyStep (start 0 [0]) s ∧ s.Rejected 7 ∧ s.Called 7 := by
  have h : (exec (step (fun _ => 0) .DEFAULTS) anyStep (start 0 [0]) rejectedAfterCall).map
      (fun s => (decide (s.Rejected 7), decide (s.Called 7))) = some (true, true) := by
    decide
  obtain ⟨s, hs, h⟩ := Option.map_eq_some_iff.1 h
  simp only [Prod.mk.injEq, decide_eq_true_eq] at h
  exact ⟨s, runs_of_exec hs, h.1, h.2⟩

/-- The first attempt gets no lease, and its write is lost. The second finds no definition. -/
def rejectedUncalled : List Action :=
  submitted 1 (request .update) 7 ++ claimedBy 1 1 7 ++ replied 0 [.lease (.error (.other "pool exhausted"))] ++
    [.write 0 none, .database (.tick 600001), .reap 2000 600001 [7]] ++ claimedBy 2 2 7 ++
    replied 0 [.lease (.ok ()), .config (.ok none)] ++ [.write 0 (some 600001)]

theorem rejected_was_never_called_unregistered :
    ∃ s, exec (step (fun _ => 0) .DEFAULTS) keepsApart (start 0 [0]) rejectedUncalled = some s ∧
      s.Rejected 7 ∧ ¬ s.Called 7 := by
  have h : (exec (step (fun _ => 0) .DEFAULTS) keepsApart (start 0 [0]) rejectedUncalled).map
      (fun s => decide (s.Rejected 7)) = some true := by
    decide
  obtain ⟨s, hs, h⟩ := Option.map_eq_some_iff.1 h
  exact ⟨s, hs, of_decide_eq_true h, rejected_was_never_called (runs_of_exec hs) (of_decide_eq_true h)⟩

end Deployment

end Provisioning
