import Provisioning.Ops.Dispatcher

/-!
# The resolution protocol

What an attempt may do next, given what it has heard so far: at most one call that changes the
target, only a search when it resumes a read-back, and one write, whose outcome is ruled by what
was heard. `execute` follows it.
-/

namespace Provisioning

open Lib

inductive Call where
  | invoked (m : Mutation)
  | settled (m : Mutation) (result : Except Failure (Option ConnectorObject))

/-- What an attempt has heard. -/
structure Facts where
  leased : Option Bool
  configured : Option Bool
  calls : List Call
  capabilities : Option ConnectorCapabilities
  found : Option (Except Failure (List ConnectorObject))
  wrote : Bool

namespace Facts

def nothing : Facts := ⟨none, none, [], none, none, false⟩

def hear (f : Facts) : (e : Io) → e.Answer → Facts
  | .acquire _, r => { f with leased := some (Except.isOk r) }
  | .configOf _, .ok c => { f with configured := some c.isSome }
  | .configOf _, .error _ => f
  | .capabilitiesOf _, caps => { f with capabilities := some caps }
  | .search .., r => { f with found := some r }
  | .invoke m, _ => { f with calls := f.calls ++ [.invoked m] }
  | .settle m, r => { f with calls := f.calls ++ [.settled m r] }
  | .finalize .., _ | .requeue _, _ | .deferForReadback .., _ => { f with wrote := true }
  | .now, _ | .schema, _ | .release, _ | .deferLane .., _ => f

end Facts

/-! ## Rulings -/

def OperationType.isDelta : OperationType → Bool
  | .addValues | .removeValues => true
  | _ => false

/-- The delta names no object. -/
def ClaimedOperation.missesUid (op : ClaimedOperation) : Prop :=
  op.opType.isDelta ∧ (op.uid = none ∨ op.uid = some "")

/-- The call is the one that the operation asks for. -/
def Mutation.fits (op : ClaimedOperation) : Mutation → Prop
  | .create objectClass attrs _ =>
    op.opType = .create ∧ objectClass = op.objectClass ∧ attrs = Dispatcher.attrsOf op
  | .update objectClass uid attrs _ =>
    op.opType = .update ∧ objectClass = op.objectClass ∧ uid = op.uid ∧ attrs = Dispatcher.attrsOf op
  | .delete objectClass uid _ => op.opType = .delete ∧ objectClass = op.objectClass ∧ uid = op.uid
  | .addAttributeValues objectClass uid attrs _ =>
    op.opType = .addValues ∧ objectClass = op.objectClass ∧ some uid = op.uid ∧ uid ≠ "" ∧
      attrs = Dispatcher.attrsOf op
  | .removeAttributeValues objectClass uid attrs _ =>
    op.opType = .removeValues ∧ objectClass = op.objectClass ∧ some uid = op.uid ∧ uid ≠ "" ∧
      attrs = Dispatcher.attrsOf op

theorem Mutation.fits.not_missesUid {op : ClaimedOperation} {m : Mutation} (h : m.fits op) : ¬ op.missesUid := by
  rintro ⟨hdelta, huid⟩
  unfold OperationType.isDelta at hdelta
  cases m <;> simp only [Mutation.fits] at h <;> rw [h.1] at hdelta
  case addAttributeValues | removeAttributeValues =>
    obtain ⟨-, -, hsome, hne, -⟩ := h
    rw [← hsome] at huid
    simp [hne] at huid
  all_goals cases hdelta

/-- The call ended, not by its deadline, and not in a way that is retried or counts as success. The
last case is a create that returned no object. -/
def Refused (opType : OperationType) : Except Failure (Option ConnectorObject) → Prop
  | .error e =>
    match opType with
    | .create => e.hasCode .alreadyExists ∨ ¬ Dispatcher.isRetryable e
    | .delete => ¬ e.hasCode .unknownUid ∧ ¬ Dispatcher.isRetryable e
    | _ => e.hasCode .unknownUid ∨ ¬ Dispatcher.isRetryable e
  | .ok none => opType = .create
  | .ok (some _) => False

variable (cfg : ResolvedDispatcherConfig) (op : ClaimedOperation)

/-- The attempt's one call, with its result. -/
def Facts.called (f : Facts) (m : Mutation) (r : Except Failure (Option ConnectorObject)) : Prop :=
  f.calls = [.invoked m, .settled m r] ∧ m.fits op

/-- When an attempt that heard `f` may end with this outcome. -/
def Ruled (f : Facts) : ResolutionOutcome → Prop
  | .final .succeeded =>
    (∃ m o, f.called op m (.ok o)) ∨
    (∃ m e, f.called op m (.error e) ∧ op.opType = .delete ∧ e.hasCode .unknownUid) ∨
    (f.calls = [] ∧ op.priorStatus = .awaitingReadback ∧ ∃ o rest, f.found = some (.ok (o :: rest)))
  | .final .rejectedPreDispatch =>
    f.calls = [] ∧ (f.leased = some false ∨ f.configured = some false ∨ op.missesUid)
  | .final .failedConfirmed => ∃ m r, f.called op m r ∧ Refused op.opType r
  | .final .indeterminate => True
  | .requeue =>
    (∃ m e, f.called op m (.error e) ∧ Dispatcher.isRetryable e ∧
      (op.opType = .create → ¬ e.isDeadlineExpired) ∧
      (op.opType.isDelta → ∃ caps, f.capabilities = some caps ∧ caps.idempotentDelta = true) ∧
      op.attemptCount + 1 < cfg.maxAttempts) ∨
    (f.calls = [] ∧ op.priorStatus = .awaitingReadback ∧ f.found = some (.ok []) ∧ op.attemptCount < 1)
  | .deferReadback =>
    op.opType = .create ∧ ∃ m e, f.called op m (.error e) ∧ e.isDeadlineExpired ∧
      ∃ caps, f.capabilities = some caps ∧ caps.equalitySearchOnName = true

/-- The protocol as a monitor of an attempt. Any answer may come. -/
def protocol : Monitor Dispatch Facts where
  allows f
    | .invoke m => f.wrote = false ∧ f.calls = [] ∧ op.priorStatus ≠ .awaitingReadback ∧ m.fits op
    | .settle m => f.wrote = false ∧ f.calls = [.invoked m]
    | .search .. => f.wrote = false ∧ f.calls = [] ∧ f.found = none ∧ op.priorStatus = .awaitingReadback
    | .finalize id outcome _ _ => f.wrote = false ∧ id = op.id ∧ Ruled cfg op f (.final outcome)
    | .requeue id => f.wrote = false ∧ id = op.id ∧ Ruled cfg op f .requeue
    | .deferForReadback id _ => f.wrote = false ∧ id = op.id ∧ Ruled cfg op f .deferReadback
    | .acquire instanceId | .configOf instanceId | .capabilitiesOf instanceId => instanceId = op.instanceId
    | .now | .schema | .release | .deferLane .. => True
  expects _ _ := True
  next := Facts.hear

/-! ## The functions of the dispatcher follow it -/

namespace Dispatcher

variable {cfg : ResolvedDispatcherConfig} {op : ClaimedOperation} {f : Facts}

/-- How far an attempt is after `attempt` has returned or thrown. -/
def Concluded (cfg : ResolvedDispatcherConfig) (op : ClaimedOperation) (f : Facts) :
    Except Failure Resolution → Prop
  | .ok r => f.wrote = false ∧ Ruled cfg op f r.outcome
  | .error _ => f.wrote = false

theorem facade_follows {m : Mutation} (hw : f.wrote = false) (hc : f.calls = [])
    (hp : op.priorStatus ≠ .awaitingReadback) (hm : m.fits op) :
    Async.Safe (protocol cfg op)
      (fun f' r => f' = { f with calls := [.invoked m, .settled m r] } ∧ f'.called op m r) f (facade m) := by
  refine Async.Safe.bind (fun f' r => f' = { f with calls := [.invoked m] } ∧ ∃ u, r = .ok u) ?_ ?_ ?_
  · refine Async.Safe.ask ⟨hw, hc, hp, hm⟩ fun a _ => ?_
    refine ⟨?_, a, rfl⟩
    simp [protocol, Facts.hear, hc]
  · rintro f' u ⟨rfl, -⟩
    refine Async.Safe.call ⟨hw, rfl⟩ fun r _ => ?_
    exact ⟨rfl, rfl, hm⟩
  · rintro f' e ⟨-, u, hu⟩
    cases hu

theorem tryFacade_follows {m : Mutation} {g : Option ConnectorObject → DispatchM Resolution}
    {handler : Failure → DispatchM Resolution} (hw : f.wrote = false) (hc : f.calls = [])
    (hp : op.priorStatus ≠ .awaitingReadback) (hm : m.fits op)
    (hok : ∀ o, ({ f with calls := [.invoked m, .settled m (.ok o)] } : Facts).called op m (.ok o) →
      Async.Safe (protocol cfg op)
        (fun f' r => (∀ res, r = .ok res → Concluded cfg op f' (.ok res)) ∧
          ∀ e, r = .error e → Async.Safe (protocol cfg op) (Concluded cfg op) f' (handler e))
        { f with calls := [.invoked m, .settled m (.ok o)] } (g o))
    (herror : ∀ e, ({ f with calls := [.invoked m, .settled m (.error e)] } : Facts).called op m (.error e) →
      Async.Safe (protocol cfg op) (Concluded cfg op)
        { f with calls := [.invoked m, .settled m (.error e)] } (handler e)) :
    Async.Safe (protocol cfg op) (Concluded cfg op) f (Async.catching (do g (← facade m)) handler) := by
  refine Async.Safe.catching (fun f' r => (∀ res, r = .ok res → Concluded cfg op f' (.ok res)) ∧
    ∀ e, r = .error e → Async.Safe (protocol cfg op) (Concluded cfg op) f' (handler e)) ?_ ?_ ?_
  · refine Async.Safe.bind _ (facade_follows hw hc hp hm) ?_ ?_
    · rintro f' o ⟨rfl, hcalled⟩
      exact hok o hcalled
    · rintro f' e ⟨rfl, hcalled⟩
      refine ⟨fun res hres => (by cases hres), fun e' he' => ?_⟩
      cases he'
      exact herror e hcalled
  · exact fun f' res h => h.1 res rfl
  · exact fun f' e h => h.2 e rfl

theorem pure_follows {m : Mutation} {o : Option ConnectorObject} {f' : Facts} {res : Resolution}
    {handler : Failure → DispatchM Resolution} (hw : f'.wrote = false) (hcalled : f'.called op m (.ok o))
    (hres : res.outcome = .final .succeeded) :
    Async.Safe (protocol cfg op)
      (fun f' r => (∀ res, r = .ok res → Concluded cfg op f' (.ok res)) ∧
        ∀ e, r = .error e → Async.Safe (protocol cfg op) (Concluded cfg op) f' (handler e)) f' (pure res) := by
  refine Async.Safe.pure ⟨fun res' h => ?_, fun e h => by cases h⟩
  cases h
  refine ⟨hw, ?_⟩
  rw [hres]
  exact .inl ⟨m, o, hcalled⟩

theorem backoffOrGiveUp_follows {m : Mutation} {e : Failure} {code : String} (hw : f.wrote = false)
    (hcalled : f.called op m (.error e)) (hretry : isRetryable e)
    (hcreate : op.opType = .create → ¬ e.isDeadlineExpired)
    (hdelta : op.opType.isDelta → ∃ caps, f.capabilities = some caps ∧ caps.idempotentDelta = true) :
    Concluded cfg op f (.ok (backoffOrGiveUp cfg op code .indeterminate)) := by
  unfold backoffOrGiveUp
  refine ⟨hw, ?_⟩
  split
  · exact trivial
  · rename_i hlt
    exact .inl ⟨m, e, hcalled, hretry, hcreate, hdelta, by omega⟩

theorem refused_follows {m : Mutation} {r : Except Failure (Option ConnectorObject)} {code : String}
    (hw : f.wrote = false) (hcalled : f.called op m r) (href : Refused op.opType r) :
    Concluded cfg op f (.ok (.failed .failedConfirmed code)) :=
  ⟨hw, m, r, hcalled, href⟩

theorem indeterminate_follows {code : String} (hw : f.wrote = false) :
    Concluded cfg op f (.ok (.failed .indeterminate code)) := ⟨hw, trivial⟩

theorem resolveCreateAfterDeadline_follows {m : Mutation} {e : Failure} {runtime : ResolvedInstanceConfig}
    (hw : f.wrote = false) (hop : op.opType = .create) (hcalled : f.called op m (.error e))
    (hdead : e.isDeadlineExpired) :
    Async.Safe (protocol cfg op) (Concluded cfg op) f (resolveCreateAfterDeadline cfg op runtime) := by
  unfold resolveCreateAfterDeadline
  refine Async.Safe.bind (fun f' r => ∃ caps, r = .ok caps ∧ f' = { f with capabilities := some caps }) ?_ ?_ ?_
  · exact Async.Safe.ask rfl fun caps _ => ⟨caps, rfl, rfl⟩
  · rintro f' caps ⟨_, h, rfl⟩
    cases h
    split
    · exact Async.Safe.pure (indeterminate_follows hw)
    · rename_i hcap
      split
      · exact Async.Safe.pure (indeterminate_follows hw)
      · refine Async.Safe.pure ⟨hw, hop, m, e, hcalled, hdead, caps, rfl, ?_⟩
        simpa using hcap
  · rintro f' e ⟨_, h, -⟩
    cases h

theorem attemptCreate_follows {runtime : ResolvedInstanceConfig} {options : OperationOptions}
    (hw : f.wrote = false) (hc : f.calls = []) (hp : op.priorStatus ≠ .awaitingReadback)
    (hop : op.opType = .create) :
    Async.Safe (protocol cfg op) (Concluded cfg op) f (attemptCreate cfg op runtime options) := by
  unfold attemptCreate
  refine tryFacade_follows hw hc hp ⟨hop, rfl, rfl⟩ (fun o hcalled => ?_) fun e hcalled => ?_
  · cases o with
    | none =>
      -- Reading `uid` of nothing throws inside the `try`, and takes the last branch of the handler.
      refine Async.Safe.throw ⟨fun _ h => (by cases h), fun e h => ?_⟩
      cases h
      exact Async.Safe.pure (refused_follows hw hcalled hop)
    | some created => exact pure_follows hw hcalled rfl
  · split
    · rename_i hexists
      refine Async.Safe.pure (refused_follows hw hcalled ?_)
      simp only [Refused, hop]
      exact .inl hexists
    · split
      · rename_i hdead
        exact resolveCreateAfterDeadline_follows hw hop hcalled hdead
      · rename_i hdead
        split
        · rename_i hretry
          refine Async.Safe.pure (backoffOrGiveUp_follows hw hcalled ?_ (fun _ => hdead) ?_)
          · unfold isRetryable
            rw [hretry, Bool.or_true]
          · simp [hop, OperationType.isDelta]
        · rename_i hretry
          refine Async.Safe.pure (refused_follows hw hcalled ?_)
          simp only [Refused, hop, isRetryable]
          exact .inr (by simp_all)

theorem attemptUpdate_follows {options : OperationOptions} (hw : f.wrote = false) (hc : f.calls = [])
    (hp : op.priorStatus ≠ .awaitingReadback) (hop : op.opType = .update) :
    Async.Safe (protocol cfg op) (Concluded cfg op) f (attemptUpdate cfg op options) := by
  unfold attemptUpdate
  refine tryFacade_follows hw hc hp ⟨hop, rfl, rfl, rfl⟩ (fun o hcalled => pure_follows hw hcalled rfl)
    fun e hcalled => ?_
  split
  · rename_i hunknown
    refine Async.Safe.pure (refused_follows hw hcalled ?_)
    simp only [Refused, hop]
    exact .inl hunknown
  · split
    · rename_i hretry
      refine Async.Safe.pure (refused_follows hw hcalled ?_)
      simp only [Refused, hop]
      exact .inr (by simpa using hretry)
    · rename_i hretry
      refine Async.Safe.pure (backoffOrGiveUp_follows hw hcalled (by simpa using hretry) ?_ ?_)
      · simp [hop]
      · simp [hop, OperationType.isDelta]

theorem deltaGate_follows {m : Mutation} {e : Failure} (hw : f.wrote = false) (hop : op.opType.isDelta)
    (hcalled : f.called op m (.error e)) (hretry : isRetryable e) :
    Async.Safe (protocol cfg op) (Concluded cfg op) f (do
      let caps : ConnectorCapabilities ← perform (.capabilitiesOf op.instanceId)
      if !caps.idempotentDelta then pure (.failed .indeterminate "DELTA_NOT_IDEMPOTENT")
      else pure (backoffOrGiveUp cfg op e.codeOf .indeterminate)) := by
  refine Async.Safe.bind (fun f' r => ∃ caps, r = .ok caps ∧ f' = { f with capabilities := some caps }) ?_ ?_ ?_
  · exact Async.Safe.ask rfl fun caps _ => ⟨caps, rfl, rfl⟩
  · rintro f' caps ⟨_, h, rfl⟩
    cases h
    split
    · exact Async.Safe.pure (indeterminate_follows hw)
    · rename_i hcap
      refine Async.Safe.pure (backoffOrGiveUp_follows hw hcalled hretry ?_ fun _ => ⟨caps, rfl, ?_⟩)
      · intro hcreate
        simp [hcreate, OperationType.isDelta] at hop
      · simpa using hcap
  · rintro f' e ⟨_, h, -⟩
    cases h

theorem refused_of_delta {e : Failure} (hop : op.opType.isDelta)
    (h : e.hasCode .unknownUid ∨ ¬ isRetryable e) : Refused op.opType (.error e) := by
  unfold OperationType.isDelta at hop
  unfold Refused
  split at hop <;> simp_all

theorem attemptDelta_follows {options : OperationOptions} (hw : f.wrote = false) (hc : f.calls = [])
    (hp : op.priorStatus ≠ .awaitingReadback) (hop : op.opType = .addValues ∨ op.opType = .removeValues) :
    Async.Safe (protocol cfg op) (Concluded cfg op) f (attemptDelta cfg op options) := by
  have hdelta : op.opType.isDelta := by
    rcases hop with h | h <;> rw [h] <;> rfl
  have missing (huid : op.uid = none ∨ op.uid = some "") :
      Async.Safe (protocol cfg op) (Concluded cfg op) f
        (pure (.failed .rejectedPreDispatch "MISSING_UID")) :=
    Async.Safe.pure ⟨hw, hc, .inr (.inr ⟨hdelta, huid⟩)⟩
  have handled {m : Mutation} {e : Failure}
      (hcalled : ({ f with calls := [.invoked m, .settled m (.error e)] } : Facts).called op m (.error e)) :
      Async.Safe (protocol cfg op) (Concluded cfg op) { f with calls := [.invoked m, .settled m (.error e)] }
        (if e.hasCode .unknownUid then pure (.failed .failedConfirmed "UNKNOWN_UID")
        else if !isRetryable e then pure (.failed .failedConfirmed e.codeOf)
        else do
          let caps : ConnectorCapabilities ← perform (.capabilitiesOf op.instanceId)
          if !caps.idempotentDelta then pure (.failed .indeterminate "DELTA_NOT_IDEMPOTENT")
          else pure (backoffOrGiveUp cfg op e.codeOf .indeterminate)) := by
    split
    · rename_i hunknown
      exact Async.Safe.pure (refused_follows hw hcalled (refused_of_delta hdelta (.inl hunknown)))
    · split
      · rename_i hretry
        exact Async.Safe.pure (refused_follows hw hcalled (refused_of_delta hdelta (.inr (by simpa using hretry))))
      · rename_i hretry
        exact deltaGate_follows hw hdelta hcalled (by simpa using hretry)
  unfold attemptDelta
  split
  · exact missing (.inl ‹_›)
  · exact missing (.inr ‹_›)
  · rename_i uid hne huid
    have hpresent : uid ≠ "" := by simpa using hne
    rcases hop with hop | hop
    · simp only [hop, if_true]
      exact tryFacade_follows hw hc hp ⟨hop, rfl, huid.symm, hpresent, rfl⟩
        (fun o hcalled => pure_follows hw hcalled rfl) fun e => handled
    · simp only [hop, if_false, reduceCtorEq]
      exact tryFacade_follows hw hc hp ⟨hop, rfl, huid.symm, hpresent, rfl⟩
        (fun o hcalled => pure_follows hw hcalled rfl) fun e => handled

theorem attemptDelete_follows {options : OperationOptions} (hw : f.wrote = false) (hc : f.calls = [])
    (hp : op.priorStatus ≠ .awaitingReadback) (hop : op.opType = .delete) :
    Async.Safe (protocol cfg op) (Concluded cfg op) f (attemptDelete cfg op options) := by
  unfold attemptDelete
  refine tryFacade_follows hw hc hp ⟨hop, rfl, rfl⟩ (fun o hcalled => pure_follows hw hcalled rfl)
    fun e hcalled => ?_
  split
  · rename_i hunknown
    exact Async.Safe.pure ⟨hw, .inr (.inl ⟨_, e, hcalled, hop, hunknown⟩)⟩
  · rename_i hunknown
    split
    · rename_i hretry
      refine Async.Safe.pure (refused_follows hw hcalled ?_)
      simp only [Refused, hop]
      exact ⟨hunknown, by simpa using hretry⟩
    · rename_i hretry
      refine Async.Safe.pure (backoffOrGiveUp_follows hw hcalled (by simpa using hretry) ?_ ?_)
      · simp [hop]
      · simp [hop, OperationType.isDelta]

/-! ## Read-back -/

theorem resolveNameAttribute_follows :
    Async.Safe (protocol cfg op) (fun f' r => f' = f ∧ ∃ name, r = .ok name) f (resolveNameAttribute op) := by
  unfold resolveNameAttribute
  refine Async.Safe.catching (fun f' _ => f' = f) ?_ ?_ ?_
  · refine Async.Safe.bind (fun f' _ => f' = f) ?_ ?_ ?_
    · exact Async.Safe.call trivial fun r _ => rfl
    · rintro f' schema rfl
      split <;> exact Async.Safe.pure rfl
    · exact fun f' e h => h
  · exact fun f' name h => ⟨h, name, rfl⟩
  · rintro f' e rfl
    exact Async.Safe.pure ⟨rfl, _, rfl⟩

theorem readBackByName_follows {nameAttribute nameValue : String} {runtime : ResolvedInstanceConfig}
    (hw : f.wrote = false) (hc : f.calls = []) (hf : f.found = none)
    (hp : op.priorStatus = .awaitingReadback) :
    Async.Safe (protocol cfg op)
      (fun f' r => f'.wrote = false ∧ f'.calls = [] ∧
        ∀ o, r = .ok o → ∃ results, f'.found = some (.ok results) ∧ o = results.head?)
      f (readBackByName op nameAttribute nameValue runtime) := by
  unfold readBackByName
  refine Async.Safe.bind (fun f' r => f' = f ∧ ∃ t, r = .ok t) ?_ ?_ ?_
  · exact Async.Safe.ask trivial fun t _ => ⟨rfl, t, rfl⟩
  · rintro f' t ⟨rfl, -⟩
    refine Async.Safe.bind (fun f' r => f'.wrote = false ∧ f'.calls = [] ∧ f'.found = some r) ?_ ?_ ?_
    · exact Async.Safe.call ⟨hw, hc, hf, hp⟩ fun r _ => ⟨hw, hc, rfl⟩
    · rintro f' results ⟨hw, hc, hf⟩
      refine Async.Safe.pure ⟨hw, hc, fun o ho => ⟨results, hf, ?_⟩⟩
      cases ho
      rfl
    · exact fun f' e h => ⟨h.1, h.2.1, fun o ho => by cases ho⟩
  · rintro f' e ⟨-, t, ht⟩
    cases ht

theorem resumeReadBack_follows {runtime : ResolvedInstanceConfig} (hw : f.wrote = false) (hc : f.calls = [])
    (hf : f.found = none) (hp : op.priorStatus = .awaitingReadback) :
    Async.Safe (protocol cfg op) (Concluded cfg op) f (resumeReadBack op runtime) := by
  unfold resumeReadBack
  split
  · exact Async.Safe.pure (indeterminate_follows hw)
  · refine Async.Safe.bind _ resolveNameAttribute_follows ?_ ?_
    · rintro f' name ⟨rfl, -⟩
      refine Async.Safe.catching (Concluded cfg op) ?_ (fun _ _ h => h) ?_
      · refine Async.Safe.bind _ (readBackByName_follows hw hc hf hp) ?_ (fun _ _ h => h.1)
        rintro f' o ⟨hw, hc, ho⟩
        obtain ⟨results, hfound, hhead⟩ := ho o rfl
        refine Async.Safe.pure ?_
        cases results with
        | nil =>
          subst hhead
          simp only [List.head?_nil, readBackVerdict]
          split
          · rename_i hlt
            exact ⟨hw, .inr ⟨hc, hp, hfound, hlt⟩⟩
          · exact indeterminate_follows hw
        | cons found rest =>
          subst hhead
          exact ⟨hw, .inr (.inr ⟨hc, hp, found, rest, hfound⟩)⟩
      · exact fun f' e hw => Async.Safe.pure (indeterminate_follows hw)
    · rintro f' e ⟨-, name, h⟩
      cases h

/-! ## The whole attempt -/

theorem optionsFor_follows {runtime : ResolvedInstanceConfig} :
    Async.Safe (protocol cfg op) (fun f' r => f' = f ∧ ∃ o, r = .ok o) f (optionsFor op runtime) := by
  unfold optionsFor
  refine Async.Safe.bind (fun f' r => f' = f ∧ ∃ t, r = .ok t) ?_ ?_ ?_
  · exact Async.Safe.ask trivial fun t _ => ⟨rfl, t, rfl⟩
  · rintro f' t ⟨rfl, -⟩
    exact Async.Safe.pure ⟨rfl, _, rfl⟩
  · rintro f' e ⟨-, t, h⟩
    cases h

theorem attempt_follows (hw : f.wrote = false) (hc : f.calls = []) (hf : f.found = none) :
    Async.Safe (protocol cfg op) (Concluded cfg op) f (attempt cfg op) := by
  unfold attempt
  refine Async.Safe.bind (fun f' r => f'.wrote = false ∧ f'.calls = [] ∧ f'.found = none ∧
    ∀ c, r = .ok c → f'.configured = some c.isSome) ?_ ?_ ?_
  · refine Async.Safe.call rfl fun r _ => ?_
    cases r with
    | ok c => exact ⟨hw, hc, hf, fun c' h => by cases h; rfl⟩
    | error e => exact ⟨hw, hc, hf, fun c' h => by cases h⟩
  · rintro f' c ⟨hw, hc, hf, hconf⟩
    split
    · exact Async.Safe.pure ⟨hw, hc, .inr (.inl (hconf _ rfl))⟩
    · split
      · rename_i hp
        exact resumeReadBack_follows hw hc hf hp
      · rename_i hp
        refine Async.Safe.bind _ optionsFor_follows ?_ ?_
        · rintro f' options ⟨rfl, -⟩
          split
          · exact attemptCreate_follows hw hc hp ‹_›
          · exact attemptUpdate_follows hw hc hp ‹_›
          · exact attemptDelete_follows hw hc hp ‹_›
          · exact attemptDelta_follows hw hc hp (.inl ‹_›)
          · exact attemptDelta_follows hw hc hp (.inr ‹_›)
        · rintro f' e ⟨-, o, h⟩
          cases h

  · exact fun f' e h => h.1

theorem logged_follows {e : Io} {result : e.Answer → Except Failure Bool}
    (allowed : (protocol cfg op).allows f e) (hwrote : ∀ a, (f.hear e a).wrote = true) :
    Async.Safe (protocol cfg op) (fun f' r => f'.wrote = true ∧ ∃ u, r = .ok u) f (logged e result) := by
  unfold logged
  refine Async.Safe.catching (fun f' _ => f'.wrote = true) ?_ ?_ ?_
  · refine Async.Safe.bind (fun f' _ => f'.wrote = true) ?_ ?_ (fun _ _ h => h)
    · exact Async.Safe.call allowed fun a _ => hwrote a
    · exact fun f' b h => Async.Safe.pure h
  · exact fun f' u h => ⟨h, u, rfl⟩
  · exact fun f' e h => Async.Safe.pure ⟨h, _, rfl⟩

theorem finalize_follows {r : Resolution} (hw : f.wrote = false) (hruled : Ruled cfg op f r.outcome) :
    Async.Safe (protocol cfg op) (fun f' r => f'.wrote = true ∧ ∃ u, r = .ok u) f (finalize op r) := by
  have now : Async.Safe (protocol cfg op) (fun f' r => f' = f ∧ ∃ t, r = .ok t) f (perform .now) :=
    Async.Safe.ask trivial fun t _ => ⟨rfl, t, rfl⟩
  have requeue : Ruled cfg op f .requeue → Async.Safe (protocol cfg op)
      (fun f' r => f'.wrote = true ∧ ∃ u, r = .ok u) f (logged (.requeue op.id) fun r => r) :=
    fun h => logged_follows ⟨hw, rfl, h⟩ fun _ => rfl
  unfold finalize
  split
  · rename_i hout
    rw [hout] at hruled
    refine Async.Safe.bind _ now ?_ ?_
    · rintro f' t ⟨rfl, -⟩
      exact logged_follows ⟨hw, rfl, hruled⟩ fun _ => rfl
    · rintro f' e ⟨-, t, h⟩
      cases h
  · rename_i hout
    rw [hout] at hruled
    split
    · refine Async.Safe.bind _ now ?_ ?_
      · rintro f' t ⟨rfl, -⟩
        refine Async.Safe.bind (fun f'' r => f'' = f' ∧ ∃ u, r = .ok u) ?_ ?_ ?_
        · exact Async.Safe.ask trivial fun u _ => ⟨rfl, u, rfl⟩
        · rintro f'' u ⟨rfl, -⟩
          exact requeue hruled
        · rintro f'' e ⟨-, u, h⟩
          cases h
      · rintro f' e ⟨-, t, h⟩
        cases h
    · exact requeue hruled
  · rename_i outcome hout
    rw [hout] at hruled
    exact logged_follows ⟨hw, rfl, hruled⟩ fun _ => rfl

/-- **The attempt follows the protocol**, and every path of it writes. -/
theorem execute_follows (cfg : ResolvedDispatcherConfig) (op : ClaimedOperation) :
    Async.Safe (protocol cfg op) (fun f' _ => f'.wrote = true) Facts.nothing (execute cfg op) := by
  unfold execute
  refine Async.Safe.bind (fun f' r => ∃ leased, r = .ok leased ∧
    f' = { Facts.nothing with leased := some (Except.isOk leased) }) ?_ ?_ ?_
  · exact Async.Safe.ask rfl fun leased _ => ⟨leased, rfl, rfl⟩
  · rintro f' leased ⟨_, h, rfl⟩
    cases h
    split
    · have hruled : Ruled cfg op { Facts.nothing with leased := some false } (.final .rejectedPreDispatch) :=
        ⟨rfl, .inl rfl⟩
      exact (finalize_follows rfl hruled).mono fun f' r h => h.1
    · refine Async.Safe.andFinally (fun f' r => f'.wrote = true ∧ ∃ u, r = .ok u) ?_ ?_
      · refine Async.Safe.catching (fun f' r => (∀ u, r = .ok u → f'.wrote = true) ∧
          ∀ e, r = .error e → f'.wrote = false) ?_ (fun f' u h => ⟨h.1 u rfl, u, rfl⟩) ?_
        · refine Async.Safe.bind _ (attempt_follows rfl rfl rfl) ?_ ?_
          · intro f' r hr
            refine (finalize_follows hr.1 hr.2).mono ?_
            rintro f'' r' ⟨hw, u, rfl⟩
            exact ⟨fun _ _ => hw, fun e he => by cases he⟩
          · exact fun f' e hw => ⟨fun u hu => (by cases hu), fun _ _ => hw⟩
        · exact fun f' e h => finalize_follows (h.2 e rfl) trivial
      · rintro f' r ⟨hw, -⟩
        exact Async.Safe.ask trivial fun _ _ => ⟨fun _ _ => hw, fun _ _ => hw⟩
  · rintro f' e ⟨_, h, -⟩
    cases h

end Dispatcher

end Provisioning
