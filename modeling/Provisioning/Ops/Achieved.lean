import Provisioning.Ops.Attribution

/-!
# What a success rests on

An operation that is SUCCEEDED was called on the target, on a lease of its own instance and with its own arguments,
or found there by its name, and the stored result is the one that the target gave.
-/

namespace Provisioning

open Lib

variable (op : ClaimedOperation)

/-- The attempt has a lease of the operation's instance. -/
def Leased (heard : List Heard) : Prop := (⟨.acquire op.instanceId, .ok ()⟩ : Heard) ∈ heard

/-- What a success of the operation rests on, and the result that is stored with it. -/
inductive Achieved (heard : List Heard) : Option Json → Prop
  | created {m : Mutation} {o : ConnectorObject} (create : op.opType = .create) (fits : m.fits op)
      (settled : (⟨.settle m, .ok (some o)⟩ : Heard) ∈ heard) : Achieved heard (some (createdResult o))
  | updated {m : Mutation} {o : Option ConnectorObject} (update : op.opType = .update ∨ op.opType.isDelta)
      (fits : m.fits op) (settled : (⟨.settle m, .ok o⟩ : Heard) ∈ heard) :
      Achieved heard (some (Dispatcher.updatedResult op o))
  | deleted {m : Mutation} {o : Option ConnectorObject} (delete : op.opType = .delete) (fits : m.fits op)
      (settled : (⟨.settle m, .ok o⟩ : Heard) ∈ heard) :
      Achieved heard (some (.obj [("uid", Dispatcher.uidJson op.uid)]))
  | absent {m : Mutation} {e : Failure} (delete : op.opType = .delete) (fits : m.fits op)
      (settled : (⟨.settle m, .error e⟩ : Heard) ∈ heard) (unknown : e.hasCode .unknownUid) :
      Achieved heard (some (.obj [("uid", Dispatcher.uidJson op.uid), ("alreadyAbsent", .bool true)]))
  | found {o : ConnectorObject} {rest : List ConnectorObject} {nameAttribute nameValue : String}
      {deadlineEpochMs : Nat} (resumed : op.priorStatus = .awaitingReadback)
      (name : op.nameAttrValue = some nameValue)
      (found : (⟨.search op.objectClass nameAttribute nameValue deadlineEpochMs, .ok (o :: rest)⟩ : Heard) ∈ heard) :
      Achieved heard (some (readBackResult o))

/-- The target is used on a lease, with the arguments of the operation, and a success is reported when it is
achieved. -/
def testimony : Monitor Dispatch (List Heard) where
  allows heard
    | .acquire instanceId => instanceId = op.instanceId
    | .invoke m => Leased op heard ∧ m.fits op
    | .search .. => Leased op heard
    | .finalize _ .succeeded result _ => Leased op heard ∧ Achieved op heard result
    | _ => True
  expects _ _ := True
  next heard e a := heard ++ [⟨e, a⟩]

variable {op} {heard : List Heard}

theorem recall_testimony {before : List Heard} : (testimony op).recall before heard = before ++ heard := by
  induction heard generalizing before with
  | nil => exact (List.append_nil before).symm
  | cons x rest ih =>
    exact (@ih (before ++ [x])).trans (List.append_assoc before [x] rest)

theorem Leased.hear {x : Heard} (h : Leased op heard) : Leased op (heard ++ [x]) := List.mem_append_left _ h

namespace Dispatcher

variable {cfg : ResolvedDispatcherConfig}

/-! ## The functions of the dispatcher -/

/-- What `attempt` leaves behind. -/
def Stands (op : ClaimedOperation) (heard : List Heard) : Except Failure Resolution → Prop
  | .ok r => Leased op heard ∧ (r.outcome = .final .succeeded → Achieved op heard r.result)
  | .error _ => Leased op heard

theorem stands_of_other {r : Resolution} (leased : Leased op heard) (h : r.outcome ≠ .final .succeeded) :
    Stands op heard (.ok r) := ⟨leased, fun hs => absurd hs h⟩

theorem stands_failed {outcome : OperationOutcome} {code : String} (leased : Leased op heard)
    (h : outcome ≠ .succeeded) : Stands op heard (.ok (.failed outcome code)) := by
  apply stands_of_other leased
  simpa [Resolution.failed] using h

theorem stands_backoff {code : String} (leased : Leased op heard) :
    Stands op heard (.ok (backoffOrGiveUp cfg op code .indeterminate)) :=
  stands_of_other leased (backoffOrGiveUp_outcome code)

theorem perform_leased {e : Io} (leased : Leased op heard) (allowed : (testimony op).allows heard e) :
    Async.Safe (testimony op) (fun heard' _ => Leased op heard') heard (perform e) :=
  Async.Safe.ask allowed fun _ _ => leased.hear

theorem await_leased {α : Type} {e : Io} {result : e.Answer → Except Failure α} (leased : Leased op heard)
    (allowed : (testimony op).allows heard e) :
    Async.Safe (testimony op) (fun heard' _ => Leased op heard') heard (await e result) :=
  Async.Safe.call allowed fun _ _ => leased.hear

theorem facade_stands {m : Mutation} (leased : Leased op heard) (fits : m.fits op) :
    Async.Safe (testimony op) (fun heard' r => Leased op heard' ∧ (⟨.settle m, r⟩ : Heard) ∈ heard') heard
      (facade m) := by
  unfold facade
  refine Async.Safe.bind (fun heard' r => Leased op heard' ∧ ∃ u, r = .ok u) ?_ ?_ ?_
  · exact Async.Safe.ask ⟨leased, fits⟩ fun u _ => ⟨leased.hear, u, rfl⟩
  · intro heard' u h
    exact Async.Safe.call trivial fun r _ => ⟨h.1.hear, List.mem_concat_self⟩
  · rintro heard' e ⟨-, u, h⟩
    cases h

theorem resolveCreateAfterDeadline_stands {runtime : ResolvedInstanceConfig} (leased : Leased op heard) :
    Async.Safe (testimony op) (Stands op) heard (resolveCreateAfterDeadline cfg op runtime) := by
  unfold resolveCreateAfterDeadline
  refine Async.Safe.bind _ (perform_leased leased trivial) ?_ fun _ _ h => h
  intro heard' caps leased
  split
  · exact Async.Safe.pure (stands_failed leased (by simp))
  · split
    · exact Async.Safe.pure (stands_failed leased (by simp))
    · exact Async.Safe.pure (stands_of_other leased (by simp))

theorem attemptCreate_stands {runtime : ResolvedInstanceConfig} {options : OperationOptions} (leased : Leased op heard)
    (hop : op.opType = .create) :
    Async.Safe (testimony op) (Stands op) heard (attemptCreate cfg op runtime options) := by
  have fits : (Mutation.create op.objectClass (attrsOf op) options).fits op := ⟨hop, rfl, rfl⟩
  unfold attemptCreate
  refine Async.Safe.catching (Stands op) ?_ (fun _ _ h => h) ?_
  · refine Async.Safe.bind _ (facade_stands leased fits) ?_ fun _ _ h => h.1
    rintro heard' o ⟨leased, settled⟩
    cases o with
    | none => exact Async.Safe.throw leased
    | some created => exact Async.Safe.pure ⟨leased, fun _ => .created hop fits settled⟩
  · intro heard' e leased
    split
    · exact Async.Safe.pure (stands_failed leased (by simp))
    · split
      · exact resolveCreateAfterDeadline_stands leased
      · split
        · exact Async.Safe.pure (stands_backoff leased)
        · exact Async.Safe.pure (stands_failed leased (by simp))

theorem attemptUpdate_stands {options : OperationOptions} (leased : Leased op heard) (hop : op.opType = .update) :
    Async.Safe (testimony op) (Stands op) heard (attemptUpdate cfg op options) := by
  have fits : (Mutation.update op.objectClass op.uid (attrsOf op) options).fits op := ⟨hop, rfl, rfl, rfl⟩
  unfold attemptUpdate
  refine Async.Safe.catching (Stands op) ?_ (fun _ _ h => h) ?_
  · refine Async.Safe.bind _ (facade_stands leased fits) ?_ fun _ _ h => h.1
    rintro heard' o ⟨leased, settled⟩
    exact Async.Safe.pure ⟨leased, fun _ => .updated (.inl hop) fits settled⟩
  · intro heard' e leased
    split
    · exact Async.Safe.pure (stands_failed leased (by simp))
    · split
      · exact Async.Safe.pure (stands_failed leased (by simp))
      · exact Async.Safe.pure (stands_backoff leased)

theorem attemptDelete_stands {options : OperationOptions} (leased : Leased op heard) (hop : op.opType = .delete) :
    Async.Safe (testimony op) (Stands op) heard (attemptDelete cfg op options) := by
  have fits : (Mutation.delete op.objectClass op.uid options).fits op := ⟨hop, rfl, rfl⟩
  unfold attemptDelete
  -- The handler reports a success when the call itself ended with an unknown uid.
  refine Async.Safe.catching (fun heard' r => Stands op heard' r ∧
    ∀ e, r = .error e → (⟨.settle (.delete op.objectClass op.uid options), .error e⟩ : Heard) ∈ heard') ?_ ?_ ?_
  · refine Async.Safe.bind _ (facade_stands leased fits) ?_ ?_
    · rintro heard' o ⟨leased, settled⟩
      exact Async.Safe.pure ⟨⟨leased, fun _ => .deleted hop fits settled⟩, by simp⟩
    · rintro heard' e ⟨leased, settled⟩
      refine ⟨leased, fun e' he => ?_⟩
      cases he
      exact settled
  · exact fun heard' r h => h.1
  · rintro heard' e ⟨leased, settled⟩
    split
    · rename_i unknown
      exact Async.Safe.pure ⟨leased, fun _ => .absent hop fits (settled e rfl) unknown⟩
    · split
      · exact Async.Safe.pure (stands_failed leased (by simp))
      · exact Async.Safe.pure (stands_backoff leased)

theorem attemptDelta_stands {options : OperationOptions} (leased : Leased op heard)
    (hop : op.opType = .addValues ∨ op.opType = .removeValues) :
    Async.Safe (testimony op) (Stands op) heard (attemptDelta cfg op options) := by
  have hdelta : op.opType.isDelta := by
    rcases hop with h | h <;> rw [h] <;> rfl
  have called {m : Mutation} (fits : m.fits op) : Async.Safe (testimony op) (Stands op) heard
      (do pure (.resolved .succeeded (updatedResult op (← facade m)))) := by
    refine Async.Safe.bind _ (facade_stands leased fits) ?_ fun _ _ h => h.1
    rintro heard' o ⟨leased, settled⟩
    exact Async.Safe.pure ⟨leased, fun _ => .updated (.inr hdelta) fits settled⟩
  unfold attemptDelta
  split
  · exact Async.Safe.pure (stands_failed leased (by simp))
  · exact Async.Safe.pure (stands_failed leased (by simp))
  · rename_i uid hne huid
    have hpresent : uid ≠ "" := by simpa using hne
    refine Async.Safe.catching (Stands op) ?_ (fun _ _ h => h) ?_
    · rcases hop with hop | hop
      · simp only [hop, if_true]
        exact called ⟨hop, rfl, huid.symm, hpresent, rfl⟩
      · simp only [hop, if_false, reduceCtorEq]
        exact called ⟨hop, rfl, huid.symm, hpresent, rfl⟩
    · intro heard' e leased
      split
      · exact Async.Safe.pure (stands_failed leased (by simp))
      · split
        · exact Async.Safe.pure (stands_failed leased (by simp))
        · refine Async.Safe.bind _ (perform_leased leased trivial) ?_ fun _ _ h => h
          intro heard' caps leased
          split
          · exact Async.Safe.pure (stands_failed leased (by simp))
          · exact Async.Safe.pure (stands_backoff leased)

theorem resolveNameAttribute_stands (leased : Leased op heard) :
    Async.Safe (testimony op) (fun heard' _ => Leased op heard') heard (resolveNameAttribute op) := by
  unfold resolveNameAttribute
  refine Async.Safe.catching (fun heard' _ => Leased op heard') ?_ (fun _ _ h => h) fun _ _ h => Async.Safe.pure h
  refine Async.Safe.bind _ (await_leased leased trivial) ?_ fun _ _ h => h
  intro heard' schema leased
  split <;> exact Async.Safe.pure leased

theorem readBackByName_stands {nameAttribute nameValue : String} {runtime : ResolvedInstanceConfig}
    (leased : Leased op heard) :
    Async.Safe (testimony op)
      (fun heard' r => Leased op heard' ∧ ∀ o, r = .ok o → ∃ deadline results, o = results.head? ∧
        (⟨.search op.objectClass nameAttribute nameValue deadline, .ok results⟩ : Heard) ∈ heard')
      heard (readBackByName op nameAttribute nameValue runtime) := by
  unfold readBackByName
  refine Async.Safe.bind (fun heard' r => Leased op heard' ∧ ∃ now, r = .ok now)
    (Async.Safe.ask trivial fun now _ => ⟨leased.hear, now, rfl⟩) ?_ ?_
  · rintro heard' now ⟨leased, -⟩
    refine Async.Safe.bind (fun heard' r => Leased op heard' ∧ ∃ deadline,
      (⟨.search op.objectClass nameAttribute nameValue deadline, r⟩ : Heard) ∈ heard') ?_ ?_ ?_
    · exact Async.Safe.call leased fun r _ => ⟨leased.hear, _, List.mem_concat_self⟩
    · rintro heard' results ⟨leased, deadline, hfound⟩
      refine Async.Safe.pure ⟨leased, fun o ho => ⟨deadline, results, ?_, hfound⟩⟩
      exact (Except.ok.inj ho).symm
    · rintro heard' e ⟨leased, -⟩
      exact ⟨leased, nofun⟩
  · rintro heard' e ⟨-, now, h⟩
    cases h

theorem resumeReadBack_stands {runtime : ResolvedInstanceConfig} (leased : Leased op heard)
    (resumed : op.priorStatus = .awaitingReadback) :
    Async.Safe (testimony op) (Stands op) heard (resumeReadBack op runtime) := by
  unfold resumeReadBack
  split
  · exact Async.Safe.pure (stands_failed leased (by simp))
  · rename_i nameValue hvalue
    refine Async.Safe.bind _ (resolveNameAttribute_stands leased) ?_ fun _ _ h => h
    intro heard' name leased
    refine Async.Safe.catching (Stands op) ?_ (fun _ _ h => h) ?_
    · refine Async.Safe.bind _ (readBackByName_stands leased) ?_ fun _ _ h => h.1
      rintro heard' o ⟨leased, hresults⟩
      obtain ⟨deadline, results, rfl, hfound⟩ := hresults o rfl
      apply Async.Safe.pure
      cases results with
      | nil =>
        apply stands_of_other leased
        unfold readBackVerdict
        simp only [List.head?_nil]
        split <;> simp [Resolution.failed]
      | cons o rest => exact ⟨leased, fun _ => .found resumed hvalue hfound⟩
    · intro heard' e leased
      exact Async.Safe.pure (stands_failed leased (by simp))

theorem attempt_stands (leased : Leased op heard) : Async.Safe (testimony op) (Stands op) heard (attempt cfg op) := by
  unfold attempt
  refine Async.Safe.bind _ (await_leased leased trivial) ?_ fun _ _ h => h
  intro heard' c leased
  split
  · exact Async.Safe.pure (stands_failed leased (by simp))
  · split
    · exact resumeReadBack_stands leased ‹_›
    · unfold optionsFor
      refine Async.Safe.bind (fun heard' _ => Leased op heard') ?_ ?_ fun _ _ h => h
      · refine Async.Safe.bind _ (perform_leased leased trivial) ?_ fun _ _ h => h
        exact fun _ _ h => Async.Safe.pure h
      · intro heard' options leased
        split
        · exact attemptCreate_stands leased ‹_›
        · exact attemptUpdate_stands leased ‹_›
        · exact attemptDelete_stands leased ‹_›
        · exact attemptDelta_stands leased (.inl ‹_›)
        · exact attemptDelta_stands leased (.inr ‹_›)

/-! ## The write -/

theorem logged_stands {e : Io} {result : e.Answer → Except Failure Bool} (allowed : (testimony op).allows heard e) :
    Async.Safe (testimony op) (fun _ _ => True) heard (logged e result) := by
  unfold logged
  refine Async.Safe.catching (fun _ _ => True) ?_ (fun _ _ _ => trivial) fun _ _ _ => Async.Safe.pure trivial
  refine Async.Safe.bind (fun _ _ => True) (Async.Safe.call allowed fun _ _ => trivial) ?_ fun _ _ _ => trivial
  exact fun _ _ _ => Async.Safe.pure trivial

theorem finalize_stands {r : Resolution}
    (h : r.outcome = .final .succeeded → Leased op heard ∧ Achieved op heard r.result) :
    Async.Safe (testimony op) (fun _ _ => True) heard (finalize op r) := by
  unfold finalize
  split
  · refine Async.Safe.bind (fun _ _ => True) (Async.Safe.ask trivial fun _ _ => trivial) ?_ fun _ _ _ => trivial
    exact fun _ _ _ => logged_stands trivial
  · split
    · refine Async.Safe.bind (fun _ _ => True) (Async.Safe.ask trivial fun _ _ => trivial) ?_ fun _ _ _ => trivial
      intro heard' now _
      refine Async.Safe.bind (fun _ _ => True) (Async.Safe.ask trivial fun _ _ => trivial) ?_ fun _ _ _ => trivial
      exact fun _ _ _ => logged_stands trivial
    · exact logged_stands trivial
  · rename_i outcome hout
    apply logged_stands
    cases outcome with
    | succeeded => exact h hout
    | _ => exact trivial

theorem execute_stands (cfg : ResolvedDispatcherConfig) (op : ClaimedOperation) :
    Async.Safe (testimony op) (fun _ _ => True) [] (execute cfg op) := by
  unfold execute
  refine Async.Safe.bind (fun heard' r => ∀ u, r = .ok (.ok u) → Leased op heard') ?_ ?_ fun _ _ _ => trivial
  · refine Async.Safe.ask rfl fun a _ u h => ?_
    cases Except.ok.inj h
    exact List.mem_concat_self
  · intro t leased hleased
    split
    · exact finalize_stands (by simp)
    · have leased := hleased _ rfl
      refine Async.Safe.andFinally (fun _ _ => True) ?_ fun heard' r _ =>
        Async.Safe.ask trivial fun _ _ => ⟨fun _ _ => trivial, fun _ _ => trivial⟩
      refine Async.Safe.catching (fun _ _ => True) ?_ (fun _ _ _ => trivial) fun heard' e _ =>
        finalize_stands (by simp)
      refine Async.Safe.bind _ (attempt_stands leased) ?_ fun _ _ _ => trivial
      exact fun heard' r h => finalize_stands fun hout => ⟨h.1, h.2 hout⟩

end Dispatcher

/-! ## Runs -/

theorem Leased.mono {before : List Heard} (h : Leased op before) (hbefore : before <+: heard) : Leased op heard :=
  hbefore.subset h

theorem Achieved.mono {before : List Heard} {result : Option Json} (h : Achieved op before result)
    (hbefore : before <+: heard) : Achieved op heard result := by
  cases h with
  | created create fits settled => exact .created create fits (hbefore.subset settled)
  | updated update fits settled => exact .updated update fits (hbefore.subset settled)
  | deleted delete fits settled => exact .deleted delete fits (hbefore.subset settled)
  | absent delete fits settled unknown => exact .absent delete fits (hbefore.subset settled) unknown
  | found resumed name found => exact .found resumed name (hbefore.subset found)

namespace Deployment

variable {advisoryLockKey : String → BitVec 64} {cfg : ResolvedDispatcherConfig} {s : Deployment}

theorem Replays.testified (replays : s.Replays cfg) (followed : s.Followed cfg) {key : Uuid × Nat} {e : Io} {r : Row}
    (hr : s.db.row? key.1 = some r) (h : s.Issued key e) :
    ∃ op before, op.Describes r ∧ (testimony op).allows before e ∧ before <+: s.transcript key := by
  obtain ⟨r', op, before, hr', hop, allowed, hbefore⟩ := replays.issued followed
    (Dispatcher.execute_stands cfg) (fun _ _ _ => trivial) h
  obtain rfl := Option.some.inj (hr.symm.trans hr')
  have hrecall : (testimony op).recall [] before = before := recall_testimony
  exact ⟨op, before, hop, hrecall ▸ allowed, hbefore⟩

/-- **The target is asked for what the operation asks for, and for nothing else**, on a lease of its instance. An
operation that succeeded was answered so by the target, and its result is that answer. -/
theorem succeeded_was_achieved {now : Nat} {partitions : List Nat}
    (run : Runs (step advisoryLockKey cfg) anyStep (start now partitions) s) {u : Uuid} {r : Row}
    (hr : s.db.row? u = some r) :
    (∀ claim m, (⟨.invoke m, ()⟩ : Heard) ∈ s.transcript (u, claim) →
      ∃ op, op.Describes r ∧ Leased op (s.transcript (u, claim)) ∧ m.fits op) ∧
    (r.status = .final .succeeded →
      ∃ claim op, op.Describes r ∧ Leased op (s.transcript (u, claim)) ∧
        Achieved op (s.transcript (u, claim)) r.result) := by
  obtain ⟨⟨followed, replays⟩, reported⟩ := reported_run run
  constructor
  · intro claim m hm
    obtain ⟨op, before, hop, ⟨leased, fits⟩, hbefore⟩ :=
      replays.testified followed hr (.inr ⟨_, mem_transcriptOf.1 hm, rfl, rfl⟩)
    exact ⟨op, hop, leased.mono hbefore, fits⟩
  · intro hst
    obtain ⟨claim, id, errorCode, current, hlog⟩ := reported u r _ hr hst
    obtain ⟨op, before, hop, ⟨leased, achieved⟩, hbefore⟩ :=
      replays.testified followed hr (.inr ⟨_, hlog, rfl, rfl⟩)
    exact ⟨claim, op, hop, leased.mono hbefore, achieved.mono hbefore⟩

/-- An update that the target answers. -/
def answeredUpdate : List Action :=
  submitted 1 (request .update) 7 ++ claimedBy 1 1 7 ++
    replied 0 [.lease (.ok ()), .config (.ok (some someRuntime)), .time 0, .done, .settled (.ok none)] ++
    [.write 0 (some 0)]

theorem succeeded_was_achieved_update :
    ∃ s r claim op, exec (step (fun _ => 0) .DEFAULTS) anyStep (start 0 [0]) answeredUpdate = some s ∧
      s.db.row? 7 = some r ∧ r.status = .final .succeeded ∧ op.Describes r ∧
      Leased op (s.transcript (7, claim)) ∧ Achieved op (s.transcript (7, claim)) r.result := by
  have h : (exec (step (fun _ => 0) .DEFAULTS) anyStep (start 0 [0]) answeredUpdate).map
      (fun s => (s.db.row? 7).any fun r => r.status = .final .succeeded) = some true := by
    decide
  obtain ⟨s, hs, h⟩ := Option.map_eq_some_iff.1 h
  obtain ⟨r, hr, hst⟩ := (Option.any_eq_true _ _).1 h
  obtain ⟨claim, op, hop, leased, achieved⟩ :=
    (succeeded_was_achieved (runs_of_exec hs) hr).2 (of_decide_eq_true hst)
  exact ⟨s, r, claim, op, hs, hr, of_decide_eq_true hst, hop, leased, achieved⟩

end Deployment

end Provisioning
