import Provisioning.Ops.Evidence
import Provisioning.Ops.Holding

/-!
# Read-back and the capability that it needs

A live deadline consults the capabilities before it defers a create. The reaper does not, and neither
does the attempt that resumes the read-back.
-/

namespace Provisioning

open Lib

/-! ## What the log says -/

/-- `capabilitiesOf(instanceId).equalitySearchOnName` was read, and was true. -/
def Event.declaresEqualitySearch (instanceId : String) : Event → Bool
  | .heard (.capabilitiesOf i) (caps : ConnectorCapabilities) => i = instanceId && caps.equalitySearchOnName
  | _ => false

def Io.isSearch : Io → Bool
  | .search .. => true
  | _ => false

/-- The search was answered. -/
def Event.isSearched : Event → Bool
  | .heard e _ => e.isSearch
  | _ => false

/-- A write that finalizes the row `SUCCEEDED` with `viaReadBack`. -/
def Event.recoversByReadBack : Event → Bool
  | .wrote (.finalize _ .succeeded result _) _ _ => (result.bind (Json.field "viaReadBack")).isSome
  | _ => false

def Event.isRequeue : Event → Bool
  | .wrote (.requeue _) _ _ => true
  | _ => false

namespace Deployment

variable {advisoryLockKey : String → BitVec 64} (cfg : ResolvedDispatcherConfig) (instanceId : String)

/-- The capabilities of the instance were never read as `equalitySearchOnName`. -/
def NeverSearchable (s : Deployment) : Prop :=
  ∀ ent ∈ s.log, ent.event.declaresEqualitySearch instanceId = false

instance (s : Deployment) : Decidable (s.NeverSearchable instanceId) :=
  inferInstanceAs (Decidable (∀ ent ∈ s.log, _))

/-- The reaper finds no create of the instance that has a name. -/
def sparesCreates (s : Deployment) : Action → Bool
  | .reap _ began seen =>
    decide (∀ r ∈ s.db.tables.operations, r.id ∈ seen → r.stale cfg.reaperThresholdMs began →
      r.opType = .create → r.instanceId = instanceId → r.nameAttrValue = none)
  | _ => true

/-! ## The invariant -/

/-- No row of the instance is on its way to a search. -/
structure Unsearched (s : Deployment) : Prop where
  rows : ∀ u r, s.db.row? u = some r → r.instanceId = instanceId → r.status = .live .awaitingReadback →
    r.nameAttrValue = none
  attempts : ∀ att ∈ s.attempts, att.op.instanceId = instanceId → att.op.priorStatus = .awaitingReadback →
    att.op.nameAttrValue = none
  log : ∀ ent ∈ s.log, ∀ r, s.db.row? ent.row = some r → r.instanceId = instanceId → ent.event.isSearched = false

variable {cfg instanceId} {s s' : Deployment} {a : Action}

theorem search_named (followed : s.Followed cfg) (replays : s.Replays cfg) {att : Attempt}
    (hatt : att ∈ s.attempts) {e : Io} {k : e.Answer → Prog Dispatch (Except Failure Unit)}
    (asks : att.prog = .await e k) (hsearch : e.isSearch) :
    att.op.priorStatus = .awaitingReadback ∧ att.op.nameAttrValue ≠ none := by
  have safe := (followed.follows att hatt).safe
  rw [asks] at safe
  obtain ⟨r, hr, hatt'⟩ := (followed.follows att hatt).about
  obtain ⟨r', op, before, hr', hop, allowed, -⟩ :=
    replays.issued followed (Dispatcher.execute_grounded cfg) (fun _ _ _ => trivial) (.inl ⟨att, hatt, rfl, k, asks⟩)
  cases hr.symm.trans hr'
  cases e <;> simp only [Io.isSearch, Bool.false_eq_true] at hsearch
  refine ⟨safe.allowed.2.2.2, ?_⟩
  rw [hatt'.nameAttrValue, ← hop.nameAttrValue, allowed.2.1]
  exact Option.some_ne_none _

theorem Unsearched.not_search (inv : s.Unsearched instanceId) (followed : s.Followed cfg) (replays : s.Replays cfg)
    {att : Attempt} (hatt : att ∈ s.attempts) {e : Io} {k : e.Answer → Prog Dispatch (Except Failure Unit)}
    (asks : att.prog = .await e k) (hinst : att.op.instanceId = instanceId) : e.isSearch = false := by
  by_contra hsearch
  obtain ⟨hprior, hname⟩ := search_named followed replays hatt asks (by simpa using hsearch)
  exact hname (inv.attempts att hatt hinst hprior)

/-- Without the capability, no attempt defers its row. -/
theorem instance_ne_of_deferral (followed : s.Followed cfg) (never : s.NeverSearchable instanceId) {att : Attempt}
    (hatt : att ∈ s.attempts) {id : String} {notBefore : Nat}
    {k : Except Failure Bool → Prog Dispatch (Except Failure Unit)}
    (asks : att.prog = .await (.deferForReadback id notBefore) k) {r : Row} (hid : operationIdOf id = some r.id)
    (hr : s.db.row? r.id = some r) : r.instanceId ≠ instanceId := by
  intro hinst
  obtain ⟨hrow, -, -, m, e, -, -, caps, hcaps, heq⟩ := followed.deferral hatt asks hid hr
  obtain ⟨i, hlog⟩ := s.capabilities_heard att.op hcaps
  obtain ⟨r₀, op₀, f, hr₀, hop₀, hallowed, -⟩ := followed.admitted _ hlog _ rfl
  have hi : i = op₀.instanceId := hallowed
  change s.db.row? att.row = some r₀ at hr₀
  rw [hrow, hr] at hr₀
  cases hr₀
  have hnever := never _ hlog
  simp [Event.declaresEqualitySearch, hi, hop₀.instanceId, hinst, heq] at hnever

theorem Unsearched.step {advisoryLockKey : String → BitVec 64} (inv : s.Unsearched instanceId)
    (followed : s.Followed cfg) (replays : s.Replays cfg) (never : s.NeverSearchable instanceId)
    (spares : s.sparesCreates cfg instanceId a) (h : Stepped advisoryLockKey cfg s a s') :
    s'.Unsearched instanceId := by
  have wf := followed.wf
  -- A row of the new state that an old attempt or entry is about was there before.
  have was {u : Uuid} {r r' : Row} (hr : s.db.row? u = some r) (hr' : s'.db.row? u = some r') :
      r.instanceId = r'.instanceId := by
    obtain ⟨r₁, hr₁, hc⟩ := h.row_kept wf hr
    cases hr₁.symm.trans hr'
    exact hc.sameOperation.instanceId.symm
  constructor
  · intro u r' hr' hinst hst
    obtain ⟨r, hr, same, hcause⟩ := h.awaiting_origin wf hr' hst
    rw [same.nameAttrValue]
    rw [same.instanceId] at hinst
    have hru := Db.row?_id hr
    subst hru
    rcases hcause with hwas | ⟨_, _, _, rfl, hseen, hstale, hop⟩ | ⟨att, hatt, id, notBefore, k, asks, hid⟩
    · exact inv.rows _ r hr hinst hwas
    · exact of_decide_eq_true spares r (lookup_some_mem hr).1 hseen hstale hop hinst
    · exact absurd hinst (instance_ne_of_deferral followed never hatt asks hid hr)
  · intro att hatt hinst hprior
    rcases h.attempt_origin hatt with ⟨old, hold, heq⟩ | ⟨sid, c, ⟨r, p⟩, -, hreturned, rfl⟩
    · rw [heq] at hinst hprior ⊢
      exact inv.attempts old hold hinst hprior
    · obtain ⟨hr, hst, -⟩ := Db.returned_lockable wf hreturned
      have hp : p = .awaitingReadback := hprior
      exact inv.rows _ r hr hinst (hp ▸ hst)
  · intro ent hent r' hr' hinst
    cases hev : ent.event with
    | heard e x =>
      have he : ent.event.effect = some e := by rw [hev]; rfl
      rcases h.entry_origin hent he with hold | ⟨att, hatt, hkey, k, asks⟩
      · obtain ⟨r, op, before, k, hr, -⟩ := replays.logged ent hold e he
        rw [← hev]
        exact inv.log ent hold r hr ((was hr hr').trans hinst)
      · obtain ⟨r, hr, hop⟩ := (followed.follows att hatt).about
        have hrow : att.row = ent.row := congrArg Prod.fst hkey
        rw [hrow] at hr
        exact inv.not_search followed replays hatt asks (hop.instanceId.trans ((was hr hr').trans hinst))
    | _ => rfl

theorem unsearched_start (now : Nat) (partitions : List Nat) : (start now partitions).Unsearched instanceId := by
  constructor
  · intro u r hr
    simp [start, Db.start, Db.row?, Tables.row?, lookup] at hr
  · simp [start]
  · simp [start]

/-! ## The result -/

/-- The runs over an instance without the capability whose reaper passes spare its creates. -/
def staysUnsearchable (cfg : ResolvedDispatcherConfig) (instanceId : String) (s : Deployment) (a : Action)
    (s' : Deployment) : Prop := s'.NeverSearchable instanceId ∧ s.sparesCreates cfg instanceId a

instance (s : Deployment) (a : Action) (s' : Deployment) : Decidable (staysUnsearchable cfg instanceId s a s') :=
  inferInstanceAs (Decidable (_ ∧ _))

/-- **Read-back only where the connector can answer it**, in the runs in which the reaper spares the creates
of the instance. -/
theorem no_read_back_without_capability {advisoryLockKey : String → BitVec 64} {now : Nat} {partitions : List Nat}
    (run : Runs (step advisoryLockKey cfg) (staysUnsearchable cfg instanceId) (start now partitions) s) {u : Uuid}
    {r : Row} (hr : s.db.row? u = some r) (hinst : r.instanceId = instanceId) :
    (∀ att ∈ s.attempts, att.row = u → ∀ e k, att.prog = .await e k → e.isSearch = false) ∧
    ∀ ent ∈ s.log, ent.row = u → ent.event.isSearched = false ∧ ent.event.recoversByReadBack = false ∧
      (ent.event.isRequeue → (s.facts ent.key).found ≠ some (.ok [])) := by
  have inv : (s.Followed cfg ∧ s.Replays cfg) ∧ s.NeverSearchable instanceId ∧ s.Unsearched instanceId := by
    refine run.invariant (fun s => (s.Followed cfg ∧ s.Replays cfg) ∧ s.NeverSearchable instanceId ∧
      s.Unsearched instanceId) ?_ ?_
    · exact ⟨⟨followed_start now partitions, replays_start now partitions⟩, by simp [NeverSearchable, start],
        unsearched_start now partitions⟩
    · rintro s a s' ⟨⟨followed, replays⟩, never, inv⟩ h ⟨never', spares⟩
      have hs := stepped h
      exact ⟨⟨followed.step hs, replays.step followed hs⟩, never', inv.step followed replays never spares hs⟩
  obtain ⟨⟨followed, replays⟩, -, inv⟩ := inv
  refine ⟨fun att hatt hrow e k asks => ?_, fun ent hent hrow => ?_⟩
  · obtain ⟨r₀, hr₀, hop⟩ := (followed.follows att hatt).about
    rw [hrow, hr] at hr₀
    cases hr₀
    exact inv.not_search followed replays hatt asks (hop.instanceId.trans hinst)
  · have logged : ∀ ent' ∈ s.log, ent'.row = u → ent'.event.isSearched = false :=
      fun ent' hent' hrow' => inv.log ent' hent' r (by rw [hrow', hr]) hinst
    -- Nothing was found, because nothing was searched for.
    have unsearched : ∀ x ∈ s.transcript ent.key, x.1.isSearch = false :=
      fun x hx => logged _ (mem_transcriptOf.1 hx) hrow
    refine ⟨logged ent hent hrow, ?_, fun hrequeue hmiss => ?_⟩
    · by_contra hrecovers
      simp only [Bool.not_eq_false] at hrecovers
      unfold Event.recoversByReadBack at hrecovers
      split at hrecovers
      · rename_i id result errorCode applied current hev
        have he : ent.event.effect = some (.finalize id .succeeded result errorCode) := by rw [hev]; rfl
        obtain ⟨-, op, before, -, -, supported, hbefore⟩ :=
          replays.issued followed (Dispatcher.execute_grounded cfg) (fun _ _ _ => trivial) (.inr ⟨ent, hent, rfl, he⟩)
        rcases supported with ⟨o, rest, hfound, -⟩ | ⟨-, o, -, rfl⟩ | ⟨-, hnone⟩
        · obtain ⟨_, _, _, _, hx⟩ := found_heard hfound
          cases unsearched _ (hbefore.subset hx)
        · simp [createdResult, Json.field] at hrecovers
        · rw [hnone] at hrecovers
          cases hrecovers
      · cases hrecovers
    · unfold Event.isRequeue at hrequeue
      split at hrequeue
      · rename_i id applied current hev
        have he : ent.event.effect = some (.requeue id) := by rw [hev]; rfl
        obtain ⟨-, op, -⟩ := replays.logged ent hent _ he
        obtain ⟨_, _, _, _, hx⟩ := s.search_heard op hmiss
        cases unsearched _ hx
      · cases hrequeue

/-- A create is called on an instance that cannot search, and its process dies. The next attempt finds an
account by its name. -/
def searchedAnyway : List Action :=
  submitted 1 (request .create) 7 ++ claimedBy 1 1 7 ++
    replied 0 [.lease (.ok ()), .config (.ok (some someRuntime)), .time 0, .done] ++
    [.die 1, .database (.tick 600001), .reap 2000 600001 [7], .database (.tick 2000)] ++ claimedBy 2 2 7 ++
    replied 0 [.lease (.ok ()), .config (.ok (some someRuntime)), .schema (.ok ⟨[]⟩), .time 602001,
      .found (.ok [⟨"User", "42", some "bob", []⟩])] ++
    [.write 0 (some 602001)]

theorem read_back_without_capability :
    ∃ s r ent, Runs (step (fun _ => 0) .DEFAULTS) (fun _ _ s' => s'.NeverSearchable "i") (start 0 [0]) s ∧
      s.db.row? 7 = some r ∧ r.instanceId = "i" ∧ r.status = .final .succeeded ∧
      ent ∈ s.log ∧ ent.row = 7 ∧ ent.event.recoversByReadBack = true := by
  have h : (exec (step (fun _ => 0) .DEFAULTS) (fun _ _ s' => s'.NeverSearchable "i") (start 0 [0])
      searchedAnyway).map (fun s => ((s.db.row? 7).map fun r => (r.instanceId, r.status),
        s.log.any fun ent => ent.row = 7 ∧ ent.event.recoversByReadBack)) =
      some (some ("i", .final .succeeded), true) := by
    decide
  obtain ⟨s, hs, h⟩ := Option.map_eq_some_iff.1 h
  simp only [Prod.mk.injEq, Option.map_eq_some_iff, List.any_eq_true, decide_eq_true_eq] at h
  obtain ⟨⟨r, hr, hinst, hst⟩, ent, hent, hrow, hrecovers⟩ := h
  exact ⟨s, r, ent, runs_of_exec hs, hr, hinst, hst, hent, hrow, hrecovers⟩

/-- A create on such an instance runs into its deadline. -/
def neverSearched : List Action :=
  submitted 1 (request .create) 7 ++ claimedBy 1 1 7 ++
    replied 0 [.lease (.ok ()), .config (.ok (some someRuntime)), .time 0, .done,
      .settled (.error (.deadlineExpired "late")), .capabilities ⟨true, true, false⟩] ++ [.write 0 (some 0)]

theorem no_read_back_without_capability_expired :
    ∃ s, exec (step (fun _ => 0) .DEFAULTS) (staysUnsearchable .DEFAULTS "i") (start 0 [0]) neverSearched = some s ∧
      s.log.length = 8 ∧ ∀ ent ∈ s.log, ent.row = 7 → ent.event.recoversByReadBack = false := by
  have h : (exec (step (fun _ => 0) .DEFAULTS) (staysUnsearchable .DEFAULTS "i") (start 0 [0]) neverSearched).map
      (fun s => (s.log.length, (s.db.row? 7).map fun r => r.instanceId)) = some (8, some "i") := by
    decide
  obtain ⟨s, hs, h⟩ := Option.map_eq_some_iff.1 h
  simp only [Prod.mk.injEq, Option.map_eq_some_iff] at h
  obtain ⟨hlog, r, hr, hinst⟩ := h
  refine ⟨s, hs, hlog, fun ent hent hrow => ?_⟩
  exact ((no_read_back_without_capability (runs_of_exec hs) hr hinst).2 ent hent hrow).2.1

end Deployment

end Provisioning
