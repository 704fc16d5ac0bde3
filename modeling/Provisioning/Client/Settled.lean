import Provisioning.Client.Reads

/-!
# What the promise of a mutation tells

`call` and `mapErrorResponse` of `clients/node/src/httpClient.js`, with the errors of `clients/node/src/errors.js`.
The promise resolves when an operation was enqueued. What it rejects with tells whether one was, unless the request or
its answer was lost on the way.
-/

namespace Provisioning.Client

open Lib Http

/-! ## The client -/

inductive ClientError where
  | admissionRejected (backlogDepth priority : Option Json) (message : Json) (status : Nat)
  | notFound (message : Json) (status : Nat) (body : Json)
  /-- An `HttpError` of no other class. -/
  | http (message : Json) (status : Nat) (code : Option Json) (body : Json)

/-- `problem.message || res.statusText || ...` -/
def messageOf (statusText : String) (status : Nat) (problem : Json) : Json :=
  match (problem.field "message").filter Json.truthy with
  | some message => message
  | none => if statusText = "" then .str ("request failed with status " ++ toString status) else .str statusText

def mapErrorResponse (statusText : String) (status : Nat) (problem : Json) : ClientError :=
  let message := messageOf statusText status problem
  if status = 429 then .admissionRejected (problem.field "backlogDepth") (problem.field "priority") message status
  else if status = 404 then .notFound message status problem
  else .http message status (problem.field "error") problem

/-- What `fetch` resolves to. -/
structure Fetched where
  response : Response
  /-- Why the body cannot be read, when the connection is lost under it. -/
  unread : Option String

/-- `res.json()` -/
def Fetched.json (f : Fetched) : Except String Json :=
  match f.unread with
  | none => .ok f.response.body
  | some reason => .error reason

/-- What `call` rejects with. -/
inductive CallError where
  | token (reason : String)
  | fetch (reason : String)
  | json (reason : String)
  | http (e : ClientError)

/-- `call`, with what `getAccessToken` and `fetch` settle with. -/
def settle (statusText : Nat → String) (token : Except String String) (fetched : Except String Fetched) :
    Except CallError (Option Json) := do
  let _ ← token.mapError .token
  let res ← fetched.mapError .fetch
  let status := res.response.status
  if 400 ≤ status then
    throw (.http (mapErrorResponse (statusText status) status (res.json.toOption.getD (.obj []))))
  else if status = 204 then pure none
  else some <$> res.json.mapError .json

def ClientError.backlogDepth : ClientError → Option Json
  | .admissionRejected backlogDepth _ _ _ => backlogDepth
  | _ => none

/-! ## A backlog at its cap -/

/-- The gate refuses the request, for these counts. -/
structure Overloaded (instanceId : String) (asks : OperationPriority → Prop) (counts : PendingCounts)
    (e : AdmissionRejectedError) : Prop where
  instanceId : e.instanceId = instanceId
  priority : asks e.priority
  depth : e.backlogDepth = counts.depth e.priority
  cap : e.cap = AdmissionCaps.cap ⟨none, none⟩ e.priority
  reached : e.cap ≤ e.backlogDepth

section Monitoring

-- The instance of the request, and the priority that it asks for.
variable (instanceId : String) (asks : OperationPriority → Prop)

/-- An error that tells of a backlog tells of the counts that were heard. -/
def Told (counts : Option PendingCounts) : HttpError → Prop
  | .admission e => ∃ n, counts = some n ∧ Overloaded instanceId asks n e
  | _ => True

def ToldBy (counts : Option PendingCounts) (r : Response) : Prop :=
  r.status = 429 → r.body.field "backlogDepth" = none ∨
    ∃ e, r = mapError (.admission e) ∧ Told instanceId asks counts (.admission e)

def backlogAllows (counts : Option PendingCounts) : HttpIo → Prop
  | .pendingCounts id => id = instanceId
  | .respond r => ToldBy instanceId asks counts r
  | _ => True

/-- The registrar throws no `AdmissionRejectedError`. -/
def NoGateInRegistrar : (e : HttpIo) → e.Answer → Prop
  | .ensureApplication _, .error (.admission _) => False
  | _, _ => True

def backlogNext (counts : Option PendingCounts) : (e : HttpIo) → e.Answer → Option PendingCounts
  | .pendingCounts _, .ok n => some n
  | _, _ => counts

def backlogMonitor : Monitor HttpEffects (Option PendingCounts) where
  allows := backlogAllows instanceId asks
  expects := NoGateInRegistrar
  next := backlogNext

/-- What is thrown tells of what was heard. -/
abbrev Telling {α : Type} (counts : Option PendingCounts) (x : HttpProg α) : Prop :=
  Async.Safe (backlogMonitor instanceId asks) (fun m r => ∀ e, r = .error e → Told instanceId asks m e) counts x

end Monitoring

section Steps

variable {instanceId : String} {asks : OperationPriority → Prop} {counts : Option PendingCounts} {α β : Type}

theorem failure_noDepth (f : Failure) : (mapError (.failure f)).body.field "backlogDepth" = none := by
  cases f with
  | connector code retryable message => rfl
  | deadlineExpired message => rfl
  | other message =>
    simp only [mapError]
    split
    · rfl
    · split <;> rfl

theorem toldBy_mapError {e : HttpError} (h : Told instanceId asks counts e) :
    ToldBy instanceId asks counts (mapError e) := by
  intro _
  cases e with
  | admission e => exact .inr ⟨e, rfl, h⟩
  | registration | filterSyntax | validation => exact .inl rfl
  | failure f => exact .inl (failure_noDepth f)

theorem telling_bind {x : HttpProg β} {f : β → HttpProg α} (hx : Telling instanceId asks counts x)
    (hf : ∀ m b, Telling instanceId asks m (f b)) : Telling instanceId asks counts (x >>= f) :=
  Async.Safe.bind _ hx (fun m b _ => hf m b) fun m e h e' he' => by
    obtain rfl := Except.error.inj he'
    exact h e rfl

theorem telling_pure (a : α) : Telling instanceId asks counts (pure a : HttpProg α) := nofun

theorem telling_call (e : HttpIo) (result : e.Answer → Except Failure α)
    (allowed : backlogAllows instanceId asks counts e) : Telling instanceId asks counts (call e result) := by
  refine Async.Safe.call allowed fun a _ err h => ?_
  cases hresult : result a with
  | ok b => simp [hresult, Except.mapError] at h
  | error f =>
    simp only [hresult, Except.mapError, Except.error.injEq] at h
    rw [← h]
    trivial

/-- The error is none of the gate's. -/
def Unrelated (x : Except RouteError α) : Prop := ∀ e, x ≠ .error (.rejected e)

theorem telling_orThrow {x : Except RouteError α}
    (h : ∀ e, x = .error (.rejected e) → Told instanceId asks counts (.admission e)) :
    Telling instanceId asks counts (orThrow x) := by
  cases x with
  | ok a => exact nofun
  | error e =>
    intro e' he'
    obtain rfl := Except.error.inj he'
    cases e with
    | rejected e => exact h e rfl
    | validation message | failure f => trivial

theorem telling_orThrow_bind {x : Except RouteError β} {f : β → HttpProg α}
    (hx : ∀ e, x = .error (.rejected e) → Told instanceId asks counts (.admission e))
    (hf : ∀ b, x = .ok b → Telling instanceId asks counts (f b)) :
    Telling instanceId asks counts (orThrow x >>= f) := by
  cases x with
  | ok b => exact hf b rfl
  | error e =>
    intro e' he'
    exact telling_orThrow hx e' (congrArg Except.error (Except.error.inj he'))

theorem Unrelated.telling {x : Except RouteError α} (h : Unrelated x) : Telling instanceId asks counts (orThrow x) :=
  telling_orThrow fun e he => absurd he (h e)

/-! ## The parts of the handler -/

theorem unrelated_bind {x : Except RouteError β} {f : β → Except RouteError α} (hx : Unrelated x)
    (hf : ∀ b, Unrelated (f b)) : Unrelated (x >>= f) := by
  cases x with
  | ok b => exact hf b
  | error e =>
    intro e' h
    exact hx e' (congrArg Except.error (Except.error.inj h))

theorem unrelated_failure (x : Except Failure α) : Unrelated (x.mapError .failure) := by
  intro e h
  cases x <;> cases h

theorem unrelated_priorityOf (m : MutationRequest) : Unrelated m.priorityOf := by
  intro e h
  unfold MutationRequest.priorityOf at h
  split at h <;> cases h

theorem unrelated_attributesOf (m : MutationRequest) : Unrelated m.attributesOf := by
  intro e h
  unfold MutationRequest.attributesOf at h
  split at h
  · split at h <;> cases h
  · cases h

theorem unrelated_attrs (m : MutationRequest) : Unrelated m.attrs := by
  unfold MutationRequest.attrs
  split
  · exact unrelated_bind (unrelated_attributesOf m) fun a => nofun
  · exact nofun

theorem unrelated_nameAttrValueOf (m : MutationRequest) (attrs : Option Json) :
    Unrelated (m.nameAttrValueOf attrs) := by
  unfold MutationRequest.nameAttrValueOf
  split
  · refine unrelated_bind (unrelated_failure _) fun _ => ?_
    intro e h
    split at h <;> cases h
  · exact nofun

theorem overloaded_of_rejected {op : AdmitInput} {n : PendingCounts} {e : AdmissionRejectedError}
    (h : Provisioning.admitAndEnqueue op ⟨none, none⟩ (.ok n) = .error (.rejected e))
    (hasks : asks (op.priority.getD .batch)) : Overloaded op.instanceId asks n e := by
  unfold Provisioning.admitAndEnqueue at h
  change (if _ then _ else _) = _ at h
  split at h
  · rename_i hreached
    cases h
    exact ⟨rfl, hasks, rfl, rfl, hreached⟩
  · refine absurd h (unrelated_bind ?_ (fun laneKey e h => by cases h) e)
    intro e h
    unfold AdmitInput.laneKeyOf at h
    split at h
    · cases h
    · exact unrelated_failure _ e h

/-! ## The handler -/

theorem telling_nameAttrValueOf (m : MutationRequest) (attrs : Option Json) :
    Telling instanceId asks counts (nameAttrValueOf m attrs) := by
  unfold nameAttrValueOf
  split
  · refine telling_bind (telling_bind (telling_call _ _ trivial) fun _ _ => ?_) fun _ schema => ?_
    · refine Async.Safe.andFinally (fun _ r => ∃ a, r = .ok a) ?_ fun _ r h => ?_
      · exact Async.Safe.ask trivial fun a _ => ⟨a, rfl⟩
      · obtain ⟨a, rfl⟩ := h
        exact Async.Safe.ask trivial fun _ _ => ⟨fun _ _ => nofun, nofun⟩
    · exact (unrelated_nameAttrValueOf _ _).telling
  · exact telling_pure _

theorem telling_admitAndEnqueue (op : AdmitInput) (hasks : asks (op.priority.getD .batch)) :
    Telling op.instanceId asks counts (Http.admitAndEnqueue op ⟨none, none⟩) := by
  refine Async.Safe.bind
    (fun m r => (∀ n, r = .ok n → m = some n) ∧ ∀ e, r = .error e → ∃ f, e = .failure f) ?_ (fun m n h => ?_) ?_
  · refine Async.Safe.call rfl fun (answer : Except Failure PendingCounts) _ => ?_
    cases answer with
    | ok n => exact ⟨fun _ h => congrArg some (Except.ok.inj h), nofun⟩
    | error f => exact ⟨nofun, fun _ h => ⟨f, (Except.error.inj h).symm⟩⟩
  · obtain rfl := h.1 n rfl
    refine telling_bind (telling_orThrow fun e he => ⟨n, rfl, overloaded_of_rejected he hasks⟩) fun _ input => ?_
    exact telling_call _ _ trivial
  · intro m e h e' he'
    obtain rfl := Except.error.inj he'
    obtain ⟨f, rfl⟩ := h.2 e rfl
    trivial

theorem telling_respondAccepted (result : EnqueueResult) (key : String) :
    Telling instanceId asks counts (respondAccepted result key) :=
  Async.Safe.ask (fun h => by cases h) fun _ _ => nofun

theorem telling_enqueueRoute (m : MutationRequest)
    (hasks : ∀ priority, m.priorityOf = .ok priority → asks (priority.getD .batch)) :
    Async.Safe (backlogMonitor m.instanceId asks) (fun _ _ => True) counts (enqueueRoute m) := by
  refine Async.Safe.catching (fun m' r => ∀ e, r = .error e → Told m.instanceId asks m' e) ?_ (fun _ _ _ => trivial) ?_
  · refine telling_orThrow_bind (fun e he => absurd he (unrelated_priorityOf m e)) fun priority hpriority => ?_
    refine telling_bind (unrelated_attrs m).telling fun _ attrs => ?_
    refine telling_bind (telling_nameAttrValueOf m attrs) fun _ name => ?_
    refine telling_bind (telling_admitAndEnqueue (admitInput m priority attrs name) (hasks priority hpriority))
      fun _ result => ?_
    exact telling_respondAccepted _ _
  · exact fun m' e h => Async.Safe.ask (toldBy_mapError (h e rfl)) fun _ _ => trivial

/-! ## The application -/

theorem telling_ifThen {x : HttpProg Bool} {y : HttpProg Unit}
    (hx : Async.Safe (backlogMonitor instanceId asks) (fun _ _ => True) counts x)
    (hy : ∀ m, Async.Safe (backlogMonitor instanceId asks) (fun _ _ => True) m y) :
    Async.Safe (backlogMonitor instanceId asks) (fun _ _ => True) counts (do if ← x then y) := by
  refine Async.Safe.bind (fun _ _ => True) hx (fun m b _ => ?_) fun _ _ _ => trivial
  cases b with
  | true => exact hy m
  | false => trivial

theorem telling_next {e : HttpError} (h : Told instanceId asks counts e) :
    Async.Safe (backlogMonitor instanceId asks) (fun _ _ => True) counts (next false e) :=
  Async.Safe.ask (toldBy_mapError h) fun _ _ => trivial

theorem telling_refused {e : HttpError} (h : Told instanceId asks counts e) :
    Async.Safe (backlogMonitor instanceId asks) (fun _ _ => True) counts (do next false e; return false) :=
  Async.Safe.bind (fun _ _ => True) (telling_next h) (fun _ _ _ => trivial) fun _ _ _ => trivial

theorem telling_requireJwt (config : JwtConfig) (req : HttpRequest) :
    Async.Safe (backlogMonitor instanceId asks) (fun _ _ => True) counts (requireJwt config none req) := by
  apply Prog.Only.allowed (requireJwt_only config req)
  intro m e he
  cases e with
  | respond r =>
    intro hstatus
    rcases he with h | h <;> simp [h] at hstatus
  | pendingCounts id => cases he
  | _ => trivial

theorem telling_ensureRegistered (req : HttpRequest) :
    Async.Safe (backlogMonitor instanceId asks) (fun _ _ => True) counts (ensureRegistered req) := by
  unfold ensureRegistered
  split
  · trivial
  · split
    · exact telling_refused trivial
    · refine Async.Safe.catching (fun m r => ∀ e, r = .error e → Told instanceId asks m e) ?_ (fun _ _ _ => trivial) ?_
      · refine telling_bind (Async.Safe.call trivial fun (answer : Except HttpError Unit) expected e he => ?_) ?_
        · subst he
          cases e with
          | admission e => exact absurd expected id
          | _ => trivial
        · exact fun _ _ => telling_pure true
      · exact fun m e h => telling_refused (h e rfl)

/-- The request is routed to the handler of a mutation. -/
structure RoutedTo (req : HttpRequest) (opType : OperationType) (params : List (String × String)) : Prop where
  routed : ∃ flag, handle req.method req.segments = some (.enqueueRoute opType flag, params)

theorem telling_app {req : HttpRequest} {opType : OperationType} {params : List (String × String)}
    (h : RoutedTo req opType params)
    (hasks : ∀ body priority, req.body = .ok body → (mutationRequest req body opType params).priorityOf = .ok priority →
      asks (priority.getD .batch)) (config : JwtConfig) :
    Async.Safe (backlogMonitor (param "instanceId" params) asks) (fun _ _ => True) none (app config req) := by
  obtain ⟨flag, routed⟩ := h
  unfold app
  split
  · exact telling_next trivial
  · rename_i body hbody
    split
    · rename_i handler raw hprobe
      obtain ⟨hfound, isProbe⟩ := Option.filter_eq_some_iff.1 hprobe
      unfold handle at routed
      rw [hfound, Option.bind_some] at routed
      obtain ⟨_, -, heq⟩ := Option.map_eq_some_iff.1 routed
      obtain ⟨rfl, -⟩ := Prod.mk.inj heq
      simp [Handler.isProbe] at isProbe
    · split
      · exact Async.Safe.ask trivial fun _ _ => trivial
      refine telling_ifThen (telling_requireJwt config req) fun m => ?_
      refine telling_ifThen (telling_ensureRegistered req) fun m' => ?_
      split
      · exact telling_next trivial
      · rw [routed]
        exact telling_enqueueRoute (mutationRequest req body opType params) fun priority => hasks body priority hbody

end Steps

/-! ## What was heard -/

section History

variable {instanceId : String} {asks : OperationPriority → Prop} {heard : HttpHeard} {counts : Option PendingCounts}

/-- The gate has refused the request, for counts that it was answered. -/
def RefusedWith (instanceId : String) (asks : OperationPriority → Prop) (heard : HttpHeard)
    (e : AdmissionRejectedError) : Prop :=
  ∃ n, CountsHeard heard instanceId n ∧ Overloaded instanceId asks n e

def ToldIn (instanceId : String) (asks : OperationPriority → Prop) (heard : HttpHeard) (r : Response) : Prop :=
  r.status = 429 → r.body.field "backlogDepth" = none ∨
    ∃ e, r = mapError (.admission e) ∧ RefusedWith instanceId asks heard e

structure HeardCounts (instanceId : String) (asks : OperationPriority → Prop) (heard : HttpHeard)
    (counts : Option PendingCounts) : Prop where
  counts : ∀ n, counts = some n → CountsHeard heard instanceId n
  told : ∀ r ∈ responses heard, ToldIn instanceId asks heard r

theorem HeardCounts.counts_snoc (inv : HeardCounts instanceId asks heard counts) (e : HttpIo) (a : e.Answer)
    (allowed : backlogAllows instanceId asks counts e) {n : PendingCounts} (hn : backlogNext counts e a = some n) :
    CountsHeard (heard ++ [⟨e, a⟩]) instanceId n := by
  cases e with
  | pendingCounts id =>
    obtain rfl : id = instanceId := allowed
    cases (a : Except Failure PendingCounts) with
    | error f => exact List.mem_append_left _ (inv.counts n hn)
    | ok n' =>
      obtain rfl := Option.some.inj hn
      exact List.mem_append_right _ List.mem_cons_self
  | _ => exact List.mem_append_left _ (inv.counts n hn)

theorem HeardCounts.snoc (inv : HeardCounts instanceId asks heard counts) (e : HttpIo) (a : e.Answer)
    (allowed : backlogAllows instanceId asks counts e) :
    HeardCounts instanceId asks (heard ++ [⟨e, a⟩]) (backlogNext counts e a) := by
  refine ⟨fun n => inv.counts_snoc e a allowed, fun r hr hstatus => ?_⟩
  rw [responses_snoc] at hr
  rcases List.mem_append.1 hr with hr | hr
  · refine (inv.told r hr hstatus).imp_right ?_
    rintro ⟨e', hr, n, hn, hover⟩
    exact ⟨e', hr, n, List.mem_append_left _ hn, hover⟩
  · cases e with
    | respond r' =>
      obtain rfl := List.mem_singleton.1 hr
      refine (allowed hstatus).imp_right ?_
      rintro ⟨e', hr, n, hn, hover⟩
      exact ⟨e', hr, n, List.mem_append_left _ (inv.counts n hn), hover⟩
    | _ => simp [HttpIo.response] at hr

theorem heardCounts_app {req : HttpRequest} {opType : OperationType} {params : List (String × String)}
    (routed : RoutedTo req opType params)
    (hasks : ∀ body priority, req.body = .ok body → (mutationRequest req body opType params).priorityOf = .ok priority →
      asks (priority.getD .batch)) {config : JwtConfig}
    {q : Prog HttpEffects (Except HttpError Unit)} (h : (app config req).run.Reaches heard q)
    (registrar : ∀ x ∈ heard, NoGateInRegistrar x.1 x.2) :
    ∀ r ∈ responses heard, ToldIn (param "instanceId" params) asks heard r := by
  have init : HeardCounts (param "instanceId" params) asks [] none := ⟨nofun, fun r hr => by simp [responses] at hr⟩
  have history := Prog.Safe.history (HeardCounts (param "instanceId" params) asks)
    (fun _ _ e a (inv : HeardCounts _ _ _ _) allowed _ => inv.snoc e a allowed) init (telling_app routed hasks config) h
    registrar
  exact history.told

end History

/-! ## The answers of a mutation -/

section Answers

variable {req : HttpRequest} {opType : OperationType} {params : List (String × String)}

theorem mapError_isError (e : HttpError) : 400 ≤ (mapError e).status := by
  cases e with
  | failure f =>
    cases f with
    | connector code retryable message => cases code <;> simp [mapError, CONNECTOR_ERROR_STATUS]
    | deadlineExpired message => simp [mapError]
    | other message =>
      simp only [mapError]
      split
      · simp
      · split <;> simp
  | _ => simp [mapError]

/-- A mutation is answered with a 202 or with an error. -/
def AnswersMutation : HttpIo → Prop
  | .respond r => r.status = 202 ∨ 400 ≤ r.status
  | .finish | .noRoute | .options _ => False
  | _ => True

theorem IsMapped.isError {r : Response} (h : IsMapped r) : r.status = 202 ∨ 400 ≤ r.status := by
  obtain ⟨e, rfl⟩ := h
  exact .inr (mapError_isError e)

theorem answersMutation_of_request (h : RoutedTo req opType params) {e : HttpIo} (he : OfRequest req e) :
    AnswersMutation e := by
  obtain ⟨flag, routed⟩ := h
  cases he with
  | mapped h => exact IsMapped.isError h
  | probe found isProbe h =>
    unfold handle at routed
    rw [found, Option.bind_some] at routed
    obtain ⟨_, -, heq⟩ := Option.map_eq_some_iff.1 routed
    rw [(Prod.mk.inj heq).1] at isProbe
    simp [Handler.isProbe] at isProbe
  | token h =>
    cases e with
    | respond r =>
      right
      rcases h with h | h <;> omega
    | finish | noRoute | options => cases h
    | _ => trivial
  | registration h =>
    cases e with
    | respond r => exact IsMapped.isError h
    | finish | noRoute | options => cases h
    | _ => trivial
  | noRoute unrouted =>
    rw [routed] at unrouted
    cases unrouted
  | options asked =>
    rw [asked, handle, findRoute_options] at routed
    cases routed
  | handler hbody routed' h =>
    rw [routed] at routed'
    obtain ⟨rfl, rfl⟩ := Prod.mk.inj (Option.some.inj routed')
    cases e with
    | respond r => exact h.elim .inl IsMapped.isError
    | finish | noRoute | options => cases h
    | _ => trivial

theorem status_of_mem {heard : HttpHeard} (h : ∀ x ∈ heard, AnswersMutation x.1) {r : Response}
    (hr : r ∈ responses heard) : r.status = 202 ∨ 400 ≤ r.status := by
  obtain ⟨x, hx, hresponse⟩ := List.mem_filterMap.1 hr
  have answers := h x hx
  cases he : x.1 with
  | respond r' =>
    rw [he] at answers hresponse
    obtain rfl := Option.some.inj hresponse
    exact answers
  | _ => simp [he, HttpIo.response] at hresponse

end Answers

/-! ## The result -/

/-- A call and what the service does of it. A request that is lost, or whose answer is lost, has come to any point. -/
inductive Carries (config : JwtConfig) (c : Call) (args : MutationArgs) (randomUUID : String) :
    Except String String → HttpHeard → Except String Fetched → Prop
  | unsent {reason : String} {fetched : Except String Fetched} :
      Carries config c args randomUUID (.error reason) [] fetched
  | lost {token reason : String} {heard : HttpHeard} {q : Prog HttpEffects (Except HttpError Unit)}
      (h : (app config (c.sent token args randomUUID)).run.Reaches heard q) :
      Carries config c args randomUUID (.ok token) heard (.error reason)
  | answered {token : String} {heard : HttpHeard} {q : Prog HttpEffects (Except HttpError Unit)} {fetched : Fetched}
      (h : (app config (c.sent token args randomUUID)).run.Reaches heard q)
      (responded : fetched.response ∈ responses heard) :
      Carries config c args randomUUID (.ok token) heard (.ok fetched)

/-- What the promise tells of what became of the request. -/
inductive Tells (c : Call) (args : MutationArgs) (heard : HttpHeard) : Except CallError (Option Json) → Prop
  | enqueued {result : EnqueueResult} {body : Json} (asked : enqueueAnswers heard = [.ok result])
      (named : body.field "operationId" = some (.str result.id)) : Tells c args heard (.ok (some body))
  | storeFailed {f : Failure} {err : ClientError} (asked : enqueueAnswers heard = [.error f])
      (noDepth : err.backlogDepth = none) : Tells c args heard (.error (.http err))
  | refused {e : AdmissionRejectedError} {message : Json} (asked : enqueueAnswers heard = [])
      (refusal : RefusedWith c.instanceId (c.AsksPriority args) heard e) :
      Tells c args heard (.error (.http (.admissionRejected (some (.num (toString e.backlogDepth)))
        (some (.str e.priority.text)) message 429)))
  | other {err : ClientError} (asked : enqueueAnswers heard = []) (noDepth : err.backlogDepth = none) :
      Tells c args heard (.error (.http err))
  /-- The operation is enqueued, and the caller does not learn its id. -/
  | unread {result : EnqueueResult} {reason : String} (asked : enqueueAnswers heard = [.ok result]) :
      Tells c args heard (.error (.json reason))
  | unsent {reason : String} (nothing : heard = []) : Tells c args heard (.error (.token reason))
  /-- Nobody knows whether the operation is enqueued. -/
  | lost {reason : String} (once : (enqueueAnswers heard).length ≤ 1) : Tells c args heard (.error (.fetch reason))

theorem backlogDepth_mapErrorResponse (statusText : String) (status : Nat) (problem : Json) :
    (mapErrorResponse statusText status problem).backlogDepth =
      if status = 429 then problem.field "backlogDepth" else none := by
  unfold mapErrorResponse
  split
  · rfl
  · split <;> rfl

section Settle

variable {statusText : Nat → String} {token : String} {fetched : Fetched}

theorem settle_error (h : 400 ≤ fetched.response.status) :
    settle statusText (.ok token) (.ok fetched) =
      .error (.http (mapErrorResponse (statusText fetched.response.status) fetched.response.status
        (fetched.json.toOption.getD (.obj [])))) :=
  if_pos h

theorem settle_accepted (h : fetched.response.status = 202) :
    settle statusText (.ok token) (.ok fetched) = some <$> fetched.json.mapError .json := by
  show (if 400 ≤ fetched.response.status then _ else if fetched.response.status = 204 then _ else _) = _
  rw [h]
  rfl

theorem Fetched.field_json {name : String} (h : fetched.response.body.field name = none) :
    (fetched.json.toOption.getD (.obj [])).field name = none := by
  unfold Fetched.json
  cases fetched.unread with
  | none => exact h
  | some reason => rfl

theorem tells_of_error {c : Call} {args : MutationArgs} {heard : HttpHeard} (asked : enqueueAnswers heard = [])
    (isError : 400 ≤ fetched.response.status)
    (told : ToldIn c.instanceId (c.AsksPriority args) heard fetched.response) :
    Tells c args heard (settle statusText (.ok token) (.ok fetched)) := by
  rw [settle_error isError]
  by_cases hstatus : fetched.response.status = 429
  · rcases told hstatus with hnone | ⟨e, he, refusal⟩
    · refine .other asked ?_
      rw [backlogDepth_mapErrorResponse, if_pos hstatus, fetched.field_json hnone]
    · cases hread : fetched.unread with
      | none =>
        have hjson : fetched.json.toOption.getD (.obj []) = (mapError (.admission e)).body := by
          simp [Fetched.json, hread, he, Except.toOption]
        rw [hjson, hstatus]
        exact .refused asked refusal
      | some reason =>
        refine .other asked ?_
        rw [backlogDepth_mapErrorResponse, if_pos hstatus]
        simp [Fetched.json, hread, Except.toOption, Json.field]
  · refine .other asked ?_
    rw [backlogDepth_mapErrorResponse, if_neg hstatus]

end Settle

namespace Call

/-- **The promise of a mutation tells what became of it.** It resolves with the id of the operation that the store has
enqueued. An error of the service says that the store failed at it, or was not asked: and one with a backlog depth
gives the depth that the store counted for the instance and the priority, at or above the cap. A body that cannot be
read hides an operation that is enqueued, and only a `fetch` that rejects leaves it open whether there is one. -/
theorem mutation_settles {c : Call} {args : MutationArgs} {config : JwtConfig} {randomUUID : String}
    {heard : HttpHeard} {token : Except String String} {fetched : Except String Fetched} {opType : OperationType}
    {flag : Bool} (statusText : Nat → String) (mutates : c.handler = .enqueueRoute opType flag) (plain : c.Plain)
    (hne : ∀ x ∈ c.components, x ≠ "") (carries : Carries config c args randomUUID token heard fetched)
    (registrar : ∀ x ∈ heard, NoGateInRegistrar x.1 x.2) :
    Tells c args heard (settle statusText token fetched) := by
  cases carries with
  | unsent => exact .unsent rfl
  | lost h =>
    refine .lost ?_
    rw [(recorded_app h).enqueued]
    exact Option.length_toList_le
  | @answered token _ _ fetched h responded =>
    have routed : RoutedTo (c.sent token args randomUUID) opType c.params :=
      ⟨flag, mutates ▸ routed_of_plain plain hne⟩
    have answers : ∀ x ∈ heard, AnswersMutation x.1 := fun x hx =>
      answersMutation_of_request routed (Prog.Only.heard (app_only config _) h x hx)
    have hasks : ∀ body priority, (c.sent token args randomUUID).body = .ok body →
        (mutationRequest (c.sent token args randomUUID) body opType c.params).priorityOf = .ok priority →
        c.AsksPriority args (priority.getD .batch) := by
      intro body priority hbody hpriority
      exact asksPriority_of_ok (Except.ok.inj hbody).symm hpriority
    have told := heardCounts_app routed hasks h registrar fetched.response responded
    rw [c.param_instanceId] at told
    have recorded := recorded_app h
    have fits := (recorded.responses fetched.response responded).2
    have enqueued := recorded.enqueued
    cases hstate : ((exchange config (c.sent token args randomUUID).authorization).recall .start heard).enqueued with
    | none =>
      rw [hstate] at fits enqueued
      refine tells_of_error enqueued ?_ told
      exact (status_of_mem answers responded).resolve_left fits
    | some answer =>
      rw [hstate] at fits enqueued
      cases answer with
      | ok result =>
        rw [settle_accepted fits.1]
        unfold Fetched.json
        cases fetched.unread with
        | none => exact .enqueued enqueued fits.2
        | some reason => exact .unread enqueued
      | error f =>
        have hresponse : fetched.response = mapError (.failure f) := fits
        rw [settle_error (hresponse ▸ mapError_isError _)]
        refine .storeFailed enqueued ?_
        rw [backlogDepth_mapErrorResponse]
        split
        · exact fetched.field_json (hresponse ▸ failure_noDepth f)
        · rfl

/-- A service whose backlog is at its cap. -/
def fullService : (e : HttpIo) → e.Answer
  | .pendingCounts _ => (.ok ⟨0, 10000⟩ : Except Failure PendingCounts)
  | e => quietService e

def refusedDelete : HttpProg Unit :=
  app plainJwtConfig ((deleteObject "hr" "User" "42").sent "abcdefghijklmnopqrstuvwxyz" ⟨.null, none, none⟩
    "00000000-0000-4000-8000-000000000000")

def fullHeard : HttpHeard := refusedDelete.run.transcript fullService

theorem fullHeard_reached : refusedDelete.run.Reaches fullHeard (.pure (refusedDelete.run.result fullService)) :=
  Prog.reaches_transcript _ _

theorem mutation_settles_full :
    ∃ response, responses fullHeard = [response] ∧ response.status = 429 ∧
      Tells (deleteObject "hr" "User" "42") ⟨.null, none, none⟩ fullHeard
        (settle (fun _ => "") (.ok "abcdefghijklmnopqrstuvwxyz") (.ok ⟨response, none⟩)) := by
  have registrar : ∀ x ∈ fullHeard, NoGateInRegistrar x.1 x.2 := by
    intro x hx
    rw [Prog.answer_of_mem_transcript (S := HttpEffects) fullService hx]
    cases x.1 <;> trivial
  have hstatus : (responses fullHeard).map (·.status) = [429] := by decide +kernel
  obtain ⟨response, hresponse, hstatus⟩ := List.map_eq_singleton_iff.1 hstatus
  refine ⟨response, hresponse, hstatus, ?_⟩
  exact mutation_settles (fun _ => "") rfl (.of_written (by decide +kernel) (by decide +kernel)) (by decide)
    (.answered fullHeard_reached (hresponse ▸ List.mem_singleton_self response)) registrar

end Call

end Provisioning.Client
