import Provisioning.Http.Exchange

/-!
# What a handler asks for

The effects of each part of the pipeline, whatever it is answered. They name what the path of the request names.
-/

namespace Provisioning.Http

open Lib

variable {α : Type}

/-! ## The parts -/

def IsMapped (r : Response) : Prop := ∃ e, r = mapError e

/-- `requireJwt`. -/
def OfToken : HttpIo → Prop
  | .jwtVerify .. => True
  | .respond r => r.status = 401 ∨ r.status = 403
  | _ => False

/-- `ensureRegistered`. -/
def OfRegistration (req : HttpRequest) : HttpIo → Prop
  | .ensureApplication id => ∃ raw params, exec objectsPath (req.segments.take objectsPath.length) = some raw ∧
      decodeParams raw = some params ∧ id = param "instanceId" params
  | .respond r => IsMapped r
  | _ => False

/-- The input is for the operation and the object of the route. -/
structure Targets (m : MutationRequest) (input : EnqueueInput) : Prop where
  opType : input.opType = m.opType
  instanceId : input.instanceId = m.instanceId
  objectClass : input.objectClass = m.objectClass
  uid : input.uid = m.uid

/-- `enqueueRoute`. -/
def OfMutation (m : MutationRequest) : HttpIo → Prop
  | .acquire id | .pendingCounts id => id = m.instanceId
  | .schema => m.opType = .create
  | .enqueue input => Targets m input
  | .release => True
  | .respond r => r.status = 202 ∨ IsMapped r
  | _ => False

/-- The two reads, which answer in a way of their own. -/
def OfGet (params : List (String × String)) : HttpIo → Prop
  | .acquire id => id = param "instanceId" params
  | .get objectClass uid => objectClass = param "objectClass" params ∧ uid = param "uid" params
  | .release | .respond _ => True
  | _ => False

def OfSearch (req : HttpRequest) (params : List (String × String)) : HttpIo → Prop
  | .acquire id => id = param "instanceId" params
  | .search objectClass filter => objectClass = param "objectClass" params ∧ filterOf req = .ok filter
  | .release | .respond _ | .finish => True
  | _ => False

def OfStatus (params : List (String × String)) : HttpIo → Prop
  | .getStatus id => id = param "operationId" params
  | .respond _ => True
  | _ => False

def OfProbe : HttpIo → Prop
  | .ping | .respond _ => True
  | _ => False

/-- The handler of a route. -/
def OfHandler (req : HttpRequest) (body : Option Json) (params : List (String × String)) : Handler → HttpIo → Prop
  | .healthz, e | .readyz, e => OfProbe e
  | .enqueueRoute opType _, e => OfMutation (mutationRequest req body opType params) e
  | .getObject, e => OfGet params e
  | .search, e => OfSearch req params e
  | .getOperation, e => OfStatus params e

/-- The pipeline, with the handler that the request is routed to. -/
inductive OfRequest (req : HttpRequest) : HttpIo → Prop
  | mapped {r : Response} (h : IsMapped r) : OfRequest req (.respond r)
  | probe {e : HttpIo} {found : Handler × List (String × List Char)}
      (routed : findRoute req.method req.segments = some found) (isProbe : found.1.isProbe) (h : OfProbe e) :
      OfRequest req e
  | token {e : HttpIo} (h : OfToken e) : OfRequest req e
  | registration {e : HttpIo} (h : OfRegistration req e) : OfRequest req e
  | noRoute (unrouted : handle req.method req.segments = none) : OfRequest req .noRoute
  | options {allow : String} (asked : req.method = .options) : OfRequest req (.options allow)
  | handler {e : HttpIo} {body : Option Json} {handler : Handler} {params : List (String × String)}
      (hbody : req.body = .ok body) (routed : handle req.method req.segments = some (handler, params))
      (h : OfHandler req body params handler e) : OfRequest req e

/-! ## One lemma for each part -/

section Parts

variable {P : HttpIo → Prop}

theorem only_tell {e : HttpIo} (h : P e) : Async.Only P (tell e) := Async.Only.ask h

theorem only_next (h : ∀ e, P (.respond (mapError e))) (e : HttpError) : Async.Only P (next false e) :=
  only_tell (h e)

theorem only_orThrow (x : Except RouteError α) : Async.Only P (orThrow x) := by
  cases x <;> trivial

theorem only_orThrow_bind {β : Type} {x : Except RouteError β} {f : β → HttpProg α}
    (h : ∀ b, x = .ok b → Async.Only P (f b)) : Async.Only P (orThrow x >>= f) := by
  cases x with
  | ok b => exact h b rfl
  | error e => trivial

theorem only_andFinally {x : HttpProg α} {fin : HttpProg Unit} (hx : Async.Only P x) (hfin : Async.Only P fin) :
    Async.Only P (Async.andFinally x fin) := by
  refine Prog.Only.bind hx fun r => Prog.Only.bind hfin fun r' => ?_
  cases r' <;> trivial

theorem only_ifThen {x : HttpProg Bool} {y : HttpProg Unit} (hx : Async.Only P x) (hy : Async.Only P y) :
    Async.Only P (do if ← x then y) := by
  refine Async.Only.bind hx fun b => ?_
  cases b with
  | true => exact hy
  | false => trivial

theorem only_caught (h : ∀ e, P (.respond (mapError e))) {x : HttpProg Unit} (hx : Async.Only P x) :
    Async.Only P (Async.catching x (next false)) :=
  Async.Only.catching hx (only_next h)

theorem only_orRefused (h : ∀ e, P (.respond (mapError e))) {x : HttpProg Unit} (hx : Async.Only P x) :
    Async.Only P (Async.catching (do x; return true) fun e => do next false e; return false) := by
  apply Async.Only.catching
  · exact Async.Only.bind hx fun _ => Async.Only.pure
  · exact fun e => Async.Only.bind (only_next h e) fun _ => Async.Only.pure

theorem refusal_status {config : JwtConfig} {requiredScopes : Option (List String)} {v : VerifiedToken}
    {r : Response} (h : refusal config requiredScopes v = some r) : r.status = 401 ∨ r.status = 403 := by
  unfold refusal at h
  grind [unauthorized, forbidden]

theorem requireJwt_only (config : JwtConfig) (req : HttpRequest) :
    Async.Only OfToken (requireJwt config none req) := by
  have refuse {r : Response} (h : r.status = 401 ∨ r.status = 403) :
      Async.Only OfToken (do tell (.respond r); return false) :=
    Async.Only.bind (only_tell h) fun _ => Async.Only.pure
  unfold requireJwt
  split
  · exact refuse (.inl rfl)
  · refine Async.Only.bind (only_tell trivial) fun (answer : Except JoseError VerifiedToken) => ?_
    cases answer with
    | error e => exact refuse (.inl rfl)
    | ok v =>
      dsimp only
      split
      · rename_i response hrefusal
        exact refuse (refusal_status hrefusal)
      · exact Async.Only.pure

theorem ensureRegistered_only (req : HttpRequest) : Async.Only (OfRegistration req) (ensureRegistered req) := by
  have answers (e : HttpError) : OfRegistration req (.respond (mapError e)) := ⟨e, rfl⟩
  unfold ensureRegistered
  split
  · exact Async.Only.pure
  · rename_i raw hraw
    split
    · exact Async.Only.bind (only_next answers _) fun _ => Async.Only.pure
    · rename_i params hparams
      exact only_orRefused answers (Async.Only.call ⟨raw, params, hraw, hparams, rfl⟩)

theorem nameAttrValueOf_only (m : MutationRequest) (attrs : Option Json) :
    Async.Only (OfMutation m) (nameAttrValueOf m attrs) := by
  unfold nameAttrValueOf
  split
  · rename_i hcreate
    refine Async.Only.bind ?_ fun schema => only_orThrow _
    exact Async.Only.bind (Async.Only.call rfl) fun _ => only_andFinally (only_tell hcreate) (only_tell trivial)
  · exact Async.Only.pure

theorem enqueueRoute_only (m : MutationRequest) : Async.Only (OfMutation m) (enqueueRoute m) := by
  apply only_caught fun e => .inr ⟨e, rfl⟩
  refine Async.Only.bind (only_orThrow _) fun priority => ?_
  refine Async.Only.bind (only_orThrow _) fun attrs => ?_
  refine Async.Only.bind (nameAttrValueOf_only m attrs) fun name => ?_
  refine Async.Only.bind ?_ fun result => only_tell (.inl rfl)
  refine Async.Only.bind (Async.Only.call rfl) fun counts => ?_
  refine only_orThrow_bind fun input hinput => Async.Only.call ?_
  obtain ⟨-, laneKey, -, rfl⟩ := admitAndEnqueue_eq hinput
  exact ⟨rfl, rfl, rfl, rfl⟩

theorem getObject_only (params : List (String × String)) : Async.Only (OfGet params) (getObject params) := by
  apply only_ifThen
  · exact only_orRefused (fun _ => trivial) (Async.Only.call rfl)
  · refine Async.Only.bind (only_caught (fun _ => trivial) ?_) fun _ => only_tell trivial
    refine Async.Only.bind (Async.Only.call ⟨rfl, rfl⟩) fun (object : Option ConnectorObject) => ?_
    cases object <;> exact only_tell trivial

theorem runSearch_only {req : HttpRequest} {params : List (String × String)} {filter : Option Node}
    (h : filterOf req = .ok filter) :
    Async.Only (OfSearch req params) (runSearch (param "objectClass" params) filter) := by
  refine Async.Only.bind (only_tell ⟨rfl, h⟩) fun (ended : SearchEnd) => ?_
  cases ended.result with
  | ok u => exact only_tell trivial
  | error f => cases ended.headersSent <;> exact only_tell trivial

theorem search_only (req : HttpRequest) (params : List (String × String)) :
    Async.Only (OfSearch req params) (search req params) := by
  unfold search
  split
  · exact only_next (fun _ => trivial) _
  · rename_i filter hfilter
    apply only_ifThen
    · exact only_orRefused (fun _ => trivial) (Async.Only.call rfl)
    · exact Async.Only.bind (runSearch_only hfilter) fun _ => only_tell trivial

theorem getOperationRoute_only (params : List (String × String)) :
    Async.Only (OfStatus params) (getOperationRoute params) := by
  apply only_caught fun _ => trivial
  exact Async.Only.bind (Async.Only.call rfl) fun _ => only_tell trivial

theorem readyz_only : Async.Only OfProbe readyz := by
  refine Async.Only.bind (only_tell trivial) fun (answer : Except Failure Unit) => ?_
  cases answer <;> exact only_tell trivial

theorem runHandler_only (req : HttpRequest) (body : Option Json) (params : List (String × String))
    (handler : Handler) : Async.Only (OfHandler req body params handler) (runHandler req body params handler) := by
  cases handler with
  | healthz => exact only_tell trivial
  | readyz => exact readyz_only
  | enqueueRoute opType requiresAttributes => exact enqueueRoute_only _
  | getObject => exact getObject_only params
  | search => exact search_only req params
  | getOperation => exact getOperationRoute_only params

end Parts

/-! ## The application -/

theorem asked_of_optionsReply {router : List Route} {req : HttpRequest} {allow : String}
    (h : optionsReply router req = some allow) : req.method = .options := by
  unfold optionsReply at h
  split at h
  · assumption
  · cases h

theorem unhandled_only {req : HttpRequest} (unrouted : handle req.method req.segments = none) :
    Async.Only (OfRequest req) (unhandled req) := by
  unfold unhandled
  split
  · rename_i allow hallow
    rcases Option.or_eq_some_iff.1 hallow with h | ⟨-, h⟩ <;> exact only_tell (.options (asked_of_optionsReply h))
  · exact only_tell (.noRoute unrouted)

theorem dispatch_only {req : HttpRequest} {body : Option Json} (hbody : req.body = .ok body) :
    Async.Only (OfRequest req) (dispatch req body) := by
  apply only_ifThen
  · exact (ensureRegistered_only req).mono fun _ => .registration
  · split
    · exact only_next (fun e => .mapped ⟨e, rfl⟩) _
    · split
      · rename_i hhandle
        exact unhandled_only hhandle
      · rename_i handler params hhandle
        exact (runHandler_only req body params handler).mono fun _ => .handler hbody hhandle

theorem app_only (config : JwtConfig) (req : HttpRequest) : Async.Only (OfRequest req) (app config req) := by
  unfold app
  split
  · exact only_next (fun e => .mapped ⟨e, rfl⟩) _
  · rename_i body hbody
    split
    · rename_i handler raw hprobe
      obtain ⟨hfound, isProbe⟩ := Option.filter_eq_some_iff.1 hprobe
      refine (runHandler_only req body [] handler).mono fun e h => .probe hfound isProbe ?_
      cases handler <;> simp [Handler.isProbe] at isProbe <;> exact h
    · split
      · rename_i hallow
        exact only_tell (.options (asked_of_optionsReply hallow))
      · exact only_ifThen ((requireJwt_only config req).mono fun _ => .token) (dispatch_only hbody)

end Provisioning.Http
