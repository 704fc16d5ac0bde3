import Provisioning.Http.App

/-!
# What every request keeps to

A monitor watches one request. It allows one answer and one lease, nothing but a ping before the token is verified,
and one `enqueue`, which the answer has to tell of.
-/

namespace Provisioning.Http

open Lib

/-! ## The monitor -/

structure Exchange where
  /-- The answers that are complete. -/
  ended : Nat
  leases : Nat
  verified : Bool
  enqueued : Option (Except Failure EnqueueResult)

def Exchange.start : Exchange := ⟨0, 0, false, none⟩

/-- A 202 tells of an operation that is enqueued, and an error of the enqueue is answered as such. -/
def Fits (enqueued : Option (Except Failure EnqueueResult)) (r : Response) : Prop :=
  match enqueued with
  | none => r.status ≠ 202
  | some (.ok result) => r.status = 202 ∧ r.body.field "operationId" = some (.str result.id)
  | some (.error f) => r = mapError (.failure f)

/-- The token passes every check of the middleware. -/
def Passes (config : JwtConfig) (answer : Except JoseError VerifiedToken) : Bool :=
  match answer with
  | .ok v => (refusal config none v).isNone
  | .error _ => false

def Exchange.next (config : JwtConfig) (m : Exchange) : (e : HttpIo) → e.Answer → Exchange
  | .jwtVerify _ _, answer => { m with verified := Passes config answer }
  | .acquire _, .ok _ => { m with leases := m.leases + 1 }
  | .release, _ => { m with leases := m.leases - 1 }
  | .enqueue _, answer => { m with enqueued := some answer }
  | .respond _, _ | .finish, _ | .noRoute, _ | .options _, _ => { m with ended := m.ended + 1 }
  | .ping, _ | .ensureApplication _, _ | .acquire _, .error _ | .schema, _ | .get .., _ | .search .., _
  | .pendingCounts _, _ | .getStatus _, _ => m

def Exchange.allows (config : JwtConfig) (authorization : Option String) (m : Exchange) : HttpIo → Prop
  | .ping => m.ended = 0
  | .jwtVerify token options =>
    m.ended = 0 ∧ options = config.verifyOptions ∧ parseAuthHeader authorization = some token
  | .ensureApplication _ | .pendingCounts _ | .getStatus _ => m.ended = 0 ∧ m.verified
  | .acquire _ => m.ended = 0 ∧ m.verified ∧ m.leases = 0
  | .schema | .get .. | .search .. => m.ended = 0 ∧ m.verified ∧ m.leases = 1
  | .release => m.leases = 1 ∧ m.verified
  | .enqueue _ => m.ended = 0 ∧ m.verified ∧ m.leases = 0 ∧ m.enqueued = none
  | .respond r => m.ended = 0 ∧ Fits m.enqueued r
  | .finish | .noRoute | .options _ => m.ended = 0 ∧ m.enqueued = none

def exchange (config : JwtConfig) (authorization : Option String) : Monitor HttpEffects Exchange where
  allows := Exchange.allows config authorization
  expects _ _ := True
  next := Exchange.next config

/-- The program keeps to the monitor. -/
abbrev Keeps {α : Type} (config : JwtConfig) (authorization : Option String)
    (post : Exchange → Except HttpError α → Prop) (m : Exchange) (x : HttpProg α) : Prop :=
  Async.Safe (exchange config authorization) post m x

/-- The request is answered and has no lease left. -/
def Answered (m : Exchange) : Prop := m.ended = 1 ∧ m.leases = 0

/-- A handler that has answered, and that throws nothing. -/
def Done (m : Exchange) (r : Except HttpError Unit) : Prop := r = .ok () ∧ Answered m

/-- The request may use the service. -/
structure Going (m : Exchange) : Prop where
  ended : m.ended = 0
  leases : m.leases = 0
  verified : m.verified
  enqueued : m.enqueued = none

section Steps

variable {config : JwtConfig} {authorization : Option String} {m : Exchange} {α β : Type}

/-! ## Answers -/

theorem mapError_status (e : HttpError) : (mapError e).status ≠ 202 := by
  cases e with
  | failure f =>
    cases f with
    | connector code retryable message => cases code <;> simp [mapError, CONNECTOR_ERROR_STATUS]
    | deadlineExpired message => simp [mapError]
    | other message =>
      simp only [mapError]
      split
      · simp
      · split <;> simp
  | _ => simp [mapError]

/-- The answer is complete, and nothing else has changed. -/
def Ends (m m' : Exchange) (r : Except HttpError Unit) : Prop := m' = { m with ended := 1 } ∧ r = .ok ()

theorem safe_respond (open' : m.ended = 0) {r : Response} (fits : Fits m.enqueued r) :
    Keeps config authorization (Ends m) m (tell (.respond r)) := by
  refine Async.Safe.ask ⟨open', fits⟩ fun _ _ => ⟨?_, rfl⟩
  show { m with ended := m.ended + 1 } = _
  rw [open']

theorem safe_finish (open' : m.ended = 0) (none' : m.enqueued = none) :
    Keeps config authorization (Ends m) m (tell .finish) := by
  refine Async.Safe.ask ⟨open', none'⟩ fun _ _ => ⟨?_, rfl⟩
  show { m with ended := m.ended + 1 } = _
  rw [open']

theorem safe_next (open' : m.ended = 0) {e : HttpError}
    (fits : m.enqueued = none ∨ ∃ f, m.enqueued = some (.error f) ∧ e = .failure f) :
    Keeps config authorization (Ends m) m (next false e) := by
  apply safe_respond open'
  rcases fits with hnone | ⟨f, herror, rfl⟩
  · rw [hnone]
    exact mapError_status e
  · rw [herror]
    rfl

theorem Ends.done {m' : Exchange} {r : Except HttpError Unit} (h : Ends m m' r) (leases : m.leases = 0) :
    Done m' r := by
  rw [h.1]
  exact ⟨h.2, rfl, leases⟩

/-! ## Steps that leave no trace -/

/-- Whether it returns or throws, nothing has changed. -/
def Same (m m' : Exchange) (_ : Except HttpError α) : Prop := m' = m

theorem same_pure (a : α) : Keeps config authorization (Same m) m (pure a : HttpProg α) := rfl

theorem same_orThrow (x : Except RouteError α) : Keeps config authorization (Same m) m (orThrow x) := by
  cases x <;> exact rfl

theorem same_bind {x : HttpProg β} {f : β → HttpProg α} (hx : Keeps config authorization (Same m) m x)
    (hf : ∀ b, Keeps config authorization (Same m) m (f b)) : Keeps config authorization (Same m) m (x >>= f) := by
  refine Async.Safe.bind (Same m) hx (fun m' b h => ?_) fun m' e h => h
  rw [h]
  exact hf b

theorem safe_acquire (going : Going m) (instanceId : String) :
    Keeps config authorization
      (fun m' r => (∀ u, r = .ok u → m' = { m with leases := 1 }) ∧ ∀ e, r = .error e → m' = m) m
      (call (.acquire instanceId) id : HttpProg Unit) := by
  refine Async.Safe.call ⟨going.ended, going.verified, going.leases⟩ fun (answer : Except Failure Unit) _ => ?_
  cases answer with
  | ok u =>
    refine ⟨fun _ _ => ?_, nofun⟩
    show { m with leases := m.leases + 1 } = _
    rw [going.leases]
  | error f => exact ⟨nofun, fun _ _ => rfl⟩

theorem same_resolveNameAttribute (going : Going m) (instanceId : String) :
    Keeps config authorization (Same m) m (resolveNameAttribute instanceId) := by
  refine Async.Safe.bind _ (safe_acquire going instanceId) (fun m' u h => ?_) fun m' e h => h.2 e rfl
  rw [h.1 u rfl]
  refine Async.Safe.andFinally (fun m' _ => m' = { m with leases := 1 }) ?_ fun m' r h => ?_
  · exact Async.Safe.ask ⟨going.ended, going.verified, rfl⟩ fun _ _ => rfl
  · have held : m'.leases = 1 ∧ m'.verified := by
      rw [h]
      exact ⟨rfl, going.verified⟩
    refine Async.Safe.ask held fun _ _ => ⟨fun _ _ => ?_, nofun⟩
    show { m' with leases := m'.leases - 1 } = m
    rw [h]
    simp [← going.leases]

theorem same_nameAttrValueOf (going : Going m) (req : MutationRequest) (attrs : Option Json) :
    Keeps config authorization (Same m) m (nameAttrValueOf req attrs) := by
  unfold nameAttrValueOf
  split
  · exact same_bind (same_resolveNameAttribute going _) fun schema => same_orThrow _
  · exact same_pure _

/-! ## Mutations -/

/-- What is known when `admitAndEnqueue` returns or throws. -/
def Enqueued (m m' : Exchange) (r : Except HttpError EnqueueResult) : Prop :=
  (m' = m ∧ ∃ e, r = .error e) ∨
    ∃ answer, m' = { m with enqueued := some answer } ∧ r = answer.mapError .failure

theorem safe_admitAndEnqueue (going : Going m) (op : AdmitInput) (caps : AdmissionCaps) :
    Keeps config authorization (Enqueued m) m (admitAndEnqueue op caps) := by
  refine Async.Safe.bind (Same m) ?_ (fun m' counts h => ?_) fun m' e h => .inl ⟨h, e, rfl⟩
  · exact Async.Safe.call ⟨going.ended, going.verified⟩ fun _ _ => rfl
  obtain rfl := h
  refine Async.Safe.bind (Same m') (same_orThrow _) (fun m'' input h => ?_) fun m'' e h => .inl ⟨h, e, rfl⟩
  obtain rfl := h
  refine Async.Safe.call ⟨going.ended, going.verified, going.leases, going.enqueued⟩ fun answer _ => ?_
  exact .inr ⟨answer, rfl, rfl⟩

/-- Between the `try` and the `catch` of a handler. -/
structure Handled (m : Exchange) (r : Except HttpError Unit) : Prop where
  leases : m.leases = 0
  ok : ∀ u, r = .ok u → m.ended = 1
  error : ∀ e, r = .error e →
    m.ended = 0 ∧ (m.enqueued = none ∨ ∃ f, m.enqueued = some (.error f) ∧ e = .failure f)

theorem Going.thrown (going : Going m) (e : HttpError) : Handled m (.error e) where
  leases := going.leases
  ok := nofun
  error _ _ := ⟨going.ended, .inl going.enqueued⟩

theorem Ends.handled {m' : Exchange} {r : Except HttpError Unit} (h : Ends m m' r) (leases : m.leases = 0) :
    Handled m' r := by
  obtain ⟨rfl, rfl⟩ := h
  exact ⟨leases, fun _ _ => rfl, nofun⟩

theorem safe_caught {x : HttpProg Unit} (hx : Keeps config authorization Handled m x) :
    Keeps config authorization Done m (Async.catching x (next false)) := by
  refine Async.Safe.catching Handled hx (fun m' u h => ⟨rfl, h.ok u rfl, h.leases⟩) fun m' e h => ?_
  obtain ⟨hended, hfits⟩ := h.error e rfl
  exact Async.Safe.mono (safe_next hended hfits) fun m'' r hends => hends.done h.leases

theorem Enqueued.rejected {m' : Exchange} {e : HttpError} (going : Going m) (h : Enqueued m m' (.error e)) :
    Handled m' (.error e) := by
  rcases h with ⟨rfl, -⟩ | ⟨answer, rfl, hanswer⟩
  · exact going.thrown e
  · cases answer with
    | ok result => cases hanswer
    | error f =>
      obtain rfl := Except.error.inj hanswer
      refine ⟨going.leases, nofun, fun e he => ⟨going.ended, .inr ⟨f, rfl, ?_⟩⟩⟩
      exact (Except.error.inj he).symm

theorem safe_respondAccepted (going : Going m) {m' : Exchange} {result : EnqueueResult}
    (h : Enqueued m m' (.ok result)) (idempotencyKey : String) :
    Keeps config authorization Handled m' (respondAccepted result idempotencyKey) := by
  rcases h with ⟨-, e, he⟩ | ⟨answer, rfl, hanswer⟩
  · cases he
  · cases answer with
    | error f => cases hanswer
    | ok result' =>
      obtain rfl := Except.ok.inj hanswer
      have fits : Fits (some (.ok result)) ⟨202, .obj [("operationId", .str result.id), ("status", .str "PENDING"),
          ("idempotencyKey", .str idempotencyKey)]⟩ := ⟨rfl, rfl⟩
      have responded := @safe_respond config authorization { m with enqueued := some (.ok result) } going.ended _ fits
      exact Async.Safe.mono responded fun m'' r hends => hends.handled going.leases

theorem safe_enqueueRoute (going : Going m) (req : MutationRequest) :
    Keeps config authorization Done m (enqueueRoute req) := by
  apply safe_caught
  refine Async.Safe.bind (Same m) (same_orThrow _) (fun m' priority h => ?_) fun m' e h => h ▸ going.thrown e
  obtain rfl := h
  refine Async.Safe.bind (Same m') (same_orThrow _) (fun m'' attrs h => ?_) fun m'' e h => h ▸ going.thrown e
  obtain rfl := h
  refine Async.Safe.bind (Same m'') (same_nameAttrValueOf going _ _) (fun m' name h => ?_) fun m' e h =>
    h ▸ going.thrown e
  obtain rfl := h
  refine Async.Safe.bind (Enqueued m') (safe_admitAndEnqueue going _ _) (fun m'' result h => ?_) fun m'' e h => ?_
  · exact safe_respondAccepted going h _
  · exact h.rejected going

/-! ## Reads -/

/-- The request is answered and does not go on. -/
def Refused (m : Exchange) (r : Except HttpError Bool) : Prop := r = .ok false ∧ Answered m

/-- The request goes on in `m`, or it is answered. -/
def GoesOn (m m' : Exchange) (r : Except HttpError Bool) : Prop := (r = .ok true ∧ m' = m) ∨ Refused m' r

theorem safe_answered (leases : m.leases = 0) {x : HttpProg Unit} (hx : Keeps config authorization (Ends m) m x) :
    Keeps config authorization Refused m (do x; return false) := by
  refine Async.Safe.bind (Ends m) hx (fun m' u h => ⟨rfl, (h.done leases).2⟩) fun m' e h => ?_
  cases h.2

theorem safe_refused (going : Going m) (e : HttpError) :
    Keeps config authorization Refused m (do next false e; return false) :=
  safe_answered going.leases (safe_next going.ended (.inl going.enqueued))

theorem safe_orRefused (going : Going m) {m₁ : Exchange} {x : HttpProg Unit}
    (hx : Keeps config authorization
      (fun m' r => (∀ u, r = .ok u → m' = m₁) ∧ ∀ e, r = .error e → m' = m) m x) :
    Keeps config authorization (GoesOn m₁) m
      (Async.catching (do x; return true) fun e => do next false e; return false) := by
  refine Async.Safe.catching
    (fun m' r => (r = .ok true ∧ m' = m₁) ∨ (∃ e, r = .error e) ∧ m' = m) ?_ ?_ ?_
  · refine Async.Safe.bind _ hx (fun m' u h => .inl ⟨rfl, h.1 u rfl⟩) fun m' e h => ?_
    exact .inr ⟨⟨e, rfl⟩, h.2 e rfl⟩
  · rintro m' b (h | ⟨⟨e, he⟩, -⟩)
    · exact .inl h
    · cases he
  · rintro m' e (⟨he, -⟩ | ⟨-, rfl⟩)
    · cases he
    · exact Async.Safe.mono (safe_refused going e) fun m'' r h => .inr h

theorem safe_ifGoesOn {m₁ : Exchange} {x : HttpProg Bool} {y : HttpProg Unit}
    (hx : Keeps config authorization (GoesOn m₁) m x) (hy : Keeps config authorization Done m₁ y) :
    Keeps config authorization Done m (do if ← x then y) := by
  refine Async.Safe.bind (GoesOn m₁) hx ?_ ?_
  · rintro m' b (⟨hb, rfl⟩ | ⟨hb, answered⟩)
    · obtain rfl := Except.ok.inj hb
      exact hy
    · obtain rfl := Except.ok.inj hb
      exact ⟨rfl, answered⟩
  · rintro m' e (⟨he, -⟩ | ⟨he, -⟩) <;> cases he

/-- The request holds the lease of a read. -/
structure Reading (m : Exchange) : Prop where
  ended : m.ended = 0
  leases : m.leases = 1
  verified : m.verified
  enqueued : m.enqueued = none

theorem Going.reading (going : Going m) : Reading { m with leases := 1 } :=
  ⟨going.ended, rfl, going.verified, going.enqueued⟩

theorem safe_underLease (going : Going m) (instanceId : String) {x : HttpProg Unit}
    (hx : ∀ m₁, Reading m₁ → Keeps config authorization (Ends m₁) m₁ x) :
    Keeps config authorization Done m (do
      if ← acquireForRead instanceId then
        x
        tell .release) := by
  refine safe_ifGoesOn (safe_orRefused going (safe_acquire going instanceId)) ?_
  refine Async.Safe.bind (Ends { m with leases := 1 }) (hx _ going.reading) (fun m' u h => ?_) fun m' e h => ?_
  · obtain ⟨rfl, -⟩ := h
    exact Async.Safe.ask ⟨rfl, going.verified⟩ fun _ _ => ⟨rfl, rfl, rfl⟩
  · cases h.2

theorem safe_respond_plain (open' : m.ended = 0) (none' : m.enqueued = none) {r : Response} (plain : r.status ≠ 202) :
    Keeps config authorization (Ends m) m (tell (.respond r)) := by
  apply safe_respond open'
  rw [none']
  exact plain

theorem safe_answer {x : HttpProg α} {f : α → HttpProg Unit} (open' : m.ended = 0) (none' : m.enqueued = none)
    (hx : Keeps config authorization (Same m) m x) (hf : ∀ a, Keeps config authorization (Ends m) m (f a)) :
    Keeps config authorization (Ends m) m (Async.catching (x >>= f) (next false)) := by
  refine Async.Safe.catching (fun m' r => Ends m m' r ∨ m' = m ∧ ∃ e, r = .error e) ?_ ?_ ?_
  · refine Async.Safe.bind (Same m) hx (fun m' a h => ?_) fun m' e h => .inr ⟨h, e, rfl⟩
    obtain rfl := h
    exact Async.Safe.mono (hf a) fun _ _ => .inl
  · rintro m' u (h | ⟨-, e, he⟩)
    · exact h
    · cases he
  · rintro m' e (h | ⟨rfl, -⟩)
    · cases h.2
    · exact safe_next open' (.inl none')

theorem safe_getObject (going : Going m) (params : List (String × String)) :
    Keeps config authorization Done m (getObject params) := by
  apply safe_underLease going
  intro m₁ reading
  refine safe_answer reading.ended reading.enqueued ?_ fun (object : Option ConnectorObject) => ?_
  · exact Async.Safe.call ⟨reading.ended, reading.verified, reading.leases⟩ fun _ _ => rfl
  · cases object <;> exact safe_respond_plain reading.ended reading.enqueued (by simp)

theorem safe_runSearch {m₁ : Exchange} (reading : Reading m₁) (objectClass : String) (filter : Option Node) :
    Keeps config authorization (Ends m₁) m₁ (runSearch objectClass filter) := by
  refine Async.Safe.bind (fun m' r => m' = m₁ ∧ ∃ ended, r = .ok ended) ?_ (fun m' (ended : SearchEnd) h => ?_) ?_
  · exact Async.Safe.ask ⟨reading.ended, reading.verified, reading.leases⟩ fun ended _ => ⟨rfl, ended, rfl⟩
  · obtain ⟨rfl, -⟩ := h
    cases ended.result with
    | ok u => exact safe_finish reading.ended reading.enqueued
    | error f =>
      cases ended.headersSent with
      | true => exact safe_finish reading.ended reading.enqueued
      | false => exact safe_next reading.ended (.inl reading.enqueued)
  · rintro m' e ⟨-, ended, he⟩
    cases he

theorem safe_search (going : Going m) (req : HttpRequest) (params : List (String × String)) :
    Keeps config authorization Done m (search req params) := by
  unfold search
  split
  · exact Async.Safe.mono (safe_next going.ended (.inl going.enqueued)) fun _ _ h => h.done going.leases
  · exact safe_underLease going _ fun m₁ reading => safe_runSearch reading _ _

theorem getOperation_status (row : Option OperationStatusRow) : (getOperation row).status ≠ 202 := by
  cases row <;> simp [getOperation]

theorem safe_getOperationRoute (going : Going m) (params : List (String × String)) :
    Keeps config authorization Done m (getOperationRoute params) := by
  refine Async.Safe.mono (safe_answer going.ended going.enqueued ?_ fun row => ?_) fun _ _ h => h.done going.leases
  · exact Async.Safe.call ⟨going.ended, going.verified⟩ fun _ _ => rfl
  · exact safe_respond_plain going.ended going.enqueued (getOperation_status row)

/-! ## Probes -/

theorem safe_probe {handler : Handler} (probe : handler.isProbe) (req : HttpRequest) (body : Option Json) :
    Keeps config authorization Done .start (runHandler req body [] handler) := by
  cases handler with
  | healthz =>
    refine Async.Safe.mono (safe_respond_plain rfl rfl ?_) fun _ _ h => h.done rfl
    simp
  | readyz =>
    refine Async.Safe.bind (fun m' r => m' = .start ∧ ∃ answer, r = .ok answer) ?_ ?_ ?_
    · exact Async.Safe.ask rfl fun answer _ => ⟨rfl, answer, rfl⟩
    · rintro m' (answer : Except Failure Unit) ⟨rfl, -⟩
      cases answer <;> exact Async.Safe.mono (safe_respond_plain rfl rfl (by simp)) fun _ _ h => h.done rfl
    · rintro m' e ⟨-, answer, he⟩
      cases he
  | _ => simp [Handler.isProbe] at probe

/-! ## The application -/

theorem safe_ensureRegistered (going : Going m) (req : HttpRequest) :
    Keeps config authorization (GoesOn m) m (ensureRegistered req) := by
  unfold ensureRegistered
  split
  · exact .inl ⟨rfl, rfl⟩
  · split
    · exact Async.Safe.mono (safe_refused going _) fun _ _ => .inr
    · apply safe_orRefused going
      refine Async.Safe.call ⟨going.ended, going.verified⟩ fun (answer : Except HttpError Unit) _ => ?_
      exact ⟨fun _ _ => rfl, fun _ _ => rfl⟩

theorem safe_runHandler (going : Going m) (req : HttpRequest) (body : Option Json) (params : List (String × String))
    {handler : Handler} (served : ¬ handler.isProbe) :
    Keeps config authorization Done m (runHandler req body params handler) := by
  cases handler with
  | healthz | readyz => simp [Handler.isProbe] at served
  | enqueueRoute opType requiresAttributes => exact safe_enqueueRoute going _
  | getObject => exact safe_getObject going params
  | search => exact safe_search going req params
  | getOperation => exact safe_getOperationRoute going params

/-- The request is not for a probe. -/
def NoProbe (req : HttpRequest) : Prop :=
  (findRoute req.method req.segments).filter (fun found => found.1.isProbe) = none

theorem NoProbe.handle {req : HttpRequest} (noProbe : NoProbe req) {handler : Handler}
    {params : List (String × String)} (h : Http.handle req.method req.segments = some (handler, params)) :
    ¬ handler.isProbe := by
  obtain ⟨found, hfound, h⟩ := Option.bind_eq_some_iff.1 h
  obtain ⟨params', -, h⟩ := Option.map_eq_some_iff.1 h
  obtain ⟨rfl, -⟩ := Prod.mk.inj h
  exact Option.filter_eq_none_iff.1 noProbe found hfound

theorem safe_builtin (open' : m.ended = 0) (leases : m.leases = 0) (none' : m.enqueued = none) (allow : String) :
    Keeps config authorization Done m (tell (.options allow)) := by
  refine Async.Safe.ask ⟨open', none'⟩ fun _ _ => ⟨rfl, ?_, leases⟩
  show m.ended + 1 = 1
  rw [open']

theorem safe_unhandled (going : Going m) (req : HttpRequest) : Keeps config authorization Done m (unhandled req) := by
  unfold unhandled
  split
  · exact safe_builtin going.ended going.leases going.enqueued _
  · refine Async.Safe.ask ⟨going.ended, going.enqueued⟩ fun _ _ => ⟨rfl, ?_, going.leases⟩
    show m.ended + 1 = 1
    rw [going.ended]

theorem safe_dispatch (going : Going m) {req : HttpRequest} (noProbe : NoProbe req) (body : Option Json) :
    Keeps config authorization Done m (dispatch req body) := by
  apply safe_ifGoesOn (safe_ensureRegistered going req)
  split
  · exact Async.Safe.mono (safe_next going.ended (.inl going.enqueued)) fun _ _ h => h.done going.leases
  · split
    · exact safe_unhandled going req
    · rename_i handler params hhandle
      exact safe_runHandler going req body params (noProbe.handle hhandle)

theorem safe_requireJwt (req : HttpRequest) :
    Keeps config req.authorization (GoesOn { Exchange.start with verified := true }) .start
      (requireJwt config none req) := by
  have refuse {m : Exchange} (h : m.ended = 0 ∧ m.leases = 0 ∧ m.enqueued = none) {r : Response}
      (plain : r.status ≠ 202) : Keeps config req.authorization (GoesOn { Exchange.start with verified := true }) m
        (do tell (.respond r); return false) :=
    Async.Safe.mono (safe_answered h.2.1 (safe_respond_plain h.1 h.2.2 plain)) fun _ _ => .inr
  unfold requireJwt
  split
  · exact refuse ⟨rfl, rfl, rfl⟩ (by simp [unauthorized])
  · rename_i token htoken
    refine Async.Safe.bind (fun m' r => ∃ answer, r = .ok answer ∧
      m' = { Exchange.start with verified := Passes config answer }) ?_ ?_ ?_
    · exact Async.Safe.ask ⟨rfl, rfl, htoken⟩ fun answer _ => ⟨answer, rfl, rfl⟩
    · rintro m' (answer : Except JoseError VerifiedToken) ⟨answer', he, rfl⟩
      obtain rfl := Except.ok.inj he
      cases answer with
      | error e => exact refuse ⟨rfl, rfl, rfl⟩ (by simp [unauthorized])
      | ok v =>
        dsimp only
        split
        · rename_i response hrefusal
          refine refuse ⟨rfl, rfl, rfl⟩ ?_
          unfold refusal at hrefusal
          grind [unauthorized, forbidden]
        · rename_i hrefusal
          refine .inl ⟨rfl, ?_⟩
          simp [Passes, hrefusal]
    · rintro m' e ⟨answer, he, -⟩
      cases he

/-- Every request keeps to the monitor and ends answered. -/
theorem safe_app (config : JwtConfig) (req : HttpRequest) :
    Keeps config req.authorization Done .start (app config req) := by
  unfold app
  split
  · exact Async.Safe.mono (safe_next rfl (.inl rfl)) fun _ _ h => h.done rfl
  · split
    · rename_i handler raw hprobe
      obtain ⟨-, hprobe⟩ := Option.filter_eq_some_iff.1 hprobe
      exact safe_probe hprobe req _
    · rename_i hnone
      split
      · exact safe_builtin rfl rfl rfl _
      · exact safe_ifGoesOn (safe_requireJwt req) (safe_dispatch ⟨rfl, rfl, rfl, rfl⟩ hnone _)

end Steps

/-! ## What was heard -/

abbrev HttpHeard : Type := List ((e : HttpIo) × e.Answer)

/-- The effect completes an answer to the request. -/
def HttpIo.completes : HttpIo → Bool
  | .respond _ | .finish | .noRoute | .options _ => true
  | _ => false

/-- The effect completes the answer without a response of its own. -/
def HttpIo.silent : HttpIo → Bool
  | .finish | .noRoute | .options _ => true
  | _ => false

def HttpIo.response : HttpIo → Option Response
  | .respond r => some r
  | _ => none

/-- A lease is taken. -/
def HttpIo.leases : (e : HttpIo) → e.Answer → Bool
  | .acquire _, .ok _ => true
  | _, _ => false

def HttpIo.releases : HttpIo → Bool
  | .release => true
  | _ => false

/-- What the store answers to an `enqueue`. -/
def HttpIo.enqueueAnswer : (e : HttpIo) → e.Answer → Option (Except Failure EnqueueResult)
  | .enqueue _, answer => some answer
  | _, _ => none

def completions (heard : HttpHeard) : Nat := heard.countP fun x => HttpIo.completes x.1

def leasesTaken (heard : HttpHeard) : Nat := heard.countP fun x => HttpIo.leases x.1 x.2

def leasesReturned (heard : HttpHeard) : Nat := heard.countP fun x => HttpIo.releases x.1

def enqueueAnswers (heard : HttpHeard) : List (Except Failure EnqueueResult) :=
  heard.filterMap fun x => HttpIo.enqueueAnswer x.1 x.2

def responses (heard : HttpHeard) : List Response := heard.filterMap fun x => HttpIo.response x.1

/-- The token of the request was verified, and passed every check. -/
def VerifiedIn (config : JwtConfig) (authorization : Option String) (heard : HttpHeard) : Prop :=
  ∃ token v, parseAuthHeader authorization = some token ∧ refusal config none v = none ∧
    (⟨HttpIo.jwtVerify token config.verifyOptions, (Except.ok v : Except JoseError VerifiedToken)⟩ :
      (e : HttpIo) × e.Answer) ∈ heard

theorem length_responses {heard : HttpHeard} (h : ∀ x ∈ heard, HttpIo.silent x.1 = false) :
    (responses heard).length = completions heard := by
  induction heard with
  | nil => rfl
  | cons x rest ih =>
    have hrest := ih fun y hy => h y (List.mem_cons_of_mem _ hy)
    obtain ⟨e, a⟩ := x
    have hx := h ⟨e, a⟩ List.mem_cons_self
    unfold responses completions at hrest ⊢
    cases e <;> simp_all [HttpIo.response, HttpIo.completes, HttpIo.silent]

structure Recorded (config : JwtConfig) (authorization : Option String) (heard : HttpHeard) (m : Exchange) : Prop where
  ended : completions heard = m.ended
  leases : leasesTaken heard = leasesReturned heard + m.leases
  verified : m.verified → VerifiedIn config authorization heard
  enqueued : enqueueAnswers heard = m.enqueued.toList
  responses : ∀ r ∈ responses heard, 0 < m.ended ∧ Fits m.enqueued r
  silent : ∀ x ∈ heard, HttpIo.silent x.1 → 0 < m.ended ∧ m.enqueued = none

section History

variable {config : JwtConfig} {authorization : Option String} {m : Exchange} {heard : HttpHeard}

theorem completions_snoc (heard : HttpHeard) (e : HttpIo) (a : e.Answer) :
    completions (heard ++ [⟨e, a⟩]) = completions heard + if e.completes then 1 else 0 := by
  simp [completions, List.countP_append, List.countP_singleton]

theorem leasesTaken_snoc (heard : HttpHeard) (e : HttpIo) (a : e.Answer) :
    leasesTaken (heard ++ [⟨e, a⟩]) = leasesTaken heard + if e.leases a then 1 else 0 := by
  simp [leasesTaken, List.countP_append, List.countP_singleton]

theorem leasesReturned_snoc (heard : HttpHeard) (e : HttpIo) (a : e.Answer) :
    leasesReturned (heard ++ [⟨e, a⟩]) = leasesReturned heard + if e.releases then 1 else 0 := by
  simp [leasesReturned, List.countP_append, List.countP_singleton]

theorem enqueueAnswers_snoc (heard : HttpHeard) (e : HttpIo) (a : e.Answer) :
    enqueueAnswers (heard ++ [⟨e, a⟩]) = enqueueAnswers heard ++ (e.enqueueAnswer a).toList := by
  simp only [enqueueAnswers, List.filterMap_append]
  cases h : e.enqueueAnswer a <;> simp [h]

theorem responses_snoc (heard : HttpHeard) (e : HttpIo) (a : e.Answer) :
    responses (heard ++ [⟨e, a⟩]) = responses heard ++ e.response.toList := by
  simp only [responses, List.filterMap_append]
  cases h : e.response <;> simp [h]

theorem VerifiedIn.snoc (h : VerifiedIn config authorization heard) (x : (e : HttpIo) × e.Answer) :
    VerifiedIn config authorization (heard ++ [x]) := by
  obtain ⟨token, v, htoken, hpasses, hmem⟩ := h
  exact ⟨token, v, htoken, hpasses, List.mem_append_left _ hmem⟩

theorem Recorded.silent_snoc (inv : Recorded config authorization heard m) {e : HttpIo} {a : e.Answer}
    (hsilent : e.silent = false) :
    ∀ x ∈ heard ++ [⟨e, a⟩], HttpIo.silent x.1 → 0 < m.ended ∧ m.enqueued = none := by
  intro x hx hsx
  rcases List.mem_append.1 hx with hx | hx
  · exact inv.silent x hx hsx
  · cases List.mem_singleton.1 hx
    rw [hsilent] at hsx
    cases hsx

theorem Recorded.quiet (inv : Recorded config authorization heard m) {e : HttpIo} {a : e.Answer}
    (hcompletes : e.completes = false) (hleases : e.leases a = false) (hreleases : e.releases = false)
    (henqueue : e.enqueueAnswer a = none) (hresponse : e.response = none) (hsilent : e.silent = false) :
    Recorded config authorization (heard ++ [⟨e, a⟩]) m where
  ended := by
    rw [completions_snoc, hcompletes]
    exact inv.ended
  leases := by
    rw [leasesTaken_snoc, leasesReturned_snoc, hleases, hreleases]
    exact inv.leases
  verified h := (inv.verified h).snoc _
  enqueued := by
    rw [enqueueAnswers_snoc, henqueue, Option.toList_none, List.append_nil]
    exact inv.enqueued
  responses := by
    rw [responses_snoc, hresponse, Option.toList_none, List.append_nil]
    exact inv.responses
  silent := inv.silent_snoc hsilent

theorem Recorded.completed (inv : Recorded config authorization heard m) {e : HttpIo} {a : e.Answer}
    (hcompletes : e.completes = true) (hleases : e.leases a = false) (hreleases : e.releases = false)
    (henqueue : e.enqueueAnswer a = none) (hfits : ∀ r, e.response = some r → Fits m.enqueued r)
    (hsilent : e.silent → m.enqueued = none) :
    Recorded config authorization (heard ++ [⟨e, a⟩]) { m with ended := m.ended + 1 } where
  ended := by
    rw [completions_snoc, hcompletes, inv.ended]
    rfl
  leases := by
    rw [leasesTaken_snoc, leasesReturned_snoc, hleases, hreleases]
    exact inv.leases
  verified h := (inv.verified h).snoc _
  enqueued := by
    rw [enqueueAnswers_snoc, henqueue, Option.toList_none, List.append_nil]
    exact inv.enqueued
  responses r hr := by
    refine ⟨Nat.succ_pos _, ?_⟩
    rw [responses_snoc] at hr
    rcases List.mem_append.1 hr with hr | hr
    · exact (inv.responses r hr).2
    · exact hfits r (Option.mem_toList.1 hr)
  silent x hx hsx := by
    refine ⟨Nat.succ_pos _, ?_⟩
    rcases List.mem_append.1 hx with hx | hx
    · exact (inv.silent x hx hsx).2
    · cases List.mem_singleton.1 hx
      exact hsilent hsx

theorem Recorded.leased (inv : Recorded config authorization heard m) {instanceId : String}
    {a : (HttpIo.acquire instanceId).Answer} (taken : (HttpIo.acquire instanceId).leases a = true) :
    Recorded config authorization (heard ++ [⟨.acquire instanceId, a⟩]) { m with leases := m.leases + 1 } where
  ended := by
    rw [completions_snoc]
    exact inv.ended
  leases := by
    rw [leasesTaken_snoc, leasesReturned_snoc, inv.leases, taken]
    simp [HttpIo.releases, Nat.add_assoc]
  verified h := (inv.verified h).snoc _
  enqueued := by
    rw [enqueueAnswers_snoc]
    simpa [HttpIo.enqueueAnswer] using inv.enqueued
  responses := by
    rw [responses_snoc]
    simpa [HttpIo.response] using inv.responses
  silent := inv.silent_snoc rfl

theorem Recorded.snoc (inv : Recorded config authorization heard m) (e : HttpIo) (a : e.Answer)
    (allowed : m.allows config authorization e) :
    Recorded config authorization (heard ++ [⟨e, a⟩]) (m.next config e a) := by
  cases e with
  | ping | ensureApplication | schema | get | search | pendingCounts | getStatus =>
    exact inv.quiet rfl rfl rfl rfl rfl rfl
  | finish | noRoute | options => exact inv.completed rfl rfl rfl rfl nofun fun _ => allowed.2
  | respond r =>
    refine inv.completed rfl rfl rfl rfl (fun r' hr' => ?_) nofun
    obtain rfl := Option.some.inj hr'
    exact allowed.2
  | jwtVerify token options =>
    obtain ⟨-, rfl, htoken⟩ := allowed
    have quiet := @Recorded.quiet _ _ _ _ inv (.jwtVerify token config.verifyOptions) a rfl rfl rfl rfl rfl rfl
    refine ⟨quiet.ended, quiet.leases, fun h => ?_, quiet.enqueued, quiet.responses, quiet.silent⟩
    cases (a : Except JoseError VerifiedToken) with
    | error e => cases h
    | ok v => exact ⟨token, v, htoken, Option.isNone_iff_eq_none.1 h, List.mem_append_right _ List.mem_cons_self⟩
  | acquire instanceId =>
    cases (a : Except Failure Unit) with
    | error f => exact inv.quiet rfl rfl rfl rfl rfl rfl
    | ok u => exact inv.leased rfl
  | release =>
    have held : m.leases = 1 := allowed.1
    refine ⟨?_, ?_, fun h => (inv.verified h).snoc _, ?_, ?_, inv.silent_snoc rfl⟩
    · rw [completions_snoc]
      exact inv.ended
    · rw [leasesTaken_snoc, leasesReturned_snoc, inv.leases, held]
      simp [HttpIo.leases, HttpIo.releases, Exchange.next, held]
    · rw [enqueueAnswers_snoc]
      simpa [HttpIo.enqueueAnswer, Exchange.next] using inv.enqueued
    · rw [responses_snoc]
      simpa [HttpIo.response, Exchange.next] using inv.responses
  | enqueue op =>
    obtain ⟨hended, -, -, hnone⟩ := allowed
    refine ⟨?_, ?_, fun h => (inv.verified h).snoc _, ?_, fun r hr => ?_, fun x hx hsilent => ?_⟩
    · rw [completions_snoc]
      exact inv.ended
    · rw [leasesTaken_snoc, leasesReturned_snoc]
      exact inv.leases
    · rw [enqueueAnswers_snoc, inv.enqueued, hnone]
      rfl
    · rw [responses_snoc] at hr
      have hold : r ∈ Http.responses heard := by simpa [HttpIo.response] using hr
      have positive := (inv.responses r hold).1
      rw [hended] at positive
      cases positive
    · have positive := (inv.silent_snoc rfl x hx hsilent).1
      rw [hended] at positive
      cases positive

theorem recorded_start : Recorded config authorization [] .start := by
  constructor <;> simp [completions, leasesTaken, leasesReturned, enqueueAnswers, responses, Exchange.start]

theorem recorded_app {req : HttpRequest} {q : Prog HttpEffects (Except HttpError Unit)}
    (h : (app config req).run.Reaches heard q) :
    Recorded config req.authorization heard ((exchange config req.authorization).recall .start heard) :=
  Prog.Safe.history (Recorded config req.authorization)
    (fun _ _ e a inv allowed _ => inv.snoc e a allowed) recorded_start (safe_app config req) h fun _ _ => trivial

end History

/-! ## A request and a quiet service -/

def plainJwtConfig : JwtConfig where
  jwksUri := "https://am.example.org/jwks"
  expectedIssuer := "https://am.example.org/oauth2"
  expectedAudience := "iga"
  allowedAlgorithms := ["RS256", "PS256", "ES256"]
  clockSkewSeconds := .finite 60
  maxTokenAgeSeconds := .finite 86400
  requiredScope := none

/-- `DELETE /instances/hr/objects/User/42`. -/
def deleteRequest : HttpRequest where
  method := .delete
  segments := ["instances".toList, "hr".toList, "objects".toList, "User".toList, "42".toList]
  authorization := some "Bearer abcdefghijklmnopqrstuvwxyz"
  idempotencyKey := some "k"
  body := .ok none
  filter := none
  randomUUID := "00000000-0000-4000-8000-000000000000"

/-- A service that does what it is asked for. -/
def quietService : (e : HttpIo) → e.Answer
  | .ping => (.ok () : Except Failure Unit)
  | .jwtVerify .. =>
    (.ok ⟨.obj [("sub", .str "caller"), ("exp", .num "1")], some "key", "RS256"⟩ : Except JoseError VerifiedToken)
  | .ensureApplication _ => (.ok () : Except HttpError Unit)
  | .acquire _ => (.ok () : Except Failure Unit)
  | .schema => (.ok ⟨[]⟩ : Except Failure ConnectorSchema)
  | .get .. => (.ok none : Except Failure (Option ConnectorObject))
  | .search .. => (⟨false, .ok ()⟩ : SearchEnd)
  | .pendingCounts _ => (.ok ⟨0, 0⟩ : Except Failure PendingCounts)
  | .enqueue _ => (.ok ⟨Uuid.text 7, false⟩ : Except Failure EnqueueResult)
  | .getStatus _ => (.ok none : Except Failure (Option OperationStatusRow))
  | .release | .respond _ | .finish | .noRoute | .options _ => ()

def deleteHeard : HttpHeard := (app plainJwtConfig deleteRequest).run.transcript quietService

theorem deleteHeard_reached :
    (app plainJwtConfig deleteRequest).run.Reaches deleteHeard
      (.pure ((app plainJwtConfig deleteRequest).run.result quietService)) :=
  Prog.reaches_transcript _ _

/-! ## The results -/

section Results

variable {config : JwtConfig} {req : HttpRequest} {heard : HttpHeard}

theorem request_over {r : Except HttpError Unit} (h : (app config req).run.Reaches heard (.pure r)) :
    Done ((exchange config req.authorization).recall .start heard) r :=
  (safe_app config req).reaches h fun _ _ => trivial

/-- **Every request is answered once**, whatever the store, the connector and the registrar do, it throws nothing,
and it gives back the leases that it takes. -/
theorem request_answered_once {r : Except HttpError Unit} (h : (app config req).run.Reaches heard (.pure r)) :
    r = .ok () ∧ completions heard = 1 ∧ leasesTaken heard = leasesReturned heard := by
  have recorded := recorded_app h
  obtain ⟨hr, hended, hleases⟩ := request_over h
  refine ⟨hr, ?_, ?_⟩
  · rw [recorded.ended, hended]
  · rw [recorded.leases, hleases, Nat.add_zero]

theorem request_answered_once_delete :
    deleteHeard.length = 5 ∧ completions deleteHeard = 1 ∧ leasesTaken deleteHeard = leasesReturned deleteHeard :=
  ⟨by decide +kernel, (request_answered_once deleteHeard_reached).2⟩

/-- **An answer tells whether an operation is enqueued.** A 202 names the operation that the store has enqueued, an
error of the store is answered as one, and any other answer comes from a request that enqueued nothing. A request
enqueues once at most, and one that is over has told of it. -/
theorem answer_tells_enqueue {q : Prog HttpEffects (Except HttpError Unit)} (h : (app config req).run.Reaches heard q) :
    (enqueueAnswers heard).length ≤ 1 ∧
    (∀ response ∈ responses heard,
      (enqueueAnswers heard = [] ∧ response.status ≠ 202) ∨
      (∃ result, enqueueAnswers heard = [.ok result] ∧ response.status = 202 ∧
        response.body.field "operationId" = some (.str result.id)) ∨
      ∃ f, enqueueAnswers heard = [.error f] ∧ response = mapError (.failure f)) ∧
    (∀ x ∈ heard, HttpIo.silent x.1 → enqueueAnswers heard = []) ∧
    ∀ r, q = .pure r → enqueueAnswers heard ≠ [] → ∃ response, responses heard = [response] := by
  have recorded := recorded_app h
  have enqueued := recorded.enqueued
  have quiet : ∀ x ∈ heard, HttpIo.silent x.1 → enqueueAnswers heard = [] := by
    intro x hx hsilent
    rw [enqueued, (recorded.silent x hx hsilent).2]
    rfl
  refine ⟨?_, fun response hresponse => ?_, quiet, fun r hr hsome => ?_⟩
  · rw [enqueued]
    exact Option.length_toList_le
  · have fits := (recorded.responses response hresponse).2
    cases hstate : ((exchange config req.authorization).recall .start heard).enqueued with
    | none =>
      rw [hstate] at fits enqueued
      exact .inl ⟨enqueued, fits⟩
    | some answer =>
      rw [hstate] at fits enqueued
      cases answer with
      | ok result => exact .inr (.inl ⟨result, enqueued, fits⟩)
      | error f => exact .inr (.inr ⟨f, enqueued, fits⟩)
  · subst hr
    -- The one completion of the request is a response, for a silent one comes from a request that enqueued nothing.
    have once : completions heard = 1 := recorded.ended.trans (request_over h).2.1
    refine List.length_eq_one_iff.1 (Eq.trans (length_responses fun x hx => ?_) once)
    by_contra hsilent
    exact hsome (quiet x hx (by simpa using hsilent))

theorem answer_tells_enqueue_delete :
    ∃ response, responses deleteHeard = [response] ∧ response.status = 202 ∧
      response.body.field "operationId" = some (.str (Uuid.text 7)) := by
  have hanswers : (enqueueAnswers deleteHeard).map (fun answer => answer.toOption.map (·.id)) =
      [some (Uuid.text 7)] := by
    decide +kernel
  obtain ⟨-, tells, -, told⟩ := answer_tells_enqueue deleteHeard_reached
  obtain ⟨response, hresponse⟩ := told _ rfl fun hnone => by
    rw [hnone] at hanswers
    cases hanswers
  refine ⟨response, hresponse, ?_⟩
  rcases tells response (hresponse ▸ List.mem_singleton_self response) with
    ⟨hnone, -⟩ | ⟨result, henqueue, hstatus, hfield⟩ | ⟨f, henqueue, -⟩
  · rw [hnone] at hanswers
    cases hanswers
  · rw [henqueue] at hanswers
    refine ⟨hstatus, ?_⟩
    rw [hfield]
    simpa [Except.toOption] using hanswers
  · rw [henqueue] at hanswers
    simp [Except.toOption] at hanswers

/-- An effect that needs no token. -/
def HttpIo.isOpen : HttpIo → Bool
  | .ping | .jwtVerify .. | .respond _ | .finish | .noRoute | .options _ => true
  | _ => false

theorem verified_of_allows {m : Exchange} {authorization : Option String} {e : HttpIo}
    (allowed : m.allows config authorization e) (closed : ¬ e.isOpen) : m.verified := by
  cases e with
  | ping | jwtVerify | respond | finish | noRoute | options => simp [HttpIo.isOpen] at closed
  | release | ensureApplication | pendingCounts | getStatus => exact allowed.2
  | acquire | schema | get | search | enqueue => exact allowed.2.1

/-- **Nothing of the service is used before the token of the request is verified**, under a configuration that the
service starts with: the verification asks for a supported algorithm, a bounded age and a bounded skew. -/
theorem served_only_verified {parseUrl : String → Option UrlParts} {numberText : Double → String} {env : ProcessEnv}
    {e : HttpIo} {k : e.Answer → Prog HttpEffects (Except HttpError Unit)}
    (configured : validateJwtConfig parseUrl numberText env = .ok config)
    (h : (app config req).run.Reaches heard (.await e k)) (closed : ¬ e.isOpen) :
    config.Sound parseUrl ∧ VerifiedIn config req.authorization heard := by
  refine ⟨validateJwtConfig_sound configured, (recorded_app h).verified ?_⟩
  exact verified_of_allows ((safe_app config req).reaches h fun _ _ => trivial).allowed closed

def plainUrl (url : String) : Option UrlParts :=
  if url = "https://am.example.org/jwks" ∨ url = "https://am.example.org/oauth2" then
    some ⟨"https:", "am.example.org"⟩
  else none

def plainEnv : ProcessEnv := fun key =>
  if key = "JWT_JWKS_URI" then some "https://am.example.org/jwks"
  else if key = "JWT_EXPECTED_ISS" then some "https://am.example.org/oauth2"
  else if key = "JWT_EXPECTED_AUD" then some "iga"
  else none

theorem plainEnv_configured : validateJwtConfig plainUrl (fun _ => "60") plainEnv = .ok plainJwtConfig := by
  decide +kernel

/-- The first effect behind the check of the token. -/
theorem served_only_verified_delete :
    ∃ heard e k, (app plainJwtConfig deleteRequest).run.Reaches heard (.await e k) ∧ e.isOpen = false ∧
      VerifiedIn plainJwtConfig deleteRequest.authorization heard := by
  have h : (deleteHeard.drop 1).head?.map (fun x => x.1.isOpen) = some false := by decide +kernel
  obtain ⟨x, hx, hopen⟩ := Option.map_eq_some_iff.1 h
  obtain ⟨after, hafter⟩ := List.head?_eq_some_iff.1 hx
  have hsplit : deleteHeard = deleteHeard.take 1 ++ x :: after := by
    rw [← hafter]
    exact (List.take_append_drop 1 deleteHeard).symm
  obtain ⟨k, hk⟩ := @Prog.reaches_before HttpEffects _ quietService _ _ _ _ hsplit
  have served := served_only_verified plainEnv_configured hk (by simp [hopen])
  exact ⟨_, x.1, k, hk, hopen, served.2⟩

end Results

end Provisioning.Http
