import Provisioning.Http.Errors
import Provisioning.Http.JwtConfig
import Provisioning.Http.Routes
import Provisioning.Lib.Monitoring

/-!
# One request

What the server does with one request, from `src/http/app.ts` down: `src/http/auth.ts`, the handlers of
`src/http/objectsRoutes.ts`, `src/http/operationsRoutes.ts` and `src/http/healthRoutes.ts`, and the error handler.
The store, the connector framework, the registrar, the verification of a token and the response are the environment.
The log is left out.
-/

namespace Provisioning.Http

open Lib

/-! ## Effects -/

/-- The options of `jwtVerify`. -/
structure JwtVerifyOptions where
  algorithms : List String
  issuer : String
  audience : String
  maxTokenAge : Double
  clockTolerance : Double

def JwtConfig.verifyOptions (config : JwtConfig) : JwtVerifyOptions where
  algorithms := config.allowedAlgorithms
  issuer := config.expectedIssuer
  audience := config.expectedAudience
  maxTokenAge := config.maxTokenAgeSeconds
  clockTolerance := config.clockSkewSeconds

/-- The payload and what is read from the protected header. -/
structure VerifiedToken where
  payload : Json
  kid : Option String
  alg : String

inductive JoseError where
  | jwtExpired
  | jwtInvalid
  | signatureVerificationFailed
  | other

/-- How a streaming search ended, and whether it had written by then. -/
structure SearchEnd where
  headersSent : Bool
  result : Except Failure Unit

inductive HttpIo where
  | ping
  | jwtVerify (token : String) (options : JwtVerifyOptions)
  | ensureApplication (applicationId : String)
  | acquire (instanceId : String)
  | schema
  | get (objectClass uid : String)
  | search (objectClass : String) (filter : Option Node)
  | release
  | pendingCounts (instanceId : String)
  | enqueue (op : EnqueueInput)
  | getStatus (id : String)
  /-- `res.status(status).json(body)`. -/
  | respond (response : Response)
  /-- The end of a response that has begun. -/
  | finish
  /-- The 404 of Express for a request without a route. -/
  | noRoute
  /-- The answer of Express to OPTIONS. -/
  | options (allow : String)

def HttpIo.Answer : HttpIo → Type
  | .ping => Except Failure Unit
  | .jwtVerify .. => Except JoseError VerifiedToken
  | .ensureApplication _ => Except HttpError Unit
  | .acquire _ => Except Failure Unit
  | .schema => Except Failure ConnectorSchema
  | .get .. => Except Failure (Option ConnectorObject)
  | .search .. => SearchEnd
  | .pendingCounts _ => Except Failure PendingCounts
  | .enqueue _ => Except Failure EnqueueResult
  | .getStatus _ => Except Failure (Option OperationStatusRow)
  | .release | .respond _ | .finish | .noRoute | .options _ => Unit

def HttpEffects : Signature := ⟨HttpIo, HttpIo.Answer⟩

abbrev HttpProg (α : Type) : Type := Async HttpEffects HttpError α

def tell (e : HttpIo) : HttpProg e.Answer := @Async.ask HttpEffects HttpError e

/-- Await a call that rejects with a failure. -/
def call {α : Type} (e : HttpIo) (result : e.Answer → Except Failure α) : HttpProg α :=
  @Async.call HttpEffects HttpError α e fun answer => (result answer).mapError .failure

def orThrow {α : Type} (x : Except RouteError α) : HttpProg α :=
  match x with
  | .ok a => pure a
  | .error e => throw (RouteError.toHttp e)

def respond (status : Nat) (body : Json) : HttpProg Unit := tell (.respond ⟨status, body⟩)

/-! ## The request -/

structure HttpRequest where
  method : Method
  segments : List (List Char)
  authorization : Option String
  idempotencyKey : Option String
  /-- What `express.json()` makes of the body. -/
  body : Except Failure (Option Json)
  /-- `req.query.filter`, if it is a string. -/
  filter : Option String
  /-- What `randomUUID()` returns. -/
  randomUUID : String

/-- `next(err)`, down to the error handler. -/
def next (headersSent : Bool) (e : HttpError) : HttpProg Unit :=
  if headersSent then tell .finish else tell (.respond (mapError e))

/-! ## Bearer tokens -/

/-- The token behind `Bearer `, from 20 to 2048 characters long and without a space. -/
def parseAuthHeader (authorization : Option String) : Option String :=
  authorization.bind fun h =>
    if "Bearer ".toList <+: h.toList then
      let token := h.toList.drop 7
      if token.length < 20 ∨ 2048 < token.length then none
      else if token.any isSpace then none
      else some (String.ofList token)
    else none

/-- `String(v)`. -/
def asString : Json → String
  | .null => "null"
  | .bool b => if b then "true" else "false"
  | .num text => text
  | .str s => s
  | .arr _ | .obj _ => "[object Object]"

/-- The scopes of a payload: an array as it is, anything else as a text of words. -/
def scopesOf (payload : Json) : List Json :=
  match payload.field "scope" with
  | some (.arr items) => items
  | none | some .null => []
  | some v => (((asString v).toList.splitOn ' ').filter (· ≠ [])).map fun word => .str (String.ofList word)

def hasScope (scopes : List Json) (scope : String) : Bool :=
  scopes.any fun s =>
    match s with
    | .str s => s = scope
    | _ => false

def scopeAllowed (scopes : List Json) (required : List String) : Bool := required.all (hasScope scopes)

def unauthorized (message : String) : Response := ⟨401, .obj [("error", .str message)]⟩

def forbidden : Response := ⟨403, .obj [("error", .str "Insufficient scope")]⟩

def JoseError.message : JoseError → String
  | .jwtExpired => "Token expired"
  | .jwtInvalid => "Invalid token"
  | .signatureVerificationFailed => "Bad signature"
  | .other => "Unauthorized"

/-- What is wrong with a token whose signature is good. -/
def refusal (config : JwtConfig) (requiredScopes : Option (List String)) (v : VerifiedToken) : Option Response :=
  if ¬ v.kid.any (· ≠ "") then some (unauthorized "Missing kid")
  else if v.alg ∉ config.allowedAlgorithms then some (unauthorized "Unsupported alg")
  else if ¬ ((v.payload.field "sub").any Json.truthy ∧ (v.payload.field "exp").any Json.truthy) then
    some (unauthorized "Missing sub/exp")
  else if ¬ scopeAllowed (scopesOf v.payload) config.requiredScope.toList then some forbidden
  else if ¬ scopeAllowed (scopesOf v.payload) (requiredScopes.getD []) then some forbidden
  else none

/-- Whether the request goes on. Otherwise it is answered. -/
def requireJwt (config : JwtConfig) (requiredScopes : Option (List String)) (req : HttpRequest) : HttpProg Bool :=
  match parseAuthHeader req.authorization with
  | none => do
    tell (.respond (unauthorized "Missing bearer token"))
    return false
  | some token => do
    let verified : Except JoseError VerifiedToken ← tell (.jwtVerify token config.verifyOptions)
    match verified with
    | .error e => do
      tell (.respond (unauthorized e.message))
      return false
    | .ok v =>
      match refusal config requiredScopes v with
      | some response => do
        tell (.respond response)
        return false
      | none => return true

/-! ## Handlers -/

def param (name : String) (params : List (String × String)) : String :=
  ((params.find? fun p => p.1 = name).map Prod.snd).getD ""

def healthz : HttpProg Unit := respond 200 (.obj [("status", .str "ok")])

def readyz : HttpProg Unit := do
  let pinged : Except Failure Unit ← tell .ping
  match pinged with
  | .ok _ => respond 200 (.obj [("status", .str "ok")])
  | .error f => respond 503 (.obj [("status", .str "unavailable"), ("message", .str f.message)])

/-- What the route of a mutation knows before it asks for anything. -/
def mutationRequest (req : HttpRequest) (body : Option Json) (opType : OperationType)
    (params : List (String × String)) : MutationRequest where
  opType := opType
  instanceId := param "instanceId" params
  objectClass := param "objectClass" params
  uid := (params.find? fun p => p.1 = "uid").map Prod.snd
  body := body
  idempotencyKey := req.idempotencyKey
  randomUUID := req.randomUUID
  ensureApplication := .ok ()
  acquire := .ok ()
  schema := .ok ⟨[]⟩
  pendingCounts := .ok ⟨0, 0⟩

/-- `resolveNameAttribute` under a lease of its own. -/
def resolveNameAttribute (instanceId : String) : HttpProg (Except Failure ConnectorSchema) := do
  call (.acquire instanceId) id
  Async.andFinally (tell .schema) (tell .release)

/-- The attribute that a create needs, read from its attributes. -/
def nameAttrValueOf (m : MutationRequest) (attrs : Option Json) : HttpProg (Option String) :=
  if m.opType = .create then do
    let schema ← resolveNameAttribute m.instanceId
    orThrow ({ m with schema := schema }.nameAttrValueOf attrs)
  else pure none

def admitAndEnqueue (op : AdmitInput) (caps : AdmissionCaps) : HttpProg EnqueueResult := do
  let counts : PendingCounts ← call (.pendingCounts op.instanceId) id
  let input ← orThrow (Provisioning.admitAndEnqueue op caps (.ok counts))
  call (.enqueue input) id

def respondAccepted (result : EnqueueResult) (idempotencyKey : String) : HttpProg Unit :=
  respond 202 (.obj [("operationId", .str result.id), ("status", .str "PENDING"),
    ("idempotencyKey", .str idempotencyKey)])

def admitInput (m : MutationRequest) (priority : Option OperationPriority) (attrs : Option Json)
    (nameAttrValue : Option String) : AdmitInput where
  instanceId := m.instanceId
  objectClass := m.objectClass
  opType := m.opType
  laneKey := none
  idempotencyKey := m.idempotencyKeyOf
  priority := priority
  uid := m.uid
  nameAttrValue := nameAttrValue
  attrs := attrs

def enqueueRoute (m : MutationRequest) : HttpProg Unit :=
  Async.catching
    (do
      let priority ← orThrow m.priorityOf
      let attrs ← orThrow m.attrs
      let nameAttrValue ← nameAttrValueOf m attrs
      let result ← admitAndEnqueue (admitInput m priority attrs nameAttrValue) ⟨none, none⟩
      respondAccepted result m.idempotencyKeyOf)
    (next false)

/-- A lease for a read. Without one the request is answered. -/
def acquireForRead (instanceId : String) : HttpProg Bool :=
  Async.catching
    (do
      call (.acquire instanceId) id
      return true)
    (fun e => do
      next false e
      return false)

def objectNotFound (uid : String) : Json := problem "not_found" ("no object with uid " ++ uid)

/-- The lease goes back after the answer. -/
def getObject (params : List (String × String)) : HttpProg Unit := do
  if ← acquireForRead (param "instanceId" params) then
    Async.catching
      (do
        let object : Option ConnectorObject ←
          call (.get (param "objectClass" params) (param "uid" params)) id
        match object with
        | none => respond 404 (objectNotFound (param "uid" params))
        | some object => respond 200 object.toJson)
      (next false)
    tell .release

/-- The filter of a search that has one. -/
def filterOf (req : HttpRequest) : Except FilterSyntaxError (Option Node) :=
  match req.filter with
  | none => .ok none
  | some text => (parseFilterString text).map some

def runSearch (objectClass : String) (filter : Option Node) : HttpProg Unit := do
  let ended : SearchEnd ← tell (.search objectClass filter)
  match ended.result with
  | .ok _ => tell .finish
  | .error f => if ended.headersSent then tell .finish else next false (.failure f)

def search (req : HttpRequest) (params : List (String × String)) : HttpProg Unit :=
  match filterOf req with
  | .error e => next false (.filterSyntax e)
  | .ok filter => do
    if ← acquireForRead (param "instanceId" params) then
      runSearch (param "objectClass" params) filter
      tell .release

def getOperationRoute (params : List (String × String)) : HttpProg Unit :=
  Async.catching
    (do
      let row : Option OperationStatusRow ← call (.getStatus (param "operationId" params)) id
      tell (.respond (getOperation row)))
    (next false)

/-! ## The application -/

/-- What Express throws at a parameter that it cannot decode. -/
def decodeFailure (raw : List (String × List Char)) : HttpError :=
  let failed := (raw.find? fun p => (Lib.UrlPath.decodeURIComponent p.2).isNone).map fun p => String.ofList p.2
  .failure (.other ("Failed to decode param '" ++ failed.getD "" ++ "'"))

/-- The middleware of the objects router, which every method and every longer path goes through. It tells whether the
request goes on. -/
def ensureRegistered (req : HttpRequest) : HttpProg Bool :=
  match exec objectsPath (req.segments.take objectsPath.length) with
  | none => pure true
  | some raw =>
    match decodeParams raw with
    | none => do
      next false (decodeFailure raw)
      return false
    | some params =>
      Async.catching
        (do
          @Async.call HttpEffects HttpError Unit (.ensureApplication (param "instanceId" params)) fun answer => answer
          return true)
        (fun e => do
          next false e
          return false)

def runHandler (req : HttpRequest) (body : Option Json) (params : List (String × String)) : Handler → HttpProg Unit
  | .healthz => healthz
  | .readyz => readyz
  | .enqueueRoute opType _ => enqueueRoute (mutationRequest req body opType params)
  | .getObject => getObject params
  | .search => search req params
  | .getOperation => getOperationRoute params

/-- The path of a route that has these segments, whatever its method. -/
def matchedPath (segments : List (List Char)) : Option (List (String × List Char)) :=
  createApp.findSome? fun route => exec route.path segments

def optionsReply (router : List Route) (req : HttpRequest) : Option String :=
  if req.method = .options then allowed router req.segments else none

/-- A request that no handler of the two routers takes. -/
def unhandled (req : HttpRequest) : HttpProg Unit :=
  match (optionsReply createObjectsRouter req).or (optionsReply createOperationsRouter req) with
  | some allow => tell (.options allow)
  | none => tell .noRoute

/-- The routers behind the check of the token. A path that cannot be decoded fails before its method is looked at. -/
def dispatch (req : HttpRequest) (body : Option Json) : HttpProg Unit := do
  if ← ensureRegistered req then
    match (matchedPath req.segments).filter (fun raw => (decodeParams raw).isNone) with
    | some raw => next false (decodeFailure raw)
    | none =>
      match handle req.method req.segments with
      | none => unhandled req
      | some (handler, params) => runHandler req body params handler

def Handler.isProbe : Handler → Bool
  | .healthz | .readyz => true
  | _ => false

def app (config : JwtConfig) (req : HttpRequest) : HttpProg Unit :=
  match req.body with
  | .error f => next false (.failure f)
  | .ok body =>
    match (findRoute req.method req.segments).filter (fun found => found.1.isProbe) with
    | some (handler, _) => runHandler req body [] handler
    | none =>
      match optionsReply createHealthRouter req with
      | some allow => tell (.options allow)
      | none => do
        if ← requireJwt config none req then dispatch req body

end Provisioning.Http
