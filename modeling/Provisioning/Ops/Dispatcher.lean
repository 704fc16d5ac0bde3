import Provisioning.Lib.Program
import Provisioning.Ops.ClaimSql

/-!
# One attempt

What a `Dispatcher` does with one claimed operation, from `execute` down, as in
`src/ops/Dispatcher.ts`. The connector framework, the store and the clock are the environment.
Metrics and the log are left out.
-/

namespace Provisioning

open Lib

/-! ## Configuration -/

structure ResolvedDispatcherConfig where
  maxAttempts : Nat
  backoffBaseMs : Nat
  backoffMaxMs : Nat
  readBackGraceMs : Nat
  reaperThresholdMs : Nat

def ResolvedDispatcherConfig.DEFAULTS : ResolvedDispatcherConfig where
  maxAttempts := 5
  backoffBaseMs := 1000
  backoffMaxMs := 60000
  readBackGraceMs := 2000
  reaperThresholdMs := 10 * 60000

structure AttemptDeadlines where
  create : Nat
  update : Nat
  delete : Nat
  search : Nat

structure ResolvedInstanceConfig where
  attemptDeadlineMs : AttemptDeadlines

/-! ## Effects -/

structure OperationOptions where
  deadlineEpochMs : Nat
  priority : OperationPriority

/-- A call of a facade method that changes the target. -/
inductive Mutation where
  | create (objectClass : String) (attrs : Json) (options : OperationOptions)
  | update (objectClass : String) (uid : Option String) (attrs : Json) (options : OperationOptions)
  | delete (objectClass : String) (uid : Option String) (options : OperationOptions)
  | addAttributeValues (objectClass uid : String) (attrs : Json) (options : OperationOptions)
  | removeAttributeValues (objectClass uid : String) (attrs : Json) (options : OperationOptions)

structure SchemaObjectClass where
  name : String
  nameAttribute : Option String

structure ConnectorSchema where
  objectClasses : List SchemaObjectClass

/-- What an attempt asks of its environment. A facade call is made by `invoke` and awaited by
`settle`. A `search` has the filter `cmp("EQ", [nameAttribute], nameValue)` and a page of 2. -/
inductive Io where
  | now
  | acquire (instanceId : String)
  | configOf (instanceId : String)
  | capabilitiesOf (instanceId : String)
  | schema
  | search (objectClass nameAttribute nameValue : String) (deadlineEpochMs : Nat)
  | invoke (m : Mutation)
  | settle (m : Mutation)
  | release
  | deferLane (laneKey : String) (until' : Nat)
  | finalize (id : String) (outcome : OperationOutcome) (result : Option Json) (errorCode : Option String)
  | requeue (id : String)
  | deferForReadback (id : String) (notBefore : Nat)

/-- `configOf` throws when the scheduling half of the configuration does not resolve. -/
def Io.Answer : Io → Type
  | .now => Nat
  | .acquire _ => Except Failure Unit
  | .configOf _ => Except Failure (Option ResolvedInstanceConfig)
  | .capabilitiesOf _ => ConnectorCapabilities
  | .schema => Except Failure ConnectorSchema
  | .search .. => Except Failure (List ConnectorObject)
  | .settle _ => Except Failure (Option ConnectorObject)
  | .finalize .. | .requeue _ | .deferForReadback .. => Except Failure Bool
  | .invoke _ | .release | .deferLane .. => Unit

def Dispatch : Signature := ⟨Io, Io.Answer⟩

abbrev DispatchM (α : Type) : Type := Async Dispatch Failure α

def perform (e : Io) : DispatchM e.Answer := @Async.ask Dispatch Failure e

def await {α : Type} (e : Io) (result : e.Answer → Except Failure α) : DispatchM α :=
  @Async.call Dispatch Failure α e result

/-! ## Resolutions -/

inductive ResolutionOutcome where
  | final (outcome : OperationOutcome)
  | requeue
  | deferReadback
  deriving DecidableEq, Repr

structure Resolution where
  outcome : ResolutionOutcome
  result : Option Json
  errorCode : Option String
  delayMs : Option Nat

namespace Resolution

def resolved (outcome : OperationOutcome) (result : Json) : Resolution :=
  ⟨.final outcome, some result, none, none⟩

def failed (outcome : OperationOutcome) (errorCode : String) : Resolution :=
  ⟨.final outcome, none, some errorCode, none⟩

end Resolution

namespace Dispatcher

variable (cfg : ResolvedDispatcherConfig) (op : ClaimedOperation)

/-- `uid ?? null`. -/
def uidJson : Option String → Json
  | none => .null
  | some uid => .str uid

/-- `{ uid: updated?.uid ?? op.uid, object: updated }`. -/
def updatedResult (updated : Option ConnectorObject) : Json :=
  match updated with
  | none => .obj [("uid", uidJson op.uid)]
  | some o => .obj [("uid", .str o.uid), ("object", o.toJson)]

def attrsOf : Json := op.attrs.getD (.obj [])

def facade (m : Mutation) : DispatchM (Option ConnectorObject) := do
  perform (.invoke m)
  await (.settle m) fun r => r

/-! ## Shared -/

/-- `isDeadlineExpired(e) || (isConnectorError(e) && e.retryable)`. -/
def isRetryable (e : Failure) : Bool := e.isDeadlineExpired || (e.isConnectorError && e.retryable)

def backoffOrGiveUp (errorCode : String) (exhausted : OperationOutcome) : Resolution :=
  if op.attemptCount + 1 ≥ cfg.maxAttempts then .failed exhausted errorCode
  else ⟨.requeue, none, some errorCode, some (min cfg.backoffMaxMs (cfg.backoffBaseMs * 2 ^ op.attemptCount))⟩

def optionsFor (runtime : ResolvedInstanceConfig) : DispatchM OperationOptions := do
  let now : Nat ← perform .now
  let deadline :=
    match op.opType with
    | .create => runtime.attemptDeadlineMs.create
    | .update => runtime.attemptDeadlineMs.update
    | _ => runtime.attemptDeadlineMs.delete
  pure ⟨now + deadline, op.priority⟩

/-! ## Create -/

def resolveCreateAfterDeadline (runtime : ResolvedInstanceConfig) : DispatchM Resolution := do
  let caps : ConnectorCapabilities ← perform (.capabilitiesOf op.instanceId)
  if !caps.equalitySearchOnName then
    pure (.failed .indeterminate "DEADLINE_NO_READBACK")
  else if op.nameAttrValue = none then
    pure (.failed .indeterminate "DEADLINE_NO_NAME")
  else
    pure ⟨.deferReadback, none, some "AWAITING_READBACK",
      some (runtime.attemptDeadlineMs.create + cfg.readBackGraceMs)⟩

def attemptCreate (runtime : ResolvedInstanceConfig) (options : OperationOptions) : DispatchM Resolution :=
  Async.catching
    (do
      match ← facade (.create op.objectClass (attrsOf op) options) with
      | none => throw (.other "Cannot read properties of null (reading 'uid')")
      | some created =>
        pure (.resolved .succeeded (.obj [("uid", .str created.uid), ("object", created.toJson)])))
    fun e =>
      if e.hasCode .alreadyExists then pure (.failed .failedConfirmed "ALREADY_EXISTS")
      else if e.isDeadlineExpired then resolveCreateAfterDeadline cfg op runtime
      else if e.isConnectorError && e.retryable then pure (backoffOrGiveUp cfg op e.codeOf .indeterminate)
      else pure (.failed .failedConfirmed e.codeOf)

/-- `resolveNameAttribute` of `src/ops/nameAttribute.ts`. -/
def resolveNameAttribute : DispatchM String :=
  Async.catching
    (do
      let schema : ConnectorSchema ← await .schema fun r => r
      match (schema.objectClasses.find? fun c => c.name = op.objectClass).bind (·.nameAttribute) with
      | some name => pure (if name = "" then "__NAME__" else name)
      | none => pure "__NAME__")
    fun _ => pure "__NAME__"

def readBackByName (nameAttribute nameValue : String) (runtime : ResolvedInstanceConfig) :
    DispatchM (Option ConnectorObject) := do
  let now : Nat ← perform .now
  let results : List ConnectorObject ←
    await (.search op.objectClass nameAttribute nameValue (now + runtime.attemptDeadlineMs.search)) fun r => r
  pure results.head?

/-- What a search that was answered means. -/
def readBackVerdict : Option ConnectorObject → Resolution
  | some found =>
    .resolved .succeeded
      (.obj [("uid", .str found.uid), ("object", found.toJson), ("viaReadBack", .bool true)])
  | none =>
    if op.attemptCount < 1 then ⟨.requeue, none, some "READBACK_MISS", some 0⟩
    else .failed .indeterminate "READBACK_MISS"

def resumeReadBack (runtime : ResolvedInstanceConfig) : DispatchM Resolution :=
  match op.nameAttrValue with
  | none => pure (.failed .indeterminate "DEADLINE_NO_NAME")
  | some nameValue => do
    let nameAttribute ← resolveNameAttribute op
    Async.catching (do return readBackVerdict op (← readBackByName op nameAttribute nameValue runtime))
      fun e => pure (.failed .indeterminate ("READBACK_FAILED:" ++ e.codeOf))

/-! ## Update, delta, delete -/

def attemptUpdate (options : OperationOptions) : DispatchM Resolution :=
  Async.catching
    (do
      let updated ← facade (.update op.objectClass op.uid (attrsOf op) options)
      pure (.resolved .succeeded (updatedResult op updated)))
    fun e =>
      if e.hasCode .unknownUid then pure (.failed .failedConfirmed "UNKNOWN_UID")
      else if !isRetryable e then pure (.failed .failedConfirmed e.codeOf)
      else pure (backoffOrGiveUp cfg op e.codeOf .indeterminate)

def attemptDelta (options : OperationOptions) : DispatchM Resolution :=
  match op.uid with
  | none | some "" => pure (.failed .rejectedPreDispatch "MISSING_UID")
  | some uid =>
    Async.catching
      (do
        let updated ←
          if op.opType = .addValues then
            facade (.addAttributeValues op.objectClass uid (attrsOf op) options)
          else facade (.removeAttributeValues op.objectClass uid (attrsOf op) options)
        pure (.resolved .succeeded (updatedResult op updated)))
      fun e =>
        if e.hasCode .unknownUid then pure (.failed .failedConfirmed "UNKNOWN_UID")
        else if !isRetryable e then pure (.failed .failedConfirmed e.codeOf)
        else do
          let caps : ConnectorCapabilities ← perform (.capabilitiesOf op.instanceId)
          if !caps.idempotentDelta then pure (.failed .indeterminate "DELTA_NOT_IDEMPOTENT")
          else pure (backoffOrGiveUp cfg op e.codeOf .indeterminate)

def attemptDelete (options : OperationOptions) : DispatchM Resolution :=
  Async.catching
    (do
      let _ ← facade (.delete op.objectClass op.uid options)
      pure (.resolved .succeeded (.obj [("uid", uidJson op.uid)])))
    fun e =>
      if e.hasCode .unknownUid then
        pure (.resolved .succeeded (.obj [("uid", uidJson op.uid), ("alreadyAbsent", .bool true)]))
      else if !isRetryable e then pure (.failed .failedConfirmed e.codeOf)
      else pure (backoffOrGiveUp cfg op e.codeOf .indeterminate)

/-! ## The attempt and its write -/

def attempt : DispatchM Resolution := do
  match ← await (.configOf op.instanceId) fun r => r with
  | none => pure (.failed .rejectedPreDispatch "UNKNOWN_INSTANCE")
  | some runtime =>
    if op.priorStatus = .awaitingReadback then resumeReadBack op runtime
    else
      let options ← optionsFor op runtime
      match op.opType with
      | .create => attemptCreate cfg op runtime options
      | .update => attemptUpdate cfg op options
      | .delete => attemptDelete cfg op options
      | .addValues | .removeValues => attemptDelta cfg op options

/-- A write of the store whose failure is only logged. -/
def logged (e : Io) (result : e.Answer → Except Failure Bool) : DispatchM Unit :=
  Async.catching (do let _ ← await e result) fun _ => pure ()

def finalize (r : Resolution) : DispatchM Unit :=
  match r.outcome with
  | .deferReadback => do
    let now : Nat ← perform .now
    logged (.deferForReadback op.id (now + r.delayMs.getD 0)) fun r => r
  | .requeue => do
    if r.delayMs.getD 0 > 0 then
      let now : Nat ← perform .now
      perform (.deferLane op.laneKey (now + r.delayMs.getD 0))
    logged (.requeue op.id) fun r => r
  | .final outcome => logged (.finalize op.id outcome r.result r.errorCode) fun r => r

def messageResult (e : Failure) : Json := .obj [("message", .str e.message)]

def execute : DispatchM Unit := do
  match (← perform (.acquire op.instanceId) : Except Failure Unit) with
  | .error e =>
    finalize op ⟨.final .rejectedPreDispatch, some (messageResult e), some "ACQUIRE_FAILED", none⟩
  | .ok _ =>
    Async.andFinally
      (Async.catching (do finalize op (← attempt cfg op)) fun e =>
        finalize op ⟨.final .indeterminate, some (messageResult e), some "DISPATCH_ERROR", none⟩)
      (perform .release)

end Dispatcher

end Provisioning
