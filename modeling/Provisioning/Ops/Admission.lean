import Mathlib.Data.List.DropRight
import Provisioning.Ops.Evidence

/-!
# Admission

The mutation routes of `src/http/objectsRoutes.ts` down to the call of `store.enqueue`, with
`src/ops/admission.ts`. What a request awaits before that call is part of the request.
-/

namespace Provisioning

/-! ## `JSON.stringify` -/

namespace Json

mutual
def stringify : Json → String
  | .null => "null"
  | .bool b => if b then "true" else "false"
  | .num t => t
  | .str s => quote s
  | .arr items => "[" ++ stringifyItems items ++ "]"
  | .obj fields => "\x7b" ++ stringifyFields fields ++ "\x7d"

def stringifyItems : List Json → String
  | [] => ""
  | [j] => stringify j
  | j :: rest => stringify j ++ "," ++ stringifyItems rest

def stringifyFields : List (String × Json) → String
  | [] => ""
  | [(k, v)] => quote k ++ ":" ++ stringify v
  | (k, v) :: rest => quote k ++ ":" ++ stringify v ++ "," ++ stringifyFields rest
end

end Json

/-- `WhiteSpace` and `LineTerminator`. -/
def isSpace (c : Char) : Bool :=
  c.toNat ∈ [9, 10, 11, 12, 13, 32, 160, 5760, 8192, 8193, 8194, 8195, 8196, 8197, 8198, 8199, 8200, 8201, 8202,
    8232, 8233, 8239, 8287, 12288, 65279]

/-- `s.trim()`. -/
def trim (s : String) : String :=
  String.ofList ((s.toList.dropWhile isSpace).reverse.dropWhile isSpace).reverse

theorem trim_toList (s : String) : (trim s).toList = (s.toList.dropWhile isSpace).rdropWhile isSpace := by
  unfold trim
  rw [String.toList_ofList]
  rfl

def OperationType.text : OperationType → String
  | .create => "CREATE"
  | .update => "UPDATE"
  | .delete => "DELETE"
  | .addValues => "ADD_VALUES"
  | .removeValues => "REMOVE_VALUES"

def OperationPriority.text : OperationPriority → String
  | .interactive => "interactive"
  | .batch => "batch"

/-! ## The gate -/

structure PendingCounts where
  interactive : Nat
  batch : Nat
  deriving DecidableEq, Repr

def PendingCounts.depth (counts : PendingCounts) : OperationPriority → Nat
  | .interactive => counts.interactive
  | .batch => counts.batch

/-- `store.pendingCounts(instanceId)`. -/
def OperationStore.pendingCounts (instanceId : String) (t : Tables) : PendingCounts :=
  let count (priority : OperationPriority) := t.operations.countP fun r =>
    r.instanceId = instanceId ∧ r.status ∈ [.live .pending, .live .awaitingReadback] ∧ r.priority = priority
  ⟨count .interactive, count .batch⟩

structure AdmissionCaps where
  batch : Option Nat
  interactive : Option Nat

def ADMISSION_DEFAULTS : OperationPriority → Nat
  | .batch => 10000
  | .interactive => 1000

def AdmissionCaps.cap (caps : AdmissionCaps) : OperationPriority → Nat
  | .interactive => caps.interactive.getD (ADMISSION_DEFAULTS .interactive)
  | .batch => caps.batch.getD (ADMISSION_DEFAULTS .batch)

structure AdmissionRejectedError where
  instanceId : String
  priority : OperationPriority
  backlogDepth : Nat
  cap : Nat

def AdmissionRejectedError.message (e : AdmissionRejectedError) : String :=
  "Backlog for instance '" ++ e.instanceId ++ "' (" ++ e.priority.text ++ ") is at " ++ toString e.backlogDepth ++
    ", at or above its cap of " ++ toString e.cap ++ ". Retry after the backlog drains."

/-- What a route hands to `next(err)`. -/
inductive RouteError where
  | validation (message : String)
  | rejected (e : AdmissionRejectedError)
  | failure (f : Failure)

def laneKeyFor (opType : OperationType) (objectClass : String) (uid nameAttrValue : Option String) :
    Except Failure String :=
  match opType with
  | .create =>
    match nameAttrValue with
    | none | some "" =>
      .error (.other ("CREATE on '" ++ objectClass ++ "' requires a naming attribute value to build its lane key"))
    | some name => .ok ("create:" ++ objectClass ++ ":" ++ name)
  | _ =>
    match uid with
    | none | some "" =>
      .error (.other (opType.text ++ " on '" ++ objectClass ++ "' requires a uid to build its lane key"))
    | some uid => .ok ("uid:" ++ objectClass ++ ":" ++ uid)

/-- `EnqueueInput` without a lane key. -/
structure AdmitInput where
  instanceId : String
  objectClass : String
  opType : OperationType
  laneKey : Option String
  idempotencyKey : String
  priority : Option OperationPriority
  uid : Option String
  nameAttrValue : Option String
  attrs : Option Json

/-- `op.laneKey ?? laneKeyFor(op.opType, op.objectClass, op)`. -/
def AdmitInput.laneKeyOf (op : AdmitInput) : Except RouteError String :=
  match op.laneKey with
  | some laneKey => pure laneKey
  | none => (laneKeyFor op.opType op.objectClass op.uid op.nameAttrValue).mapError .failure

/-- Up to the input of its `store.enqueue`. `counts` is the answer of
`store.pendingCounts`. -/
def admitAndEnqueue (op : AdmitInput) (caps : AdmissionCaps) (counts : Except Failure PendingCounts) :
    Except RouteError EnqueueInput := do
  let priority := op.priority.getD .batch
  let n ← counts.mapError .failure
  if caps.cap priority ≤ n.depth priority then
    throw (.rejected ⟨op.instanceId, priority, n.depth priority, caps.cap priority⟩)
  else
    let laneKey ← op.laneKeyOf
    pure
      { instanceId := op.instanceId
        objectClass := op.objectClass
        opType := op.opType
        laneKey := laneKey
        idempotencyKey := op.idempotencyKey
        priority := some priority
        uid := op.uid
        nameAttrValue := op.nameAttrValue
        attrs := op.attrs }

/-! ## The routes -/

/-- A request to a mutation route, with the answers to what it awaits. -/
structure MutationRequest where
  opType : OperationType
  instanceId : String
  objectClass : String
  uid : Option String
  body : Option Json
  idempotencyKey : Option String
  randomUUID : String
  ensureApplication : Except Failure Unit
  acquire : Except Failure Unit
  schema : Except Failure ConnectorSchema
  pendingCounts : Except Failure PendingCounts

namespace MutationRequest

variable (req : MutationRequest)

def idempotencyKeyOf : String :=
  match req.idempotencyKey with
  | none => req.randomUUID
  | some header => if trim header = "" then req.randomUUID else trim header

def priorityOf : Except RouteError (Option OperationPriority) :=
  match req.body.bind (Json.field "priority") with
  | none => pure none
  | some (.str "interactive") => pure (some .interactive)
  | some (.str "batch") => pure (some .batch)
  | some raw => throw (.validation ("priority must be \"interactive\" or \"batch\", got: " ++ raw.stringify))

def attributesOf : Except RouteError Json :=
  match req.body with
  | some (.obj fields) =>
    match (Json.obj fields).field "attributes" with
    | some (.obj attributes) => pure (.obj attributes)
    | _ => throw (.validation "attributes is required and must be an object")
  | _ => throw (.validation "request body must be a JSON object")

/-- Only the route of a delete takes no attributes. -/
def requiresAttributes : Bool := req.opType ≠ .delete

def attrs : Except RouteError (Option Json) :=
  if req.requiresAttributes then some <$> req.attributesOf else pure none

/-- The attribute that the route of a create resolves. -/
def nameAttribute : String := nameAttributeFrom req.objectClass req.schema

def nameRequired : RouteError :=
  .validation ("attributes." ++ req.nameAttribute ++ " (the naming attribute) is required for CREATE")

def nameAttrValueOf (attrs : Option Json) : Except RouteError (Option String) :=
  if req.opType = .create then do
    req.acquire.mapError .failure
    match attrs.bind (Json.field req.nameAttribute) with
    | none | some (.str "") => throw req.nameRequired
    | some (.str raw) => pure (some raw)
    | _ => throw req.nameRequired
  else pure none

def enqueueRoute : Except RouteError EnqueueInput := do
  req.ensureApplication.mapError .failure
  let priority ← req.priorityOf
  let attrs ← req.attrs
  let nameAttrValue ← req.nameAttrValueOf attrs
  admitAndEnqueue
    { instanceId := req.instanceId
      objectClass := req.objectClass
      opType := req.opType
      laneKey := none
      idempotencyKey := req.idempotencyKeyOf
      priority := priority
      uid := req.uid
      nameAttrValue := nameAttrValue
      attrs := attrs }
    ⟨none, none⟩ req.pendingCounts

end MutationRequest

/-! ## What is admitted -/

section Admitted

variable {op : AdmitInput} {caps : AdmissionCaps} {counts : Except Failure PendingCounts} {input : EnqueueInput}
  {req : MutationRequest}

theorem bind_eq_ok {ε α β : Type} {x : Except ε α} {f : α → Except ε β} {b : β} :
    (x >>= f) = .ok b ↔ ∃ a, x = .ok a ∧ f a = .ok b := by
  cases x with
  | error e => simp [bind, Except.bind]
  | ok a => simp [bind, Except.bind]

theorem admitAndEnqueue_eq (h : admitAndEnqueue op caps counts = .ok input) :
    (∃ n, counts = .ok n ∧ n.depth (op.priority.getD .batch) < caps.cap (op.priority.getD .batch)) ∧
      ∃ laneKey, op.laneKeyOf = .ok laneKey ∧
        input = ⟨op.instanceId, op.objectClass, op.opType, laneKey, op.idempotencyKey,
          some (op.priority.getD .batch), op.uid, op.nameAttrValue, op.attrs⟩ := by
  unfold admitAndEnqueue at h
  obtain ⟨n, hn, h⟩ := bind_eq_ok.1 h
  have hcounts : counts = .ok n := by
    cases counts with
    | error f => cases hn
    | ok n' =>
      cases hn
      rfl
  split at h
  · cases h
  · obtain ⟨laneKey, hlane, h⟩ := bind_eq_ok.1 h
    exact ⟨⟨n, hcounts, by omega⟩, laneKey, hlane, (Except.ok.inj h).symm⟩

/-- Only the route of a create takes a name, and it is the value at the attribute that it resolved. -/
theorem nameAttrValueOf_some {attrs : Option Json} {v : String} (h : req.nameAttrValueOf attrs = .ok (some v)) :
    req.opType = .create ∧ ∃ a, attrs = some a ∧ a.field req.nameAttribute = some (.str v) := by
  unfold MutationRequest.nameAttrValueOf at h
  split at h
  · rename_i hop
    obtain ⟨-, -, hread⟩ := bind_eq_ok.1 h
    split at hread
    · cases hread
    · cases hread
    · rename_i raw hne hraw
      obtain ⟨a, rfl, ha⟩ := Option.bind_eq_some_iff.1 hraw
      cases hread
      exact ⟨hop, a, rfl, ha⟩
    · cases hread
  · cases h

theorem enqueueRoute_ok (h : req.enqueueRoute = .ok input) :
    input.instanceId = req.instanceId ∧ input.objectClass = req.objectClass ∧ input.opType = req.opType ∧
      ∀ v, input.nameAttrValue = some v → req.opType = .create ∧
        ∃ attrs, input.attrs = some attrs ∧ attrs.field req.nameAttribute = some (.str v) := by
  unfold MutationRequest.enqueueRoute at h
  obtain ⟨-, -, h⟩ := bind_eq_ok.1 h
  obtain ⟨priority, -, h⟩ := bind_eq_ok.1 h
  obtain ⟨attrs, -, h⟩ := bind_eq_ok.1 h
  obtain ⟨name, hname, h⟩ := bind_eq_ok.1 h
  obtain ⟨-, laneKey, -, rfl⟩ := admitAndEnqueue_eq h
  refine ⟨rfl, rfl, rfl, fun v hv => ?_⟩
  obtain rfl : name = some v := hv
  obtain ⟨hcreate, a, rfl, hfield⟩ := nameAttrValueOf_some hname
  exact ⟨hcreate, a, rfl, hfield⟩

end Admitted

end Provisioning
