import Provisioning.Client.Paths
import Provisioning.Http.Admitted

/-!
# A mutation from the client to the store

`clients/node/src/objects.js` and `call` of `clients/node/src/httpClient.js` write the request, and the server reads
it. What the store is asked to enqueue is what the caller asked for. A JSON document arrives as it is sent.
-/

namespace Provisioning.Client

open Lib Lib.UrlPath Http

/-! ## The request -/

/-- What a caller passes besides the components of the path. -/
structure MutationArgs where
  attributes : Json
  priority : Option Json
  idempotencyKey : Option String

namespace Call

/-- The document that the method sends. -/
def body (args : MutationArgs) : Call → Option Json
  | createObject .. => some (.obj ([("attributes", args.attributes)] ++ Json.optional "priority" args.priority))
  | replaceObject .. | addValues .. | removeValues .. => some (.obj [("attributes", args.attributes)])
  | deleteObject .. | getObject .. | search .. => none

/-- An empty key is left out. -/
def sent (token : String) (args : MutationArgs) (randomUUID : String) (c : Call) : HttpRequest where
  method := c.request.method
  segments := parsePath c.request.path.toList
  authorization := some ("Bearer " ++ token)
  idempotencyKey := args.idempotencyKey.filter (· ≠ "")
  body := .ok (c.body args)
  filter := none
  randomUUID := randomUUID

/-! ## What the store is asked for -/

def instanceId : Call → String
  | createObject instanceId _ | replaceObject instanceId _ _ | deleteObject instanceId _ _
  | addValues instanceId _ _ | removeValues instanceId _ _ | getObject instanceId _ _
  | search instanceId _ _ => instanceId

def objectClass : Call → String
  | createObject _ objectClass | replaceObject _ objectClass _ | deleteObject _ objectClass _
  | addValues _ objectClass _ | removeValues _ objectClass _ | getObject _ objectClass _
  | search _ objectClass _ => objectClass

def uid : Call → Option String
  | createObject .. | search .. => none
  | replaceObject _ _ uid | deleteObject _ _ uid | addValues _ _ uid | removeValues _ _ uid
  | getObject _ _ uid => some uid

/-- The priority that the route of a create reads. No other route reads one. -/
def priority (args : MutationArgs) : Call → Option Json
  | createObject .. => args.priority
  | _ => none

/-- Without a priority the call is for the batch. -/
def AsksPriority (c : Call) (args : MutationArgs) (p : OperationPriority) : Prop :=
  (p = .batch ∧ c.priority args = none) ∨ c.priority args = some (.str p.text)

end Call

/-- The caller's key without its blanks, or a fresh one when nothing is left of it. -/
def MutationArgs.keyOr (randomUUID : String) (args : MutationArgs) : String :=
  ((args.idempotencyKey.map trim).filter (· ≠ "")).getD randomUUID

namespace Call

/-- The input is what the caller asked for, in a request with this `randomUUID()`. -/
structure AskedFor (c : Call) (args : MutationArgs) (randomUUID : String) (input : EnqueueInput) : Prop where
  opType : ∃ flag, c.handler = .enqueueRoute input.opType flag
  instanceId : input.instanceId = c.instanceId
  objectClass : input.objectClass = c.objectClass
  uid : input.uid = c.uid
  attrs : input.attrs = if input.opType = .delete then none else some args.attributes
  priority : ∃ p, input.priority = some p ∧ c.AsksPriority args p
  idempotencyKey : input.idempotencyKey = args.keyOr randomUUID
  laneKey : laneKeyFor input.opType input.objectClass input.uid input.nameAttrValue = .ok input.laneKey

theorem param_instanceId (c : Call) : param "instanceId" c.params = c.instanceId := by
  cases c <;> rfl

theorem param_objectClass (c : Call) : param "objectClass" c.params = c.objectClass := by
  cases c <;> rfl

theorem find_uid (c : Call) : (c.params.find? fun p => p.1 = "uid").map Prod.snd = c.uid := by
  cases c <;> rfl

/-! ## Routing -/

theorem routed_of_plain {c : Call} (plain : c.Plain) (hne : ∀ x ∈ c.components, x ≠ "") :
    handle c.request.method (parsePath c.request.path.toList) = some (c.handler, c.params) := by
  have hparse : parsePath c.request.path.toList = c.segments.map (percentEncode inPathSet) := by
    rw [c.path_toList]
    exact parsePath_render c.isQuery (plain.readable hne) fun s hs => (plain.written s hs).plainSegment
  have hvalues : ∀ v ∈ c.components, v.toList ≠ [] := fun v hv hnil => hne v hv (String.toList_eq_nil_iff.1 hnil)
  have hfind : findRoute c.request.method (c.segments.map (percentEncode inPathSet)) = _ :=
    findRoute_fill c.own_mem hvalues c.names_length
  have hdecode : decodeParams _ = some ((names c.piecesOf).zip c.components) :=
    decodeParams_zip fun v hv => (plain.written_component hv).plainSegment
  unfold handle
  rw [hparse, hfind, Option.bind_some, params_eq_zip]
  exact congrArg (Option.map _) hdecode

end Call

/-! ## What is admitted -/

section Admitted

variable {input : EnqueueInput} {m : MutationRequest}

theorem enqueueRoute_eq (h : m.enqueueRoute = .ok input) :
    ∃ priority attrs name laneKey, m.priorityOf = .ok priority ∧ m.attrs = .ok attrs ∧
      laneKeyFor m.opType m.objectClass m.uid name = .ok laneKey ∧
      input = ⟨m.instanceId, m.objectClass, m.opType, laneKey, m.idempotencyKeyOf, some (priority.getD .batch),
        m.uid, name, attrs⟩ := by
  unfold MutationRequest.enqueueRoute at h
  obtain ⟨-, -, h⟩ := bind_eq_ok.1 h
  obtain ⟨priority, hpriority, h⟩ := bind_eq_ok.1 h
  obtain ⟨attrs, hattrs, h⟩ := bind_eq_ok.1 h
  obtain ⟨name, -, h⟩ := bind_eq_ok.1 h
  obtain ⟨-, laneKey, hlane, rfl⟩ := admitAndEnqueue_eq h
  refine ⟨priority, attrs, name, laneKey, hpriority, hattrs, ?_, rfl⟩
  unfold AdmitInput.laneKeyOf at hlane
  cases hkey : laneKeyFor m.opType m.objectClass m.uid name with
  | error f =>
    simp only [hkey] at hlane
    cases hlane
  | ok laneKey' =>
    simp only [hkey] at hlane
    obtain rfl := Except.ok.inj hlane
    rfl

theorem priorityOf_ok {priority : Option OperationPriority} (h : m.priorityOf = .ok priority) :
    (priority = none ∧ m.body.bind (Json.field "priority") = none) ∨
      ∃ p : OperationPriority, priority = some p ∧ m.body.bind (Json.field "priority") = some (.str p.text) := by
  unfold MutationRequest.priorityOf at h
  split at h
  · rename_i hnone
    exact .inl ⟨(Except.ok.inj h).symm, hnone⟩
  · rename_i hraw
    exact .inr ⟨.interactive, (Except.ok.inj h).symm, hraw⟩
  · rename_i hraw
    exact .inr ⟨.batch, (Except.ok.inj h).symm, hraw⟩
  · cases h

theorem attrs_ok {attrs : Option Json} (h : m.attrs = .ok attrs) :
    if m.opType = .delete then attrs = none else attrs = m.body.bind (Json.field "attributes") := by
  unfold MutationRequest.attrs MutationRequest.requiresAttributes at h
  split
  · rename_i hdelete
    rw [if_neg (by simp [hdelete])] at h
    exact (Except.ok.inj h).symm
  · rename_i hother
    rw [if_pos (by simp [hother])] at h
    cases hattributes : m.attributesOf with
    | error e =>
      rw [hattributes] at h
      cases h
    | ok attributes =>
      rw [hattributes] at h
      obtain rfl := Except.ok.inj h
      unfold MutationRequest.attributesOf at hattributes
      split at hattributes
      · rename_i fields hbody
        split at hattributes
        · rename_i found hfield
          obtain rfl := Except.ok.inj hattributes
          rw [hbody]
          exact hfield.symm
        · cases hattributes
      · cases hattributes

end Admitted

namespace Call

theorem body_attributes {c : Call} {opType : OperationType} {flag : Bool} (args : MutationArgs)
    (hhandler : c.handler = .enqueueRoute opType flag) (hother : opType ≠ .delete) :
    (c.body args).bind (Json.field "attributes") = some args.attributes := by
  cases c with
  | deleteObject =>
    simp only [handler, Handler.enqueueRoute.injEq] at hhandler
    exact absurd hhandler.1.symm hother
  | getObject | search => simp [handler] at hhandler
  | _ => simp [body, Json.field]

theorem body_priority (c : Call) (args : MutationArgs) :
    (c.body args).bind (Json.field "priority") = c.priority args := by
  cases c <;> simp [body, priority, Json.field]
  cases args.priority <;> rfl

theorem asksPriority_of_ok {c : Call} {args : MutationArgs} {m : MutationRequest} {priority : Option OperationPriority}
    (hbody : m.body = c.body args) (h : m.priorityOf = .ok priority) :
    c.AsksPriority args (priority.getD .batch) := by
  unfold AsksPriority
  rw [← body_priority, ← hbody]
  rcases priorityOf_ok h with ⟨rfl, hnone⟩ | ⟨p, rfl, hp⟩
  · exact .inl ⟨rfl, hnone⟩
  · exact .inr hp

theorem idempotencyKeyOf_sent {m : MutationRequest} {args : MutationArgs}
    (header : m.idempotencyKey = args.idempotencyKey.filter (· ≠ "")) :
    m.idempotencyKeyOf = args.keyOr m.randomUUID := by
  unfold MutationRequest.idempotencyKeyOf MutationArgs.keyOr
  rw [header]
  cases args.idempotencyKey with
  | none => rfl
  | some key =>
    by_cases hempty : key = ""
    · subst hempty
      simp [Option.filter, show trim "" = "" by decide]
    · by_cases hblank : trim key = "" <;> simp [Option.filter, hempty, hblank]

/-! ## The result -/

theorem askedFor_of_admits {c : Call} {args : MutationArgs} {token randomUUID : String} {m : Asked}
    {input : EnqueueInput} (plain : c.Plain) (hne : ∀ x ∈ c.components, x ≠ "")
    (h : Admits (c.sent token args randomUUID) m input) : c.AskedFor args randomUUID input := by
  obtain ⟨base, counts, schema, mutates, -, -, hroute⟩ := h
  obtain ⟨body, opType, flag, params, hbody, hrouted, rfl⟩ := mutates
  obtain rfl := Except.ok.inj hbody
  rw [show handle (c.sent token args randomUUID).method (c.sent token args randomUUID).segments =
    some (c.handler, c.params) from routed_of_plain plain hne] at hrouted
  obtain ⟨hhandler, rfl⟩ := Prod.mk.inj (Option.some.inj hrouted)
  obtain ⟨priority, attrs, name, laneKey, hpriority, hattrs, hlane, rfl⟩ := enqueueRoute_eq hroute
  have hattrs := attrs_ok hattrs
  refine ⟨⟨flag, hhandler⟩, c.param_instanceId, c.param_objectClass, c.find_uid, ?_,
    ⟨_, rfl, asksPriority_of_ok rfl hpriority⟩, idempotencyKeyOf_sent rfl, hlane⟩
  split
  · rename_i hdelete
    rwa [if_pos hdelete] at hattrs
  · rename_i hother
    rw [if_neg hother] at hattrs
    exact hattrs.trans (body_attributes args hhandler hother)

/-- **What the store is asked to enqueue is what the caller asked for**, when the components of the path are plain:
the object and the attributes arrive, and so do the priority of a create and the key without its blanks. The lane is
that of the object. -/
theorem mutation_arrives {c : Call} {args : MutationArgs} {config : JwtConfig} {token randomUUID : String}
    {heard : HttpHeard} {input : EnqueueInput}
    {k : Except Failure EnqueueResult → Prog HttpEffects (Except HttpError Unit)} (plain : c.Plain)
    (hne : ∀ x ∈ c.components, x ≠ "")
    (h : (app config (c.sent token args randomUUID)).run.Reaches heard (.await (HttpIo.enqueue input) k)) :
    c.AskedFor args randomUUID input :=
  askedFor_of_admits plain hne ((admitted_app config _).reaches h fun _ _ => trivial).allowed

def raisedSalary : MutationArgs := ⟨.obj [("salary", .num "10")], none, some " k "⟩

def raiseHeard : HttpHeard :=
  (app plainJwtConfig ((replaceObject "hr" "User" "42").sent "abcdefghijklmnopqrstuvwxyz" raisedSalary
    "00000000-0000-4000-8000-000000000000")).run.transcript quietService

theorem mutation_arrives_replaced :
    ∃ input : EnqueueInput, (raiseHeard.drop 3).head?.bind (fun x => x.1.input) = some input ∧
      input.idempotencyKey = "k" ∧ input.laneKey = "uid:User:42" ∧
      (replaceObject "hr" "User" "42").AskedFor raisedSalary "00000000-0000-4000-8000-000000000000" input := by
  have h : ((raiseHeard.drop 3).head?.bind fun x => x.1.input.map fun input =>
      (input.idempotencyKey, input.laneKey)) = some ("k", "uid:User:42") := by
    decide +kernel
  obtain ⟨x, hx, h⟩ := Option.bind_eq_some_iff.1 h
  obtain ⟨input, hinput, hkeys⟩ := Option.map_eq_some_iff.1 h
  obtain ⟨hkey, hlane⟩ := Prod.mk.inj hkeys
  obtain ⟨after, hafter⟩ := List.head?_eq_some_iff.1 hx
  have hsplit : raiseHeard = raiseHeard.take 3 ++ x :: after := by
    rw [← hafter]
    exact (List.take_append_drop 3 raiseHeard).symm
  obtain ⟨k, hk⟩ := @Prog.reaches_before HttpEffects _ quietService _ _ _ _ hsplit
  refine ⟨input, by rw [hx]; exact hinput, hkey, hlane, ?_⟩
  obtain ⟨e, a⟩ := x
  obtain rfl := eq_enqueue hinput
  exact mutation_arrives (.of_written (by decide +kernel) (by decide +kernel)) (by decide) hk

end Call

end Provisioning.Client
