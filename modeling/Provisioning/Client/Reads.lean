import Provisioning.Client.Mutations
import Provisioning.Lib.UrlQuery

/-!
# What a call makes the service ask for

The registrar, the connector and the store are asked for the instance, the class, the object and the filter that the
caller named, and a connector only under a lease of that instance.
-/

namespace Provisioning.Client

open Lib Lib.UrlPath Http

/-- What is asked of a connector. -/
def needsLease : HttpIo → Bool
  | .schema | .get .. | .search .. => true
  | _ => false

theorem leases_of_allows {config : JwtConfig} {authorization : Option String} {m : Exchange} {e : HttpIo}
    (allowed : m.allows config authorization e) (needs : needsLease e) : m.leases = 1 := by
  cases e with
  | schema | get | search => exact allowed.2.2
  | _ => cases needs

namespace Call

/-! ## The request -/

/-- The request of the call, with the query that Express reads from its URL. -/
def received (unescapeBuffer : List Char → List Char) (token : String) (args : MutationArgs) (randomUUID : String)
    (c : Call) : HttpRequest :=
  { c.sent token args randomUUID with
    filter := (UrlQuery.valueOf unescapeBuffer "filter".toList c.request.path.toList).map String.ofList }

/-- The text of a filter, if the call has one. -/
def filterText : Call → Option String
  | search _ _ filter => filter.filter (· ≠ "")
  | _ => none

def readFilter : Option String → Except FilterSyntaxError (Option Node)
  | none => .ok none
  | some text => (parseFilterString text).map some

/-! ## What the caller names -/

def Names (c : Call) : HttpIo → Prop
  | .ensureApplication id | .acquire id | .pendingCounts id => id = c.instanceId
  | .schema => ∃ objectClass, c = createObject c.instanceId objectClass
  | .get objectClass uid => c = getObject c.instanceId objectClass uid
  | .search objectClass filter =>
    (∃ text, c = search c.instanceId objectClass text) ∧ readFilter c.filterText = .ok filter
  | .enqueue input =>
    (∃ flag, c.handler = .enqueueRoute input.opType flag) ∧ input.instanceId = c.instanceId ∧
      input.objectClass = c.objectClass ∧ input.uid = c.uid
  | .jwtVerify .. | .release | .respond _ | .finish => True
  | .ping | .getStatus _ | .noRoute | .options _ => False

/-! ## The filter -/

section Filter

variable {c : Call} {unescapeBuffer : List Char → List Char} {token randomUUID : String} {args : MutationArgs}

/-- `?filter=`, with a text. -/
def filterPart : Option String → List Char
  | none => []
  | some text => UrlQuery.written "filter".toList text.toList

theorem query_eq (c : Call) : c.query = filterPart c.filterText := by
  cases c with
  | search instanceId objectClass filter =>
    cases filter with
    | none => rfl
    | some text =>
      change (if text = "" then "" else "?filter=" ++ String.ofList (encodeURIComponent text.toList)).toList =
        filterPart ((some text).filter (· ≠ ""))
      rw [Option.filter_some]
      by_cases hempty : text = ""
      · rw [if_pos hempty, if_neg (by simp [hempty])]
        rfl
      · rw [if_neg hempty, if_pos (by simp [hempty]), String.toList_append]
        simp [filterPart, UrlQuery.written]
  | _ => rfl

theorem received_filter (plain : c.Plain) (hne : ∀ x ∈ c.components, x ≠ "") :
    (c.received unescapeBuffer token args randomUUID).filter = c.filterText := by
  have hpath : ∀ ch ∈ render c.segments, ¬ endsPath ch := fun ch hch => ((plain.readable hne).kept ch hch).2
  unfold received
  dsimp only
  rw [c.path_toList, c.query_eq]
  cases c.filterText with
  | none =>
    unfold filterPart
    rw [List.append_nil, UrlQuery.valueOf_path hpath]
    rfl
  | some text =>
    unfold filterPart
    rw [UrlQuery.valueOf_written hpath (by decide), Option.map_some, String.ofList_toList]

theorem filterOf_received (plain : c.Plain) (hne : ∀ x ∈ c.components, x ≠ "") :
    filterOf (c.received unescapeBuffer token args randomUUID) = readFilter c.filterText := by
  unfold filterOf
  rw [received_filter plain hne]
  cases c.filterText <;> rfl

end Filter

/-! ## The route -/

section Route

variable {c : Call} {raw : List (String × List Char)} {params : List (String × String)}

theorem segments_take (c : Call) : c.segments.take objectsPath.length = fill objectsPath (c.components.take 2) := by
  cases c <;> rfl

theorem components_take (c : Call) : (names objectsPath).length = (c.components.take 2).length := by
  cases c <;> rfl

theorem parsePath_plain (plain : c.Plain) (hne : ∀ x ∈ c.components, x ≠ "") :
    parsePath c.request.path.toList = c.segments.map (percentEncode inPathSet) := by
  rw [c.path_toList]
  exact parsePath_render c.isQuery (plain.readable hne) fun s hs => (plain.written s hs).plainSegment

theorem registered_instance (plain : c.Plain) (hne : ∀ x ∈ c.components, x ≠ "")
    (hexec : exec objectsPath ((parsePath c.request.path.toList).take objectsPath.length) = some raw)
    (hparams : decodeParams raw = some params) : param "instanceId" params = c.instanceId := by
  have hvalues : ∀ v ∈ c.components.take 2, v.toList ≠ [] := fun v hv hnil =>
    hne v (List.mem_of_mem_take hv) (String.toList_eq_nil_iff.1 hnil)
  rw [parsePath_plain plain hne, ← List.map_take, segments_take,
    exec_fill (by decide) hvalues c.components_take] at hexec
  obtain rfl := Option.some.inj hexec
  rw [decodeParams_zip fun v hv => (plain.written_component (List.mem_of_mem_take hv)).plainSegment] at hparams
  obtain rfl := Option.some.inj hparams
  cases c <;> rfl

end Route

/-! ## The result -/

section Names

variable {c : Call} {unescapeBuffer : List Char → List Char} {token randomUUID : String} {args : MutationArgs}

theorem names_of_mutation {req : HttpRequest} {body : Option Json} {opType : OperationType} {flag : Bool} {e : HttpIo}
    (hhandler : c.handler = .enqueueRoute opType flag) (h : OfMutation (mutationRequest req body opType c.params) e) :
    c.Names e := by
  cases e with
  | acquire id | pendingCounts id => exact Eq.trans h c.param_instanceId
  | schema =>
    have hcreate : opType = .create := h
    rw [hcreate] at hhandler
    cases c <;> simp [handler] at hhandler
    exact ⟨_, rfl⟩
  | enqueue input =>
    have targets : Targets _ input := h
    exact ⟨⟨flag, targets.opType ▸ hhandler⟩, targets.instanceId.trans c.param_instanceId,
      targets.objectClass.trans c.param_objectClass, targets.uid.trans c.find_uid⟩
  | release | respond r => trivial
  | _ => cases h

theorem names_of_handler {req : HttpRequest} {body : Option Json} {e : HttpIo}
    (hfilter : filterOf req = readFilter c.filterText) (h : OfHandler req body c.params c.handler e) : c.Names e := by
  cases c with
  | createObject instanceId objectClass | replaceObject instanceId objectClass uid
  | deleteObject instanceId objectClass uid | addValues instanceId objectClass uid
  | removeValues instanceId objectClass uid => exact names_of_mutation rfl h
  | getObject instanceId objectClass uid =>
    cases e with
    | acquire id => exact h
    | get objectClass' uid' =>
      obtain ⟨rfl, rfl⟩ := h
      rfl
    | release | respond r => trivial
    | _ => cases h
  | search instanceId objectClass filter =>
    cases e with
    | acquire id => exact h
    | search objectClass' node =>
      obtain ⟨rfl, hnode⟩ := h
      exact ⟨⟨filter, rfl⟩, hfilter.symm.trans hnode⟩
    | release | respond r | finish => trivial
    | _ => cases h

theorem not_isProbe (c : Call) : ¬ c.handler.isProbe := by
  cases c <;> simp [handler, Handler.isProbe]

theorem names_of_request (plain : c.Plain) (hne : ∀ x ∈ c.components, x ≠ "") {e : HttpIo}
    (h : OfRequest (c.received unescapeBuffer token args randomUUID) e) : c.Names e := by
  have hhandle : handle (c.received unescapeBuffer token args randomUUID).method
      (c.received unescapeBuffer token args randomUUID).segments = some (c.handler, c.params) :=
    routed_of_plain plain hne
  cases h with
  | mapped h => trivial
  | probe routed isProbe h =>
    unfold handle at hhandle
    rw [routed, Option.bind_some] at hhandle
    obtain ⟨params, -, hparams⟩ := Option.map_eq_some_iff.1 hhandle
    rw [(Prod.mk.inj hparams).1] at isProbe
    exact absurd isProbe c.not_isProbe
  | token h => cases e <;> trivial
  | registration h =>
    cases e with
    | ensureApplication id =>
      obtain ⟨raw, params, hraw, hparams, rfl⟩ := h
      exact registered_instance plain hne hraw hparams
    | respond r => trivial
    | _ => cases h
  | noRoute unrouted =>
    rw [hhandle] at unrouted
    cases unrouted
  | options asked =>
    rw [asked, handle, findRoute_options] at hhandle
    cases hhandle
  | handler hbody routed h =>
    rw [hhandle] at routed
    obtain ⟨rfl, rfl⟩ := Prod.mk.inj (Option.some.inj routed)
    exact names_of_handler (filterOf_received plain hne) h

/-- **A call makes the service ask for what it names**, when the components of its path are plain: the registrar, the
connector and the store are asked for its instance, the connector for its object or its filter, and it holds a lease
of that instance then. -/
theorem call_asks {config : JwtConfig} {heard : HttpHeard} {e : HttpIo}
    {k : e.Answer → Prog HttpEffects (Except HttpError Unit)} (plain : c.Plain) (hne : ∀ x ∈ c.components, x ≠ "")
    (h : (app config (c.received unescapeBuffer token args randomUUID)).run.Reaches heard (.await e k)) :
    c.Names e ∧ (∀ x ∈ heard, c.Names x.1) ∧
      (needsLease e → leasesTaken heard = leasesReturned heard + 1) := by
  have only := app_only config (c.received unescapeBuffer token args randomUUID)
  refine ⟨names_of_request plain hne (Prog.Only.asked only h), fun x hx => ?_, fun needs => ?_⟩
  · exact names_of_request plain hne (Prog.Only.heard only h x hx)
  · rw [(recorded_app h).leases, leases_of_allows ((safe_app config _).reaches h fun _ _ => trivial).allowed needs]

end Names

def searchAda : Call := search "hr" "User" (some "name eq \"d'Ada + 1\"")

def searchHeard : HttpHeard :=
  (app plainJwtConfig (searchAda.received id "abcdefghijklmnopqrstuvwxyz" ⟨.null, none, none⟩
    "00000000-0000-4000-8000-000000000000")).run.transcript quietService

/-- The class and the filter of a search. -/
def searched : HttpIo → Option (String × Option Node)
  | .search objectClass filter => some (objectClass, filter)
  | _ => none

theorem eq_search {e : HttpIo} {objectClass : String} {filter : Option Node}
    (h : searched e = some (objectClass, filter)) : e = .search objectClass filter := by
  cases e <;> simp_all [searched]

theorem call_asks_search :
    ∃ heard k, (app plainJwtConfig (searchAda.received id "abcdefghijklmnopqrstuvwxyz" ⟨.null, none, none⟩
        "00000000-0000-4000-8000-000000000000")).run.Reaches heard
          (.await (HttpIo.search "User" (some (.cmp ⟨.op .EQ, ["name"], some (.string "d'Ada + 1")⟩))) k) ∧
      (∀ x ∈ heard, searchAda.Names x.1) ∧ leasesTaken heard = leasesReturned heard + 1 := by
  have h : ((searchHeard.drop 3).head?.bind fun x => searched x.1) =
      some ("User", some (.cmp ⟨.op .EQ, ["name"], some (.string "d'Ada + 1")⟩)) := by
    decide +kernel
  obtain ⟨x, hx, hsearched⟩ := Option.bind_eq_some_iff.1 h
  obtain ⟨after, hafter⟩ := List.head?_eq_some_iff.1 hx
  have hsplit : searchHeard = searchHeard.take 3 ++ x :: after := by
    rw [← hafter]
    exact (List.take_append_drop 3 searchHeard).symm
  obtain ⟨k, hk⟩ := @Prog.reaches_before HttpEffects _ quietService _ _ _ _ hsplit
  obtain ⟨e, a⟩ := x
  obtain rfl := eq_search hsearched
  have asks := call_asks (.of_written (by decide +kernel) (by decide)) (by decide) hk
  exact ⟨_, k, hk, asks.2.1, asks.2.2 rfl⟩

end Call

end Provisioning.Client
