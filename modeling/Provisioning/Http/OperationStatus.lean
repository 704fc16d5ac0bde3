import Provisioning.Lib.Calendar
import Provisioning.Lib.Numeral
import Provisioning.Ops.Admission
import Provisioning.Ops.PollHistory

/-!
# The status of an operation over HTTP

`GET /operations/:operationId` of `src/http/operationsRoutes.ts`: the body that it makes of what `getStatus`
reports. A field that is `undefined` is left out.
-/

namespace Provisioning

open Lib

/-! ## Texts -/

def OperationOutcome.text : OperationOutcome → String
  | .succeeded => "SUCCEEDED"
  | .rejectedPreDispatch => "REJECTED_PRE_DISPATCH"
  | .failedConfirmed => "FAILED_CONFIRMED"
  | .indeterminate => "INDETERMINATE"

def OperationPendingStatus.text : OperationPendingStatus → String
  | .pending => "PENDING"
  | .running => "RUNNING"
  | .awaitingReadback => "AWAITING_READBACK"

def OperationStatus.text : OperationStatus → String
  | .live p => p.text
  | .final outcome => outcome.text

theorem OperationOutcome.text_ne_empty (o : OperationOutcome) : o.text ≠ "" := by
  cases o <;> decide

/-- What counts as true in an `if`. -/
def Json.truthy : Json → Bool
  | .null => false
  | .bool b => b
  | .num text => Numeral.number text.toList ∉ [.finite 0, .negZero, .nan]
  | .str s => s ≠ ""
  | .arr _ | .obj _ => true

/-- The optional field of a body. -/
def Json.optional (name : String) : Option Json → List (String × Json)
  | none => []
  | some v => [(name, v)]

theorem Json.find?_optional (name key : String) (v : Option Json) :
    (Json.optional key v).find? (fun f => f.1 = name) = if key = name then v.map (key, ·) else none := by
  cases v <;> simp [Json.optional]

namespace Http

/-- `date.toISOString()` of a time in milliseconds since 1970. -/
def toISOString (time : Nat) : String :=
  let date := Date.ofDays (dayOf time)
  let year := if date.year < 10000 then padded 4 date.year else '+' :: padded 6 date.year
  String.ofList <|
    year ++ ['-'] ++ padded 2 date.month ++ ['-'] ++ padded 2 date.day ++ ['T'] ++ padded 2 (time / 3600000 % 24) ++
      [':'] ++ padded 2 (time / 60000 % 60) ++ [':'] ++ padded 2 (time / 1000 % 60) ++ ['.'] ++
      padded 3 (time % 1000) ++ ['Z']

/-! ## The response -/

structure Response where
  status : Nat
  body : Json

/-- The status, if it is one of `TERMINAL_STATUSES`. -/
def outcomeOf (status : OperationStatus) : Option OperationOutcome :=
  TERMINAL_STATUSES.find? fun outcome => status = .final outcome

theorem outcomeOf_live (p : OperationPendingStatus) : outcomeOf (.live p) = none := by
  simp [outcomeOf]

theorem outcomeOf_final (o : OperationOutcome) : outcomeOf (.final o) = some o := by
  cases o <;> rfl

/-- `result ? { uid: result.uid, object: result.object } : undefined`. -/
def resultBody (result : Option Json) : Option Json :=
  (result.filter Json.truthy).map fun result =>
    .obj (Json.optional "uid" (result.field "uid") ++ Json.optional "object" (result.field "object"))

def operationBody (row : OperationStatusRow) : Json :=
  .obj <|
    [("operationId", .str row.id), ("instanceId", .str row.instanceId), ("objectClass", .str row.objectClass),
      ("type", .str row.opType.text)] ++
    Json.optional "priority" (row.priority.map fun priority => .str priority.text) ++
    [("status", .str row.status.text)] ++
    Json.optional "outcome" ((outcomeOf row.status).map fun outcome => .str outcome.text) ++
    Json.optional "errorCode" (row.errorCode.map .str) ++
    [("attemptCount", .num (toString row.attemptCount))] ++
    Json.optional "result" (resultBody row.result) ++
    [("createdAt", .str (toISOString row.createdAt))] ++
    Json.optional "completedAt" (row.finalizedAt.map fun finalizedAt => .str (toISOString finalizedAt))

/-- What the route answers to the report of `store.getStatus`. -/
def getOperation : Option OperationStatusRow → Response
  | none => ⟨404, .obj [("error", .str "not_found"), ("message", .str "no operation with that id")]⟩
  | some row => ⟨200, operationBody row⟩

section Fields

variable (row : OperationStatusRow)

theorem operationBody_status : (operationBody row).field "status" = some (.str row.status.text) := by
  simp [operationBody, Json.field, List.find?_append, Json.find?_optional]

theorem operationBody_outcome :
    (operationBody row).field "outcome" = (outcomeOf row.status).map fun outcome => .str outcome.text := by
  simp [operationBody, Json.field, List.find?_append, Json.find?_optional]
  cases outcomeOf row.status <;> rfl

theorem operationBody_errorCode : (operationBody row).field "errorCode" = row.errorCode.map .str := by
  simp [operationBody, Json.field, List.find?_append, Json.find?_optional]
  cases row.errorCode <;> rfl

theorem operationBody_result : (operationBody row).field "result" = resultBody row.result := by
  simp [operationBody, Json.field, List.find?_append, Json.find?_optional]

theorem operationBody_completedAt :
    (operationBody row).field "completedAt" =
      row.finalizedAt.map fun finalizedAt => .str (toISOString finalizedAt) := by
  simp [operationBody, Json.field, List.find?_append, Json.find?_optional]
  cases row.finalizedAt <;> rfl

end Fields

end Http

/-! ## What is written only at the end -/

/-- The outcome, the time of completion, the error code and the result come together. -/
structure OperationStatusRow.Marked (row : OperationStatusRow) : Prop where
  dated : row.status.terminal ↔ row.finalizedAt.isSome
  blank : ¬ row.status.terminal → row.result = none ∧ row.errorCode = none

theorem Row.Change.marked {r r' : Row} (h : r.Change r') (inv : r.toStatus.Marked) : r'.toStatus.Marked := by
  -- A statement that leaves the row open writes none of the four.
  have live {p : OperationPendingStatus} (status : r.status = .live p) :
      r.finalizedAt = none ∧ r.result = none ∧ r.errorCode = none := by
    have hopen : ¬ r.toStatus.status.terminal := by simp [Row.toStatus, status]
    have hdate : ¬ r.toStatus.finalizedAt.isSome := fun h => hopen (inv.dated.2 h)
    exact ⟨by simpa [Row.toStatus] using hdate, inv.blank hopen⟩
  cases h with
  | same => exact inv
  | claimed now status idle => constructor <;> simp [Row.toStatus, Row.claimed, live status]
  | finalized outcome result errorCode now hopen => constructor <;> simp [Row.toStatus, Row.finalized]
  | requeued status => constructor <;> simp [Row.toStatus, Row.requeued, live status]
  | deferred notBefore status => constructor <;> simp [Row.toStatus, Row.deferred, live status]
  | reaped status opType => constructor <;> simp [Row.toStatus, Row.reaped, live status]

namespace Db

variable {advisoryLockKey : String → BitVec 64} {db db' : Db} {a : DbAction}

def Marked (db : Db) : Prop := ∀ r ∈ db.tables.operations, r.toStatus.Marked

theorem Marked.step (inv : db.Marked) (sound : db.Sound) (h : db.Stepped advisoryLockKey a db') : db'.Marked := by
  intro r' hr'
  rcases (h.rows sound.wellFormed).origin hr' with ⟨r, hr, hc⟩ | ⟨e, he, hp⟩
  · exact hc.marked (inv r hr)
  · rw [(sound.wellFormed.ids.uncommitted e he r' hp).2.2]
    constructor <;> simp [Row.toStatus, EnqueueInput.newRow]

theorem marked_run {now : Nat} {partitions : List Nat}
    (reached : Runs (Db.step advisoryLockKey) anyStep (start now partitions) db) : db.Marked :=
  (sound_start now partitions).keeps (by simp [Marked, start]) (fun _ _ _ inv sound h => inv.step sound h) reached

end Db

namespace Http

open Db in
theorem getStatus_marked {advisoryLockKey : String → BitVec 64} {now : Nat} {partitions : List Nat} {hot cold : Db}
    {id : String} {row : OperationStatusRow}
    (reached : Runs (Db.step advisoryLockKey) anyStep (start now partitions) hot)
    (between : Runs (Db.step advisoryLockKey) anyStep hot cold)
    (report : OperationStore.getStatus hot.tables cold.tables id = some row) : row.Marked := by
  cases hid : operationIdOf id with
  | none => simp [OperationStore.getStatus, hid] at report
  | some u =>
    rcases getStatus_cases hid report with ⟨r, hr, rfl⟩ | ⟨-, x, hx, rfl⟩
    · exact marked_run reached r (lookup_some_mem hr).1
    · have final := ((sound_start now partitions).run (reached.trans between)).answerable.final x
        (history?_eq_some_mem hx).1
      exact ⟨by simp [HistoryRow.toStatus, final.1], fun hopen => absurd final.1 hopen⟩

open Db in
/-- **A response has an outcome exactly when it has a time of completion**, the outcome is the status, and without
one there is no error code and no result. -/
theorem operationBody_whole {advisoryLockKey : String → BitVec 64} {now : Nat} {partitions : List Nat}
    {hot cold : Db} {id : String} {row : OperationStatusRow}
    (reached : Runs (Db.step advisoryLockKey) anyStep (start now partitions) hot)
    (between : Runs (Db.step advisoryLockKey) anyStep hot cold)
    (report : OperationStore.getStatus hot.tables cold.tables id = some row) :
    (((operationBody row).field "outcome").isSome ↔ ((operationBody row).field "completedAt").isSome) ∧
      (∀ outcome, (operationBody row).field "outcome" = some outcome →
        (operationBody row).field "status" = some outcome ∧ outcome.truthy) ∧
      ((operationBody row).field "outcome" = none →
        (operationBody row).field "errorCode" = none ∧ (operationBody row).field "result" = none) := by
  have marked := getStatus_marked reached between report
  rw [operationBody_outcome, operationBody_completedAt, operationBody_status, operationBody_errorCode,
    operationBody_result]
  have dated := marked.dated
  have blank := marked.blank
  cases hst : row.status with
  | live p =>
    simp only [hst, OperationStatus.not_terminal_live, false_iff, not_false_eq_true, forall_const] at dated blank
    obtain ⟨hresult, herror⟩ := blank
    simp [outcomeOf_live, hresult, herror, resultBody, dated]
  | final o =>
    simp only [hst, OperationStatus.terminal_final, true_iff] at dated
    simp [outcomeOf_final, dated, OperationStatus.text, Json.truthy, o.text_ne_empty]

open Db in
/-- An update that the target refuses. -/
theorem operationBody_whole_refused :
    ∃ db row, Lib.exec (Db.step fun _ => 0) anyStep (start 0 [0])
        (pollAccepted ++ [.finalize (Uuid.text 7) .failedConfirmed none (some "INVALID_ATTRIBUTE") 0]) = some db ∧
      OperationStore.getStatus db.tables db.tables (Uuid.text 7) = some row ∧
      (operationBody row).field "outcome" = some (.str "FAILED_CONFIRMED") ∧
      ((operationBody row).field "completedAt").isSome := by
  have h : ((Lib.exec (Db.step fun _ => 0) anyStep (start 0 [0])
      (pollAccepted ++ [.finalize (Uuid.text 7) .failedConfirmed none (some "INVALID_ATTRIBUTE") 0])).bind fun db =>
        (OperationStore.getStatus db.tables db.tables (Uuid.text 7)).map (·.status)) =
      some (.final .failedConfirmed) := by
    decide
  obtain ⟨db, hdb, h⟩ := Option.bind_eq_some_iff.1 h
  obtain ⟨row, hrow, hst⟩ := Option.map_eq_some_iff.1 h
  have houtcome : (operationBody row).field "outcome" = some (.str "FAILED_CONFIRMED") := by
    rw [operationBody_outcome, hst]
    rfl
  refine ⟨db, row, hdb, hrow, houtcome, ?_⟩
  apply (operationBody_whole (runs_of_exec hdb) .start hrow).1.1
  rw [houtcome]
  rfl

end Http

end Provisioning
