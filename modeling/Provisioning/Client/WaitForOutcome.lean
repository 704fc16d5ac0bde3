import Provisioning.Client.Paths
import Provisioning.Http.OperationStatus

/-!
# Waiting for an outcome

`clients/node/src/waitForOutcome.js`: the loop that polls an operation, next to a service that works on its own.
The clock is the client's `Date.now()`, which does not go back.
-/

namespace Provisioning.Client

open Lib Lib.UrlPath Http

/-! ## The path of a poll -/

def pollRequest (operationId : String) : Request := ⟨.get, s!"/operations/{operationId}"⟩

/-- The id that the server looks up. -/
def polledId (operationId : String) : Option String :=
  (handle (pollRequest operationId).method (parsePath (pollRequest operationId).path.toList)).bind fun found =>
    if found.1 = .getOperation then (found.2.find? fun p => p.1 = "operationId").map Prod.snd else none

theorem hexDigits_written {n v : Nat} {c : Char} (hc : c ∈ hexDigits n v) :
    c ∉ ['/', '\\', '?', '#', '%', '\t', '\n', '\r', '.'] ∧ ¬ isC0OrSpace c := by
  have hdigits : ∀ d < 16, Nat.digitChar d ∉ ['/', '\\', '?', '#', '%', '\t', '\n', '\r', '.'] ∧
      ¬ isC0OrSpace (Nat.digitChar d) := by decide
  induction n generalizing v with
  | zero => simp [hexDigits] at hc
  | succ n ih =>
    rcases List.mem_append.1 hc with hc | hc
    · exact ih hc
    · rw [List.mem_singleton.1 hc]
      exact hdigits _ (Nat.mod_lt _ (by omega))

theorem mem_renderGroups {sizes : List Nat} {cs : List Char} {c : Char} (hc : c ∈ renderGroups sizes cs) :
    c = '-' ∨ c ∈ cs := by
  induction sizes generalizing cs with
  | nil => simp [renderGroups] at hc
  | cons n sizes ih =>
    cases sizes with
    | nil => exact .inr (List.mem_of_mem_take hc)
    | cons m sizes =>
      rw [renderGroups] at hc
      · rcases List.mem_append.1 hc with hc | hc
        · exact .inr (List.mem_of_mem_take hc)
        · rcases List.mem_cons.1 hc with rfl | hc
          · exact .inl rfl
          · exact (ih hc).imp_right List.mem_of_mem_drop
      · simp

theorem text_written (u : Uuid) :
    ∀ c ∈ u.text.toList, c ∉ ['/', '\\', '?', '#', '%', '\t', '\n', '\r', '.'] ∧ ¬ isC0OrSpace c := by
  intro c hc
  rw [Uuid.text_toList] at hc
  rcases mem_renderGroups hc with rfl | hc
  · decide
  · exact hexDigits_written hc

theorem text_ne_nil (u : Uuid) : u.text.toList ≠ [] := by
  rw [Uuid.text_toList]
  unfold UUID_RE
  rw [renderGroups] <;> simp

section Polled

variable {operationId : String}

def statusRoute : Route := ⟨.get, [.text "operations", .param "operationId"], .getOperation⟩

theorem statusRoute_mem : statusRoute ∈ createApp := by
  simp [statusRoute, createApp, createOperationsRouter]

theorem pollRequest_toList :
    (pollRequest operationId).path.toList = UrlPath.render (fill statusRoute.path [operationId]) ++ [] := by
  simp [pollRequest, statusRoute, fill, UrlPath.render, toString]

theorem poll_segments {operationId : String} {p : List Char → Prop} (htext : p "operations".toList)
    (hid : p operationId.toList) : ∀ s ∈ fill statusRoute.path [operationId], p s := by
  intro s hs
  simp only [statusRoute, fill, List.mem_cons, List.not_mem_nil, or_false] at hs
  rcases hs with rfl | rfl
  · exact htext
  · exact hid

theorem written_kept {text : List Char} (written : Call.Written text) :
    ∀ c ∈ text, ¬ isTabOrNewline c ∧ ¬ endsPath c := by
  intro c hc
  have hmem := written.chars c hc
  simp only [List.mem_cons, not_or] at hmem
  simp only [isTabOrNewline, endsPath, List.mem_cons, List.not_mem_nil, or_false, decide_eq_true_eq]
  tauto

theorem poll_readable (written : Call.Written operationId.toList) (hne : operationId.toList ≠ [])
    (hend : ∀ c ∈ operationId.toList.getLast?, ¬ isC0OrSpace c) :
    Readable (UrlPath.render (fill statusRoute.path [operationId])) [] := by
  have hwritten : Call.Written "operations".toList := by decide
  refine ⟨(forall_mem_render (by decide)).2 (poll_segments (written_kept hwritten) (written_kept written)), ?_⟩
  intro _
  have hlast : (fill statusRoute.path [operationId]).getLast? = some operationId.toList := rfl
  rw [getLast?_render hlast hne]
  exact hend

theorem polledId_of_written (written : Call.Written operationId.toList) (hne : operationId.toList ≠ [])
    (hend : ∀ c ∈ operationId.toList.getLast?, ¬ isC0OrSpace c) : polledId operationId = some operationId := by
  have hwritten : Call.Written "operations".toList := by decide
  have hparse : parsePath (pollRequest operationId).path.toList =
      (fill statusRoute.path [operationId]).map (percentEncode inPathSet) := by
    rw [pollRequest_toList]
    exact parsePath_render (.inl rfl) (poll_readable written hne hend)
      (poll_segments hwritten.plainSegment written.plainSegment)
  have hfind := @findRoute_fill [operationId] statusRoute statusRoute_mem (by simpa using hne) rfl
  have hdecode := @decodeParams_zip [operationId] (names statusRoute.path) (by simpa using written.plainSegment)
  have hhandle : handle .get (parsePath (pollRequest operationId).path.toList) =
      some (.getOperation, [("operationId", operationId)]) := by
    unfold handle
    rw [hparse]
    have hmethod : Method.get = statusRoute.method := rfl
    rw [hmethod, hfind, Option.bind_some, hdecode]
    rfl
  unfold polledId
  have hmethod : (pollRequest operationId).method = .get := rfl
  rw [hmethod, hhandle]
  simp

end Polled

theorem dot_not_written (u : Uuid) : '.' ∉ u.text.toList := by
  intro hmem
  exact (text_written u '.' hmem).1 (by simp)

theorem polledId_text (u : Uuid) : polledId u.text = some u.text := by
  have hdot := dot_not_written u
  have written := text_written u
  have hne := text_ne_nil u
  generalize u.text = operationId at hdot written hne ⊢
  apply polledId_of_written _ hne
  · exact fun c hc => (written c (List.mem_of_getLast? hc)).2
  · refine ⟨fun c hc hmem => (written c hc).1 (List.mem_append_left ['.'] hmem), fun h => ?_, fun h => ?_⟩
    · exact hdot (by simp [h])
    · exact hdot (by simp [h])

/-! ## The loop -/

structure WaitOptions where
  pollMs : Nat := 500
  timeoutMs : Nat := 30000

inductive WaitError where
  | timeout (operationId : String) (timeoutMs : Nat)
  | notFound (problem : Json)
  /-- Whatever else `call` throws. -/
  | failed

inductive WaitPhase where
  /-- At the condition of the loop. -/
  | testing
  | requesting
  /-- The route has run the first query of `getStatus`. -/
  | querying (hot : Tables)
  | responded (response : Response)
  | sleeping (wakeAt : Nat)
  | resolved (state : Json)
  | rejected (e : WaitError)

structure Waiting where
  db : Db
  clock : Nat
  deadline : Nat
  polls : Nat
  phase : WaitPhase

def waitForOutcome (opts : WaitOptions) (db : Db) (clock : Nat) : Waiting where
  db := db
  clock := clock
  deadline := clock + opts.timeoutMs
  polls := 0
  phase := .testing

/-- The milliseconds after which a timer fires: one for every delay that it cannot hold. -/
def setTimeout (ms : Nat) : Nat := if 1 ≤ ms ∧ ms ≤ 2147483647 then ms else 1

/-- From the response of `call` to the end of the loop's body. -/
def onResponse (opts : WaitOptions) (clock : Nat) (response : Response) : WaitPhase :=
  if 400 ≤ response.status then
    .rejected (if response.status = 404 then .notFound response.body else .failed)
  else if ((response.body.field "outcome").filter Json.truthy).isSome then .resolved response.body
  else .sleeping (clock + setTimeout opts.pollMs)

inductive WaitAction where
  | database (a : DbAction)
  | tick (ms : Nat)
  | test
  | queryHot
  | queryCold
  | receive
  /-- No token, no response, or one that another part of the server makes. -/
  | fail
  | wake

namespace Waiting

def step (advisoryLockKey : String → BitVec 64) (operationId : String) (opts : WaitOptions) (w : Waiting) :
    WaitAction → Option Waiting
  | .database a => (w.db.step advisoryLockKey a).map fun db => { w with db := db }
  | .tick ms => some { w with clock := w.clock + ms }
  | .test =>
    match w.phase with
    | .testing =>
      if w.clock < w.deadline then some { w with phase := .requesting, polls := w.polls + 1 }
      else some { w with phase := .rejected (.timeout operationId opts.timeoutMs) }
    | _ => none
  | .queryHot =>
    match w.phase with
    | .requesting => some { w with phase := .querying w.db.tables }
    | _ => none
  | .queryCold =>
    match w.phase, polledId operationId with
    | .querying hot, some id =>
      some { w with phase := .responded (getOperation (OperationStore.getStatus hot w.db.tables id)) }
    | _, _ => none
  | .receive =>
    match w.phase with
    | .responded response => some { w with phase := onResponse opts w.clock response }
    | _ => none
  | .fail =>
    match w.phase with
    | .requesting | .querying _ | .responded _ => some { w with phase := .rejected .failed }
    | _ => none
  | .wake =>
    match w.phase with
    | .sleeping wakeAt => if wakeAt ≤ w.clock then some { w with phase := .testing } else none
    | _ => none

variable {advisoryLockKey : String → BitVec 64} {operationId : String} {opts : WaitOptions} {w w' : Waiting}
  {a : WaitAction}

/-- What a step of the loop does. -/
inductive Moves (operationId : String) (opts : WaitOptions) (w : Waiting) : Waiting → Prop
  | request (phase : w.phase = .testing) (early : w.clock < w.deadline) :
      Moves operationId opts w { w with phase := .requesting, polls := w.polls + 1 }
  | timeout (phase : w.phase = .testing) (late : w.deadline ≤ w.clock) :
      Moves operationId opts w { w with phase := .rejected (.timeout operationId opts.timeoutMs) }
  | queryHot (phase : w.phase = .requesting) : Moves operationId opts w { w with phase := .querying w.db.tables }
  | queryCold {hot : Tables} {id : String} (phase : w.phase = .querying hot) (hid : polledId operationId = some id) :
      Moves operationId opts w
        { w with phase := .responded (getOperation (OperationStore.getStatus hot w.db.tables id)) }
  | receive {response : Response} (phase : w.phase = .responded response) :
      Moves operationId opts w { w with phase := onResponse opts w.clock response }
  | fail (phase : w.phase = .requesting ∨ (∃ hot, w.phase = .querying hot) ∨ ∃ r, w.phase = .responded r) :
      Moves operationId opts w { w with phase := .rejected .failed }
  | wake {wakeAt : Nat} (phase : w.phase = .sleeping wakeAt) (due : wakeAt ≤ w.clock) :
      Moves operationId opts w { w with phase := .testing }

theorem step_cases (h : step advisoryLockKey operationId opts w a = some w') :
    (∃ b db, a = .database b ∧ w.db.step advisoryLockKey b = some db ∧ w' = { w with db := db }) ∨
      (∃ ms, w' = { w with clock := w.clock + ms }) ∨ Moves operationId opts w w' := by
  cases a with
  | database b =>
    obtain ⟨db, hdb, rfl⟩ := Option.map_eq_some_iff.1 h
    exact .inl ⟨b, db, rfl, hdb, rfl⟩
  | tick ms => exact .inr (.inl ⟨ms, (Option.some.inj h).symm⟩)
  | test =>
    unfold step at h
    simp only at h
    split at h
    · rename_i hphase
      split at h
      · rename_i hearly
        obtain rfl := Option.some.inj h
        exact .inr (.inr (.request hphase hearly))
      · rename_i hlate
        obtain rfl := Option.some.inj h
        exact .inr (.inr (.timeout hphase (Nat.le_of_not_lt hlate)))
    · simp at h
  | queryHot =>
    unfold step at h
    simp only at h
    split at h
    · rename_i hphase
      obtain rfl := Option.some.inj h
      exact .inr (.inr (.queryHot hphase))
    · simp at h
  | queryCold =>
    unfold step at h
    simp only at h
    split at h
    · rename_i hphase hid
      obtain rfl := Option.some.inj h
      exact .inr (.inr (.queryCold hphase hid))
    · simp at h
  | receive =>
    unfold step at h
    simp only at h
    split at h
    · rename_i hphase
      obtain rfl := Option.some.inj h
      exact .inr (.inr (.receive hphase))
    · simp at h
  | fail =>
    unfold step at h
    simp only at h
    split at h
    · rename_i hphase
      obtain rfl := Option.some.inj h
      exact .inr (.inr (.fail (.inl hphase)))
    · rename_i hphase
      obtain rfl := Option.some.inj h
      exact .inr (.inr (.fail (.inr (.inl ⟨_, hphase⟩))))
    · rename_i hphase
      obtain rfl := Option.some.inj h
      exact .inr (.inr (.fail (.inr (.inr ⟨_, hphase⟩))))
    · simp at h
  | wake =>
    unfold step at h
    simp only at h
    split at h
    · rename_i hphase
      obtain ⟨hdue, h⟩ := Option.ite_none_right_eq_some.1 h
      obtain rfl := Option.some.inj h
      exact .inr (.inr (.wake hphase hdue))
    · simp at h

/-! ## What was heard -/

/-- `row` is the report of a poll that ended before. -/
def Seen (advisoryLockKey : String → BitVec 64) (u : Uuid) (row : OperationStatusRow) (db : Db) : Prop :=
  ∃ hot cold : Db, hot.Reachable advisoryLockKey ∧ Runs (Db.step advisoryLockKey) anyStep hot cold ∧
    Runs (Db.step advisoryLockKey) anyStep cold db ∧
    OperationStore.getStatus hot.tables cold.tables u.text = some row

/-- The tables were those of an earlier state. -/
def Began (advisoryLockKey : String → BitVec 64) (tables : Tables) (db : Db) : Prop :=
  ∃ hot : Db, hot.tables = tables ∧ hot.Reachable advisoryLockKey ∧ Runs (Db.step advisoryLockKey) anyStep hot db

structure Heard (advisoryLockKey : String → BitVec 64) (u : Uuid) (w : Waiting) : Prop where
  reached : w.db.Reachable advisoryLockKey
  querying : ∀ hot, w.phase = .querying hot → Began advisoryLockKey hot w.db
  responded : ∀ response, w.phase = .responded response →
    response = getOperation none ∨ ∃ row, response = ⟨200, operationBody row⟩ ∧ Seen advisoryLockKey u row w.db
  resolved : ∀ state, w.phase = .resolved state →
    ∃ row, state = operationBody row ∧ row.status.terminal ∧ Seen advisoryLockKey u row w.db

variable {u : Uuid}

theorem reachable_run {db db' : Db} (reached : db.Reachable advisoryLockKey)
    (run : Runs (Db.step advisoryLockKey) anyStep db db') : db'.Reachable advisoryLockKey := by
  obtain ⟨now, partitions, before⟩ := reached
  exact ⟨now, partitions, before.trans run⟩

theorem reachable_sound {db : Db} (reached : db.Reachable advisoryLockKey) : db.Sound := by
  obtain ⟨now, partitions, before⟩ := reached
  exact (Db.sound_start now partitions).run before

theorem Seen.later {row : OperationStatusRow} {db db' : Db} (seen : Seen advisoryLockKey u row db)
    (run : Runs (Db.step advisoryLockKey) anyStep db db') : Seen advisoryLockKey u row db' := by
  obtain ⟨hot, cold, reached, between, after, report⟩ := seen
  exact ⟨hot, cold, reached, between, after.trans run, report⟩

theorem Began.later {tables : Tables} {db db' : Db} (began : Began advisoryLockKey tables db)
    (run : Runs (Db.step advisoryLockKey) anyStep db db') : Began advisoryLockKey tables db' := by
  obtain ⟨hot, htables, reached, after⟩ := began
  exact ⟨hot, htables, reached, after.trans run⟩

theorem onResponse_operationBody (clock : Nat) (row : OperationStatusRow) :
    onResponse opts clock ⟨200, operationBody row⟩ =
      if row.status.terminal then .resolved (operationBody row) else .sleeping (clock + setTimeout opts.pollMs) := by
  unfold onResponse
  rw [if_neg (by simp), operationBody_outcome]
  cases row.status with
  | live p => simp [outcomeOf_live]
  | final o => simp [outcomeOf_final, Json.truthy, o.text_ne_empty]

theorem Heard.database (inv : Heard advisoryLockKey u w) {b : DbAction} {db : Db}
    (h : w.db.step advisoryLockKey b = some db) : Heard advisoryLockKey u { w with db := db } := by
  have run : Runs (Db.step advisoryLockKey) anyStep w.db db := .next .start h trivial
  constructor
  · exact reachable_run inv.reached run
  · exact fun hot hphase => (inv.querying hot hphase).later run
  · intro response hphase
    refine (inv.responded response hphase).imp_right fun ⟨row, hresponse, seen⟩ => ?_
    exact ⟨row, hresponse, seen.later run⟩
  · intro state hphase
    obtain ⟨row, hstate, terminal, seen⟩ := inv.resolved state hphase
    exact ⟨row, hstate, terminal, seen.later run⟩

theorem Heard.quiet (inv : Heard advisoryLockKey u w) {phase : WaitPhase} {polls : Nat}
    (querying : ∀ hot, phase ≠ .querying hot) (responded : ∀ response, phase ≠ .responded response)
    (resolved : ∀ state, phase ≠ .resolved state) :
    Heard advisoryLockKey u { w with phase := phase, polls := polls } where
  reached := inv.reached
  querying hot h := absurd h (querying hot)
  responded response h := absurd h (responded response)
  resolved state h := absurd h (resolved state)

theorem Heard.moves (inv : Heard advisoryLockKey u w) (h : Moves u.text opts w w') : Heard advisoryLockKey u w' := by
  cases h with
  | request | timeout | fail | wake => apply inv.quiet <;> simp
  | queryHot phase =>
    refine ⟨inv.reached, fun hot hphase => ?_, by simp, by simp⟩
    exact ⟨w.db, WaitPhase.querying.inj hphase, inv.reached, .start⟩
  | queryCold phase hid =>
    rw [polledId_text u] at hid
    obtain rfl := Option.some.inj hid
    obtain ⟨hot, rfl, reached, after⟩ := inv.querying _ phase
    refine ⟨inv.reached, by simp, fun response hphase => ?_, by simp⟩
    obtain rfl := WaitPhase.responded.inj hphase
    cases hreport : OperationStore.getStatus hot.tables w.db.tables u.text with
    | none => exact .inl rfl
    | some row => exact .inr ⟨row, rfl, hot, w.db, reached, after, .start, hreport⟩
  | receive phase =>
    rcases inv.responded _ phase with rfl | ⟨row, rfl, seen⟩
    · apply inv.quiet <;> simp [onResponse, getOperation]
    · rw [onResponse_operationBody]
      split
      · rename_i terminal
        refine ⟨inv.reached, by simp, by simp, fun state hphase => ?_⟩
        exact ⟨row, (WaitPhase.resolved.inj hphase).symm, terminal, seen⟩
      · apply inv.quiet <;> simp

theorem Heard.run {w₀ : Waiting} (inv : Heard advisoryLockKey u w₀)
    (run : Runs (step advisoryLockKey u.text opts) anyStep w₀ w) : Heard advisoryLockKey u w := by
  refine run.invariant _ inv fun w a w' inv h _ => ?_
  rcases step_cases h with ⟨b, db, -, hdb, rfl⟩ | ⟨ms, rfl⟩ | moves
  · exact inv.database hdb
  · exact ⟨inv.reached, inv.querying, inv.responded, inv.resolved⟩
  · exact inv.moves moves

/-! ## When every poll finds the operation -/

/-- No drop takes an accepted operation that is not terminal. -/
def dropsFinished (w : Waiting) (a : WaitAction) (w' : Waiting) : Prop :=
  match a with
  | .database b => w.db.dropsFinished b w'.db
  | _ => True

instance : Decidable (dropsFinished w a w') :=
  match a with
  | .database b => inferInstanceAs (Decidable (w.db.dropsFinished b w'.db))
  | .tick _ | .test | .queryHot | .queryCold | .receive | .fail | .wake => .isTrue trivial

structure Found (advisoryLockKey : String → BitVec 64) (u : Uuid) (w : Waiting) : Prop where
  accepted : w.db.Accepted
  returned : ∃ x ∈ w.db.answers, x.result.id = u.text
  querying : ∀ hot, w.phase = .querying hot →
    ∃ db : Db, db.tables = hot ∧ db.Sound ∧ db.Known u ∧ Runs (Db.step advisoryLockKey) anyStep db w.db
  responded : ∀ response, w.phase = .responded response → response.status = 200
  found : ∀ problem, w.phase ≠ .rejected (.notFound problem)

theorem Found.known (inv : Found advisoryLockKey u w) : w.db.Known u :=
  inv.accepted.answered.given u (.inl inv.returned)

theorem Found.database (inv : Found advisoryLockKey u w) {b : DbAction} {db : Db}
    (h : w.db.step advisoryLockKey b = some db) (spared : w.db.dropsFinished b db) :
    Found advisoryLockKey u { w with db := db } where
  accepted := inv.accepted.step (Db.stepped h) spared
  returned := inv.returned.imp fun _ hx => ⟨(Db.stepped h).answers_subset hx.1, hx.2⟩
  querying hot hphase := by
    obtain ⟨before, htables, sound, known, after⟩ := inv.querying hot hphase
    exact ⟨before, htables, sound, known, .next after h trivial⟩
  responded := inv.responded
  found := inv.found

theorem Found.moves (inv : Found advisoryLockKey u w) (h : Moves u.text opts w w') : Found advisoryLockKey u w' := by
  cases h with
  | request | timeout | fail | wake => refine ⟨inv.accepted, inv.returned, ?_, ?_, ?_⟩ <;> simp
  | queryHot phase =>
    refine ⟨inv.accepted, inv.returned, fun hot hphase => ?_, by simp, by simp⟩
    exact ⟨w.db, WaitPhase.querying.inj hphase, inv.accepted.toSound, inv.known, .start⟩
  | queryCold phase hid =>
    rw [polledId_text u] at hid
    obtain rfl := Option.some.inj hid
    obtain ⟨hot, rfl, sound, known, after⟩ := inv.querying _ phase
    refine ⟨inv.accepted, inv.returned, by simp, fun response hphase => ?_, by simp⟩
    obtain rfl := WaitPhase.responded.inj hphase
    obtain ⟨row, hrow⟩ := Option.isSome_iff_exists.1 (sound.getStatus_of_known after (operationIdOf_text u) known)
    rw [hrow]
    rfl
  | receive phase =>
    have ok := inv.responded _ phase
    refine ⟨inv.accepted, inv.returned, ?_, ?_, ?_⟩ <;> unfold onResponse <;> rw [if_neg (by omega)] <;> split <;> simp

theorem Found.run {w₀ : Waiting} (inv : Found advisoryLockKey u w₀)
    (run : Runs (step advisoryLockKey u.text opts) dropsFinished w₀ w) : Found advisoryLockKey u w := by
  refine run.invariant _ inv fun w a w' inv h spared => ?_
  rcases step_cases h with ⟨b, db, rfl, hdb, rfl⟩ | ⟨ms, rfl⟩ | moves
  · exact inv.database hdb spared
  · exact ⟨inv.accepted, inv.returned, inv.querying, inv.responded, inv.found⟩
  · exact inv.moves moves

/-! ## The time between polls -/

structure Paced (operationId : String) (opts : WaitOptions) (begun : Nat) (w : Waiting) : Prop where
  deadline : w.deadline = begun + opts.timeoutMs
  few : w.polls = 0 ∨ (w.polls - 1) * setTimeout opts.pollMs < opts.timeoutMs
  spaced : begun + (w.polls - 1) * setTimeout opts.pollMs ≤ w.clock
  testing : w.phase = .testing → begun + w.polls * setTimeout opts.pollMs ≤ w.clock
  sleeping : ∀ wakeAt, w.phase = .sleeping wakeAt → begun + w.polls * setTimeout opts.pollMs ≤ wakeAt
  calling : w.phase = .requesting ∨ (∃ hot, w.phase = .querying hot) ∨ (∃ r, w.phase = .responded r) →
    0 < w.polls
  timeout : ∀ id ms, w.phase = .rejected (.timeout id ms) →
    id = operationId ∧ ms = opts.timeoutMs ∧ w.deadline ≤ w.clock

theorem Paced.moves {begun : Nat} (inv : Paced operationId opts begun w) (h : Moves operationId opts w w') :
    Paced operationId opts begun w' := by
  cases h with
  | request phase early =>
    have spaced := inv.testing phase
    have deadline := inv.deadline
    refine ⟨inv.deadline, .inr ?_, ?_, by simp, by simp, by simp, by simp⟩
    · simp only [Nat.add_sub_cancel]
      omega
    · simpa using spaced
  | timeout phase late =>
    refine ⟨inv.deadline, inv.few, inv.spaced, by simp, by simp, by simp, fun id ms hphase => ?_⟩
    obtain ⟨rfl, rfl⟩ := WaitError.timeout.inj (WaitPhase.rejected.inj hphase)
    exact ⟨rfl, rfl, late⟩
  | queryHot phase =>
    exact ⟨inv.deadline, inv.few, inv.spaced, by simp, by simp, fun _ => inv.calling (.inl phase), by simp⟩
  | queryCold phase =>
    exact ⟨inv.deadline, inv.few, inv.spaced, by simp, by simp, fun _ => inv.calling (.inr (.inl ⟨_, phase⟩)),
      by simp⟩
  | fail => exact ⟨inv.deadline, inv.few, inv.spaced, by simp, by simp, by simp, by simp⟩
  | wake phase due =>
    refine ⟨inv.deadline, inv.few, inv.spaced, fun _ => ?_, by simp, by simp, by simp⟩
    exact Nat.le_trans (inv.sleeping _ phase) due
  | receive phase =>
    have positive := inv.calling (.inr (.inr ⟨_, phase⟩))
    have spaced := inv.spaced
    have next : w.polls * setTimeout opts.pollMs = (w.polls - 1) * setTimeout opts.pollMs + setTimeout opts.pollMs := by
      rw [← Nat.succ_mul, Nat.succ_eq_add_one, Nat.sub_add_cancel positive]
    unfold onResponse
    constructor
    · exact inv.deadline
    · exact inv.few
    · exact inv.spaced
    · simp only
      split <;> [skip; split] <;> simp
    · intro wakeAt
      simp only
      split <;> [skip; split] <;> simp
      rintro rfl
      omega
    · simp only
      split <;> [skip; split] <;> simp
    · intro id ms
      simp only
      split <;> [split; split] <;> simp

theorem Paced.run {begun : Nat} {w₀ : Waiting} (inv : Paced operationId opts begun w₀)
    (run : Runs (step advisoryLockKey operationId opts) anyStep w₀ w) : Paced operationId opts begun w := by
  refine run.invariant _ inv fun w a w' inv h _ => ?_
  rcases step_cases h with ⟨b, db, -, hdb, rfl⟩ | ⟨ms, rfl⟩ | moves
  · exact ⟨inv.deadline, inv.few, inv.spaced, inv.testing, inv.sleeping, inv.calling, inv.timeout⟩
  · refine ⟨inv.deadline, inv.few, ?_, fun h => ?_, inv.sleeping, inv.calling, fun id ms h => ?_⟩
    · exact Nat.le_trans inv.spaced (Nat.le_add_right _ _)
    · exact Nat.le_trans (inv.testing h) (Nat.le_add_right _ _)
    · obtain ⟨hid, hms, hlate⟩ := inv.timeout id ms h
      exact ⟨hid, hms, Nat.le_trans hlate (Nat.le_add_right _ _)⟩
  · exact inv.moves moves

/-! ## The results -/

theorem Seen.final {row : OperationStatusRow} {db hot cold : Db} (seen : Seen advisoryLockKey u row db)
    (terminal : row.status.terminal) (later : Runs (Db.step advisoryLockKey) anyStep db hot)
    (between : Runs (Db.step advisoryLockKey) anyStep hot cold) :
    ∃ row', OperationStore.getStatus hot.tables cold.tables u.text = some row' ∧ row'.status = row.status := by
  obtain ⟨first, second, reached, run, after, report⟩ := seen
  have sound := reachable_sound reached
  obtain ⟨x, hx, hst⟩ := sound.recorded run (operationIdOf_text u) report terminal
  have toHot := after.trans later
  obtain ⟨row', hrow', hst'⟩ := ((sound.run run).run toHot).getStatus_of_recorded between (operationIdOf_text u)
    (Db.history_kept_run toHot hx)
  exact ⟨row', hrow', hst'.trans hst⟩

theorem accepted_id {db : Db} (reached : db.Reachable advisoryLockKey)
    (accepted : ∃ x ∈ db.answers, x.result.id = operationId) : ∃ u : Uuid, operationId = u.text := by
  obtain ⟨x, hx, rfl⟩ := accepted
  obtain ⟨now, partitions, before⟩ := reached
  obtain ⟨u, hu, -⟩ := (Db.spent_run before).of_answer hx
  exact ⟨u, hu⟩

theorem heard_start {db : Db} (reached : db.Reachable advisoryLockKey) (clock : Nat) :
    Heard advisoryLockKey u (waitForOutcome opts db clock) := by
  constructor <;> simp [waitForOutcome, reached]

theorem found_start {db : Db} (accepted : db.Accepted) (returned : ∃ x ∈ db.answers, x.result.id = u.text)
    (clock : Nat) : Found advisoryLockKey u (waitForOutcome opts db clock) := by
  constructor <;> simp [waitForOutcome, accepted, returned]

theorem paced_start (db : Db) (clock : Nat) : Paced operationId opts clock (waitForOutcome opts db clock) := by
  constructor <;> simp [waitForOutcome]

/-- **A call of `waitForOutcome` for an accepted operation**, next to a service that does anything, resolves only with
an outcome that stays, gives up only after its time, and polls no more often than its time allows. It never hears
that there is no such operation, as long as no drop takes an accepted operation that is not terminal. -/
theorem waitForOutcome_correct {db : Db} {clock : Nat} (reached : db.Reachable advisoryLockKey)
    (accepted : ∃ x ∈ db.answers, x.result.id = operationId)
    (run : Runs (step advisoryLockKey operationId opts) anyStep (waitForOutcome opts db clock) w) :
    (∀ now partitions, Runs (Db.step advisoryLockKey) Db.dropsFinished (Db.start now partitions) db →
        Runs (step advisoryLockKey operationId opts) dropsFinished (waitForOutcome opts db clock) w →
        ∀ problem, w.phase ≠ .rejected (.notFound problem)) ∧
      (∀ state, w.phase = .resolved state →
        ∃ outcome : OperationOutcome, state.field "outcome" = some (.str outcome.text) ∧
          ∀ hot cold, Runs (Db.step advisoryLockKey) anyStep w.db hot →
            Runs (Db.step advisoryLockKey) anyStep hot cold →
            ∃ row, OperationStore.getStatus hot.tables cold.tables operationId = some row ∧
              row.status = .final outcome) ∧
      (∀ id ms, w.phase = .rejected (.timeout id ms) →
        id = operationId ∧ ms = opts.timeoutMs ∧ clock + opts.timeoutMs ≤ w.clock) ∧
      (w.polls = 0 ∨ (w.polls - 1) * setTimeout opts.pollMs < opts.timeoutMs) := by
  obtain ⟨u, rfl⟩ := accepted_id reached accepted
  have heard := (heard_start reached clock).run run
  have paced := (paced_start db clock).run run
  refine ⟨fun now partitions spared spared' => ?_, fun state hphase => ?_, fun id ms hphase => ?_, paced.few⟩
  · have inv := (Db.accepted_start now partitions).run spared
    exact ((found_start inv accepted clock).run spared').found
  · obtain ⟨row, rfl, terminal, seen⟩ := heard.resolved state hphase
    cases hst : row.status with
    | live p => simp [hst] at terminal
    | final outcome =>
      refine ⟨outcome, ?_, fun hot cold later between => ?_⟩
      · rw [operationBody_outcome, hst, outcomeOf_final]
        rfl
      · rw [← hst]
        exact seen.final terminal later between
  · obtain ⟨hid, hms, hlate⟩ := paced.timeout id ms hphase
    exact ⟨hid, hms, paced.deadline ▸ hlate⟩

/-- The update that `pollAccepted` accepts is finalized while the client sleeps. -/
def waitedActions : List WaitAction :=
  [.test, .queryHot, .queryCold, .receive, .database (.finalize (Uuid.text 7) .succeeded none none 0), .tick 500,
    .wake, .test]

def answeredActions : List WaitAction := [.queryHot, .queryCold, .receive]

def outcomeText (w : Waiting) : Option String :=
  match w.phase with
  | .resolved state => state.fieldText "outcome"
  | _ => none

def isRequesting (w : Waiting) : Bool :=
  match w.phase with
  | .requesting => true
  | _ => false

theorem phase_of_isRequesting (h : w.isRequesting) : w.phase = .requesting := by
  unfold isRequesting at h
  split at h
  · assumption
  · simp at h

/-- The client resolves with the second poll. -/
theorem waitForOutcome_correct_second :
    ∃ db w, Lib.exec (Db.step fun _ => 0) Db.dropsFinished (Db.start 0 [0]) Db.pollAccepted = some db ∧
      Lib.exec (step (fun _ => 0) (Uuid.text 7) ⟨500, 600⟩) dropsFinished (waitForOutcome ⟨500, 600⟩ db 0)
        (waitedActions ++ answeredActions) = some w ∧
      w.outcomeText = some "SUCCEEDED" ∧ (∀ problem, w.phase ≠ .rejected (.notFound problem)) ∧
      (w.polls = 0 ∨ (w.polls - 1) * 500 < 600) := by
  have h : ((Lib.exec (Db.step fun _ => 0) Db.dropsFinished (Db.start 0 [0]) Db.pollAccepted).bind fun db =>
      (Lib.exec (step (fun _ => 0) (Uuid.text 7) ⟨500, 600⟩) dropsFinished (waitForOutcome ⟨500, 600⟩ db 0)
        (waitedActions ++ answeredActions)).map fun w => (db.answers.map (·.result.id), w.outcomeText)) =
      some ([Uuid.text 7], some "SUCCEEDED") := by
    decide +kernel
  obtain ⟨db, hdb, h⟩ := Option.bind_eq_some_iff.1 h
  obtain ⟨w, hw, h⟩ := Option.map_eq_some_iff.1 h
  obtain ⟨hids, houtcome⟩ := Prod.mk.inj h
  have hmem : Uuid.text 7 ∈ db.answers.map (·.result.id) := by
    rw [hids]
    exact List.mem_singleton_self _
  have accepting := runs_of_exec hdb
  have waiting := runs_of_exec hw
  have result := waitForOutcome_correct ⟨0, [0], accepting.mono fun _ _ _ _ => trivial⟩ (List.mem_map.1 hmem)
    (waiting.mono fun _ _ _ _ => trivial)
  exact ⟨db, w, hdb, hw, houtcome, result.1 0 [0] accepting waiting, result.2.2.2⟩

/-- The request was sent when the history had the operation already. -/
structure Noticing (u : Uuid) (x : HistoryRow) (polls : Nat) (w : Waiting) : Prop where
  sound : w.db.Sound
  recorded : w.db.history? u = some x
  polls : w.polls = polls
  phase : w.phase = .requesting ∨
    (∃ hot : Db, w.phase = .querying hot.tables ∧ hot.Sound ∧ hot.history? u = some x ∧
      Runs (Db.step advisoryLockKey) anyStep hot w.db) ∨
    (∃ row, w.phase = .responded ⟨200, operationBody row⟩ ∧ row.status = x.status) ∨
    (∃ row, w.phase = .resolved (operationBody row) ∧ row.status = x.status) ∨ w.phase = .rejected .failed

theorem Noticing.run {x : HistoryRow} {polls : Nat} {w₀ : Waiting} (terminal : x.status.terminal)
    (inv : @Noticing advisoryLockKey u x polls w₀) (run : Runs (step advisoryLockKey u.text opts) anyStep w₀ w) :
    @Noticing advisoryLockKey u x polls w := by
  refine run.invariant _ inv fun w a w' inv h _ => ?_
  rcases step_cases h with ⟨b, db, -, hdb, rfl⟩ | ⟨ms, rfl⟩ | moves
  · have one : Runs (Db.step advisoryLockKey) anyStep w.db db := .next .start hdb trivial
    refine ⟨inv.sound.run one, Db.history_kept_run one inv.recorded, inv.polls, ?_⟩
    rcases inv.phase with hphase | ⟨hot, hphase, sound, hx, run⟩ | hlater
    · exact .inl hphase
    · exact .inr (.inl ⟨hot, hphase, sound, hx, run.trans one⟩)
    · exact .inr (.inr hlater)
  · exact ⟨inv.sound, inv.recorded, inv.polls, inv.phase⟩
  · have phase := inv.phase
    cases moves with
    | request hphase | timeout hphase | wake hphase => simp [hphase] at phase
    | queryHot hphase =>
      exact ⟨inv.sound, inv.recorded, inv.polls, .inr (.inl ⟨w.db, rfl, inv.sound, inv.recorded, .start⟩)⟩
    | queryCold hphase hid =>
      rw [polledId_text u] at hid
      obtain rfl := Option.some.inj hid
      simp only [hphase, reduceCtorEq, false_or, WaitPhase.querying.injEq, false_and, exists_false, or_false] at phase
      obtain ⟨hot, rfl, sound, hx, run⟩ := phase
      obtain ⟨row, hrow, hst⟩ := sound.getStatus_of_recorded run (operationIdOf_text u) hx
      rw [hrow]
      exact ⟨inv.sound, inv.recorded, inv.polls, .inr (.inr (.inl ⟨row, rfl, hst⟩))⟩
    | receive hphase =>
      simp only [hphase, reduceCtorEq, false_or, WaitPhase.responded.injEq, false_and, exists_false, or_false] at phase
      obtain ⟨row, rfl, hst⟩ := phase
      rw [onResponse_operationBody, if_pos (hst ▸ terminal)]
      exact ⟨inv.sound, inv.recorded, inv.polls, .inr (.inr (.inr (.inl ⟨row, rfl, hst⟩)))⟩
    | fail => exact ⟨inv.sound, inv.recorded, inv.polls, .inr (.inr (.inr (.inr rfl)))⟩

/-- **A poll that is sent after the end of the operation is the last one**: it brings the outcome, or the request
itself fails. -/
theorem waitForOutcome_notices {db : Db} {clock : Nat} {row : OperationStatusRow}
    (reached : db.Reachable advisoryLockKey)
    (accepted : ∃ x ∈ db.answers, x.result.id = operationId)
    (run : Runs (step advisoryLockKey operationId opts) anyStep (waitForOutcome opts db clock) w)
    (sent : w.phase = .requesting)
    (report : OperationStore.getStatus w.db.tables w.db.tables operationId = some row) (ended : row.status.terminal)
    (more : Runs (step advisoryLockKey operationId opts) anyStep w w') :
    w'.polls = w.polls ∧ w'.phase ≠ .testing ∧ (∀ wakeAt, w'.phase ≠ .sleeping wakeAt) ∧
      (∀ state, w'.phase = .resolved state → state.field "outcome" = some (.str row.status.text)) ∧
      ∀ e, w'.phase = .rejected e → e = .failed := by
  obtain ⟨u, rfl⟩ := accepted_id reached accepted
  have heard := (heard_start reached clock).run run
  have sound := reachable_sound heard.reached
  have same : Runs (Db.step advisoryLockKey) anyStep w.db w.db := .start
  obtain ⟨x, hx, hst⟩ := sound.recorded same (operationIdOf_text u) report ended
  have noticing : @Noticing advisoryLockKey u x w.polls w := ⟨sound, hx, rfl, .inl sent⟩
  have after := noticing.run (hst ▸ ended) more
  refine ⟨after.polls, ?_⟩
  rcases after.phase with hphase | ⟨hot, hphase, -⟩ | ⟨row', hphase, -⟩ | ⟨row', hphase, hst'⟩ | hphase
  · simp [hphase]
  · simp [hphase]
  · simp [hphase]
  · simp only [hphase, ne_eq, reduceCtorEq, not_false_eq_true, implies_true, WaitPhase.resolved.injEq, true_and,
      false_implies, and_true]
    rintro state rfl
    rw [operationBody_outcome, hst', hst]
    cases hrow : row.status with
    | live p => simp [hrow] at ended
    | final o => rw [outcomeOf_final]; rfl
  · simp only [hphase, ne_eq, reduceCtorEq, not_false_eq_true, implies_true, WaitPhase.rejected.injEq, true_and,
      false_implies]
    rintro e rfl
    rfl

/-- The second poll of the same run. -/
theorem waitForOutcome_notices_second :
    ∃ db w w', Lib.exec (Db.step fun _ => 0) anyStep (Db.start 0 [0]) Db.pollAccepted = some db ∧
      Lib.exec (step (fun _ => 0) (Uuid.text 7) ⟨500, 600⟩) anyStep (waitForOutcome ⟨500, 600⟩ db 0) waitedActions =
        some w ∧
      Lib.exec (step (fun _ => 0) (Uuid.text 7) ⟨500, 600⟩) anyStep w answeredActions = some w' ∧
      w'.polls = w.polls ∧ w'.outcomeText = some "SUCCEEDED" ∧ ∀ e, w'.phase = .rejected e → e = .failed := by
  have h : ((Lib.exec (Db.step fun _ => 0) anyStep (Db.start 0 [0]) Db.pollAccepted).bind fun db =>
      (Lib.exec (step (fun _ => 0) (Uuid.text 7) ⟨500, 600⟩) anyStep (waitForOutcome ⟨500, 600⟩ db 0)
        waitedActions).bind fun w =>
        (Lib.exec (step (fun _ => 0) (Uuid.text 7) ⟨500, 600⟩) anyStep w answeredActions).map fun w' =>
          (db.answers.map (·.result.id), w.isRequesting, w'.outcomeText,
            (OperationStore.getStatus w.db.tables w.db.tables (Uuid.text 7)).map (·.status))) =
      some ([Uuid.text 7], true, some "SUCCEEDED", some (.final .succeeded)) := by
    decide +kernel
  obtain ⟨db, hdb, h⟩ := Option.bind_eq_some_iff.1 h
  obtain ⟨w, hw, h⟩ := Option.bind_eq_some_iff.1 h
  obtain ⟨w', hw', h⟩ := Option.map_eq_some_iff.1 h
  simp only [Prod.mk.injEq] at h
  obtain ⟨hids, hsent, houtcome, hreport⟩ := h
  obtain ⟨row, hrow, hst⟩ := Option.map_eq_some_iff.1 hreport
  have hmem : Uuid.text 7 ∈ db.answers.map (·.result.id) := by
    rw [hids]
    exact List.mem_singleton_self _
  obtain ⟨hpolls, -, -, -, hfailed⟩ := waitForOutcome_notices ⟨0, [0], runs_of_exec hdb⟩ (List.mem_map.1 hmem)
    (runs_of_exec hw) (phase_of_isRequesting hsent) hrow (by simp [hst]) (runs_of_exec hw')
  exact ⟨db, w, w', hdb, hw, hw', hpolls, houtcome, hfailed⟩

end Waiting

end Provisioning.Client
