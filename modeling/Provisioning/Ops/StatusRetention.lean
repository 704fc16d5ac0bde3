import Provisioning.Ops.Answerable

/-!
# The status before and after retention

While its row is hot, a finished operation is reported from the row. Later it is reported from its
history row, which keeps one uid: that of the request when there is one, else that of the result.
-/

namespace Provisioning

open Lib

variable {advisoryLockKey : String → BitVec 64}

/-! ## The story that a report tells -/

/-- `result?.uid ?? undefined`. -/
def resultUid (result : Option Json) : Option Json :=
  match result.bind (Json.field "uid") with
  | some .null => none
  | uid => uid

structure OperationStatusRow.SameStory (before after : OperationStatusRow) : Prop where
  instanceId : before.instanceId = after.instanceId
  objectClass : before.objectClass = after.objectClass
  opType : before.opType = after.opType
  status : before.status = after.status
  errorCode : before.errorCode = after.errorCode
  createdAt : before.createdAt = after.createdAt
  finalizedAt : before.finalizedAt = after.finalizedAt
  uid : resultUid before.result = resultUid after.result

/-- The uid of the result is all that the history keeps: a text that is not empty, and no other one
in the request. -/
def KeepsUid (request : Option String) (result : Option Json) : Prop :=
  match resultUid result with
  | none => request = none ∨ request = some ""
  | some (.str uid) => uid ≠ "" ∧ (request = none ∨ request = some uid)
  | some _ => False

theorem HistoryRow.resultUid_toStatus (h : HistoryRow) :
    resultUid h.toStatus.result = (h.uid.filter (· ≠ "")).map .str := by
  unfold HistoryRow.toStatus resultUid
  cases h.uid.filter (· ≠ "") <;> simp [Json.field]

/-- What `->>` makes of a value. -/
def Json.asText : Json → String
  | .str s => s
  | v => v.text

theorem fieldText_uid (result : Option Json) :
    result.bind (Json.fieldText "uid") = (resultUid result).map Json.asText := by
  unfold resultUid
  cases result with
  | none => rfl
  | some j =>
    simp only [Option.bind_some]
    unfold Json.fieldText
    cases j.field "uid" with
    | none => rfl
    | some v => cases v <;> rfl

theorem keepsUid_iff {r : Row} {finalizedAt : Nat} :
    resultUid r.result = resultUid (r.toHistory finalizedAt).toStatus.result ↔ KeepsUid r.uid r.result := by
  rw [HistoryRow.resultUid_toStatus]
  unfold KeepsUid Row.toHistory
  split
  · rename_i hnone
    rw [fieldText_uid, hnone]
    cases r.uid <;> simp [Option.filter_eq_none_iff]
  · rename_i uid hstr
    rw [fieldText_uid, hstr]
    rcases r.uid with _ | v
    · simp [Option.filter, Json.asText]
    · simp only [Option.map_some, Json.asText, Option.some_or, Option.filter, decide_not, Bool.not_eq_eq_eq_not,
        Bool.not_true, decide_eq_false_iff_not, reduceCtorEq, Option.some.injEq, false_or]
      grind
  · rename_i v hother hv
    rw [hv]
    simp only [iff_false]
    intro h
    obtain ⟨uid, -, huid⟩ := Option.map_eq_some_iff.1 h.symm
    exact hother uid huid.symm

theorem Row.sameStory_iff {r : Row} {finalizedAt : Nat} (h : r.finalizedAt = some finalizedAt) :
    r.toStatus.SameStory (r.toHistory finalizedAt).toStatus ↔ KeepsUid r.uid r.result := by
  constructor
  · intro same
    exact keepsUid_iff.1 same.uid
  · intro keeps
    exact ⟨rfl, rfl, rfl, rfl, rfl, rfl, h, keepsUid_iff.2 keeps⟩

/-! ## What retention keeps -/

namespace Db

variable {db db' : Db} {a : DbAction}

/-- An open row has no result yet. -/
def Untold (db : Db) : Prop := ∀ r ∈ db.tables.operations, ¬ r.status.terminal → r.result = none

theorem Untold.step (inv : db.Untold) (wf : db.WellFormed) (h : db.Stepped advisoryLockKey a db') :
    db'.Untold := by
  intro r' hr' hopen
  rcases (h.rows wf).origin hr' with ⟨r, hr, hc⟩ | ⟨e, he, hp⟩
  · have hr := inv r hr fun ht => hopen (hc.terminal_of_terminal ht)
    cases hc with
    | finalized => simp [Row.finalized] at hopen
    | _ => exact hr
  · rw [(wf.ids.uncommitted e he r' hp).2.2]
    rfl

/-- The finished row `r` and its history row. The hot row may be gone. -/
structure Finished (r : Row) (x : HistoryRow) (db : Db) : Prop where
  terminal : r.status.terminal
  recorded : db.history? r.id = some x
  hot : ∀ r', db.row? r.id = some r' → r' = r

theorem Finished.step {r : Row} {x : HistoryRow} (inv : Finished r x db) (sound : db.Sound)
    (h : db.Stepped advisoryLockKey a db') : Finished r x db' := by
  refine ⟨inv.terminal, h.history_kept inv.recorded, fun r' hr' => ?_⟩
  obtain ⟨hmem, hid⟩ := lookup_some_mem hr'
  rcases (h.rows sound.wellFormed).origin hmem with ⟨r₀, hr₀, hc⟩ | ⟨e, he, hp⟩
  · have hrow : db.row? r.id = some r₀ := by
      rw [← hid, hc.sameOperation.id]
      exact sound.wellFormed.row?_of_mem hr₀
    obtain rfl := inv.hot r₀ hrow
    exact hc.eq_of_terminal inv.terminal
  · have hnone := sound.answerable.uncommitted e he r' hp
    rw [hid, inv.recorded] at hnone
    cases hnone

theorem Finished.run {r : Row} {x : HistoryRow} (inv : Finished r x db) (sound : db.Sound)
    (run : Runs (Db.step advisoryLockKey) anyStep db db') : Finished r x db' := by
  have both := run.invariant (fun db => db.Sound ∧ Finished r x db) ⟨sound, inv⟩ fun _ _ _ inv h good =>
    ⟨inv.1.run (.next .start h good), inv.2.step inv.1 (stepped h)⟩
  exact both.2

theorem finished_of_finalize {r : Row} {id : String} {outcome : OperationOutcome} {result : Option Json}
    {errorCode : Option String} {began : Nat} (sound : db.Sound) (hr : db.row? r.id = some r)
    (hopen : ¬ r.status.terminal) (hid : operationIdOf id = some r.id)
    (h : db.step advisoryLockKey (.finalize id outcome result errorCode began) = some db') :
    Finished (r.finalized outcome result errorCode began)
      ((r.finalized outcome result errorCode began).toHistory began) db' := by
  obtain ⟨-, h⟩ := Option.ite_none_right_eq_some.1 h
  obtain rfl := Option.some.inj h
  have hmem := (lookup_some_mem hr).1
  have hlast : (OperationStore.finalize id outcome result errorCode began db.tables).2.row? r.id =
      some (r.finalized outcome result errorCode began) := by
    unfold Tables.row?
    rw [OperationStore.finalize_operations, lookup_updateWhere (f := Row.finalized _ _ _ _) fun _ _ => rfl]
    have hlookup : lookup Row.id db.tables.operations r.id = some r := hr
    rw [hlookup, Option.map_some, if_pos ⟨hid, hopen⟩]
  refine ⟨by simp [Row.finalized], ?_, fun r' hr' => Option.some.inj (hr'.symm.trans hlast)⟩
  have hfresh : db.tables.history? r.id = none := by
    refine Option.eq_none_iff_forall_ne_some.2 fun x hx => hopen ?_
    rw [← sound.answerable.agrees r hmem x hx]
    exact (sound.answerable.final x (history?_eq_some_mem hx).1).1
  rcases @OperationStore.finalize_history id outcome result errorCode began db.tables with
    hsame | ⟨r₀, hr₀, hid₀, -, hh⟩
  · simp only [hsame] at hlast
    have hrow : db.tables.row? r.id = some r := hr
    rw [hrow] at hlast
    have hst := congrArg Row.status (Option.some.inj hlast)
    simp [hst, Row.finalized] at hopen
  · obtain rfl : r₀ = r := eq_of_key_eq sound.wellFormed.ids.nodup hr₀ hmem (Option.some.inj (hid₀.symm.trans hid))
    simp only [history?, Tables.history?] at hfresh ⊢
    rw [hh]
    change lookup HistoryRow.id _ r₀.id = _
    rw [Tables.lookup_insertHistory, Tables.history?, hfresh, Option.none_or]
    exact if_pos rfl

/-! ## The result -/

/-- **The story of an operation stays the same exactly when its uid is one that the history keeps.**
The operation is finalized, reported while its row is `hot`, and reported again when the row is gone. -/
theorem same_story_iff {now : Nat} {partitions : List Nat} {db' hot cold : Db} {id : String} {u : Uuid} {r : Row}
    {outcome : OperationOutcome} {result : Option Json} {errorCode : Option String} {began : Nat}
    (reached : Runs (Db.step advisoryLockKey) anyStep (start now partitions) db)
    (hid : operationIdOf id = some u) (hr : db.row? u = some r) (hopen : ¬ r.status.terminal)
    (finalized : db.step advisoryLockKey (.finalize id outcome result errorCode began) = some db')
    (soon : Runs (Db.step advisoryLockKey) anyStep db' hot) (kept : hot.row? u ≠ none)
    (later : Runs (Db.step advisoryLockKey) anyStep hot cold) (gone : cold.row? u = none) :
    ∃ before after, OperationStore.getStatus hot.tables hot.tables id = some before ∧
      OperationStore.getStatus cold.tables cold.tables id = some after ∧
      (before.SameStory after ↔ KeepsUid r.uid result) := by
  have inv : db.Sound ∧ db.Untold := by
    refine reached.invariant (fun db => db.Sound ∧ db.Untold) ⟨sound_start now partitions, ?_⟩ ?_
    · simp [Untold, start]
    · intro _ _ _ inv h good
      exact ⟨inv.1.run (.next .start h good), inv.2.step inv.1.wellFormed (stepped h)⟩
  have hru := (lookup_some_mem hr).2
  subst hru
  have first : Runs (Db.step advisoryLockKey) anyStep db db' := .next .start finalized trivial
  have sound' := inv.1.run first
  have finished := finished_of_finalize inv.1 hr hopen hid finalized
  have finishedHot := finished.run sound' soon
  have finishedCold := finishedHot.run (sound'.run soon) later
  obtain ⟨r', hr'⟩ := Option.ne_none_iff_exists'.1 kept
  have hrow := finishedHot.hot r' hr'
  subst hrow
  have huntold := inv.2 r (lookup_some_mem hr).1 hopen
  refine ⟨(r.finalized outcome result errorCode began).toStatus,
    ((r.finalized outcome result errorCode began).toHistory began).toStatus, ?_, ?_, ?_⟩
  · simp only [OperationStore.getStatus, hid]
    have hrow : hot.tables.row? r.id = some _ := hr'
    rw [hrow]
  · simp only [OperationStore.getStatus, hid]
    have hrow : cold.tables.row? r.id = none := gone
    have hrecorded : cold.tables.history? r.id = some _ := finishedCold.recorded
    rw [hrow, hrecorded]
    rfl
  · rw [Row.sameStory_iff rfl]
    simp only [Row.finalized, huntold, Option.or_none]

/-- An update of account `42` waits. -/
def updateEnqueued : List DbAction :=
  [.beginEnqueue 1 ⟨"i", "User", .update, "42", "k", none, some "42", none, none⟩, .lockKey 1, .lookupKey 1,
    .insertOperation 1 7, .commitEnqueue 1 true]

/-- What the target answered to it. -/
def answeredUid (uid : String) : Option Json := some (.obj [("uid", .str uid)])

structure RetentionRun where
  enqueued : Db
  finalized : Db
  hot : Db
  cold : Db

/-- It is finalized, two days pass, and its day is dropped. -/
def retained (uid : String) : Option RetentionRun := do
  let enqueued ← exec (Db.step fun _ => 0) anyStep (start 0 [0]) updateEnqueued
  let finalized ← enqueued.step (fun _ => 0) (.finalize (Uuid.text 7) .succeeded (answeredUid uid) none 0)
  let hot ← exec (Db.step fun _ => 0) anyStep finalized [.tick 172800000]
  let cold ← exec (Db.step fun _ => 0) anyStep hot [.countLive 0 1, .dropPartition 0]
  return ⟨enqueued, finalized, hot, cold⟩

theorem retained_eq_some {uid : String} {run : RetentionRun} (h : retained uid = some run) :
    exec (Db.step fun _ => 0) anyStep (start 0 [0]) updateEnqueued = some run.enqueued ∧
      run.enqueued.step (fun _ => 0) (.finalize (Uuid.text 7) .succeeded (answeredUid uid) none 0) =
        some run.finalized ∧
      exec (Db.step fun _ => 0) anyStep run.finalized [.tick 172800000] = some run.hot ∧
      exec (Db.step fun _ => 0) anyStep run.hot [.countLive 0 1, .dropPartition 0] = some run.cold := by
  unfold retained at h
  simp only [Option.bind_eq_bind, Option.bind_eq_some_iff, Option.pure_def, Option.some.injEq] at h
  obtain ⟨enqueued, henqueued, finalized, hfinalized, hot, hhot, cold, hcold, rfl⟩ := h
  exact ⟨henqueued, hfinalized, hhot, hcold⟩

/-- The texts of the uids that are reported before and after. -/
def RetentionRun.reportedUids (run : RetentionRun) : Option (Option String × Option String) := do
  let before ← OperationStore.getStatus run.hot.tables run.hot.tables (Uuid.text 7)
  let after ← OperationStore.getStatus run.cold.tables run.cold.tables (Uuid.text 7)
  return (before.result.bind (Json.fieldText "uid"), after.result.bind (Json.fieldText "uid"))

/-- The target renamed the account. -/
theorem story_changes_renamed :
    ∃ run before after, retained "43" = some run ∧
      OperationStore.getStatus run.hot.tables run.hot.tables (Uuid.text 7) = some before ∧
      OperationStore.getStatus run.cold.tables run.cold.tables (Uuid.text 7) = some after ∧
      ¬ before.SameStory after := by
  have h : (retained "43").bind RetentionRun.reportedUids = some (some "43", some "42") := by decide
  obtain ⟨run, hrun, h⟩ := Option.bind_eq_some_iff.1 h
  obtain ⟨before, hbefore, h⟩ := Option.bind_eq_some_iff.1 h
  obtain ⟨after, hafter, h⟩ := Option.bind_eq_some_iff.1 h
  refine ⟨run, before, after, hrun, hbefore, hafter, fun same => ?_⟩
  have huids := Prod.mk.inj (Option.some.inj h)
  rw [fieldText_uid, fieldText_uid, same.uid] at huids
  have hsame := huids.1.symm.trans huids.2
  simp at hsame

theorem same_story_iff_kept :
    ∃ run before after, retained "42" = some run ∧
      OperationStore.getStatus run.hot.tables run.hot.tables (Uuid.text 7) = some before ∧
      OperationStore.getStatus run.cold.tables run.cold.tables (Uuid.text 7) = some after ∧
      before.SameStory after := by
  have h : ((retained "42").bind fun run => (run.enqueued.row? 7).map fun r =>
      (r.status, r.uid, (run.hot.row? 7).isSome, (run.cold.row? 7).isSome)) =
      some (.live .pending, some "42", true, false) := by
    decide
  obtain ⟨run, hrun, h⟩ := Option.bind_eq_some_iff.1 h
  obtain ⟨r, hr, h⟩ := Option.map_eq_some_iff.1 h
  simp only [Prod.mk.injEq, Option.isSome_eq_false_iff, Option.isNone_iff_eq_none] at h
  obtain ⟨hst, huid, hkept, hgone⟩ := h
  obtain ⟨hdb, hdb', hhot, hcold⟩ := retained_eq_some hrun
  obtain ⟨before, after, hbefore, hafter, hiff⟩ := same_story_iff (runs_of_exec hdb) (operationIdOf_text 7) hr
    (by simp [hst]) hdb' (runs_of_exec hhot) (Option.isSome_iff_ne_none.1 hkept) (runs_of_exec hcold) hgone
  refine ⟨run, before, after, hrun, hbefore, hafter, hiff.2 ?_⟩
  rw [huid]
  simp [KeepsUid, answeredUid, resultUid, Json.field]

end Db

end Provisioning
