import Provisioning.Ops.StatusRetention

/-!
# What a caller sees that polls again and again

Every poll runs `getStatus` once, and between two polls anything may happen to the operation. The reports of one
accepted operation still tell one story: they move forward, and what a terminal report says is not taken back.
-/

namespace Provisioning

open Lib

variable {advisoryLockKey : String → BitVec 64}

/-! ## The order of reports -/

/-- `after` may be read later than `before`. -/
structure OperationStatusRow.Follows (before after : OperationStatusRow) : Prop where
  id : after.id = before.id
  instanceId : after.instanceId = before.instanceId
  objectClass : after.objectClass = before.objectClass
  opType : after.opType = before.opType
  createdAt : after.createdAt = before.createdAt
  /-- The counter of the hot row never goes back, and the hot row does not come back. -/
  hot : ¬ after.fromHistory →
    ¬ before.fromHistory ∧ before.attemptCount ≤ after.attemptCount ∧ after.priority = before.priority
  history : after.fromHistory → after.status.terminal
  terminal : before.status.terminal →
    after.status = before.status ∧ after.errorCode = before.errorCode ∧ after.finalizedAt = before.finalizedAt
  /-- A terminal report changes only by the move to the history. -/
  settled : before.status.terminal → after.fromHistory = before.fromHistory → after = before

/-- What a row may be later. -/
structure Row.Later (r r' : Row) : Prop where
  same : r.SameOperation r'
  attempts : r.attemptCount ≤ r'.attemptCount
  terminal : r.status.terminal → r' = r

theorem Row.Later.refl (r : Row) : r.Later r where
  same := by constructor <;> rfl
  attempts := Nat.le_refl _
  terminal _ := rfl

theorem Row.Change.later {r r' : Row} (h : r.Change r') : r.Later r' where
  same := h.sameOperation
  attempts := by cases h <;> simp [Row.claimed, Row.finalized, Row.requeued, Row.deferred, Row.reaped]
  terminal := h.eq_of_terminal

theorem Row.Later.trans {r r' r'' : Row} (h : r.Later r') (h' : r'.Later r'') : r.Later r'' where
  same := h.same.trans h'.same
  attempts := Nat.le_trans h.attempts h'.attempts
  terminal ht := by
    have heq := h.terminal ht
    subst heq
    exact h'.terminal ht

/-- The history row is the one of this row. -/
def Row.Archived (r : Row) (x : HistoryRow) : Prop :=
  r.status.terminal ∧ ∃ finalizedAt, r.finalizedAt = some finalizedAt ∧ x = r.toHistory finalizedAt

theorem Row.archived_finalized (r : Row) (outcome : OperationOutcome) (result : Option Json)
    (errorCode : Option String) (began : Nat) :
    (r.finalized outcome result errorCode began).Archived
      ((r.finalized outcome result errorCode began).toHistory began) :=
  ⟨by simp [Row.finalized], began, rfl, rfl⟩

theorem Row.Later.follows_hot {r r' : Row} (h : r.Later r') : r.toStatus.Follows r'.toStatus := by
  constructor <;> simp only [Row.toStatus]
  · rw [h.same.id]
  · exact h.same.instanceId
  · exact h.same.objectClass
  · exact h.same.opType
  · exact h.same.createdAt
  · simp [h.attempts, h.same.priority]
  · simp
  · intro ht
    simp [h.terminal ht]
  · intro ht _
    simp [h.terminal ht]

theorem Row.Later.follows_history {r r' : Row} {x : HistoryRow} (h : r.Later r') (archived : r'.Archived x) :
    r.toStatus.Follows x.toStatus := by
  obtain ⟨ht', finalizedAt, hf, rfl⟩ := archived
  constructor <;> simp only [Row.toStatus, HistoryRow.toStatus, Row.toHistory]
  · rw [h.same.id]
  · exact h.same.instanceId
  · exact h.same.objectClass
  · exact h.same.opType
  · exact h.same.createdAt
  · simp
  · exact fun _ => ht'
  · intro ht
    rw [h.terminal ht] at hf ⊢
    exact ⟨rfl, rfl, hf.symm⟩
  · simp

theorem HistoryRow.follows_self {x : HistoryRow} (ht : x.status.terminal) : x.toStatus.Follows x.toStatus := by
  constructor <;> simp [HistoryRow.toStatus, ht]

/-! ## The trail of an operation -/

namespace Db

variable {db db' : Db} {a : DbAction} {u : Uuid}

/-- A row that has a history row is the one that it was made of. -/
def Archives (db : Db) : Prop := ∀ r ∈ db.tables.operations, ∀ x, db.history? r.id = some x → r.Archived x

theorem Archives.step (inv : db.Archives) (sound : db.Sound) (h : db.Stepped advisoryLockKey a db') :
    db'.Archives := by
  intro r' hr' x hx
  rcases sound.answerable.recorded_origin sound.wellFormed h hr' hx with
    ⟨hr, hold⟩ | ⟨r, -, outcome, result, errorCode, began, hr, hx⟩
  · exact inv r' hr x hold
  · subst hr hx
    exact r.archived_finalized outcome result errorCode began

/-- No transaction can still commit a row under this id. -/
structure Spent (u : Uuid) (db : Db) : Prop where
  used : u ∈ db.usedIds
  closed : ∀ e ∈ db.enqueues, ∀ row, e.phase = .inserted row → row.id ≠ u

theorem Spent.step (inv : Spent u db) (h : db.Stepped advisoryLockKey a db') : Spent u db' := by
  refine ⟨h.usedIds_subset inv.used, fun e he row hp hid => ?_⟩
  rcases h.uncommitted_origin he hp with he | ⟨-, fresh⟩
  · exact inv.closed e he row hp hid
  · exact fresh (hid ▸ inv.used)

theorem WellFormed.spent_of_mem (wf : db.WellFormed) {r : Row} (hr : r ∈ db.tables.operations) : Spent r.id db := by
  have hmem : r.id ∈ db.tables.operations.map Row.id := List.mem_map_of_mem hr
  refine ⟨wf.ids.used r.id hmem, fun e he row hp hid => ?_⟩
  exact (wf.ids.uncommitted e he row hp).2.1 (hid ▸ hmem)

/-- Whatever happens to the days, an id that was returned is not used again. -/
theorem spent_run {now : Nat} {partitions : List Nat}
    (reached : Runs (Db.step advisoryLockKey) anyStep (start now partitions) db) : Answered (Spent · db) db := by
  have both : db.WellFormed ∧ Answered (Spent · db) db := by
    refine reached.invariant (fun db => db.WellFormed ∧ Answered (Spent · db) db)
      ⟨wellFormed_start now partitions, answered_start _ now partitions⟩ fun db a db' inv h _ => ?_
    have wf := inv.1.step (stepped h)
    exact ⟨wf, inv.2.step (stepped h) (fun _ _ spent => spent.step (stepped h)) fun _ hr => wf.spent_of_mem hr⟩
  exact both.2

theorem Sound.origin_of_spent (sound : db.Sound) (spent : Spent u db) (h : db.Stepped advisoryLockKey a db')
    {r' : Row} (hr' : db'.row? u = some r') : ∃ r, db.row? u = some r ∧ r.Change r' := by
  obtain ⟨hmem, rfl⟩ := lookup_some_mem hr'
  rcases (h.rows sound.wellFormed).origin hmem with ⟨r, hr, hc⟩ | ⟨e, he, hp⟩
  · refine ⟨r, ?_, hc⟩
    rw [hc.sameOperation.id]
    exact sound.wellFormed.row?_of_mem hr
  · exact absurd rfl (spent.closed e he r' hp)

theorem Sound.history_origin (sound : db.Sound) (h : db.Stepped advisoryLockKey a db') {x : HistoryRow}
    (hx : db'.history? u = some x) :
    db.history? u = some x ∨ ∃ r r', db.row? u = some r ∧ r.Change r' ∧ r'.Archived x := by
  rcases h.history with hh | ⟨r, hr, hopen, -, outcome, result, errorCode, began, -, -, -, -, hh⟩
  · left
    unfold history? Tables.history? at hx ⊢
    rwa [hh] at hx
  · unfold history? Tables.history? at hx
    rw [hh, Tables.lookup_insertHistory] at hx
    rcases Option.or_eq_some_iff.1 hx with hold | ⟨-, hnew⟩
    · exact .inl hold
    · right
      obtain ⟨hid, heq⟩ := Option.ite_none_right_eq_some.1 hnew
      obtain rfl := Option.some.inj heq
      refine ⟨r, _, ?_, .finalized outcome result errorCode began hopen, r.archived_finalized _ _ _ _⟩
      rw [← hid]
      exact sound.wellFormed.row?_of_mem hr

/-- What is left of an operation that was once in row `r`. -/
structure Trail (r : Row) (db : Db) : Prop where
  spent : Spent r.id db
  row : ∀ r', db.row? r.id = some r' → r.Later r'
  history : ∀ x, db.history? r.id = some x → ∃ r', r.Later r' ∧ r'.Archived x

theorem Trail.step {r : Row} (inv : Trail r db) (sound : db.Sound) (h : db.Stepped advisoryLockKey a db') :
    Trail r db' where
  spent := inv.spent.step h
  row r' hr' := by
    obtain ⟨r₀, hr₀, hc⟩ := sound.origin_of_spent inv.spent h hr'
    exact (inv.row r₀ hr₀).trans hc.later
  history x hx := by
    rcases sound.history_origin h hx with hold | ⟨r₀, r', hr₀, hc, archived⟩
    · exact inv.history x hold
    · exact ⟨r', (inv.row r₀ hr₀).trans hc.later, archived⟩

/-- The row of a returned id is gone, and does not come back. -/
structure Gone (u : Uuid) (db : Db) : Prop where
  spent : Spent u db
  row : db.row? u = none

theorem Gone.step (inv : Gone u db) (sound : db.Sound) (h : db.Stepped advisoryLockKey a db') : Gone u db' := by
  refine ⟨inv.spent.step h, Option.eq_none_iff_forall_ne_some.2 fun r' hr' => ?_⟩
  obtain ⟨r, hr, -⟩ := sound.origin_of_spent inv.spent h hr'
  rw [inv.row] at hr
  cases hr

theorem Sound.keeps {Inv : Db → Prop} (sound : db.Sound) (inv : Inv db)
    (step : ∀ db a db', Inv db → db.Sound → db.Stepped advisoryLockKey a db' → Inv db')
    (run : Runs (Db.step advisoryLockKey) anyStep db db') : Inv db' := by
  have both : db'.Sound ∧ Inv db' := by
    refine run.invariant (fun db => db.Sound ∧ Inv db) ⟨sound, inv⟩ fun db a db' inv h _ => ?_
    exact ⟨inv.1.step (stepped h), step db a db' inv.2 inv.1 (stepped h)⟩
  exact both.2

theorem Stepped.answers_subset (h : db.Stepped advisoryLockKey a db') : db.answers ⊆ db'.answers := by
  cases h with
  | commitFound | commitInserted => exact fun x hx => List.mem_append_left _ hx
  | _ => exact fun x hx => hx

theorem Accepted.known_run (inv : db.Accepted) {x : EnqueueAnswer} (hx : x ∈ db.answers) (hu : x.result.id = u.text)
    (run : Runs (Db.step advisoryLockKey) dropsFinished db db') : db'.Known u := by
  have both : db'.Accepted ∧ x ∈ db'.answers := by
    refine run.invariant (fun db => db.Accepted ∧ x ∈ db.answers) ⟨inv, hx⟩ fun db a db' inv h spared => ?_
    exact ⟨inv.1.step (stepped h) spared, (stepped h).answers_subset inv.2⟩
  exact both.1.answered.given u (.inl ⟨x, both.2, hu⟩)

theorem Sound.trail (sound : db.Sound) (archives : db.Archives) {r : Row} (hr : db.row? u = some r)
    (run : Runs (Db.step advisoryLockKey) anyStep db db') : Trail r db' := by
  obtain ⟨hmem, rfl⟩ := lookup_some_mem hr
  refine sound.keeps ?_ (fun _ _ _ inv sound h => inv.step sound h) run
  refine ⟨sound.wellFormed.spent_of_mem hmem, fun r' hr' => ?_, fun x hx => ⟨r, .refl r, archives r hmem x hx⟩⟩
  rw [hr] at hr'
  cases hr'
  exact .refl r

theorem archives_run {now : Nat} {partitions : List Nat}
    (reached : Runs (Db.step advisoryLockKey) anyStep (start now partitions) db) : db.Archives :=
  (sound_start now partitions).keeps (by simp [Archives, start]) (fun _ _ _ inv sound h => inv.step sound h) reached

/-! ## The result -/

theorem getStatus_cases {hot cold : Db} {id : String} {report : OperationStatusRow} (hid : operationIdOf id = some u)
    (hreport : OperationStore.getStatus hot.tables cold.tables id = some report) :
    (∃ r, hot.row? u = some r ∧ report = r.toStatus) ∨
      hot.row? u = none ∧ ∃ x, cold.history? u = some x ∧ report = x.toStatus := by
  unfold OperationStore.getStatus at hreport
  simp only [hid] at hreport
  split at hreport
  · rename_i r hr
    exact .inl ⟨r, hr, (Option.some.inj hreport).symm⟩
  · rename_i hnone
    obtain ⟨x, hx, rfl⟩ := Option.map_eq_some_iff.1 hreport
    exact .inr ⟨hnone, x, hx, rfl⟩

/-- **The reports of an accepted operation tell one story.** `hot` and `cold` are the states at the two queries of a
poll, and `hot'` and `cold'` those of any later one. As long as no drop takes an accepted operation that is not
terminal, both polls find the operation. -/
theorem polls_follow {now : Nat} {partitions : List Nat} {hot cold hot' cold' : Db} {id : String}
    (reached : Runs (Db.step advisoryLockKey) anyStep (start now partitions) hot)
    (accepted : ∃ x ∈ hot.answers, x.result.id = id)
    (between : Runs (Db.step advisoryLockKey) anyStep hot cold)
    (later : Runs (Db.step advisoryLockKey) anyStep cold hot')
    (between' : Runs (Db.step advisoryLockKey) anyStep hot' cold') :
    (∀ before after, OperationStore.getStatus hot.tables cold.tables id = some before →
      OperationStore.getStatus hot'.tables cold'.tables id = some after → before.Follows after) ∧
    (Runs (Db.step advisoryLockKey) dropsFinished (start now partitions) hot →
      (OperationStore.getStatus hot.tables cold.tables id).isSome ∧
      (Runs (Db.step advisoryLockKey) dropsFinished hot hot' →
        (OperationStore.getStatus hot'.tables cold'.tables id).isSome)) := by
  have sound : hot.Sound := (sound_start now partitions).run reached
  obtain ⟨x, hx, hxid⟩ := accepted
  have toHot := between.trans later
  constructor
  · intro before after hbefore hafter
    have archives : hot.Archives := archives_run reached
    obtain ⟨u, hu, spent⟩ := (spent_run reached).of_answer hx
    have hid : operationIdOf id = some u := by rw [← hxid, hu, operationIdOf_text]
    rcases getStatus_cases hid hbefore with ⟨r, hr, rfl⟩ | ⟨hgone, x, hx, rfl⟩
    · have hru := (lookup_some_mem hr).2
      subst hru
      have trail := sound.trail archives hr toHot
      have trail' := sound.trail archives hr (toHot.trans between')
      rcases getStatus_cases hid hafter with ⟨r', hr', rfl⟩ | ⟨-, x, hx, rfl⟩
      · exact (trail.row r' hr').follows_hot
      · obtain ⟨r', hlater, archived⟩ := trail'.history x hx
        exact hlater.follows_history archived
    · have gone : Gone u hot' := sound.keeps ⟨spent, hgone⟩ (fun _ _ _ inv sound h => inv.step sound h) toHot
      rcases getStatus_cases hid hafter with ⟨r', hr', -⟩ | ⟨-, x', hx', rfl⟩
      · rw [gone.row] at hr'
        cases hr'
      · have hkept := history_kept_run (later.trans between') hx
        rw [hx'] at hkept
        obtain rfl := Option.some.inj hkept
        exact HistoryRow.follows_self ((sound.run between).answerable.final x' (history?_eq_some_mem hx).1).1
  · intro spared
    have accepted := (accepted_start now partitions).run spared
    obtain ⟨u, hu, known⟩ := accepted.answered.of_answer hx
    have hid : operationIdOf id = some u := by rw [← hxid, hu, operationIdOf_text]
    exact ⟨sound.getStatus_of_known between hid known, fun spared' =>
      (sound.run toHot).getStatus_of_known between' hid (accepted.known_run hx hu spared')⟩

/-- An update is accepted. -/
def pollAccepted : List DbAction :=
  [.beginEnqueue 1 ⟨"i", "User", .update, "42", "k", none, some "42", none, none⟩, .lockKey 1, .lookupKey 1,
    .insertOperation 1 7, .commitEnqueue 1 true]

/-- It is finalized, two days pass, and its day is dropped. -/
def pollArchived : List DbAction :=
  [.finalize (Uuid.text 7) .succeeded none none 0, .tick 172800000, .countLive 0 1, .dropPartition 0]

/-- A poll before the operation runs, and one when its row is gone. -/
theorem polls_follow_archived :
    ∃ hot hot' before after, exec (Db.step fun _ => 0) dropsFinished (start 0 [0]) pollAccepted = some hot ∧
      exec (Db.step fun _ => 0) dropsFinished hot pollArchived = some hot' ∧
      OperationStore.getStatus hot.tables hot.tables (Uuid.text 7) = some before ∧
      OperationStore.getStatus hot'.tables hot'.tables (Uuid.text 7) = some after ∧
      before.fromHistory = false ∧ after.fromHistory = true ∧ before.Follows after := by
  have h : ((exec (Db.step fun _ => 0) dropsFinished (start 0 [0]) pollAccepted).bind fun hot =>
      (exec (Db.step fun _ => 0) dropsFinished hot pollArchived).map fun hot' =>
        (hot.answers.map (·.result.id),
          (OperationStore.getStatus hot.tables hot.tables (Uuid.text 7)).map (·.fromHistory),
          (OperationStore.getStatus hot'.tables hot'.tables (Uuid.text 7)).map (·.fromHistory))) =
      some ([Uuid.text 7], some false, some true) := by
    decide
  obtain ⟨hot, hhot, h⟩ := Option.bind_eq_some_iff.1 h
  obtain ⟨hot', hhot', h⟩ := Option.map_eq_some_iff.1 h
  obtain ⟨hids, h⟩ := Prod.mk.inj h
  obtain ⟨hfirst, hsecond⟩ := Prod.mk.inj h
  have hmem : Uuid.text 7 ∈ hot.answers.map (·.result.id) := by
    rw [hids]
    exact List.mem_singleton_self _
  have reached := runs_of_exec hhot
  have later := runs_of_exec hhot'
  have result := polls_follow (reached.mono fun _ _ _ _ => trivial) (List.mem_map.1 hmem) .start
    (later.mono fun _ _ _ _ => trivial) .start
  have found := result.2 reached
  obtain ⟨before, hbefore⟩ := Option.isSome_iff_exists.1 found.1
  obtain ⟨after, hafter⟩ := Option.isSome_iff_exists.1 (found.2 later)
  refine ⟨hot, hot', before, after, hhot, hhot', hbefore, hafter, ?_, ?_, result.1 before after hbefore hafter⟩
  · rw [hbefore] at hfirst
    exact Option.some.inj hfirst
  · rw [hafter] at hsecond
    exact Option.some.inj hsecond

end Db

end Provisioning
