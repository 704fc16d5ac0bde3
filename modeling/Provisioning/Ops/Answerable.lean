import Provisioning.Ops.WellFormed

/-!
# An accepted operation stays answerable

A terminal row has a history row with its status, and the history only grows. So a day can be
dropped without an answer being lost, also between the two queries of `getStatus`. The rows of the day were
counted before the drop waited for its lock: a row that is committed in between is not seen.
-/

namespace Provisioning

open Lib

variable {advisoryLockKey : String → BitVec 64} {db db' : Db} {a : DbAction}

/-! ## History -/

theorem Tables.lookup_insertHistory {t : Tables} {h : HistoryRow} {u : Uuid} :
    lookup HistoryRow.id (t.insertHistory h) u =
      (t.history? u).or (if h.id = u then some h else none) := by
  simp only [insertHistory, history?, lookup]
  split
  · rename_i hin
    by_cases hu : h.id = u
    · obtain ⟨h', hh', hid⟩ := List.any_eq_true.1 hin
      have : (t.history.find? fun r => r.id = u).isSome :=
        List.find?_isSome.2 ⟨h', hh', by simpa [hu] using hid⟩
      obtain ⟨x, hx⟩ := Option.isSome_iff_exists.1 this
      rw [hx]
      rfl
    · simp [hu]
  · rw [List.find?_append]
    by_cases hu : h.id = u <;> simp [hu]

namespace Db

def history? (db : Db) (u : Uuid) : Option HistoryRow := db.tables.history? u

theorem Stepped.history (h : db.Stepped advisoryLockKey a db') :
    db'.tables.history = db.tables.history ∨
      ∃ r ∈ db.tables.operations, ¬ r.status.terminal ∧ ∃ id outcome result errorCode began,
        operationIdOf id = some r.id ∧
        db'.tables = (OperationStore.finalize id outcome result errorCode began db.tables).2 ∧
        db'.usedIds = db.usedIds ∧ db'.enqueues = db.enqueues ∧
        db'.tables.history =
          db.tables.insertHistory ((r.finalized outcome result errorCode began).toHistory began) := by
  cases h with
  | @finalize id outcome result errorCode began =>
    rcases @OperationStore.finalize_history id outcome result errorCode began db.tables with
      h | ⟨r, hr, hid, hst, hh⟩
    · exact .inl (congrArg Tables.history h)
    · exact .inr ⟨r, hr, hst, _, _, _, _, _, hid, rfl, rfl, rfl, hh⟩
  | requeue | deferForReadback =>
    left
    simp only [Db.requeue, Db.deferForReadback, OperationStore.requeue, OperationStore.deferForReadback]
    split <;> rfl
  | createPartition day =>
    left
    simp only [Tables.createPartition]
    split <;> rfl
  | _ => exact .inl rfl

theorem Stepped.history_kept (h : db.Stepped advisoryLockKey a db') {u : Uuid} {x : HistoryRow}
    (hx : db.history? u = some x) : db'.history? u = some x := by
  simp only [history?, Tables.history?] at hx ⊢
  rcases h.history with hh | ⟨r, -, -, id, outcome, result, errorCode, began, -, -, -, -, hh⟩
  · rw [hh, hx]
  · rw [hh, Tables.lookup_insertHistory, Tables.history?, hx]
    rfl

/-! ## The invariant -/

structure Answerable (db : Db) : Prop where
  /-- A terminal row has its history row. -/
  terminal : ∀ r ∈ db.tables.operations, r.status.terminal → (db.history? r.id).isSome
  /-- A history row tells the status of the hot row, if the hot row is still there. -/
  agrees : ∀ r ∈ db.tables.operations, ∀ x, db.history? r.id = some x → x.status = r.status
  final : ∀ x ∈ db.tables.history, x.status.terminal ∧ x.id ∈ db.usedIds
  uncommitted : ∀ e ∈ db.enqueues, ∀ row, e.phase = .inserted row → db.history? row.id = none

theorem history?_eq_some_mem {u : Uuid} {x : HistoryRow} (hx : db.history? u = some x) :
    x ∈ db.tables.history ∧ x.id = u := lookup_some_mem hx

theorem Stepped.uncommitted_origin (h : db.Stepped advisoryLockKey a db') {e : EnqueueTxn}
    (he : e ∈ db'.enqueues) {row : Row} (hp : e.phase = .inserted row) :
    e ∈ db.enqueues ∨ a = .insertOperation e.sid row.id ∧ row.id ∉ db.usedIds := by
  cases h with
  | beginEnqueue =>
    rcases List.mem_append.1 he with he | he
    · exact .inl he
    · rw [List.mem_singleton.1 he] at hp
      cases hp
  | lockKey | lookupFound | lookupMissing =>
    exact .inl (inserted_of_setPhase (fun _ h => by cases h) e he row hp)
  | inserted he₀ phase fresh =>
    obtain ⟨e₁, h₁, rfl⟩ := mem_setPhase.1 he
    split at hp
    · rename_i hs
      rw [if_pos hs]
      cases hp
      exact .inr ⟨by rw [← hs]; rfl, fresh⟩
    · rename_i hs
      rw [if_neg hs]
      exact .inl h₁
  | insertFailed | commitFound | commitFoundLost | commitInserted | commitInsertedLost | abortEnqueue =>
    exact .inl (mem_endEnqueue.1 he).1
  | _ => exact .inl he

/-- Only `finalize` makes a row terminal. -/
theorem Stepped.terminal_origin (wf : db.WellFormed) (h : db.Stepped advisoryLockKey a db') {r' : Row}
    (hr' : r' ∈ db'.tables.operations) (ht : r'.status.terminal) :
    r' ∈ db.tables.operations ∨ (db'.history? r'.id).isSome := by
  have live {p : Row → Prop} [DecidablePred p] {f : Row → Row}
      (hops : db'.tables.operations = updateWhere p f db.tables.operations)
      (hf : ∀ r, ¬ (f r).status.terminal) : r' ∈ db.tables.operations := by
    rw [hops] at hr'
    obtain ⟨r, hr, rfl⟩ := mem_updateWhere.1 hr'
    split at ht
    · exact absurd ht (hf r)
    · rename_i hp; rwa [if_neg hp]
  cases h with
  | @finalize id outcome result errorCode began =>
    rcases @OperationStore.finalize_history id outcome result errorCode began db.tables with
      h | ⟨r₀, hr₀, hid, hopen, hh⟩
    · left
      simpa only [h] using hr'
    · simp only [OperationStore.finalize_operations] at hr'
      obtain ⟨r, hr, rfl⟩ := mem_updateWhere.1 hr'
      split
      · rename_i hp
        right
        have hrr : r.id = r₀.id := Option.some.inj (hp.1.symm.trans hid)
        simp only [history?, Tables.history?, hh, Tables.lookup_insertHistory]
        simp [Row.finalized, Row.toHistory, hrr]
      · exact .inl hr
  | commitInserted he phase | commitInsertedLost he phase =>
    rcases List.mem_append.1 hr' with hr' | hr'
    · exact .inl hr'
    · rw [List.mem_singleton.1 hr', (wf.ids.uncommitted _ (lookup_some_mem he).1 _ phase).2.2] at ht
      simp [EnqueueInput.newRow] at ht
  | commitClaim => exact .inl (live rfl fun r => by simp [Row.claimed])
  | requeue => exact .inl (live OperationStore.requeue_operations fun r => by simp [Row.requeued])
  | deferForReadback =>
    exact .inl (live OperationStore.deferForReadback_operations fun r => by simp [Row.deferred])
  | reapStale =>
    refine .inl (live OperationStore.reapStale_operations fun r => ?_)
    split <;> simp [Row.deferred, Row.reaped]
  | createPartition => exact .inl (by simpa only [operations_createPartition] using hr')
  | dropPartition => exact .inl (List.mem_filter.1 hr').1
  | _ => exact .inl hr'

theorem Answerable.recorded_origin (inv : db.Answerable) (wf : db.WellFormed)
    (h : db.Stepped advisoryLockKey a db') {r' : Row} (hr' : r' ∈ db'.tables.operations) {x : HistoryRow}
    (hx : db'.history? r'.id = some x) :
    r' ∈ db.tables.operations ∧ db.history? r'.id = some x ∨
      ∃ r ∈ db.tables.operations, ∃ outcome result errorCode began,
        r' = r.finalized outcome result errorCode began ∧ x = r'.toHistory began := by
  cases hold : db.history? r'.id with
  | some x₀ =>
    have hxx : x₀ = x := Option.some.inj ((h.history_kept hold).symm.trans hx)
    subst hxx
    left
    rcases (h.rows wf).origin hr' with ⟨r, hr, hc⟩ | ⟨e, he, hp⟩
    · have hfinal := (inv.final x₀ (history?_eq_some_mem hold).1).1
      rw [inv.agrees r hr x₀ (hc.sameOperation.id ▸ hold)] at hfinal
      rw [hc.eq_of_terminal hfinal]
      exact ⟨hr, rfl⟩
    · rw [inv.uncommitted e he r' hp] at hold
      cases hold
  | none =>
    right
    rcases h.history with hh | ⟨r₀, hr₀, hopen, id, outcome, result, errorCode, began, hid, ht, -, -, hh⟩
    · simp only [history?, Tables.history?, hh] at hx hold
      rw [hold] at hx
      cases hx
    · -- The new history row is the one of this row, which the same statement finalized.
      rw [ht, OperationStore.finalize_operations] at hr'
      obtain ⟨r, hr, rfl⟩ := mem_updateWhere.1 hr'
      have hrid : (if operationIdOf id = some r.id ∧ ¬ r.status.terminal then
          r.finalized outcome result errorCode began else r).id = r.id := by split <;> rfl
      rw [hrid] at hx hold
      simp only [history?, Tables.history?] at hx hold
      rw [hh, Tables.lookup_insertHistory, Tables.history?, hold, Option.none_or] at hx
      split at hx
      · rename_i hrr
        cases hx
        obtain rfl : r₀ = r := eq_of_key_eq wf.ids.nodup hr₀ hr hrr
        rw [if_pos ⟨hid, hopen⟩]
        exact ⟨r₀, hr, outcome, result, errorCode, began, rfl, rfl⟩
      · cases hx

theorem Answerable.step (inv : db.Answerable) (wf : db.WellFormed) (h : db.Stepped advisoryLockKey a db') :
    db'.Answerable := by
  have unused {u : Uuid} (hu : u ∉ db.usedIds) : db.history? u = none := by
    refine Option.eq_none_iff_forall_ne_some.2 fun x hx => hu ?_
    obtain ⟨hmem, rfl⟩ := history?_eq_some_mem hx
    exact (inv.final x hmem).2
  have fresh {e : EnqueueTxn} (he : e ∈ db'.enqueues) {row : Row} (hp : e.phase = .inserted row) :
      db.history? row.id = none :=
    (h.uncommitted_origin he hp).elim (fun he => inv.uncommitted e he row hp) fun hnew => unused hnew.2
  refine ⟨fun r' hr' ht => ?_, fun r' hr' x hx => ?_, fun x hx => ?_, fun e he row hp => ?_⟩
  · rcases h.terminal_origin wf hr' ht with hr | hsome
    · obtain ⟨x, hx⟩ := Option.isSome_iff_exists.1 (inv.terminal r' hr ht)
      rw [h.history_kept hx]
      rfl
    · exact hsome
  · rcases inv.recorded_origin wf h hr' hx with ⟨hr, hold⟩ | ⟨r, -, _, _, _, _, rfl, rfl⟩
    · exact inv.agrees r' hr x hold
    · rfl
  · rcases h.history with hh | ⟨r₀, hr₀, -, _, _, _, _, _, -, -, -, -, hh⟩
    · rw [hh] at hx
      exact ⟨(inv.final x hx).1, h.usedIds_subset (inv.final x hx).2⟩
    · rw [hh] at hx
      rcases Tables.mem_insertHistory hx with hx | rfl
      · exact ⟨(inv.final x hx).1, h.usedIds_subset (inv.final x hx).2⟩
      · exact ⟨by simp [Row.toHistory, Row.finalized],
          h.usedIds_subset (wf.ids.used r₀.id (List.mem_map_of_mem hr₀))⟩
  · have hnone := fresh he hp
    simp only [history?, Tables.history?] at hnone ⊢
    rcases h.history with hh | ⟨r₀, hr₀, -, _, _, _, _, _, -, -, -, henq, hh⟩
    · rw [hh]
      exact hnone
    · rw [hh, Tables.lookup_insertHistory, Tables.history?, hnone, Option.none_or, if_neg]
      intro hid
      refine (wf.ids.uncommitted e (henq ▸ he) row hp).2.1 ?_
      have : r₀.id ∈ db.tables.operations.map Row.id := List.mem_map_of_mem hr₀
      rwa [← hid]

theorem answerable_start (now : Nat) (partitions : List Nat) : (start now partitions).Answerable := by
  constructor <;> simp [start]

structure Sound (db : Db) : Prop where
  wellFormed : db.WellFormed
  answerable : db.Answerable

theorem Sound.step (inv : db.Sound) (h : db.Stepped advisoryLockKey a db') : db'.Sound :=
  ⟨inv.wellFormed.step h, inv.answerable.step inv.wellFormed h⟩

theorem Sound.run {ok : Db → DbAction → Db → Prop} (inv : db.Sound)
    (run : Runs (Db.step advisoryLockKey) ok db db') : db'.Sound :=
  run.invariant _ inv fun _ _ _ inv h _ => inv.step (stepped h)

theorem sound_start (now : Nat) (partitions : List Nat) : (start now partitions).Sound :=
  ⟨wellFormed_start now partitions, answerable_start now partitions⟩

theorem history_kept_run {ok : Db → DbAction → Db → Prop} {u : Uuid} {x : HistoryRow}
    (run : Runs (Db.step advisoryLockKey) ok db db') (hx : db.history? u = some x) : db'.history? u = some x :=
  run.invariant (fun db => db.history? u = some x) hx fun _ _ _ hx h _ => (stepped h).history_kept hx

/-! ## The ids that were returned -/

/-- The id was returned, or is about to be. -/
def Given (db : Db) (u : Uuid) : Prop :=
  (∃ x ∈ db.answers, x.result.id = u.text) ∨ ∃ e ∈ db.enqueues, e.phase = .found u

theorem Stepped.given_origin {u : Uuid} (h : db.Stepped advisoryLockKey a db') (given : db'.Given u) :
    db.Given u ∨ ∃ r ∈ db'.tables.operations, r.id = u := by
  have phased {db₀ : Db} (heq : db₀.enqueues = db.enqueues) {sid : Nat} {phase : EnqueuePhase}
      (hp : phase ≠ .found u) (given : ∃ e ∈ (db₀.setPhase sid phase).enqueues, e.phase = .found u) :
      db.Given u := by
    obtain ⟨e, he, hu⟩ := given
    obtain ⟨e₀, he₀, rfl⟩ := mem_setPhase.1 he
    split at hu
    · exact absurd hu hp
    · exact .inr ⟨e₀, heq ▸ he₀, hu⟩
  have ended {sid : Nat} (given : ∃ e ∈ (db.endEnqueue sid).enqueues, e.phase = .found u) : db.Given u := by
    obtain ⟨e, he, hu⟩ := given
    exact .inr ⟨e, (mem_endEnqueue.1 he).1, hu⟩
  cases h with
  | beginEnqueue =>
    left
    refine given.imp_right fun ⟨e, he, hu⟩ => ?_
    rcases List.mem_append.1 he with he | he
    · exact ⟨e, he, hu⟩
    · rw [List.mem_singleton.1 he] at hu
      cases hu
  | lockKey | lookupMissing | inserted =>
    exact .inl (given.elim .inl (phased rfl fun h => by cases h))
  | @lookupFound sid e r he phase hit =>
    rcases given with hx | hx
    · exact .inl (.inl hx)
    · by_cases hu : r.id = u
      · exact .inr ⟨r, (List.mem_filter.1 (List.mem_of_find?_eq_some hit)).1, hu⟩
      · exact .inl (phased rfl (fun h => hu (EnqueuePhase.found.inj h)) hx)
  | insertFailed | commitFoundLost | commitInsertedLost | abortEnqueue => exact .inl (given.elim .inl ended)
  | @commitFound sid e u' he phase =>
    rcases given with ⟨x, hx, hid⟩ | hx
    · rcases List.mem_append.1 hx with hx | hx
      · exact .inl (.inl ⟨x, hx, hid⟩)
      · rw [List.mem_singleton.1 hx] at hid
        obtain rfl := Uuid.text_injective hid
        exact .inl (.inr ⟨e, (lookup_some_mem he).1, phase⟩)
    · exact .inl (ended hx)
  | @commitInserted sid e row he phase =>
    rcases given with ⟨x, hx, hid⟩ | hx
    · rcases List.mem_append.1 hx with hx | hx
      · exact .inl (.inl ⟨x, hx, hid⟩)
      · rw [List.mem_singleton.1 hx] at hid
        exact .inr ⟨row, by simp [Db.insertRow, Db.answered], Uuid.text_injective hid⟩
    · exact .inl (ended hx)
  | _ => exact .inl given

theorem Stepped.answer_text (h : db.Stepped advisoryLockKey a db') {x : EnqueueAnswer} (hx : x ∈ db'.answers) :
    x ∈ db.answers ∨ ∃ u : Uuid, x.result.id = u.text := by
  cases h with
  | commitFound | commitInserted =>
    refine (List.mem_append.1 hx).imp_right fun hx => ?_
    rw [List.mem_singleton.1 hx]
    exact ⟨_, rfl⟩
  | _ => exact .inl hx

/-- Every id that was returned, or is about to be, meets `K`. -/
structure Answered (K : Uuid → Prop) (db : Db) : Prop where
  text : ∀ x ∈ db.answers, ∃ u : Uuid, x.result.id = u.text
  given : ∀ u, db.Given u → K u

theorem Answered.step {K K' : Uuid → Prop} (inv : Answered K db) (h : db.Stepped advisoryLockKey a db')
    (kept : ∀ u, db.Given u → K u → K' u) (hot : ∀ r ∈ db'.tables.operations, K' r.id) : Answered K' db' where
  text x hx := (h.answer_text hx).elim (inv.text x) id
  given u hu := by
    rcases h.given_origin hu with hu | ⟨r, hr, rfl⟩
    · exact kept u hu (inv.given u hu)
    · exact hot r hr

theorem Answered.of_answer {K : Uuid → Prop} (inv : Answered K db) {x : EnqueueAnswer} (hx : x ∈ db.answers) :
    ∃ u, x.result.id = u.text ∧ K u := by
  obtain ⟨u, hu⟩ := inv.text x hx
  exact ⟨u, hu, inv.given u (.inl ⟨x, hx, hu⟩)⟩

theorem answered_start (K : Uuid → Prop) (now : Nat) (partitions : List Nat) :
    Answered K (start now partitions) := by
  constructor <;> simp [start, Given]

/-! ## The drop of a day -/

/-- The id has a hot row or a history row. -/
def Known (db : Db) (u : Uuid) : Prop := u ∈ db.tables.operations.map Row.id ∨ (db.history? u).isSome

theorem Known.step {u : Uuid} (known : db.Known u) (inv : db.Sound) (h : db.Stepped advisoryLockKey a db')
    (finished : ∀ r ∈ db.tables.operations, r.id = u → a = .dropPartition (dayOf r.createdAt) → r.status.terminal) :
    db'.Known u := by
  have recorded (hu : (db.history? u).isSome) : db'.Known u := by
    obtain ⟨x, hx⟩ := Option.isSome_iff_exists.1 hu
    right
    rw [h.history_kept hx]
    rfl
  rcases known with hu | hu
  · obtain ⟨r, hr, rfl⟩ := List.mem_map.1 hu
    by_cases hdrop : a = .dropPartition (dayOf r.createdAt)
    · exact recorded (inv.answerable.terminal r hr (finished r hr rfl hdrop))
    · obtain ⟨r', hr', hc⟩ := (h.rows inv.wellFormed).kept hr hdrop
      exact .inl (List.mem_map.2 ⟨r', hr', hc.sameOperation.id⟩)
  · exact recorded hu

/-- The rows of the day that an `enqueue` has answered with. -/
def returnedRows (day : Nat) (db : Db) : List Row :=
  db.tables.operations.filter fun r => dayOf r.createdAt = day ∧ db.answers.any (·.result.id = r.id.text)

/-- When `DROP TABLE` runs, the accepted operations of the day are terminal, as they were when the rows were counted. -/
def dropsFinished (db : Db) (a : DbAction) (_ : Db) : Prop :=
  match a with
  | .dropPartition day => ∀ r ∈ db.returnedRows day, r.status.terminal
  | _ => True

instance : Decidable (dropsFinished db a db') :=
  match a with
  | .dropPartition day => inferInstanceAs (Decidable (∀ r ∈ db.returnedRows day, r.status.terminal))
  | .tick _ | .beginEnqueue .. | .lockKey _ | .lookupKey _ | .insertOperation .. | .commitEnqueue .. | .abortEnqueue _
  | .beginClaim .. | .lockRow .. | .commitClaim _ | .abortClaim _ | .finalize .. | .requeue _ | .deferForReadback ..
  | .reapStale .. | .createPartition _ | .countLive .. | .abortDrop _ => .isTrue trivial

theorem mem_returnedRows {day : Nat} {r : Row} :
    r ∈ db.returnedRows day ↔
      r ∈ db.tables.operations ∧ dayOf r.createdAt = day ∧ ∃ x ∈ db.answers, x.result.id = r.id.text := by
  simp [returnedRows]

/-- What holds as long as no drop takes an accepted operation that is not terminal. -/
structure Accepted (db : Db) : Prop extends db.Sound where
  answered : Answered db.Known db

theorem Known.step_of_given {u : Uuid} (known : db.Known u) (inv : db.Sound) (h : db.Stepped advisoryLockKey a db')
    (spared : db.dropsFinished a db') (given : db.Given u) : db'.Known u := by
  refine known.step inv h fun r hr hu hdrop => ?_
  subst hu hdrop
  rcases given with hx | ⟨e, he, hu⟩
  · exact spared r (mem_returnedRows.2 ⟨hr, rfl, hx⟩)
  · cases h with
    | dropPartition _ _ untouched =>
      have touched := untouched e he
      simp [hu, EnqueuePhase.touchesTable] at touched

theorem Accepted.step (inv : db.Accepted) (h : db.Stepped advisoryLockKey a db') (spared : db.dropsFinished a db') :
    db'.Accepted :=
  ⟨inv.toSound.step h, inv.answered.step h
    (fun _ given known => known.step_of_given inv.toSound h spared given) fun _ hr => .inl (List.mem_map_of_mem hr)⟩

theorem Accepted.run (inv : db.Accepted) (run : Runs (Db.step advisoryLockKey) dropsFinished db db') :
    db'.Accepted :=
  run.invariant _ inv fun _ _ _ inv h spared => inv.step (stepped h) spared

theorem accepted_start (now : Nat) (partitions : List Nat) : (start now partitions).Accepted :=
  ⟨sound_start now partitions, answered_start _ now partitions⟩

theorem Sound.recorded {id : String} {u : Uuid} {report : OperationStatusRow} (inv : db.Sound)
    (run : Runs (Db.step advisoryLockKey) anyStep db db') (hid : operationIdOf id = some u)
    (hreport : OperationStore.getStatus db.tables db'.tables id = some report)
    (ht : report.status.terminal) : ∃ x, db'.history? u = some x ∧ x.status = report.status := by
  simp only [OperationStore.getStatus, hid] at hreport
  split at hreport
  · rename_i r hr
    obtain rfl := Option.some.inj hreport
    obtain ⟨hmem, rfl⟩ := lookup_some_mem hr
    obtain ⟨x, hx⟩ := Option.isSome_iff_exists.1 (inv.answerable.terminal r hmem ht)
    exact ⟨x, history_kept_run run hx, inv.answerable.agrees r hmem x hx⟩
  · obtain ⟨x, hx, rfl⟩ := Option.map_eq_some_iff.1 hreport
    exact ⟨x, hx, rfl⟩

theorem Sound.getStatus_of_recorded {id : String} {u : Uuid} {x : HistoryRow} (inv : db.Sound)
    (run : Runs (Db.step advisoryLockKey) anyStep db db') (hid : operationIdOf id = some u)
    (hx : db.history? u = some x) :
    ∃ report, OperationStore.getStatus db.tables db'.tables id = some report ∧ report.status = x.status := by
  simp only [OperationStore.getStatus, hid]
  split
  · rename_i r hr
    obtain ⟨hmem, rfl⟩ := lookup_some_mem hr
    exact ⟨_, rfl, (inv.answerable.agrees r hmem x hx).symm⟩
  · have hkept : db'.tables.history? u = some x := history_kept_run run hx
    rw [hkept]
    exact ⟨_, rfl, rfl⟩

theorem Sound.getStatus_of_known {id : String} {u : Uuid} (inv : db.Sound)
    (run : Runs (Db.step advisoryLockKey) anyStep db db') (hid : operationIdOf id = some u)
    (known : db.Known u) : (OperationStore.getStatus db.tables db'.tables id).isSome := by
  rcases known with hu | hu
  · simp only [OperationStore.getStatus, hid]
    split
    · rfl
    · rename_i hnone
      exact absurd hu (lookup_none_iff.1 hnone)
  · obtain ⟨x, hx⟩ := Option.isSome_iff_exists.1 hu
    obtain ⟨report, hreport, -⟩ := inv.getStatus_of_recorded run hid hx
    rw [hreport]
    rfl

end Db

end Provisioning
