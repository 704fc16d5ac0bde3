import Provisioning.Ops.EnqueueOnce

/-!
# One key for each operation id

An id is drawn for one transaction, and whoever learns of it later looked up the key of that
transaction. So no call of `enqueue` is answered with an id of another key, also after the rows of a
day are dropped.
-/

namespace Provisioning

open Lib

variable {advisoryLockKey : String → BitVec 64} {db db' : Db} {a : DbAction} {u : Uuid} {key : String}

namespace Db

/-- A row, a transaction in flight or an answer has the id `u` for `key`. -/
def Carries (db : Db) (u : Uuid) (key : String) : Prop :=
  (u, key) ∈ db.keyed ∨
    (∃ e ∈ db.enqueues, e.op.idempotencyKey = key ∧
      (e.phase = .found u ∨ ∃ row, e.phase = .inserted row ∧ row.id = u)) ∨
    ∃ x ∈ db.answers, x.key = key ∧ x.result.id = u.text

structure OneKeyAnId (db : Db) : Prop where
  named : ∀ x ∈ db.answers, ∃ u : Uuid, x.result.id = u.text
  used : ∀ u key, db.Carries u key → u ∈ db.usedIds
  one : ∀ u key key', db.Carries u key → db.Carries u key' → key = key'

/-! ## Where a carried id comes from -/

theorem carries_of_quiet (hkeyed : db'.keyed ⊆ db.keyed)
    (henq : ∀ e ∈ db'.enqueues, e ∈ db.enqueues ∨ (∀ u, e.phase ≠ .found u) ∧ ∀ row, e.phase ≠ .inserted row)
    (hans : db'.answers = db.answers) (h : db'.Carries u key) : db.Carries u key := by
  rcases h with h | ⟨e, he, hkey, hphase⟩ | h
  · exact .inl (hkeyed h)
  · rcases henq e he with hold | ⟨hfound, hinserted⟩
    · exact .inr (.inl ⟨e, hold, hkey, hphase⟩)
    · rcases hphase with hphase | ⟨row, hphase, -⟩
      · exact absurd hphase (hfound u)
      · exact absurd hphase (hinserted row)
  · exact .inr (.inr (hans ▸ h))

theorem carries_setPhase {sid : Nat} {e : EnqueueTxn} {phase : EnqueuePhase} (sessions : db.Sessions)
    (he : db.enqueue? sid = some e) (h : (db.setPhase sid phase).Carries u key) :
    db.Carries u key ∨ e.op.idempotencyKey = key ∧ (phase = .found u ∨ ∃ row, phase = .inserted row ∧ row.id = u) := by
  rcases h with h | ⟨e', he', hkey, hphase⟩ | h
  · exact .inl (.inl h)
  · obtain ⟨e₁, h₁, rfl⟩ := mem_setPhase.1 he'
    by_cases hs : e₁.sid = sid
    · obtain rfl := sessions.enqueue_eq he h₁ hs
      rw [if_pos hs] at hkey hphase
      exact .inr ⟨hkey, hphase⟩
    · rw [if_neg hs] at hkey hphase
      exact .inl (.inr (.inl ⟨e₁, h₁, hkey, hphase⟩))
  · exact .inl (.inr (.inr h))

theorem carries_endEnqueue {sid : Nat} {e : EnqueueTxn} {v : Uuid} (h : db'.Carries u key)
    (he : db.enqueue? sid = some e) (hphase : e.phase = .found v ∨ ∃ row, e.phase = .inserted row ∧ row.id = v)
    (hkeyed : db'.keyed = db.keyed ∨ db'.keyed = db.keyed ++ [(v, e.op.idempotencyKey)])
    (henq : db'.enqueues = (db.endEnqueue sid).enqueues)
    (hans : db'.answers = db.answers ∨ ∃ b, db'.answers = db.answers ++ [⟨e.op.idempotencyKey, ⟨v.text, b⟩⟩]) :
    db.Carries u key := by
  have hown : db.Carries v e.op.idempotencyKey := .inr (.inl ⟨e, (lookup_some_mem he).1, rfl, hphase⟩)
  rcases h with h | ⟨e', he', hkey, hphase'⟩ | ⟨x, hx, hkey, hid⟩
  · have hmem : (u, key) ∈ db.keyed ∨ (u, key) = (v, e.op.idempotencyKey) := by
      rcases hkeyed with hk | hk <;> rw [hk] at h
      · exact .inl h
      · simpa using h
    rcases hmem with hmem | heq
    · exact .inl hmem
    · obtain ⟨rfl, rfl⟩ := Prod.mk.inj heq
      exact hown
  · exact .inr (.inl ⟨e', (mem_endEnqueue.1 (henq ▸ he')).1, hkey, hphase'⟩)
  · have hmem : x ∈ db.answers ∨ ∃ b, x = ⟨e.op.idempotencyKey, ⟨v.text, b⟩⟩ := by
      rcases hans with ha | ⟨b, ha⟩ <;> rw [ha] at hx
      · exact .inl hx
      · exact (List.mem_append.1 hx).imp_right fun hx => ⟨b, List.mem_singleton.1 hx⟩
    rcases hmem with hmem | ⟨b, rfl⟩
    · exact .inr (.inr ⟨x, hmem, hkey, hid⟩)
    · obtain rfl : v = u := Uuid.text_injective hid
      exact hkey ▸ hown

theorem Stepped.carries_origin (wf : db.WellFormed) (h : db.Stepped advisoryLockKey a db')
    (hc : db'.Carries u key) : db.Carries u key ∨
      ∃ sid e, a = .insertOperation sid u ∧ db.enqueue? sid = some e ∧ e.op.idempotencyKey = key ∧
        u ∉ db.usedIds ∧ u ∈ db'.usedIds := by
  have quiet (henq : ∀ e ∈ db'.enqueues, e ∈ db.enqueues ∨ e.phase = .begun) (hkeyed : db'.keyed ⊆ db.keyed)
      (hans : db'.answers = db.answers) : db.Carries u key :=
    carries_of_quiet hkeyed (fun e he => (henq e he).imp_right fun hb => by simp [hb]) hans hc
  have hsub : (∃ sid b, a = .commitEnqueue sid b) ∨ db'.keyed ⊆ db.keyed := by
    rcases h.keyed with hkeyed | ⟨sid, b, _, _, ha, -⟩ | ⟨-, hkeyed, -⟩
    · exact .inr (hkeyed ▸ List.Subset.refl _)
    · exact .inl ⟨sid, b, ha⟩
    · exact .inr hkeyed.subset
  cases h with
  | beginEnqueue op fresh =>
    refine .inl (quiet (fun e he => ?_) (List.Subset.refl _) rfl)
    rcases List.mem_append.1 he with he | he
    · exact .inl he
    · rw [List.mem_singleton.1 he]
      exact .inr rfl
  | lockKey he => exact .inl ((carries_setPhase wf.sessions he hc).resolve_right (by simp))
  | lookupMissing he => exact .inl ((carries_setPhase wf.sessions he hc).resolve_right (by simp))
  | @lookupFound sid e prior he phase hit =>
    rcases carries_setPhase wf.sessions he hc with hold | ⟨rfl, hfound⟩
    · exact .inl hold
    · obtain ⟨hmem, hprior⟩ := Tables.latestWithKey_mem hit
      have hid : prior.id = u := by simpa using hfound
      refine .inl (.inl ?_)
      rw [← hid, ← hprior]
      exact List.mem_map_of_mem hmem
  | @inserted sid e newId he phase fresh =>
    have sessions : { db with usedIds := db.usedIds ++ [newId] }.Sessions := ⟨wf.sessions.enqueues, wf.sessions.claims⟩
    rcases carries_setPhase sessions he hc with hold | ⟨hkey, hnew⟩
    · exact .inl hold
    · obtain rfl : newId = u := by simpa [EnqueueInput.newRow] using hnew
      exact .inr ⟨sid, e, rfl, he, hkey, fresh, by simp [setPhase]⟩
  | commitFound he phase => exact .inl (carries_endEnqueue hc he (.inl phase) (.inl rfl) rfl (.inr ⟨true, rfl⟩))
  | @commitInserted sid e row he phase =>
    have hkeyed : ((db.endEnqueue sid).insertRow row).keyed = db.keyed ++ [(row.id, e.op.idempotencyKey)] :=
      keyed_insertRow wf.ids he phase rfl
    exact .inl (carries_endEnqueue hc he (.inr ⟨_, phase, rfl⟩) (.inr hkeyed) rfl (.inr ⟨false, rfl⟩))
  | @commitInsertedLost sid e row he phase =>
    have hkeyed : ((db.endEnqueue sid).insertRow row).keyed = db.keyed ++ [(row.id, e.op.idempotencyKey)] :=
      keyed_insertRow wf.ids he phase rfl
    exact .inl (carries_endEnqueue hc he (.inr ⟨_, phase, rfl⟩) (.inr hkeyed) rfl (.inl rfl))
  | insertFailed | commitFoundLost | abortEnqueue =>
    exact .inl (quiet (fun e he => .inl (mem_endEnqueue.1 he).1) (List.Subset.refl _) rfl)
  | _ => exact .inl (quiet (fun e he => .inl he) (hsub.resolve_left (by simp)) rfl)

theorem Stepped.answer_origin (h : db.Stepped advisoryLockKey a db') {x : EnqueueAnswer} (hx : x ∈ db'.answers) :
    x ∈ db.answers ∨ ∃ u : Uuid, x.result.id = u.text := by
  cases h with
  | commitFound | commitInserted =>
    rcases List.mem_append.1 hx with hx | hx
    · exact .inl hx
    · rw [List.mem_singleton.1 hx]
      exact .inr ⟨_, rfl⟩
  | _ => exact .inl hx

theorem OneKeyAnId.step (inv : db.OneKeyAnId) (wf : db.WellFormed) (h : db.Stepped advisoryLockKey a db') :
    db'.OneKeyAnId := by
  constructor
  · intro x hx
    rcases h.answer_origin hx with hold | hnew
    · exact inv.named x hold
    · exact hnew
  · intro u key hc
    rcases h.carries_origin wf hc with hold | ⟨-, -, -, -, -, -, hused⟩
    · exact h.usedIds_subset (inv.used u key hold)
    · exact hused
  · intro u key key' hc hc'
    rcases h.carries_origin wf hc with hold | ⟨sid, e, ha, he, hkey, hfresh, -⟩
    · rcases h.carries_origin wf hc' with hold' | ⟨-, -, -, -, -, hfresh, -⟩
      · exact inv.one u key key' hold hold'
      · exact absurd (inv.used u key hold) hfresh
    · rcases h.carries_origin wf hc' with hold' | ⟨sid', e', ha', he', hkey', -⟩
      · exact absurd (inv.used u key' hold') hfresh
      · obtain ⟨rfl, -⟩ := DbAction.insertOperation.inj (ha.symm.trans ha')
        obtain rfl := Option.some.inj (he.symm.trans he')
        exact hkey.symm.trans hkey'

theorem Reachable.oneKeyAnId (h : Reachable advisoryLockKey db) : db.OneKeyAnId := by
  obtain ⟨now, partitions, run⟩ := h
  refine (run.invariant (fun db => db.WellFormed ∧ db.OneKeyAnId) ⟨wellFormed_start now partitions, ?_⟩
    fun s a s' inv h _ => ⟨inv.1.step (stepped h), inv.2.step inv.1 (stepped h)⟩).2
  have hnone : ∀ u key, ¬ (start now partitions).Carries u key := by
    intro u key h
    simp [Carries, start, keyed] at h
  exact ⟨by simp [start], fun u key h => absurd h (hnone u key), fun u key _ h => absurd h (hnone u key)⟩

/-- **Calls that are answered with one id looked up one key.** -/
theorem Reachable.key_of_id (h : Reachable advisoryLockKey db) {x y : EnqueueAnswer} (hx : x ∈ db.answers)
    (hy : y ∈ db.answers) (hid : x.result.id = y.result.id) : x.key = y.key := by
  obtain ⟨u, hu⟩ := h.oneKeyAnId.named x hx
  exact h.oneKeyAnId.one u x.key y.key (.inr (.inr ⟨x, hx, rfl, hu⟩)) (.inr (.inr ⟨y, hy, rfl, hid.symm.trans hu⟩))

end Db

end Provisioning
