import Provisioning.Lib.Rank
import Provisioning.Ops.WellFormed

/-!
# One operation for each idempotency key

The chain is: lock, lookup, insert, commit, and only then the release of the lock. Two keys may
share a lock. As long as no day is dropped, a committed row keeps its key.
-/

namespace Provisioning

open Lib

variable {advisoryLockKey : String → BitVec 64} {db db' : Db} {a : DbAction}

/-! ## The lookup -/

theorem Tables.mem_withKey {t : Tables} {key : String} {r : Row} :
    r ∈ t.withKey key ↔ r ∈ t.operations ∧ r.idempotencyKey = key := by
  simp [withKey]

theorem Tables.latestWithKey_mem {t : Tables} {key : String} {prior : Row}
    (h : t.latestWithKey key = some prior) : prior ∈ t.operations ∧ prior.idempotencyKey = key :=
  mem_withKey.1 (List.mem_of_find?_eq_some h)

theorem Tables.latestWithKey_eq_none {t : Tables} {key : String} (h : t.latestWithKey key = none) :
    ∀ r ∈ t.operations, r.idempotencyKey ≠ key := by
  intro r hr hkey
  have hmem : r ∈ t.withKey key := mem_withKey.2 ⟨hr, hkey⟩
  obtain ⟨m, hm, hlast⟩ := exists_first (fun a b : Row => b.createdAt < a.createdAt)
    (fun _ _ _ h₁ h₂ => Nat.lt_trans h₂ h₁) (fun _ => Nat.lt_irrefl _) (List.ne_nil_of_mem hmem)
  have := List.find?_eq_none.1 h m hm
  simp only [decide_eq_true_eq] at this
  exact this fun r' hr' => Nat.le_of_not_lt (hlast r' hr')

/-! ## The invariant -/

/-- The action is not a partition drop. -/
def DbAction.keepsDays : DbAction → Bool
  | .dropPartition .. => false
  | _ => true

namespace Db

/-- The committed rows, each by its id and its key. -/
def keyed (db : Db) : List (Uuid × String) := db.tables.operations.map fun r => (r.id, r.idempotencyKey)

theorem keyed_fst : db.keyed.map Prod.fst = db.tables.operations.map Row.id := by
  simp [keyed, Function.comp_def]

/-- The calls with this key that said they inserted the row. -/
def insertions (db : Db) (key : String) : Nat :=
  db.answers.countP fun a => a.key = key ∧ a.result.deduplicated = false

/-- What the lock guarantees, also when days are dropped. -/
structure KeyLocked (advisoryLockKey : String → BitVec 64) (db : Db) : Prop where
  /-- One transaction at a time holds a lock. -/
  exclusive : ∀ e ∈ db.enqueues, ∀ e' ∈ db.enqueues, e.phase.holdsLock → e'.phase.holdsLock →
    advisoryLockKey e.op.idempotencyKey = advisoryLockKey e'.op.idempotencyKey → e.sid = e'.sid
  /-- A lookup that found nothing is still right. -/
  missing : ∀ e ∈ db.enqueues, (e.phase = .missing ∨ ∃ row, e.phase = .inserted row) →
    e.op.idempotencyKey ∉ db.keyed.map Prod.snd
  found : ∀ e ∈ db.enqueues, ∀ id, e.phase = .found id → (id, e.op.idempotencyKey) ∈ db.keyed
  keys : (db.keyed.map Prod.snd).Nodup

structure EnqueueOnce (advisoryLockKey : String → BitVec 64) (db : Db) : Prop
    extends db.KeyLocked advisoryLockKey where
  answers : ∀ a ∈ db.answers, ∃ u, (u, a.key) ∈ db.keyed ∧ a.result.id = u.text
  lost : ∀ u ∈ db.lostAcks, u ∈ db.keyed.map Prod.fst
  insertions : ∀ u key, (u, key) ∈ db.keyed → db.insertions key = if u ∈ db.lostAcks then 0 else 1

theorem keyed_updateWhere {p : Row → Prop} [DecidablePred p] {f : Row → Row}
    (hops : db'.tables.operations = updateWhere p f db.tables.operations)
    (hf : ∀ r, p r → (f r).id = r.id ∧ (f r).idempotencyKey = r.idempotencyKey) : db'.keyed = db.keyed := by
  rw [keyed, hops]
  refine keys_updateWhere fun r hp => ?_
  rw [(hf r hp).1, (hf r hp).2]

/-! ## The lock -/

theorem KeyLocked.of_quiet (inv : db.KeyLocked advisoryLockKey) (hkeyed : db'.keyed.Sublist db.keyed)
    (henq : ∀ e ∈ db'.enqueues, e ∈ db.enqueues ∨ e.phase = .begun)
    (hfound : db'.keyed = db.keyed ∨ ∀ e ∈ db.enqueues, ¬ e.phase.touchesTable) :
    db'.KeyLocked advisoryLockKey where
  exclusive e he e' he' hl hl' := by
    rcases henq e he with he | hb
    · rcases henq e' he' with he' | hb'
      · exact inv.exclusive e he e' he' hl hl'
      · simp [hb', EnqueuePhase.holdsLock] at hl'
    · simp [hb, EnqueuePhase.holdsLock] at hl
  missing e he hp := by
    rcases henq e he with he | hb
    · exact fun hin => inv.missing e he hp ((hkeyed.map _).subset hin)
    · simp [hb] at hp
  found e he id hp := by
    rcases henq e he with he | hb
    · rcases hfound with hsame | hidle
      · exact hsame ▸ inv.found e he id hp
      · exact absurd (by rw [hp]; rfl) (hidle e he)
    · simp [hb] at hp
  keys := inv.keys.sublist (hkeyed.map _)

theorem KeyLocked.setPhase (inv : db.KeyLocked advisoryLockKey) (sessions : db.Sessions) {sid : Nat}
    {e : EnqueueTxn} {phase : EnqueuePhase} (he : db.enqueue? sid = some e)
    (alone : ∀ e' ∈ db.enqueues, e'.sid ≠ sid → e'.phase.holdsLock →
      advisoryLockKey e'.op.idempotencyKey ≠ advisoryLockKey e.op.idempotencyKey)
    (missing : (phase = .missing ∨ ∃ row, phase = .inserted row) →
      e.op.idempotencyKey ∉ db.keyed.map Prod.snd)
    (found : ∀ id, phase = .found id → (id, e.op.idempotencyKey) ∈ db.keyed) :
    (db.setPhase sid phase).KeyLocked advisoryLockKey where
  exclusive e₁ he₁ e₂ he₂ hl₁ hl₂ heq := by
    obtain ⟨e₁, h₁, rfl⟩ := mem_setPhase.1 he₁
    obtain ⟨e₂, h₂, rfl⟩ := mem_setPhase.1 he₂
    by_cases hs₁ : e₁.sid = sid <;> by_cases hs₂ : e₂.sid = sid
    · simp [hs₁, hs₂]
    · obtain rfl := sessions.enqueue_eq he h₁ hs₁
      simp only [hs₁, hs₂, if_true, if_false] at hl₂ heq
      exact absurd heq.symm (alone e₂ h₂ hs₂ hl₂)
    · obtain rfl := sessions.enqueue_eq he h₂ hs₂
      simp only [hs₁, hs₂, if_true, if_false] at hl₁ heq
      exact absurd heq (alone e₁ h₁ hs₁ hl₁)
    · simp only [hs₁, hs₂, if_false] at hl₁ hl₂ heq ⊢
      exact inv.exclusive e₁ h₁ e₂ h₂ hl₁ hl₂ heq
  missing e₁ he₁ hp := by
    obtain ⟨e₁, h₁, rfl⟩ := mem_setPhase.1 he₁
    by_cases hs : e₁.sid = sid
    · obtain rfl := sessions.enqueue_eq he h₁ hs
      simp only [hs, if_true] at hp ⊢
      exact missing hp
    · simp only [hs, if_false] at hp ⊢
      exact inv.missing e₁ h₁ hp
  found e₁ he₁ id hp := by
    obtain ⟨e₁, h₁, rfl⟩ := mem_setPhase.1 he₁
    by_cases hs : e₁.sid = sid
    · obtain rfl := sessions.enqueue_eq he h₁ hs
      simp only [hs, if_true] at hp ⊢
      exact found id hp
    · simp only [hs, if_false] at hp ⊢
      exact inv.found e₁ h₁ id hp
  keys := inv.keys

/-- The transaction itself holds the lock, so no other one with its hash does. -/
theorem KeyLocked.alone (inv : db.KeyLocked advisoryLockKey) {sid : Nat} {e : EnqueueTxn}
    (he : db.enqueue? sid = some e) (hl : e.phase.holdsLock) :
    ∀ e' ∈ db.enqueues, e'.sid ≠ sid → e'.phase.holdsLock →
      advisoryLockKey e'.op.idempotencyKey ≠ advisoryLockKey e.op.idempotencyKey := by
  intro e' he' hs hl' heq
  obtain ⟨hmem, hsid⟩ := lookup_some_mem he
  exact hs (hsid ▸ inv.exclusive e' he' e hmem hl' hl heq)

theorem KeyLocked.insertRow (inv : db.KeyLocked advisoryLockKey) {sid : Nat} {e : EnqueueTxn} {row : Row}
    (he : db.enqueue? sid = some e) (phase : e.phase = .inserted row)
    (hkeyed : db'.keyed = db.keyed ++ [(row.id, e.op.idempotencyKey)])
    (henq : db'.enqueues = (db.endEnqueue sid).enqueues) : db'.KeyLocked advisoryLockKey := by
  have hmem := (lookup_some_mem he).1
  have hother : ∀ e' ∈ db'.enqueues, e' ∈ db.enqueues ∧ e'.sid ≠ sid := fun e' he' =>
    mem_endEnqueue.1 (henq ▸ he')
  refine ⟨fun e₁ h₁ e₂ h₂ => inv.exclusive e₁ (hother e₁ h₁).1 e₂ (hother e₂ h₂).1, fun e' he' hp => ?_,
    fun e' he' id hp => ?_, ?_⟩
  · rw [hkeyed, List.map_append, List.mem_append, List.map_singleton, List.mem_singleton]
    rintro (h | h)
    · exact inv.missing e' (hother e' he').1 hp h
    · refine inv.alone he ?_ e' (hother e' he').1 (hother e' he').2 ?_ (congrArg _ h)
      · rw [phase]; rfl
      · rcases hp with hp | ⟨row', hp⟩ <;> rw [hp] <;> rfl
  · exact hkeyed ▸ List.mem_append_left _ (inv.found e' (hother e' he').1 id hp)
  · exact hkeyed ▸ nodup_append_singleton inv.keys (inv.missing e hmem (.inr ⟨row, phase⟩))

theorem keyed_insertRow (ids : db.Ids) {sid : Nat} {e : EnqueueTxn} {row : Row} (he : db.enqueue? sid = some e)
    (phase : e.phase = .inserted row) (hrows : db'.tables.operations = db.tables.operations ++ [row]) :
    db'.keyed = db.keyed ++ [(row.id, e.op.idempotencyKey)] := by
  have hrow := (ids.uncommitted e (lookup_some_mem he).1 row phase).2.2
  have hkey : row.idempotencyKey = e.op.idempotencyKey := by rw [hrow]; rfl
  rw [keyed, hrows, List.map_append, List.map_singleton, hkey, keyed]

theorem Stepped.keyed (h : db.Stepped advisoryLockKey a db') :
    db'.keyed = db.keyed ∨
      (∃ sid b e row, a = .commitEnqueue sid b ∧ db.enqueue? sid = some e ∧ e.phase = .inserted row ∧
        db'.tables.operations = db.tables.operations ++ [row] ∧ db'.enqueues = (db.endEnqueue sid).enqueues) ∨
      ¬ a.keepsDays ∧ db'.keyed.Sublist db.keyed ∧ db'.enqueues = db.enqueues ∧
        ∀ e ∈ db.enqueues, ¬ e.phase.touchesTable := by
  cases h with
  | commitInserted he phase | commitInsertedLost he phase => exact .inr (.inl ⟨_, _, _, _, rfl, he, phase, rfl, rfl⟩)
  | commitClaim => exact .inl (keyed_updateWhere rfl fun _ _ => ⟨rfl, rfl⟩)
  | finalize => exact .inl (keyed_updateWhere OperationStore.finalize_operations fun _ _ => ⟨rfl, rfl⟩)
  | requeue => exact .inl (keyed_updateWhere OperationStore.requeue_operations fun _ _ => ⟨rfl, rfl⟩)
  | deferForReadback =>
    exact .inl (keyed_updateWhere OperationStore.deferForReadback_operations fun _ _ => ⟨rfl, rfl⟩)
  | reapStale =>
    refine .inl (keyed_updateWhere OperationStore.reapStale_operations fun r _ => ?_)
    split <;> exact ⟨rfl, rfl⟩
  | createPartition => exact .inl (by rw [Db.keyed, operations_createPartition, Db.keyed])
  | dropPartition _ _ untouched =>
    exact .inr (.inr ⟨by simp [DbAction.keepsDays], List.filter_sublist.map _, rfl, untouched⟩)
  | _ => exact .inl rfl

theorem KeyLocked.step (inv : db.KeyLocked advisoryLockKey) (wf : db.WellFormed)
    (h : db.Stepped advisoryLockKey a db') : db'.KeyLocked advisoryLockKey := by
  have still (henq : ∀ e ∈ db'.enqueues, e ∈ db.enqueues ∨ e.phase = .begun) : db'.KeyLocked advisoryLockKey := by
    rcases h.keyed with hkeyed | ⟨sid, -, e, row, -, he, phase, hrows, henq⟩ | ⟨-, hkeyed, -, untouched⟩
    · exact inv.of_quiet (hkeyed ▸ List.Sublist.refl _) henq (.inl hkeyed)
    · exact inv.insertRow he phase (keyed_insertRow wf.ids he phase hrows) henq
    · exact inv.of_quiet hkeyed henq (.inr untouched)
  cases h with
  | beginEnqueue =>
    refine still fun e he => ?_
    rcases List.mem_append.1 he with he | he
    · exact .inl he
    · rw [List.mem_singleton.1 he]
      exact .inr rfl
  | lockKey he phase free =>
    exact inv.setPhase wf.sessions he (fun e' he' _ => free e' he') (by simp) (by simp)
  | lookupFound he phase hit =>
    obtain ⟨hmem, hkey⟩ := Tables.latestWithKey_mem hit
    refine inv.setPhase wf.sessions he (inv.alone he (by rw [phase]; rfl)) (by simp) fun id hid => ?_
    cases hid
    exact hkey ▸ List.mem_map_of_mem hmem
  | lookupMissing he phase miss =>
    refine inv.setPhase wf.sessions he (inv.alone he (by rw [phase]; rfl)) (fun _ hin => ?_) (by simp)
    simp only [keyed, List.map_map, List.mem_map] at hin
    obtain ⟨r, hr, hkey⟩ := hin
    exact Tables.latestWithKey_eq_none miss r hr hkey
  | inserted he phase =>
    exact { inv.setPhase wf.sessions he (inv.alone he (by rw [phase]; rfl))
      (fun _ => inv.missing _ (lookup_some_mem he).1 (.inl phase)) (by simp) with }
  | insertFailed | commitFound | commitFoundLost | commitInserted | commitInsertedLost | abortEnqueue =>
    exact still fun e he => .inl (mem_endEnqueue.1 he).1
  | _ => exact still fun e he => .inl he

/-! ## The answers -/

theorem EnqueueOnce.answered (inv : db.EnqueueOnce advisoryLockKey) {key : String} {u : Uuid}
    (locked : db'.KeyLocked advisoryLockKey) (hkeyed : db'.keyed = db.keyed)
    (hans : db'.answers = db.answers ++ [⟨key, ⟨u.text, true⟩⟩]) (hlost : db'.lostAcks = db.lostAcks)
    (hu : (u, key) ∈ db.keyed) : db'.EnqueueOnce advisoryLockKey :=
  { locked with
    answers := fun a ha => by
      rw [hkeyed]
      rcases List.mem_append.1 (hans ▸ ha) with ha | ha
      · exact inv.answers a ha
      · rw [List.mem_singleton.1 ha]
        exact ⟨u, hu, rfl⟩
    lost := fun v hv => hkeyed ▸ inv.lost v (hlost ▸ hv)
    insertions := fun v k hv => by
      have hsame : db'.insertions k = db.insertions k := by
        simp [Db.insertions, hans]
      rw [hsame, hlost]
      exact inv.insertions v k (hkeyed ▸ hv) }

theorem EnqueueOnce.insertRow (inv : db.EnqueueOnce advisoryLockKey) (ids : db.Ids) {sid : Nat}
    {e : EnqueueTxn} {row : Row} (he : db.enqueue? sid = some e) (phase : e.phase = .inserted row)
    (locked : db'.KeyLocked advisoryLockKey)
    (hans : db'.answers = db.answers ∧ db'.lostAcks = db.lostAcks ++ [row.id] ∨
      db'.answers = db.answers ++ [⟨e.op.idempotencyKey, ⟨row.id.text, false⟩⟩] ∧ db'.lostAcks = db.lostAcks)
    (hrows : db'.tables.operations = db.tables.operations ++ [row]) : db'.EnqueueOnce advisoryLockKey := by
  have hmem := (lookup_some_mem he).1
  have hnew := (ids.uncommitted e hmem row phase).2.1
  have hkeyed := keyed_insertRow ids he phase hrows
  have hfresh : e.op.idempotencyKey ∉ db.keyed.map Prod.snd := inv.missing e hmem (.inr ⟨row, phase⟩)
  have hunseen : ∀ a ∈ db.answers, a.key ≠ e.op.idempotencyKey := fun a ha hk => by
    obtain ⟨u, hu, -⟩ := inv.answers a ha
    exact hfresh (hk ▸ List.mem_map_of_mem hu)
  have hnone : db.insertions e.op.idempotencyKey = 0 := by
    refine List.countP_eq_zero.2 fun a ha => ?_
    simp [hunseen a ha]
  have hlost : row.id ∉ db.lostAcks := fun h => hnew (keyed_fst ▸ inv.lost _ h)
  refine { locked with answers := fun a ha => ?_, lost := fun u hu => ?_, insertions := fun u key hu => ?_ }
  · have : a ∈ db.answers ∨ a = ⟨e.op.idempotencyKey, ⟨row.id.text, false⟩⟩ := by
      rcases hans with ⟨hans, -⟩ | ⟨hans, -⟩ <;> rw [hans] at ha
      · exact .inl ha
      · simpa using ha
    rw [hkeyed]
    rcases this with ha | rfl
    · obtain ⟨u, hu, hid⟩ := inv.answers a ha
      exact ⟨u, List.mem_append_left _ hu, hid⟩
    · exact ⟨row.id, by simp, rfl⟩
  · rw [hkeyed, List.map_append, List.mem_append, List.map_singleton, List.mem_singleton]
    have : u ∈ db.lostAcks ∨ u = row.id := by
      rcases hans with ⟨-, hlost'⟩ | ⟨-, hlost'⟩ <;> rw [hlost'] at hu
      · simpa using hu
      · exact .inl hu
    exact this.imp_left fun hu => inv.lost u hu
  · rw [hkeyed, List.mem_append, List.mem_singleton, Prod.mk.injEq] at hu
    rcases hu with hu | ⟨rfl, rfl⟩
    · have hk : key ≠ e.op.idempotencyKey := fun h => hfresh (h ▸ List.mem_map_of_mem hu)
      have hid : u ≠ row.id := fun h => hnew (keyed_fst ▸ h ▸ List.mem_map_of_mem hu)
      have hcount := inv.insertions u key hu
      rcases hans with ⟨hans, hlost'⟩ | ⟨hans, hlost'⟩
      · simpa [Db.insertions, hans, hlost', hid] using hcount
      · simpa [Db.insertions, hans, hlost', hk.symm] using hcount
    · rcases hans with ⟨hans, hlost'⟩ | ⟨hans, hlost'⟩
      · rw [Db.insertions, hans, hlost', if_pos (by simp)]
        exact hnone
      · rw [Db.insertions] at hnone
        rw [Db.insertions, hans, hlost', List.countP_append, hnone, if_neg hlost]
        simp

theorem EnqueueOnce.step (inv : db.EnqueueOnce advisoryLockKey) (wf : db.WellFormed)
    (keeps : a.keepsDays) (h : db.Stepped advisoryLockKey a db') : db'.EnqueueOnce advisoryLockKey := by
  have locked := inv.toKeyLocked.step wf h
  have still (hkeyed : db'.keyed = db.keyed) (hans : db'.answers = db.answers)
      (hlost : db'.lostAcks = db.lostAcks) : db'.EnqueueOnce advisoryLockKey :=
    { locked with
      answers := fun a ha => hkeyed ▸ inv.answers a (hans ▸ ha)
      lost := fun u hu => hkeyed ▸ inv.lost u (hlost ▸ hu)
      insertions := fun u key hu => by
        rw [hlost, Db.insertions, hans]
        exact inv.insertions u key (hkeyed ▸ hu) }
  have hkeyed := h.keyed
  cases h with
  | commitFound he phase =>
    exact inv.answered locked rfl rfl rfl (inv.found _ (lookup_some_mem he).1 _ phase)
  | commitInserted he phase => exact inv.insertRow wf.ids he phase locked (.inr ⟨rfl, rfl⟩) rfl
  | commitInsertedLost he phase => exact inv.insertRow wf.ids he phase locked (.inl ⟨rfl, rfl⟩) rfl
  | commitFoundLost => exact still rfl rfl rfl
  | dropPartition => cases keeps
  | _ =>
    rcases hkeyed with hkeyed | ⟨_, _, _, _, hcommit, -⟩ | ⟨hdrops, -⟩
    · exact still hkeyed rfl rfl
    · cases hcommit
    · exact absurd keeps hdrops

theorem enqueueOnce_start (now : Nat) (partitions : List Nat) :
    (start now partitions).EnqueueOnce advisoryLockKey := by
  refine ⟨⟨?_, ?_, ?_, ?_⟩, ?_, ?_, ?_⟩ <;> simp [start, keyed]

/-! ## The result -/

/-- **Idempotent enqueue.** Whatever the interleaving, a key has at most one row, every successful
call with the key returns the id of that row, and exactly one call says that it inserted the row,
or none when the inserting call did not hear of its commit. -/
theorem enqueue_once {now : Nat} {partitions : List Nat}
    (run : Runs (Db.step advisoryLockKey) (fun _ a _ => a.keepsDays) (start now partitions) db)
    (key : String) :
    db.tables.operations.countP (fun r => r.idempotencyKey = key) ≤ 1 ∧
    (∀ a ∈ db.answers, a.key = key →
      ∃ r ∈ db.tables.operations, r.idempotencyKey = key ∧ a.result.id = r.id.text) ∧
    (∀ a ∈ db.answers, ∀ a' ∈ db.answers, a.key = key → a'.key = key → a.result.id = a'.result.id) ∧
    ∀ r ∈ db.tables.operations, r.idempotencyKey = key →
      db.insertions key = if r.id ∈ db.lostAcks then 0 else 1 := by
  have inv : db.WellFormed ∧ db.EnqueueOnce advisoryLockKey :=
    run.invariant (fun db => db.WellFormed ∧ db.EnqueueOnce advisoryLockKey)
      ⟨wellFormed_start now partitions, enqueueOnce_start now partitions⟩
      fun _ _ _ inv h keeps => ⟨inv.1.step (stepped h), inv.2.step inv.1 keeps (stepped h)⟩
  have hkeys : (db.tables.operations.map Row.idempotencyKey).Nodup := by
    have := inv.2.keys
    rwa [keyed, List.map_map] at this
  have answer : ∀ a ∈ db.answers, a.key = key →
      ∃ r ∈ db.tables.operations, r.idempotencyKey = key ∧ a.result.id = r.id.text := by
    intro a ha hk
    obtain ⟨u, hu, hid⟩ := inv.2.answers a ha
    obtain ⟨r, hr, heq⟩ := List.mem_map.1 hu
    simp only [Prod.mk.injEq] at heq
    obtain ⟨rfl, hkey⟩ := heq
    exact ⟨r, hr, hkey.trans hk, hid⟩
  refine ⟨?_, answer, fun a ha a' ha' hk hk' => ?_, fun r hr hk => ?_⟩
  · have := List.nodup_iff_count_le_one.1 hkeys key
    rwa [List.count, List.countP_map] at this
  · obtain ⟨r, hr, hrk, hid⟩ := answer a ha hk
    obtain ⟨r', hr', hrk', hid'⟩ := answer a' ha' hk'
    rw [hid, hid', eq_of_key_eq hkeys hr hr' (hrk.trans hrk'.symm)]
  · exact inv.2.insertions r.id key (hk ▸ List.mem_map_of_mem hr)

/-- Two callers race with one key, and then a third, with another key that has the same lock. -/
def raced : List DbAction :=
  let op (key : String) : EnqueueInput := ⟨"i", "User", .create, "ada", key, none, none, some "ada", none⟩
  [.beginEnqueue 1 (op "k"), .beginEnqueue 2 (op "k"), .beginEnqueue 3 (op "other"), .lockKey 1, .lookupKey 1,
    .insertOperation 1 7, .commitEnqueue 1 true, .lockKey 2, .lookupKey 2, .commitEnqueue 2 true, .lockKey 3,
    .lookupKey 3, .insertOperation 3 8, .commitEnqueue 3 false]

theorem enqueue_once_raced :
    ∃ db, exec (Db.step fun _ => 0) (fun _ a _ => a.keepsDays) (start 0 [0]) raced = some db ∧
      db.answers.map (·.result.deduplicated) = [false, true] ∧ db.lostAcks = [8] ∧
      ∀ r ∈ db.tables.operations, r.idempotencyKey = "k" →
        db.insertions "k" = if r.id ∈ db.lostAcks then 0 else 1 := by
  have h : (exec (Db.step fun _ => 0) (fun _ a _ => a.keepsDays) (start 0 [0]) raced).map
      (fun db => (db.answers.map (·.result.deduplicated), db.lostAcks)) = some ([false, true], [8]) := by
    decide
  obtain ⟨db, hdb, heq⟩ := Option.map_eq_some_iff.1 h
  simp only [Prod.mk.injEq] at heq
  exact ⟨db, hdb, heq.1, heq.2, (enqueue_once (runs_of_exec hdb) "k").2.2.2⟩

end Db

end Provisioning
