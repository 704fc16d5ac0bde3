import Provisioning.Ops.WellFormed

/-!
# Lanes under concurrent claims

A row lock protects a row, and the lane is checked on a snapshot. So two statements in flight can
take two rows of one lane. They cannot when the later one picks, on a lane where the earlier one has
locked a row or has still to lock one, no other row than that.
-/

namespace Provisioning

open Lib

variable {advisoryLockKey : String → BitVec 64} {db db' : Db} {a : DbAction}

/-! ## The leader of a lane -/

namespace Row

theorem sameLane_refl (r : Row) : r.sameLane r := ⟨rfl, rfl⟩

theorem sameLane.symm {r r' : Row} (h : r.sameLane r') : r'.sameLane r := ⟨h.1.symm, h.2.symm⟩

theorem sameLane.trans {r r' r'' : Row} (h : r.sameLane r') (h' : r'.sameLane r'') : r.sameLane r'' :=
  ⟨h.1.trans h'.1, h.2.trans h'.2⟩

theorem SameOperation.sameLane {r r' : Row} (h : r.SameOperation r') : r.sameLane r' :=
  ⟨h.instanceId.symm, h.laneKey.symm⟩

end Row

namespace Snapshot

variable {s : Snapshot} {args : ClaimArgs} {r r' : Row}

/-- `r` comes before every claimable row of its lane, and nothing blocks the lane. -/
structure Leads (s : Snapshot) (r : Row) : Prop where
  claimable : r.claimable s.now
  unblocked : ¬ s.blocked r
  first : ∀ r' ∈ s.rows, r'.claimable s.now → r'.sameLane r → ¬ s.before r' r

instance (s : Snapshot) (r : Row) : Decidable (s.Leads r) :=
  decidable_of_iff (r.claimable s.now ∧ ¬ s.blocked r ∧
      ∀ r' ∈ s.rows, r'.claimable s.now → r'.sameLane r → ¬ s.before r' r)
    ⟨fun h => ⟨h.1, h.2.1, h.2.2⟩, fun h => ⟨h.1, h.2, h.3⟩⟩

theorem before_irrefl (r : Row) : ¬ s.before r r := by
  unfold before
  omega

theorem before_trans {r'' : Row} (h : s.before r r') (h' : s.before r' r'') : s.before r r'' := by
  unfold before at *
  omega

theorem before_total (h : r.id ≠ r'.id) : s.before r r' ∨ s.before r' r := by
  have hne : r.id.toNat ≠ r'.id.toNat := fun heq => h (BitVec.eq_of_toNat_eq heq)
  unfold before
  omega

theorem blocked_sameLane (hl : r.sameLane r') : s.blocked r ↔ s.blocked r' := by
  constructor
  · rintro ⟨b, hb, hblocks, hbl⟩
    exact ⟨b, hb, hblocks, hbl.trans hl⟩
  · rintro ⟨b, hb, hblocks, hbl⟩
    exact ⟨b, hb, hblocks, hbl.trans hl.symm⟩

theorem mem_candidates : r ∈ s.candidates args ↔ r ∈ s.rows ∧ r.claimable s.now ∧
    (args.cap? r.instanceId).isSome ∧ r.laneKey ∉ args.activeLaneKeys ∧ ¬ s.blocked r := by
  simp [candidates]

/-- The caps, the active lanes and the blocked lanes are the same for all rows of a lane. -/
theorem leads_of_laneLeader (h : r ∈ s.laneLeaders args) : r ∈ s.rows ∧ s.Leads r := by
  obtain ⟨hcand, hrn⟩ := List.mem_filter.1 h
  obtain ⟨hmem, hclaim, hcap, hactive, hblocked⟩ := mem_candidates.1 hcand
  refine ⟨hmem, hclaim, hblocked, fun r' hr' hclaim' hl hbefore => ?_⟩
  have hcand' : r' ∈ s.candidates args := by
    refine mem_candidates.2 ⟨hr', hclaim', hl.1 ▸ hcap, hl.2 ▸ hactive, ?_⟩
    rwa [blocked_sameLane hl]
  have hrank : s.laneRn args r = 1 := by simpa using hrn
  unfold laneRn at hrank
  exact rank_one_iff.1 hrank r' hcand' ⟨hl, hbefore⟩

theorem leads_of_picked (h : r ∈ s.picked args) : r ∈ s.rows ∧ s.Leads r :=
  leads_of_laneLeader (List.mem_filter.1 (List.mem_filter.1 h).1).1

theorem Leads.unique (h : s.Leads r) (hr : r ∈ s.rows) (h' : s.Leads r') (hr' : r' ∈ s.rows) (hl : r.sameLane r') :
    r.id = r'.id := by
  by_contra hne
  rcases before_total hne with hb | hb
  · exact h'.first r hr h.claimable hl hb
  · exact h.first r' hr' h'.claimable hl.symm hb

theorem Leads.not_running (h : s.Leads r) (hr' : r' ∈ s.rows) (hl : r'.sameLane r) :
    r'.status ≠ .live .running :=
  fun hrun => h.unblocked ⟨r', hr', .inl hrun, hl⟩

end Snapshot

/-! ## Contenders -/

namespace Db

/-- The rows of a lane that are `RUNNING`. -/
def runningOn (db : Db) (instanceId laneKey : String) : Nat :=
  db.tables.operations.countP fun r =>
    r.instanceId = instanceId ∧ r.laneKey = laneKey ∧ r.status = .live .running

/-- A statement in flight has locked the row, or has still to lock it. -/
def Wanted (db : Db) (u : Uuid) : Prop := (∃ c ∈ db.claims, u ∈ c.todo) ∨ ∃ l ∈ db.locks, l.id = u

/-- A statement that starts now picks no row of a lane on which a statement in flight wants another one that is not
terminal. -/
def Uncontested (db : Db) (args : ClaimArgs) (tie : Uuid → Nat) : Prop :=
  ∀ r' ∈ (Snapshot.mk db.tables.operations db.now tie).picked args,
    ∀ r ∈ db.tables.operations, r'.sameLane r → ¬ r.status.terminal → db.Wanted r.id → r'.id = r.id

instance (db : Db) (u : Uuid) : Decidable (db.Wanted u) := inferInstanceAs (Decidable (_ ∨ _))

instance (db : Db) (args : ClaimArgs) (tie : Uuid → Nat) : Decidable (db.Uncontested args tie) :=
  inferInstanceAs (Decidable (∀ r' ∈ (Snapshot.mk db.tables.operations db.now tie).picked args, _))

/-- A row that is `RUNNING` or that a statement in flight can still make so. -/
structure Contender (db : Db) (r : Row) : Prop where
  mem : r ∈ db.tables.operations
  open' : ¬ r.status.terminal
  contends : r.status = .live .running ∨ db.Wanted r.id

def OneContender (db : Db) : Prop :=
  ∀ r r', db.Contender r → db.Contender r' → r.sameLane r' → r.id = r'.id

/-- The wanted rows are in the table. -/
def WantedKnown (db : Db) : Prop := ∀ u, db.Wanted u → u ∈ db.tables.operations.map Row.id

theorem wanted_visit {sid : Nat} {u v : Uuid} (h : (db.visit sid v).Wanted u) : db.Wanted u := by
  rcases h with ⟨c', hc', hu⟩ | h
  · obtain ⟨c, hc, rfl⟩ := mem_updateWhere.1 hc'
    refine .inl ⟨c, hc, ?_⟩
    split at hu
    · exact (List.mem_filter.1 hu).1
    · exact hu
  · exact .inr h

theorem wanted_endClaim {sid : Nat} {u : Uuid} (h : (db.endClaim sid).Wanted u) : db.Wanted u := by
  rcases h with ⟨c, hc, hu⟩ | ⟨l, hl, hid⟩
  · exact .inl ⟨c, (List.mem_filter.1 hc).1, hu⟩
  · exact .inr ⟨l, (List.mem_filter.1 hl).1, hid⟩

theorem Stepped.wanted_origin (h : db.Stepped advisoryLockKey a db') {u : Uuid} (hu : db'.Wanted u) :
    db.Wanted u ∨ ∃ sid caller args tie, a = .beginClaim sid caller args tie ∧
      db'.tables = db.tables ∧ ∃ r ∈ (Snapshot.mk db.tables.operations db.now tie).picked args, r.id = u := by
  cases h with
  | @beginClaim sid caller args tie =>
    rcases hu with ⟨c, hc, hu⟩ | hu
    · rcases List.mem_append.1 hc with hc | hc
      · exact .inl (.inl ⟨c, hc, hu⟩)
      · rw [List.mem_singleton.1 hc] at hu
        obtain ⟨r, hr, hid⟩ := List.mem_map.1 hu
        exact .inr ⟨sid, caller, args, tie, rfl, rfl, r, hr, hid⟩
    · exact .inl (.inr hu)
  | rowSkipped => exact .inl (wanted_visit hu)
  | @rowLocked sid v c _ _ hc picked =>
    rcases hu with hu | ⟨l, hl, hid⟩
    · exact .inl (wanted_visit (.inl hu))
    · rcases List.mem_append.1 hl with hl | hl
      · exact .inl (.inr ⟨l, hl, hid⟩)
      · rw [List.mem_singleton.1 hl] at hid
        exact .inl (.inl ⟨c, (lookup_some_mem hc).1, hid ▸ picked⟩)
  | commitClaim => exact .inl (wanted_endClaim hu)
  | abortClaim => exact .inl (wanted_endClaim hu)
  | _ => exact .inl hu

theorem wantedKnown_start (now : Nat) (partitions : List Nat) : (start now partitions).WantedKnown := by
  rintro u (⟨c, hc, -⟩ | ⟨l, hl, -⟩)
  · simp [start] at hc
  · simp [start] at hl

theorem WantedKnown.step (inv : db.WantedKnown) (wf : db.WellFormed)
    (h : db.Stepped advisoryLockKey a db') : db'.WantedKnown := by
  intro u hu
  rcases h.wanted_origin hu with hold | ⟨sid, caller, args, tie, -, htables, r, hr, rfl⟩
  · obtain ⟨r, hr, rfl⟩ := List.mem_map.1 (inv u hold)
    cases h.rows wf with
    | changed f hf rows =>
      rw [rows]
      exact List.mem_map.2 ⟨f r, List.mem_map_of_mem hr, (hf r hr).sameOperation.id⟩
    | inserted e row he phase rows =>
      rw [rows, List.map_append]
      exact List.mem_append_left _ (List.mem_map_of_mem hr)
    | dropped day ht rows unclaimed =>
      have hnone : ∀ l, l ∉ db.locks := fun l hl => by
        obtain ⟨c, hc, -⟩ := wf.locks.owner l hl
        simp [unclaimed] at hc
      rcases hold with ⟨c, hc, -⟩ | ⟨l, hl, -⟩
      · simp [unclaimed] at hc
      · exact absurd hl (hnone l)
  · rw [htables]
    exact List.mem_map_of_mem (Snapshot.leads_of_picked hr).1

theorem Stepped.contender_origin (wf : db.WellFormed) (known : db.WantedKnown)
    (h : db.Stepped advisoryLockKey a db') {r' : Row} (hr' : db'.Contender r') :
    (∃ r, db.Contender r ∧ r.SameOperation r') ∨
      ∃ sid caller args tie, a = .beginClaim sid caller args tie ∧
        r' ∈ (Snapshot.mk db.tables.operations db.now tie).picked args := by
  by_cases hrun : r'.status = .live .running
  · rcases h.running_origin wf hr'.mem hrun with hr | ⟨c, r, -, hc, hr, ⟨l, hl, hid⟩, rfl⟩
    · exact .inl ⟨r', ⟨hr, hr'.open', .inl hrun⟩, Row.Change.sameOperation (.same r')⟩
    · obtain ⟨x, hx, hst, hi⟩ := wf.locks.held l (List.mem_filter.1 hl).1
      rw [hid, wf.row?_of_mem hr] at hx
      cases hx
      refine .inl ⟨r, ⟨hr, by simp [hst], .inr (.inr ⟨l, (List.mem_filter.1 hl).1, hid⟩)⟩, ?_⟩
      exact (Row.Change.claimed c.snapshot.now hst hi).sameOperation
  · have hwanted := hr'.contends.resolve_left hrun
    rcases h.wanted_origin hwanted with hold | ⟨sid, caller, args, tie, ha, htables, r, hr, hid⟩
    · rcases (h.rows wf).origin hr'.mem with ⟨r, hr, hc⟩ | ⟨e, he, hp⟩
      · refine .inl ⟨r, ⟨hr, fun ht => hr'.open' (hc.terminal_of_terminal ht), ?_⟩, hc.sameOperation⟩
        exact .inr (hc.sameOperation.id ▸ hold)
      · exact absurd (known _ hold) (wf.ids.uncommitted e he r' hp).2.1
    · have hmem := hr'.mem
      rw [htables] at hmem
      refine .inr ⟨sid, caller, args, tie, ha, ?_⟩
      rwa [← eq_of_key_eq wf.ids.nodup (Snapshot.leads_of_picked hr).1 hmem hid]

/-- The action is not the start of a claim, or the claim is uncontested. -/
def startsUncontested (db : Db) : DbAction → Bool
  | .beginClaim _ _ args tie => db.Uncontested args tie
  | _ => true

theorem OneContender.step (inv : db.OneContender) (wf : db.WellFormed) (known : db.WantedKnown)
    (starts : db.startsUncontested a) (h : db.Stepped advisoryLockKey a db') : db'.OneContender := by
  -- A contender of before and a row that has just been picked.
  have against {r r₁ r₂ : Row} {args : ClaimArgs} {tie : Uuid → Nat} (hu : db.Uncontested args tie)
      (hr : db.Contender r) (hsame : r.SameOperation r₁)
      (hpicked : r₂ ∈ (Snapshot.mk db.tables.operations db.now tie).picked args) (hl : r₁.sameLane r₂) :
      r₂.id = r₁.id := by
    have hl' : r₂.sameLane r := hl.symm.trans hsame.sameLane.symm
    rw [hsame.id]
    rcases hr.contends with hrun | hwanted
    · exact absurd hrun ((Snapshot.leads_of_picked hpicked).2.not_running hr.mem hl'.symm)
    · exact hu r₂ hpicked r hr.mem hl' hr.open' hwanted
  intro r₁ r₂ h₁ h₂ hl
  rcases h.contender_origin wf known h₁ with ⟨r, hr, hsame⟩ | ⟨_, _, _, tie, ha, hpicked⟩
  · rcases h.contender_origin wf known h₂ with ⟨r', hr', hsame'⟩ | ⟨_, _, _, tie, ha, hpicked⟩
    · rw [hsame.id, hsame'.id]
      exact inv r r' hr hr' ((hsame.sameLane.trans hl).trans hsame'.sameLane.symm)
    · subst ha
      exact (against (of_decide_eq_true starts) hr hsame hpicked hl).symm
  · subst ha
    rcases h.contender_origin wf known h₂ with ⟨r', hr', hsame'⟩ | ⟨_, _, _, tie', ha', hpicked'⟩
    · exact against (of_decide_eq_true starts) hr' hsame' hpicked hl.symm
    · cases ha'
      obtain ⟨hmem, hlead⟩ := Snapshot.leads_of_picked hpicked
      obtain ⟨hmem', hlead'⟩ := Snapshot.leads_of_picked hpicked'
      exact hlead.unique hmem hlead' hmem' hl

/-! ## The result -/

/-- **Lane exclusion.** When every claim starts uncontested, no lane has two `RUNNING` rows. -/
theorem lane_exclusion {now : Nat} {partitions : List Nat}
    (run : Runs (Db.step advisoryLockKey) (fun db a _ => db.startsUncontested a) (start now partitions) db)
    (instanceId laneKey : String) : db.runningOn instanceId laneKey ≤ 1 := by
  have inv : db.WellFormed ∧ db.WantedKnown ∧ db.OneContender := by
    refine run.invariant (fun db => db.WellFormed ∧ db.WantedKnown ∧ db.OneContender) ?_ ?_
    · refine ⟨wellFormed_start now partitions, wantedKnown_start now partitions, ?_⟩
      intro r _ hr
      simpa [start] using hr.mem
    · intro s a s' inv h starts
      have hs := stepped h
      exact ⟨inv.1.step hs, inv.2.1.step inv.1 hs, inv.2.2.step inv.1 inv.2.1 starts hs⟩
  refine countP_le_one inv.1.ids.nodup fun r hr r' hr' hq hq' => ?_
  simp only [decide_eq_true_eq] at hq hq'
  refine inv.2.2 r r' ⟨hr, by simp [hq.2.2], .inl hq.2.2⟩ ⟨hr', by simp [hq'.2.2], .inl hq'.2.2⟩ ?_
  exact ⟨hq.1.trans hq'.1.symm, hq.2.1.trans hq'.2.1.symm⟩

/-! ## Two statements in flight

A batch operation waits on the lane, replica 1 picks it, an interactive operation of the lane is
committed, and replica 2 picks that one. -/

def enqueued (sid : Nat) (key : String) (priority : OperationPriority) (id : Uuid) : List DbAction :=
  [.beginEnqueue sid ⟨"i", "User", .create, "ada", key, some priority, none, some "ada", none⟩, .lockKey sid,
    .lookupKey sid, .insertOperation sid id, .commitEnqueue sid true]

def claimAll : ClaimArgs := ⟨100, [], [("i", ⟨10, 10⟩)]⟩

def overtakenClaim : List DbAction :=
  enqueued 1 "first" .batch 7 ++ [.beginClaim 1 1 claimAll fun _ => 0] ++
    enqueued 2 "second" .interactive 8 ++
    [.beginClaim 2 2 claimAll fun _ => 0, .lockRow 1 7 false, .lockRow 2 8 false, .commitClaim 1, .commitClaim 2]

theorem two_running_on_one_lane :
    ∃ db, Runs (Db.step fun _ => 0) anyStep (start 0 [0]) db ∧ ¬ db.runningOn "i" "ada" ≤ 1 := by
  have h : (exec (Db.step fun _ => 0) anyStep (start 0 [0]) overtakenClaim).map
      (fun db => db.runningOn "i" "ada") = some 2 := by
    decide
  obtain ⟨db, hdb, hcount⟩ := Option.map_eq_some_iff.1 h
  exact ⟨db, runs_of_exec hdb, by omega⟩

/-- The same two statements without the interactive operation: the second finds the row locked. -/
def racedClaim : List DbAction :=
  enqueued 1 "first" .batch 7 ++
    [.beginClaim 1 1 claimAll fun _ => 0, .beginClaim 2 2 claimAll fun _ => 0, .lockRow 1 7 false,
      .lockRow 2 7 false, .commitClaim 1, .commitClaim 2]

theorem lane_exclusion_raced :
    ∃ db, exec (Db.step fun _ => 0) (fun db a _ => db.startsUncontested a) (start 0 [0]) racedClaim = some db ∧
      db.runningOn "i" "ada" ≤ 1 := by
  have h : (exec (Db.step fun _ => 0) (fun db a _ => db.startsUncontested a) (start 0 [0]) racedClaim).isSome := by
    decide
  obtain ⟨db, hdb⟩ := Option.isSome_iff_exists.1 h
  exact ⟨db, hdb, lane_exclusion (runs_of_exec hdb) "i" "ada"⟩

end Db

end Provisioning
