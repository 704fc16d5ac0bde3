import Provisioning.Ops.LaneExclusion

/-!
# What a claim returns

At most as many rows of an instance as its caps allow, on lanes that the caller did not exclude.
-/

namespace Provisioning

open Lib

/-! ## The caps -/

theorem ClaimArgs.cap?_eq (args : ClaimArgs) (i : String) : args.cap? i =
    (lookup Prod.fst (args.perInstanceAvailable.filter fun a => a.2.totalFree > 0) i).map fun a =>
      ⟨a.1, a.2.totalFree, max 0 (min a.2.batchFree a.2.totalFree)⟩ := by
  have hcaps : args.caps = (args.perInstanceAvailable.filter fun a => a.2.totalFree > 0).map fun a =>
      ⟨a.1, a.2.totalFree, max 0 (min a.2.batchFree a.2.totalFree)⟩ := by
    unfold ClaimArgs.caps
    rw [← List.filterMap_eq_map, List.filterMap_filter]
    congr 1
    funext a
    simp
  unfold ClaimArgs.cap? lookup
  rw [hcaps, List.find?_map]
  rfl

/-! ## The picked rows -/

namespace Snapshot

variable {s : Snapshot} {args : ClaimArgs} {r : Row} {rows : List Row}

/-- A lane leader is within the caps of its instance and within the limit. -/
def InTurn (s : Snapshot) (args : ClaimArgs) (r : Row) : Prop :=
  s.withinCaps args r ∧ (rank s.before (s.capped args) r : Int) ≤ args.limit

instance (s : Snapshot) (args : ClaimArgs) (r : Row) : Decidable (s.InTurn args r) :=
  inferInstanceAs (Decidable (_ ∧ _))

theorem mem_picked_iff : r ∈ s.picked args ↔ r ∈ s.laneLeaders args ∧ s.InTurn args r := by
  have hcapped : r ∈ s.capped args ↔ r ∈ s.laneLeaders args ∧ s.withinCaps args r := by
    unfold capped
    rw [List.mem_filter, decide_eq_true_eq]
  unfold picked InTurn
  rw [List.mem_filter, decide_eq_true_eq, hcapped, and_assoc]

/-- What is said of a picked row by the arguments. -/
structure Fits (s : Snapshot) (args : ClaimArgs) (r : Row) : Prop where
  mem : r ∈ s.laneLeaders args
  active : r.laneKey ∉ args.activeLaneKeys
  caps : ∃ c, args.cap? r.instanceId = some c ∧ (s.rn args r : Int) ≤ c.cap ∧
    (r.priority = .batch → (s.classRn args r : Int) ≤ c.batchCap)

theorem fits_of_picked (h : r ∈ s.picked args) : s.Fits args r := by
  have hcapped := (List.mem_filter.1 h).1
  obtain ⟨hleader, hcaps⟩ := List.mem_filter.1 hcapped
  obtain ⟨-, -, -, hactive, -⟩ := mem_candidates.1 (List.mem_filter.1 hleader).1
  have hwithin : s.withinCaps args r := of_decide_eq_true hcaps
  unfold withinCaps at hwithin
  obtain ⟨c, hc, hfits⟩ := (Option.any_eq_true _ _).1 hwithin
  simp only [decide_eq_true_eq] at hfits
  exact ⟨hleader, hactive, c, hc, hfits.1, fun hbatch => hfits.2.resolve_left (not_not.2 hbatch)⟩

theorem nodup_picked (nodup : (s.rows.map Row.id).Nodup) : ((s.picked args).map Row.id).Nodup := by
  have hsub : (s.picked args).Sublist s.rows :=
    ((List.filter_sublist.trans List.filter_sublist).trans List.filter_sublist).trans List.filter_sublist
  exact nodup.sublist (hsub.map _)

theorem length_le_cap {w : Row → Row → Prop} [DecidableRel w] {n : Int} (nodup : (rows.map Row.id).Nodup)
    (hrows : ∀ r ∈ rows, r ∈ s.laneLeaders args) (trans : ∀ a b c, w a b → w b c → w a c)
    (one : ∀ a ∈ rows, ∀ b ∈ rows, w a b)
    (hrank : ∀ r ∈ rows, (rank (fun a b => w a b ∧ s.before a b) (s.laneLeaders args) r : Int) ≤ n) :
    (rows.length : Int) ≤ max 0 n := by
  have hranks : ∀ r ∈ rows, rank (fun a b => w a b ∧ s.before a b) (s.laneLeaders args) r ≤ n.toNat := by
    intro r hr
    have := hrank r hr
    omega
  have hlen : rows.length ≤ n.toNat := by
    refine length_le_of_rank_le ?_ ?_ (nodup.of_map _) hrows ?_ hranks
    · exact fun a b c hab hbc => ⟨trans a b c hab.1 hbc.1, before_trans hab.2 hbc.2⟩
    · exact fun a h => before_irrefl a h.2
    · intro a ha b hb hne
      have hid : a.id ≠ b.id := fun heq => hne (eq_of_key_eq nodup ha hb heq)
      rcases before_total hid with h | h
      · exact .inl ⟨one a ha b hb, h⟩
      · exact .inr ⟨one b hb a ha, h⟩
  omega

end Snapshot

/-! ## The returned rows -/

/-- What `claimBatch` may return: some of the rows that the arguments pick from a snapshot, each as the
update read it. -/
def ClaimArgs.MayReturn (args : ClaimArgs) (ops : List ClaimedOperation) : Prop :=
  ∃ (s : Snapshot) (rows : List (Row × OperationPendingStatus)), (s.rows.map Row.id).Nodup ∧
    (rows.map fun r => r.1.id).Nodup ∧ (∀ r ∈ rows, ∃ r₀ ∈ s.picked args, r₀.SameOperation r.1) ∧
    ops = rows.map fun r => r.1.toClaimed r.2

namespace ClaimArgs

variable {args : ClaimArgs} {ops : List ClaimedOperation}

theorem countP_le_picked {s : Snapshot} {rows : List (Row × OperationPendingStatus)} {p : Row → Bool}
    (nodup : (rows.map fun r => r.1.id).Nodup)
    (picked : ∀ r ∈ rows, ∃ r₀ ∈ s.picked args, r₀.SameOperation r.1)
    (hp : ∀ r r' : Row, r.SameOperation r' → p r = p r') :
    rows.countP (fun r => p r.1) ≤ ((s.picked args).filter p).length := by
  rw [List.countP_eq_length_filter, ← List.length_map (fun r : Row × OperationPendingStatus => r.1.id),
    ← List.length_map Row.id]
  refine (List.subperm_of_subset (nodup.sublist (List.filter_sublist.map _)) ?_).length_le
  intro u hu
  obtain ⟨r, hr, rfl⟩ := List.mem_map.1 hu
  obtain ⟨hmem, hpr⟩ := List.mem_filter.1 hr
  obtain ⟨r₀, hr₀, same⟩ := picked r hmem
  exact List.mem_map.2 ⟨r₀, List.mem_filter.2 ⟨hr₀, (hp r₀ r.1 same).trans hpr⟩, same.id.symm⟩

theorem countP_le_cap {s : Snapshot} {rows : List (Row × OperationPendingStatus)} {p : Row → Bool}
    {w : Row → Row → Prop} [DecidableRel w] {n : Int} (unique : (s.rows.map Row.id).Nodup)
    (distinct : (rows.map fun r => r.1.id).Nodup)
    (picked : ∀ r ∈ rows, ∃ r₀ ∈ s.picked args, r₀.SameOperation r.1)
    (hp : ∀ r r' : Row, r.SameOperation r' → p r = p r') (trans : ∀ a b c, w a b → w b c → w a c)
    (one : ∀ a b, p a → p b → w a b)
    (hrank : ∀ r, s.Fits args r → p r →
      (rank (fun a b => w a b ∧ s.before a b) (s.laneLeaders args) r : Int) ≤ n) :
    (rows.countP fun r => p r.1 : Int) ≤ max 0 n := by
  have hpicked {r : Row} (hr : r ∈ (s.picked args).filter p) : s.Fits args r ∧ p r :=
    ⟨Snapshot.fits_of_picked (List.mem_filter.1 hr).1, (List.mem_filter.1 hr).2⟩
  have hle : (((s.picked args).filter p).length : Int) ≤ max 0 n := by
    apply Snapshot.length_le_cap (w := w)
    · exact (Snapshot.nodup_picked unique).sublist (List.filter_sublist.map _)
    · exact fun r hr => (hpicked hr).1.mem
    · exact trans
    · exact fun a ha b hb => one a b (hpicked ha).2 (hpicked hb).2
    · exact fun r hr => hrank r (hpicked hr).1 (hpicked hr).2
  have hsame := countP_le_picked distinct picked hp
  omega

/-- **The caps hold**: for an instance with no cap nothing is returned. -/
theorem MayReturn.within (h : args.MayReturn ops) (instanceId : String) :
    ops.countP (fun op => op.instanceId = instanceId) = 0 ∨ ∃ c, args.cap? instanceId = some c ∧
      (ops.countP fun op => op.instanceId = instanceId : Int) ≤ max 0 c.cap ∧
      (ops.countP fun op => op.instanceId = instanceId ∧ op.priority = .batch : Int) ≤ max 0 c.batchCap := by
  obtain ⟨s, rows, unique, distinct, picked, rfl⟩ := h
  simp only [List.countP_map, Function.comp_def]
  by_cases hcap : ∃ c, args.cap? instanceId = some c
  · obtain ⟨c, hc⟩ := hcap
    refine .inr ⟨c, hc, ?_, ?_⟩
    · refine countP_le_cap (p := fun r => r.instanceId = instanceId) (w := fun a b => a.instanceId = b.instanceId)
        unique distinct picked (fun r r' same => by simp [same.instanceId]) (fun _ _ _ => Eq.trans) ?_ ?_
      · intro a b ha hb
        exact (of_decide_eq_true ha).trans (of_decide_eq_true hb).symm
      · intro r fits hr
        obtain ⟨c', hc', hrn, -⟩ := fits.caps
        rw [of_decide_eq_true hr, hc] at hc'
        cases hc'
        exact hrn
    · refine countP_le_cap (p := fun r => r.instanceId = instanceId ∧ r.priority = .batch)
        (w := fun a b => a.instanceId = b.instanceId ∧ a.priority = b.priority) unique distinct picked
        (fun r r' same => by simp [same.instanceId, same.priority])
        (fun _ _ _ h h' => ⟨h.1.trans h'.1, h.2.trans h'.2⟩) ?_ ?_
      · intro a b ha hb
        have ha := of_decide_eq_true ha
        have hb := of_decide_eq_true hb
        exact ⟨ha.1.trans hb.1.symm, ha.2.trans hb.2.symm⟩
      · intro r fits hr
        have hr := of_decide_eq_true hr
        obtain ⟨c', hc', -, hclass⟩ := fits.caps
        rw [hr.1, hc] at hc'
        cases hc'
        exact hclass hr.2
  · refine .inl (List.countP_eq_zero.2 fun r hr => ?_)
    obtain ⟨r₀, hr₀, same⟩ := picked r hr
    obtain ⟨c, hc, -⟩ := (Snapshot.fits_of_picked hr₀).caps
    simp only [decide_eq_true_eq]
    rintro rfl
    exact hcap ⟨c, by rw [← hc, ← same.instanceId]; rfl⟩

end ClaimArgs

/-! ## The statements in flight -/

variable {advisoryLockKey : String → BitVec 64} {db db' : Db} {a : DbAction}

/-- What a claim has locked or has still to lock was picked from its snapshot. -/
structure ClaimStatement.Sound (db : Db) (c : ClaimStatement) : Prop where
  unique : (c.snapshot.rows.map Row.id).Nodup
  kept : ∀ r ∈ c.snapshot.rows, ∃ r' ∈ db.tables.operations, r.SameOperation r'
  todo : ∀ u ∈ c.todo, ∃ r ∈ c.snapshot.picked c.args, r.id = u
  locked : ∀ l ∈ db.locksOf c.sid, ∃ r ∈ c.snapshot.picked c.args, r.id = l.id

namespace Db

def ClaimsSound (db : Db) : Prop := ∀ c ∈ db.claims, c.Sound db

theorem Stepped.claim_origin (h : db.Stepped advisoryLockKey a db') {c' : ClaimStatement} (hc' : c' ∈ db'.claims) :
    (∃ c ∈ db.claims, c'.sid = c.sid ∧ c'.caller = c.caller ∧ c'.args = c.args ∧ c'.snapshot = c.snapshot ∧
      c'.todo ⊆ c.todo) ∨
    ∃ tie, a = .beginClaim c'.sid c'.caller c'.args tie ∧ db.claim? c'.sid = none ∧
      c'.snapshot = ⟨db.tables.operations, db.now, tie⟩ ∧ c'.todo = (c'.snapshot.picked c'.args).map Row.id ∧
      db'.locks = db.locks := by
  have same {c : ClaimStatement} (hc : c ∈ db.claims) : ∃ c₀ ∈ db.claims, c.sid = c₀.sid ∧ c.caller = c₀.caller ∧
      c.args = c₀.args ∧ c.snapshot = c₀.snapshot ∧ c.todo ⊆ c₀.todo := ⟨c, hc, rfl, rfl, rfl, rfl, List.Subset.refl _⟩
  have visited {sid : Nat} {u : Uuid} {c : ClaimStatement} (hc : c ∈ (db.visit sid u).claims) :
      ∃ c₀ ∈ db.claims, c.sid = c₀.sid ∧ c.caller = c₀.caller ∧ c.args = c₀.args ∧ c.snapshot = c₀.snapshot ∧
        c.todo ⊆ c₀.todo := by
    obtain ⟨c₀, hc₀, rfl⟩ := mem_updateWhere.1 hc
    split
    · exact ⟨c₀, hc₀, rfl, rfl, rfl, rfl, List.filter_subset_self _⟩
    · exact same hc₀
  cases h with
  | @beginClaim sid caller args tie fresh =>
    rcases List.mem_append.1 hc' with hc | hc
    · exact .inl (same hc)
    · rw [List.mem_singleton.1 hc]
      exact .inr ⟨tie, rfl, fresh, rfl, rfl, rfl⟩
  | rowSkipped | rowLocked => exact .inl (visited hc')
  | commitClaim | abortClaim => exact .inl (same (List.mem_filter.1 hc').1)
  | _ => exact .inl (same hc')

theorem Stepped.lock_origin (h : db.Stepped advisoryLockKey a db') {l : RowLock} (hl : l ∈ db'.locks) :
    l ∈ db.locks ∨ ∃ c ∈ db.claims, c.sid = l.sid ∧ l.id ∈ c.todo := by
  cases h with
  | @rowLocked sid u c r prior hc picked =>
    rcases List.mem_append.1 hl with hl | hl
    · exact .inl hl
    · rw [List.mem_singleton.1 hl]
      exact .inr ⟨c, (lookup_some_mem hc).1, (lookup_some_mem hc).2, picked⟩
  | commitClaim | abortClaim => exact .inl (List.mem_filter.1 hl).1
  | _ => exact .inl hl

theorem RowsStep.kept_of_claim (h : db.RowsStep a db') {c : ClaimStatement} (hc : c ∈ db.claims) {r : Row}
    (hr : r ∈ db.tables.operations) : ∃ r' ∈ db'.tables.operations, r.Change r' := by
  cases h with
  | changed f hf rows => exact ⟨f r, rows ▸ List.mem_map_of_mem hr, hf r hr⟩
  | inserted e row he phase rows => exact ⟨r, rows ▸ List.mem_append_left _ hr, .same r⟩
  | dropped day ht rows unclaimed =>
    rw [unclaimed] at hc
    cases hc

theorem ClaimsSound.step (inv : db.ClaimsSound) (wf : db.WellFormed) (h : db.Stepped advisoryLockKey a db') :
    db'.ClaimsSound := by
  intro c' hc'
  rcases h.claim_origin hc' with ⟨c, hc, hsid, hcaller, hargs, hsnapshot, htodo⟩ |
    ⟨tie, rfl, fresh, hsnapshot, htodo, hlocks⟩
  · have sound := inv c hc
    refine ⟨hsnapshot ▸ sound.unique, fun r hr => ?_, fun u hu => ?_, fun l hl => ?_⟩
    · obtain ⟨r', hr', same⟩ := sound.kept r (hsnapshot ▸ hr)
      obtain ⟨r'', hr'', hchange⟩ := (h.rows wf).kept_of_claim hc hr'
      exact ⟨r'', hr'', same.trans hchange.sameOperation⟩
    · rw [hsnapshot, hargs]
      exact sound.todo u (htodo hu)
    · rw [hsnapshot, hargs]
      obtain ⟨hmem, hown⟩ := List.mem_filter.1 hl
      have hown : l.sid = c.sid := (of_decide_eq_true hown).trans hsid
      rcases h.lock_origin hmem with hold | ⟨c₀, hc₀, hsid₀, hpicked⟩
      · exact sound.locked l (List.mem_filter.2 ⟨hold, decide_eq_true hown⟩)
      · obtain rfl := eq_of_key_eq wf.sessions.claims hc₀ hc (hsid₀.trans hown)
        exact sound.todo _ hpicked
  · have hlocksOf : db'.locksOf c'.sid = [] := by
      refine List.filter_eq_nil_iff.2 fun l hl => ?_
      rw [hlocks] at hl
      obtain ⟨c, hc, hsid⟩ := wf.locks.owner l hl
      simp only [decide_eq_true_eq]
      exact fun heq => lookup_none_iff.1 fresh (heq ▸ hsid ▸ List.mem_map_of_mem hc)
    refine ⟨?_, fun r hr => ?_, fun u hu => ?_, by simp [hlocksOf]⟩
    · rw [hsnapshot]
      exact wf.ids.nodup
    · rw [hsnapshot] at hr
      cases h
      exact ⟨r, hr, (Row.Change.same r).sameOperation⟩
    · rw [htodo] at hu
      exact List.mem_map.1 hu

variable {sid : Nat}

theorem mem_returned {r : Row} {p : OperationPendingStatus} :
    (r, p) ∈ db.returned sid ↔ ∃ l ∈ db.locksOf sid, db.row? l.id = some r ∧ l.prior = p := by
  simp [returned]

theorem ids_returned (wf : db.WellFormed) :
    (db.returned sid).map (fun r => r.1.id) = (db.locksOf sid).map RowLock.id := by
  have found : ∀ l ∈ db.locksOf sid, ∃ r, db.row? l.id = some r :=
    fun l hl => (wf.locks.held l (List.mem_filter.1 hl).1).imp fun r hr => hr.1
  unfold returned
  generalize db.locksOf sid = ls at found
  induction ls with
  | nil => rfl
  | cons l rest ih =>
    obtain ⟨r, hr⟩ := found l List.mem_cons_self
    rw [List.filterMap_cons_some (by rw [hr]; rfl), List.map_cons, List.map_cons,
      ih fun l hl => found l (List.mem_cons_of_mem _ hl)]
    exact congrArg (· :: _) (lookup_some_mem hr).2

theorem nodup_returned (wf : db.WellFormed) : ((db.returned sid).map fun r => r.1.id).Nodup := by
  rw [ids_returned wf]
  exact nodup_filter wf.locks.nodup

theorem returned_lockable (wf : db.WellFormed) {r : Row} {p : OperationPendingStatus}
    (h : (r, p) ∈ db.returned sid) : db.row? r.id = some r ∧ r.status = .live p ∧ p ≠ .running := by
  obtain ⟨l, hl, hr, rfl⟩ := mem_returned.1 h
  obtain ⟨r', hr', hst, hidle⟩ := wf.locks.held l (List.mem_filter.1 hl).1
  rw [hr] at hr'
  cases hr'
  exact ⟨by rw [(lookup_some_mem hr).2, hr], hst, hidle⟩

/-- **A claim that commits returns what its arguments allow.** -/
theorem ClaimsSound.mayReturn (inv : db.ClaimsSound) (wf : db.WellFormed) {c : ClaimStatement}
    (hc : db.claim? sid = some c) : c.args.MayReturn ((db.returned sid).map fun r => r.1.toClaimed r.2) := by
  obtain ⟨hmem, rfl⟩ := lookup_some_mem hc
  have sound := inv c hmem
  refine ⟨c.snapshot, db.returned c.sid, sound.unique, nodup_returned wf, fun r hr => ?_, rfl⟩
  obtain ⟨l, hl, hrow, -⟩ := mem_returned.1 hr
  obtain ⟨r₀, hr₀, hid⟩ := sound.locked l hl
  refine ⟨r₀, hr₀, ?_⟩
  obtain ⟨r', hr', same⟩ := sound.kept r₀ (Snapshot.leads_of_picked hr₀).1
  have hrow' := wf.row?_of_mem hr'
  rw [same.id, hid, hrow] at hrow'
  cases hrow'
  exact same

end Db

end Provisioning
