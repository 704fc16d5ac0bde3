import Provisioning.Lib.Greedy
import Provisioning.Lib.Lines
import Provisioning.Ops.Claims
import Provisioning.Ops.MemoryStore

/-!
# The loop and the query

What the loop of the in-memory store claims, against what the query picks. Both cut the same sorted
candidates at the same caps. The query tells lanes apart by instance and key, the loop by the key.
-/

namespace Provisioning

open Lib MemoryOperationStore

/-! ## Ids and lanes -/

theorem opId_injective {m n : Nat} (h : opId m = opId n) : m = n := by
  have hrepr : m.repr = n.repr := by
    unfold opId at h
    exact (String.append_right_inj _).1 h
  have hdigits : Nat.toDigits 10 m = Nat.toDigits 10 n := by
    rw [← Nat.toList_repr, ← Nat.toList_repr, hrepr]
  rw [← Nat.ofDigitChars_ten_toDigits (n := m), hdigits, Nat.ofDigitChars_ten_toDigits]

theorem laneOf_inj {a b : MemoryRow} (ha : '\x00' ∉ a.instanceId.toList) (hb : '\x00' ∉ b.instanceId.toList) :
    laneOf a = laneOf b ↔ a.instanceId = b.instanceId ∧ a.laneKey = b.laneKey := by
  unfold laneOf
  rw [← String.toList_inj]
  simp only [String.toList_append]
  rw [show "\x00".toList = ['\x00'] from rfl, List.append_assoc, List.append_assoc, List.singleton_append,
    List.singleton_append, Lines.append_sep_inj ha hb, String.toList_inj, String.toList_inj]

/-! ## Twins -/

/-- An operation in the two stores. `no` is its number in the order of the enqueues. -/
structure Twin where
  no : Nat
  memory : MemoryRow
  row : Row

/-- The two rows say the same. The in-memory store leaves `claimedAt` behind when it requeues. -/
structure Twin.Same (uuids : Nat → Uuid) (date : Nat → Nat → Nat) (x : Twin) : Prop where
  memoryId : x.memory.id = opId x.no
  rowId : x.row.id = uuids x.no
  createdAt : x.memory.createdAt = date x.row.createdAt x.no
  instanceId : x.memory.instanceId = x.row.instanceId
  text : '\x00' ∉ x.row.instanceId.toList
  opType : x.memory.opType = x.row.opType
  priority : x.memory.priority = x.row.priority
  status : x.memory.status = x.row.status
  laneKey : x.memory.laneKey = x.row.laneKey
  attemptCount : x.memory.attemptCount = x.row.attemptCount
  idempotencyKey : x.memory.idempotencyKey = x.row.idempotencyKey
  notBefore : x.memory.notBefore = x.row.notBefore
  waits : x.row.status = .live .awaitingReadback → x.row.notBefore.isSome
  claimedAt : x.row.status = .live .running → x.memory.claimedAt = x.row.claimedAt

/-- In the order of the enqueues, at different times. -/
def Twin.Earlier (x y : Twin) : Prop := x.no < y.no ∧ x.row.createdAt < y.row.createdAt

variable {uuids : Nat → Uuid} {date : Nat → Nat → Nat} {twins : List Twin} {args : ClaimArgs} {now : Nat}
  {s : Snapshot}

/-! ## Candidates -/

theorem Twin.Same.occupiesLane_iff {x : Twin} (h : x.Same uuids date) :
    occupiesLane now x.memory ↔ x.row.blocksLane now := by
  unfold occupiesLane Row.blocksLane Row.isWaiting
  rw [h.status, h.notBefore]

theorem Twin.Same.isCandidate_iff {x : Twin} (h : x.Same uuids date) :
    isCandidate now x.memory ↔ x.row.claimable now := by
  unfold isCandidate Row.claimable Row.isDue
  rw [h.status, h.notBefore]
  refine or_congr_right (and_congr_right fun hwait => ?_)
  obtain ⟨n, hn⟩ := Option.isSome_iff_exists.1 (h.waits hwait)
  rw [hn]
  rfl

theorem blockedLanes_iff {m : MemoryOperationStore} (same : ∀ x ∈ twins, x.Same uuids date)
    (hm : m.rows = twins.map Twin.memory) (hs : s.rows = twins.map Twin.row) {x : Twin} (hx : x ∈ twins) :
    laneOf x.memory ∈ m.blockedLanes s.now ↔ s.blocked x.row := by
  have lanes {y : Twin} (hy : y ∈ twins) : laneOf y.memory = laneOf x.memory ↔ y.row.sameLane x.row := by
    rw [laneOf_inj ((same y hy).instanceId ▸ (same y hy).text) ((same x hx).instanceId ▸ (same x hx).text),
      (same y hy).instanceId, (same x hx).instanceId, (same y hy).laneKey, (same x hx).laneKey]
    rfl
  unfold blockedLanes Snapshot.blocked
  rw [hm, hs]
  simp only [List.mem_map, List.mem_filter, decide_eq_true_eq]
  constructor
  · rintro ⟨_, ⟨⟨y, hy, rfl⟩, hocc⟩, hlane⟩
    exact ⟨y.row, ⟨y, hy, rfl⟩, (same y hy).occupiesLane_iff.1 hocc, (lanes hy).1 hlane⟩
  · rintro ⟨_, ⟨y, hy, rfl⟩, hblocks, hlane⟩
    exact ⟨y.memory, ⟨⟨y, hy, rfl⟩, (same y hy).occupiesLane_iff.2 hblocks⟩, (lanes hy).2 hlane⟩

/-- The operations that the query numbers. -/
def numbered (s : Snapshot) (args : ClaimArgs) (twins : List Twin) : List Twin :=
  twins.filter fun x => x.row.claimable s.now ∧ (args.cap? x.row.instanceId).isSome ∧
    x.row.laneKey ∉ args.activeLaneKeys ∧ ¬ s.blocked x.row

theorem candidates_eq (hs : s.rows = twins.map Twin.row) :
    s.candidates args = (numbered s args twins).map Twin.row := by
  unfold Snapshot.candidates numbered
  rw [hs, List.filter_map]
  rfl

def claimOrder (x y : Twin) : Prop := compareClaimOrder x.memory y.memory ≤ 0

instance (x y : Twin) : Decidable (claimOrder x y) := inferInstanceAs (Decidable (_ ≤ _))

theorem claimOrder_iff {x y : Twin} : claimOrder x y ↔ x.memory.priority.order < y.memory.priority.order ∨
    x.memory.priority.order = y.memory.priority.order ∧ x.memory.createdAt ≤ y.memory.createdAt := by
  unfold claimOrder compareClaimOrder
  split <;> omega

instance : Std.Total claimOrder := ⟨fun x y => by rw [claimOrder_iff, claimOrder_iff]; omega⟩

instance : IsTrans Twin claimOrder := ⟨fun x y z => by simp only [claimOrder_iff]; omega⟩

/-- What the loop goes through. -/
def sorted (s : Snapshot) (args : ClaimArgs) (twins : List Twin) : List Twin :=
  (numbered s args twins).insertionSort claimOrder

theorem memory_candidates_eq {m : MemoryOperationStore} (same : ∀ x ∈ twins, x.Same uuids date)
    (hm : m.rows = twins.map Twin.memory) (hs : s.rows = twins.map Twin.row) :
    m.candidates args s.now = (sorted s args twins).map Twin.memory := by
  unfold candidates sorted
  rw [List.map_insertionSort claimOrder (fun a b => compareClaimOrder a b ≤ 0) _ _ fun _ _ _ _ => Iff.rfl]
  congr 1
  rw [hm, List.filter_filter, List.filter_filter, List.filter_filter, List.filter_map]
  unfold numbered
  congr 1
  refine List.filter_congr fun x hx => Bool.eq_iff_iff.2 ?_
  have hremaining : ((Round.first args.perInstanceAvailable).remaining x.memory.instanceId).isSome ↔
      (args.cap? x.row.instanceId).isSome := by
    rw [ClaimArgs.cap?_eq, (same x hx).instanceId]
    unfold Round.first
    simp only [Option.isSome_map]
  have hcandidate : isCandidate s.now x.memory ↔ x.row.claimable s.now := (same x hx).isCandidate_iff
  have hblocked := blockedLanes_iff same hm hs hx
  simp only [Function.comp_apply, Bool.and_eq_true, decide_eq_true_eq, (same x hx).laneKey] at *
  rw [hblocked, hremaining, hcandidate]
  tauto

/-! ## The order of the claims -/

theorem pair_sublist_or {α : Type} {l : List α} {x y : α} (hx : x ∈ l) (hy : y ∈ l) (hne : x ≠ y) :
    [x, y].Sublist l ∨ [y, x].Sublist l := by
  induction l with
  | nil => cases hx
  | cons a rest ih =>
    rcases List.mem_cons.1 hx with rfl | hx'
    · exact .inl ((List.singleton_sublist.2 ((List.mem_cons.1 hy).resolve_left hne.symm)).cons_cons x)
    · rcases List.mem_cons.1 hy with rfl | hy'
      · exact .inr ((List.singleton_sublist.2 hx').cons_cons y)
      · exact (ih hx' hy').imp (·.cons a) (·.cons a)

theorem not_pair_sublist {α : Type} {l : List α} {x y : α} (nodup : l.Nodup) (h : [x, y].Sublist l) :
    ¬ [y, x].Sublist l := by
  induction l with
  | nil => cases h
  | cons a rest ih =>
    obtain ⟨hfresh, hrest⟩ := List.nodup_cons.1 nodup
    intro h'
    cases h with
    | cons _ h =>
      cases h' with
      | cons _ h' => exact ih hrest h h'
      | cons_cons _ h' => exact hfresh (h.subset (by simp))
    | cons_cons _ h =>
      cases h' with
      | cons _ h' => exact hfresh (h'.subset (by simp))
      | cons_cons _ h' => exact hfresh (List.singleton_sublist.1 h)

/-- A stable sort by a coarser time comes out in the order of the query. -/
theorem pairwise_sorted (monotone : ∀ t t' n n', t ≤ t' → n ≤ n' → date t n ≤ date t' n')
    (same : ∀ x ∈ twins, x.Same uuids date) (ordered : twins.Pairwise Twin.Earlier) :
    (sorted s args twins).Pairwise fun x y => s.before x.row y.row := by
  have hsub : (numbered s args twins).Sublist twins := List.filter_sublist
  have hordered : (numbered s args twins).Pairwise Twin.Earlier := ordered.sublist hsub
  have hperm : (sorted s args twins).Perm (numbered s args twins) := List.perm_insertionSort _ _
  have nodup : (sorted s args twins).Nodup := hperm.nodup_iff.2 <| hordered.imp fun h heq => by
    subst heq
    exact absurd h.1 (Nat.lt_irrefl _)
  have hle : (sorted s args twins).Pairwise claimOrder := List.pairwise_insertionSort claimOrder _
  refine List.pairwise_iff_forall_sublist.2 fun {x y} hpair => ?_
  have hxy : claimOrder x y := List.pairwise_iff_forall_sublist.1 hle hpair
  have hx : x ∈ numbered s args twins := hperm.subset (hpair.subset (by simp))
  have hy : y ∈ numbered s args twins := hperm.subset (hpair.subset (by simp))
  have hsx := same x (hsub.subset hx)
  have hsy := same y (hsub.subset hy)
  have hne : x ≠ y := by
    rintro rfl
    exact not_pair_sublist nodup hpair hpair
  have horder : Twin.Earlier x y ∨ x.row.priority.order < y.row.priority.order := by
    by_contra hnot
    rw [not_or, not_lt] at hnot
    -- Otherwise the sort would have left the two in the order of the enqueues.
    have hback : [y, x].Sublist (numbered s args twins) :=
      (pair_sublist_or hx hy hne).resolve_left fun h => hnot.1 (List.pairwise_iff_forall_sublist.1 hordered h)
    have hearlier : Twin.Earlier y x := List.pairwise_iff_forall_sublist.1 hordered hback
    have hyx : claimOrder y x := by
      rw [claimOrder_iff] at hxy ⊢
      have hdate := monotone _ _ _ _ hearlier.2.le hearlier.1.le
      rw [hsx.priority, hsy.priority, hsx.createdAt, hsy.createdAt] at *
      omega
    exact not_pair_sublist nodup hpair (List.pair_sublist_insertionSort (r := claimOrder) hyx hback)
  rw [claimOrder_iff, hsx.priority, hsy.priority] at hxy
  unfold Snapshot.before
  rcases horder with h | h
  · have := h.2
    omega
  · exact .inl h

/-! ## The loop -/

/-- The caps of the call, as a budget for the operations. -/
def ClaimArgs.budget (args : ClaimArgs) : Budget Twin String where
  pool x := x.row.instanceId
  small x := x.row.priority = .batch
  cap i := (((args.cap? i).map Cap.cap).getD 0).toNat
  slice i := (((args.cap? i).map Cap.batchCap).getD 0).toNat

def Twin.lane (x : Twin) : String × String := (x.row.instanceId, x.row.laneKey)

def Twin.laneKey (x : Twin) : String := x.row.laneKey

/-- The loop has claimed these. -/
structure Claimed (args : ClaimArgs) (round : Round) (kept : List Twin) : Prop where
  remaining : ∀ i, (round.remaining i).getD 0 = (args.budget.cap i : Int) - args.budget.taken kept i
  batchRemaining : ∀ i, (round.batchRemaining i).getD 0 = (args.budget.slice i : Int) - args.budget.takenSmall kept i
  takenLanes : round.takenLanes = kept.map Twin.laneKey
  claimed : round.claimed = kept.map Twin.memory

theorem claimed_first (args : ClaimArgs) : Claimed args (Round.first args.perInstanceAvailable) [] := by
  have hfree : ∀ i a, lookup Prod.fst (args.perInstanceAvailable.filter fun a => a.2.totalFree > 0) i = some a →
      0 < a.2.totalFree := by
    intro i a h
    simpa using (List.mem_filter.1 (lookup_some_mem h).1).2
  refine ⟨fun i => ?_, fun i => ?_, rfl, rfl⟩
  · simp only [Round.first, ClaimArgs.budget, ClaimArgs.cap?_eq, Option.map_map, Budget.taken, List.countP_nil]
    cases h : lookup Prod.fst (args.perInstanceAvailable.filter fun a => a.2.totalFree > 0) i with
    | none => simp
    | some a =>
      have := hfree i a h
      simp only [Option.map_some, Option.getD_some, Function.comp_apply]
      omega
  · simp only [Round.first, ClaimArgs.budget, ClaimArgs.cap?_eq, Option.map_map, Budget.takenSmall, List.countP_nil]
    cases h : lookup Prod.fst (args.perInstanceAvailable.filter fun a => a.2.totalFree > 0) i with
    | none => simp
    | some a =>
      simp only [Option.map_some, Option.getD_some, Function.comp_apply]
      omega

theorem Claimed.claim {round : Round} {kept : List Twin} (h : Claimed args round kept) {x : Twin}
    (same : x.Same uuids date) : Claimed args (round.claim x.memory) (kept ++ [x]) := by
  refine ⟨fun i => ?_, fun i => ?_, ?_, ?_⟩
  · have hi := h.remaining i
    simp only [Round.claim, Budget.taken_snoc, same.instanceId, Function.update_apply]
    by_cases hx : i = x.row.instanceId
    · subst hx
      simp only [if_true, ClaimArgs.budget, Option.getD_some] at hi ⊢
      push_cast
      omega
    · rw [if_neg hx, if_neg (by simpa [ClaimArgs.budget] using Ne.symm hx), hi, Nat.add_zero]
  · have hi := h.batchRemaining i
    simp only [Round.claim, Budget.takenSmall_snoc, same.instanceId, same.priority]
    by_cases hbatch : x.row.priority = .batch
    · rw [if_pos hbatch, Function.update_apply]
      by_cases hx : i = x.row.instanceId
      · subst hx
        simp only [if_true, ClaimArgs.budget, Option.getD_some, hbatch, decide_true, and_self] at hi ⊢
        push_cast
        omega
      · rw [if_neg hx, if_neg fun hpool => hx hpool.1.symm, hi, Nat.add_zero]
    · rw [if_neg hbatch, if_neg fun hpool => hbatch (of_decide_eq_true hpool.2), hi, Nat.add_zero]
  · simp [Round.claim, h.takenLanes, same.laneKey, Twin.laneKey]
  · simp [Round.claim, h.claimed]

theorem Claimed.visit {round : Round} {kept : List Twin} (h : Claimed args round kept) {x : Twin}
    (same : x.Same uuids date) :
    Claimed args (round.visit x.memory) (args.budget.keep Twin.laneKey kept x) := by
  have hremaining := h.remaining x.row.instanceId
  have hbatch := h.batchRemaining x.row.instanceId
  have hsmall : args.budget.small x = true ↔ x.row.priority = .batch := decide_eq_true_iff
  unfold Round.visit Budget.keep
  rw [same.instanceId, same.laneKey, same.priority, h.takenLanes]
  by_cases hcap : (round.remaining x.row.instanceId).getD 0 ≤ 0
  · have hfull : ¬ args.budget.Room kept x := by
      intro hroom
      have := hroom.1
      change args.budget.taken kept x.row.instanceId < args.budget.cap x.row.instanceId at this
      omega
    rw [if_pos hcap, if_neg fun hfree => hfull hfree.2]
    exact h
  · rw [if_neg hcap]
    by_cases hlane : x.row.laneKey ∈ kept.map Twin.laneKey
    · rw [if_pos hlane, if_neg fun hfree => hfree.1 hlane]
      exact h
    · rw [if_neg hlane]
      by_cases hslice : x.row.priority = .batch ∧ (round.batchRemaining x.row.instanceId).getD 0 ≤ 0
      · have hfull : ¬ args.budget.Room kept x := by
          intro hroom
          have := hroom.2 (hsmall.2 hslice.1)
          change args.budget.takenSmall kept x.row.instanceId < args.budget.slice x.row.instanceId at this
          omega
        rw [if_pos hslice, if_neg fun hfree => hfull hfree.2]
        exact h
      · have hroom : args.budget.Room kept x := by
          constructor
          · change args.budget.taken kept x.row.instanceId < args.budget.cap x.row.instanceId
            omega
          · intro hx
            change args.budget.takenSmall kept x.row.instanceId < args.budget.slice x.row.instanceId
            have hleft := not_le.1 fun hle => hslice ⟨hsmall.1 hx, hle⟩
            omega
        rw [if_neg hslice, if_pos ⟨hlane, hroom⟩]
        exact h.claim same

theorem Claimed.claimLoop {limit : Int} (hlimit : 0 < limit) {xs : List Twin} (same : ∀ x ∈ xs, x.Same uuids date)
    {round : Round} {kept : List Twin} (h : Claimed args round kept) :
    Claimed args (MemoryOperationStore.claimLoop limit (xs.map Twin.memory) round)
      (args.budget.greedyUpTo Twin.laneKey limit.toNat xs kept) := by
  induction xs generalizing round kept with
  | nil => exact h
  | cons x rest ih =>
    rw [List.map_cons]
    unfold MemoryOperationStore.claimLoop Budget.greedyUpTo
    have hstop : limit ≤ round.claimed.length ↔ limit.toNat ≤ kept.length := by
      rw [h.claimed, List.length_map]
      omega
    by_cases hfull : limit.toNat ≤ kept.length
    · rw [if_pos (hstop.2 hfull), if_pos hfull]
      exact h
    · rw [if_neg fun hle => hfull (hstop.1 hle), if_neg hfull]
      exact ih (fun y hy => same y (List.mem_cons_of_mem _ hy)) (h.visit (same x List.mem_cons_self))

/-! ## The query -/

/-- The order of the query. -/
def Snapshot.ahead (s : Snapshot) (x y : Twin) : Prop := s.before x.row y.row

instance (s : Snapshot) (x y : Twin) : Decidable (s.ahead x y) := inferInstanceAs (Decidable (s.before _ _))

theorem Snapshot.ahead_asymm (s : Snapshot) (x y : Twin) (h : s.ahead x y) : ¬ s.ahead y x :=
  fun h' => before_irrefl x.row (before_trans h h')

theorem Snapshot.ahead_small (s : Snapshot) (x y : Twin) (h : s.ahead x y) (hx : args.budget.small x) :
    args.budget.small y := by
  have hx : x.row.priority = .batch := of_decide_eq_true hx
  refine decide_eq_true ?_
  unfold ahead before at h
  rw [hx] at h
  cases hy : y.row.priority with
  | batch => rfl
  | interactive =>
    rw [hy] at h
    simp [OperationPriority.order] at h

theorem laneLeaders_eq (hs : s.rows = twins.map Twin.row) :
    s.laneLeaders args = (Budget.leaders Twin.lane s.ahead (numbered s args twins)).map Twin.row := by
  unfold Snapshot.laneLeaders Budget.leaders Snapshot.laneRn
  rw [candidates_eq hs, List.filter_map]
  congr 1
  refine List.filter_congr fun x _ => decide_eq_decide.2 ?_
  have hrank : rank (fun a b => a.sameLane b ∧ s.before a b) ((numbered s args twins).map Twin.row) x.row =
      rank (fun y z => Twin.lane y = Twin.lane z ∧ s.ahead y z) (numbered s args twins) x := by
    rw [rank_map]
    refine rank_congr fun y _ => and_congr_left' ?_
    unfold Twin.lane
    rw [Prod.mk.injEq]
    rfl
  rw [hrank]

theorem small_eq_iff (x y : Twin) : args.budget.small x = args.budget.small y ↔ x.row.priority = y.row.priority := by
  unfold ClaimArgs.budget
  cases hx : x.row.priority <;> cases hy : y.row.priority <;> simp [hx, hy]

theorem withinCaps_iff {l : List Twin} (hl : s.laneLeaders args = l.map Twin.row) {x : Twin}
    (hcap : (args.cap? x.row.instanceId).isSome) : s.withinCaps args x.row ↔ args.budget.Fits s.ahead l x := by
  obtain ⟨c, hc⟩ := Option.isSome_iff_exists.1 hcap
  have hrn : s.rn args x.row = rank (fun y z => args.budget.pool y = args.budget.pool z ∧ s.ahead y z) l x := by
    unfold Snapshot.rn
    rw [hl, rank_map]
    rfl
  have hclass : s.classRn args x.row = rank (fun y z => (args.budget.pool y = args.budget.pool z ∧
      args.budget.small y = args.budget.small z) ∧ s.ahead y z) l x := by
    unfold Snapshot.classRn
    rw [hl, rank_map]
    exact rank_congr fun y _ => and_congr_left' (and_congr_right' (small_eq_iff y x).symm)
  have hpos : 1 ≤ s.rn args x.row ∧ 1 ≤ s.classRn args x.row := ⟨rank_pos, rank_pos⟩
  have hcapOf : args.budget.cap (args.budget.pool x) = c.cap.toNat ∧
      args.budget.slice (args.budget.pool x) = c.batchCap.toNat := by
    simp [ClaimArgs.budget, hc]
  have hsmall : args.budget.small x = true ↔ x.row.priority = .batch := decide_eq_true_iff
  unfold Snapshot.withinCaps Budget.Fits
  rw [hc, Option.any_some, decide_eq_true_eq, ← hrn, ← hclass, hcapOf.1, hcapOf.2, hsmall]
  refine and_congr (by omega) ?_
  rw [← imp_iff_not_or]
  exact forall_congr' fun _ => by omega

/-- What lane leaders and caps leave. -/
def inCaps (s : Snapshot) (args : ClaimArgs) (l : List Twin) : List Twin :=
  args.budget.within s.ahead (Budget.leaders Twin.lane s.ahead l)

theorem capped_eq (hs : s.rows = twins.map Twin.row) :
    s.capped args = (inCaps s args (numbered s args twins)).map Twin.row := by
  have hl : s.laneLeaders args = (Budget.leaders Twin.lane s.ahead (numbered s args twins)).map Twin.row :=
    laneLeaders_eq hs
  unfold Snapshot.capped inCaps Budget.within
  rw [hl, List.filter_map]
  congr 1
  refine List.filter_congr fun x hx => decide_eq_decide.2 (withinCaps_iff hl ?_)
  have hnumbered := Budget.leaders_sublist.subset hx
  exact (of_decide_eq_true (List.mem_filter.1 hnumbered).2).2.1

theorem picked_eq (hs : s.rows = twins.map Twin.row) :
    s.picked args = ((inCaps s args (numbered s args twins)).filter fun x =>
      rank s.ahead (inCaps s args (numbered s args twins)) x ≤ args.limit.toNat).map Twin.row := by
  unfold Snapshot.picked
  rw [capped_eq hs, List.filter_map]
  congr 1
  refine List.filter_congr fun x _ => decide_eq_decide.2 ?_
  have hrank : rank s.before ((inCaps s args (numbered s args twins)).map Twin.row) x.row =
      rank s.ahead (inCaps s args (numbered s args twins)) x := rank_map Twin.row
  have hpos : 1 ≤ rank s.ahead (inCaps s args (numbered s args twins)) x := rank_pos
  rw [hrank]
  omega

/-- What the loop would claim, if it told lanes apart by instance as well. -/
def chosen (s : Snapshot) (args : ClaimArgs) (twins : List Twin) : List Twin :=
  (args.budget.greedy Twin.lane (sorted s args twins)).take args.limit.toNat

/-- **The query picks what such a loop claims.** -/
theorem picked_perm (hs : s.rows = twins.map Twin.row) (hsorted : (sorted s args twins).Pairwise s.ahead) :
    (s.picked args).Perm ((chosen s args twins).map Twin.row) := by
  have hperm : (inCaps s args (numbered s args twins)).Perm (inCaps s args (sorted s args twins)) :=
    Budget.within_perm (Budget.leaders_perm (List.perm_insertionSort _ _).symm)
  have hgreedy : args.budget.greedy Twin.lane (sorted s args twins) = inCaps s args (sorted s args twins) :=
    Budget.greedy_eq_windows hsorted s.ahead_asymm s.ahead_small fun _ _ h => (Prod.mk.inj h).1
  have hpairwise : (inCaps s args (sorted s args twins)).Pairwise s.ahead :=
    hsorted.sublist (Budget.within_sublist.trans Budget.leaders_sublist)
  unfold chosen
  rw [picked_eq hs, hgreedy, ← filter_rank_eq_take hpairwise s.ahead_asymm]
  simp only [rank_perm hperm]
  exact (hperm.filter _).map _

/-- What the loop claims. -/
def looped (s : Snapshot) (args : ClaimArgs) (twins : List Twin) : List Twin :=
  args.budget.greedyUpTo Twin.laneKey args.limit.toNat (sorted s args twins) []

theorem looped_eq_chosen_iff : looped s args twins = chosen s args twins ↔
    ((chosen s args twins).map Twin.laneKey).Nodup :=
  Budget.greedyUpTo_eq_take_iff (fun _ _ h => (Prod.mk.inj h).2) _

theorem chosen_subset : chosen s args twins ⊆ numbered s args twins :=
  fun _ hx => (List.perm_insertionSort _ _).subset ((Budget.greedy_sublist _).subset (List.mem_of_mem_take hx))

theorem looped_subset : looped s args twins ⊆ numbered s args twins := by
  intro x hx
  have hx : x ∈ sorted s args twins :=
    (List.mem_append.1 (Budget.greedyUpTo_subset _ hx)).resolve_left List.not_mem_nil
  exact (List.perm_insertionSort _ _).subset hx

theorem nodup_chosen : ((chosen s args twins).map Twin.lane).Nodup := by
  unfold chosen
  rw [List.map_take]
  exact (Budget.nodup_greedy _).sublist (List.take_sublist _ _)

theorem nodup_looped : ((looped s args twins).map Twin.laneKey).Nodup := Budget.nodup_greedyUpTo _ List.nodup_nil

theorem memory_claimed_eq {m : MemoryOperationStore} (same : ∀ x ∈ twins, x.Same uuids date)
    (hm : m.rows = twins.map Twin.memory) (hs : s.rows = twins.map Twin.row) (hlimit : 0 < args.limit) :
    (claimLoop args.limit (m.candidates args s.now) (Round.first args.perInstanceAvailable)).claimed =
      (looped s args twins).map Twin.memory := by
  have hsub : ∀ x ∈ sorted s args twins, x.Same uuids date := by
    intro x hx
    exact same x (List.filter_sublist.subset ((List.perm_insertionSort _ _).subset hx))
  rw [memory_candidates_eq same hm hs]
  exact (Claimed.claimLoop hlimit hsub (claimed_first args)).claimed

end Provisioning
