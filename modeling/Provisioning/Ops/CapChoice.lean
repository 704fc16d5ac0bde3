import Provisioning.Ops.AtomicClaim
import Provisioning.Ops.ReadBackOrder

/-!
# What the caps allow

The claim takes lane leaders in the order of `ORDER BY`, as far as the caps of their instances
go, and of these the first `limit`.
-/

namespace Provisioning

open Lib

/-! ## The budget of an instance -/

namespace ClaimArgs

def available? (args : ClaimArgs) (instanceId : String) : Option InstanceAvailability :=
  (lookup Prod.fst args.perInstanceAvailable instanceId).map Prod.snd

def totalFree (args : ClaimArgs) (instanceId : String) : Nat :=
  ((args.available? instanceId).elim 0 InstanceAvailability.totalFree).toNat

def batchFree (args : ClaimArgs) (instanceId : String) : Nat :=
  ((args.available? instanceId).elim 0 fun a => max 0 (min a.batchFree a.totalFree)).toNat

theorem cap?_free {args : ClaimArgs} (keys : (args.perInstanceAvailable.map Prod.fst).Nodup) (i : String) :
    (args.cap? i = none ∧ args.totalFree i = 0) ∨
      ∃ c, args.cap? i = some c ∧ c.cap = args.totalFree i ∧ c.batchCap = args.batchFree i := by
  unfold totalFree batchFree available?
  rw [cap?_eq, lookup_filter keys]
  cases lookup Prod.fst args.perInstanceAvailable i with
  | none => exact .inl ⟨rfl, rfl⟩
  | some a =>
    by_cases hfree : a.2.totalFree > 0
    · refine .inr ⟨⟨a.1, a.2.totalFree, max 0 (min a.2.batchFree a.2.totalFree)⟩, ?_, ?_, ?_⟩
      · simp [Option.filter, hfree]
      · simp only [Option.map_some, Option.elim_some]
        omega
      · simp only [Option.map_some, Option.elim_some]
        omega
    · refine .inl ⟨?_, ?_⟩
      · simp [Option.filter, hfree]
      · simp only [Option.map_some, Option.elim_some]
        omega

end ClaimArgs

/-! ## The specification -/

/-- Claimable, on a lane that nothing blocks and that the caller did not exclude. -/
def Row.ready (args : ClaimArgs) (now : Nat) (rows : List Row) (r : Row) : Prop :=
  r.claimable now ∧ r.laneKey ∉ args.activeLaneKeys ∧ ¬ ∃ b ∈ rows, b.blocksLane now ∧ b.sameLane r

namespace ClaimArgs

/-- `r` is the first row of its lane in the order `(priority = 'interactive') DESC, created_at`. -/
structure HeadsLane (args : ClaimArgs) (now : Nat) (rows : List Row) (r : Row) : Prop where
  mem : r ∈ rows
  ready : r.ready args now rows
  first : ∀ r' ∈ rows, r'.ready args now rows → r'.sameLane r → r' ≠ r → r.strictlyBefore r'

/-- `offered` are the lane leaders that the caps of their instances leave, and `S` the first `limit` of
them. -/
structure Takes (args : ClaimArgs) (now : Nat) (rows offered S : List Row) : Prop where
  heads : ∀ r ∈ offered, args.HeadsLane now rows r
  lanes : offered.Pairwise fun r r' => ¬ r.sameLane r'
  total : ∀ i, offered.countP (fun r => r.instanceId = i) ≤ args.totalFree i
  batch : ∀ i, offered.countP (fun r => r.instanceId = i ∧ r.priority = .batch) ≤ args.batchFree i
  cut : ∀ r, args.HeadsLane now rows r → r ∉ offered →
    offered.countP (fun p => p.instanceId = r.instanceId ∧ p.strictlyBefore r) = args.totalFree r.instanceId ∨
      r.priority = .batch ∧
        offered.countP (fun p => p.instanceId = r.instanceId ∧ p.priority = .batch ∧ p.strictlyBefore r) =
          args.batchFree r.instanceId
  taken : S.Sublist offered
  limit : (S.length : Int) ≤ args.limit
  last : ∀ r ∈ offered, r ∉ S → S.length = args.limit ∧ ∀ p ∈ S, p.strictlyBefore r

end ClaimArgs

/-! ## The query meets it -/

namespace Snapshot

variable {s : Snapshot} {args : ClaimArgs} {r r' : Row}

theorem before_iff (h : r.createdAt ≠ r'.createdAt) : s.before r r' ↔ r.strictlyBefore r' := by
  unfold before Row.strictlyBefore
  omega

theorem before_iff_of_mem (created : (s.rows.map Row.createdAt).Nodup) (hr : r ∈ s.rows) (hr' : r' ∈ s.rows)
    (hne : r ≠ r') : s.before r r' ↔ r.strictlyBefore r' :=
  before_iff fun heq => hne (eq_of_key_eq created hr hr' heq)

theorem ordered (created : (s.rows.map Row.createdAt).Nodup) : Ordered s.before s.rows where
  trans _ _ _ := before_trans
  irrefl := before_irrefl
  total a ha b hb hne := by
    have hcreated : a.createdAt ≠ b.createdAt := fun heq => hne (eq_of_key_eq created ha hb heq)
    unfold before
    omega
  nodup := created.of_map

theorem capped_sublist : (s.capped args).Sublist (s.laneLeaders args) := List.filter_sublist

theorem ordered_laneLeaders (args : ClaimArgs) (created : (s.rows.map Row.createdAt).Nodup) :
    Ordered s.before (s.laneLeaders args) :=
  (ordered created).sublist (List.filter_sublist.trans List.filter_sublist)

theorem ordered_capped (args : ClaimArgs) (created : (s.rows.map Row.createdAt).Nodup) :
    Ordered s.before (s.capped args) :=
  (ordered_laneLeaders args created).sublist capped_sublist

theorem mem_laneLeaders (created : (s.rows.map Row.createdAt).Nodup) : r ∈ s.laneLeaders args ↔
    args.HeadsLane s.now s.rows r ∧ (args.cap? r.instanceId).isSome := by
  have hcandidate : r ∈ s.candidates args ↔
      r ∈ s.rows ∧ r.ready args s.now s.rows ∧ (args.cap? r.instanceId).isSome := by
    rw [mem_candidates]
    unfold Row.ready blocked
    tauto
  unfold laneLeaders
  rw [List.mem_filter, decide_eq_true_eq, hcandidate]
  unfold laneRn
  rw [rank_one_iff]
  constructor
  · rintro ⟨⟨hmem, hready, hcap⟩, hfirst⟩
    refine ⟨⟨hmem, hready, fun r' hr' hready' hl hne => ?_⟩, hcap⟩
    have hcand' : r' ∈ s.candidates args :=
      mem_candidates.2 ⟨hr', hready'.1, hl.1 ▸ hcap, hready'.2.1, hready'.2.2⟩
    rw [← before_iff_of_mem created hmem hr' hne.symm]
    refine ((ordered created).total r hmem r' hr' hne.symm).resolve_right fun hback => ?_
    exact hfirst r' hcand' ⟨hl, hback⟩
  · rintro ⟨⟨hmem, hready, hfirst⟩, hcap⟩
    refine ⟨⟨hmem, hready, hcap⟩, fun r' hr' hback => ?_⟩
    obtain ⟨hmem', hclaim', -, hactive', hfree'⟩ := mem_candidates.1 hr'
    have hne : r' ≠ r := by
      rintro rfl
      exact before_irrefl r' hback.2
    have hlt := (before_iff_of_mem created hmem hmem' hne.symm).2
      (hfirst r' hmem' ⟨hclaim', hactive', hfree'⟩ hback.1 hne)
    exact before_irrefl r (before_trans hlt hback.2)

theorem mem_capped (keys : (args.perInstanceAvailable.map Prod.fst).Nodup) : r ∈ s.capped args ↔
    r ∈ s.laneLeaders args ∧ s.rn args r ≤ args.totalFree r.instanceId ∧
      (r.priority = .batch → s.classRn args r ≤ args.batchFree r.instanceId) := by
  have hpos : 1 ≤ s.rn args r := Nat.le_add_left 1 _
  unfold capped
  rw [List.mem_filter, decide_eq_true_eq]
  refine and_congr_right fun _ => ?_
  unfold withinCaps
  rcases ClaimArgs.cap?_free keys r.instanceId with ⟨hnone, hfree⟩ | ⟨c, hc, hcap, hbatch⟩
  · rw [hnone, hfree, Option.any_none]
    exact iff_of_false (by simp) fun h => by omega
  · rw [hc, Option.any_some, decide_eq_true_eq, hcap, hbatch, ← imp_iff_not_or]
    exact and_congr (by omega) (forall_congr' fun _ => by omega)

theorem countP_capped_le (created : (s.rows.map Row.createdAt).Nodup) {w : Row → Row → Prop} [DecidableRel w]
    {p : Row → Prop} [DecidablePred p] {n : Nat} (trans : ∀ a b c, w a b → w b c → w a c)
    (one : ∀ a b, p a → p b → w a b)
    (hrank : ∀ r ∈ s.capped args, p r → rank (fun a b => w a b ∧ s.before a b) (s.laneLeaders args) r ≤ n) :
    (s.capped args).countP p ≤ n := by
  have hleaders := ordered_laneLeaders args created
  have hp {r : Row} (hr : r ∈ (s.capped args).filter p) : r ∈ s.capped args ∧ p r := by
    simpa using List.mem_filter.1 hr
  rw [List.countP_eq_length_filter]
  refine length_le_of_rank_le ?_ ?_ ?_ ?_ ?_ fun r hr => hrank r (hp hr).1 (hp hr).2
  · exact fun a b c hab hbc => ⟨trans a b c hab.1 hbc.1, before_trans hab.2 hbc.2⟩
  · exact fun a h => before_irrefl a h.2
  · exact hleaders.nodup.sublist (List.filter_sublist.trans capped_sublist)
  · exact fun r hr => capped_sublist.subset (hp hr).1
  · intro a ha b hb hne
    have hab := one a b (hp ha).2 (hp hb).2
    have hba := one b a (hp hb).2 (hp ha).2
    have horder := hleaders.total a (capped_sublist.subset (hp ha).1) b (capped_sublist.subset (hp hb).1) hne
    exact horder.imp (fun h => ⟨hab, h⟩) fun h => ⟨hba, h⟩

theorem rank_window_lt {w : Row → Row → Prop} [DecidableRel w] {x : Row} (trans : ∀ a b c, w a b → w b c → w a c)
    (hx : x ∈ s.laneLeaders args) (hw : w x r) (hlt : s.before x r) :
    rank (fun a b => w a b ∧ s.before a b) (s.laneLeaders args) x <
      rank (fun a b => w a b ∧ s.before a b) (s.laneLeaders args) r :=
  rank_lt_rank (fun a b c hab hbc => ⟨trans a b c hab.1 hbc.1, before_trans hab.2 hbc.2⟩)
    (fun a h => before_irrefl a h.2) hx ⟨hw, hlt⟩

theorem countP_le_capped (created : (s.rows.map Row.createdAt).Nodup) (args : ClaimArgs) {q p : Row → Prop}
    [DecidablePred q] [DecidablePred p] (h : ∀ x ∈ s.laneLeaders args, q x → x ∈ s.capped args ∧ p x) :
    (s.laneLeaders args).countP q ≤ (s.capped args).countP p := by
  have hleaders := ordered_laneLeaders args created
  rw [List.countP_eq_length_filter, List.countP_eq_length_filter]
  refine (List.subperm_of_subset (hleaders.nodup.sublist List.filter_sublist) fun x hx => ?_).length_le
  obtain ⟨hmem, hq⟩ := List.mem_filter.1 hx
  obtain ⟨hcapped, hp⟩ := h x hmem (of_decide_eq_true hq)
  exact List.mem_filter.2 ⟨hcapped, decide_eq_true hp⟩

theorem batchCap_full (created : (s.rows.map Row.createdAt).Nodup)
    (keys : (args.perInstanceAvailable.map Prod.fst).Nodup) (hr : r ∈ s.laneLeaders args) (hbatch : r.priority = .batch)
    (hcap : s.rn args r ≤ args.totalFree r.instanceId) (hfull : args.batchFree r.instanceId < s.classRn args r) :
    args.batchFree r.instanceId ≤ (s.capped args).countP fun p =>
      p.instanceId = r.instanceId ∧ p.priority = .batch ∧ s.before p r := by
  have hleaders := ordered_laneLeaders args created
  unfold classRn at hfull
  have hwindow := hleaders.window_full hr ⟨rfl, rfl⟩ (fun x _ hx z _ => by rw [hx.1, hx.2]) hfull
  have hle := countP_le_capped created args
    (q := fun x => ((x.instanceId = r.instanceId ∧ x.priority = r.priority) ∧ s.before x r) ∧
      s.classRn args x ≤ args.batchFree r.instanceId)
    (p := fun p => p.instanceId = r.instanceId ∧ p.priority = .batch ∧ s.before p r) fun x hx hq => by
      obtain ⟨⟨⟨hi, hp⟩, hlt⟩, hclass⟩ := hq
      have hrn : s.rn args x < s.rn args r := rank_window_lt (fun _ _ _ => Eq.trans) hx hi hlt
      refine ⟨(mem_capped keys).2 ⟨hx, ?_, fun _ => ?_⟩, hi, hp.trans hbatch, hlt⟩
      · rw [hi]
        omega
      · rwa [hi]
  exact hwindow.symm.le.trans hle

theorem cut_of_not_capped (created : (s.rows.map Row.createdAt).Nodup)
    (keys : (args.perInstanceAvailable.map Prod.fst).Nodup) (hr : r ∈ s.laneLeaders args) (hcut : r ∉ s.capped args) :
    args.totalFree r.instanceId ≤ (s.capped args).countP (fun p => p.instanceId = r.instanceId ∧ s.before p r) ∨
      r.priority = .batch ∧ args.batchFree r.instanceId ≤ (s.capped args).countP fun p =>
        p.instanceId = r.instanceId ∧ p.priority = .batch ∧ s.before p r := by
  have hleaders := ordered_laneLeaders args created
  have slice {x : Row} (hx : x ∈ s.laneLeaders args) (hcap : s.rn args x ≤ args.totalFree x.instanceId)
      (hcut : x ∉ s.capped args) : x.priority = .batch ∧ args.batchFree x.instanceId < s.classRn args x := by
    by_contra hnot
    refine hcut ((mem_capped keys).2 ⟨hx, hcap, fun hbatch => ?_⟩)
    exact not_lt.1 fun hlt => hnot ⟨hbatch, hlt⟩
  by_cases hcap : s.rn args r ≤ args.totalFree r.instanceId
  · obtain ⟨hbatch, hfull⟩ := slice hr hcap hcut
    exact .inr ⟨hbatch, batchCap_full created keys hr hbatch hcap hfull⟩
  · have hover : args.totalFree r.instanceId < s.rn args r := not_le.1 hcap
    unfold rn at hover
    have hwindow := hleaders.window_full (w := fun a b => a.instanceId = b.instanceId) hr rfl
      (fun x _ hx z _ => by rw [hx]) hover
    by_cases hall : ∀ x ∈ s.laneLeaders args, x.instanceId = r.instanceId → s.before x r →
        s.rn args x ≤ args.totalFree r.instanceId → x ∈ s.capped args
    · refine .inl (hwindow.symm.le.trans (countP_le_capped created args fun x hx hq => ?_))
      exact ⟨hall x hx hq.1.1 hq.1.2 hq.2, hq.1.1, hq.1.2⟩
    · -- One of the rows that come first has itself been cut, so the batch cap is used up already.
      push Not at hall
      obtain ⟨x, hx, hi, hlt, hrn, hcut'⟩ := hall
      rw [← hi] at hrn
      obtain ⟨hbatch, hfull⟩ := slice hx hrn hcut'
      have hlast : r.priority = .batch := by
        unfold before at hlt
        cases hr : r.priority with
        | batch => rfl
        | interactive =>
          rw [hbatch, hr] at hlt
          simp [OperationPriority.order] at hlt
      refine .inr ⟨hlast, ?_⟩
      rw [← hi]
      refine (batchCap_full created keys hx hbatch hrn hfull).trans (List.countP_mono_left fun p _ hp => ?_)
      simp only [decide_eq_true_eq] at hp ⊢
      exact ⟨hp.1, hp.2.1, before_trans hp.2.2 hlt⟩

theorem picked_eq_filter (hlimit : 0 < args.limit) : s.picked args =
    (s.capped args).filter fun x => rank s.before (s.capped args) x ≤ args.limit.toNat :=
  List.filter_congr fun x _ => decide_eq_decide.2 (by omega)

theorem length_picked (created : (s.rows.map Row.createdAt).Nodup) (hlimit : 0 < args.limit) :
    (s.picked args).length = min args.limit.toNat (s.capped args).length := by
  have hcapped := ordered_capped args created
  rw [picked_eq_filter hlimit, ← List.countP_eq_length_filter, hcapped.countP_rank_le]

theorem full_of_not_picked (created : (s.rows.map Row.createdAt).Nodup) (hlimit : 0 < args.limit)
    (hr : r ∈ s.capped args) (hcut : r ∉ s.picked args) :
    (s.picked args).length = args.limit ∧ ∀ p ∈ s.picked args, s.before p r := by
  have hcapped := ordered_capped args created
  have hover : args.limit.toNat < rank s.before (s.capped args) r := by
    by_contra hle
    refine hcut (List.mem_filter.2 ⟨hr, decide_eq_true ?_⟩)
    omega
  have hlen := rank_le_length hr (before_irrefl (s := s) r)
  constructor
  · rw [length_picked created hlimit]
    omega
  · intro p hp
    rw [picked_eq_filter hlimit] at hp
    obtain ⟨hmem, hrank⟩ := List.mem_filter.1 hp
    exact hcapped.lt_of_rank_lt hmem hr ((of_decide_eq_true hrank).trans_lt hover)

theorem picked_of_no_caps (hcaps : args.caps = []) : s.picked args = [] := by
  refine List.eq_nil_iff_forall_not_mem.2 fun r hr => ?_
  obtain ⟨c, hc, -⟩ := (fits_of_picked hr).caps
  unfold ClaimArgs.cap? at hc
  rw [hcaps] at hc
  cases hc

theorem countP_instance_le (created : (s.rows.map Row.createdAt).Nodup)
    (keys : (args.perInstanceAvailable.map Prod.fst).Nodup) (i : String) :
    (s.capped args).countP (fun r => r.instanceId = i) ≤ args.totalFree i := by
  refine countP_capped_le created (w := fun a b => a.instanceId = b.instanceId) (fun _ _ _ => Eq.trans)
    (fun a b ha hb => ha.trans hb.symm) ?_
  rintro r hr rfl
  exact ((mem_capped keys).1 hr).2.1

theorem countP_batch_le (created : (s.rows.map Row.createdAt).Nodup)
    (keys : (args.perInstanceAvailable.map Prod.fst).Nodup) (i : String) :
    (s.capped args).countP (fun r => r.instanceId = i ∧ r.priority = .batch) ≤ args.batchFree i := by
  refine countP_capped_le created (w := fun a b => a.instanceId = b.instanceId ∧ a.priority = b.priority)
    (fun _ _ _ h h' => ⟨h.1.trans h'.1, h.2.trans h'.2⟩)
    (fun a b ha hb => ⟨ha.1.trans hb.1.symm, ha.2.trans hb.2.symm⟩) ?_
  rintro r hr ⟨rfl, hclass⟩
  exact ((mem_capped keys).1 hr).2.2 hclass

theorem takes (created : (s.rows.map Row.createdAt).Nodup) (keys : (args.perInstanceAvailable.map Prod.fst).Nodup)
    (hlimit : 0 < args.limit) : args.Takes s.now s.rows (s.capped args) (s.picked args) := by
  have hoffered {r : Row} (hr : r ∈ s.capped args) := (mem_capped keys).1 hr
  have hhead {r : Row} (hr : r ∈ s.capped args) := ((mem_laneLeaders created).1 (hoffered hr).1).1
  have hbefore {p r : Row} (hp : p ∈ s.capped args) (hr : r ∈ s.rows) (hlt : s.before p r) : p.strictlyBefore r := by
    refine (before_iff_of_mem created (hhead hp).mem hr ?_).1 hlt
    rintro rfl
    exact before_irrefl p hlt
  have htotal := countP_instance_le created keys
  have hbatch := countP_batch_le created keys
  refine ⟨fun r hr => hhead hr, ?_, htotal, hbatch, fun r head hcut => ?_, List.filter_sublist, ?_, ?_⟩
  · refine (ordered_capped args created).nodup.imp_of_mem ?_
    intro a b ha hb hne hl
    have hab := (hhead ha).first b (hhead hb).mem (hhead hb).ready hl.symm (Ne.symm hne)
    have hba := (hhead hb).first a (hhead ha).mem (hhead ha).ready hl hne
    unfold Row.strictlyBefore at hab hba
    omega
  · rcases ClaimArgs.cap?_free keys r.instanceId with ⟨-, hfree⟩ | ⟨c, hc, -⟩
    · -- An instance without a budget has contributed all its rows, none.
      refine .inl ?_
      have hzero := htotal r.instanceId
      have hle : (s.capped args).countP (fun p => p.instanceId = r.instanceId ∧ p.strictlyBefore r) ≤
          (s.capped args).countP fun p => p.instanceId = r.instanceId :=
        List.countP_mono_left fun p _ hp => decide_eq_true (of_decide_eq_true hp).1
      omega
    · have hleader : r ∈ s.laneLeaders args := (mem_laneLeaders created).2 ⟨head, by rw [hc]; rfl⟩
      refine (cut_of_not_capped created keys hleader hcut).imp (fun hle => ?_) fun ⟨hlast, hle⟩ => ⟨hlast, ?_⟩
      · refine le_antisymm ((List.countP_mono_left fun p _ hp => ?_).trans (htotal r.instanceId))
          (hle.trans (List.countP_mono_left fun p hmem hp => ?_))
        · exact decide_eq_true (of_decide_eq_true hp).1
        · have hp := of_decide_eq_true hp
          exact decide_eq_true ⟨hp.1, hbefore hmem head.mem hp.2⟩
      · refine le_antisymm ((List.countP_mono_left fun p _ hp => ?_).trans (hbatch r.instanceId))
          (hle.trans (List.countP_mono_left fun p hmem hp => ?_))
        · have hp := of_decide_eq_true hp
          exact decide_eq_true ⟨hp.1, hp.2.1⟩
        · have hp := of_decide_eq_true hp
          exact decide_eq_true ⟨hp.1, hp.2.1, hbefore hmem head.mem hp.2.2⟩
  · rw [length_picked created hlimit]
    omega
  · intro r hr hcut
    obtain ⟨hlen, hall⟩ := full_of_not_picked created hlimit hr hcut
    exact ⟨hlen, fun p hp => hbefore (List.filter_sublist.subset hp) (hhead hr).mem (hall p hp)⟩

end Snapshot

/-! ## The result -/

/-- Each row with what became of it: a row of `S` is claimed, every other row is unchanged. -/
def ClaimedExactly (now : Nat) (S before after : List Row) : Prop :=
  List.Forall₂ (fun r r' => r ∈ S ∧ r' = r.claimed now ∨ r ∉ S ∧ r' = r) before after

theorem claimedExactly_updateWhere (now : Nat) {S rows : List Row} (created : (rows.map Row.createdAt).Nodup)
    (hsub : S ⊆ rows) : ClaimedExactly now S rows
      (updateWhere (fun r => ∃ p ∈ S, p.id = r.id ∧ p.createdAt = r.createdAt) (Row.claimed now) rows) := by
  unfold ClaimedExactly updateWhere
  rw [List.forall₂_map_right_iff, List.forall₂_same]
  intro r hr
  split
  · rename_i hp
    obtain ⟨p, hp, -, hcreated⟩ := hp
    obtain rfl := eq_of_key_eq created (hsub hp) hr hcreated
    exact .inl ⟨hp, rfl⟩
  · rename_i hp
    exact .inr ⟨fun hmem => hp ⟨r, hmem, rfl, rfl⟩, rfl⟩

theorem forall₂_toClaimed {S : List Row} (lockable : ∀ r ∈ S, ∃ p, r.lockable = some p) :
    List.Forall₂ (fun r op => ∃ p, r.status = .live p ∧ op = r.toClaimed p) S
      (S.filterMap fun r => r.lockable.map r.toClaimed) := by
  induction S with
  | nil => exact .nil
  | cons r rest ih =>
    obtain ⟨p, hp⟩ := lockable r List.mem_cons_self
    rw [List.filterMap_cons_some (by rw [hp]; rfl)]
    exact .cons ⟨p, (Row.lockable_eq_some.1 hp).1, rfl⟩ (ih fun x hx => lockable x (List.mem_cons_of_mem _ hx))

/-- **The claim takes exactly the rows that the caps allow.** -/
theorem claim_takes {args : ClaimArgs} {now : Nat} {tie : Uuid → Nat} {t : Tables}
    (created : (t.operations.map Row.createdAt).Nodup) (keys : (args.perInstanceAvailable.map Prod.fst).Nodup)
    (limit : 0 < args.limit) : ∃ offered S, args.Takes now t.operations offered S ∧
      List.Forall₂ (fun r op => ∃ p, r.status = .live p ∧ op = r.toClaimed p) S
        (OperationStore.claimBatch args now tie t).1 ∧
      ClaimedExactly now S t.operations (OperationStore.claimBatch args now tie t).2.operations ∧
      (OperationStore.claimBatch args now tie t).2.history = t.history := by
  have hsub : (Snapshot.mk t.operations now tie).picked args ⊆ t.operations :=
    fun r hr => (Snapshot.leads_of_picked hr).1
  have hupdated := claimedExactly_updateWhere now created hsub
  have hlocked := forall₂_toClaimed fun r (hr : r ∈ (Snapshot.mk t.operations now tie).picked args) =>
    (Snapshot.leads_of_picked hr).2.claimable.lockable
  refine ⟨_, _, Snapshot.takes (s := ⟨t.operations, now, tie⟩) created keys limit, ?_⟩
  unfold OperationStore.claimBatch
  by_cases hidle : args.caps = [] ∨ args.limit ≤ 0
  · have hnone := Snapshot.picked_of_no_caps (s := ⟨t.operations, now, tie⟩) (hidle.resolve_right (not_le.2 limit))
    rw [hnone] at hupdated ⊢
    rw [updateWhere_of_none (by simp)] at hupdated
    rw [if_pos hidle]
    exact ⟨.nil, hupdated, rfl⟩
  · rw [if_neg hidle]
    exact ⟨hlocked, hupdated, rfl⟩

/-! ## Four rows and a batch slice of one -/

def queued (id : Uuid) (laneKey : String) (priority : OperationPriority) (createdAt : Nat) : Row :=
  EnqueueInput.newRow ⟨"hr", "User", .update, laneKey, laneKey, some priority, some laneKey, none, none⟩ id createdAt

def mixedLanes : Tables :=
  ⟨[queued 1 "ada" .batch 1, queued 2 "bob" .batch 2, queued 3 "cyd" .interactive 3, queued 4 "ada" .interactive 4],
    [], [0]⟩

/-- Row 4 leads the lane of row 1, and row 2 takes the batch slice. -/
example : (OperationStore.claimBatch ⟨100, [], [("hr", ⟨1, 3⟩)]⟩ 5 (fun _ => 0) mixedLanes).1.map
    ClaimedOperation.id = [Uuid.text 2, Uuid.text 3, Uuid.text 4] := by
  decide

theorem claim_takes_mixed : ∃ offered S, ClaimArgs.Takes ⟨100, [], [("hr", ⟨1, 3⟩)]⟩ 5 mixedLanes.operations offered S ∧
    List.Forall₂ (fun r op => ∃ p, r.status = .live p ∧ op = r.toClaimed p) S
      (OperationStore.claimBatch ⟨100, [], [("hr", ⟨1, 3⟩)]⟩ 5 (fun _ => 0) mixedLanes).1 ∧
    ClaimedExactly 5 S mixedLanes.operations
      (OperationStore.claimBatch ⟨100, [], [("hr", ⟨1, 3⟩)]⟩ 5 (fun _ => 0) mixedLanes).2.operations ∧
    (OperationStore.claimBatch ⟨100, [], [("hr", ⟨1, 3⟩)]⟩ 5 (fun _ => 0) mixedLanes).2.history = [] :=
  claim_takes (by decide) (by decide) (by decide)

end Provisioning
