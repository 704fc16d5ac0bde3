import Provisioning.Ops.Twins

/-!
# Where the stores agree

The query tells lanes apart by instance and key, the loop of the in-memory store by the key alone. They
agree on every sequence of calls in which that makes no difference.
-/

namespace Provisioning

open Lib

variable {uuids : Nat → Uuid} {date : Nat → Nat → Nat} {tie : Uuid → Nat} {N : Nat} {s : Stores} {twins : List Twin}

/-! ## Claims -/

section Claim

variable {args : ClaimArgs} {now : Nat}

/-- The keys are apart exactly when they tell the chosen operations apart. -/
theorem keysApart_iff {s : Snapshot} (hs : s.rows = twins.map Twin.row)
    (hsorted : (sorted s args twins).Pairwise s.ahead) :
    s.KeysApart args ↔ ((chosen s args twins).map Twin.laneKey).Nodup := by
  have hpicked : ∀ r, r ∈ s.laneLeaders args ∧ s.InTurn args r ↔ ∃ x ∈ chosen s args twins, x.row = r := by
    intro r
    rw [← Snapshot.mem_picked_iff, (picked_perm hs hsorted).mem_iff, List.mem_map]
  constructor
  · intro hapart
    refine List.pairwise_map.2 ((List.pairwise_map.1 nodup_chosen).imp_of_mem fun {x y} hx hy hne hkey => hne ?_)
    have hrx := (hpicked x.row).2 ⟨x, hx, rfl⟩
    have hry := (hpicked y.row).2 ⟨y, hy, rfl⟩
    have hinstance := hapart x.row hrx.1 y.row hry.1 hrx.2 hry.2 hkey
    exact Prod.ext hinstance hkey
  · intro hnodup r hr r' hr' hturn hturn' hkey
    obtain ⟨x, hx, rfl⟩ := (hpicked r).1 ⟨hr, hturn⟩
    obtain ⟨y, hy, rfl⟩ := (hpicked r').1 ⟨hr', hturn'⟩
    rw [List.inj_on_of_nodup_map hnodup hx hy hkey]

theorem keysApart_of_idle {s : Snapshot} (h : args.caps = [] ∨ args.limit ≤ 0) : s.KeysApart args := by
  intro r hr r' hr' hturn
  exfalso
  rcases h with hcaps | hlimit
  · obtain ⟨c, hc, -⟩ := (Option.any_eq_true _ _).1 hturn.1
    simp [ClaimArgs.cap?, hcaps] at hc
  · have hpos : 1 ≤ rank s.before (s.capped args) r := rank_pos
    have := hturn.2
    omega

theorem caps_eq_nil_iff :
    args.caps = [] ↔ (args.perInstanceAvailable.filter fun a => a.2.totalFree > 0) = [] := by
  unfold ClaimArgs.caps
  rw [List.filterMap_eq_nil_iff, List.filter_eq_nil_iff]
  refine forall_congr' fun a => forall_congr' fun _ => ?_
  simp

namespace Twinned

/-- The rows that Postgres claims from. -/
def snapshot (s : Stores) (now : Nat) (tie : Uuid → Nat) : Snapshot := ⟨s.postgres.operations, now, tie⟩

variable (tie) in
theorem claims_memory (h : Twinned uuids date N s twins) (hcaps : args.caps ≠ []) (hlimit : 0 < args.limit)
    {r : List ClaimedOperation × MemoryOperationStore} (hr : s.memory.claimBatch args now = r) :
    r.1 = ((looped (snapshot s now tie) args twins).map fun x =>
        MemoryOperationStore.toClaimed x.memory (MemoryOperationStore.priorStatus x.memory)) ∧
      r.2.rows = (twins.map fun x => if x.no ∈ (looped (snapshot s now tie) args twins).map Twin.no then
        MemoryOperationStore.markRunning now x.memory else x.memory) ∧
      r.2.seq = s.memory.seq ∧ r.2.byIdempotencyKey = s.memory.byIdempotencyKey ∧
      r.2.history = s.memory.history := by
  have hfree := fun hnil => hcaps (caps_eq_nil_iff.2 hnil)
  have hclaimed := memory_claimed_eq (s := snapshot s now tie) h.same h.memory h.rows hlimit
  unfold MemoryOperationStore.claimBatch at hr
  dsimp only at hr
  rw [if_neg (not_or.2 ⟨not_le.2 hlimit, hfree⟩)] at hr
  have hclaimed : (MemoryOperationStore.claimLoop args.limit (s.memory.candidates args now)
      (MemoryOperationStore.Round.first args.perInstanceAvailable)).claimed = _ := hclaimed
  rw [hclaimed] at hr
  subst hr
  refine ⟨by rw [List.map_map]; rfl, ?_, rfl, rfl, rfl⟩
  unfold updateWhere
  dsimp only
  rw [h.memory, List.map_map]
  refine List.map_congr_left fun x hx => ?_
  have hmem : x.memory.id ∈ ((looped (snapshot s now tie) args twins).map Twin.memory).map MemoryRow.id ↔
      x.no ∈ (looped (snapshot s now tie) args twins).map Twin.no := by
    rw [List.map_map, List.mem_map, List.mem_map]
    refine exists_congr fun y => and_congr_right fun hy => ?_
    rw [Function.comp_apply, (h.same x hx).memoryId, (h.same y (List.mem_filter.1 (looped_subset hy)).1).memoryId]
    exact ⟨opId_injective, congrArg _⟩
  simp only [Function.comp_apply, hmem]

theorem claims_postgres (injective : Set.InjOn uuids (Set.Iic N))
    (monotone : ∀ t t' n n', t ≤ t' → n ≤ n' → date t n ≤ date t' n') (h : Twinned uuids date N s twins)
    (hcaps : args.caps ≠ []) (hlimit : 0 < args.limit) {r : List ClaimedOperation × Tables}
    (hr : OperationStore.claimBatch args now tie s.postgres = r) :
    (∀ d, d ∈ r.1 ↔ ∃ x ∈ chosen (snapshot s now tie) args twins,
        d = x.row.toClaimed (MemoryOperationStore.priorStatus x.memory)) ∧
      r.2.operations = (twins.map fun x => if x.no ∈ (chosen (snapshot s now tie) args twins).map Twin.no then
        x.row.claimed now else x.row) ∧
      r.2.history = s.postgres.history := by
  have hperm : ((snapshot s now tie).picked args).Perm ((chosen (snapshot s now tie) args twins).map Twin.row) :=
    picked_perm h.rows (pairwise_sorted monotone h.same h.ordered)
  unfold OperationStore.claimBatch at hr
  rw [if_neg (not_or.2 ⟨hcaps, not_le.2 hlimit⟩)] at hr
  subst hr
  have hmem : ∀ r, r ∈ (snapshot s now tie).picked args ↔ ∃ x ∈ chosen (snapshot s now tie) args twins, x.row = r := by
    intro r
    rw [hperm.mem_iff, List.mem_map]
  have hchosen : ∀ x ∈ chosen (snapshot s now tie) args twins, x ∈ twins ∧
      x.row.lockable = some (MemoryOperationStore.priorStatus x.memory) := by
    intro x hx
    obtain ⟨hx, hcond⟩ := List.mem_filter.1 (chosen_subset hx)
    refine ⟨hx, ?_⟩
    have hstatus := (h.same x hx).status
    rcases (of_decide_eq_true hcond).1 with hpending | ⟨hwait, -⟩
    · simp [Row.lockable, MemoryOperationStore.priorStatus, hstatus, hpending]
    · simp [Row.lockable, MemoryOperationStore.priorStatus, hstatus, hwait]
  refine ⟨fun d => ?_, ?_, rfl⟩
  · dsimp only
    rw [List.mem_filterMap]
    constructor
    · rintro ⟨r, hr, hd⟩
      obtain ⟨x, hx, rfl⟩ := (hmem r).1 hr
      rw [(hchosen x hx).2] at hd
      exact ⟨x, hx, (Option.some.inj hd).symm⟩
    · rintro ⟨x, hx, rfl⟩
      exact ⟨x.row, (hmem _).2 ⟨x, hx, rfl⟩, by rw [(hchosen x hx).2, Option.map_some]⟩
  · unfold updateWhere
    dsimp only
    rw [h.rows, List.map_map]
    refine List.map_congr_left fun x hx => ?_
    have hid : (∃ r ∈ (snapshot s now tie).picked args, r.id = x.row.id ∧ r.createdAt = x.row.createdAt) ↔
        x.no ∈ (chosen (snapshot s now tie) args twins).map Twin.no := by
      rw [List.mem_map]
      constructor
      · rintro ⟨r, hr, hrid, -⟩
        obtain ⟨y, hy, rfl⟩ := (hmem r).1 hr
        rw [(h.same x hx).rowId, (h.same y (hchosen y hy).1).rowId] at hrid
        exact ⟨y, hy, injective (h.no_le (hchosen y hy).1) (h.no_le hx) hrid⟩
      · rintro ⟨y, hy, hno⟩
        obtain rfl := h.unique (hchosen y hy).1 hx hno
        exact ⟨y.row, (hmem _).2 ⟨y, hy, rfl⟩, rfl, rfl⟩
    have hrows : snapshot s now tie = ⟨twins.map Twin.row, now, tie⟩ := by
      unfold snapshot
      rw [h.rows]
    rw [hrows] at hid
    simp only [Function.comp_apply, hid, hrows]

/-- The claims agree exactly when the keys are apart. -/
theorem sameClaims_iff (injective : Set.InjOn uuids (Set.Iic N))
    (monotone : ∀ t t' n n', t ≤ t' → n ≤ n' → date t n ≤ date t' n') (h : Twinned uuids date N s twins) :
    SameClaims uuids (s.memory.claimBatch args now).1 (OperationStore.claimBatch args now tie s.postgres).1 ↔
      (snapshot s now tie).KeysApart args := by
  by_cases hidle : args.caps = [] ∨ args.limit ≤ 0
  · refine iff_of_true ?_ (keysApart_of_idle hidle)
    unfold MemoryOperationStore.claimBatch OperationStore.claimBatch
    rw [if_pos hidle, if_pos (hidle.symm.imp_right caps_eq_nil_iff.1)]
    simp [SameClaims]
  · obtain ⟨hcaps, hlimit⟩ := not_or.1 hidle
    have hmemory := (h.claims_memory tie hcaps (not_le.1 hlimit) (Eq.refl (s.memory.claimBatch args now))).1
    have hpostgres := (h.claims_postgres injective monotone hcaps (not_le.1 hlimit)
      (Eq.refl (OperationStore.claimBatch args now tie s.postgres))).1
    have hsorted : (sorted (snapshot s now tie) args twins).Pairwise (snapshot s now tie).ahead :=
      pairwise_sorted monotone h.same h.ordered
    rw [keysApart_iff h.rows hsorted, ← looped_eq_chosen_iff, hmemory]
    have hsame : ∀ x ∈ twins, SameClaim uuids
        (MemoryOperationStore.toClaimed x.memory (MemoryOperationStore.priorStatus x.memory))
        (x.row.toClaimed (MemoryOperationStore.priorStatus x.memory)) := by
      intro x hx
      have same := h.same x hx
      exact ⟨⟨x.no, same.memoryId, congrArg Uuid.text same.rowId⟩, rfl, same.attemptCount⟩
    constructor
    · rintro ⟨-, hback⟩
      -- Everything that Postgres claims, the loop claims as well, and its keys are apart.
      have hsub : chosen (snapshot s now tie) args twins ⊆ looped (snapshot s now tie) args twins := by
        intro x hx
        obtain ⟨c, hc, ⟨n, hcid, hdid⟩, -⟩ := hback _ ((hpostgres _).2 ⟨x, hx, rfl⟩)
        obtain ⟨y, hy, rfl⟩ := List.mem_map.1 hc
        have hxt := (List.mem_filter.1 (chosen_subset hx)).1
        have hyt := (List.mem_filter.1 (looped_subset hy)).1
        have hyn : y.no = n := opId_injective ((h.same y hyt).memoryId.symm.trans hcid)
        subst hyn
        have hxn : x.no = y.no :=
          injective (h.no_le hxt) (h.no_le hyt) ((h.same x hxt).rowId.symm.trans (Uuid.text_injective hdid))
        rwa [h.unique hxt hyt hxn]
      rw [looped_eq_chosen_iff]
      refine List.Nodup.map_on ?_ nodup_chosen.of_map
      exact fun x hx y hy hkey => List.inj_on_of_nodup_map nodup_looped (hsub hx) (hsub hy) hkey
    · intro heq
      rw [heq]
      constructor
      · intro c hc
        obtain ⟨x, hx, rfl⟩ := List.mem_map.1 hc
        exact ⟨_, (hpostgres _).2 ⟨x, hx, rfl⟩, hsame x (List.mem_filter.1 (chosen_subset hx)).1⟩
      · intro d hd
        obtain ⟨x, hx, rfl⟩ := (hpostgres d).1 hd
        exact ⟨_, List.mem_map_of_mem hx, hsame x (List.mem_filter.1 (chosen_subset hx)).1⟩

theorem claimBatch (injective : Set.InjOn uuids (Set.Iic N))
    (monotone : ∀ t t' n n', t ≤ t' → n ≤ n' → date t n ≤ date t' n') (h : Twinned uuids date N s twins) {ms : Nat}
    (apart : (snapshot s (s.now + ms) tie).KeysApart args) :
    ∃ twins', Twinned uuids date N (s.call uuids date tie ms (.claimBatch args)) twins' := by
  simp only [Stores.call, StoreCall.onMemory, StoreCall.onPostgres]
  generalize hm : s.memory.claimBatch args (s.now + ms) = m
  generalize ht : OperationStore.claimBatch args (s.now + ms) tie s.postgres = t
  by_cases hidle : args.caps = [] ∨ args.limit ≤ 0
  · unfold MemoryOperationStore.claimBatch at hm
    unfold OperationStore.claimBatch at ht
    rw [if_pos hidle] at ht
    rw [if_pos (hidle.symm.imp_right caps_eq_nil_iff.1)] at hm
    subst hm ht
    exact ⟨twins, h.later (Nat.le_add_right _ _) rfl rfl⟩
  · obtain ⟨hcaps, hlimit⟩ := not_or.1 hidle
    have hsorted : (sorted (snapshot s (s.now + ms) tie) args twins).Pairwise (snapshot s (s.now + ms) tie).ahead :=
      pairwise_sorted monotone h.same h.ordered
    have heq : looped (snapshot s (s.now + ms) tie) args twins = chosen (snapshot s (s.now + ms) tie) args twins :=
      looped_eq_chosen_iff.2 ((keysApart_iff h.rows hsorted).1 apart)
    obtain ⟨-, hrows, hseq, hkeys, hhistory⟩ := h.claims_memory tie hcaps (not_le.1 hlimit) hm
    obtain ⟨-, hoperations, hpast⟩ := h.claims_postgres injective monotone hcaps (not_le.1 hlimit) ht
    rw [heq] at hrows
    refine ⟨_, h.change (g := MemoryOperationStore.markRunning (s.now + ms)) (f := Row.claimed (s.now + ms))
      (fun x hx _ => ?_) (fun r => ⟨rfl, rfl⟩) (Nat.le_add_right _ _) hrows hoperations hseq hkeys
      (by rw [hhistory]; exact h.memoryHistory) (by rw [hpast]; exact h.history)⟩
    have same := h.same x hx
    exact { same with
      status := rfl
      notBefore := rfl
      waits := fun hwait => by simp [Row.claimed] at hwait
      claimedAt := fun _ => rfl }

end Twinned

end Claim

/-! ## Sequences of calls -/

namespace Twinned

theorem agreeOn (injective : Set.InjOn uuids (Set.Iic N))
    (monotone : ∀ t t' n n', t ≤ t' → n ≤ n' → date t n ≤ date t' n') (h : Twinned uuids date N s twins) {ms : Nat}
    {c : StoreCall} (fair : s.Fair N ms c) : (s.AgreeOn uuids date tie N ms c ↔ s.KeysApart tie ms c) ∧
      (s.KeysApart tie ms c → ∃ twins', Twinned uuids date N (s.call uuids date tie ms c) twins') := by
  have both (hclaims : SameClaims uuids (c.onMemory date (s.now + ms) s.memory).1
      (c.onPostgres uuids tie (s.now + ms) s.postgres).1 ↔ s.KeysApart tie ms c)
      (hafter : s.KeysApart tie ms c → ∃ twins', Twinned uuids date N (s.call uuids date tie ms c) twins') :
      (s.AgreeOn uuids date tie N ms c ↔ s.KeysApart tie ms c) ∧
        (s.KeysApart tie ms c → ∃ twins', Twinned uuids date N (s.call uuids date tie ms c) twins') := by
    refine ⟨⟨fun hagree => hclaims.1 hagree.1, fun hapart => ⟨hclaims.2 hapart, ?_⟩⟩, hafter⟩
    obtain ⟨twins', h'⟩ := hafter hapart
    exact h'.sameStatuses injective
  have none : SameClaims uuids [] [] := by simp [SameClaims]
  cases c with
  | claimBatch args =>
    exact both (h.sameClaims_iff injective monotone) (h.claimBatch injective monotone)
  | enqueue op => exact both (iff_of_true none trivial) fun _ => h.enqueue fair
  | requeue n => exact both (iff_of_true none trivial) fun _ => h.requeue injective fair
  | deferForReadback n notBefore => exact both (iff_of_true none trivial) fun _ => h.deferForReadback injective fair
  | reapStale thresholdMs readBackDelayMs => exact both (iff_of_true none trivial) fun _ => h.reapStale fair
  | finalize n outcome result errorCode => exact both (iff_of_true none trivial) fun _ => h.finalize injective fair

theorem agree_iff (injective : Set.InjOn uuids (Set.Iic N))
    (monotone : ∀ t t' n n', t ≤ t' → n ≤ n' → date t n ≤ date t' n') (h : Twinned uuids date N s twins)
    {calls : List (Nat × StoreCall)} (fair : s.AllFair uuids date tie N calls) :
    s.Agree uuids date tie N calls ↔ s.AllKeysApart uuids date tie calls := by
  induction calls generalizing s twins with
  | nil => exact Iff.rfl
  | cons call rest ih =>
    obtain ⟨hcall, hafter⟩ : (s.AgreeOn uuids date tie N call.1 call.2 ↔ s.KeysApart tie call.1 call.2) ∧
        (s.KeysApart tie call.1 call.2 → ∃ twins', Twinned uuids date N (s.call uuids date tie call.1 call.2) twins') :=
      h.agreeOn injective monotone fair.1
    constructor
    · rintro ⟨hon, hrest⟩
      obtain ⟨twins', h'⟩ := hafter (hcall.1 hon)
      exact ⟨hcall.1 hon, (ih h' fair.2).1 hrest⟩
    · rintro ⟨hapart, hrest⟩
      obtain ⟨twins', h'⟩ := hafter hapart
      exact ⟨hcall.2 hapart, (ih h' fair.2).2 hrest⟩

end Twinned

/-- **Where the stores agree**: on a sequence of calls in which no claim comes to two instances with one
lane key. `date` rounds, so a later operation may get the same time, but no earlier one. -/
theorem Stores.agree_iff_keys_apart (injective : Set.InjOn uuids (Set.Iic N))
    (monotone : ∀ t t' n n', t ≤ t' → n ≤ n' → date t n ≤ date t' n') (now : Nat) (partitions : List Nat)
    (calls : List (Nat × StoreCall)) (fair : (start now partitions).AllFair uuids date tie N calls) :
    (start now partitions).Agree uuids date tie N calls ↔
      (start now partitions).AllKeysApart uuids date tie calls :=
  (Twinned.start now partitions).agree_iff injective monotone fair

/-! ## Two accounts named alike -/

namespace Stores

def twoIds (n : Nat) : Uuid := BitVec.ofNat 128 n

theorem twoIds_injective : Set.InjOn twoIds (Set.Iic 2) := by
  intro m hm n hn h
  have := congrArg BitVec.toNat h
  simp only [twoIds, BitVec.toNat_ofNat, Set.mem_Iic] at this hm hn
  omega

def dateOf (now seq : Nat) : Nat := now + seq / 1000000

theorem dateOf_monotone (t t' n n' : Nat) (ht : t ≤ t') (hn : n ≤ n') : dateOf t n ≤ dateOf t' n' := by
  unfold dateOf
  have := Nat.div_le_div_right (c := 1000000) hn
  omega

def createCall (instanceId laneKey key : String) : StoreCall :=
  .enqueue ⟨instanceId, "User", .create, laneKey, key, none, none, none, none⟩

def claimBoth : StoreCall := .claimBatch ⟨100, [], [("hr", ⟨5, 5⟩), ("it", ⟨5, 5⟩)]⟩

/-- One name in two directories. -/
def alike : List (Nat × StoreCall) :=
  [(1, createCall "hr" "create:ada" "a"), (1, createCall "it" "create:ada" "b"), (1, claimBoth)]

def unlike : List (Nat × StoreCall) :=
  [(1, createCall "hr" "create:ada" "a"), (1, createCall "it" "create:bob" "b"), (1, claimBoth)]

theorem agree_unlike : (start 0 [0]).Agree twoIds dateOf (fun _ => 0) 2 unlike :=
  (agree_iff_keys_apart twoIds_injective dateOf_monotone 0 [0] unlike (by decide)).2 (by decide)

theorem not_agree_alike : (start 0 [0]).AllFair twoIds dateOf (fun _ => 0) 2 alike ∧
    ¬ (start 0 [0]).Agree twoIds dateOf (fun _ => 0) 2 alike := by
  have fair : (start 0 [0]).AllFair twoIds dateOf (fun _ => 0) 2 alike := by decide
  refine ⟨fair, fun hagree => ?_⟩
  have hapart := ((Twinned.start 0 [0]).agree_iff twoIds_injective dateOf_monotone fair).1 hagree
  exact absurd hapart (by decide)

end Stores

end Provisioning
