import Mathlib.Data.Set.Function
import Provisioning.Ops.ClaimPass
import Provisioning.Ops.EnqueueOnce
import Provisioning.Ops.StoreCalls

/-!
# The rows of both stores

After every call but a claim, the rows of an operation in the two stores still say the same.
-/

namespace Provisioning

open Lib

variable {uuids : Nat → Uuid} {date : Nat → Nat → Nat} {tie : Uuid → Nat} {N : Nat} {s s' : Stores} {twins : List Twin}

/-! ## The operations of both stores -/

/-- The rows of the two stores are those of `twins`. -/
structure Twinned (uuids : Nat → Uuid) (date : Nat → Nat → Nat) (N : Nat) (s : Stores) (twins : List Twin) : Prop where
  memory : s.memory.rows = twins.map Twin.memory
  rows : s.postgres.operations = twins.map Twin.row
  same : ∀ x ∈ twins, x.Same uuids date
  ordered : twins.Pairwise Twin.Earlier
  numbers : ∀ x ∈ twins, x.no ≤ twins.length
  bound : twins.length ≤ N
  past : ∀ x ∈ twins, x.row.createdAt ≤ s.now
  seq : s.memory.seq = twins.length
  keys : s.memory.byIdempotencyKey = twins.map fun x => (x.row.idempotencyKey, x.memory.id)
  memoryHistory : ∀ h ∈ s.memory.history, ∃ x ∈ twins, h.id = MemoryOperationStore.opId x.no
  history : ∀ h ∈ s.postgres.history, ∃ x ∈ twins, h.id = uuids x.no

namespace Twinned

theorem start (now : Nat) (partitions : List Nat) : Twinned uuids date N (Stores.start now partitions) [] := by
  refine ⟨rfl, rfl, ?_, .nil, ?_, ?_, ?_, rfl, rfl, ?_, ?_⟩ <;> simp [Stores.start, MemoryOperationStore.empty]

theorem no_le (h : Twinned uuids date N s twins) {x : Twin} (hx : x ∈ twins) : x.no ≤ N :=
  (h.numbers x hx).trans h.bound

theorem nodup (h : Twinned uuids date N s twins) : (twins.map Twin.no).Nodup :=
  List.pairwise_map.2 (h.ordered.imp fun hlt heq => absurd hlt.1 (by omega))

theorem get_eq (h : Twinned uuids date N s twins) (n : Nat) :
    s.memory.get (MemoryOperationStore.opId n) = (lookup Twin.no twins n).map Twin.memory := by
  unfold MemoryOperationStore.get
  rw [h.memory]
  refine lookup_map fun x hx => ?_
  rw [(h.same x hx).memoryId]
  exact ⟨opId_injective, congrArg _⟩

theorem row?_eq (injective : Set.InjOn uuids (Set.Iic N)) (h : Twinned uuids date N s twins) {n : Nat} (hn : n ≤ N) :
    s.postgres.row? (uuids n) = (lookup Twin.no twins n).map Twin.row := by
  unfold Tables.row?
  rw [h.rows]
  refine lookup_map fun x hx => ?_
  rw [(h.same x hx).rowId]
  exact injective.eq_iff (h.no_le hx) hn

theorem sameStatuses (injective : Set.InjOn uuids (Set.Iic N)) (h : Twinned uuids date N s twins) :
    s.SameStatuses uuids N := by
  intro n hn
  unfold MemoryOperationStore.getStatus OperationStore.getStatus
  rw [operationIdOf_text, h.get_eq]
  dsimp only
  rw [h.row?_eq injective hn]
  cases hx : lookup Twin.no twins n with
  | some x => exact congrArg some (h.same x (lookup_some_mem hx).1).status
  | none =>
    have hnone : ∀ x ∈ twins, x.no ≠ n := fun x hx' hn => lookup_none_iff.1 hx (hn ▸ List.mem_map_of_mem hx')
    have hmemory : lookup MemoryHistoryRow.id s.memory.history (MemoryOperationStore.opId n) = none := by
      refine lookup_none_iff.2 fun hid => ?_
      obtain ⟨hist, hmem, hid⟩ := List.mem_map.1 hid
      obtain ⟨x, hx', hno⟩ := h.memoryHistory hist hmem
      exact hnone x hx' (opId_injective (hno.symm.trans hid))
    have hpostgres : s.postgres.history? (uuids n) = none := by
      refine lookup_none_iff.2 fun hid => ?_
      obtain ⟨hist, hmem, hid⟩ := List.mem_map.1 hid
      obtain ⟨x, hx', hno⟩ := h.history hist hmem
      exact hnone x hx' (injective (h.no_le hx') hn (hno.symm.trans hid))
    simp [hmemory, hpostgres]

end Twinned

/-! ## The same change to both rows -/

def Twin.change (p : Twin → Prop) [DecidablePred p] (g : MemoryRow → MemoryRow) (f : Row → Row) (x : Twin) : Twin :=
  if p x then ⟨x.no, g x.memory, f x.row⟩ else x

section Change

variable {p : Twin → Prop} [DecidablePred p] {g : MemoryRow → MemoryRow} {f : Row → Row}

@[simp] theorem Twin.change_no (x : Twin) : (x.change p g f).no = x.no := by
  unfold change
  split <;> rfl

theorem Twin.change_memory (x : Twin) : (x.change p g f).memory = if p x then g x.memory else x.memory := by
  unfold change
  split <;> rfl

theorem Twin.change_row (x : Twin) : (x.change p g f).row = if p x then f x.row else x.row := by
  unfold change
  split <;> rfl

theorem Twinned.change (h : Twinned uuids date N s twins)
    (same : ∀ x ∈ twins, p x → (Twin.mk x.no (g x.memory) (f x.row)).Same uuids date)
    (kept : ∀ r, (f r).createdAt = r.createdAt ∧ (f r).idempotencyKey = r.idempotencyKey) (now : s.now ≤ s'.now)
    (memory : s'.memory.rows = twins.map fun x => if p x then g x.memory else x.memory)
    (rows : s'.postgres.operations = twins.map fun x => if p x then f x.row else x.row)
    (seq : s'.memory.seq = s.memory.seq) (keys : s'.memory.byIdempotencyKey = s.memory.byIdempotencyKey)
    (memoryHistory : ∀ hist ∈ s'.memory.history, ∃ x ∈ twins, hist.id = MemoryOperationStore.opId x.no)
    (history : ∀ hist ∈ s'.postgres.history, ∃ x ∈ twins, hist.id = uuids x.no) :
    Twinned uuids date N s' (twins.map (Twin.change p g f)) := by
  have hsame : ∀ x ∈ twins, (x.change p g f).Same uuids date := by
    intro x hx
    unfold Twin.change
    split
    · exact same x hx ‹_›
    · exact h.same x hx
  have hcreated : ∀ x : Twin, (x.change p g f).row.createdAt = x.row.createdAt := by
    intro x
    rw [Twin.change_row]
    split
    · exact (kept x.row).1
    · rfl
  have hkey : ∀ x ∈ twins, (x.change p g f).row.idempotencyKey = x.row.idempotencyKey ∧
      (x.change p g f).memory.id = x.memory.id := by
    intro x hx
    constructor
    · rw [Twin.change_row]
      split
      · exact (kept x.row).2
      · rfl
    · rw [(hsame x hx).memoryId, (h.same x hx).memoryId, Twin.change_no]
  constructor
  · rw [memory, List.map_map]
    exact List.map_congr_left fun x _ => (Twin.change_memory x).symm
  · rw [rows, List.map_map]
    exact List.map_congr_left fun x _ => (Twin.change_row x).symm
  · exact List.forall_mem_map.2 hsame
  · refine List.pairwise_map.2 (h.ordered.imp fun {x y} hlt => ?_)
    unfold Twin.Earlier
    rw [Twin.change_no, Twin.change_no, hcreated, hcreated]
    exact hlt
  · refine List.forall_mem_map.2 fun x hx => ?_
    rw [Twin.change_no, List.length_map]
    exact h.numbers x hx
  · rw [List.length_map]
    exact h.bound
  · refine List.forall_mem_map.2 fun x hx => ?_
    rw [hcreated]
    exact (h.past x hx).trans now
  · rw [seq, h.seq, List.length_map]
  · rw [keys, h.keys, List.map_map]
    refine List.map_congr_left fun x hx => ?_
    rw [Function.comp_apply, (hkey x hx).1, (hkey x hx).2]
  · intro hist hmem
    obtain ⟨x, hx, hid⟩ := memoryHistory hist hmem
    exact ⟨_, List.mem_map_of_mem hx, by rw [Twin.change_no, hid]⟩
  · intro hist hmem
    obtain ⟨x, hx, hid⟩ := history hist hmem
    exact ⟨_, List.mem_map_of_mem hx, by rw [Twin.change_no, hid]⟩

end Change

namespace Twinned

theorem later (h : Twinned uuids date N s twins) (now : s.now ≤ s'.now) (memory : s'.memory = s.memory)
    (postgres : s'.postgres = s.postgres) : Twinned uuids date N s' twins := by
  refine ⟨?_, ?_, h.same, h.ordered, h.numbers, h.bound, fun x hx => (h.past x hx).trans now, ?_, ?_, ?_, ?_⟩
  · rw [memory, h.memory]
  · rw [postgres, h.rows]
  · rw [memory, h.seq]
  · rw [memory, h.keys]
  · rw [memory]
    exact h.memoryHistory
  · rw [postgres]
    exact h.history

theorem unique (h : Twinned uuids date N s twins) {x y : Twin} (hx : x ∈ twins) (hy : y ∈ twins)
    (hno : x.no = y.no) : x = y := eq_of_key_eq h.nodup hx hy hno

theorem set_rows (h : Twinned uuids date N s twins) (n : Nat) (g : MemoryRow → MemoryRow) :
    (s.memory.set (MemoryOperationStore.opId n) g).rows =
      twins.map fun x => if x.no = n then g x.memory else x.memory := by
  unfold MemoryOperationStore.set updateWhere
  dsimp only
  rw [h.memory, List.map_map]
  refine List.map_congr_left fun x hx => ?_
  have hid : x.memory.id = MemoryOperationStore.opId n ↔ x.no = n := by
    rw [(h.same x hx).memoryId]
    exact ⟨opId_injective, congrArg _⟩
  simp only [Function.comp_apply, hid]

theorem update_rows (injective : Set.InjOn uuids (Set.Iic N)) (h : Twinned uuids date N s twins) {n : Nat} (hn : n ≤ N)
    (q : Row → Prop) [DecidablePred q] (f : Row → Row) :
    updateWhere (fun r => r.id = uuids n ∧ q r) f s.postgres.operations =
      twins.map fun x => if x.no = n ∧ q x.row then f x.row else x.row := by
  unfold updateWhere
  rw [h.rows, List.map_map]
  refine List.map_congr_left fun x hx => ?_
  have hid : x.row.id = uuids n ↔ x.no = n := by
    rw [(h.same x hx).rowId]
    exact injective.eq_iff (h.no_le hx) hn
  simp only [Function.comp_apply, hid]

theorem map_of_lookup (h : Twinned uuids date N s twins) {n : Nat} {q : Row → Prop} [DecidablePred q]
    {g : MemoryRow → MemoryRow} :
    (∀ x, lookup Twin.no twins n = some x → q x.row → twins.map (fun x => if x.no = n then g x.memory else x.memory) =
      twins.map fun x => if x.no = n ∧ q x.row then g x.memory else x.memory) ∧
    ((∀ x, lookup Twin.no twins n = some x → ¬ q x.row) → twins.map Twin.memory =
      twins.map fun x => if x.no = n ∧ q x.row then g x.memory else x.memory) := by
  refine ⟨fun x hx hq => List.map_congr_left fun y hy => ?_, fun hnot => List.map_congr_left fun y hy => ?_⟩
  · by_cases hn : y.no = n
    · obtain ⟨hmem, hno⟩ := lookup_some_mem hx
      obtain rfl := h.unique hmem hy (hno.trans hn.symm)
      simp [hn, hq]
    · simp [hn]
  · rw [if_neg]
    rintro ⟨rfl, hq⟩
    exact hnot y (lookup_of_mem h.nodup hy) hq

theorem updateRunning_rows (h : Twinned uuids date N s twins) (n : Nat) (g : MemoryRow → MemoryRow) :
    (s.memory.updateRunning (MemoryOperationStore.opId n) g).2.rows =
      twins.map fun x => if x.no = n ∧ x.row.status = .live .running then g x.memory else x.memory := by
  unfold MemoryOperationStore.updateRunning
  have hrows := h.map_of_lookup (n := n) (q := fun r => r.status = .live .running) (g := g)
  cases hx : lookup Twin.no twins n with
  | none =>
    rw [h.get_eq, hx]
    exact h.memory.trans (hrows.2 (by simp [hx]))
  | some x =>
    rw [h.get_eq, hx]
    have hstatus := (h.same x (lookup_some_mem hx).1).status
    by_cases hrunning : x.row.status = .live .running
    · simp only [Option.map_some, hstatus, hrunning, not_true_eq_false, ne_eq, if_false]
      exact (h.set_rows n g).trans (hrows.1 x hx hrunning)
    · simp only [Option.map_some, hstatus, hrunning, not_false_eq_true, ne_eq, if_true]
      refine h.memory.trans (hrows.2 fun y hy => ?_)
      rw [hx] at hy
      cases hy
      exact hrunning

theorem updateRunning (injective : Set.InjOn uuids (Set.Iic N)) (h : Twinned uuids date N s twins) {n : Nat}
    (hn : n ≤ N) {g : MemoryRow → MemoryRow} {f : Row → Row} {now : Nat} (later : s.now ≤ now)
    (same : ∀ x ∈ twins, x.row.status = .live .running → (Twin.mk x.no (g x.memory) (f x.row)).Same uuids date)
    (kept : ∀ r, (f r).createdAt = r.createdAt ∧ (f r).idempotencyKey = r.idempotencyKey) :
    ∃ twins', Twinned uuids date N ⟨now, (s.memory.updateRunning (MemoryOperationStore.opId n) g).2,
      (s.postgres.updateRunning (uuids n) f).2⟩ twins' := by
  have others : (s.memory.updateRunning (MemoryOperationStore.opId n) g).2.seq = s.memory.seq ∧
      (s.memory.updateRunning (MemoryOperationStore.opId n) g).2.byIdempotencyKey = s.memory.byIdempotencyKey ∧
      (s.memory.updateRunning (MemoryOperationStore.opId n) g).2.history = s.memory.history := by
    unfold MemoryOperationStore.updateRunning
    split
    · exact ⟨rfl, rfl, rfl⟩
    · split <;> exact ⟨rfl, rfl, rfl⟩
  refine ⟨_, h.change (fun x hx hp => same x hx hp.2) kept later (h.updateRunning_rows n g)
    (h.update_rows injective hn _ f) others.1 others.2.1 ?_ h.history⟩
  rw [others.2.2]
  exact h.memoryHistory

theorem requeue (injective : Set.InjOn uuids (Set.Iic N)) (h : Twinned uuids date N s twins) {ms n : Nat}
    (fair : s.Fair N ms (.requeue n)) :
    ∃ twins', Twinned uuids date N (s.call uuids date tie ms (.requeue n)) twins' := by
  simp only [Stores.call, StoreCall.onMemory, StoreCall.onPostgres, OperationStore.requeue, operationIdOf_text]
  refine h.updateRunning injective fair (Nat.le_add_right _ _) (fun x hx hrunning => ?_) fun r => ⟨rfl, rfl⟩
  have same := h.same x hx
  exact { same with
    status := rfl
    attemptCount := congrArg (· + 1) same.attemptCount
    waits := fun hwait => by simp [Row.requeued] at hwait
    claimedAt := fun hrun => by simp [Row.requeued] at hrun }

theorem deferForReadback (injective : Set.InjOn uuids (Set.Iic N)) (h : Twinned uuids date N s twins)
    {ms n notBefore : Nat} (fair : s.Fair N ms (.deferForReadback n notBefore)) :
    ∃ twins', Twinned uuids date N (s.call uuids date tie ms (.deferForReadback n notBefore)) twins' := by
  simp only [Stores.call, StoreCall.onMemory, StoreCall.onPostgres, OperationStore.deferForReadback,
    operationIdOf_text]
  refine h.updateRunning injective fair (Nat.le_add_right _ _) (fun x hx hrunning => ?_) fun r => ⟨rfl, rfl⟩
  have same := h.same x hx
  exact { same with
    status := rfl
    notBefore := rfl
    waits := fun _ => rfl
    claimedAt := fun hrun => by simp [Row.deferred] at hrun }

theorem finalize_memory (h : Twinned uuids date N s twins) (n now : Nat) (outcome : OperationOutcome)
    (result : Option Json) (errorCode : Option String) {m : MemoryOperationStore}
    (hm : (s.memory.finalize (MemoryOperationStore.opId n) outcome result errorCode now).2 = m) :
    m.rows = (twins.map fun x => if x.no = n ∧ ¬ x.row.status.terminal then
      MemoryOperationStore.finalized outcome result errorCode now x.memory else x.memory) ∧
      m.seq = s.memory.seq ∧ m.byIdempotencyKey = s.memory.byIdempotencyKey ∧
      ∀ hist ∈ m.history, ∃ x ∈ twins, hist.id = MemoryOperationStore.opId x.no := by
  have hrows := h.map_of_lookup (n := n) (q := fun r => ¬ r.status.terminal)
    (g := MemoryOperationStore.finalized outcome result errorCode now)
  unfold MemoryOperationStore.finalize at hm
  rw [h.get_eq] at hm
  cases hx : lookup Twin.no twins n with
  | none =>
    rw [hx] at hm
    subst hm
    exact ⟨h.memory.trans (hrows.2 (by simp [hx])), rfl, rfl, h.memoryHistory⟩
  | some x =>
    obtain ⟨hmem, hno⟩ := lookup_some_mem hx
    have hstatus := (h.same x hmem).status
    simp only [hx, Option.map_some, hstatus, ← OperationStatus.terminal_iff_listed] at hm
    by_cases hterminal : x.row.status.terminal
    · rw [if_pos hterminal] at hm
      subst hm
      refine ⟨h.memory.trans (hrows.2 fun y hy => ?_), rfl, rfl, h.memoryHistory⟩
      rw [hx] at hy
      cases hy
      exact not_not.2 hterminal
    · rw [if_neg hterminal] at hm
      subst hm
      refine ⟨(h.set_rows n _).trans (hrows.1 x hx hterminal), rfl, rfl, fun hist hmem' => ?_⟩
      rcases List.mem_append.1 hmem' with hold | hnew
      · exact h.memoryHistory hist (List.mem_filter.1 hold).1
      · rw [List.mem_singleton.1 hnew]
        exact ⟨x, hmem, (h.same x hmem).memoryId⟩

theorem finalize_postgres (injective : Set.InjOn uuids (Set.Iic N)) (h : Twinned uuids date N s twins) {n : Nat}
    (hn : n ≤ N) (now : Nat) (outcome : OperationOutcome) (result : Option Json) (errorCode : Option String)
    {t : Tables} (ht : (OperationStore.finalize (uuids n).text outcome result errorCode now s.postgres).2 = t) :
    t.operations = (twins.map fun x => if x.no = n ∧ ¬ x.row.status.terminal then
      x.row.finalized outcome result errorCode now else x.row) ∧
      ∀ hist ∈ t.history, ∃ x ∈ twins, hist.id = uuids x.no := by
  subst ht
  constructor
  · rw [OperationStore.finalize_operations, operationIdOf_text]
    simp only [Option.some.injEq, eq_comm (a := uuids n)]
    exact h.update_rows injective hn (fun r => ¬ r.status.terminal) _
  · intro hist hmem
    have hwrote : (OperationStore.finalize (uuids n).text outcome result errorCode now s.postgres).2 = s.postgres ∨
        ∃ r ∈ s.postgres.operations, operationIdOf (uuids n).text = some r.id ∧ ¬ r.status.terminal ∧
          (OperationStore.finalize (uuids n).text outcome result errorCode now s.postgres).2.history =
            s.postgres.insertHistory ((r.finalized outcome result errorCode now).toHistory now) :=
      OperationStore.finalize_history
    rcases hwrote with hsame | ⟨r, hr, -, -, hhistory⟩
    · rw [hsame] at hmem
      exact h.history hist hmem
    · rw [hhistory] at hmem
      rcases Tables.mem_insertHistory hmem with hold | rfl
      · exact h.history hist hold
      · rw [h.rows] at hr
        obtain ⟨x, hx, rfl⟩ := List.mem_map.1 hr
        exact ⟨x, hx, (h.same x hx).rowId⟩

theorem finalize (injective : Set.InjOn uuids (Set.Iic N)) (h : Twinned uuids date N s twins) {ms n : Nat}
    {outcome : OperationOutcome} {result : Option Json} {errorCode : Option String}
    (fair : s.Fair N ms (.finalize n outcome result errorCode)) :
    ∃ twins', Twinned uuids date N (s.call uuids date tie ms (.finalize n outcome result errorCode)) twins' := by
  simp only [Stores.call, StoreCall.onMemory, StoreCall.onPostgres]
  generalize hm : (s.memory.finalize (MemoryOperationStore.opId n) outcome result errorCode (s.now + ms)).2 = m
  generalize ht : (OperationStore.finalize (uuids n).text outcome result errorCode (s.now + ms) s.postgres).2 = t
  obtain ⟨hrows, hseq, hkeys, hhistory⟩ := h.finalize_memory n _ outcome result errorCode hm
  obtain ⟨hoperations, hpast⟩ := h.finalize_postgres injective fair _ outcome result errorCode ht
  refine ⟨_, h.change (g := MemoryOperationStore.finalized outcome result errorCode (s.now + ms))
    (f := Row.finalized outcome result errorCode (s.now + ms)) (fun x hx _ => ?_) (fun r => ⟨rfl, rfl⟩)
    (Nat.le_add_right _ _) hrows hoperations hseq hkeys hhistory hpast⟩
  have same := h.same x hx
  exact { same with
    status := rfl
    waits := fun hwait => by simp [Row.finalized] at hwait
    claimedAt := fun hrun => by simp [Row.finalized] at hrun }

theorem reapStale (h : Twinned uuids date N s twins) {ms thresholdMs readBackDelayMs : Nat}
    (fair : s.Fair N ms (.reapStale thresholdMs readBackDelayMs)) :
    ∃ twins', Twinned uuids date N (s.call uuids date tie ms (.reapStale thresholdMs readBackDelayMs)) twins' := by
  have hstale : ∀ x ∈ twins, MemoryOperationStore.isStale thresholdMs (s.now + ms) x.memory ↔
      x.row.stale thresholdMs (s.now + ms) := by
    intro x hx
    have same := h.same x hx
    have hrow : x.row ∈ s.postgres.operations := h.rows ▸ List.mem_map_of_mem hx
    unfold MemoryOperationStore.isStale Row.stale
    rw [same.status]
    refine and_congr_right fun hrunning => ?_
    have hnot := fair x.row hrow hrunning
    rw [same.claimedAt hrunning]
    cases hc : x.row.claimedAt with
    | none => simp
    | some c =>
      rw [hc] at hnot
      simp only [Option.any_some, decide_eq_true_eq] at hnot ⊢
      omega
  let g (r : MemoryRow) : MemoryRow :=
    if r.opType = .create then { r with
      status := .live .awaitingReadback, claimedAt := none, notBefore := some (s.now + ms + readBackDelayMs) }
    else { r with status := .live .pending, claimedAt := none, notBefore := none }
  let f (r : Row) : Row := if r.opType = .create then r.deferred (s.now + ms + readBackDelayMs) else r.reaped
  have hmemory : (s.memory.reapStale thresholdMs readBackDelayMs (s.now + ms)).2.rows =
      twins.map fun x => if x.row.stale thresholdMs (s.now + ms) then g x.memory else x.memory := by
    unfold MemoryOperationStore.reapStale updateWhere
    dsimp only
    rw [h.memory, List.map_map]
    exact List.map_congr_left fun x hx => by simp only [Function.comp_apply, hstale x hx]; rfl
  have hpostgres : (OperationStore.reapStale thresholdMs readBackDelayMs (s.now + ms)
      (s.postgres.operations.map Row.id) s.postgres).2.operations =
      twins.map fun x => if x.row.stale thresholdMs (s.now + ms) then f x.row else x.row := by
    rw [OperationStore.reapStale_operations]
    unfold updateWhere
    rw [h.rows, List.map_map]
    refine List.map_congr_left fun x hx => ?_
    have hseen : x.row.id ∈ (twins.map Twin.row).map Row.id := List.mem_map_of_mem (List.mem_map_of_mem hx)
    simp only [Function.comp_apply, hseen, true_and]
    rfl
  refine ⟨_, h.change (p := fun x => x.row.stale thresholdMs (s.now + ms)) (g := g) (f := f) (fun x hx _ => ?_)
    (fun r => ?_) (Nat.le_add_right _ _) hmemory hpostgres rfl rfl h.memoryHistory h.history⟩
  · have same := h.same x hx
    by_cases hcreate : x.row.opType = .create
    · have hg : g x.memory = { x.memory with
          status := .live .awaitingReadback, claimedAt := none, notBefore := some (s.now + ms + readBackDelayMs) } :=
        if_pos (same.opType.trans hcreate)
      have hf : f x.row = x.row.deferred (s.now + ms + readBackDelayMs) := if_pos hcreate
      rw [hg, hf]
      exact { same with
        status := rfl
        notBefore := rfl
        waits := fun _ => rfl
        claimedAt := fun hrun => by simp [Row.deferred] at hrun }
    · have hg : g x.memory = { x.memory with status := .live .pending, claimedAt := none, notBefore := none } :=
        if_neg fun hc => hcreate (same.opType.symm.trans hc)
      have hf : f x.row = x.row.reaped := if_neg hcreate
      rw [hg, hf]
      exact { same with
        status := rfl
        notBefore := rfl
        waits := fun hwait => by simp [Row.reaped] at hwait
        claimedAt := fun hrun => by simp [Row.reaped] at hrun }
  · show (f r).createdAt = r.createdAt ∧ (f r).idempotencyKey = r.idempotencyKey
    simp only [f]
    split <;> exact ⟨rfl, rfl⟩

theorem known_iff (h : Twinned uuids date N s twins) (key : String) :
    (lookup Prod.fst s.memory.byIdempotencyKey key).isSome ↔ (s.postgres.latestWithKey key).isSome := by
  have hmemory : (lookup Prod.fst s.memory.byIdempotencyKey key).isSome ↔ ∃ x ∈ twins, x.row.idempotencyKey = key := by
    rw [← Option.ne_none_iff_isSome, ne_eq, lookup_none_iff, not_not, h.keys]
    simp
  rw [hmemory]
  constructor
  · rintro ⟨x, hx, hkey⟩
    by_contra hnone
    rw [Bool.not_eq_true, Option.isSome_eq_false_iff, Option.isNone_iff_eq_none] at hnone
    exact Tables.latestWithKey_eq_none hnone x.row (h.rows ▸ List.mem_map_of_mem hx) hkey
  · intro hsome
    obtain ⟨prior, hprior⟩ := Option.isSome_iff_exists.1 hsome
    obtain ⟨hmem, hkey⟩ := Tables.latestWithKey_mem hprior
    rw [h.rows] at hmem
    obtain ⟨x, hx, rfl⟩ := List.mem_map.1 hmem
    exact ⟨x, hx, hkey⟩

theorem append (h : Twinned uuids date N s twins) {x : Twin} (same : x.Same uuids date) (no : x.no = twins.length + 1)
    (room : twins.length < N) (latest : ∀ y ∈ twins, y.row.createdAt < x.row.createdAt) (now : s.now ≤ s'.now)
    (past : x.row.createdAt ≤ s'.now) (memory : s'.memory.rows = s.memory.rows ++ [x.memory])
    (rows : s'.postgres.operations = s.postgres.operations ++ [x.row]) (seq : s'.memory.seq = s.memory.seq + 1)
    (keys : s'.memory.byIdempotencyKey = s.memory.byIdempotencyKey ++ [(x.row.idempotencyKey, x.memory.id)])
    (memoryHistory : s'.memory.history = s.memory.history) (history : s'.postgres.history = s.postgres.history) :
    Twinned uuids date N s' (twins ++ [x]) := by
  have hlength : (twins ++ [x]).length = twins.length + 1 := by simp
  constructor
  · rw [memory, h.memory, List.map_append, List.map_singleton]
  · rw [rows, h.rows, List.map_append, List.map_singleton]
  · exact List.forall_mem_append.2 ⟨h.same, List.forall_mem_singleton.2 same⟩
  · refine List.pairwise_append.2 ⟨h.ordered, List.pairwise_singleton _ _, fun y hy z hz => ?_⟩
    rw [List.mem_singleton.1 hz]
    have := h.numbers y hy
    exact ⟨by omega, latest y hy⟩
  · rw [hlength]
    exact List.forall_mem_append.2 ⟨fun y hy => (h.numbers y hy).trans (Nat.le_succ _),
      List.forall_mem_singleton.2 no.le⟩
  · rw [hlength]
    exact room
  · exact List.forall_mem_append.2 ⟨fun y hy => (h.past y hy).trans now, List.forall_mem_singleton.2 past⟩
  · rw [seq, h.seq, hlength]
  · rw [keys, h.keys, List.map_append, List.map_singleton]
  · intro hist hmem
    rw [memoryHistory] at hmem
    obtain ⟨y, hy, hid⟩ := h.memoryHistory hist hmem
    exact ⟨y, List.mem_append_left _ hy, hid⟩
  · intro hist hmem
    rw [history] at hmem
    obtain ⟨y, hy, hid⟩ := h.history hist hmem
    exact ⟨y, List.mem_append_left _ hy, hid⟩

theorem enqueue (h : Twinned uuids date N s twins) {ms : Nat} {op : EnqueueInput} (fair : s.Fair N ms (.enqueue op)) :
    ∃ twins', Twinned uuids date N (s.call uuids date tie ms (.enqueue op)) twins' := by
  obtain ⟨hroom, hpartition, htext, hfresh⟩ := fair
  have hknown := h.known_iff op.idempotencyKey
  simp only [Stores.call, StoreCall.onMemory, StoreCall.onPostgres, MemoryOperationStore.enqueue,
    OperationStore.enqueue]
  cases hmemory : lookup Prod.fst s.memory.byIdempotencyKey op.idempotencyKey with
  | some existing =>
    rw [hmemory, Option.isSome_some] at hknown
    obtain ⟨prior, hprior⟩ := Option.isSome_iff_exists.1 (hknown.1 rfl)
    rw [hprior]
    exact ⟨twins, h.later (Nat.le_add_right _ _) rfl rfl⟩
  | none =>
    rw [hmemory, Option.isSome_none] at hknown
    have hnone : s.postgres.latestWithKey op.idempotencyKey = none := by
      simpa using hknown
    have hkey : s.postgres.withKey op.idempotencyKey = [] := by
      refine List.filter_eq_nil_iff.2 fun r hr hk => ?_
      exact Tables.latestWithKey_eq_none hnone r hr (of_decide_eq_true hk)
    have hlength : s.postgres.operations.length = s.memory.seq := by
      rw [h.rows, List.length_map, h.seq]
    simp only [hnone, hpartition, if_true, hlength]
    refine ⟨_, h.append (x := ⟨s.memory.seq + 1, MemoryOperationStore.newRow op
      (MemoryOperationStore.opId (s.memory.seq + 1)) (date (s.now + ms) (s.memory.seq + 1)),
      op.newRow (uuids (s.memory.seq + 1)) (s.now + ms)⟩) ?_ ?_ ?_ ?_ (Nat.le_add_right _ _) le_rfl rfl rfl rfl rfl rfl
      rfl⟩
    · constructor <;> first | rfl | exact htext | simp [EnqueueInput.newRow]
    · rw [h.seq]
    · rw [← h.seq, ← hlength]
      exact hroom
    · intro y hy
      have hle := h.past y hy
      have hne := hfresh hkey y.row (h.rows ▸ List.mem_map_of_mem hy)
      show y.row.createdAt < s.now + ms
      omega

end Twinned

end Provisioning
