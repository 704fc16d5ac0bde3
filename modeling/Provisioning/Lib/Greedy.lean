import Mathlib.Data.List.Induction
import Mathlib.Data.List.Nodup
import Provisioning.Lib.Rank

/-!
# Greedy passes and windows

A greedy pass over a sorted list keeps one item of each lane, at most `cap` items of each pool, and
among them at most `slice` small ones. A query with row numbers first cuts each lane to its first item
and then each pool at its caps. When the small items of a pool come last, the two keep the same items.
-/

namespace Lib

variable {α κ ι : Type}

/-! ## Ranks in a sorted list -/

section Sorted

variable {lt w : α → α → Prop} [DecidableRel lt] [DecidableRel w] {l : List α} {a b : α}

theorem rank_perm {l' : List α} (h : l.Perm l') : rank lt l a = rank lt l' a := by
  unfold rank
  rw [h.countP_eq]

theorem rank_congr {lt' : α → α → Prop} [DecidableRel lt'] (h : ∀ b ∈ l, lt b a ↔ lt' b a) :
    rank lt l a = rank lt' l a := by
  have hcount : l.countP (fun b => lt b a) = l.countP fun b => lt' b a :=
    List.countP_congr fun b hb => by simpa only [decide_eq_true_eq] using h b hb
  exact congrArg (· + 1) hcount

theorem rank_pos : 1 ≤ rank lt l a := Nat.le_add_left 1 _

theorem rank_map {β : Type} {lt : β → β → Prop} [DecidableRel lt] (f : α → β) :
    rank lt (l.map f) (f a) = rank (fun x y => lt (f x) (f y)) l a := by
  unfold rank
  rw [List.countP_map]
  rfl

theorem rank_snoc_old (h : ¬ lt a b) : rank (fun x y => w x y ∧ lt x y) (l ++ [a]) b =
    rank (fun x y => w x y ∧ lt x y) l b := by
  simp [rank, h]

theorem rank_snoc_new (earlier : ∀ x ∈ l, lt x a) (irrefl : ¬ lt a a) :
    rank (fun x y => w x y ∧ lt x y) (l ++ [a]) a = l.countP (fun x => w x a) + 1 := by
  unfold rank
  rw [List.countP_append, List.countP_singleton, if_neg (by simp [irrefl]), Nat.add_zero]
  congr 1
  exact List.countP_congr fun x hx => by simp [earlier x hx]

/-- A window that is cut at `n` keeps the first `n` items. -/
theorem filter_rank_eq_take (sorted : l.Pairwise lt) (asymm : ∀ a b, lt a b → ¬ lt b a) (n : Nat) :
    l.filter (fun a => rank lt l a ≤ n) = l.take n := by
  induction l using List.reverseRecOn with
  | nil => simp
  | append_singleton l a ih =>
    obtain ⟨hsorted, -, hearlier⟩ := List.pairwise_append.1 sorted
    have hlast : ∀ x ∈ l, lt x a := fun x hx => hearlier x hx a (List.mem_singleton_self a)
    have hold : l.filter (fun x => rank lt (l ++ [a]) x ≤ n) = l.take n := by
      rw [← ih hsorted]
      refine List.filter_congr fun x hx => decide_eq_decide.2 ?_
      have hrank : rank lt (l ++ [a]) x = rank lt l x := by simp [rank, asymm x a (hlast x hx)]
      rw [hrank]
    have hnew : rank lt (l ++ [a]) a = l.length + 1 := by
      unfold rank
      have hirrefl : ¬ lt a a := fun h => asymm a a h h
      rw [List.countP_append, List.countP_eq_length.2 fun x hx => decide_eq_true (hlast x hx)]
      simp [hirrefl]
    rw [List.filter_append, hold, List.take_append]
    by_cases h : l.length + 1 ≤ n
    · rw [List.filter_cons_of_pos (by simpa [hnew] using h), List.filter_nil,
        List.take_of_length_le (l := [a]) (by rw [List.length_singleton]; omega)]
    · rw [List.filter_cons_of_neg (by simpa [hnew] using h), List.filter_nil, show n - l.length = 0 by omega,
        List.take_zero]

end Sorted

/-! ## Budgets -/

structure Budget (α ι : Type) where
  pool : α → ι
  small : α → Bool
  cap : ι → Nat
  slice : ι → Nat

variable [DecidableEq κ] [DecidableEq ι]

namespace Budget

variable (lane : α → κ) (b : Budget α ι) (lt : α → α → Prop) [DecidableRel lt]

def taken (kept : List α) (i : ι) : Nat := kept.countP fun x => b.pool x = i

def takenSmall (kept : List α) (i : ι) : Nat := kept.countP fun x => b.pool x = i ∧ b.small x

def takenBig (kept : List α) (i : ι) : Nat := kept.countP fun x => b.pool x = i ∧ ¬ b.small x

/-- There is room for one more item like `a`. -/
def Room (kept : List α) (a : α) : Prop :=
  b.taken kept (b.pool a) < b.cap (b.pool a) ∧ (b.small a → b.takenSmall kept (b.pool a) < b.slice (b.pool a))

instance (kept : List α) (a : α) : Decidable (b.Room kept a) := inferInstanceAs (Decidable (_ ∧ _))

def keep (kept : List α) (a : α) : List α :=
  if lane a ∉ kept.map lane ∧ b.Room kept a then kept ++ [a] else kept

def greedy (l : List α) : List α := l.foldl (b.keep lane) []

/-- The first item of each lane. -/
def leaders (l : List α) : List α := l.filter fun a => rank (fun x y => lane x = lane y ∧ lt x y) l a = 1

/-- The row numbers of `a` in its pool, and among the items of its class there. -/
def Fits (l : List α) (a : α) : Prop :=
  rank (fun x y => b.pool x = b.pool y ∧ lt x y) l a ≤ b.cap (b.pool a) ∧
    (b.small a → rank (fun x y => (b.pool x = b.pool y ∧ b.small x = b.small y) ∧ lt x y) l a ≤ b.slice (b.pool a))

instance (l : List α) (a : α) : Decidable (b.Fits lt l a) := inferInstanceAs (Decidable (_ ∧ _))

def within (l : List α) : List α := l.filter fun a => b.Fits lt l a

variable {lane b lt} {l : List α} {a : α}

theorem leaders_perm {l' : List α} (h : l.Perm l') : (leaders lane lt l).Perm (leaders lane lt l') := by
  unfold leaders
  simp only [rank_perm h]
  exact h.filter _

theorem within_perm {l' : List α} (h : l.Perm l') : (b.within lt l).Perm (b.within lt l') := by
  have hfits : ∀ a, b.Fits lt l a ↔ b.Fits lt l' a := fun a => by
    unfold Fits
    rw [rank_perm h, rank_perm h]
  unfold within
  simp only [hfits]
  exact h.filter _

/-! ## One more item -/

theorem leaders_snoc (earlier : ∀ x ∈ l, lt x a) (asymm : ∀ a b, lt a b → ¬ lt b a) :
    leaders lane lt (l ++ [a]) = leaders lane lt l ++ if lane a ∈ l.map lane then [] else [a] := by
  unfold leaders
  rw [List.filter_append]
  congr 1
  · refine List.filter_congr fun x hx => ?_
    rw [rank_snoc_old (asymm x a (earlier x hx))]
  · have hrank := rank_snoc_new (w := fun x y => lane x = lane y) earlier fun h => asymm a a h h
    by_cases hlane : lane a ∈ l.map lane
    · rw [if_pos hlane]
      obtain ⟨x, hx, hxa⟩ := List.mem_map.1 hlane
      have hpos : 0 < l.countP fun x => lane x = lane a := List.countP_pos_iff.2 ⟨x, hx, by simpa using hxa⟩
      have hone : ¬ rank (fun x y => lane x = lane y ∧ lt x y) (l ++ [a]) a = 1 := by omega
      rw [List.filter_cons_of_neg (by simpa using hone), List.filter_nil]
    · rw [if_neg hlane]
      have hzero : l.countP (fun x => lane x = lane a) = 0 := by
        refine List.countP_eq_zero.2 fun x hx h => hlane (List.mem_map.2 ⟨x, hx, by simpa using h⟩)
      simp [hrank, hzero]

theorem within_snoc (earlier : ∀ x ∈ l, lt x a) (asymm : ∀ a b, lt a b → ¬ lt b a) :
    b.within lt (l ++ [a]) = b.within lt l ++ if b.Room l a then [a] else [] := by
  have hold : l.filter (fun x => b.Fits lt (l ++ [a]) x) = b.within lt l := by
    refine List.filter_congr fun x hx => decide_eq_decide.2 ?_
    unfold Fits
    rw [rank_snoc_old (asymm x a (earlier x hx)), rank_snoc_old (asymm x a (earlier x hx))]
  have hnew : b.Fits lt (l ++ [a]) a ↔ b.Room l a := by
    unfold Fits Room
    rw [rank_snoc_new earlier fun h => asymm a a h h, rank_snoc_new earlier fun h => asymm a a h h]
    refine and_congr Nat.succ_le_iff (forall_congr' fun hsmall => ?_)
    rw [hsmall]
    exact Nat.succ_le_iff
  have hlast : [a].filter (fun x => b.Fits lt (l ++ [a]) x) = if b.Room l a then [a] else [] := by
    by_cases h : b.Room l a
    · rw [if_pos h, List.filter_cons_of_pos (by simpa using hnew.2 h), List.filter_nil]
    · rw [if_neg h, List.filter_cons_of_neg (by simpa using fun hfits => h (hnew.1 hfits)), List.filter_nil]
  unfold within at hold ⊢
  rw [List.filter_append, hold, hlast]

/-! ## What the caps leave -/

theorem taken_eq (kept : List α) (i : ι) : b.taken kept i = b.takenBig kept i + b.takenSmall kept i := by
  unfold taken takenBig takenSmall
  induction kept with
  | nil => rfl
  | cons x rest ih =>
    simp only [List.countP_cons, ih, decide_eq_true_eq]
    by_cases hi : b.pool x = i
    · cases hx : b.small x <;> simp [hi] <;> omega
    · simp [hi]

theorem taken_snoc (kept : List α) (a : α) (i : ι) :
    b.taken (kept ++ [a]) i = b.taken kept i + if b.pool a = i then 1 else 0 := by
  simp [taken, List.countP_append, List.countP_singleton]

theorem takenBig_snoc (kept : List α) (a : α) (i : ι) :
    b.takenBig (kept ++ [a]) i = b.takenBig kept i + if b.pool a = i ∧ ¬ b.small a then 1 else 0 := by
  simp [takenBig, List.countP_append, List.countP_singleton]

theorem takenSmall_snoc (kept : List α) (a : α) (i : ι) :
    b.takenSmall (kept ++ [a]) i = b.takenSmall kept i + if b.pool a = i ∧ b.small a then 1 else 0 := by
  simp [takenSmall, List.countP_append, List.countP_singleton]

omit [DecidableRel lt] in
theorem takenSmall_eq_zero (earlier : ∀ x ∈ l, lt x a) (last : ∀ x y, lt x y → b.small x → b.small y)
    (hbig : b.small a = false) (i : ι) : b.takenSmall l i = 0 := by
  refine List.countP_eq_zero.2 fun x hx h => ?_
  simp only [decide_eq_true_eq] at h
  rw [last x a (earlier x hx) h.2] at hbig
  cases hbig

theorem within_counts (sorted : l.Pairwise lt) (asymm : ∀ x y, lt x y → ¬ lt y x)
    (last : ∀ x y, lt x y → b.small x → b.small y) (i : ι) :
    b.takenBig (b.within lt l) i = min (b.takenBig l i) (b.cap i) ∧
      b.takenSmall (b.within lt l) i = min (b.takenSmall l i) (min (b.slice i) (b.cap i - b.takenBig l i)) := by
  induction l using List.reverseRecOn with
  | nil => simp [takenBig, takenSmall, within]
  | append_singleton l a ih =>
    obtain ⟨hsorted, -, hearlier⟩ := List.pairwise_append.1 sorted
    have earlier : ∀ x ∈ l, lt x a := fun x hx => hearlier x hx a (List.mem_singleton_self a)
    obtain ⟨hbig, hsmall⟩ := ih hsorted
    rw [within_snoc earlier asymm, takenBig_snoc, takenSmall_snoc]
    by_cases hi : b.pool a = i
    · subst hi
      have hroom : b.Room l a ↔ b.takenBig l (b.pool a) + b.takenSmall l (b.pool a) < b.cap (b.pool a) ∧
          (b.small a → b.takenSmall l (b.pool a) < b.slice (b.pool a)) := by
        unfold Room
        rw [taken_eq]
      cases hclass : b.small a with
      | false =>
        have hnone := takenSmall_eq_zero earlier last hclass (b.pool a)
        simp only [hclass, Bool.false_eq_true, false_implies, and_true] at hroom
        split
        · rename_i h
          rw [hroom] at h
          simp only [takenBig_snoc, takenSmall_snoc, hclass, Bool.false_eq_true, not_false_eq_true, and_self,
            and_false, if_true, if_false]
          omega
        · rename_i h
          rw [hroom] at h
          simp only [List.append_nil, Bool.false_eq_true, not_false_eq_true, and_self, and_false, if_true, if_false]
          omega
      | true =>
        simp only [hclass, true_implies] at hroom
        split
        · rename_i h
          rw [hroom] at h
          simp only [takenBig_snoc, takenSmall_snoc, hclass, not_true_eq_false, and_self, and_false, if_true, if_false]
          omega
        · rename_i h
          rw [hroom] at h
          simp only [List.append_nil, not_true_eq_false, and_self, and_false, if_true, if_false]
          omega
    · split
      · simp only [takenBig_snoc, takenSmall_snoc, hi, false_and, if_false, Nat.add_zero]
        exact ⟨hbig, hsmall⟩
      · simp only [List.append_nil, hi, false_and, if_false, Nat.add_zero]
        exact ⟨hbig, hsmall⟩

theorem room_within_iff (sorted : l.Pairwise lt) (earlier : ∀ x ∈ l, lt x a) (asymm : ∀ x y, lt x y → ¬ lt y x)
    (last : ∀ x y, lt x y → b.small x → b.small y) : b.Room (b.within lt l) a ↔ b.Room l a := by
  obtain ⟨hbig, hsmall⟩ := within_counts sorted asymm last (b.pool a)
  unfold Room
  rw [taken_eq, taken_eq]
  cases hclass : b.small a with
  | false =>
    have hnone := takenSmall_eq_zero earlier last hclass (b.pool a)
    simp only [Bool.false_eq_true, false_implies, and_true]
    omega
  | true =>
    simp only [true_implies]
    omega

/-- Once an item has been cut, there is no room for a later one of its pool. -/
theorem no_room_of_cut (sorted : l.Pairwise lt) (asymm : ∀ x y, lt x y → ¬ lt y x)
    (last : ∀ x y, lt x y → b.small x → b.small y) {x : α} (hx : x ∈ l) (hcut : x ∉ b.within lt l)
    (hlt : lt x a) (hpool : b.pool x = b.pool a) : ¬ b.Room (b.within lt l) a := by
  obtain ⟨hbig, hsmall⟩ := within_counts sorted asymm last (b.pool a)
  have strict : ∀ q : α → Bool, q x → (b.within lt l).countP q < l.countP q := by
    intro q hq
    have hsplit := List.countP_eq_countP_filter_add l q fun y => b.Fits lt l y
    have hleft : 0 < (l.filter fun y => !decide (b.Fits lt l y)).countP q := by
      refine List.countP_pos_iff.2 ⟨x, List.mem_filter.2 ⟨hx, ?_⟩, hq⟩
      simpa using fun h => hcut (List.mem_filter.2 ⟨hx, decide_eq_true h⟩)
    unfold within
    omega
  unfold Room
  rw [taken_eq]
  cases hclass : b.small x with
  | false =>
    have hless : b.takenBig (b.within lt l) (b.pool a) < b.takenBig l (b.pool a) :=
      strict _ (by simp [hpool, hclass])
    omega
  | true =>
    have hless : b.takenSmall (b.within lt l) (b.pool a) < b.takenSmall l (b.pool a) :=
      strict _ (by simp [hpool, hclass])
    simp only [last x a hlt hclass, true_implies]
    omega

/-! ## The pass -/

theorem leaders_sublist : (leaders lane lt l).Sublist l := List.filter_sublist

theorem within_sublist : (b.within lt l).Sublist l := List.filter_sublist

theorem exists_leader (sorted : l.Pairwise lt) (asymm : ∀ x y, lt x y → ¬ lt y x) {x : α} (hx : x ∈ l) :
    ∃ y ∈ leaders lane lt l, lane y = lane x := by
  induction l using List.reverseRecOn generalizing x with
  | nil => cases hx
  | append_singleton l a ih =>
    obtain ⟨hsorted, -, hearlier⟩ := List.pairwise_append.1 sorted
    rw [leaders_snoc (fun x hx => hearlier x hx a (List.mem_singleton_self a)) asymm]
    rcases List.mem_append.1 hx with hx | hx
    · obtain ⟨y, hy, hlane⟩ := ih hsorted hx
      exact ⟨y, List.mem_append_left _ hy, hlane⟩
    · rw [List.mem_singleton.1 hx]
      by_cases hlane : lane a ∈ l.map lane
      · obtain ⟨z, hz, hza⟩ := List.mem_map.1 hlane
        obtain ⟨y, hy, hyz⟩ := ih hsorted hz
        exact ⟨y, List.mem_append_left _ hy, hyz.trans hza⟩
      · rw [if_neg hlane]
        exact ⟨a, List.mem_append_right _ (List.mem_singleton_self a), rfl⟩

/-- **The pass keeps what the windows leave.** -/
theorem greedy_eq_windows (sorted : l.Pairwise lt) (asymm : ∀ x y, lt x y → ¬ lt y x)
    (last : ∀ x y, lt x y → b.small x → b.small y) (one : ∀ x y, lane x = lane y → b.pool x = b.pool y) :
    b.greedy lane l = b.within lt (leaders lane lt l) := by
  induction l using List.reverseRecOn with
  | nil => rfl
  | append_singleton l a ih =>
    obtain ⟨hsorted, -, hearlier⟩ := List.pairwise_append.1 sorted
    have earlier : ∀ x ∈ l, lt x a := fun x hx => hearlier x hx a (List.mem_singleton_self a)
    have hleaders : (leaders lane lt l).Pairwise lt := hsorted.sublist leaders_sublist
    have earlier' : ∀ x ∈ leaders lane lt l, lt x a := fun x hx => earlier x (leaders_sublist.subset hx)
    have hstep : b.greedy lane (l ++ [a]) = b.keep lane (b.within lt (leaders lane lt l)) a := by
      unfold greedy at ih ⊢
      rw [List.foldl_append, ih hsorted]
      rfl
    rw [hstep, leaders_snoc earlier asymm]
    unfold keep
    by_cases hlane : lane a ∈ l.map lane
    · -- The lane has a leader. Either it is kept, or it was cut and there is no room.
      obtain ⟨x, hx, hxa⟩ := List.mem_map.1 hlane
      obtain ⟨y, hy, hyx⟩ : ∃ y ∈ leaders lane lt l, lane y = lane x := exists_leader hsorted asymm hx
      have hya : lane y = lane a := hyx.trans hxa
      rw [if_pos hlane, List.append_nil, if_neg]
      rintro ⟨hfresh, hroom⟩
      by_cases hkept : y ∈ b.within lt (leaders lane lt l)
      · exact hfresh (List.mem_map.2 ⟨y, hkept, hya⟩)
      · exact no_room_of_cut hleaders asymm last hy hkept (earlier' y hy) (one y a hya) hroom
    · have hfresh : lane a ∉ (b.within lt (leaders lane lt l)).map lane :=
        fun h => hlane (((within_sublist.trans leaders_sublist).map lane).subset h)
      rw [if_neg hlane, within_snoc earlier' asymm]
      by_cases hroom : b.Room (leaders lane lt l) a
      · rw [if_pos hroom, if_pos ⟨hfresh, (room_within_iff hleaders earlier' asymm last).2 hroom⟩]
      · rw [if_neg hroom, List.append_nil, if_neg fun h => hroom ((room_within_iff hleaders earlier' asymm last).1 h.2)]

/-! ## A pass that stops

It keeps `n` items at most, and it may tell lanes apart by less than `lane`. -/

section UpTo

variable {μ : Type} [DecidableEq μ] {key : α → μ} {n : Nat} {kept : List α}

variable (b key n) in
def greedyUpTo : List α → List α → List α
  | [], kept => kept
  | a :: rest, kept => if n ≤ kept.length then kept else greedyUpTo rest (b.keep key kept a)

theorem keep_sublist (kept : List α) (a : α) : kept <+: b.keep lane kept a := by
  unfold keep
  split
  · exact List.prefix_append kept [a]
  · exact List.prefix_refl kept

theorem keep_foldl (l kept : List α) : kept <+: l.foldl (b.keep lane) kept := by
  induction l generalizing kept with
  | nil => exact List.prefix_refl kept
  | cons a rest ih => exact (keep_sublist kept a).trans (ih _)

theorem nodup_keep (nodup : (kept.map key).Nodup) (a : α) : ((b.keep key kept a).map key).Nodup := by
  unfold keep
  split
  · rename_i h
    rw [List.map_append, List.map_singleton, ← List.concat_eq_append, List.nodup_concat]
    exact ⟨h.1, nodup⟩
  · exact nodup

theorem nodup_greedy (l : List α) : ((b.greedy lane l).map lane).Nodup := by
  unfold greedy
  induction l using List.reverseRecOn with
  | nil => exact List.nodup_nil
  | append_singleton l a ih =>
    rw [List.foldl_append]
    exact nodup_keep ih a

theorem greedy_sublist (l : List α) : (b.greedy lane l).Sublist l := by
  unfold greedy
  induction l using List.reverseRecOn with
  | nil => exact List.Sublist.refl []
  | append_singleton l a ih =>
    rw [List.foldl_append, List.foldl_cons, List.foldl_nil, keep]
    split
    · exact ih.append (List.Sublist.refl [a])
    · exact ih.trans (List.sublist_append_left l [a])

theorem nodup_greedyUpTo (l : List α) (nodup : (kept.map key).Nodup) :
    ((b.greedyUpTo key n l kept).map key).Nodup := by
  induction l generalizing kept with
  | nil => exact nodup
  | cons a rest ih =>
    unfold greedyUpTo
    split
    · exact nodup
    · exact ih (nodup_keep nodup a)

theorem greedyUpTo_subset (l : List α) : b.greedyUpTo key n l kept ⊆ kept ++ l := by
  induction l generalizing kept with
  | nil => exact List.subset_append_left kept []
  | cons a rest ih =>
    unfold greedyUpTo
    split
    · exact List.subset_append_left kept _
    · intro x hx
      have hx := ih hx
      unfold keep at hx
      split at hx <;> simp only [List.mem_append, List.mem_cons] at hx ⊢ <;> tauto

theorem greedyUpTo_eq_take (coarse : ∀ x y, lane x = lane y → key x = key y) (hlen : kept.length ≤ n) {l : List α}
    (nodup : (((l.foldl (b.keep lane) kept).take n).map key).Nodup) :
    b.greedyUpTo key n l kept = (l.foldl (b.keep lane) kept).take n := by
  induction l generalizing kept with
  | nil => exact (List.take_of_length_le hlen).symm
  | cons a rest ih =>
    unfold greedyUpTo
    by_cases hfull : n ≤ kept.length
    · rw [if_pos hfull]
      have hstarts : kept <+: (a :: rest).foldl (b.keep lane) kept := keep_foldl _ _
      rw [show n = kept.length by omega]
      exact (List.prefix_iff_eq_take.1 hstarts)
    · rw [if_neg hfull]
      have hsame : b.keep key kept a = b.keep lane kept a := by
        unfold keep
        by_cases hroom : b.Room kept a
        · by_cases hlane : lane a ∈ kept.map lane
          · obtain ⟨x, hx, hxa⟩ := List.mem_map.1 hlane
            have hkey : key a ∈ kept.map key := List.mem_map.2 ⟨x, hx, coarse x a hxa⟩
            rw [if_neg fun h => h.1 hkey, if_neg fun h => h.1 hlane]
          · have hkept : b.keep lane kept a = kept ++ [a] := if_pos ⟨hlane, hroom⟩
            have hstarts : kept ++ [a] <+: ((a :: rest).foldl (b.keep lane) kept).take n := by
              rw [List.foldl_cons, hkept]
              refine List.prefix_take_iff.2 ⟨keep_foldl _ _, ?_⟩
              rw [List.length_append, List.length_singleton]
              omega
            have hnodup := nodup.sublist (hstarts.sublist.map key)
            rw [List.map_append, List.map_singleton, ← List.concat_eq_append, List.nodup_concat] at hnodup
            rw [if_pos ⟨hnodup.1, hroom⟩, if_pos ⟨hlane, hroom⟩]
        · rw [if_neg fun h => hroom h.2, if_neg fun h => hroom h.2]
      rw [hsame, List.foldl_cons]
      refine ih ?_ nodup
      unfold keep
      split
      · rw [List.length_append, List.length_singleton]
        omega
      · exact hlen

/-- **The two passes agree** exactly when the keys tell the first `n` items apart. -/
theorem greedyUpTo_eq_take_iff (coarse : ∀ x y, lane x = lane y → key x = key y) (l : List α) :
    b.greedyUpTo key n l [] = (b.greedy lane l).take n ↔ (((b.greedy lane l).take n).map key).Nodup := by
  constructor
  · intro h
    rw [← h]
    exact nodup_greedyUpTo l List.nodup_nil
  · exact greedyUpTo_eq_take coarse (Nat.zero_le n)

end UpTo

end Budget

end Lib
