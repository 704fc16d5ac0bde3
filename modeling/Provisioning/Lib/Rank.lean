import Mathlib.Data.List.Nodup
import Mathlib.Data.List.Perm.Subperm

/-!
# Ranks

`rank lt l a` is what `row_number()` gives to `a` in a window over `l` ordered by `lt`, when
`lt` is a strict order that puts any two rows of the window one before the other.
-/

namespace Lib

theorem exists_first {α : Type} (lt : α → α → Prop) {l : List α} (trans : ∀ a b c, lt a b → lt b c → lt a c)
    (irrefl : ∀ a, ¬ lt a a) (hl : l ≠ []) : ∃ a ∈ l, ∀ b ∈ l, ¬ lt b a := by
  induction l with
  | nil => exact absurd rfl hl
  | cons x rest ih =>
    by_cases hrest : rest = []
    · subst hrest
      exact ⟨x, List.mem_cons_self, by simpa using irrefl x⟩
    · obtain ⟨m, hm, hfirst⟩ := ih hrest
      by_cases hx : lt x m
      · refine ⟨x, List.mem_cons_self, fun b hb hbx => ?_⟩
        rcases List.mem_cons.1 hb with rfl | hb
        · exact irrefl _ hbx
        · exact hfirst b hb (trans _ _ _ hbx hx)
      · refine ⟨m, List.mem_cons_of_mem _ hm, fun b hb hbm => ?_⟩
        rcases List.mem_cons.1 hb with rfl | hb
        · exact hx hbm
        · exact hfirst b hb hbm

variable {α : Type} (lt : α → α → Prop) [DecidableRel lt]

def rank (l : List α) (a : α) : Nat := l.countP (fun b => lt b a) + 1

variable {lt} {l : List α} {a b : α}

theorem rank_one_iff : rank lt l a = 1 ↔ ∀ b ∈ l, ¬ lt b a := by
  simp [rank, List.countP_eq_zero]

theorem rank_le_length (ha : a ∈ l) (hirr : ¬ lt a a) : rank lt l a ≤ l.length := by
  have hlt : l.countP (fun b => lt b a) < l.length := by
    refine Nat.lt_of_le_of_ne List.countP_le_length fun h => ?_
    exact hirr (by simpa using List.countP_eq_length.1 h a ha)
  exact hlt

theorem length_le_of_rank_le {n : Nat} {sub : List α} (trans : ∀ a b c, lt a b → lt b c → lt a c)
    (irrefl : ∀ a, ¬ lt a a) (nodup : sub.Nodup) (hsub : sub ⊆ l)
    (total : ∀ a ∈ sub, ∀ b ∈ sub, a ≠ b → lt a b ∨ lt b a) (hrank : ∀ a ∈ sub, rank lt l a ≤ n) :
    sub.length ≤ n := by
  by_cases hne : sub = []
  · simp [hne]
  · -- All others come before the last of them.
    obtain ⟨m, hm, hlast⟩ := exists_first (fun a b => lt b a) (fun a b c hab hbc => trans c b a hbc hab) irrefl hne
    have hothers : sub.length - 1 ≤ l.countP fun b => lt b m := by
      classical
      have hsubset : sub.erase m ⊆ l.filter fun b => lt b m := by
        intro b hb
        have hbm := (nodup.mem_erase_iff).1 hb
        refine List.mem_filter.2 ⟨hsub hbm.2, ?_⟩
        rcases total b hbm.2 m hm hbm.1 with h | h
        · exact decide_eq_true h
        · exact absurd h (hlast b hbm.2)
      have hlen := (List.subperm_of_subset (nodup.erase m) hsubset).length_le
      rwa [List.length_erase_of_mem hm, ← List.countP_eq_length_filter] at hlen
    have hm' := hrank m hm
    unfold rank at hm'
    omega

/-! ## Row numbers -/

theorem rank_lt_rank (trans : ∀ a b c, lt a b → lt b c → lt a c) (irrefl : ∀ a, ¬ lt a a) (ha : a ∈ l)
    (hab : lt a b) : rank lt l a < rank lt l b := by
  have hsplit := List.countP_eq_countP_filter_add l (fun c => lt c b) fun c => lt c a
  have hfirst : (l.filter fun c => lt c a).countP (fun c => lt c b) = l.countP fun c => lt c a := by
    rw [List.countP_eq_length_filter (l := l), List.countP_eq_length]
    intro c hc
    exact decide_eq_true (trans c a b (of_decide_eq_true (List.mem_filter.1 hc).2) hab)
  have hself : 0 < (l.filter fun c => !decide (lt c a)).countP fun c => lt c b :=
    List.countP_pos_iff.2 ⟨a, List.mem_filter.2 ⟨ha, by simp [irrefl a]⟩, decide_eq_true hab⟩
  unfold rank
  omega

/-- A strict order that puts any two rows of the window one before the other. -/
structure Ordered (lt : α → α → Prop) (l : List α) : Prop where
  trans : ∀ a b c, lt a b → lt b c → lt a c
  irrefl : ∀ a, ¬ lt a a
  total : ∀ a ∈ l, ∀ b ∈ l, a ≠ b → lt a b ∨ lt b a
  nodup : l.Nodup

namespace Ordered

omit [DecidableRel lt] in
theorem sublist {l' : List α} (h : Ordered lt l) (hsub : l'.Sublist l) : Ordered lt l' where
  trans := h.trans
  irrefl := h.irrefl
  total a ha b hb := h.total a (hsub.subset ha) b (hsub.subset hb)
  nodup := h.nodup.sublist hsub

theorem lt_of_rank_lt (h : Ordered lt l) (ha : a ∈ l) (hb : b ∈ l) (hrank : rank lt l a < rank lt l b) :
    lt a b := by
  have hne : a ≠ b := by
    rintro rfl
    omega
  rcases h.total a ha b hb hne with hab | hba
  · exact hab
  · have := rank_lt_rank h.trans h.irrefl hb hba
    omega

theorem ranks_perm (h : Ordered lt l) : (l.map (rank lt l)).Perm (List.range' 1 l.length) := by
  have hinj : ∀ a ∈ l, ∀ b ∈ l, rank lt l a = rank lt l b → a = b := by
    intro a ha b hb heq
    by_contra hne
    rcases h.total a ha b hb hne with hab | hba
    · have := rank_lt_rank h.trans h.irrefl ha hab
      omega
    · have := rank_lt_rank h.trans h.irrefl hb hba
      omega
  have hnodup : (l.map (rank lt l)).Nodup := List.Nodup.map_on hinj h.nodup
  have hsub : l.map (rank lt l) ⊆ List.range' 1 l.length := by
    intro n hn
    obtain ⟨a, ha, rfl⟩ := List.mem_map.1 hn
    have hle := rank_le_length ha (h.irrefl a)
    have hpos : 1 ≤ rank lt l a := Nat.le_add_left 1 _
    exact List.mem_range'_1.2 ⟨hpos, by omega⟩
  refine (List.subperm_of_subset hnodup hsub).perm_of_length_le ?_
  simp

theorem countP_range' (n m : Nat) : (List.range' 1 m).countP (fun k => k ≤ n) = min n m := by
  induction m with
  | zero => simp
  | succ m ih =>
    rw [List.range'_concat, List.countP_append, ih, List.countP_singleton]
    by_cases h : 1 + 1 * m ≤ n
    · simp only [h, decide_true, if_true]
      omega
    · simp only [h, decide_false, Bool.false_eq_true, if_false]
      omega

/-- A cut at `n` leaves `n` rows, or all. -/
theorem countP_rank_le (h : Ordered lt l) (n : Nat) : l.countP (fun a => rank lt l a ≤ n) = min n l.length := by
  rw [← countP_range', ← h.ranks_perm.countP_eq, List.countP_map]
  rfl

variable {w : α → α → Prop} [DecidableRel w]

theorem rank_window (same : ∀ z ∈ l, w z b ↔ w z a) :
    rank (fun x y => w x y ∧ lt x y) l b = rank lt (l.filter fun x => w x a) b := by
  unfold rank
  rw [List.countP_filter]
  congr 1
  refine List.countP_congr fun z hz => ?_
  simp only [decide_eq_true_eq, Bool.and_eq_true, same z hz, and_comm]

/-- When the row number of `a` in its window exceeds `n`, then `n` rows of the window come before. -/
theorem window_full (h : Ordered lt l) (ha : a ∈ l) (self : w a a)
    (same : ∀ x ∈ l, w x a → ∀ z ∈ l, w z x ↔ w z a) {n : Nat}
    (hn : n < rank (fun x y => w x y ∧ lt x y) l a) :
    l.countP (fun x => (w x a ∧ lt x a) ∧ rank (fun x y => w x y ∧ lt x y) l x ≤ n) = n := by
  have hw : Ordered lt (l.filter fun x => w x a) := h.sublist List.filter_sublist
  have haw : a ∈ l.filter fun x => w x a := List.mem_filter.2 ⟨ha, decide_eq_true self⟩
  rw [rank_window fun z _ => Iff.rfl] at hn
  have hlen := rank_le_length haw (h.irrefl a)
  have hcount := hw.countP_rank_le n
  rw [Nat.min_eq_left (by omega), List.countP_filter] at hcount
  refine Eq.trans (List.countP_congr fun x hx => ?_) hcount
  simp only [decide_eq_true_eq, Bool.and_eq_true]
  by_cases hxa : w x a
  · rw [rank_window (same x hx hxa)]
    constructor
    · exact fun hle => ⟨hle.2, hxa⟩
    · intro hle
      have hlt : lt x a := by
        refine hw.lt_of_rank_lt (List.mem_filter.2 ⟨hx, decide_eq_true hxa⟩) haw ?_
        omega
      exact ⟨⟨hxa, hlt⟩, hle.1⟩
  · simp [hxa]

end Ordered

end Lib
