import Mathlib.Data.List.Nodup

/-!
# Tables and statements

A table is a list of rows with a key. `updateWhere` is `UPDATE … SET … WHERE …`, which leaves
the keys alone.
-/

namespace Lib

variable {ρ κ : Type}

def lookup [DecidableEq κ] (key : ρ → κ) (rows : List ρ) (k : κ) : Option ρ := rows.find? fun r => key r = k

def updateWhere (p : ρ → Prop) [DecidablePred p] (f : ρ → ρ) (rows : List ρ) : List ρ :=
  rows.map fun r => if p r then f r else r

variable {key : ρ → κ} {rows : List ρ} {k : κ} {p : ρ → Prop} [DecidablePred p] {f : ρ → ρ}

theorem updateWhere_cons (r : ρ) : updateWhere p f (r :: rows) = (if p r then f r else r) :: updateWhere p f rows := rfl

theorem mem_updateWhere {r' : ρ} :
    r' ∈ updateWhere p f rows ↔ ∃ r ∈ rows, (if p r then f r else r) = r' := by
  simp [updateWhere]

theorem updateWhere_of_none (h : ∀ r ∈ rows, ¬ p r) : updateWhere p f rows = rows := by
  rw [updateWhere, List.map_congr_left fun r hr => if_neg (h r hr), List.map_id']

theorem updateWhere_updateWhere {q : ρ → Prop} [DecidablePred q] {g : ρ → ρ}
    (h : ∀ r, p r → ¬ q (f r)) :
    updateWhere q g (updateWhere p f rows) =
      rows.map fun r => if p r then f r else if q r then g r else r := by
  simp only [updateWhere, List.map_map]
  refine List.map_congr_left fun r _ => ?_
  simp only [Function.comp]
  split
  · rename_i hp; rw [if_neg (h r hp)]
  · rfl

theorem keys_updateWhere (hf : ∀ r, p r → key (f r) = key r) :
    (updateWhere p f rows).map key = rows.map key := by
  simp only [updateWhere, List.map_map]
  refine List.map_congr_left fun r _ => ?_
  simp only [Function.comp]
  split
  · rename_i h; exact hf r h
  · rfl

theorem nodup_append_singleton {r : ρ} (hn : (rows.map key).Nodup) (hnew : key r ∉ rows.map key) :
    ((rows ++ [r]).map key).Nodup := by
  rw [List.map_append, List.map_singleton, List.nodup_append]
  refine ⟨hn, List.nodup_singleton _, ?_⟩
  rintro a ha b hb rfl
  exact hnew (List.mem_singleton.1 hb ▸ ha)

theorem nodup_filter {q : ρ → Bool} (hn : (rows.map key).Nodup) : ((rows.filter q).map key).Nodup :=
  hn.sublist (List.filter_sublist.map key)

theorem countP_le_one {q : ρ → Bool} (hn : (rows.map key).Nodup)
    (h : ∀ r ∈ rows, ∀ r' ∈ rows, q r → q r' → key r = key r') : rows.countP q ≤ 1 := by
  have hkeys : ((rows.filter q).map key).Nodup := nodup_filter hn
  have hsame : ∀ r ∈ rows.filter q, ∀ r' ∈ rows.filter q, key r = key r' := by
    intro r hr r' hr'
    obtain ⟨hr, hq⟩ := List.mem_filter.1 hr
    obtain ⟨hr', hq'⟩ := List.mem_filter.1 hr'
    exact h r hr r' hr' hq hq'
  rw [List.countP_eq_length_filter]
  match hm : rows.filter q with
  | [] => simp
  | [_] => simp
  | r :: r' :: rest =>
    rw [hm] at hkeys hsame
    have heq := hsame r (by simp) r' (by simp)
    simp [heq] at hkeys

variable [DecidableEq κ]

theorem lookup_updateWhere (hf : ∀ r, p r → key (f r) = key r) :
    lookup key (updateWhere p f rows) k = (lookup key rows k).map fun r => if p r then f r else r := by
  induction rows with
  | nil => rfl
  | cons r rest ih =>
    have hkey : key (if p r then f r else r) = key r := by
      split
      · rename_i h; exact hf r h
      · rfl
    simp only [lookup, updateWhere, List.map_cons, List.find?_cons, hkey] at ih ⊢
    by_cases hk : key r = k
    · simp [hk]
    · simpa [hk] using ih

theorem lookup_some_mem {r : ρ} (h : lookup key rows k = some r) : r ∈ rows ∧ key r = k :=
  ⟨List.mem_of_find?_eq_some h, by simpa using List.find?_some h⟩

theorem lookup_none_iff : lookup key rows k = none ↔ k ∉ rows.map key := by
  simp [lookup]

theorem lookup_of_mem (hn : (rows.map key).Nodup) {r : ρ} (hr : r ∈ rows) :
    lookup key rows (key r) = some r := by
  induction rows with
  | nil => cases hr
  | cons r₀ rest ih =>
    simp only [List.map_cons, List.nodup_cons] at hn
    rcases List.mem_cons.1 hr with rfl | hr
    · simp [lookup]
    · have hne : key r₀ ≠ key r := fun h => hn.1 (h ▸ List.mem_map_of_mem hr)
      simpa [lookup, hne] using ih hn.2 hr

theorem eq_of_key_eq (hn : (rows.map key).Nodup) {r r' : ρ} (hr : r ∈ rows) (hr' : r' ∈ rows)
    (h : key r = key r') : r = r' := by
  have h₁ := lookup_of_mem hn hr
  rw [h, lookup_of_mem hn hr'] at h₁
  exact (Option.some.inj h₁).symm

theorem lookup_append_singleton {r : ρ} (hnew : key r ∉ rows.map key) :
    lookup key (rows ++ [r]) k = if key r = k then some r else lookup key rows k := by
  by_cases hk : key r = k
  · subst hk
    have : rows.find? (fun r' => key r' = key r) = none := lookup_none_iff.2 hnew
    simp [lookup, List.find?_append, this]
  · simp [lookup, List.find?_append, hk]

theorem lookup_filter {q : ρ → Bool} (hn : (rows.map key).Nodup) :
    lookup key (rows.filter q) k = (lookup key rows k).filter q := by
  induction rows with
  | nil => rfl
  | cons r rest ih =>
    simp only [List.map_cons, List.nodup_cons] at hn
    by_cases hk : key r = k
    · subst hk
      have hrest : lookup key (rest.filter q) (key r) = none :=
        lookup_none_iff.2 fun h => hn.1 ((List.filter_sublist.map key).subset h)
      by_cases hq : q r
      · simp [lookup, hq, Option.filter]
      · simpa [lookup, hq, Option.filter] using hrest
    · have := ih hn.2
      by_cases hq : q r
      · simpa [lookup, hq, hk] using this
      · simpa [lookup, hq, hk] using this

theorem filter_key (hn : (rows.map key).Nodup) :
    rows.filter (fun r => key r = k) = (lookup key rows k).toList := by
  induction rows with
  | nil => rfl
  | cons r rest ih =>
    simp only [List.map_cons, List.nodup_cons] at hn
    by_cases hk : key r = k
    · subst hk
      have hrest : rest.filter (fun r' => key r' = key r) = [] := by
        refine List.filter_eq_nil_iff.2 fun r' hr' => ?_
        have hne : key r' ≠ key r := fun h => hn.1 (h ▸ List.mem_map_of_mem hr')
        simpa using hne
      simp [lookup, hrest]
    · simpa [lookup, hk] using ih hn.2

theorem eraseIdx_eq_filter (hn : (rows.map key).Nodup) {i : Nat} {r : ρ} (hi : rows[i]? = some r) :
    rows.eraseIdx i = rows.filter fun r' => key r' ≠ key r := by
  induction rows generalizing i with
  | nil => simp at hi
  | cons r' rest ih =>
    rw [List.map_cons, List.nodup_cons] at hn
    cases i with
    | zero =>
      obtain rfl : r' = r := by simpa using hi
      have hrest : ∀ r'' ∈ rest, key r'' ≠ key r' := fun r'' hr'' heq => hn.1 (heq ▸ List.mem_map_of_mem hr'')
      rw [List.eraseIdx_cons_zero, List.filter_cons_of_neg (by simp)]
      exact (List.filter_eq_self.2 fun r'' hr'' => by simpa using hrest r'' hr'').symm
    | succ i =>
      have hi' : rest[i]? = some r := by simpa using hi
      have hne : key r' ≠ key r := fun heq => hn.1 (heq ▸ List.mem_map_of_mem (List.mem_of_getElem? hi'))
      rw [List.eraseIdx_cons_succ, List.filter_cons_of_pos (by simpa using hne), ih hn.2 hi']

theorem map_updateWhere {σ : Type} {g : ρ → σ} {q : σ → Prop} [DecidablePred q] {h : σ → σ}
    (hp : ∀ r, p r ↔ q (g r)) (hf : ∀ r, g (f r) = h (g r)) :
    (updateWhere p f rows).map g = updateWhere q h (rows.map g) := by
  unfold updateWhere
  rw [List.map_map, List.map_map]
  apply List.map_congr_left
  intro r _
  by_cases hr : p r
  · simp [hr, (hp r).1 hr, hf]
  · simp [hr, mt (hp r).2 hr]

theorem lookup_append {more : List ρ} :
    lookup key (rows ++ more) k = (lookup key rows k).or (lookup key more k) := List.find?_append

theorem lookup_replace {before after : List ρ} {r : ρ} (hn : ((before ++ r :: after).map key).Nodup)
    (r' : ρ) (hkey : key r' = key r) :
    lookup key (before ++ r' :: after) k =
      if key r = k then some r' else lookup key (before ++ r :: after) k := by
  rw [lookup_append, lookup_append]
  split
  · rename_i hk
    subst hk
    have hbefore : lookup key before (key r) = none := by
      refine lookup_none_iff.2 fun h => ?_
      rw [List.map_append, List.map_cons, List.nodup_middle, List.nodup_cons] at hn
      exact hn.1 (List.mem_append_left _ h)
    rw [hbefore]
    simp [lookup, hkey]
  · rename_i hk
    simp [lookup, hk, hkey]

theorem lookup_remove {before after : List ρ} {r : ρ} (hn : ((before ++ r :: after).map key).Nodup) :
    lookup key (before ++ after) k = if key r = k then none else lookup key (before ++ r :: after) k := by
  split
  · rename_i hk
    subst hk
    rw [List.map_append, List.map_cons, List.nodup_middle, List.nodup_cons, ← List.map_append] at hn
    exact lookup_none_iff.2 hn.1
  · rename_i hk
    rw [lookup_append, lookup_append]
    simp [lookup, hk]

theorem lookup_map {σ μ : Type} [DecidableEq μ] {f : σ → ρ} {key' : σ → μ} {l : List σ} {k' : μ}
    (h : ∀ x ∈ l, key (f x) = k ↔ key' x = k') : lookup key (l.map f) k = (lookup key' l k').map f := by
  induction l with
  | nil => rfl
  | cons x rest ih =>
    have hrest := ih fun y hy => h y (List.mem_cons_of_mem _ hy)
    unfold lookup at hrest ⊢
    rw [List.map_cons, List.find?_cons, List.find?_cons, hrest]
    by_cases hx : key' x = k'
    · simp [hx, (h x List.mem_cons_self).2 hx]
    · have hkey : ¬ key (f x) = k := fun heq => hx ((h x List.mem_cons_self).1 heq)
      simp [hx, hkey]

end Lib
