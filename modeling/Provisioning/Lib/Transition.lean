import Mathlib.Logic.Basic

/-!
# Runs of a transition system

`step` is a partial function, so an action that is not enabled has no successor. `ok` is an
assumption about each step of a run, for example about how slow a process may be.
-/

namespace Lib

variable {σ τ α β : Type}

/-- `s` is the last state of a run from `s₀` in which every step is `ok`. -/
inductive Runs (step : σ → α → Option σ) (ok : σ → α → σ → Prop) (s₀ : σ) : σ → Prop
  | start : Runs step ok s₀ s₀
  | next {s s' : σ} {a : α} (run : Runs step ok s₀ s) (taken : step s a = some s')
      (good : ok s a s') : Runs step ok s₀ s'

/-- No assumption on the steps. -/
def anyStep : σ → α → σ → Prop := fun _ _ _ => True

instance (s : σ) (a : α) (s' : σ) : Decidable (anyStep s a s') := .isTrue trivial

namespace Runs

variable {step : σ → α → Option σ} {ok ok' : σ → α → σ → Prop} {s₀ s s' : σ}

/-- What holds at the start and is kept by every step holds at the end. -/
theorem invariant (Inv : σ → Prop) (run : Runs step ok s₀ s) (init : Inv s₀)
    (keeps : ∀ s a s', Inv s → step s a = some s' → ok s a s' → Inv s') : Inv s := by
  induction run with
  | start => exact init
  | next _ taken good ih => exact keeps _ _ _ ih taken good

theorem trans {s'' : σ} (run : Runs step ok s₀ s) (more : Runs step ok s s'') :
    Runs step ok s₀ s'' := by
  induction more with
  | start => exact run
  | next _ taken good ih => exact ih.next taken good

theorem mono (h : ∀ s a s', ok s a s' → ok' s a s') (run : Runs step ok s₀ s) :
    Runs step ok' s₀ s := by
  induction run with
  | start => exact .start
  | next _ taken good ih => exact ih.next taken (h _ _ _ good)

/-- The simulation rule. One concrete step may take any number of abstract ones. -/
theorem simulated {astep : τ → β → Option τ} {aok : τ → β → τ → Prop} {t₀ : τ} {R : σ → τ → Prop}
    (run : Runs step ok s₀ s) (init : R s₀ t₀)
    (sim : ∀ s a s' t, R s t → step s a = some s' → ok s a s' →
      ∃ t', Runs astep aok t t' ∧ R s' t') :
    ∃ t, Runs astep aok t₀ t ∧ R s t := by
  induction run with
  | start => exact ⟨t₀, .start, init⟩
  | next _ taken good ih =>
    obtain ⟨t, ht, hR⟩ := ih
    obtain ⟨t', ht', hR'⟩ := sim _ _ _ _ hR taken good
    exact ⟨t', ht.trans ht', hR'⟩

end Runs

/-! ## Executing a list of actions -/

def exec (step : σ → α → Option σ) (ok : σ → α → σ → Prop) [∀ s a s', Decidable (ok s a s')]
    (s : σ) : List α → Option σ
  | [] => some s
  | a :: rest =>
    match step s a with
    | none => none
    | some s' => if ok s a s' then exec step ok s' rest else none

theorem runs_of_exec {step : σ → α → Option σ} {ok : σ → α → σ → Prop}
    [∀ s a s', Decidable (ok s a s')] {s s' : σ} {as : List α} (h : exec step ok s as = some s') :
    Runs step ok s s' := by
  induction as generalizing s with
  | nil => cases h; exact .start
  | cons a rest ih =>
    simp only [exec] at h
    split at h
    · cases h
    · rename_i t ht
      split at h
      · rename_i hok
        exact (Runs.start.next ht hok).trans (ih h)
      · cases h

theorem runs_of_exec_all {step : σ → α → Option σ} {ok : σ → α → σ → Prop} {s s' : σ} {as : List α}
    (h : exec step anyStep s as = some s') (good : ∀ a ∈ as, ∀ t t', ok t a t') : Runs step ok s s' := by
  induction as generalizing s with
  | nil => cases h; exact .start
  | cons a rest ih =>
    simp only [exec] at h
    split at h
    · cases h
    · rename_i t ht
      rw [if_pos (show anyStep s a t from trivial)] at h
      refine (Runs.start.next ht (good a List.mem_cons_self s t)).trans (ih h fun b hb => ?_)
      exact good b (List.mem_cons_of_mem _ hb)

end Lib
