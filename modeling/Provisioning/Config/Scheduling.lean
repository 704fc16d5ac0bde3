import Mathlib.Data.Rat.Floor
import Provisioning.Ops.Types

/-!
# The interactive slice

`src/config/scheduling.ts`. A number is the value of its double. `mul` is the product of two doubles as the
machine rounds it.
-/

namespace Provisioning

structure RateLimit where
  requestLimit : Nat
  requestPeriodMs : Nat

structure RateLimits where
  create : Option RateLimit
  update : Option RateLimit
  delete : Option RateLimit

/-- A number of a document, with the text that a message has for it. -/
structure NumberInput where
  value : ℚ
  text : String

/-- A scheduling block whose keys and types are right. -/
structure SchedulingConfigInput where
  interactiveSliceFraction : Option NumberInput
  rateLimits : RateLimits

structure ResolvedSchedulingConfig where
  interactiveSliceFraction : ℚ
  interactiveSlots : Int
  batchSlots : Int
  rateLimits : RateLimits

/-- 0.2. -/
def SCHEDULING_DEFAULTS : ℚ := 3602879701896397 / 18014398509481984

def parseSliceFraction (raw : Option NumberInput) : Except Failure ℚ :=
  match raw with
  | none => .ok SCHEDULING_DEFAULTS
  | some raw =>
    if raw.value < 0 ∨ 1 < raw.value then
      .error (.other ("scheduling.interactiveSliceFraction must be between 0 and 1 inclusive, got " ++ raw.text))
    else .ok raw.value

variable (mul : ℚ → ℚ → ℚ)

def computeInteractiveSlots (mutationConcurrency : Nat) (fraction : ℚ) : Int :=
  if mutationConcurrency ≤ 1 then 0
  else if fraction ≤ 0 then 0
  else min (mutationConcurrency : Int) (max 1 ⌈mul mutationConcurrency fraction⌉)

def resolveSchedulingConfig (input : SchedulingConfigInput) (mutationConcurrency : Nat) :
    Except Failure ResolvedSchedulingConfig := do
  let fraction ← parseSliceFraction input.interactiveSliceFraction
  let slots := computeInteractiveSlots mul mutationConcurrency fraction
  pure ⟨fraction, slots, mutationConcurrency - slots, input.rateLimits⟩

/-! ## The slice is a part of the budget -/

variable {mul} {mutationConcurrency : Nat} {fraction : ℚ}

theorem computeInteractiveSlots_nonneg : 0 ≤ computeInteractiveSlots mul mutationConcurrency fraction := by
  unfold computeInteractiveSlots
  split
  · omega
  · split <;> omega

theorem computeInteractiveSlots_le :
    computeInteractiveSlots mul mutationConcurrency fraction ≤ mutationConcurrency := by
  unfold computeInteractiveSlots
  split
  · omega
  · split <;> omega

theorem resolveSchedulingConfig_ok {input : SchedulingConfigInput} {c : ResolvedSchedulingConfig}
    (h : resolveSchedulingConfig mul input mutationConcurrency = .ok c) :
    c.batchSlots = mutationConcurrency - c.interactiveSlots ∧ 0 ≤ c.batchSlots ∧
      c.batchSlots ≤ mutationConcurrency := by
  unfold resolveSchedulingConfig at h
  cases hf : parseSliceFraction input.interactiveSliceFraction with
  | error e =>
    rw [hf] at h
    cases h
  | ok fraction =>
    rw [hf] at h
    cases h
    have hnonneg := @computeInteractiveSlots_nonneg mul mutationConcurrency fraction
    have hle := @computeInteractiveSlots_le mul mutationConcurrency fraction
    refine ⟨rfl, ?_, ?_⟩ <;> dsimp only <;> omega

end Provisioning
