import Mathlib.Analysis.SpecialFunctions.Sqrt
import AgentEval.Js.Binary64
import AgentEval.Js.Template

/-!
# `scoring/mrd.ts`: what a benchmark can tell apart

Over the numbers of any ordered field; `Math.sqrt` and the worst-case variance of one task are
parameters.

* **`resolvingPower_eq`**: what is returned for a design that passes the checks.
* `pairedMrd_nonneg` — over the reals, no smallest gap is negative.
* **`pairedMrd_antitone`**: over the reals, more tasks tell smaller gaps apart.
-/

namespace AgentEval.Scoring

open Js

/-- 97.5th percentile of the standard normal.
Source: `mrd.ts`, `Z95` -/
def z95 {F : Type*} [DivisionRing F] : F := 1.959963984540054

/-- Source: `mrd.ts`, `DesignInput` -/
structure DesignInput (F : Type*) [DivisionRing F] where
  /-- Samples drawn per task. -/
  n : ℕ
  /-- Attempts the score is reported over. -/
  k : ℕ
  /-- Number of tasks in the benchmark. -/
  tasks : F
  /-- Variance inflation from clustering. -/
  designEffect : F := 1
  /-- Two-sided confidence. -/
  z : F := z95

/-- The largest variance of a task's estimate, and the success rate at which it is found.
Source: `estimators.ts`, `maxPassAtKVariance` -/
structure WorstCase (F : Type*) where
  /-- The variance. -/
  variance : F
  /-- The rate. -/
  atP : F

/-- Source: `mrd.ts`, `ResolvingPower` -/
structure ResolvingPower (F : Type*) where
  /-- Half-width of a single model's interval, in score points. -/
  halfWidth : F
  /-- Smallest detectable gap between two models evaluated independently. -/
  unpairedMrd : F
  /-- Smallest detectable gap when both models run the identical task set. -/
  pairedMrd : F
  /-- Worst-case per-task variance of the estimator. -/
  worstCaseVariance : F
  /-- Where it peaks. -/
  worstCaseAtP : F
  /-- Tasks, after discounting for clustering. -/
  effectiveTasks : F
  /-- The variance inflation. -/
  designEffect : F

section

variable {F : Type*} [Field F] [LinearOrder F] (sqrt : F → F)
  (maxPassAtKVariance : ℕ → ℕ → Except (RangeError F) (WorstCase F))

/-- Source: `mrd.ts`, `resolvingPower` -/
def resolvingPower (input : DesignInput F) (pairedCorrelation : F) :
    Except (RangeError F) (ResolvingPower F) :=
  if input.tasks ≤ 0 then
    .error ⟨[.text (js "tasks must be positive, got "), .number input.tasks]⟩
  else if input.designEffect < 1 then
    .error ⟨[.text (js "design effect cannot be below 1, got "), .number input.designEffect]⟩
  else if pairedCorrelation < -1 ∨ 1 < pairedCorrelation then
    .error ⟨[.text (js "correlation must be in [-1, 1], got "), .number pairedCorrelation]⟩
  else do
    let worst ← maxPassAtKVariance input.n input.k
    let effectiveTasks := input.tasks / input.designEffect
    let halfWidth := input.z * sqrt (worst.variance / effectiveTasks)
    let unpairedMrd := input.z * sqrt (2 * worst.variance / effectiveTasks)
    let pairedMrd := input.z * sqrt (2 * (1 - pairedCorrelation) * worst.variance / effectiveTasks)
    return {
      halfWidth := halfWidth
      unpairedMrd := unpairedMrd
      pairedMrd := pairedMrd
      worstCaseVariance := worst.variance
      worstCaseAtP := worst.atP
      effectiveTasks := effectiveTasks
      designEffect := input.designEffect }

/-- The smallest gap that is detected on a shared task set, from the variance of a task. -/
def pairedMrdOf (z variance correlation designEffect tasks : F) : F :=
  z * sqrt (2 * (1 - correlation) * variance / (tasks / designEffect))

variable {sqrt maxPassAtKVariance} {input : DesignInput F} {pairedCorrelation : F}
  {worst : WorstCase F}

/-- What is returned for a design that passes the checks. -/
theorem resolvingPower_eq (hworst : maxPassAtKVariance input.n input.k = .ok worst)
    (htasks : 0 < input.tasks) (heffect : 1 ≤ input.designEffect) (hlow : -1 ≤ pairedCorrelation)
    (hhigh : pairedCorrelation ≤ 1) :
    ∃ power, resolvingPower sqrt maxPassAtKVariance input pairedCorrelation = .ok power ∧
      power.pairedMrd =
        pairedMrdOf sqrt input.z worst.variance pairedCorrelation input.designEffect input.tasks := by
  unfold resolvingPower
  rw [if_neg (not_le.mpr htasks), if_neg (not_lt.mpr heffect),
    if_neg (not_or.mpr ⟨not_lt.mpr hlow, not_lt.mpr hhigh⟩), hworst]
  exact ⟨_, rfl, rfl⟩

end

/-- The percentile is positive. -/
theorem z95_pos : 0 < (z95 : ℝ) := by
  unfold z95
  norm_num

/-- No smallest gap is negative. -/
theorem pairedMrd_nonneg {maxPassAtKVariance : ℕ → ℕ → Except (RangeError ℝ) (WorstCase ℝ)}
    {input : DesignInput ℝ} {pairedCorrelation : ℝ} {power : ResolvingPower ℝ} (hz : 0 ≤ input.z)
    (h : resolvingPower Real.sqrt maxPassAtKVariance input pairedCorrelation = .ok power) :
    0 ≤ power.pairedMrd := by
  unfold resolvingPower at h
  split_ifs at h
  cases hworst : maxPassAtKVariance input.n input.k with
  | error e =>
    rw [hworst] at h
    cases h
  | ok worst =>
    rw [hworst] at h
    rw [← Except.ok.inj h]
    exact mul_nonneg hz (Real.sqrt_nonneg _)

/-- More tasks tell smaller gaps apart. -/
theorem pairedMrd_antitone {z variance correlation designEffect s t : ℝ} (hz : 0 ≤ z)
    (hvariance : 0 ≤ variance) (hcorrelation : correlation ≤ 1) (heffect : 0 < designEffect)
    (hs : 0 < s) (hst : s ≤ t) :
    pairedMrdOf Real.sqrt z variance correlation designEffect t ≤
      pairedMrdOf Real.sqrt z variance correlation designEffect s := by
  unfold pairedMrdOf
  have hnumerator : 0 ≤ 2 * (1 - correlation) * variance := by
    have := sub_nonneg.mpr hcorrelation
    positivity
  apply mul_le_mul_of_nonneg_left _ hz
  apply Real.sqrt_le_sqrt
  apply div_le_div_of_nonneg_left hnumerator (div_pos hs heffect)
  exact div_le_div_of_nonneg_right hst heffect.le

end AgentEval.Scoring
