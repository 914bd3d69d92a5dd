import Mathlib.Algebra.Order.Floor.Ring
import AgentEval.Scoring.Resolution

/-!
# `scoring/mrd.ts`: the number of tasks for a target difference

`requiredTasks` inverts the smallest gap of `resolvingPower`. It rounds twice: the effective tasks,
and again after the design effect.

* `pairedMrdOf_le_iff` — the gap that a number of tasks tells apart, solved for the tasks.
* `pairedMrd_requiredTasks_le` — the required tasks are enough.
* **`requiredTasks_minimal_iff`**: one task fewer is not enough exactly when the first rounding does
  not add a whole task.
-/

namespace AgentEval.Scoring

open Js

/-- The options of `requiredTasks`.
Source: `mrd.ts`, `requiredTasks` -/
structure TaskTarget (F : Type*) [DivisionRing F] where
  /-- Samples drawn per task. -/
  n : ℕ
  /-- Attempts the score is reported over. -/
  k : ℕ
  /-- The difference to be claimed, in score points. -/
  targetDifference : F
  /-- Variance inflation from clustering. -/
  designEffect : F := 1
  /-- How the two models' scores move together. -/
  pairedCorrelation : F := 0
  /-- Two-sided confidence. -/
  z : F := z95

/-- What `requiredTasks` returns.
Source: `mrd.ts`, `requiredTasks` -/
structure RequiredTasks (F : Type*) where
  /-- The tasks. -/
  tasks : F
  /-- The tasks, were they independent. -/
  effectiveTasks : F

section

variable {F : Type*} [Field F] [LinearOrder F] [FloorRing F]
  (maxPassAtKVariance : ℕ → ℕ → Except (RangeError F) (WorstCase F))

/-- The independent tasks that a target needs, before they are rounded up. -/
def effectiveOf (z variance correlation target : F) : F :=
  z * z * 2 * (1 - correlation) * variance / (target * target)

/-- Source: `mrd.ts`, `requiredTasks` -/
def requiredTasks (options : TaskTarget F) : Except (RangeError F) (RequiredTasks F) :=
  if options.targetDifference ≤ 0 then
    .error ⟨[.text (js "targetDifference must be positive, got "),
      .number options.targetDifference]⟩
  else do
    let worst ← maxPassAtKVariance options.n options.k
    let effective : F := ⌈effectiveOf options.z worst.variance options.pairedCorrelation
      options.targetDifference⌉
    return { tasks := ⌈effective * options.designEffect⌉, effectiveTasks := effective }

/-- The same design with a number of tasks. -/
def TaskTarget.design (options : TaskTarget F) (tasks : F) : DesignInput F where
  n := options.n
  k := options.k
  tasks := tasks
  designEffect := options.designEffect
  z := options.z

variable {maxPassAtKVariance} {options : TaskTarget F} {worst : WorstCase F}

/-- What is returned for a positive target. -/
theorem requiredTasks_eq (hworst : maxPassAtKVariance options.n options.k = .ok worst)
    (htarget : 0 < options.targetDifference) :
    requiredTasks maxPassAtKVariance options = .ok
      { tasks := ⌈(⌈effectiveOf options.z worst.variance options.pairedCorrelation
          options.targetDifference⌉ : F) * options.designEffect⌉
        effectiveTasks := ⌈effectiveOf options.z worst.variance options.pairedCorrelation
          options.targetDifference⌉ } := by
  unfold requiredTasks
  rw [if_neg (not_le.mpr htarget), hworst]
  rfl

end

/-! ## Over the reals -/

section

variable {z variance correlation designEffect target s : ℝ}

/-- A positive variance needs some task. -/
theorem effectiveOf_pos (hz : 0 < z) (hvariance : 0 < variance) (hcorrelation : correlation < 1)
    (htarget : 0 < target) : 0 < effectiveOf z variance correlation target := by
  unfold effectiveOf
  have := sub_pos.mpr hcorrelation
  positivity

/-- **The smallest gap, solved for the tasks.** -/
theorem pairedMrdOf_le_iff (hz : 0 < z) (heffect : 0 < designEffect) (htarget : 0 < target)
    (hs : 0 < s) : pairedMrdOf Real.sqrt z variance correlation designEffect s ≤ target ↔
      effectiveOf z variance correlation target * designEffect ≤ s := by
  unfold pairedMrdOf effectiveOf
  have hscale : 2 * (1 - correlation) * variance * (z * z * designEffect) =
      z * z * 2 * (1 - correlation) * variance * designEffect := by ring
  have hbound : target ^ 2 / z ^ 2 * (s / designEffect) =
      s * (target * target) / (z * z * designEffect) := by
    field_simp
  rw [← le_div_iff₀' hz, Real.sqrt_le_left (div_pos htarget hz).le, div_pow,
    div_le_iff₀ (div_pos hs heffect), hbound, le_div_iff₀ (by positivity), hscale,
    div_mul_eq_mul_div, div_le_iff₀ (mul_pos htarget htarget)]

/-- The required tasks are enough for the independent tasks they stand for. -/
theorem effectiveOf_mul_le (x : ℝ) (heffect : 0 ≤ designEffect) :
    x * designEffect ≤ (⌈(⌈x⌉ : ℝ) * designEffect⌉ : ℝ) :=
  (mul_le_mul_of_nonneg_right (Int.le_ceil x) heffect).trans (Int.le_ceil _)

/-- **One task fewer is too few** exactly when no number of tasks is both enough before the first
rounding and too few after it. -/
theorem pred_ceil_lt_iff {x : ℝ} (hx : 0 < x) (heffect : 0 < designEffect) :
    (0 < (⌈(⌈x⌉ : ℝ) * designEffect⌉ : ℝ) - 1 →
        (⌈(⌈x⌉ : ℝ) * designEffect⌉ : ℝ) - 1 < x * designEffect) ↔
      ∀ m : ℕ, x * designEffect ≤ m → (⌈x⌉ : ℝ) * designEffect ≤ m := by
  generalize ht : ⌈(⌈x⌉ : ℝ) * designEffect⌉ = t
  have hceil : ∀ m : ℤ, (⌈x⌉ : ℝ) * designEffect ≤ m ↔ t ≤ m := by
    intro m
    rw [← ht]
    exact Int.ceil_le.symm
  constructor
  · intro h m hm
    by_contra hlt
    have hmt : (m : ℤ) < t := not_le.mp fun hle => hlt (by exact_mod_cast (hceil m).mpr hle)
    have hle : (m : ℝ) ≤ t - 1 := by exact_mod_cast Int.le_sub_one_of_lt hmt
    have hpos : (0 : ℝ) < t - 1 := (mul_pos hx heffect).trans_le (hm.trans hle)
    exact absurd (hm.trans hle) (not_le.mpr (h hpos))
  · intro h hpos
    by_contra hle
    obtain ⟨m, hm⟩ : ∃ m : ℕ, (m : ℤ) = t - 1 := by
      refine ⟨(t - 1).toNat, Int.toNat_of_nonneg ?_⟩
      have : (0 : ℤ) < t - 1 := by exact_mod_cast hpos
      exact this.le
    have hreal : (m : ℝ) = t - 1 := by exact_mod_cast congrArg (Int.cast : ℤ → ℝ) hm
    have hbound := h m (by rw [hreal]; exact not_lt.mp hle)
    have : t ≤ (m : ℤ) := (hceil m).mp (by exact_mod_cast hbound)
    omega

end

/-- The required tasks of a design are enough for its target, and one fewer, if that is any, are not.
Source: `scoring.test.ts`, "requiredTasks inverts the resolving power it was asked for" -/
structure Minimal (maxPassAtKVariance : ℕ → ℕ → Except (RangeError ℝ) (WorstCase ℝ))
    (options : TaskTarget ℝ) (required : RequiredTasks ℝ) : Prop where
  /-- They are enough. -/
  enough : ∃ power, resolvingPower Real.sqrt maxPassAtKVariance (options.design required.tasks)
    options.pairedCorrelation = .ok power ∧ power.pairedMrd ≤ options.targetDifference
  /-- One fewer are not. -/
  fewer : 0 < required.tasks - 1 →
    ∃ power, resolvingPower Real.sqrt maxPassAtKVariance (options.design (required.tasks - 1))
      options.pairedCorrelation = .ok power ∧ ¬ power.pairedMrd ≤ options.targetDifference

section

variable {maxPassAtKVariance : ℕ → ℕ → Except (RangeError ℝ) (WorstCase ℝ)}
  {options : TaskTarget ℝ} {worst : WorstCase ℝ}

/-- What a number of tasks resolves, at the same design. -/
theorem resolves_iff (hworst : maxPassAtKVariance options.n options.k = .ok worst)
    (hz : 0 < options.z) (heffect : 1 ≤ options.designEffect)
    (hlow : -1 ≤ options.pairedCorrelation) (hhigh : options.pairedCorrelation ≤ 1)
    (htarget : 0 < options.targetDifference) {s : ℝ} (hs : 0 < s) :
    ∃ power, resolvingPower Real.sqrt maxPassAtKVariance (options.design s)
        options.pairedCorrelation = .ok power ∧
      (power.pairedMrd ≤ options.targetDifference ↔
        effectiveOf options.z worst.variance options.pairedCorrelation options.targetDifference *
          options.designEffect ≤ s) := by
  obtain ⟨power, hpower, hmrd⟩ : ∃ power, resolvingPower Real.sqrt maxPassAtKVariance
      (options.design s) options.pairedCorrelation = .ok power ∧ power.pairedMrd =
        pairedMrdOf Real.sqrt options.z worst.variance options.pairedCorrelation
          options.designEffect s :=
    resolvingPower_eq hworst hs heffect hlow hhigh
  refine ⟨power, hpower, ?_⟩
  rw [hmrd]
  exact pairedMrdOf_le_iff hz (zero_lt_one.trans_le heffect) htarget hs

/-- **The number of tasks is minimal** exactly when no whole number of tasks lies between what the
target needs, with the design effect, and that with the effective tasks rounded up first. -/
theorem requiredTasks_minimal_iff (hworst : maxPassAtKVariance options.n options.k = .ok worst)
    (hvariance : 0 < worst.variance) (hz : 0 < options.z) (heffect : 1 ≤ options.designEffect)
    (hlow : -1 ≤ options.pairedCorrelation) (hhigh : options.pairedCorrelation < 1)
    (htarget : 0 < options.targetDifference) :
    ∃ required, requiredTasks maxPassAtKVariance options = .ok required ∧
      (Minimal maxPassAtKVariance options required ↔
        ∀ m : ℕ, effectiveOf options.z worst.variance options.pairedCorrelation
            options.targetDifference * options.designEffect ≤ m →
          (⌈effectiveOf options.z worst.variance options.pairedCorrelation
            options.targetDifference⌉ : ℝ) * options.designEffect ≤ m) := by
  refine ⟨_, requiredTasks_eq hworst htarget, ?_⟩
  have hx := effectiveOf_pos hz hvariance hhigh htarget
  have hdeff : 0 < options.designEffect := zero_lt_one.trans_le heffect
  rw [← pred_ceil_lt_iff hx hdeff]
  have hresolves := fun {s : ℝ} => resolves_iff (s := s) hworst hz heffect hlow hhigh.le htarget
  have henough := effectiveOf_mul_le (effectiveOf options.z worst.variance
    options.pairedCorrelation options.targetDifference) hdeff.le
  constructor
  · intro h hpos
    obtain ⟨power, hpower, hnot⟩ := h.fewer hpos
    obtain ⟨power', hpower', hiff⟩ := hresolves hpos
    obtain rfl := Except.ok.inj (hpower.symm.trans hpower')
    exact not_le.mp (mt hiff.mpr hnot)
  · intro h
    refine ⟨?_, fun hpos => ?_⟩
    · obtain ⟨power, hpower, hiff⟩ := hresolves ((mul_pos hx hdeff).trans_le henough)
      exact ⟨power, hpower, hiff.mpr henough⟩
    · obtain ⟨power, hpower, hiff⟩ := hresolves hpos
      exact ⟨power, hpower, mt hiff.mp (not_le.mpr (h hpos))⟩

end

/-- One sample of each task, and half a point to be told apart, without clustering. -/
theorem requiredTasks_minimal_half :
    ∃ required, requiredTasks (fun _ _ => .ok ⟨1 / 4, 1 / 2⟩)
        ({ n := 1, k := 1, targetDifference := 1 / 2 } : TaskTarget ℝ) = .ok required ∧
      Minimal (fun _ _ => .ok ⟨1 / 4, 1 / 2⟩)
        { n := 1, k := 1, targetDifference := 1 / 2 } required := by
  obtain ⟨required, hrequired, hiff⟩ := @requiredTasks_minimal_iff
    (fun _ _ => .ok ⟨1 / 4, 1 / 2⟩) { n := 1, k := 1, targetDifference := 1 / 2 } _ rfl
    (by norm_num) z95_pos le_rfl (by norm_num) (by norm_num) (by norm_num)
  refine ⟨required, hrequired, hiff.mpr fun m hm => ?_⟩
  rw [mul_one] at hm ⊢
  exact_mod_cast Int.ceil_le.mpr (by exact_mod_cast hm)

/-- With tasks in clusters that weigh them 2.2 to 1, 18 are asked for, and 17 are enough. -/
theorem requiredTasks_not_minimal :
    ∃ required, requiredTasks (fun _ _ => .ok ⟨1 / 4, 1 / 2⟩)
        ({ n := 1, k := 1, targetDifference := 1 / 2, designEffect := 2.2 } : TaskTarget ℝ) =
          .ok required ∧
      required.tasks = 18 ∧
      ¬ Minimal (fun _ _ => .ok ⟨1 / 4, 1 / 2⟩)
        { n := 1, k := 1, targetDifference := 1 / 2, designEffect := 2.2 } required := by
  have hceil : ⌈effectiveOf (z95 : ℝ) (1 / 4) 0 (1 / 2)⌉ = 8 := by
    unfold effectiveOf z95
    rw [Int.ceil_eq_iff]
    norm_num
  have htasks : ⌈((8 : ℤ) : ℝ) * 2.2⌉ = 18 := by
    rw [Int.ceil_eq_iff]
    norm_num
  have hrequired := @requiredTasks_eq ℝ _ _ _ (fun _ _ => .ok ⟨1 / 4, 1 / 2⟩)
    { n := 1, k := 1, targetDifference := 1 / 2, designEffect := 2.2 } _ rfl (by norm_num)
  rw [hceil, htasks] at hrequired
  refine ⟨_, hrequired, by norm_num, fun h => ?_⟩
  obtain ⟨power, hpower, hnot⟩ := h.fewer (by norm_num)
  obtain ⟨power', hpower', hiff⟩ := @resolves_iff (fun _ _ => .ok ⟨1 / 4, 1 / 2⟩)
    { n := 1, k := 1, targetDifference := 1 / 2, designEffect := 2.2 } _ rfl z95_pos
    (by norm_num) (by norm_num) (by norm_num) (by norm_num) ((18 : ℤ) - 1) (by norm_num)
  obtain rfl := Except.ok.inj (hpower.symm.trans hpower')
  apply hnot (hiff.mpr _)
  unfold effectiveOf z95
  norm_num

end AgentEval.Scoring
