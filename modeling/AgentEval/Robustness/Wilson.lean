import AgentEval.Proportions.Score
import AgentEval.Robustness.Statistics

/-!
# The Wilson interval

Over the reals the formula of `proportion` is the score interval of the rate, with `Z ^ 2 / total`
for the tolerance, and its clamps do nothing.

* **`proportion_wellFormed`**: the interval is in `[0, 1]` and has the rate in it, is not a point, is
  mirrored with the count, and both its ends grow with it.
-/

namespace AgentEval.Robustness

open ScoreInterval

/-- A rate with its interval, computed with reals. -/
noncomputable def realProportion (count total : ℕ) : Proportion ℝ :=
  proportion Real.sqrt (percentile : ℝ) count total

/-- How far a rate may be from where it is observed. -/
noncomputable def tolerance (total : ℕ) : ℝ := (percentile : ℝ) ^ 2 / total

variable {count total : ℕ}

/-- Something is tolerated. -/
theorem tolerance_pos (htotal : 1 ≤ total) : 0 < tolerance total := by
  have hz : (0 : ℝ) < percentile := by
    unfold percentile
    norm_num
  have hn : (0 : ℝ) < total := by exact_mod_cast htotal
  unfold tolerance
  positivity

/-- The rate is a share. -/
theorem rate_mem_unit (hcount : count ≤ total) (htotal : 1 ≤ total) :
    (0 : ℝ) ≤ count / total ∧ (count / total : ℝ) ≤ 1 := by
  have hn : (0 : ℝ) < total := by exact_mod_cast htotal
  refine ⟨by positivity, ?_⟩
  rw [div_le_one hn]
  exact_mod_cast hcount

/-- **The formula is that of the score interval.** -/
theorem realProportion_eq (hcount : count ≤ total) (htotal : 1 ≤ total) :
    realProportion count total =
      ⟨count, total, count / total, lower (tolerance total) (count / total),
        upper (tolerance total) (count / total)⟩ := by
  have hn : (0 : ℝ) < total := by exact_mod_cast htotal
  have hz : (0 : ℝ) < percentile := by
    unfold percentile
    norm_num
  obtain ⟨hp, hp'⟩ := rate_mem_unit hcount htotal
  have hc := tolerance_pos htotal
  have hcentre : ((count / total : ℝ) + percentile * percentile / ((2 : ℕ) * total)) /
      ((1 : ℕ) + percentile * percentile / total) =
        centre (tolerance total) (count / total) := by
    unfold centre tolerance
    push_cast
    field_simp
  have hspread : (percentile : ℝ) / ((1 : ℕ) + percentile * percentile / total) *
      √((count / total : ℝ) * ((1 : ℕ) - count / total) / total +
        percentile * percentile / ((4 : ℕ) * total * total)) =
        spread (tolerance total) (count / total) := by
    have hradicand : tolerance total * ((count / total : ℝ) * (1 - count / total)) +
        tolerance total ^ 2 / 4 = (percentile : ℝ) ^ 2 *
          ((count / total : ℝ) * ((1 : ℕ) - count / total) / total +
            percentile * percentile / ((4 : ℕ) * total * total)) := by
      unfold tolerance
      push_cast
      field_simp
    unfold spread
    rw [hradicand, Real.sqrt_mul (by positivity), Real.sqrt_sq hz.le]
    unfold tolerance
    push_cast
    rw [sq]
    ring
  unfold realProportion proportion
  rw [if_neg (by omega)]
  dsimp only
  rw [hcentre, hspread]
  congr 1
  · rw [Nat.cast_zero]
    exact max_eq_right (lower_nonneg hc hp hp')
  · rw [Nat.cast_one]
    exact min_eq_right (upper_le_one hc hp hp')

/-- What a rate with an interval has to be. -/
structure WellFormed (count total : ℕ) : Prop where
  /-- The rate is the share of the count. -/
  share : (realProportion count total).rate = count / total
  /-- The interval is in the unit interval, and the rate in it. -/
  inside : 0 ≤ (realProportion count total).lower ∧
    (realProportion count total).lower ≤ (realProportion count total).rate ∧
    (realProportion count total).rate ≤ (realProportion count total).upper ∧
    (realProportion count total).upper ≤ 1
  /-- The interval of the others is its mirror image. -/
  mirrored : (realProportion (total - count) total).lower = 1 - (realProportion count total).upper ∧
    (realProportion (total - count) total).upper = 1 - (realProportion count total).lower
  /-- Both ends grow with the count. -/
  grows : ∀ more, count ≤ more → more ≤ total →
    (realProportion count total).lower ≤ (realProportion more total).lower ∧
      (realProportion count total).upper ≤ (realProportion more total).upper
  /-- The interval is not a point. -/
  wide : (realProportion count total).lower < (realProportion count total).upper

/-- **The Wilson interval is well formed.** -/
theorem proportion_wellFormed (hcount : count ≤ total) (htotal : 1 ≤ total) :
    WellFormed count total := by
  have hn : (0 : ℝ) < total := by exact_mod_cast htotal
  have hc := tolerance_pos htotal
  obtain ⟨hp, hp'⟩ := rate_mem_unit hcount htotal
  have heq := realProportion_eq hcount htotal
  constructor
  · rw [heq]
  · rw [heq]
    exact ⟨lower_nonneg hc hp hp', lower_le hc hp hp', le_upper hc hp hp', upper_le_one hc hp hp'⟩
  · have hrate : ((total - count : ℕ) : ℝ) / total = 1 - count / total := by
      rw [Nat.cast_sub hcount, sub_div, div_self hn.ne']
    rw [realProportion_eq (Nat.sub_le total count) htotal, heq, hrate]
    exact ⟨lower_one_sub hc, upper_one_sub hc⟩
  · intro more hle hmore
    have hrate : (count / total : ℝ) ≤ more / total := by
      apply div_le_div_of_nonneg_right _ hn.le
      exact_mod_cast hle
    have hmore' := (rate_mem_unit hmore htotal).2
    rw [realProportion_eq hmore htotal, heq]
    exact ⟨lower_mono hc hp hrate hmore', upper_mono hc hp hrate hmore'⟩
  · have hspread := spread_pos hc hp hp'
    rw [heq]
    change centre _ _ - _ < centre _ _ + _
    linarith

/-- Three open tasks of thirty. -/
theorem proportion_wellFormed_three : 3 ≤ 30 ∧ 1 ≤ 30 ∧ WellFormed 3 30 :=
  ⟨by decide, by decide, proportion_wellFormed (by decide) (by decide)⟩

end AgentEval.Robustness
