import Mathlib.Analysis.Real.Sqrt
import Mathlib.Tactic.FieldSimp
import Mathlib.Tactic.Linarith
import Mathlib.Tactic.LinearCombination

/-!
# Score intervals

The score interval of an observed rate `p` has the numbers `t` with `(t - p) ^ 2 ≤ c * t * (1 - t)`:
those from which `p` is no further than `c` allows. Its ends are the roots of a quadratic.

* **`lower_le`**, **`le_upper`**, **`lower_nonneg`**, **`upper_le_one`**: the interval is in `[0, 1]`
  and the rate is in the interval.
* **`lower_mono`**, **`upper_mono`**: both ends grow with the rate.
* `lower_one_sub`, `upper_one_sub`: the interval of the complementary rate.
-/

namespace ScoreInterval

/-- The middle of the interval. -/
noncomputable def centre (c p : ℝ) : ℝ := (p + c / (2 : ℕ)) / (1 + c)

/-- Half of its width. -/
noncomputable def spread (c p : ℝ) : ℝ := √(c * (p * (1 - p)) + c ^ 2 / 4) / (1 + c)

/-- The lower end. -/
noncomputable def lower (c p : ℝ) : ℝ := centre c p - spread c p

/-- The upper end. -/
noncomputable def upper (c p : ℝ) : ℝ := centre c p + spread c p

variable {c p q t : ℝ}

/-- The middle for the complementary rate. -/
theorem centre_one_sub (hc : 0 < c) : centre c (1 - p) = 1 - centre c p := by
  have hne : 1 + c ≠ 0 := by linarith
  unfold centre
  rw [Nat.cast_ofNat]
  field_simp
  ring

/-- The width for the complementary rate. -/
theorem spread_one_sub : spread c (1 - p) = spread c p := by
  unfold spread
  rw [sub_sub_cancel, mul_comm p]

/-- **The lower end of the mirrored interval.** -/
theorem lower_one_sub (hc : 0 < c) : lower c (1 - p) = 1 - upper c p := by
  unfold lower upper
  rw [centre_one_sub hc, spread_one_sub]
  ring

/-- **The upper end of the mirrored interval.** -/
theorem upper_one_sub (hc : 0 < c) : upper c (1 - p) = 1 - lower c p := by
  unfold lower upper
  rw [centre_one_sub hc, spread_one_sub]
  ring

section

variable (hc : 0 < c) (hp : 0 ≤ p) (hp' : p ≤ 1)

include hc hp hp'

/-- What is under the root is positive. -/
theorem radicand_pos : 0 < c * (p * (1 - p)) + c ^ 2 / 4 := by
  have : 0 ≤ c * (p * (1 - p)) := mul_nonneg hc.le (mul_nonneg hp (sub_nonneg.mpr hp'))
  positivity

/-- The interval has a width. -/
theorem spread_pos : 0 < spread c p :=
  div_pos (Real.sqrt_pos.mpr (radicand_pos hc hp hp')) (by linarith)

/-- The square of half the width. -/
theorem spread_sq : spread c p ^ 2 = (c * (p * (1 - p)) + c ^ 2 / 4) / (1 + c) ^ 2 := by
  unfold spread
  rw [div_pow, Real.sq_sqrt (radicand_pos hc hp hp').le]

/-- **The ends are the roots**, and the interval is between them. -/
theorem quadratic_eq :
    (t - p) ^ 2 - c * (t * (1 - t)) = (1 + c) * ((t - lower c p) * (t - upper c p)) := by
  have hne : 1 + c ≠ 0 := by linarith
  have hsq := spread_sq hc hp hp'
  have hproduct : (t - lower c p) * (t - upper c p) = (t - centre c p) ^ 2 - spread c p ^ 2 := by
    unfold lower upper
    ring
  rw [hproduct, hsq]
  unfold centre
  rw [Nat.cast_ofNat]
  field_simp
  ring

/-- The rate is in the interval. -/
theorem rate_mem : lower c p ≤ p ∧ p ≤ upper c p := by
  have hproduct : (1 + c) * ((p - lower c p) * (p - upper c p)) ≤ 0 := by
    rw [← quadratic_eq hc hp hp', sub_self]
    have := mul_nonneg hc.le (mul_nonneg hp (sub_nonneg.mpr hp'))
    linarith
  have hle : lower c p ≤ upper c p := by
    have := spread_pos hc hp hp'
    unfold lower upper
    linarith
  have hneg : (p - lower c p) * (p - upper c p) ≤ 0 :=
    nonpos_of_mul_nonpos_right hproduct (by linarith)
  rcases mul_nonpos_iff.mp hneg with h | h
  · exact ⟨sub_nonneg.mp h.1, sub_nonpos.mp h.2⟩
  · exact ⟨hle.trans (sub_nonneg.mp h.2), (sub_nonpos.mp h.1).trans hle⟩

/-- **The lower end is at most the rate.** -/
theorem lower_le : lower c p ≤ p := (rate_mem hc hp hp').1

/-- **The upper end is at least the rate.** -/
theorem le_upper : p ≤ upper c p := (rate_mem hc hp hp').2

/-- **The interval does not begin below zero.** -/
theorem lower_nonneg : 0 ≤ lower c p := by
  have hupper : 0 < upper c p := by
    have := spread_pos hc hp hp'
    have : 0 < centre c p := by
      unfold centre
      rw [Nat.cast_ofNat]
      exact div_pos (by linarith) (by linarith)
    unfold upper
    linarith
  have hproduct : 0 ≤ lower c p * upper c p := by
    have h := @quadratic_eq c p 0 hc hp hp'
    have hsq := sq_nonneg p
    nlinarith
  exact nonneg_of_mul_nonneg_left hproduct hupper

/-- **It does not end above one.** -/
theorem upper_le_one : upper c p ≤ 1 := by
  have h := @lower_nonneg c (1 - p) hc (sub_nonneg.mpr hp') (by linarith)
  rw [lower_one_sub hc] at h
  linarith

end

/-- **The lower end grows with the rate.** -/
theorem lower_mono (hc : 0 < c) (hp : 0 ≤ p) (hpq : p ≤ q) (hq : q ≤ 1) : lower c p ≤ lower c q := by
  have hp' := hpq.trans hq
  have hq' := hp.trans hpq
  by_contra hlt
  rw [not_le] at hlt
  -- the lower end for `q` is outside of the interval of `p`, and nearer to `p` than to `q`
  have hout : 0 < (lower c q - p) ^ 2 - c * (lower c q * (1 - lower c q)) := by
    rw [quadratic_eq hc hp hp']
    have hupper : lower c p ≤ upper c p := (lower_le hc hp hp').trans (le_upper hc hp hp')
    exact mul_pos (by linarith) (mul_pos_of_neg_of_neg (by linarith) (by linarith))
  have hroot : (lower c q - q) ^ 2 - c * (lower c q * (1 - lower c q)) = 0 := by
    rw [quadratic_eq hc hq' hq, sub_self, zero_mul, mul_zero]
  have hnear : (lower c q - p) ^ 2 ≤ (lower c q - q) ^ 2 := by
    have := lower_le hc hp hp'
    rw [← neg_sq, ← neg_sq (lower c q - q)]
    exact pow_le_pow_left₀ (by linarith) (by linarith) 2
  linarith

/-- **The upper end grows with the rate.** -/
theorem upper_mono (hc : 0 < c) (hp : 0 ≤ p) (hpq : p ≤ q) (hq : q ≤ 1) : upper c p ≤ upper c q := by
  have h := @lower_mono c (1 - q) (1 - p) hc (sub_nonneg.mpr hq) (by linarith) (by linarith)
  rw [lower_one_sub hc, lower_one_sub hc] at h
  linarith

end ScoreInterval
