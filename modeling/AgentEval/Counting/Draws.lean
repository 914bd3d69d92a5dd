import Mathlib.Algebra.BigOperators.Intervals
import Mathlib.Data.Nat.Choose.Vandermonde
import Mathlib.Tactic.Linarith

/-!
# Draws from a box with marked balls

From a box of `c` marked balls and `d` others, `k` balls are drawn at once.

* `Draws.ways c d k j` — the draws with exactly `j` marked balls; `Draws.atLeast c d k m` — those
  with `m` or more.
* **`Draws.atLeast_zero`**: all draws together.
* **`Draws.sum_atLeast`**: a draw with `j` marked balls is counted at every bound up to `j`.
* **`Draws.sum_atLeast_le_iff`**: how the upper half of the bounds compares with the draws that have
  a marked ball at all, when the number of balls is odd.
-/

namespace Draws

open Finset

/-- Draws with exactly `j` marked balls. -/
def ways (c d k j : ℕ) : ℕ := c.choose j * d.choose (k - j)

/-- Draws with `m` marked balls or more. -/
def atLeast (c d k m : ℕ) : ℕ := ∑ j ∈ Icc m k, ways c d k j

variable (c d k : ℕ) {m m' s : ℕ}

/-- No ball is marked. -/
@[simp] theorem ways_zero : ways c d k 0 = d.choose k := by
  unfold ways
  rw [Nat.choose_zero_right, one_mul, Nat.sub_zero]

/-- All balls are marked. -/
@[simp] theorem ways_self : ways c d k k = c.choose k := by
  unfold ways
  rw [Nat.sub_self, Nat.choose_zero_right, mul_one]

/-- All draws. -/
@[simp] theorem atLeast_zero : atLeast c d k 0 = (c + d).choose k := by
  unfold atLeast ways
  rw [Nat.add_choose_eq, Nat.sum_antidiagonal_eq_sum_range_succ_mk, ← Nat.range_succ_eq_Icc_zero]

/-- All balls are marked. -/
@[simp] theorem atLeast_self : atLeast c d k k = c.choose k := by
  unfold atLeast
  rw [Icc_self, sum_singleton, ways_self]

/-- A higher bound leaves fewer draws. -/
theorem atLeast_antitone (h : m ≤ m') : atLeast c d k m' ≤ atLeast c d k m :=
  sum_le_sum_of_subset (Icc_subset_Icc_left h)

/-- At the bound or above it. -/
theorem atLeast_eq_add (h : m ≤ k) : atLeast c d k m = ways c d k m + atLeast c d k (m + 1) := by
  unfold atLeast
  rw [← insert_Icc_add_one_left_eq_Icc h, sum_insert]
  simp

/-- No marked ball, or one at least. -/
theorem choose_add_atLeast_one : d.choose k + atLeast c d k 1 = (c + d).choose k := by
  rw [← atLeast_zero, atLeast_eq_add c d k (Nat.zero_le k), ways_zero, Nat.zero_add]

/-- A draw with `j` marked balls is counted at every bound up to `j`. -/
theorem sum_atLeast (s : ℕ) :
    ∑ i ∈ Icc s k, atLeast c d k i = ∑ j ∈ Icc s k, (j + 1 - s) * ways c d k j := by
  unfold atLeast
  have hswap : ∀ i j, i ∈ Icc s k ∧ j ∈ Icc i k ↔ i ∈ Icc s j ∧ j ∈ Icc s k := by
    intro i j
    simp only [mem_Icc]
    omega
  rw [sum_comm' hswap]
  apply sum_congr rfl
  intro j _
  rw [sum_const, Nat.card_Icc, smul_eq_mul]

/-- What a draw lacks to be counted at half of the bounds. -/
def lack (k j : ℕ) : ℕ := min k (2 * (k - j) - 1)

/-- A draw with some other ball is counted less often. -/
theorem twice_add_lack {j : ℕ} (hk : k + 1 = 2 * s) (hj : j < k) :
    2 * (j + 1 - s) + lack k j = k := by
  unfold lack
  omega

/-- The upper half of the bounds, doubled, for an odd number of balls. -/
theorem sum_atLeast_le_iff (hk : k + 1 = 2 * s) :
    2 * ∑ i ∈ Icc s k, atLeast c d k i ≤ k * atLeast c d k 1 ↔
      c.choose k ≤ ∑ j ∈ Ico 1 k, lack k j * ways c d k j := by
  have h1k : 1 ≤ k := by omega
  -- below the middle a draw is not counted at all
  have hfrom : ∑ i ∈ Icc s k, atLeast c d k i = ∑ j ∈ Icc 1 k, (j + 1 - s) * ways c d k j := by
    rw [sum_atLeast]
    apply sum_subset (Icc_subset_Icc_left (by omega))
    intro j hj hnot
    rw [mem_Icc] at hj hnot
    rw [Nat.sub_eq_zero_of_le (by omega), Nat.zero_mul]
  have hsplit : ∀ f : ℕ → ℕ, ∑ j ∈ Icc 1 k, f j = ∑ j ∈ Ico 1 k, f j + f k := by
    intro f
    rw [Icc_eq_cons_Ico h1k, sum_cons, add_comm]
  have hrest : k * ∑ j ∈ Ico 1 k, ways c d k j =
      2 * ∑ j ∈ Ico 1 k, (j + 1 - s) * ways c d k j + ∑ j ∈ Ico 1 k, lack k j * ways c d k j := by
    rw [mul_sum, mul_sum, ← sum_add_distrib]
    apply sum_congr rfl
    intro j hj
    rw [← mul_assoc, ← add_mul, twice_add_lack k hk (mem_Ico.mp hj).2]
  have htop : 2 * ((k + 1 - s) * ways c d k k) = k * ways c d k k + ways c d k k := by
    rw [← mul_assoc, show 2 * (k + 1 - s) = k + 1 by omega, add_mul, one_mul]
  rw [hfrom, atLeast, hsplit, hsplit, mul_add, mul_add, hrest, htop, ways_self]
  constructor
  · intro h
    linarith
  · intro h
    linarith

end Draws
