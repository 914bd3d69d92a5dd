import Mathlib.Tactic.Linarith
import AgentEval.Ranks.OrderStatistics
import AgentEval.Scoring.Exact

/-!
# The interval and the p-value

Both come from the same resamples: the loops draw the same numbers, and the indices of the interval
are so far from the ends that a tail of the size the p-value stands for reaches over them.

* **`countTails_eq`**: the loops draw the same resamples.
* **`pairedComparison_includesZero`**: a difference that is not significant has an interval that
  includes zero.
-/

namespace AgentEval.Scoring.Exact

open Js

section

variable {F : Type} [Field F] [LinearOrder F] [FloorRing F] (generator : Generator F)

/-- An index that is a natural number. -/
theorem itemAt_natCast {α : Type} (xs : List α) (i : ℕ) : itemAt xs (i : ℤ) = xs[i]? := by
  unfold itemAt
  rw [if_neg (by omega), Int.toNat_natCast]

/-- There are as many means as resamples. -/
theorem length_resampleMeans (clusters : List (List F)) (n : ℕ) (rng : generator.State) :
    (resampleMeans generator clusters n rng).length = n := by
  induction n generalizing rng with
  | zero => rfl
  | succ n ih => rw [resampleMeans, List.length_cons, ih]

/-- **The two loops draw the same resamples.** -/
theorem countTails_eq (clusters : List (List F)) (n : ℕ) (rng : generator.State) (tails : ℕ × ℕ) :
    countTails generator clusters n rng tails =
      (tails.1 + (resampleMeans generator clusters n rng).countP (· ≤ 0),
        tails.2 + (resampleMeans generator clusters n rng).countP (0 ≤ ·)) := by
  induction n generalizing rng tails with
  | zero => rfl
  | succ n ih =>
    unfold countTails resampleMeans
    rw [ih, List.countP_cons, List.countP_cons]
    simp only [decide_eq_true_eq]
    congr 1
    · split_ifs <;> omega
    · split_ifs <;> omega

end

section

variable {F : Type} [Field F] [LinearOrder F] [IsStrictOrderedRing F] [FloorRing F]
  {generator : Generator F}

omit [FloorRing F] in
/-- The comparator sorts by size. -/
theorem mergeSort_sub (l : List F) :
    (l.mergeSort fun a b => !decide (0 < a - b)) = l.mergeSort (· ≤ ·) := by
  congr 1
  funext a b
  rw [← decide_not]
  exact decide_eq_decide.mpr (by rw [sub_pos, not_lt])

/-- The means in order. -/
def sortedMeans (generator : Generator F) (observations : List (Observation F))
    (options : CompareOptions F) : List F :=
  (resampleMeans generator (groupByCluster observations) options.resamples
    (generator.mulberry32 options.seed)).mergeSort (· ≤ ·)

variable {observations : List (Observation F)} {options : CompareOptions F}

omit [IsStrictOrderedRing F] in
/-- Their number. -/
theorem length_sortedMeans :
    (sortedMeans generator observations options).length = options.resamples := by
  rw [sortedMeans, List.length_mergeSort, length_resampleMeans]

omit [IsStrictOrderedRing F] in
/-- They are in order. -/
theorem pairwise_sortedMeans : (sortedMeans generator observations options).Pairwise (· ≤ ·) :=
  List.pairwise_mergeSort' (· ≤ ·) _

/-- The lower index. -/
def lowerIndex (options : CompareOptions F) : ℤ :=
  ⌊options.alpha / 2 * ((options.resamples : F) - 1)⌋

/-- The upper index is as far from the end as the lower one from the start. -/
theorem upperIndex_eq (options : CompareOptions F) :
    ⌈(1 - options.alpha / 2) * ((options.resamples : F) - 1)⌉ =
      (options.resamples : ℤ) - 1 - lowerIndex options := by
  have hsplit : (1 - options.alpha / 2) * ((options.resamples : F) - 1) =
      ((options.resamples - 1 : ℤ) : F) + -(options.alpha / 2 * ((options.resamples : F) - 1)) := by
    push_cast
    ring
  rw [hsplit, Int.ceil_intCast_add, Int.ceil_neg]
  rfl

/-- The interval, with two clusters or more. -/
theorem clusterBootstrapInterval_eq (h : 2 ≤ (groupByCluster observations).length) :
    clusterBootstrapInterval generator observations options =
      ⟨mean (observations.map Observation.value),
        itemAt (sortedMeans generator observations options) (lowerIndex options),
        itemAt (sortedMeans generator observations options)
          ((options.resamples : ℤ) - 1 - lowerIndex options),
        (groupByCluster observations).length⟩ := by
  unfold clusterBootstrapInterval
  dsimp only
  rw [if_neg (by omega), List.length_mergeSort, length_resampleMeans, upperIndex_eq, mergeSort_sub]
  rfl

omit [IsStrictOrderedRing F] in
/-- The p-value, with two clusters or more. -/
theorem bootstrapPValue_eq (h : 2 ≤ (groupByCluster observations).length) :
    bootstrapPValue generator observations options =
      min 1 (max (1 / (options.resamples : F))
        (2 * (((min ((sortedMeans generator observations options).countP (· ≤ 0))
          ((sortedMeans generator observations options).countP (0 ≤ ·)) : ℕ) : F) /
            options.resamples))) := by
  have hperm := List.mergeSort_perm (resampleMeans generator (groupByCluster observations)
    options.resamples (generator.mulberry32 options.seed)) (· ≤ ·)
  unfold bootstrapPValue sortedMeans
  dsimp only
  rw [if_neg (by omega), countTails_eq, Nat.zero_add, Nat.zero_add, hperm.countP_eq,
    hperm.countP_eq]

/-- A comparison whose interval includes zero. -/
def IncludesZero (comparison : PairedComparison F) : Prop :=
  ∃ lower upper, comparison.lower = some lower ∧ comparison.upper = some upper ∧
    lower ≤ 0 ∧ 0 ≤ upper

omit [FloorRing F] in
/-- Something is resampled. -/
theorem one_le_resamples {alpha : F} {resamples : ℕ} (hresamples : 1 < resamples * alpha) :
    (1 : F) ≤ resamples := by
  have hpos : resamples ≠ 0 := by
    rintro rfl
    rw [Nat.cast_zero, zero_mul] at hresamples
    exact absurd hresamples (not_lt.mpr zero_le_one)
  exact_mod_cast Nat.one_le_iff_ne_zero.mpr hpos

omit [FloorRing F] in
/-- What a p-value stands for. -/
theorem tails_of_le {alpha : F} {resamples tail : ℕ} (hresamples : 1 < resamples * alpha)
    (hp : alpha ≤ min 1 (max (1 / (resamples : F)) (2 * ((tail : F) / resamples)))) :
    alpha / 2 * resamples ≤ tail := by
  have hpos := zero_lt_one.trans_le (one_le_resamples hresamples)
  have hfloor : ¬alpha ≤ 1 / resamples := by
    rw [not_le, div_lt_iff₀ hpos, mul_comm]
    exact hresamples
  have hmax := hp.trans (min_le_right _ _)
  rw [le_max_iff, or_iff_right hfloor] at hmax
  rw [← mul_div_assoc, le_div_iff₀ hpos] at hmax
  linarith

/-- An index below what a p-value stands for. -/
theorem lowerIndex_lt {tail : ℕ} (halpha : 0 < options.alpha)
    (htail : options.alpha / 2 * options.resamples ≤ tail) : lowerIndex options < tail := by
  unfold lowerIndex
  rw [Int.floor_lt, Int.cast_natCast]
  linarith

omit [IsStrictOrderedRing F] in
/-- The bounds of an interval whose tails reach over its indices. -/
theorem exists_bounds (hlow : 0 ≤ lowerIndex options)
    (hbelow : lowerIndex options < (sortedMeans generator observations options).countP (· ≤ 0))
    (habove : lowerIndex options < (sortedMeans generator observations options).countP (0 ≤ ·)) :
    ∃ lower upper,
      itemAt (sortedMeans generator observations options) (lowerIndex options) = some lower ∧
      itemAt (sortedMeans generator observations options)
        ((options.resamples : ℤ) - 1 - lowerIndex options) = some upper ∧ lower ≤ 0 ∧ 0 ≤ upper := by
  have hlength := @length_sortedMeans _ _ _ _ generator observations options
  have hcount : (sortedMeans generator observations options).countP (· ≤ 0) ≤ options.resamples := by
    rw [← hlength]
    exact List.countP_le_length
  obtain ⟨i, hi⟩ := Int.eq_ofNat_of_zero_le hlow
  rw [hi] at hbelow habove ⊢
  have hindex : (options.resamples : ℤ) - 1 - i = (options.resamples - 1 - i : ℕ) := by omega
  rw [hindex, itemAt_natCast, itemAt_natCast]
  have hlower := List.getElem?_eq_getElem (l := sortedMeans generator observations options) (i := i)
    (by omega)
  have hupper := List.getElem?_eq_getElem (l := sortedMeans generator observations options)
    (i := options.resamples - 1 - i) (by omega)
  refine ⟨_, _, hlower, hupper, ?_, ?_⟩
  · exact OrderStatistics.le_of_lt_countP pairwise_sortedMeans hlower (by omega)
  · exact OrderStatistics.le_of_length_le pairwise_sortedMeans hupper (by omega)

/-- An interval of differences that are not significant. -/
theorem pairedComparison_includesZero {sqrt : F → F} {a b : ModelScores F}
    (halpha : 0 < options.alpha) (hresamples : 1 < options.resamples * options.alpha)
    (hp : options.alpha ≤ (pairedComparison generator sqrt options a b).pValue) :
    IncludesZero (pairedComparison generator sqrt options a b) := by
  unfold pairedComparison at hp ⊢
  dsimp only at hp ⊢
  split_ifs at hp ⊢ with hempty
  · exact ⟨0, 0, rfl, rfl, le_rfl, le_rfl⟩
  dsimp only at hp ⊢
  by_cases htwo : 2 ≤ (groupByCluster (differences (sharedTasks a b))).length
  · unfold IncludesZero
    dsimp only
    rw [clusterBootstrapInterval_eq htwo]
    rw [bootstrapPValue_eq htwo] at hp
    have htails := tails_of_le hresamples hp
    have hindex := lowerIndex_lt halpha htails
    have hlow : 0 ≤ lowerIndex options := by
      have := sub_nonneg.mpr (one_le_resamples hresamples)
      apply Int.floor_nonneg.mpr
      positivity
    exact exists_bounds hlow (by omega) (by omega)
  · unfold IncludesZero clusterBootstrapInterval
    dsimp only
    rw [if_pos (by omega)]
    exact ⟨0, 1, rfl, rfl, le_rfl, zero_le_one⟩

end

end AgentEval.Scoring.Exact
