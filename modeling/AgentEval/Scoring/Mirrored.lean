import AgentEval.Ranks.OrderStatistics
import AgentEval.Scoring.Opposite

/-!
# Comparisons from the other side

* `Mirrored` — the groups on both sides resample to opposite means.
* **`Mirrored.pairedComparison`**: then the comparison is that of the other side, mirrored.
* **`mirrored_of_pairedComparison`**: it is the only way.
-/

namespace AgentEval.Scoring.Exact

open Js

section

variable {F : Type} [Field F]

/-- A comparison as the other side should see it. -/
def PairedComparison.swap (comparison : PairedComparison F) : PairedComparison F where
  a := comparison.b
  b := comparison.a
  difference := -comparison.difference
  lower := comparison.upper.map Neg.neg
  upper := comparison.lower.map Neg.neg
  pValue := comparison.pValue
  tasksCompared := comparison.tasksCompared
  correlation := comparison.correlation
  significant := comparison.significant

@[simp] theorem PairedComparison.tasksCompared_swap (comparison : PairedComparison F) :
    comparison.swap.tasksCompared = comparison.tasksCompared := rfl

@[simp] theorem PairedComparison.correlation_swap (comparison : PairedComparison F) :
    comparison.swap.correlation = comparison.correlation := rfl

/-- The groups of the differences. -/
def groupsOf (a b : ModelScores F) : List (List F) :=
  groupByCluster (differences (sharedTasks a b))

/-- No task is shared, or there are two groups or more on both sides, and they resample to opposite
means. -/
def Mirrored (a b : ModelScores F) : Prop :=
  sharedTasks a b = [] ∨
    2 ≤ (groupsOf a b).length ∧ 2 ≤ (groupsOf b a).length ∧ Opposite (groupsOf a b) (groupsOf b a)

variable {a b : ModelScores F}

/-- The groups on both sides hold as many differences. -/
theorem length_flatten_groupsOf (ha : a.Distinct) (hb : b.Distinct) :
    (groupsOf b a).flatten.length = (groupsOf a b).flatten.length := by
  unfold groupsOf
  rw [(perm_flatten_groupByCluster _).length_eq, (perm_flatten_groupByCluster _).length_eq]
  unfold differences
  rw [List.length_map, List.length_map, List.length_map, List.length_map,
    length_sharedTasks ha hb]

variable [LinearOrder F] {sqrt : F → F}

/-- The correlation is the same from both sides. -/
theorem pearson_sharedTasks (ha : a.Distinct) (hb : b.Distinct) :
    pearson sqrt ((sharedTasks b a).map (·.1.value)) ((sharedTasks b a).map (·.2.value)) =
      pearson sqrt ((sharedTasks a b).map (·.1.value)) ((sharedTasks a b).map (·.2.value)) := by
  have hperm := pearson_perm sqrt ((perm_sharedTasks ha hb).map fun p =>
    (p.1.value, p.2.value))
  have hswap := pearson_swap sqrt ((sharedTasks a b).map fun p => (p.1.value, p.2.value))
  simp only [List.map_map, Function.comp_def, Prod.fst_swap, Prod.snd_swap] at hperm hswap
  exact hperm.trans hswap

variable [IsStrictOrderedRing F] [FloorRing F] {generator : Generator F}
  {options : CompareOptions F} {observations observations' : List (Observation F)}

omit [FloorRing F] in
/-- Of opposite numbers, those on the other side of zero are counted. -/
theorem countP_map_neg (l : List F) :
    (l.map Neg.neg).reverse.countP (· ≤ 0) = l.countP (0 ≤ ·) ∧
      (l.map Neg.neg).reverse.countP (0 ≤ ·) = l.countP (· ≤ 0) := by
  rw [List.countP_reverse, List.countP_reverse, List.countP_map, List.countP_map]
  constructor
  · congr 1
    funext x
    exact decide_eq_decide.mpr neg_nonpos
  · congr 1
    funext x
    exact decide_eq_decide.mpr neg_nonneg

/-- The means in order, from the other side. -/
theorem sortedMeans_opposite (h : Opposite (groupByCluster observations)
      (groupByCluster observations')) (htwo : 2 ≤ (groupByCluster observations).length)
    (htwo' : 2 ≤ (groupByCluster observations').length) :
    sortedMeans generator observations' options =
      ((sortedMeans generator observations options).map Neg.neg).reverse := by
  unfold sortedMeans
  rw [h.resampleMeans (List.ne_nil_of_length_pos (by omega))
    (List.ne_nil_of_length_pos (by omega)) (fun _ => ne_nil_of_mem_groupByCluster)
    (fun _ => ne_nil_of_mem_groupByCluster), OrderStatistics.mergeSort_map_neg]

/-- The p-value is the same. -/
theorem bootstrapPValue_opposite (h : Opposite (groupByCluster observations)
      (groupByCluster observations')) (htwo : 2 ≤ (groupByCluster observations).length)
    (htwo' : 2 ≤ (groupByCluster observations').length) :
    bootstrapPValue generator observations' options =
      bootstrapPValue generator observations options := by
  obtain ⟨hbelow, habove⟩ := countP_map_neg (sortedMeans generator observations options)
  rw [bootstrapPValue_eq htwo, bootstrapPValue_eq htwo', sortedMeans_opposite h htwo htwo', hbelow,
    habove, Nat.min_comm]

/-- The bounds are exchanged. -/
theorem clusterBootstrapInterval_opposite (h : Opposite (groupByCluster observations)
      (groupByCluster observations')) (htwo : 2 ≤ (groupByCluster observations).length)
    (htwo' : 2 ≤ (groupByCluster observations').length) :
    (clusterBootstrapInterval generator observations' options).lower =
        (clusterBootstrapInterval generator observations options).upper.map Neg.neg ∧
      (clusterBootstrapInterval generator observations' options).upper =
        (clusterBootstrapInterval generator observations options).lower.map Neg.neg := by
  have hlength := @length_sortedMeans _ _ _ _ generator observations options
  rw [clusterBootstrapInterval_eq htwo, clusterBootstrapInterval_eq htwo',
    sortedMeans_opposite h htwo htwo']
  dsimp only
  rw [itemAt_reverse, itemAt_reverse, List.length_map, hlength, itemAt_map, itemAt_map]
  refine ⟨rfl, ?_⟩
  congr 2
  omega

omit [IsStrictOrderedRing F] in
/-- What is estimated is the mean. -/
theorem estimate_eq : (clusterBootstrapInterval generator observations options).estimate =
    mean (observations.map Observation.value) := by
  unfold clusterBootstrapInterval
  dsimp only
  split_ifs <;> rfl

/-- **The comparison from the other side** is the same, mirrored. -/
theorem Mirrored.pairedComparison (ha : a.Distinct) (hb : b.Distinct) (h : Mirrored a b) :
    pairedComparison generator sqrt options b a =
      (pairedComparison generator sqrt options a b).swap := by
  unfold Exact.pairedComparison
  dsimp only
  by_cases hempty : sharedTasks a b = []
  · rw [hempty, (sharedTasks_eq_nil ha hb).mpr hempty]
    unfold PairedComparison.swap
    simp
  have hempty' := (sharedTasks_eq_nil ha hb).not.mpr hempty
  obtain ⟨htwo, htwo', hopposite⟩ := h.resolve_left hempty
  obtain ⟨hlower, hupper⟩ := clusterBootstrapInterval_opposite hopposite htwo htwo'
  rw [if_neg (by simpa using hempty'), if_neg (by simpa using hempty)]
  unfold PairedComparison.swap
  dsimp only
  rw [estimate_eq, estimate_eq, mean_of_perm_neg (perm_values_differences ha hb), hlower, hupper,
    bootstrapPValue_opposite hopposite htwo htwo', length_sharedTasks ha hb,
    pearson_sharedTasks ha hb]

/-! ## That it is the only way -/

variable (sqrt generator options) in
omit [IsStrictOrderedRing F] in
/-- The bounds, when tasks are shared. -/
theorem bounds_eq (hne : sharedTasks a b ≠ []) :
    (Exact.pairedComparison generator sqrt options a b).lower =
        (clusterBootstrapInterval generator (differences (sharedTasks a b)) options).lower ∧
      (Exact.pairedComparison generator sqrt options a b).upper =
        (clusterBootstrapInterval generator (differences (sharedTasks a b)) options).upper := by
  unfold Exact.pairedComparison
  dsimp only
  rw [if_neg (by simpa using hne)]
  exact ⟨rfl, rfl⟩

variable (sqrt generator options) in
omit [IsStrictOrderedRing F] in
/-- Of fewer than two groups the interval is that of a share. -/
theorem bounds_of_lt_two (hne : sharedTasks a b ≠ []) (hfew : (groupsOf a b).length < 2) :
    (Exact.pairedComparison generator sqrt options a b).lower = some 0 ∧
      (Exact.pairedComparison generator sqrt options a b).upper = some 1 := by
  rw [(bounds_eq sqrt generator options hne).1, (bounds_eq sqrt generator options hne).2]
  unfold groupsOf at hfew
  unfold clusterBootstrapInterval
  dsimp only
  rw [if_pos hfew]
  exact ⟨rfl, rfl⟩

variable (sqrt generator) in
/-- One resample gives an interval of its mean alone. -/
theorem bounds_of_resamples_one (hne : sharedTasks a b ≠ []) (htwo : 2 ≤ (groupsOf a b).length) :
    (Exact.pairedComparison generator sqrt { resamples := 1 } a b).lower =
        some (resample generator (groupsOf a b) (generator.mulberry32 0x5eed)).1 ∧
      (Exact.pairedComparison generator sqrt { resamples := 1 } a b).upper =
        some (resample generator (groupsOf a b) (generator.mulberry32 0x5eed)).1 := by
  have hindex : lowerIndex ({ resamples := 1 } : CompareOptions F) = 0 := by
    unfold lowerIndex
    rw [Nat.cast_one, sub_self, mul_zero, Int.floor_zero]
  have hmeans : sortedMeans generator (differences (sharedTasks a b)) { resamples := 1 } =
      [(resample generator (groupsOf a b) (generator.mulberry32 0x5eed)).1] :=
    List.mergeSort_singleton _
  rw [(bounds_eq _ _ _ hne).1, (bounds_eq _ _ _ hne).2, clusterBootstrapInterval_eq htwo, hmeans,
    hindex]
  exact ⟨rfl, rfl⟩

omit [LinearOrder F] [IsStrictOrderedRing F] [FloorRing F] in
/-- The other side of the other side. -/
theorem PairedComparison.swap_swap (comparison : PairedComparison F) :
    comparison.swap.swap = comparison := by
  have hbound : ∀ bound : Option F, (bound.map Neg.neg).map Neg.neg = bound := by
    intro bound
    cases bound with
    | none => rfl
    | some x => exact congrArg some (neg_neg x)
  unfold PairedComparison.swap
  dsimp only
  rw [neg_neg, hbound, hbound]

/-- An interval that is mirrored is not that of a share. -/
theorem two_le_of_swap (hne : sharedTasks a b ≠ []) (hne' : sharedTasks b a ≠ [])
    (h : ∀ options, Exact.pairedComparison generator sqrt options b a =
      (Exact.pairedComparison generator sqrt options a b).swap) : 2 ≤ (groupsOf a b).length := by
  by_contra hfew
  obtain ⟨hlower, hupper⟩ := bounds_of_lt_two sqrt generator { resamples := 1 } hne (not_le.mp hfew)
  have hlower' : (Exact.pairedComparison generator sqrt { resamples := 1 } b a).lower =
      some (-1) := by
    rw [h]
    exact congrArg (Option.map Neg.neg) hupper
  have hupper' : (Exact.pairedComparison generator sqrt { resamples := 1 } b a).upper = some 0 := by
    rw [h]
    refine (congrArg (Option.map Neg.neg) hlower).trans ?_
    rw [Option.map_some, neg_zero]
  by_cases hfew' : (groupsOf b a).length < 2
  · rw [(bounds_of_lt_two sqrt generator _ hne' hfew').2, Option.some_inj] at hupper'
    exact one_ne_zero hupper'
  · obtain ⟨hlow, hup⟩ := bounds_of_resamples_one sqrt generator hne' (not_lt.mp hfew')
    rw [hlow, ← hup, hupper', Option.some_inj, eq_comm, neg_eq_zero] at hlower'
    exact one_ne_zero hlower'

/-- **Comparisons that are mirrored**, whatever the generator and the options. -/
theorem mirrored_of_pairedComparison (ha : a.Distinct) (hb : b.Distinct)
    (h : ∀ (generator : Generator F) options, Exact.pairedComparison generator sqrt options b a =
      (Exact.pairedComparison generator sqrt options a b).swap) : Mirrored a b := by
  by_cases hne : sharedTasks a b = []
  · exact .inl hne
  have hne' := (sharedTasks_eq_nil ha hb).not.mpr hne
  have h' : ∀ options, Exact.pairedComparison mulberry32 sqrt options a b =
      (Exact.pairedComparison mulberry32 sqrt options b a).swap := by
    intro options
    rw [h, PairedComparison.swap_swap]
  have htwo := two_le_of_swap hne hne' (h mulberry32)
  have htwo' := two_le_of_swap hne' hne h'
  refine .inr ⟨htwo, htwo', opposite_of_resample htwo htwo' (length_flatten_groupsOf ha hb)
    (fun _ => ne_nil_of_mem_groupByCluster) (fun _ => ne_nil_of_mem_groupByCluster) ?_⟩
  intro m x y
  have hlower := congrArg PairedComparison.lower (h (twoNumbers m x y) { resamples := 1 })
  rw [(bounds_of_resamples_one sqrt _ hne' htwo').1] at hlower
  have hupper := (bounds_of_resamples_one sqrt (twoNumbers m x y) hne htwo).2
  exact Option.some.inj (hlower.trans (congrArg (Option.map Neg.neg) hupper))

end

end AgentEval.Scoring.Exact
