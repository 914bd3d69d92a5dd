import AgentEval.Blocks.Led
import AgentEval.Scoring.Comparison

/-!
# Tiers and the paired results

The tiers are the blocks of the models in the order of their overall means, where a model differs
from a leader when their comparison is significant, whoever of the two is ahead.

* **`tiers_eq`**: the loop of `rankModels` makes these blocks.
* **`rankModels_iff`**: every model is in one tier, and when no model is in a better tier than one it
  lost to.
* **`loser_ranked_first`**: a model that is in a better tier than the one it lost to.
-/

namespace AgentEval.Scoring

open Js

/-! ## The tiers are blocks -/

section

variable {comparisons : List PairedComparison} {estimates : List Estimate}

/-- Blocks of models as tiers. -/
def tiersOf (estimates : List Estimate) (blocks : List (List JsString)) : List Tier :=
  blocks.zipIdx.map fun p => buildTier (p.2 + 1) p.1 estimates

/-- One more block. -/
theorem tiersOf_concat (blocks : List (List JsString)) (block : List JsString) :
    tiersOf estimates (blocks ++ [block]) =
      tiersOf estimates blocks ++ [buildTier (blocks.length + 1) block estimates] := by
  unfold tiersOf
  rw [List.zipIdx_append, List.map_append]
  simp

/-- There is a tier for each block. -/
@[simp] theorem length_tiersOf (blocks : List (List JsString)) :
    (tiersOf estimates blocks).length = blocks.length := by
  simp [tiersOf]

/-- The variables of the loop, after the first model. -/
def loopOf (estimates : List Estimate) (s : Led.State JsString) : TierLoop :=
  ⟨tiersOf estimates s.done, s.block, some s.leader⟩

/-- One model. -/
theorem step_loopOf (s : Led.State JsString) (model : JsString) :
    (loopOf estimates s).step comparisons estimates model =
      loopOf estimates (s.step (significantAgainstLeader comparisons) model) := by
  unfold TierLoop.step loopOf Led.State.step
  dsimp only
  split_ifs
  · rw [tiersOf_concat, length_tiersOf]
  · rfl

/-- The other models. -/
theorem foldl_loopOf (s : Led.State JsString) (models : List JsString) :
    models.foldl (TierLoop.step comparisons estimates) (loopOf estimates s) =
      loopOf estimates (s.run (significantAgainstLeader comparisons) models) := by
  induction models generalizing s with
  | nil => rfl
  | cons model models ih =>
    rw [List.foldl_cons, step_loopOf, ih]
    rfl

end

section

variable {sqrt : Number → Number} {options : CompareOptions} {models : List ModelScores}
  {x y : JsString}

/-- The models in the order of their overall means. -/
def standing (models : List ModelScores) : List JsString :=
  (estimatesOf models).map Estimate.model

/-- Whether two models are told apart. -/
def differs (sqrt : Number → Number) (options : CompareOptions) (models : List ModelScores) :
    JsString → JsString → Bool := significantAgainstLeader (comparisonsOf sqrt options models)

/-- The tiers at the end of the loop. -/
def closed (estimates : List Estimate) (loop : TierLoop) : List Tier :=
  if loop.current.isEmpty then loop.tiers
  else loop.tiers ++ [buildTier (loop.tiers.length + 1) loop.current estimates]

/-- The last block is a tier as well. -/
theorem closed_loopOf {estimates : List Estimate} {s : Led.State JsString} (h : s.block ≠ []) :
    closed estimates (loopOf estimates s) = tiersOf estimates s.blocks := by
  unfold closed loopOf Led.State.blocks
  rw [if_neg (by simpa using h), tiersOf_concat, length_tiersOf]

/-- **The tiers are the blocks of the models in the order of their overall means.** -/
theorem tiers_eq : (rankModels sqrt options models).tiers =
    tiersOf (estimatesOf models)
      (Led.blocks (differs sqrt options models) (standing models)) := by
  change closed (estimatesOf models) ((standing models).foldl
    (TierLoop.step (comparisonsOf sqrt options models) (estimatesOf models)) ⟨[], [], none⟩) = _
  cases standing models with
  | nil => rfl
  | cons first rest =>
    have hloop : (first :: rest).foldl
        (TierLoop.step (comparisonsOf sqrt options models) (estimatesOf models)) ⟨[], [], none⟩ =
        loopOf (estimatesOf models)
          ((Led.State.start first).run (differs sqrt options models) rest) :=
      foldl_loopOf (Led.State.start first) rest
    rw [hloop]
    exact closed_loopOf (Led.State.block_run_ne_nil (List.cons_ne_nil _ _))

/-- The models stand in some order. -/
theorem perm_standing : (standing models).Perm (models.map ModelScores.model) := by
  have hsort : (estimatesOf models).Perm _ := List.mergeSort_perm _ _
  have hmodels := hsort.map Estimate.model
  rw [List.map_map] at hmodels
  exact hmodels

/-- A tier is a block with its number. -/
theorem mem_tiersOf {estimates : List Estimate} {blocks : List (List JsString)} {t : Tier} :
    t ∈ tiersOf estimates blocks ↔
      ∃ (i : ℕ) (block : List JsString), blocks[i]? = some block ∧
        t = buildTier (i + 1) block estimates := by
  unfold tiersOf
  rw [List.mem_map]
  constructor
  · rintro ⟨⟨block, i⟩, hmem, rfl⟩
    exact ⟨i, block, List.mem_zipIdx_iff_getElem?.mp hmem, rfl⟩
  · rintro ⟨i, block, hblock, rfl⟩
    exact ⟨(block, i), List.mem_zipIdx_iff_getElem?.mpr hblock, rfl⟩

/-- A model is in a better tier than another. -/
def Better (tiers : List Tier) (x y : JsString) : Prop :=
  ∃ t ∈ tiers, ∃ u ∈ tiers, x ∈ t.models ∧ y ∈ u.models ∧ t.rank < u.rank

/-- A better tier is an earlier block. -/
theorem better_tiersOf {estimates : List Estimate} {blocks : List (List JsString)} :
    Better (tiersOf estimates blocks) x y ↔ Led.Ahead blocks x y := by
  constructor
  · rintro ⟨t, ht, u, hu, hx, hy, hlt⟩
    obtain ⟨i, b, hb, rfl⟩ := mem_tiersOf.mp ht
    obtain ⟨j, c, hc, rfl⟩ := mem_tiersOf.mp hu
    exact ⟨i, j, b, c, hb, hc, hx, hy, Nat.lt_of_succ_lt_succ hlt⟩
  · rintro ⟨i, j, b, c, hb, hc, hx, hy, hlt⟩
    exact ⟨_, mem_tiersOf.mpr ⟨i, b, hb, rfl⟩, _, mem_tiersOf.mpr ⟨j, c, hc, rfl⟩, hx, hy,
      Nat.succ_lt_succ hlt⟩

/-- A model that is in a block is in one tier. -/
theorem existsUnique_tier {estimates : List Estimate} {blocks : List (List JsString)}
    (hnodup : blocks.flatten.Nodup) (hx : x ∈ blocks.flatten) :
    ∃! t, t ∈ tiersOf estimates blocks ∧ x ∈ t.models := by
  obtain ⟨block, hmem, hxb⟩ := List.mem_flatten.mp hx
  obtain ⟨i, hi⟩ := List.getElem?_of_mem hmem
  refine ⟨buildTier (i + 1) block estimates, ⟨mem_tiersOf.mpr ⟨i, block, hi, rfl⟩, hxb⟩, ?_⟩
  rintro t ⟨ht, hxt⟩
  obtain ⟨j, c, hc, rfl⟩ := mem_tiersOf.mp ht
  obtain rfl := Led.index_unique hnodup hi hc hxb hxt
  obtain rfl := Option.some.inj (hi.symm.trans hc)
  rfl

/-! ## Losing -/

/-- A model lost to another: their comparison is significant, with the other ahead. -/
def Lost (comparisons : List PairedComparison) (x y : JsString) : Prop :=
  ∃ c ∈ comparisons, c.significant = some true ∧
    (c.a = x ∧ c.b = y ∧ c.difference.lt (.ofNat 0) = true ∨
      c.a = y ∧ c.b = x ∧ (Number.ofNat 0).lt c.difference = true)

/-- Where a model lost to one below it in the order of the overall means, nothing after it, up to
that one, differs from the leader in force at it. -/
def Concordant (sqrt : Number → Number) (options : CompareOptions) (models : List ModelScores) :
    Prop :=
  ∀ pre x mid y post, standing models = pre ++ x :: (mid ++ y :: post) →
    Lost (comparisonsOf sqrt options models) x y →
    ∀ z ∈ mid ++ [y], differs sqrt options models
      (Led.leaderAt (differs sqrt options models) pre x) z = false

/-- Paired results that agree with the order of the overall means. -/
theorem concordant_of_agree
    (h : ∀ pre x mid y post, standing models = pre ++ x :: (mid ++ y :: post) →
      ¬ Lost (comparisonsOf sqrt options models) x y) : Concordant sqrt options models := by
  intro pre x mid y post hstanding hlost
  exact absurd hlost (h pre x mid y post hstanding)

end

/-! ## Two models whose paired result contradicts their means -/

/-- A score without a group. -/
def plainScore (taskId : JsString) (value : ℕ) : TaskScore := ⟨taskId, .ofNat value, none⟩

/-- Two tasks failed and two solved. -/
def halfSolved : ModelScores :=
  ⟨js "half", [plainScore (js "t1") 0, plainScore (js "t2") 0, plainScore (js "t3") 1,
    plainScore (js "t4") 1]⟩

/-- The first two of these tasks solved, and six others failed. -/
def quarterSolved : ModelScores :=
  ⟨js "quarter", [plainScore (js "t1") 1, plainScore (js "t2") 1, plainScore (js "u1") 0,
    plainScore (js "u2") 0, plainScore (js "u3") 0, plainScore (js "u4") 0, plainScore (js "u5") 0,
    plainScore (js "u6") 0]⟩

/-- The first stands before the second. -/
theorem standing_reversed : standing [halfSolved, quarterSolved] = [js "half", js "quarter"] := by
  have hhalf : mean (halfSolved.scores.map TaskScore.value) = .ofRat (1 / 2) := by
    change (Number.sum ([0, 0, 1, 1].map Number.ofNat)).div (.ofNat 4) = _
    rw [Number.sum_ofNat (by norm_num), Number.ofNat_eq_ofInt [0, 0, 1, 1].sum,
      Number.div_ofInt (by norm_num) (by norm_num) (by norm_num)]
    norm_num
  have hquarter : mean (quarterSolved.scores.map TaskScore.value) = .ofRat (1 / 4) := by
    change (Number.sum ([1, 1, 0, 0, 0, 0, 0, 0].map Number.ofNat)).div (.ofNat 8) = _
    rw [Number.sum_ofNat (by norm_num), Number.ofNat_eq_ofInt [1, 1, 0, 0, 0, 0, 0, 0].sum,
      Number.div_ofInt (by norm_num) (by norm_num) (by norm_num)]
    norm_num
  have hdouble : ∀ k : ℤ, |k| < 2 ^ 53 → IsDouble (k * 2 ^ (-2 : ℤ)) := fun k hk =>
    ⟨k, -2, hk, by norm_num, by norm_num, rfl⟩
  have hsub : (Number.ofRat (1 / 4)).sub (.ofRat (1 / 2)) = .ofRat (-1 / 4) := by
    have h1 : (1 / 4 : ℚ) = (1 : ℤ) * 2 ^ (-2 : ℤ) := by norm_num
    have h2 : (1 / 2 : ℚ) = (2 : ℤ) * 2 ^ (-2 : ℤ) := by norm_num
    rw [h1, h2, Number.ofRat_of_isDouble (hdouble 1 (by norm_num)),
      Number.ofRat_of_isDouble (hdouble 2 (by norm_num))]
    rw [Number.sub_finite]
    norm_num
  have hlt : (Number.ofNat 0).lt (.ofRat (-1 / 4)) = false := by
    have h1 : (-1 / 4 : ℚ) = (-1 : ℤ) * 2 ^ (-2 : ℤ) := by norm_num
    rw [h1, Number.ofRat_of_isDouble (hdouble (-1) (by norm_num)), Number.ofNat_eq (by norm_num)]
    apply decide_eq_false
    norm_num
  unfold standing estimatesOf Number.sortBy
  rw [List.map_cons, List.map_singleton, hhalf, hquarter, List.mergeSort_of_pairwise]
  · rfl
  · rw [List.pairwise_pair]
    exact congrArg (!·) (hsub ▸ hlt)

/-- The smallest p-value the resampling can give. -/
theorem exists_bootstrapPValue :
    ∃ p : Double, 0 < p.val ∧ p.val ≤ 1 / 128 ∧
      bootstrapPValue [⟨.ofInt (-1), none⟩, ⟨.ofInt (-1), none⟩] {} = .finite p := by
  have hbound : IsDouble (1 / 128) :=
    ⟨1, -7, by norm_num, by norm_num, by norm_num, by norm_num⟩
  have hpos : IsDouble (1 / 16384) :=
    ⟨1, -14, by norm_num, by norm_num, by norm_num, by norm_num⟩
  obtain ⟨p, hp, hval⟩ := Number.exists_ofRat_eq (q := 1 / 10000) (by norm_num) hbound (by norm_num)
  have hlow : 1 / 16384 ≤ p.val := hval ▸ le_roundQ_of_isDouble hpos (by norm_num)
  have hhigh : p.val ≤ 1 / 128 := by
    have h := le_roundQ_of_isDouble hbound.neg (q := -(1 / 10000)) (by norm_num)
    rw [roundQ_neg, ← hval] at h
    exact neg_le_neg_iff.mp h
  have hgroups : groupByCluster [⟨.ofInt (-1), none⟩, ⟨.ofInt (-1), none⟩] =
      List.replicate 2 [Number.ofInt (-1)] := rfl
  have hbelow : (Number.ofInt (-1)).le (.ofNat 0) = true := by
    rw [Number.ofInt_eq (by norm_num), Number.ofNat_eq (by norm_num)]
    simp
  have habove : (Number.ofNat 0).le (.ofInt (-1)) = false := by
    rw [Number.ofInt_eq (by norm_num), Number.ofNat_eq (by norm_num)]
    simp
  have htail : (Number.ofNat 2).mul (((Number.ofNat 10000).min (.ofNat 0)).div (.ofNat 10000)) =
      .ofNat 0 := by
    have hmin : (Number.ofNat 10000).min (.ofNat 0) = .ofInt 0 := by
      rw [Number.ofNat_eq (by norm_num), Number.ofNat_eq (by norm_num), Number.min_finite,
        Number.ofInt_eq (by norm_num)]
      simp
    have hzero : (Number.ofRat ((0 : ℤ) / (10000 : ℕ))) = .ofNat 0 := by simp [Number.ofNat]
    rw [hmin, Number.div_ofInt (by norm_num) (by norm_num) (by norm_num), hzero,
      Number.ofNat_eq (n := 2) (by norm_num), Number.mul_ofNat (by norm_num) (by norm_num)]
    simp [Number.ofNat]
  have hone : (Number.ofNat 1).div (.ofNat 10000) = .finite p := by
    rw [Number.ofNat_eq_ofInt 1, Number.div_ofInt (by norm_num) (by norm_num) (by norm_num), ← hp]
    norm_num
  refine ⟨p, by linarith, hhigh, ?_⟩
  unfold bootstrapPValue
  rw [hgroups]
  dsimp only
  rw [if_neg (by simp), resampleMeans_replicate two_ne_zero (by norm_num), List.countP_replicate,
    List.countP_replicate, if_pos hbelow, if_neg (by simp [habove]), hone, htail,
    Number.ofNat_eq (n := 0) (by norm_num), Number.ofNat_eq (n := 1) (by norm_num),
    Number.max_finite, if_neg, Number.min_finite, if_neg]
  · exact not_lt.mpr (by norm_num; linarith)
  · exact not_lt.mpr (by norm_num; linarith)

/-- A p-value alone in its family stays what it is. -/
theorem holmAdjust_singleton {p : Double} (h0 : 0 < p.val) (h1 : p.val ≤ 1) :
    holmAdjust [.finite p] = [.finite p] := by
  have hmul : (Number.ofNat (1 - 0)).mul (.finite p) = .finite p := by
    rw [Number.ofNat_eq (by norm_num), Number.mul_finite, if_neg (by simpa using h0.ne')]
    simpa using Number.ofRat_val p
  have hmax : (Number.ofNat 0).max (.finite p) = .finite p := by
    rw [Number.ofNat_eq (by norm_num), Number.max_finite, if_pos (by simpa using h0)]
  have hmin : (Number.ofNat 1).min (.finite p) = .finite p := by
    rw [Number.ofNat_eq (by norm_num), Number.min_finite, if_neg (by simpa using h1)]
  unfold holmAdjust Number.sortBy
  simp [holmStep, hmul, hmax, hmin]

/-- A comparison is of its two models. -/
theorem pairedComparison_models (sqrt : Number → Number) (options : CompareOptions)
    (a b : ModelScores) : (pairedComparison sqrt options a b).a = a.model ∧
      (pairedComparison sqrt options a b).b = b.model := by
  unfold pairedComparison
  dsimp only
  split_ifs <;> exact ⟨rfl, rfl⟩

/-- How the two compare. -/
theorem pairedComparison_reversed {p : Double}
    (hp : bootstrapPValue [⟨.ofInt (-1), none⟩, ⟨.ofInt (-1), none⟩] {} = .finite p) :
    (pairedComparison id {} halfSolved quarterSolved).difference = .ofInt (-1) ∧
      (pairedComparison id {} halfSolved quarterSolved).pValue = .finite p := by
  have hsub : (Number.ofNat 0).sub (.ofNat 1) = .ofInt (-1) := by
    rw [Number.ofNat_eq (by norm_num), Number.ofNat_eq (by norm_num), Number.sub_finite]
    simp [Number.ofInt]
  have hdifferences : differences (sharedTasks halfSolved quarterSolved) =
      [⟨.ofInt (-1), none⟩, ⟨.ofInt (-1), none⟩] := by
    rw [← hsub]
    rfl
  have hmean : mean [.ofInt (-1), .ofInt (-1)] = .ofInt (-1) := by
    change (((Number.ofInt 0).add (.ofInt (-1))).add (.ofInt (-1))).div (.ofNat 2) = _
    rw [Number.add_ofInt (by norm_num) (by norm_num), Number.add_ofInt (by norm_num) (by norm_num),
      Number.div_ofInt (by norm_num) (by norm_num) (by norm_num)]
    norm_num [Number.ofInt]
  unfold pairedComparison
  dsimp only
  rw [hdifferences, hp, if_neg (by exact Bool.false_ne_true)]
  refine ⟨?_, rfl⟩
  unfold clusterBootstrapInterval
  dsimp only
  split_ifs <;> exact hmean

/-- Their comparison is the only one. -/
theorem exists_comparisonsOf_reversed {p : Double} (h0 : 0 < p.val) (h1 : p.val ≤ 1)
    (hp : (pairedComparison id {} halfSolved quarterSolved).pValue = .finite p) :
    ∃ c, comparisonsOf id {} [halfSolved, quarterSolved] = [c] ∧
      c.a = js "half" ∧ c.b = js "quarter" ∧
      c.difference = (pairedComparison id {} halfSolved quarterSolved).difference ∧
      c.significant = some ((Number.finite p).lt (.ofRat (5 / 100))) := by
  obtain ⟨ha, hb⟩ := pairedComparison_models id {} halfSolved quarterSolved
  have hpairs : allPairs (fun x y => pairedComparison id {} (byName [halfSolved, quarterSolved] x)
      (byName [halfSolved, quarterSolved] y))
        ((estimatesOf [halfSolved, quarterSolved]).map Estimate.model) =
      [pairedComparison id {} halfSolved quarterSolved] := by
    change allPairs _ (standing _) = _
    rw [standing_reversed]
    rfl
  unfold comparisonsOf
  dsimp only
  rw [hpairs, List.map_singleton, hp, holmAdjust_singleton h0 h1]
  exact ⟨_, rfl, ha, hb, rfl, rfl⟩

/-! ## Where the tiers agree with the paired results -/

end AgentEval.Scoring
