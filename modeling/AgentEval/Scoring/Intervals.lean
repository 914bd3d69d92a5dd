import AgentEval.Js.Arith
import AgentEval.Js.Object

/-!
# `scoring/intervals.ts`: the cluster bootstrap

Clusters of observations are resampled with replacement, from a seeded generator of 32-bit words. The
same resampling gives the interval (`clusterBootstrapInterval`) and, in `comparison.ts`, the p-value.
-/

namespace AgentEval.Scoring

open Js

/-- One task's score, and the group it is correlated within.
Source: `intervals.ts`, `Observation` -/
structure Observation where
  /-- The score. -/
  value : Number
  /-- The group; absent means its own cluster. -/
  cluster : Option JsString

/-- The key of the group of an observation. -/
def clusterKey (o : Observation) (i : ℕ) : JsString :=
  o.cluster.getD (js "__singleton_" ++ natDigits i)

/-- A value put into its group. -/
def addToGroup (groups : List (JsString × List Number)) (o : Observation × ℕ) :
    List (JsString × List Number) :=
  let key := clusterKey o.1 o.2
  setProp groups (key, (groups.lookup key).getD [] ++ [o.1.value])

/-- The values by group, in the order in which the groups come up.
Source: `intervals.ts`, `groupByCluster` -/
def groupByCluster (observations : List Observation) : List (List Number) :=
  (observations.zipIdx.foldl addToGroup []).map Prod.snd

/-- Source: `intervals.ts`, `mean` -/
def mean (values : List Number) : Number :=
  if values.isEmpty then .ofNat 0 else (Number.sum values).div (.ofNat values.length)

/-- One number from the generator, and its next state.
Source: `intervals.ts`, `mulberry32` -/
def mulberry32 (state : UInt32) : Number × UInt32 :=
  let a := state + 0x6d2b79f5
  let t := (a ^^^ (a >>> 15)) * (1 ||| a)
  let u := (t + (t ^^^ (t >>> 7)) * (61 ||| t)) ^^^ t
  ((Number.ofNat (u ^^^ (u >>> 14)).toNat).div (.ofNat 4294967296), a)

/-- What was drawn of a resample so far. -/
structure Draw where
  /-- The sum of the values. -/
  total : Number
  /-- How many there are. -/
  count : ℕ
  /-- The state of the generator. -/
  rng : UInt32

/-- The place of the cluster that is picked next. -/
def pickedIndex (clusters : List (List Number)) (rng : UInt32) : Number :=
  ((mulberry32 rng).1.mul (.ofNat clusters.length)).floor

/-- Pick a cluster. -/
def Draw.pick (clusters : List (List Number)) (draw : Draw) : Draw :=
  let picked := (Number.itemAt clusters (pickedIndex clusters draw.rng)).getD []
  ⟨picked.foldl Number.add draw.total, draw.count + picked.length, (mulberry32 draw.rng).2⟩

/-- The mean of one resample, and the next state of the generator. -/
def resample (clusters : List (List Number)) (rng : UInt32) : Number × UInt32 :=
  let draw := (Draw.pick clusters)^[clusters.length] ⟨.ofNat 0, 0, rng⟩
  (if draw.count = 0 then .ofNat 0 else draw.total.div (.ofNat draw.count), draw.rng)

/-- The means of several resamples. -/
def resampleMeans (clusters : List (List Number)) : ℕ → UInt32 → List Number
  | 0, _ => []
  | n + 1, rng => (resample clusters rng).1 :: resampleMeans clusters n (resample clusters rng).2

/-- What a caller may set, with the defaults. -/
structure CompareOptions where
  /-- The level. -/
  alpha : Number := .ofRat (5 / 100)
  /-- The seed. -/
  seed : Number := .ofNat 0x5eed
  /-- How often to resample. -/
  resamples : ℕ := 10000

/-- Source: `intervals.ts`, `clusterBootstrapInterval` -/
structure BootstrapInterval where
  /-- The mean of the observations. -/
  estimate : Number
  /-- The lower bound; missing when nothing was resampled. -/
  lower : Option Number
  /-- The upper bound. -/
  upper : Option Number
  /-- How many clusters there are. -/
  clusters : ℕ

/-- Percentile interval from resampling clusters.
Source: `intervals.ts`, `clusterBootstrapInterval` -/
def clusterBootstrapInterval (observations : List Observation) (options : CompareOptions) :
    BootstrapInterval :=
  let groups := groupByCluster observations
  let estimate := mean (observations.map Observation.value)
  if groups.length < 2 then
    ⟨estimate, some (.ofNat 0), some (.ofNat 1), groups.length⟩
  else
    let means := Number.sortBy Number.sub
      (resampleMeans groups options.resamples options.seed.toUint32)
    let last := Number.ofInt ((means.length : ℤ) - 1)
    let half := options.alpha.div (.ofNat 2)
    ⟨estimate, Number.itemAt means (half.mul last).floor,
      Number.itemAt means (((Number.ofNat 1).sub half).mul last).ceil, groups.length⟩

/-! ## Clusters that are all the same -/

/-- The place of the cluster that is picked next is that of a cluster. -/
theorem exists_pickedIndex {clusters : List (List Number)} (hne : clusters ≠ [])
    (hlength : clusters.length < 2 ^ 20) (rng : UInt32) :
    ∃ i < clusters.length, pickedIndex clusters rng = .ofNat i := by
  obtain ⟨w, hw, hrng⟩ : ∃ w < 2 ^ 32,
      (mulberry32 rng).1 = (Number.ofNat w).div (.ofNat 4294967296) := ⟨_, UInt32.toNat_lt _, rfl⟩
  have hpos := List.length_pos_iff.mpr hne
  generalize hn : clusters.length = n at hpos hlength
  have hdouble : ∀ k : ℕ, k < 2 ^ 53 → IsDouble ((k : ℚ) / 4294967296) := by
    intro k hk
    refine ⟨k, -32, ?_, by norm_num, by norm_num, ?_⟩
    · rw [Nat.abs_cast]
      exact_mod_cast hk
    · rw [div_eq_mul_inv]
      norm_num
  have hw53 : w < 2 ^ 53 := by omega
  have hwn : w * n < 2 ^ 53 := by
    have := Nat.mul_lt_mul'' hw hlength
    norm_num at this ⊢
    omega
  have hunit : (mulberry32 rng).1 = .finite ⟨w / 4294967296, hdouble w hw53⟩ := by
    have habs : |(w : ℤ)| < 2 ^ 53 := by simpa using by exact_mod_cast hw53
    rw [hrng, Number.ofNat_eq_ofInt w, Number.div_ofInt habs (by norm_num) (by norm_num)]
    exact Number.ofRat_of_isDouble (hdouble w hw53)
  refine ⟨w * n / 4294967296, ?_, ?_⟩
  · rw [Nat.div_lt_iff_lt_mul (by norm_num), mul_comm n]
    exact Nat.mul_lt_mul_of_pos_right (by omega) hpos
  · have hproduct : (w : ℚ) / 4294967296 * n = (w * n : ℕ) / (4294967296 : ℕ) := by
      push_cast
      ring
    have hfloor := Number.floor_div (b := 4294967296) (by exact_mod_cast hdouble _ hwn)
    rw [pickedIndex, hunit, hn, Number.mul_ofNat (by positivity) (by omega), hproduct, hfloor]

/-- Clusters of one value, drawn any number of times. -/
theorem iterate_pick {n : ℕ} (hn : n ≠ 0) (hlength : n < 2 ^ 20) (rng : UInt32) {k : ℕ}
    (hk : k ≤ n) :
    ∃ rng', (Draw.pick (List.replicate n [Number.ofInt (-1)]))^[k] ⟨.ofNat 0, 0, rng⟩ =
      ⟨.ofInt (-k), k, rng'⟩ := by
  induction k with
  | zero => exact ⟨rng, rfl⟩
  | succ k ih =>
    obtain ⟨rng', hdraw⟩ := ih (Nat.le_of_succ_le hk)
    obtain ⟨i, hi, hindex⟩ := @exists_pickedIndex (List.replicate n [Number.ofInt (-1)])
      (by simpa using hn) (by simpa) rng'
    rw [List.length_replicate] at hi
    have hitem : Number.itemAt (List.replicate n [Number.ofInt (-1)]) (.ofNat i) =
        some [.ofInt (-1)] := by
      rw [Number.ofNat_eq (by omega)]
      simp [Number.itemAt, hi]
    have hsum := Number.add_ofInt (a := -k) (b := -1) (by simp; omega) (by norm_num)
    rw [Function.iterate_succ_apply', hdraw, Draw.pick, hindex, hitem]
    refine ⟨_, congrArg (Draw.mk · _ _) ?_⟩
    change (Number.ofInt (-k)).add (.ofInt (-1)) = _
    rw [hsum]
    push_cast
    congr 1
    ring

/-- The mean of a resample of them. -/
theorem resample_replicate {n : ℕ} (hn : n ≠ 0) (hlength : n < 2 ^ 20) (rng : UInt32) :
    (resample (List.replicate n [Number.ofInt (-1)]) rng).1 = .ofInt (-1) := by
  obtain ⟨rng', hdraw⟩ := iterate_pick hn hlength rng le_rfl
  have hn' : (n : ℚ) ≠ 0 := Nat.cast_ne_zero.mpr hn
  rw [resample, List.length_replicate, hdraw]
  dsimp only
  rw [if_neg hn, Number.div_ofInt (by simp; omega) (by omega) hn]
  push_cast
  rw [neg_div, div_self hn']
  simp [Number.ofInt]

/-- The means of all. -/
theorem resampleMeans_replicate {n : ℕ} (hn : n ≠ 0) (hlength : n < 2 ^ 20) (resamples : ℕ)
    (rng : UInt32) : resampleMeans (List.replicate n [Number.ofInt (-1)]) resamples rng =
      List.replicate resamples (.ofInt (-1)) := by
  induction resamples generalizing rng with
  | zero => rfl
  | succ resamples ih => rw [resampleMeans, resample_replicate hn hlength, ih, List.replicate_succ]

end AgentEval.Scoring
