import Mathlib.Algebra.Order.Floor.Ring
import Mathlib.Data.List.Sort
import AgentEval.Js.Decimal
import AgentEval.Js.Object

/-!
# Paired comparisons in exact arithmetic

`intervals.ts` and `comparison.ts` over the numbers of any ordered field, where sums do not depend
on the order of their terms. `Math.sqrt` is a parameter, and so is the generator behind the
resampling, of which `mulberry32` is one: what is used of it is that it starts from a seed and gives
numbers from `0` up to `1`.
-/

namespace AgentEval.Scoring.Exact

open Js

/-! ## `intervals.ts` -/

/-- One task's score, and the group it is correlated within.
Source: `intervals.ts`, `Observation` -/
structure Observation (F : Type) where
  /-- The score. -/
  value : F
  /-- The group; absent means its own cluster. -/
  cluster : Option JsString

/-- The key of the group of an observation. -/
def clusterKey {F : Type} (o : Observation F) (i : ℕ) : JsString :=
  o.cluster.getD (js "__singleton_" ++ natDigits i)

/-- A value put into its group. -/
def addToGroup {F : Type} (groups : List (JsString × List F)) (o : Observation F × ℕ) :
    List (JsString × List F) :=
  let key := clusterKey o.1 o.2
  setProp groups (key, (groups.lookup key).getD [] ++ [o.1.value])

/-- The values by group, in the order in which the groups come up.
Source: `intervals.ts`, `groupByCluster`; `comparison.ts`, `bootstrapPValue`, `groups` -/
def groupByCluster {F : Type} (observations : List (Observation F)) : List (List F) :=
  (observations.zipIdx.foldl addToGroup []).map Prod.snd

/-- A generator of numbers from `0` up to `1`, which starts from a seed.
Source: `intervals.ts` and `comparison.ts`, `mulberry32` -/
structure Generator (F : Type) [Field F] [LinearOrder F] where
  /-- Its states. -/
  State : Type
  /-- The state a seed gives. -/
  mulberry32 : F → State
  /-- The next number, and the state after it. -/
  next : State → F × State
  /-- No number is negative. -/
  next_nonneg : ∀ s, 0 ≤ (next s).1
  /-- No number reaches `1`. -/
  next_lt_one : ∀ s, (next s).1 < 1

/-- The remainder of a number without its fraction, modulo `2 ^ 32`: `seed >>> 0`. -/
def toUint32 {F : Type} [Field F] [LinearOrder F] [FloorRing F] (x : F) : UInt32 :=
  UInt32.ofNat ((if 0 ≤ x then ⌊x⌋ else ⌈x⌉) % 2 ^ 32).toNat

/-- The generator that is used.
Source: `intervals.ts` and `comparison.ts`, `mulberry32` -/
def mulberry32 {F : Type} [Field F] [LinearOrder F] [IsStrictOrderedRing F] [FloorRing F] :
    Generator F where
  State := UInt32
  mulberry32 seed := toUint32 seed
  next a :=
    let a := a + 0x6d2b79f5
    let t := (a ^^^ (a >>> 15)) * (1 ||| a)
    let t := (t + (t ^^^ (t >>> 7)) * (61 ||| t)) ^^^ t
    ((t ^^^ (t >>> 14)).toNat / 4294967296, a)
  next_nonneg _ := div_nonneg (Nat.cast_nonneg _) (by norm_num)
  next_lt_one _ := by
    rw [div_lt_one (by norm_num)]
    exact_mod_cast UInt32.toNat_lt _

/-- What a caller may set, with the defaults.
Source: `comparison.ts`, `pairedComparison` -/
structure CompareOptions (F : Type) [Field F] where
  /-- The level. -/
  alpha : F := 5 / 100
  /-- The seed. -/
  seed : F := 0x5eed
  /-- How often to resample. -/
  resamples : ℕ := 10000

/-- What was drawn of a resample so far. -/
structure Draw (F S : Type) where
  /-- The sum of the values. -/
  total : F
  /-- How many there are. -/
  count : ℕ
  /-- The state of the generator. -/
  rng : S

/-- `xs[i]`. -/
def itemAt {α : Type} (xs : List α) (i : ℤ) : Option α := if i < 0 then none else xs[i.toNat]?

section

variable {F : Type} [Field F]

/-- Source: `intervals.ts`, `mean` -/
def mean (values : List F) : F := if values.isEmpty then 0 else values.sum / values.length

variable [LinearOrder F] [FloorRing F] (generator : Generator F)

/-- Pick a cluster. -/
def Draw.pick (clusters : List (List F)) (draw : Draw F generator.State) :
    Draw F generator.State :=
  let picked := (itemAt clusters ⌊(generator.next draw.rng).1 * clusters.length⌋).getD []
  ⟨draw.total + picked.sum, draw.count + picked.length, (generator.next draw.rng).2⟩

/-- The mean of one resample, and the state after it. -/
def resample (clusters : List (List F)) (rng : generator.State) : F × generator.State :=
  let draw := (Draw.pick generator clusters)^[clusters.length] ⟨0, 0, rng⟩
  (if draw.count = 0 then 0 else draw.total / draw.count, draw.rng)

/-- The means of several resamples.
Source: `intervals.ts`, `clusterBootstrapInterval`, `means` -/
def resampleMeans (clusters : List (List F)) : ℕ → generator.State → List F
  | 0, _ => []
  | n + 1, rng =>
    (resample generator clusters rng).1 ::
      resampleMeans clusters n (resample generator clusters rng).2

/-- How many means of several resamples are not positive, and how many not negative.
Source: `comparison.ts`, `bootstrapPValue`, `atOrBelowZero` and `atOrAboveZero` -/
def countTails (clusters : List (List F)) : ℕ → generator.State → ℕ × ℕ → ℕ × ℕ
  | 0, _, tails => tails
  | n + 1, rng, tails =>
    let m := (resample generator clusters rng).1
    countTails clusters n (resample generator clusters rng).2
      (if m ≤ 0 then tails.1 + 1 else tails.1, if 0 ≤ m then tails.2 + 1 else tails.2)

/-- Source: `intervals.ts`, `clusterBootstrapInterval` -/
structure BootstrapInterval (F : Type) where
  /-- The mean of the observations. -/
  estimate : F
  /-- The lower bound; missing when the index is not one. -/
  lower : Option F
  /-- The upper bound. -/
  upper : Option F
  /-- How many clusters there are. -/
  clusters : ℕ

/-- Percentile interval from resampling clusters.
Source: `intervals.ts`, `clusterBootstrapInterval` -/
def clusterBootstrapInterval (observations : List (Observation F)) (options : CompareOptions F) :
    BootstrapInterval F :=
  let groups := groupByCluster observations
  let estimate := mean (observations.map Observation.value)
  if groups.length < 2 then ⟨estimate, some 0, some 1, groups.length⟩
  else
    let rng := generator.mulberry32 options.seed
    let means := (resampleMeans generator groups options.resamples rng).mergeSort
      fun a b => !decide (0 < a - b)
    let lowerIndex := ⌊options.alpha / 2 * ((means.length : F) - 1)⌋
    let upperIndex := ⌈(1 - options.alpha / 2) * ((means.length : F) - 1)⌉
    ⟨estimate, itemAt means lowerIndex, itemAt means upperIndex, groups.length⟩

/-! ## `comparison.ts` -/

/-- Source: `comparison.ts`, `TaskScore` -/
structure TaskScore (F : Type) where
  /-- The task. -/
  taskId : JsString
  /-- The score. -/
  value : F
  /-- Correlation group. -/
  cluster : Option JsString

/-- Source: `comparison.ts`, `ModelScores` -/
structure ModelScores (F : Type) where
  /-- The model. -/
  model : JsString
  /-- Its scores. -/
  scores : List (TaskScore F)

/-- Source: `comparison.ts`, `PairedComparison` -/
structure PairedComparison (F : Type) where
  /-- One model. -/
  a : JsString
  /-- The other. -/
  b : JsString
  /-- Mean of `a - b` over the shared tasks. -/
  difference : F
  /-- Lower bound of the interval. -/
  lower : Option F
  /-- Upper bound of it. -/
  upper : Option F
  /-- Two-sided, before correction. -/
  pValue : F
  /-- How many tasks are shared. -/
  tasksCompared : ℕ
  /-- Correlation of the scores. -/
  correlation : F
  /-- Whether the difference is significant, where that is known. -/
  significant : Option Bool

/-- The tasks both models attempted, with both scores; of a task that occurs twice in `b` the last
score counts.
Source: `comparison.ts`, `pairedComparison` -/
def sharedTasks {F : Type} (a b : ModelScores F) : List (TaskScore F × TaskScore F) :=
  let bByTask := fromEntries (b.scores.map fun s => (s.taskId, s))
  a.scores.filterMap fun s => (bByTask.lookup s.taskId).map (s, ·)

omit [LinearOrder F] [FloorRing F] in
/-- The differences of the shared tasks.
Source: `comparison.ts`, `pairedComparison` -/
def differences (shared : List (TaskScore F × TaskScore F)) : List (Observation F) :=
  shared.map fun p => ⟨p.1.value - p.2.value, p.1.cluster⟩

/-- Two-sided bootstrap p-value for "the mean difference is zero".
Source: `comparison.ts`, `bootstrapPValue` -/
def bootstrapPValue (differences : List (Observation F)) (options : CompareOptions F) : F :=
  let clusters := groupByCluster differences
  if clusters.length < 2 then 1
  else
    let rng := generator.mulberry32 options.seed
    let tails := countTails generator clusters options.resamples rng (0, 0)
    let smallerTail := (min tails.1 tails.2 : ℕ) / (options.resamples : F)
    min 1 (max (1 / options.resamples) (2 * smallerTail))

omit [FloorRing F] in
/-- Correlation of two lists of scores.
Source: `comparison.ts`, `pearson` -/
def pearson (sqrt : F → F) (x y : List F) : F :=
  let n := x.length
  if n < 2 then 0
  else
    let mx := x.sum / n
    let my := y.sum / n
    let deviations := (x.zip y).map fun p => (p.1 - mx, p.2 - my)
    let sxy := (deviations.map fun d => d.1 * d.2).sum
    let sxx := (deviations.map fun d => d.1 * d.1).sum
    let syy := (deviations.map fun d => d.2 * d.2).sum
    if sxx = 0 ∨ syy = 0 then 0 else sxy / sqrt (sxx * syy)

/-- Compare two models on the tasks they both attempted.
Source: `comparison.ts`, `pairedComparison` -/
def pairedComparison (sqrt : F → F) (options : CompareOptions F) (a b : ModelScores F) :
    PairedComparison F :=
  let shared := sharedTasks a b
  if shared.isEmpty then
    { a := a.model, b := b.model, difference := 0, lower := some 0, upper := some 0, pValue := 1,
      tasksCompared := 0, correlation := 0, significant := some false }
  else
    let boot := clusterBootstrapInterval generator (differences shared) options
    { a := a.model, b := b.model, difference := boot.estimate, lower := boot.lower,
      upper := boot.upper, pValue := bootstrapPValue generator (differences shared) options,
      tasksCompared := shared.length,
      correlation := pearson sqrt (shared.map (·.1.value)) (shared.map (·.2.value)),
      significant := none }

end

end AgentEval.Scoring.Exact
