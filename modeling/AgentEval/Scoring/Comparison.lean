import AgentEval.Scoring.Intervals

/-!
# `scoring/comparison.ts`: paired comparisons, Holm's correction, tiers

Two models are compared on the tasks both attempted. The p-values of all pairs are corrected
together, and the models are grouped into tiers in the order of their overall means. `Math.sqrt` is
a parameter.
-/

namespace AgentEval.Scoring

open Js

/-- Source: `comparison.ts`, `TaskScore` -/
structure TaskScore where
  /-- The task. -/
  taskId : JsString
  /-- The score. -/
  value : Number
  /-- Correlation group. -/
  cluster : Option JsString

/-- Source: `comparison.ts`, `ModelScores` -/
structure ModelScores where
  /-- The model. -/
  model : JsString
  /-- Its scores. -/
  scores : List TaskScore

/-- Source: `comparison.ts`, `PairedComparison` -/
structure PairedComparison where
  /-- One model. -/
  a : JsString
  /-- The other. -/
  b : JsString
  /-- Mean of `a - b` over the shared tasks. -/
  difference : Number
  /-- Lower bound of the interval. -/
  lower : Option Number
  /-- Upper bound of it. -/
  upper : Option Number
  /-- Two-sided, before correction. -/
  pValue : Number
  /-- After correction across the whole family. -/
  adjustedPValue : Option Number
  /-- How many tasks are shared. -/
  tasksCompared : ℕ
  /-- Correlation of the scores. -/
  correlation : Number
  /-- Whether the difference is significant. -/
  significant : Option Bool

/-- The tasks both models attempted, with both scores; of a task that occurs twice in `b` the last
score counts.
Source: `comparison.ts`, `pairedComparison` -/
def sharedTasks (a b : ModelScores) : List (TaskScore × TaskScore) :=
  let bByTask := fromEntries (b.scores.map fun s => (s.taskId, s))
  a.scores.filterMap fun s => (bByTask.lookup s.taskId).map (s, ·)

/-- The differences of the shared tasks.
Source: `comparison.ts`, `pairedComparison` -/
def differences (shared : List (TaskScore × TaskScore)) : List Observation :=
  shared.map fun p => ⟨p.1.value.sub p.2.value, p.1.cluster⟩

/-- Two-sided bootstrap p-value for "the mean difference is zero".
Source: `comparison.ts`, `bootstrapPValue` -/
def bootstrapPValue (differences : List Observation) (options : CompareOptions) : Number :=
  let clusters := groupByCluster differences
  if clusters.length < 2 then .ofNat 1
  else
    let means := resampleMeans clusters options.resamples options.seed.toUint32
    let atOrBelowZero := means.countP fun m => m.le (.ofNat 0)
    let atOrAboveZero := means.countP fun m => (Number.ofNat 0).le m
    let resamples := Number.ofNat options.resamples
    let smallerTail := ((Number.ofNat atOrBelowZero).min (.ofNat atOrAboveZero)).div resamples
    (Number.ofNat 1).min (((Number.ofNat 1).div resamples).max ((Number.ofNat 2).mul smallerTail))

/-- Correlation of two lists of scores.
Source: `comparison.ts`, `pearson` -/
def pearson (sqrt : Number → Number) (x y : List Number) : Number :=
  let n := Number.ofNat x.length
  if x.length < 2 then .ofNat 0
  else
    let mx := (Number.sum x).div n
    let my := (Number.sum y).div n
    let deviations := (x.zip y).map fun p => (p.1.sub mx, p.2.sub my)
    let sxy := Number.sum (deviations.map fun d => d.1.mul d.2)
    let sxx := Number.sum (deviations.map fun d => d.1.mul d.1)
    let syy := Number.sum (deviations.map fun d => d.2.mul d.2)
    if sxx.eq (.ofNat 0) || syy.eq (.ofNat 0) then .ofNat 0 else sxy.div (sqrt (sxx.mul syy))

/-- Compare two models on the tasks they both attempted.
Source: `comparison.ts`, `pairedComparison` -/
def pairedComparison (sqrt : Number → Number) (options : CompareOptions) (a b : ModelScores) :
    PairedComparison :=
  let shared := sharedTasks a b
  if shared.isEmpty then
    { a := a.model, b := b.model, difference := .ofNat 0, lower := some (.ofNat 0),
      upper := some (.ofNat 0), pValue := .ofNat 1, adjustedPValue := none, tasksCompared := 0,
      correlation := .ofNat 0, significant := some false }
  else
    let boot := clusterBootstrapInterval (differences shared) options
    { a := a.model, b := b.model, difference := boot.estimate, lower := boot.lower,
      upper := boot.upper, pValue := bootstrapPValue (differences shared) options,
      adjustedPValue := none, tasksCompared := shared.length,
      correlation := pearson sqrt (shared.map (·.1.value)) (shared.map (·.2.value)),
      significant := none }

/-- One adjusted value: the largest scaled value so far, and the values with it at its place.
Source: `comparison.ts`, `holmAdjust` -/
def holmStep (m : ℕ) (state : Number × List Number) (entry : (Number × ℕ) × ℕ) :
    Number × List Number :=
  let running := state.1.max ((Number.ofNat (m - entry.2)).mul entry.1.1)
  (running, state.2.set entry.1.2 ((Number.ofNat 1).min running))

/-- Holm-Bonferroni step-down correction, in the original order.
Source: `comparison.ts`, `holmAdjust` -/
def holmAdjust (pValues : List Number) : List Number :=
  let indexed := Number.sortBy (fun x y : Number × ℕ => x.1.sub y.1) pValues.zipIdx
  (indexed.zipIdx.foldl (holmStep pValues.length)
    (.ofNat 0, List.replicate pValues.length .nan)).2

/-- Source: `comparison.ts`, `Tier` -/
structure Tier where
  /-- Its place. -/
  rank : ℕ
  /-- Its members. -/
  models : List JsString
  /-- The lowest estimate. -/
  low : Number
  /-- The highest. -/
  high : Number

/-- Source: `comparison.ts`, `Ranking.estimates` -/
structure Estimate where
  /-- The model. -/
  model : JsString
  /-- Its overall mean. -/
  estimate : Number

/-- Source: `comparison.ts`, `Ranking` -/
structure Ranking where
  /-- The tiers, best first. -/
  tiers : List Tier
  /-- All pairs. -/
  comparisons : List PairedComparison
  /-- Point estimate per model. -/
  estimates : List Estimate
  /-- What the tiering does. -/
  methodology : JsString

/-- Source: `comparison.ts`, `buildTier` -/
def buildTier (rank : ℕ) (models : List JsString) (estimates : List Estimate) : Tier :=
  let values := models.map fun m =>
    (estimates.find? fun e => e.model == m).elim .nan Estimate.estimate
  ⟨rank, models, values.foldl Number.min (.infinity false),
    values.foldl Number.max (.infinity true)⟩

/-- The models by overall mean, highest first.
Source: `comparison.ts`, `rankModels` -/
def estimatesOf (models : List ModelScores) : List Estimate :=
  Number.sortBy (fun a b => b.estimate.sub a.estimate)
    (models.map fun m => ⟨m.model, mean (m.scores.map TaskScore.value)⟩)

/-- `byName.get(name)`, for the name of a model.
Source: `comparison.ts`, `rankModels` -/
def byName (models : List ModelScores) (name : JsString) : ModelScores :=
  ((fromEntries (models.map fun m => (m.model, m))).lookup name).getD ⟨name, []⟩

/-- Every unordered pair.
Source: `comparison.ts`, `rankModels` -/
def allPairs (compare : JsString → JsString → PairedComparison) :
    List JsString → List PairedComparison
  | [] => []
  | name :: names => names.map (compare name) ++ allPairs compare names

/-- All comparisons, corrected together.
Source: `comparison.ts`, `rankModels` -/
def comparisonsOf (sqrt : Number → Number) (options : CompareOptions) (models : List ModelScores) :
    List PairedComparison :=
  let comparisons := allPairs
    (fun x y => pairedComparison sqrt options (byName models x) (byName models y))
    ((estimatesOf models).map Estimate.model)
  let adjusted := holmAdjust (comparisons.map PairedComparison.pValue)
  comparisons.zipWith (fun c p =>
    { c with adjustedPValue := some p, significant := some (p.lt options.alpha) }) adjusted

/-- Source: `comparison.ts`, `rankModels`, `significantAgainstLeader` -/
def significantAgainstLeader (comparisons : List PairedComparison) (leader candidate : JsString) :
    Bool :=
  comparisons.any fun c => c.significant == some true &&
    (c.a == leader && c.b == candidate || c.a == candidate && c.b == leader)

/-- The variables of the loop over the models. -/
structure TierLoop where
  /-- The tiers that are closed. -/
  tiers : List Tier
  /-- The models of the open one. -/
  current : List JsString
  /-- Its leader. -/
  leader : Option JsString

/-- One model.
Source: `comparison.ts`, `rankModels` -/
def TierLoop.step (comparisons : List PairedComparison) (estimates : List Estimate)
    (loop : TierLoop) (model : JsString) : TierLoop :=
  match loop.leader with
  | none => { loop with leader := some model, current := [model] }
  | some leader =>
    if significantAgainstLeader comparisons leader model then
      { tiers := loop.tiers ++ [buildTier (loop.tiers.length + 1) loop.current estimates]
        leader := some model
        current := [model] }
    else { loop with current := loop.current ++ [model] }

/-- Group models into tiers.
Source: `comparison.ts`, `rankModels` -/
def rankModels (sqrt : Number → Number) (options : CompareOptions) (models : List ModelScores) :
    Ranking :=
  let estimates := estimatesOf models
  let comparisons := comparisonsOf sqrt options models
  let loop := (estimates.map Estimate.model).foldl (TierLoop.step comparisons estimates)
    ⟨[], [], none⟩
  { tiers := if loop.current.isEmpty then loop.tiers
      else loop.tiers ++ [buildTier (loop.tiers.length + 1) loop.current estimates]
    comparisons := comparisons
    estimates := estimates
    methodology :=
      js "Models are grouped into tiers of statistically indistinguishable performance. " ++
      js "Comparisons are paired on the shared task set, intervals come from resampling " ++
      js "clusters, and all " ++ natDigits comparisons.length ++
      js " pairwise p-values are Holm-corrected at alpha = " ++ options.alpha.toString ++
      js ". A model joins the current tier unless it is significantly worse than that tier's " ++
      js "highest-scoring member. Note that statistical indistinguishability is not transitive, " ++
      js "so tier boundaries depend on this stated rule; models within a tier are not ordered, " ++
      js "because the data does not order them." }

end AgentEval.Scoring
