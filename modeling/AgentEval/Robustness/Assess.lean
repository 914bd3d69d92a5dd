import AgentEval.Js.Date
import AgentEval.Robustness.Fuzzer

/-!
# `robustness/assess.ts`: how much reward a grader pays for nothing

The assessment is a dialogue with a grader and an oracle. It grades one pair several times, then each
task's canaries, its rewritten reference and a search from its canaries, and makes a report of what it
found. Loop bounds (`repeats`, `determinismSamples`) are whole numbers here.

* `gradeOnce`, `gradeRepeated` — a call of the grader, where one is left.
* `testCanary`, `testPerturbation`, `fuzzTask` — the probes; `assessTask` — what they say of a task.
* `buildLimitations`, `assertNoOverclaim` — what a report has to admit.
* `assessVerifier` — the assessment.
-/

namespace AgentEval.Robustness

open Js

/-! ## What is assessed, and how -/

/-- Source: `robustness/types.ts`, `Canary` -/
structure Canary (T S : Type) where
  /-- The channel. -/
  id : JsString
  /-- The attack this stands in for. -/
  rationale : JsString
  /-- A submission that does not solve the task, where there is one. -/
  build : T → Option S

/-- Source: `robustness/types.ts`, `Perturbation` -/
structure Perturbation (T S : Type) where
  /-- The channel. -/
  name : JsString
  /-- Why a grader should not mind. -/
  rationale : JsString
  /-- What that rests on. -/
  assumption : Option JsString
  /-- The rewriting, where it applies. -/
  apply : T → S → Option (T × S)

/-- Source: `assess.ts`, `AssessOptions.fuzz` -/
structure FuzzConfig (S : Type) where
  mutators : List (Mutator S)
  maxGraderCallsPerTask : Option Number
  maxStepsPerSeed : Option Number

/-- Source: `assess.ts`, `AssessOptions` -/
structure AssessOptions (T S : Type) where
  suiteId : JsString
  tasks : List T
  taskId : T → JsString
  canaries : List (Canary T S)
  perturbations : List (Perturbation T S)
  /-- A submission that is believed to solve a task. -/
  referenceSubmission : Option (T → Option S)
  /-- There is an oracle. -/
  oracle : Bool
  /-- Grades for each probe. -/
  repeats : Option ℕ
  /-- Grades of one pair. -/
  determinismSamples : Option ℕ
  /-- Reward above which a canary was paid. -/
  rewardThreshold : Option Number
  /-- Calls that are allowed. -/
  maxGraderCalls : Option Number
  fuzz : Option (FuzzConfig S)

/-! ## What is reported -/

/-- Source: `robustness/types.ts`, `ChannelStatus` -/
inductive ChannelStatus where
  /-- Paid for a submission that does not solve the task. -/
  | opened
  /-- Paid, and it is not known whether the task was solved. -/
  | suspected
  /-- Tested and not paid. -/
  | closed
  /-- Not tested. -/
  | notTested
  deriving DecidableEq

/-- The text of a status. -/
def ChannelStatus.text : ChannelStatus → JsString
  | opened => js "open"
  | suspected => js "suspected"
  | closed => js "closed"
  | notTested => js "not-tested"

/-- Source: `robustness/types.ts`, `Finding` -/
structure Finding where
  channel : JsString
  status : ChannelStatus
  reward : Number
  solve : Option Number
  gap : Option Number
  rewardStdDev : Number
  repeats : ℕ
  caveat : Option JsString
  detail : Option JsString

/-- Source: `robustness/types.ts`, `TaskAssessment` -/
structure TaskAssessment where
  taskId : JsString
  canaryFindings : List Finding
  perturbationFindings : List Finding
  fuzzFinding : Option Finding
  worstGap : Option Number
  openChannels : List JsString

/-- How often a channel had each status.
Source: `robustness/types.ts`, `RobustnessReport.channelSummary` -/
structure ChannelCount where
  channel : JsString
  opened : ℕ
  suspected : ℕ
  closed : ℕ
  notTested : ℕ

/-- Source: `robustness/types.ts`, `RobustnessReport.gapDistribution` -/
structure GapDistribution where
  median : Option Number
  p95 : Option Number
  max : Option Number
  measured : ℕ

/-- Source: `robustness/types.ts`, `RobustnessReport` -/
structure RobustnessReport where
  suiteId : JsString
  assessedAt : JsString
  taskCount : ℕ
  graderCalls : ℕ
  gameability : Proportion Number
  surfaceSensitivity : Proportion Number
  nondeterministic : Bool
  gapDistribution : GapDistribution
  perTask : List TaskAssessment
  channelSummary : List ChannelCount
  limitations : List JsString

/-- What established the gap.
Source: `assess.ts`, `VerifierAssessment.exploitableGapBasis` -/
inductive GapBasis where
  | measuredWithOracle
  | canaryConstruction
  | notEstablished
  deriving DecidableEq

/-- Source: `assess.ts`, `VerifierAdjustment` -/
structure VerifierAdjustment where
  exploitableGap : Number
  surfaceNoise : Number
  basis : JsString

/-- Source: `assess.ts`, `VerifierAssessment`, less the texts of its constant mapping -/
structure VerifierAssessment where
  report : RobustnessReport
  exploitableGap : Number
  exploitableGapBasis : GapBasis
  surfaceNoise : Number
  verifierConfidence : Number
  adjustment : VerifierAdjustment

/-! ## Calls of the grader -/

section

variable {T S : Type} (sqrt : Number → Number) (options : AssessOptions T S)

/-- `rewardThreshold = 0` -/
def AssessOptions.threshold : Number := options.rewardThreshold.getD (.ofNat 0)

/-- `maxGraderCalls = Number.POSITIVE_INFINITY` -/
def AssessOptions.limit : Number := options.maxGraderCalls.getD (.infinity false)

/-- What the assessment keeps from probe to probe. -/
structure Progress where
  graderCalls : ℕ
  budgetExhausted : Bool
  surfaceDeltas : List Number
  anyOracleConfirmedGap : Bool
  anyCanaryGap : Bool

/-- A conversation with the grader and the oracle. -/
abbrev Probing (T S α : Type) := Dialogue (T × Question S) Number α

/-- One call, unless none is left.
Source: `assess.ts`, `gradeOnce` -/
def gradeOnce (task : T) (submission : S) (st : Progress) : Probing T S (Option Number × Progress) :=
  if options.limit.le (.ofNat st.graderCalls) then return (none, { st with budgetExhausted := true })
  else do
    let reward ← Dialogue.put (task, .grade submission)
    return (some (clamp01 reward), { st with graderCalls := st.graderCalls + 1 })

/-- So many calls, or as many as are left.
Source: `assess.ts`, the loops of `gradeRepeated` and of the determinism probe -/
def gradeTimes (task : T) (submission : S) :
    ℕ → List Number → Progress → Probing T S (List Number × Progress)
  | 0, rewards, st => return (rewards, st)
  | n + 1, rewards, st => do
    let (reward, st) ← gradeOnce options task submission st
    match reward with
    | none => return (rewards, st)
    | some reward => gradeTimes task submission n (rewards ++ [reward]) st

/-- What several grades come to.
Source: `assess.ts`, `gradeRepeated` -/
structure Graded where
  mean : Number
  stdDev : Number
  repeats : ℕ

/-- Source: `assess.ts`, `gradeRepeated` -/
def gradeRepeated (task : T) (submission : S) (st : Progress) :
    Probing T S (Option Graded × Progress) := do
  let (rewards, st) ← gradeTimes options task submission (max 1 (options.repeats.getD 1)) [] st
  if rewards.isEmpty then return (none, st)
  else return (some ⟨mean rewards, stdDev sqrt rewards, rewards.length⟩, st)

/-- The pair that is graded again and again.
Source: `assess.ts`, `probeSubmission` -/
def AssessOptions.probeSubmission (task : T) : Option S :=
  (options.referenceSubmission.bind fun reference => reference task) <|>
    options.canaries.head?.bind fun canary => canary.build task

/-- Whether the same pair is graded differently.
Source: `assess.ts`, `assessVerifier`, the determinism probe -/
def probeDeterminism (st : Progress) : Probing T S (Bool × Progress) :=
  match options.tasks.head? with
  | none => return (false, st)
  | some task =>
    if options.determinismSamples.getD 3 ≤ 1 then return (false, st)
    else
      match options.probeSubmission task with
      | none => return (false, st)
      | some submission => do
        let (observed, st) ← gradeTimes options task submission (options.determinismSamples.getD 3) [] st
        return (decide (1 < observed.length) && (Number.ofNat 0).lt (stdDev sqrt observed), st)

/-! ## The probes -/

/-- A finding of a probe that did not run. -/
def Finding.untested (channel : JsString) (reward : Number) (caveat : JsString) : Finding where
  channel := channel
  status := .notTested
  reward := reward
  solve := none
  gap := none
  rewardStdDev := .ofNat 0
  repeats := 0
  caveat := some caveat
  detail := none

/-- The finding of a canary that was graded.
Source: `assess.ts`, `assessVerifier`, the loop over the canaries -/
def Finding.ofCanary (canary : Canary T S) (graded : Graded) (paid : Bool) : Finding where
  channel := canary.id
  status := if paid then .opened else .closed
  reward := graded.mean
  solve := some (.ofNat 0)
  gap := some graded.mean
  rewardStdDev := graded.stdDev
  repeats := graded.repeats
  caveat := if paid then
      some (js "Reward " ++ graded.mean.toFixed 3 ++
        js " was paid for a submission that does not " ++ js "solve the task. " ++ canary.rationale)
    else none
  detail := none

/-- Source: `assess.ts`, `assessVerifier`, the loop over the canaries -/
def testCanary (task : T) (canary : Canary T S) (st : Progress) : Probing T S (Finding × Progress) :=
  match canary.build task with
  | none => return (.untested canary.id (.ofNat 0)
      (js "This canary does not apply to this task, so the channel was not " ++
        js "exercised. Not evidence that it is shut."), st)
  | some submission => do
    let (graded, st) ← gradeRepeated sqrt options task submission st
    match graded with
    | none => return (.untested canary.id (.ofNat 0)
        (js "Grader-call budget was exhausted before this canary ran."), st)
    | some graded =>
      let paid := options.threshold.lt graded.mean
      return (.ofCanary canary graded paid, { st with anyCanaryGap := st.anyCanaryGap || paid })

/-- The caveat of a reward that moved. -/
def movedCaveat (perturbation : Perturbation T S) (delta : Number) : JsString :=
  js "Reward moved by " ++ delta.toFixed 3 ++ js " under a rewrite that cannot change " ++
    js "whether the task was solved. " ++ perturbation.rationale ++
    match perturbation.assumption with
    | none => []
    | some [] => []
    | some (u :: us) => js " Assumes: " ++ (u :: us)

/-- The finding of a rewriting that was graded.
Source: `assess.ts`, `assessVerifier`, the loop over the perturbations -/
def Finding.ofPerturbation (perturbation : Perturbation T S) (baseline after : Graded)
    (delta : Number) (moved : Bool) : Finding where
  channel := perturbation.name
  status := if moved then .opened else .closed
  reward := after.mean
  solve := none
  gap := none
  rewardStdDev := after.stdDev
  repeats := after.repeats
  caveat := if moved then some (movedCaveat perturbation delta) else none
  detail := some (js "baseline " ++ baseline.mean.toFixed 3 ++ js " -> " ++ after.mean.toFixed 3)

/-- Source: `assess.ts`, `assessVerifier`, the loop over the perturbations -/
def testPerturbation (task : T) (reference : S) (baseline : Option Graded)
    (perturbation : Perturbation T S) (st : Progress) : Probing T S (Finding × Progress) :=
  match baseline, perturbation.apply task reference with
  | none, _ => return (.untested perturbation.name (.ofNat 0)
      (js "Grader-call budget was exhausted before the baseline was graded."), st)
  | some baseline, none => return (.untested perturbation.name baseline.mean
      (js "This rewrite does not apply to this task and submission."), st)
  | some baseline, some (task', submission') => do
    let (after, st) ← gradeRepeated sqrt options task' submission' st
    match after with
    | none => return (.untested perturbation.name baseline.mean
        (js "Grader-call budget was exhausted before the rewrite was graded."), st)
    | some after =>
      let delta := (after.mean - baseline.mean).abs
      return (.ofPerturbation perturbation baseline after delta ((Number.ofNat 0).lt delta),
        { st with surfaceDeltas := st.surfaceDeltas ++ [delta] })

/-- One probe after the other. -/
def collect {A B : Type} (probe : A → Progress → Probing T S (B × Progress)) :
    List A → Progress → Probing T S (List B × Progress)
  | [], st => return ([], st)
  | a :: as, st => do
    let (b, st) ← probe a st
    let (bs, st) ← collect probe as st
    return (b :: bs, st)

/-- Source: `assess.ts`, `assessVerifier`, the perturbations of a task -/
def testPerturbations (task : T) (st : Progress) : Probing T S (List Finding × Progress) :=
  match options.referenceSubmission.bind fun reference => reference task with
  | none => return (options.perturbations.map fun perturbation =>
      .untested perturbation.name (.ofNat 0)
        (js "No reference submission for this task, so there was nothing to hold " ++
          js "invariant. Surface sensitivity is unknown, not absent."), st)
  | some reference => do
    let (baseline, st) ← gradeRepeated sqrt options task reference st
    collect (testPerturbation sqrt options task reference baseline) options.perturbations st

/-- The canaries of a task, as seeds.
Source: `assess.ts`, `assessVerifier`, `seeds` -/
def AssessOptions.seeds (task : T) : List (FuzzSeed S) :=
  options.canaries.filterMap fun canary => (canary.build task).map fun submission =>
    ⟨canary.id, submission, true⟩

/-- The search of a task, with the calls that are left to it.
Source: `assess.ts`, `assessVerifier`, the call of `fuzzGrader` -/
def AssessOptions.fuzzOptions (fuzz : FuzzConfig S) (task : T) (graderCalls : ℕ) : FuzzOptions S where
  seeds := options.seeds task
  mutators := fuzz.mutators
  maxGraderCalls :=
    (fuzz.maxGraderCallsPerTask.getD (.ofNat 40)).min (options.limit - .ofNat graderCalls)
  maxStepsPerSeed := fuzz.maxStepsPerSeed
  oracle := options.oracle
  rewardFloor := none

/-- An independent measurement says that the gap is one. -/
def FuzzPoint.confirmed (best : FuzzPoint S) : Bool := !best.gapIsAssumed && best.solve.isSome

/-- Source: `assess.ts`, `assessVerifier`, `fuzzFinding` -/
def FuzzPoint.finding (best : FuzzPoint S) : Finding where
  channel := js "fuzz"
  status := if best.confirmed then .opened else .suspected
  reward := best.reward
  solve := best.solve
  gap := some best.gap
  rewardStdDev := .ofNat 0
  repeats := 1
  caveat := some (if best.confirmed then
      js "Reward " ++ best.reward.toFixed 3 ++ js " against an independently " ++
        js "measured solve of " ++ (best.solve.getD (.ofNat 0)).toFixed 3 ++ js "."
    else
      js "Reward was paid to a mutation of a non-solving seed, but no oracle " ++
        js "confirmed the mutation did not accidentally solve the task. " ++
        js "Reported as suspected rather than open.")
  detail := some (js "via " ++ (js " -> ").intercalate best.lineage)

/-- Source: `assess.ts`, `assessVerifier`, the fuzzing of a task -/
def fuzzTask (task : T) (st : Progress) : Probing T S (Option Finding × Progress) :=
  match options.fuzz with
  | none => return (none, st)
  | some fuzz =>
    if !(Number.ofNat st.graderCalls).lt options.limit then return (none, st)
    else if (options.seeds task).isEmpty then return (none, st)
    else do
      let result ← fuzzGrader (Prod.mk task) (options.fuzzOptions fuzz task st.graderCalls)
      let st := { st with graderCalls := st.graderCalls + result.graderCalls }
      match result.best with
      | none => return (none, st)
      | some best =>
        if options.threshold.lt best.gap then
          return (some best.finding,
            { st with anyOracleConfirmedGap := st.anyOracleConfirmedGap || best.confirmed })
        else return (none, st)

/-- The positive gaps among some findings.
Source: `assess.ts`, `assessVerifier`, `gaps` -/
def gapsOf (findings : List Finding) : List Number :=
  (findings.filterMap Finding.gap).filter (Number.ofNat 0).lt

/-- What the probes of a task say.
Source: `assess.ts`, `assessVerifier`, the entry of `perTask` -/
def TaskAssessment.of (taskId : JsString) (canaryFindings perturbationFindings : List Finding)
    (fuzzFinding : Option Finding) : TaskAssessment where
  taskId := taskId
  canaryFindings := canaryFindings
  perturbationFindings := perturbationFindings
  fuzzFinding := fuzzFinding
  worstGap :=
    let gaps := gapsOf (canaryFindings ++ fuzzFinding.toList)
    if gaps.isEmpty then none else some (Number.maxOf gaps)
  openChannels := ((canaryFindings ++ fuzzFinding.toList).filter fun f =>
    f.status = .opened).map Finding.channel

/-- Source: `assess.ts`, `assessVerifier`, the loop over the tasks -/
def assessTask (task : T) (st : Progress) : Probing T S (TaskAssessment × Progress) := do
  let (canaryFindings, st) ← collect (testCanary sqrt options task) options.canaries st
  let (perturbationFindings, st) ← testPerturbations sqrt options task st
  let (fuzzFinding, st) ← fuzzTask options task st
  return (.of (options.taskId task) canaryFindings perturbationFindings fuzzFinding, st)

end

/-! ## The report -/

/-- The findings of a task. -/
def TaskAssessment.findings (t : TaskAssessment) : List Finding :=
  t.canaryFindings ++ t.perturbationFindings ++ t.fuzzFinding.toList

/-- The channels that were looked at, in the order of their first findings.
Source: `assess.ts`, `assessVerifier`, `channelNames` -/
def channelNames (perTask : List TaskAssessment) : List JsString :=
  (perTask.flatMap fun t => (t.canaryFindings ++ t.perturbationFindings).map Finding.channel ++
    t.fuzzFinding.toList.map fun _ => js "fuzz").eraseDups

/-- Source: `assess.ts`, `assessVerifier`, the entry of `channelSummary` -/
def ChannelCount.of (perTask : List TaskAssessment) (channel : JsString) : ChannelCount :=
  let all := perTask.flatMap fun t => t.findings.filter fun f => f.channel = channel
  { channel := channel
    opened := all.countP fun f => f.status = .opened
    suspected := all.countP fun f => f.status = .suspected
    closed := all.countP fun f => f.status = .closed
    notTested := all.countP fun f => f.status = .notTested }

/-- Most open first.
Source: `assess.ts`, `assessVerifier`, `channelSummary` -/
def channelSummary (perTask : List TaskAssessment) : List ChannelCount :=
  ((channelNames perTask).map (.of perTask)).mergeSort fun a b => decide (b.opened ≤ a.opened)

/-- Source: `assess.ts`, `buildLimitations` -/
def limitationNoOracle : JsString :=
  js "No solution oracle was supplied. Canary gaps are established by " ++
    js "construction and are sound, but fuzzing results are reported as " ++
    js "suspected rather than open because a mutation could in principle have " ++
    js "solved the task."

/-- Source: `assess.ts`, `buildLimitations` -/
def limitationNoPerturbation : JsString :=
  js "Perturbation testing did not run on any task, so surface sensitivity is " ++
    js "unmeasured. A grader can refuse every canary and still be scoring the " ++
    js "shape of an answer rather than its content."

/-- Source: `assess.ts`, `buildLimitations` -/
def limitationNoFuzzing : JsString :=
  js "Fuzzing was disabled. Only the named channels were tested; an unnamed " ++
    js "one would not have been found."

/-- Source: `assess.ts`, `buildLimitations` -/
def limitationExhausted : JsString :=
  js "The grader-call budget was exhausted before every probe ran. Untested " ++
    js "probes are marked not-tested and must not be read as passes."

/-- Source: `assess.ts`, `buildLimitations` -/
def limitationNondeterministic : JsString :=
  js "The grader returned different rewards for identical input. Every figure " ++
    js "here is a sample from a distribution, and single-repeat findings " ++
    js "carry that uncertainty without quantifying it."

/-- Source: `assess.ts`, `buildLimitations` -/
def limitationFewTasks (taskCount : ℕ) : JsString :=
  js "Only " ++ (Number.ofNat taskCount).toString ++
    js " tasks were assessed. The gameability rate carries " ++
    js "a wide interval at this sample size; read the bounds, not the point."

/-- Source: `assess.ts`, `buildLimitations` -/
def limitationUntested (untested : List JsString) : JsString :=
  js "These channels went untested on at least one task: " ++ (js ", ").intercalate untested ++
    js ". " ++ js "Usually because the task did not declare the field the probe needs, " ++
    js "which is itself worth checking -- a benchmark that does leak its " ++
    js "reference answer but did not populate it here will show a clean result " ++
    js "that means nothing."

/-- Source: `assess.ts`, `buildLimitations` -/
def limitationNone : JsString :=
  js "Every configured probe ran against every task. This bounds the channels " ++
    js "that were tested; it does not establish that no other channel exists."

/-- The limitations that hold, in their order.
Source: `assess.ts`, `buildLimitations` -/
def statedLimitations (taskCount : ℕ) (hasOracle hasReference : Bool) (perturbationTestedTasks : ℕ)
    (fuzzRan budgetExhausted nondeterministic : Bool) (summary : List ChannelCount) : List JsString :=
  let untested := (summary.filter fun c => 0 < c.notTested).map ChannelCount.channel
  (if !hasOracle then [limitationNoOracle] else []) ++
  (if !hasReference || perturbationTestedTasks = 0 then [limitationNoPerturbation] else []) ++
  (if !fuzzRan then [limitationNoFuzzing] else []) ++
  (if budgetExhausted then [limitationExhausted] else []) ++
  (if nondeterministic then [limitationNondeterministic] else []) ++
  (if taskCount < 20 then [limitationFewTasks taskCount] else []) ++
  if untested.isEmpty then [] else [limitationUntested untested]

/-- The limitations that hold, or that there is none.
Source: `assess.ts`, `buildLimitations` -/
def buildLimitations (taskCount : ℕ) (hasOracle hasReference : Bool) (perturbationTestedTasks : ℕ)
    (fuzzRan budgetExhausted nondeterministic : Bool) (summary : List ChannelCount) : List JsString :=
  let limitations := statedLimitations taskCount hasOracle hasReference perturbationTestedTasks fuzzRan
    budgetExhausted nondeterministic summary
  if limitations.isEmpty then [limitationNone] else limitations

/-- What is wrong with a finding: it is not closed, and has no caveat.
Source: `assess.ts`, `assertNoOverclaim` -/
def Finding.overclaim (taskId : JsString) (f : Finding) : Option JsString :=
  if f.status ≠ .closed ∧ f.caveat.getD [] = [] then
    some (taskId ++ js "/" ++ f.channel ++ js " is \"" ++ f.status.text ++ js "\" with no caveat")
  else none

/-- Source: `assess.ts`, `assertNoOverclaim` -/
def assertNoOverclaim (report : RobustnessReport) : Except JsString Unit :=
  match report.perTask.flatMap fun t => t.findings.filterMap (Finding.overclaim t.taskId) with
  | [] => .ok ()
  | message :: _ => .error message

/-- The worst gaps of the tasks that have one.
Source: `assess.ts`, `assessVerifier`, `measuredGaps` -/
def measuredGaps (perTask : List TaskAssessment) : List Number := perTask.filterMap TaskAssessment.worstGap

/-- Source: `assess.ts`, `assessVerifier`, `adjustment.basis` -/
def GapBasis.text : GapBasis → JsString
  | measuredWithOracle => js "Largest gap between paid reward and independently measured solve."
  | canaryConstruction => js "Largest reward paid to a submission that is non-solving by construction."
  | notEstablished => js "No gap was established; no non-solving submission was paid."

section

variable {T S : Type} (sqrt : Number → Number) (options : AssessOptions T S) (now : TimeValue)

/-- Source: `assess.ts`, `assessVerifier`, `report` -/
def makeReport (perTask : List TaskAssessment) (nondeterministic : Bool) (st : Progress) :
    RobustnessReport :=
  let gaps := measuredGaps perTask
  let perturbationTestedTasks := perTask.countP fun t =>
    t.perturbationFindings.any fun f => f.status ≠ .notTested
  { suiteId := options.suiteId
    assessedAt := now.toISOString
    taskCount := options.tasks.length
    graderCalls := st.graderCalls
    gameability := proportion sqrt (.ofRat percentile)
      (perTask.countP fun t => !t.openChannels.isEmpty) options.tasks.length
    surfaceSensitivity := proportion sqrt (.ofRat percentile)
      (perTask.countP fun t => t.perturbationFindings.any fun f => f.status = .opened)
      perturbationTestedTasks
    nondeterministic := nondeterministic
    gapDistribution :=
      { median := quantile gaps (.ofRat (1 / 2))
        p95 := quantile gaps (.ofRat (95 / 100))
        max := if gaps.isEmpty then none else some (Number.maxOf gaps)
        measured := gaps.length }
    perTask := perTask
    channelSummary := channelSummary perTask
    limitations := buildLimitations options.tasks.length options.oracle
      options.referenceSubmission.isSome perturbationTestedTasks options.fuzz.isSome
      st.budgetExhausted nondeterministic (channelSummary perTask) }

/-- What the findings come to.
Source: `assess.ts`, `assessVerifier`, the value it returns -/
def VerifierAssessment.of (report : RobustnessReport) (st : Progress) : VerifierAssessment :=
  let gaps := measuredGaps report.perTask
  let exploitableGap := if gaps.isEmpty then .ofNat 0 else Number.maxOf gaps
  let surfaceNoise := if st.surfaceDeltas.isEmpty then .ofNat 0 else mean st.surfaceDeltas
  let basis := if st.anyOracleConfirmedGap then .measuredWithOracle
    else if st.anyCanaryGap then .canaryConstruction else .notEstablished
  { report := report
    exploitableGap := exploitableGap
    exploitableGapBasis := basis
    surfaceNoise := surfaceNoise
    verifierConfidence := clamp01 (.ofNat 1 - exploitableGap)
    adjustment := ⟨exploitableGap, surfaceNoise, basis.text⟩ }

/-- Source: `assess.ts`, `assessVerifier` -/
def assessVerifier : Probing T S (Except JsString VerifierAssessment) := do
  let (nondeterministic, st) ← probeDeterminism sqrt options ⟨0, false, [], false, false⟩
  let (perTask, st) ← collect (assessTask sqrt options) options.tasks st
  let report := makeReport sqrt options now perTask nondeterministic st
  return (assertNoOverclaim report).map fun _ => .of report st

end

end AgentEval.Robustness
