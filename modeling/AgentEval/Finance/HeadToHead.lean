import Mathlib.Algebra.Order.Group.Abs
import AgentEval.Scoring.Exact
import AgentEval.Scoring.Resolution

/-!
# `finance/verdict.ts`: which of two models is better

In exact arithmetic. A smallest gap of `Infinity` is `⊤`.
-/

namespace AgentEval.Finance

open Js AgentEval.Scoring AgentEval.Scoring.Exact

/-- Source: `verdict.ts`, `Relationship` -/
inductive Relationship where
  | aBetter
  | bBetter
  | indistinguishable
  | insufficientData
  deriving DecidableEq

/-- Source: `verdict.ts`, `Confidence` -/
inductive Confidence where
  | high
  | medium
  | low
  deriving DecidableEq

/-- Source: `verdict.ts`, `HeadToHead` -/
structure HeadToHead (F : Type) where
  /-- One model. -/
  a : JsString
  /-- The other. -/
  b : JsString
  /-- What the evidence supports. -/
  relationship : Relationship
  /-- How much weight that carries. -/
  confidence : Confidence
  /-- The underlying paired statistics. -/
  comparison : PairedComparison F
  /-- Smallest gap this design could have detected. -/
  mrd : WithTop F
  /-- The conclusion. -/
  explanation : Template F

/-- What a caller may set, with the defaults.
Source: `verdict.ts`, `HeadToHeadOptions` -/
structure HeadToHeadOptions (F : Type) [Field F] where
  /-- Variance inflation from clustered tasks. -/
  designEffect : F := 1
  /-- Attempts the score is reported over. -/
  k : ℕ := 1
  /-- Samples drawn per task. -/
  n : ℕ := 1
  /-- Fewer shared tasks than this are not reported. -/
  minimumTasks : ℕ := 30
  /-- The level. -/
  alpha : F := 5 / 100
  /-- The seed. -/
  seed : Option F := none

/-- What is passed on to `pairedComparison`. -/
def HeadToHeadOptions.compare {F : Type} [Field F] (options : HeadToHeadOptions F) :
    CompareOptions F :=
  match options.seed with
  | none => { alpha := options.alpha }
  | some seed => { alpha := options.alpha, seed := seed }

section

variable {F : Type} [Field F] [LinearOrder F]

/-- Source: `verdict.ts`, `format` -/
def format (value : Option F) : Piece F :=
  match value with
  | none => .text (js "an unbounded amount")
  | some x => if |x| < 1 / 100 then .fixed x 5 else .fixed x 4

/-- Source: `verdict.ts`, `explainTie`, `head` -/
def tieHead (aName bName : JsString) (comparison : PairedComparison F) : Template F :=
  [.text (aName ++ js " and " ++ bName ++
      js " are statistically indistinguishable on this benchmark. " ++ js "The observed gap is "),
    format (some |comparison.difference|),
    .text (js " across " ++ natDigits comparison.tasksCompared ++ js " paired tasks.")]

/-- The gap is below what can be resolved.
Source: `verdict.ts`, `explainTie` -/
def unresolvableTie (aName bName : JsString) (comparison : PairedComparison F) (mrd : F) :
    Template F :=
  tieHead aName bName comparison ++
    [.text (js " The smallest gap this design could resolve is "), format (some mrd),
      .text (js ", which is larger than the gap itself, so the ordering carries no information. " ++
        js "Separating them would require substantially more tasks, not a rerun.")]

/-- The interval includes zero.
Source: `verdict.ts`, `explainTie` -/
def zeroIncludedTie (aName bName : JsString) (comparison : PairedComparison F) : Template F :=
  tieHead aName bName comparison ++
    [.text (js " The 95% confidence interval on the difference is "), format comparison.lower,
      .text (js " to "), format comparison.upper, .text (js ", which includes zero (p = "),
      .fixed comparison.pValue 4,
      .text (js "). The evidence does not establish that either model is better.")]

/-- Source: `verdict.ts`, `explainTie` -/
def explainTie (aName bName : JsString) (comparison : PairedComparison F) (mrd : F)
    (_significant resolvable : Bool) : Template F :=
  if !resolvable then unresolvableTie aName bName comparison mrd
  else zeroIncludedTie aName bName comparison

/-- No task is shared.
Source: `verdict.ts`, `headToHead` -/
def noSharedTasks (aName bName : JsString) : Template F :=
  [.text (aName ++ js " and " ++ bName ++ js " share no tasks, so they were not evaluated " ++
    js "under the same conditions and cannot be compared.")]

/-- Too few tasks are shared.
Source: `verdict.ts`, `headToHead` -/
def fewSharedTasks (aName bName : JsString) (tasks minimumTasks : ℕ) (gap : F) : Template F :=
  [.text (aName ++ js " and " ++ bName ++ js " share only " ++ natDigits tasks ++ js " " ++
      (if tasks = 1 then js "task" else js "tasks") ++ js ", " ++ js "below the " ++
      natDigits minimumTasks ++ js " required to report a comparison. The observed gap of "),
    format (some gap), .text (js " may be entirely task selection.")]

/-- One of them leads.
Source: `verdict.ts`, `headToHead` -/
def outperformed (leader trailer : JsString) (comparison : PairedComparison F) (mrd : F) :
    Template F :=
  [.text (leader ++ js " outperformed " ++ trailer ++ js " by "),
    format (some |comparison.difference|),
    .text (js " across " ++ natDigits comparison.tasksCompared ++ js " paired tasks " ++
      js "(95% CI "), format comparison.lower, .text (js " to "), format comparison.upper,
    .text (js ", " ++ js "p = "), .fixed comparison.pValue 4,
    .text (js "). " ++ js "The smallest gap this design could resolve is "), format (some mrd),
    .text (js ", and the " ++
      js "observed gap exceeds it, so the ordering is supported by the evidence.")]

/-- What is reported of models that share tasks, once the smallest gap is known.
Source: `verdict.ts`, `headToHead` -/
def adjudicate (options : HeadToHeadOptions F) (a b : JsString) (comparison : PairedComparison F)
    (mrd : F) : HeadToHead F :=
  let tasks := comparison.tasksCompared
  let gap := |comparison.difference|
  let leader := if 0 < comparison.difference then a else b
  let trailer := if 0 < comparison.difference then b else a
  let significant := decide (comparison.pValue < options.alpha)
  let resolvable := decide (mrd < gap)
  if tasks < options.minimumTasks then
    { a := a, b := b, relationship := .insufficientData, confidence := .low
      comparison := comparison, mrd := mrd
      explanation := fewSharedTasks a b tasks options.minimumTasks gap }
  else if !significant || !resolvable then
    { a := a, b := b, relationship := .indistinguishable, confidence := .low
      comparison := comparison, mrd := mrd
      explanation := explainTie a b comparison mrd significant resolvable }
  else
    { a := a, b := b
      relationship := if 0 < comparison.difference then .aBetter else .bBetter
      confidence := if 2 * mrd < gap then .high else .medium
      comparison := comparison, mrd := mrd
      explanation := outperformed leader trailer comparison mrd }

/-- The design behind a comparison.
Source: `verdict.ts`, `headToHead` -/
def HeadToHeadOptions.design (options : HeadToHeadOptions F) (tasks : ℕ) : DesignInput F where
  n := options.n
  k := options.k
  tasks := tasks
  designEffect := options.designEffect

variable [FloorRing F] (generator : Generator F) (sqrt : F → F)
  (maxPassAtKVariance : ℕ → ℕ → Except (RangeError F) (WorstCase F))

/-- Adjudicate two models over the tasks they both attempted.
Source: `verdict.ts`, `headToHead` -/
def headToHead (options : HeadToHeadOptions F) (a b : ModelScores F) :
    Except (RangeError F) (HeadToHead F) :=
  let comparison := pairedComparison generator sqrt options.compare a b
  if comparison.tasksCompared = 0 then
    .ok {
      a := a.model, b := b.model, relationship := .insufficientData, confidence := .low
      comparison := comparison, mrd := ⊤, explanation := noSharedTasks a.model b.model }
  else do
    let power ← resolvingPower sqrt maxPassAtKVariance (options.design comparison.tasksCompared)
      comparison.correlation
    return adjudicate options a.model b.model comparison power.pairedMrd

end

end AgentEval.Finance
