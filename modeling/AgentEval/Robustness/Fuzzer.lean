import AgentEval.Dialogue.Asking
import AgentEval.Js.Extremes
import AgentEval.Robustness.Statistics

/-!
# `robustness/fuzzer.ts`: searching for reward that is not earned

The search is a dialogue with a grader and an oracle, which may answer differently each time. It
climbs from each seed to the neighbour with the largest gap. A gap is a double of at most `1`, so it
grows finitely often, whatever the limits are.

* `clamp01_spec`, `gapOf_spec` — where rewards and gaps are.
* `score`, `sweep`, `climb`, `climbAll` — the loops, from the inside out.
* `fuzzGrader` — the search.
-/

namespace AgentEval.Robustness

open Js

/-- Source: `fuzzer.ts`, `clamp01` -/
def clamp01 (n : Number) : Number :=
  if n.isFinite then (Number.ofNat 1).min ((Number.ofNat 0).max n) else .ofNat 0

/-- A rewrite of a submission, which may decline.
Source: `fuzzer.ts`, `Mutator` -/
structure Mutator (S : Type) where
  name : JsString
  mutate : S → Option S

/-- Source: `fuzzer.ts`, `FuzzSeed` -/
structure FuzzSeed (S : Type) where
  /-- Where it came from. -/
  origin : JsString
  submission : S
  /-- It does not solve the task. -/
  provablyUnsolving : Bool

/-- What is asked about a submission: its reward of the grader, how much it solves of the oracle. -/
inductive Question (S : Type) where
  | grade (submission : S)
  | solve (submission : S)

/-- A call of the grader. -/
def Question.isGrade {S : Type} : Question S → Bool
  | grade _ => true
  | solve _ => false

/-- Source: `fuzzer.ts`, `FuzzOptions` -/
structure FuzzOptions (S : Type) where
  seeds : List (FuzzSeed S)
  mutators : List (Mutator S)
  /-- Cap on the calls of the grader. -/
  maxGraderCalls : Number
  /-- Steps for each seed. -/
  maxStepsPerSeed : Option Number
  /-- There is an oracle. -/
  oracle : Bool
  /-- Reward below which a result is not reported. -/
  rewardFloor : Option Number

/-- Source: `fuzzer.ts`, `FuzzPoint` -/
structure FuzzPoint (S : Type) where
  submission : S
  reward : Number
  /-- Null without an oracle. -/
  solve : Option Number
  gap : Number
  gapIsAssumed : Bool
  /-- How it was reached. -/
  lineage : List JsString
  finite : gap.isFinite = true
  le_one : gap.toRat ≤ 1

/-- Source: `fuzzer.ts`, `FuzzResult` -/
structure FuzzResult (S : Type) where
  best : Option (FuzzPoint S)
  points : List (FuzzPoint S)
  graderCalls : ℕ
  budgetExhausted : Bool

/-! ## Gaps -/

/-- A clamped value is in `[0, 1]`. -/
theorem clamp01_spec (n : Number) :
    (clamp01 n).isFinite = true ∧ 0 ≤ (clamp01 n).toRat ∧ (clamp01 n).toRat ≤ 1 := by
  unfold clamp01
  split_ifs with hn
  · exact Number.min_max_unit hn
  · obtain ⟨hzero, hzero'⟩ := @Number.isFinite_ofNat 0 (by norm_num)
    rw [hzero', Nat.cast_zero]
    exact ⟨hzero, le_rfl, zero_le_one⟩

/-- `reward - solve`, or the reward where there is no oracle. -/
def gapOf (reward : Number) (solve : Option Number) : Number := solve.elim reward reward.sub

/-- A gap is a double of at most `1`. -/
theorem gapOf_spec (n : Number) (m : Option Number) :
    (gapOf (clamp01 n) (m.map clamp01)).isFinite = true ∧
      (gapOf (clamp01 n) (m.map clamp01)).toRat ≤ 1 := by
  obtain ⟨hfinite, hlow, hhigh⟩ := clamp01_spec n
  cases m with
  | none => exact ⟨hfinite, hhigh⟩
  | some m =>
    obtain ⟨hfinite', hlow', hhigh'⟩ := clamp01_spec m
    exact Number.sub_of_unit hfinite hfinite' hlow hhigh hlow' hhigh'

/-! ## The search -/

section

variable {Q S : Type}

/-- What the search keeps. -/
structure Search (S : Type) where
  calls : ℕ
  points : List (FuzzPoint S)
  best : Option (FuzzPoint S)

/-- `calls >= maxGraderCalls` -/
def FuzzOptions.exhausted (options : FuzzOptions S) (calls : ℕ) : Bool :=
  options.maxGraderCalls.le (.ofNat calls)

/-- A candidate with what was answered about it. -/
def FuzzPoint.of (submission : S) (provablyUnsolving : Bool) (lineage : List JsString)
    (answer : Number) (solved : Option Number) : FuzzPoint S where
  submission := submission
  reward := clamp01 answer
  solve := solved.map clamp01
  gap := gapOf (clamp01 answer) (solved.map clamp01)
  gapIsAssumed := solved.isNone && provablyUnsolving
  lineage := lineage
  finite := (gapOf_spec answer solved).1
  le_one := (gapOf_spec answer solved).2

/-- The larger gap; the first of two as large. -/
def better (best : Option (FuzzPoint S)) (point : FuzzPoint S) : Option (FuzzPoint S) :=
  match best with
  | none => some point
  | some b => if b.gap.lt point.gap then some point else some b

/-- A candidate is kept for the report when it cleared the floor. -/
def Search.add (options : FuzzOptions S) (st : Search S) (point : FuzzPoint S) : Search S where
  calls := st.calls
  points := if (options.rewardFloor.getD (.ofNat 0)).lt point.reward then st.points ++ [point]
    else st.points
  best := better st.best point

variable (ask : Question S → Q) (options : FuzzOptions S)

/-- How much a candidate solves, where there is an oracle. -/
def solveOf (submission : S) : Dialogue Q Number (Option Number) :=
  if options.oracle then do
    let solved ← Dialogue.put (ask (.solve submission))
    return some solved
  else return none

/-- Source: `fuzzer.ts`, `score` in `fuzzGrader` -/
def score (submission : S) (provablyUnsolving : Bool) (lineage : List JsString) (st : Search S) :
    Dialogue Q Number (Option (FuzzPoint S) × Search S) :=
  if options.exhausted st.calls then return (none, st)
  else do
    let answer ← Dialogue.put (ask (.grade submission))
    let solved ← solveOf ask options submission
    let point := FuzzPoint.of submission provablyUnsolving lineage answer solved
    return (some point, { st with calls := st.calls + 1 }.add options point)

/-- One candidate for each mutator, and the best of them.
Source: `fuzzer.ts`, the innermost loop of `fuzzGrader` -/
def sweep (current : FuzzPoint S) (provablyUnsolving : Bool) :
    List (Mutator S) → Option (FuzzPoint S) → Search S →
      Dialogue Q Number (Option (FuzzPoint S) × Search S)
  | [], bestNeighbour, st => return (bestNeighbour, st)
  | mutator :: mutators, bestNeighbour, st =>
    if options.exhausted st.calls then return (bestNeighbour, st)
    else
      match mutator.mutate current.submission with
      | none => sweep current provablyUnsolving mutators bestNeighbour st
      | some mutated => do
        let (candidate, st) ← score ask options mutated provablyUnsolving
          (current.lineage ++ [mutator.name]) st
        sweep current provablyUnsolving mutators
          (candidate.elim bestNeighbour (better bestNeighbour)) st

/-- Steps from a candidate to a better one. A step grows the gap, so that there is an end to them.
Source: `fuzzer.ts`, the middle loop of `fuzzGrader` -/
def climb (provablyUnsolving : Bool) (current : FuzzPoint S) (step : ℕ) (st : Search S) :
    Dialogue Q Number (Search S) :=
  if !(Number.ofNat step).lt (options.maxStepsPerSeed.getD (.ofNat 8)) then return st
  else if options.exhausted st.calls then return st
  else do
    let (bestNeighbour, st) ← sweep ask options current provablyUnsolving options.mutators none st
    match bestNeighbour with
    | none => return st
    | some neighbour =>
      if hle : neighbour.gap.le current.gap = true then return st
      else climb provablyUnsolving neighbour (step + 1) st
termination_by Number.room 1 current.gap
decreasing_by
  exact Number.room_lt current.finite neighbour.finite neighbour.le_one (Bool.not_eq_true _ ▸ hle)

/-- Source: `fuzzer.ts`, the outer loop of `fuzzGrader` -/
def climbAll : List (FuzzSeed S) → Search S → Dialogue Q Number (Search S)
  | [], st => return st
  | seed :: seeds, st =>
    if options.exhausted st.calls then return st
    else do
      let (current, st) ← score ask options seed.submission seed.provablyUnsolving [seed.origin] st
      match current with
      | none => return st
      | some current => do
        let st ← climb ask options seed.provablyUnsolving current 0 st
        climbAll seeds st

/-- Greedy hill-climb from each seed, keeping the best candidate of all.
Source: `fuzzer.ts`, `fuzzGrader` -/
def fuzzGrader : Dialogue Q Number (FuzzResult S) := do
  let st ← climbAll ask options options.seeds ⟨0, [], none⟩
  return ⟨st.best, st.points, st.calls, options.exhausted st.calls⟩

end

end AgentEval.Robustness
