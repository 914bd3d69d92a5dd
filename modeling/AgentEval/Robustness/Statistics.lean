import AgentEval.Js.Arith

/-!
# `robustness/statistics.ts`: rates with an interval

The arithmetic of `proportion` is a parameter: the server computes with Numbers, and what can be said
of its formula is said over the reals. `Math.sqrt` is a parameter, too.
-/

namespace AgentEval.Robustness

open Js

/-- A proportion with an interval.
Source: `types.ts`, `Proportion` -/
structure Proportion (F : Type) where
  /-- How many. -/
  count : ℕ
  /-- Of how many. -/
  total : ℕ
  /-- The share. -/
  rate : F
  /-- The lower end of the interval. -/
  lower : F
  /-- The upper end. -/
  upper : F

section

variable {F : Type} [Add F] [Sub F] [Mul F] [Div F] [Max F] [Min F] [NatCast F]

/-- Wilson score interval; `z` is the constant `Z`.
Source: `statistics.ts`, `proportion` -/
def proportion (sqrt : F → F) (z : F) (count total : ℕ) : Proportion F :=
  if total ≤ 0 then
    { count := 0, total := 0, rate := (0 : ℕ), lower := (0 : ℕ), upper := (0 : ℕ) }
  else
    let p : F := count / total
    let z2 := z * z
    let denominator := (1 : ℕ) + z2 / total
    let centre := (p + z2 / ((2 : ℕ) * total)) / denominator
    let spread := z / denominator *
      sqrt (p * ((1 : ℕ) - p) / total + z2 / ((4 : ℕ) * total * total))
    { count := count, total := total, rate := p, lower := max (0 : ℕ) (centre - spread),
      upper := min (1 : ℕ) (centre + spread) }

end

/-- The percentile that `Z` is.
Source: `statistics.ts`, `Z` -/
def percentile : ℚ := 1.959963984540054

/-! ## The arithmetic of the server -/

scoped instance : Add Number := ⟨Number.add⟩
scoped instance : Sub Number := ⟨Number.sub⟩
scoped instance : Mul Number := ⟨Number.mul⟩
scoped instance : Div Number := ⟨Number.div⟩
scoped instance : Max Number := ⟨Number.max⟩
scoped instance : Min Number := ⟨Number.min⟩
scoped instance : NatCast Number := ⟨Number.ofNat⟩

/-- Source: `statistics.ts`, `mean` -/
def mean (values : List Number) : Number :=
  if values.isEmpty then .ofNat 0 else Number.sum values / (values.length : Number)

/-- Population standard deviation.
Source: `statistics.ts`, `stdDev` -/
def stdDev (sqrt : Number → Number) (values : List Number) : Number :=
  if values.length < 2 then .ofNat 0
  else
    let m := mean values
    sqrt (mean (values.map fun v => (v - m) * (v - m)))

/-- Linear-interpolated quantile.
Source: `statistics.ts`, `quantile` -/
def quantile (values : List Number) (q : Number) : Option Number :=
  let sorted := Number.sortBy Number.sub values
  if sorted.length < 2 then sorted.head?
  else do
    let pos := ((sorted.length - 1 : ℕ) : Number) * q
    let lower ← Number.itemAt sorted pos.floor
    if pos.floor.eq pos.ceil then return lower
    else
      let upper ← Number.itemAt sorted pos.ceil
      return lower + (pos - pos.floor) * (upper - lower)

end AgentEval.Robustness
