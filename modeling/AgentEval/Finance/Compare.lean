import AgentEval.Finance.Reading
import AgentEval.Js.Template

/-!
# `finance/compare.ts`: an expected answer and the answer of a model

* `Admitted` — the pairs that pass the checks of currency and unit.
* **`equivalent_iff`**: what is equivalent.
-/

namespace AgentEval.Finance.Answers

open Js

/-- Source: `compare.ts`, `Verdict` -/
inductive Verdict where
  | equivalent
  | different
  | unparseable
  | incomparableUnits
  | incomparableCurrency
  deriving DecidableEq

/-- How close counts as equal.
Source: `compare.ts`, `Tolerance` -/
inductive Tolerance (V : Type) where
  /-- No slack. -/
  | exact
  /-- Up to a difference. -/
  | absolute (value : V)
  /-- Up to a share of the expected value. -/
  | relative (value : V)
  /-- Up to the digits reported. -/
  | significantFigures (digits : V)

/-- Source: `compare.ts`, `CompareOptions` -/
structure CompareOptions (V : Type) where
  /-- How close counts as equal. -/
  tolerance : Tolerance V
  /-- How digits are written. -/
  locale : Option NumberLocale := none
  /-- A bare number does not match an expected unit. -/
  requireExplicitUnit : Bool := false
  /-- An answer without a currency does not match one. -/
  requireCurrency : Bool := false
  /-- How a bare number is read against an expected fraction. -/
  bareNumberUnit : Unit := .ratio

/-- Source: `compare.ts`, `Comparison` -/
structure Comparison (V : Type) where
  /-- The verdict. -/
  verdict : Verdict
  /-- Why. -/
  reason : Template V
  /-- The expected answer, if it was read. -/
  expected : Option (Quantity V) := none
  /-- The answer, if it was read. -/
  actual : Option (Quantity V) := none
  /-- Signed difference, when one could be computed. -/
  difference : Option V := none
  /-- Relative difference, when defined. -/
  relativeDifference : Option V := none
  /-- Whether the expected unit was assumed. -/
  unitAssumed : Bool := false

/-- Source: `numeric.ts`, `FRACTION_UNITS`, `isFractionUnit` -/
def isFractionUnit (unit : Unit) : Bool := unit ∈ [.percent, .bps, .ratio]

/-- How a unit is named. -/
def unitName : Unit → JsString
  | .absolute => js "absolute"
  | .percent => js "percent"
  | .bps => js "bps"
  | .ratio => js "ratio"

/-- How a reason is named. -/
def reasonName : ParseFailureReason → JsString
  | .empty => js "EMPTY"
  | .noDigits => js "NO_DIGITS"
  | .malformedGrouping => js "MALFORMED_GROUPING"
  | .ambiguousSeparator => js "AMBIGUOUS_SEPARATOR"
  | .multipleCurrencies => js "MULTIPLE_CURRENCIES"
  | .multipleScales => js "MULTIPLE_SCALES"
  | .unparseable => js "UNPARSEABLE"

section

variable {V : Type} (A : Arithmetic V)

/-- A quantity of the fraction family as a plain ratio.
Source: `compare.ts`, `toRatio` -/
def toRatio (value : V) : Unit → V
  | .percent => A.div value (A.ofNat 100)
  | .bps => A.div value (A.ofNat 10000)
  | _ => value

/-- Source: `compare.ts`, `describeUnit` -/
def describeUnit (n : Quantity V) : JsString :=
  if !n.unitExplicit then js "no unit" else unitName n.unit

/-- Round to a number of significant figures.
Source: `compare.ts`, `toSignificantFigures` -/
def toSignificantFigures (value digits : V) : V :=
  if A.eq value (A.ofNat 0) then A.ofNat 0
  else
    let magnitude := A.ceil (A.log10 (A.abs value))
    let factor := A.tenTo (A.sub digits magnitude)
    A.div (A.round (A.mul value factor)) factor

/-- Source: `compare.ts`, `withinTolerance` -/
def withinTolerance (expected actual : V) : Tolerance V → Bool
  | .exact => A.eq expected actual
  | .absolute value => A.le (A.abs (A.sub actual expected)) value
  | .relative value =>
    if A.eq expected (A.ofNat 0) then A.eq actual (A.ofNat 0)
    else A.le (A.abs (A.div (A.sub actual expected) expected)) value
  | .significantFigures digits =>
    A.eq (toSignificantFigures A expected digits) (toSignificantFigures A actual digits)

/-- The answer is in another currency, or in none where one is required.
Source: `compare.ts`, `compareParsed` -/
def currencyRefusal (expected actual : Quantity V) (options : CompareOptions V) :
    Option (Comparison V) :=
  match expected.currency, actual.currency with
  | some e, some a =>
    if e ≠ a then some {
      verdict := .incomparableCurrency
      reason := [.text (js "expected " ++ e ++ js " but the answer is in " ++ a ++ js "; " ++
        js "converting between them would require an exchange rate the task does not supply")]
      expected := some expected, actual := some actual }
    else none
  | some e, none =>
    if options.requireCurrency then some {
      verdict := .incomparableCurrency
      reason := [.text (js "the task requires an explicit currency and the answer omits one " ++
        js "(expected " ++ e ++ js ")")]
      expected := some expected, actual := some actual }
    else none
  | none, _ => none

/-- A rate against an absolute quantity.
Source: `compare.ts`, `compareParsed`, `mismatch` -/
def mismatch (expected actual : Quantity V) : Comparison V where
  verdict := .incomparableUnits
  reason := [.text (js "expected " ++ describeUnit expected ++ js " but the answer is " ++
    describeUnit actual ++ js "; " ++
    js "a rate and an absolute quantity are not the same kind of number")]
  expected := some expected
  actual := some actual

/-- The units do not go together.
Source: `compare.ts`, `compareParsed` -/
def unitRefusal (expected actual : Quantity V) (options : CompareOptions V) :
    Option (Comparison V) :=
  match expected.unitExplicit, actual.unitExplicit with
  | true, true | false, true =>
    if isFractionUnit expected.unit ≠ isFractionUnit actual.unit then
      some (mismatch expected actual)
    else none
  | true, false =>
    if options.requireExplicitUnit then some {
      verdict := .incomparableUnits
      reason := [.text (js "the task requires the unit to be stated; expected " ++
        unitName expected.unit ++ js " and the " ++ js "answer gives a bare number")]
      expected := some expected, actual := some actual }
    else none
  | false, false => none

/-- The two numbers to compare.
Source: `compare.ts`, `compareParsed` -/
def comparables (expected actual : Quantity V) (options : CompareOptions V) : V × V :=
  if isFractionUnit expected.unit then
    (toRatio A expected.value expected.unit,
      toRatio A actual.value (if actual.unitExplicit then actual.unit else options.bareNumberUnit))
  else (expected.value, actual.value)

/-- The comparison of magnitudes.
Source: `compare.ts`, `compareParsed` -/
def compareMagnitudes (expected actual : Quantity V) (options : CompareOptions V) :
    Comparison V :=
  let expectedComparable := (comparables A expected actual options).1
  let actualComparable := (comparables A expected actual options).2
  let unitAssumed := expected.unitExplicit && !actual.unitExplicit
  let difference := A.sub actualComparable expectedComparable
  let relativeDifference := if A.eq expectedComparable (A.ofNat 0) then none
    else some (A.abs (A.div difference expectedComparable))
  if withinTolerance A expectedComparable actualComparable options.tolerance then
    { verdict := .equivalent
      reason := [.text (if unitAssumed then
        js "equal within tolerance; the answer carried no unit and was read as a " ++
          unitName options.bareNumberUnit ++ js " against an expected " ++ unitName expected.unit
        else js "equal within tolerance")]
      expected := some expected, actual := some actual, difference := some difference
      relativeDifference := relativeDifference, unitAssumed := unitAssumed }
  else
    { verdict := .different
      reason := [.text (js "expected "), .number expectedComparable,
        .text (js " but the answer resolves to "), .number actualComparable] ++
        (match relativeDifference with
          | none => []
          | some r => [.text (js " (off by "), .fixed (A.mul r (A.ofNat 100)) 2, .text (js "%)")])
      expected := some expected, actual := some actual, difference := some difference
      relativeDifference := relativeDifference, unitAssumed := unitAssumed }

/-- Compare two already-parsed quantities.
Source: `compare.ts`, `compareParsed` -/
def compareParsed (expected actual : Quantity V) (options : CompareOptions V) : Comparison V :=
  match currencyRefusal expected actual options with
  | some refusal => refusal
  | none =>
    match unitRefusal expected actual options with
    | some refusal => refusal
    | none => compareMagnitudes A expected actual options

/-- Compare an expected answer against a model's answer, both as written.
Source: `compare.ts`, `compareFinancialAnswers` -/
def compareFinancialAnswers (expectedText actualText : JsString) (options : CompareOptions V) :
    Comparison V :=
  let parseOptions : ParseOptions := { locale := options.locale }
  match A.parseFinancialNumber expectedText parseOptions,
      A.parseFinancialNumber actualText parseOptions with
  | .error e, _ =>
    { verdict := .unparseable
      reason := [.text (js "the expected answer could not be parsed (" ++ reasonName e.reason ++
        js ": " ++ e.detail ++ js "); this is a task-authoring error, not a model error")] }
  | .ok expected, .error e =>
    { verdict := .unparseable
      reason := [.text (js "the answer could not be parsed (" ++ reasonName e.reason ++ js ": " ++
        e.detail ++ js ")")]
      expected := some expected }
  | .ok expected, .ok actual => compareParsed A expected actual options

/-- A verdict that counts for the numerator of an accuracy score.
Source: `compare.ts`, `isCorrect` -/
def isCorrect (verdict : Verdict) : Bool := verdict = .equivalent

/-- The pairs that pass the checks of currency and unit. -/
def Admitted (expected actual : Quantity V) (options : CompareOptions V) : Prop :=
  currencyRefusal expected actual options = none ∧ unitRefusal expected actual options = none

variable {A} {expected actual : Quantity V} {options : CompareOptions V}

/-- Pairs that pass the checks are compared. -/
theorem compareParsed_of_admitted (h : Admitted expected actual options) :
    compareParsed A expected actual options = compareMagnitudes A expected actual options := by
  unfold compareParsed
  rw [h.1, h.2]

/-- Their verdict is that of the tolerance. -/
theorem verdict_compareMagnitudes : (compareMagnitudes A expected actual options).verdict =
    if withinTolerance A (comparables A expected actual options).1
      (comparables A expected actual options).2 options.tolerance = true then .equivalent
    else .different := by
  unfold compareMagnitudes
  dsimp only
  split_ifs <;> rfl

/-- What the check of the currency says. -/
theorem verdict_currencyRefusal {refusal : Comparison V}
    (h : currencyRefusal expected actual options = some refusal) :
    refusal.verdict = .incomparableCurrency := by
  unfold currencyRefusal at h
  cases hexpected : expected.currency with
  | none =>
    rw [hexpected] at h
    cases h
  | some e =>
    cases hactual : actual.currency with
    | none =>
      rw [hexpected, hactual] at h
      dsimp only at h
      split_ifs at h
      rw [← Option.some.inj h]
    | some a =>
      rw [hexpected, hactual] at h
      dsimp only at h
      split_ifs at h
      rw [← Option.some.inj h]

/-- What the check of the unit says. -/
theorem verdict_unitRefusal {refusal : Comparison V}
    (h : unitRefusal expected actual options = some refusal) :
    refusal.verdict = .incomparableUnits := by
  unfold unitRefusal at h
  cases hexpected : expected.unitExplicit with
  | false =>
    cases hactual : actual.unitExplicit with
    | false =>
      rw [hexpected, hactual] at h
      cases h
    | true =>
      rw [hexpected, hactual] at h
      dsimp only at h
      split_ifs at h
      rw [← Option.some.inj h]
      rfl
  | true =>
    cases hactual : actual.unitExplicit with
    | false =>
      rw [hexpected, hactual] at h
      dsimp only at h
      split_ifs at h
      rw [← Option.some.inj h]
    | true =>
      rw [hexpected, hactual] at h
      dsimp only at h
      split_ifs at h
      rw [← Option.some.inj h]
      rfl

/-- **What is equivalent**: pairs that pass the checks, within the tolerance. -/
theorem equivalent_iff : (compareParsed A expected actual options).verdict = .equivalent ↔
    Admitted expected actual options ∧
      withinTolerance A (comparables A expected actual options).1
        (comparables A expected actual options).2 options.tolerance = true := by
  have hverdict : ∀ within : Bool,
      (if within = true then Verdict.equivalent else .different) = .equivalent ↔ within = true := by
    decide
  by_cases hadmitted : Admitted expected actual options
  · rw [compareParsed_of_admitted hadmitted, verdict_compareMagnitudes, and_iff_right hadmitted,
      hverdict]
  · refine iff_of_false ?_ fun h => hadmitted h.1
    unfold compareParsed
    cases hcurrency : currencyRefusal expected actual options with
    | some refusal =>
      dsimp only
      rw [verdict_currencyRefusal hcurrency]
      exact Verdict.noConfusion
    | none =>
      cases hunits : unitRefusal expected actual options with
      | some refusal =>
        dsimp only
        rw [verdict_unitRefusal hunits]
        exact Verdict.noConfusion
      | none => exact absurd ⟨hcurrency, hunits⟩ hadmitted

end

end AgentEval.Finance.Answers
