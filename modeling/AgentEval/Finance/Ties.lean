import AgentEval.Finance.HeadToHead
import AgentEval.Scoring.Consistent

/-!
# Ties that are explained by an interval

* **`includesZero`**: a difference that is not significant has an interval that includes zero, and
  when `headToHead` says so it is true.
-/

namespace AgentEval.Finance

open Js AgentEval.Scoring AgentEval.Scoring.Exact

section

variable {F : Type} [Field F] [LinearOrder F] [IsStrictOrderedRing F] [FloorRing F]
  {generator : Generator F} {options : CompareOptions F}

omit [IsStrictOrderedRing F] [FloorRing F] in
/-- An explanation by the interval is of a difference that is not significant. -/
theorem le_pValue_of_adjudicate {options : HeadToHeadOptions F} {a b : JsString}
    {comparison : PairedComparison F} {mrd : F}
    (h : (adjudicate options a b comparison mrd).explanation = zeroIncludedTie a b comparison) :
    options.alpha ≤ comparison.pValue := by
  -- the other explanations have other numbers of pieces
  have hpieces := congrArg List.length h
  by_contra hlt
  have hsignificant : decide (comparison.pValue < options.alpha) = true :=
    decide_eq_true (not_le.mp hlt)
  unfold adjudicate explainTie at hpieces
  rw [hsignificant] at hpieces
  dsimp only at hpieces
  by_cases hfew : comparison.tasksCompared < options.minimumTasks
  · rw [if_pos hfew] at hpieces
    simp [fewSharedTasks, zeroIncludedTie, tieHead] at hpieces
  rw [if_neg hfew] at hpieces
  by_cases hresolvable : mrd < |comparison.difference|
  · rw [decide_eq_true hresolvable, if_neg (by decide)] at hpieces
    simp [outperformed, zeroIncludedTie, tieHead] at hpieces
  · rw [decide_eq_false hresolvable, if_pos (by decide), if_pos (by decide)] at hpieces
    simp [unresolvableTie, zeroIncludedTie, tieHead] at hpieces

/-- A tie that is explained by the interval. -/
theorem headToHead_includesZero {sqrt : F → F}
    {maxPassAtKVariance : ℕ → ℕ → Except (RangeError F) (WorstCase F)}
    {options : HeadToHeadOptions F} {a b : ModelScores F} {result : HeadToHead F}
    (halpha : 0 < options.alpha) (hresamples : 1 < 10000 * options.alpha)
    (hresult : headToHead generator sqrt maxPassAtKVariance options a b = .ok result)
    (hexplanation : result.explanation = zeroIncludedTie a.model b.model result.comparison) :
    IncludesZero result.comparison := by
  have hcompare : options.compare.alpha = options.alpha ∧ options.compare.resamples = 10000 := by
    unfold HeadToHeadOptions.compare
    cases options.seed with
    | none => exact ⟨rfl, rfl⟩
    | some seed => exact ⟨rfl, rfl⟩
  unfold headToHead at hresult
  dsimp only at hresult
  split_ifs at hresult with hnone
  · rw [← Except.ok.inj hresult] at hexplanation
    have hpieces := congrArg List.length hexplanation
    simp [noSharedTasks, zeroIncludedTie, tieHead] at hpieces
  · cases hpower : resolvingPower sqrt maxPassAtKVariance
        (options.design (pairedComparison generator sqrt options.compare a b).tasksCompared)
        (pairedComparison generator sqrt options.compare a b).correlation with
    | error e =>
      rw [hpower] at hresult
      cases hresult
    | ok power =>
      rw [hpower] at hresult
      have hsame : ∀ mrd, (adjudicate options a.model b.model
          (pairedComparison generator sqrt options.compare a b) mrd).comparison =
          pairedComparison generator sqrt options.compare a b := by
        intro mrd
        unfold adjudicate
        dsimp only
        split_ifs <;> rfl
      rw [← Except.ok.inj hresult, hsame] at hexplanation ⊢
      have hp := le_pValue_of_adjudicate hexplanation
      rw [← hcompare.1] at halpha hresamples hp
      apply pairedComparison_includesZero halpha _ hp
      rw [hcompare.2]
      exact_mod_cast hresamples

end

/-- A generator that always gives one half. -/
noncomputable def halves : Generator ℝ where
  State := PUnit
  mulberry32 _ := ⟨⟩
  next _ := (1 / 2, ⟨⟩)
  next_nonneg _ := by norm_num
  next_lt_one _ := by norm_num

/-- Two tasks, solved or not. -/
def twoTasks (name : JsString) (first second : ℝ) : ModelScores ℝ where
  model := name
  scores := [⟨js "t1", first, none⟩, ⟨js "t2", second, none⟩]

end AgentEval.Finance
