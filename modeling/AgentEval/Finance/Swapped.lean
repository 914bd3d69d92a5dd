import AgentEval.Finance.Ties
import AgentEval.Scoring.Mirrored

/-!
# Two models, the other way round

* `adjudicate_swap` — a mirrored comparison is adjudicated the other way round.
* **`antisymmetric_iff`**: comparisons and verdicts are mirrored just when the groups of the
  differences on both sides resample to opposite means.
-/

namespace AgentEval.Finance

open Js AgentEval.Scoring AgentEval.Scoring.Exact

/-- The other model is better. -/
def Relationship.swap : Relationship → Relationship
  | .aBetter => .bBetter
  | .bBetter => .aBetter
  | .indistinguishable => .indistinguishable
  | .insufficientData => .insufficientData

section

variable {F : Type} [Field F]

/-- A verdict as the other side should see it. -/
structure HeadToHead.Mirrors (result result' : HeadToHead F) : Prop where
  /-- The models are exchanged. -/
  a : result'.a = result.b
  /-- Both of them. -/
  b : result'.b = result.a
  /-- The other model is better. -/
  relationship : result'.relationship = result.relationship.swap
  /-- That carries the same weight. -/
  confidence : result'.confidence = result.confidence
  /-- The statistics are mirrored. -/
  comparison : result'.comparison = result.comparison.swap
  /-- The smallest gap is the same. -/
  mrd : result'.mrd = result.mrd

/-- Mirrored verdicts, or the same error. -/
inductive Mirrors : Except (RangeError F) (HeadToHead F) → Except (RangeError F) (HeadToHead F) →
    Prop where
  | error (e : RangeError F) : Mirrors (.error e) (.error e)
  | ok {result result' : HeadToHead F} (h : result.Mirrors result') : Mirrors (.ok result) (.ok result')

variable [LinearOrder F] [IsStrictOrderedRing F]

/-- A mirrored comparison is adjudicated the other way round. -/
theorem adjudicate_swap {options : HeadToHeadOptions F} {a b : JsString}
    {comparison : PairedComparison F} {mrd : F} (hmrd : 0 ≤ mrd) :
    (adjudicate options a b comparison mrd).Mirrors
      (adjudicate options b a comparison.swap mrd) := by
  have hsign : mrd < |comparison.difference| →
      (if 0 < -comparison.difference then Relationship.aBetter else .bBetter) =
        (if 0 < comparison.difference then Relationship.aBetter else .bBetter).swap := by
    intro hlt
    have hne : comparison.difference ≠ 0 := abs_pos.mp (hmrd.trans_lt hlt)
    have hneg : 0 < -comparison.difference ↔ ¬0 < comparison.difference := by
      rw [not_lt, hne.le_iff_lt]
      exact neg_pos
    by_cases hpos : 0 < comparison.difference
    · rw [if_neg (by rwa [hneg, not_not]), if_pos hpos]
      rfl
    · rw [if_pos (hneg.mpr hpos), if_neg hpos]
      rfl
  unfold adjudicate PairedComparison.swap
  dsimp only
  rw [abs_neg]
  by_cases hfew : comparison.tasksCompared < options.minimumTasks
  · rw [if_pos hfew, if_pos hfew]
    exact ⟨rfl, rfl, rfl, rfl, rfl, rfl⟩
  rw [if_neg hfew, if_neg hfew]
  by_cases htie : (!decide (comparison.pValue < options.alpha) ||
      !decide (mrd < |comparison.difference|)) = true
  · rw [if_pos htie, if_pos htie]
    exact ⟨rfl, rfl, rfl, rfl, rfl, rfl⟩
  · rw [if_neg htie, if_neg htie]
    have hresolvable : mrd < |comparison.difference| := by
      by_contra hlarge
      exact htie (by rw [decide_eq_false hlarge, Bool.not_false, Bool.or_true])
    exact ⟨rfl, rfl, hsign hresolvable, rfl, rfl, rfl⟩

end

section

variable {a b : ModelScores ℝ}

/-- A mirrored comparison gives the verdict the other way round. -/
theorem mirrors_headToHead {generator : Generator ℝ}
    {maxPassAtKVariance : ℕ → ℕ → Except (RangeError ℝ) (WorstCase ℝ)}
    {options : HeadToHeadOptions ℝ}
    (h : pairedComparison generator Real.sqrt options.compare b a =
      (pairedComparison generator Real.sqrt options.compare a b).swap) :
    Mirrors (headToHead generator Real.sqrt maxPassAtKVariance options a b)
      (headToHead generator Real.sqrt maxPassAtKVariance options b a) := by
  unfold headToHead
  dsimp only
  rw [h]
  rw [PairedComparison.tasksCompared_swap, PairedComparison.correlation_swap]
  by_cases hnone : (pairedComparison generator Real.sqrt options.compare a b).tasksCompared = 0
  · rw [if_pos hnone, if_pos hnone]
    exact .ok ⟨rfl, rfl, rfl, rfl, rfl, rfl⟩
  rw [if_neg hnone, if_neg hnone]
  cases hpower : resolvingPower Real.sqrt maxPassAtKVariance
      (options.design (pairedComparison generator Real.sqrt options.compare a b).tasksCompared)
      (pairedComparison generator Real.sqrt options.compare a b).correlation with
  | error e => exact .error e
  | ok power => exact .ok (adjudicate_swap (pairedMrd_nonneg z95_pos.le hpower))

/-- Two tasks are different ones. -/
theorem distinct_twoTasks (name : JsString) (first second : ℝ) :
    (twoTasks name first second).Distinct := by
  have hids : [js "t1", js "t2"].Nodup := by decide
  exact hids

/-- **Comparisons and verdicts are mirrored** when the groups of the differences on both sides
resample to opposite means, and, over all generators and options, only then. -/
theorem antisymmetric_iff (ha : a.Distinct) (hb : b.Distinct) :
    (∀ generator : Generator ℝ,
        (∀ options, pairedComparison generator Real.sqrt options b a =
          (pairedComparison generator Real.sqrt options a b).swap) ∧
        ∀ maxPassAtKVariance options,
          Mirrors (headToHead generator Real.sqrt maxPassAtKVariance options a b)
            (headToHead generator Real.sqrt maxPassAtKVariance options b a)) ↔
      Mirrored a b := by
  constructor
  · intro h
    exact mirrored_of_pairedComparison ha hb fun generator => (h generator).1
  · intro h generator
    exact ⟨fun options => h.pairedComparison ha hb,
      fun maxPassAtKVariance options => mirrors_headToHead (h.pairedComparison ha hb)⟩

/-- Two models that each solve the task the other does not. -/
theorem antisymmetric_twoTasks :
    (∀ generator : Generator ℝ,
        (∀ options, pairedComparison generator Real.sqrt options (twoTasks (js "b") 0 1)
            (twoTasks (js "a") 1 0) =
          (pairedComparison generator Real.sqrt options (twoTasks (js "a") 1 0)
            (twoTasks (js "b") 0 1)).swap) ∧
        ∀ maxPassAtKVariance options,
          Mirrors (headToHead generator Real.sqrt maxPassAtKVariance options
              (twoTasks (js "a") 1 0) (twoTasks (js "b") 0 1))
            (headToHead generator Real.sqrt maxPassAtKVariance options
              (twoTasks (js "b") 0 1) (twoTasks (js "a") 1 0))) ↔
      Mirrored (twoTasks (js "a") 1 0) (twoTasks (js "b") 0 1) := by
  exact antisymmetric_iff (distinct_twoTasks _ _ _) (distinct_twoTasks _ _ _)

/-- One task, solved or not. -/
def oneTask (name : JsString) (value : ℝ) : ModelScores ℝ where
  model := name
  scores := [⟨js "t1", value, none⟩]

/-- One shared task: from both sides the interval runs from `0` to `1`. -/
theorem not_antisymmetric_oneTask :
    (oneTask (js "a") 1).Distinct ∧ (oneTask (js "b") 0).Distinct ∧
      pairedComparison mulberry32 Real.sqrt {} (oneTask (js "b") 0) (oneTask (js "a") 1) ≠
        (pairedComparison mulberry32 Real.sqrt {} (oneTask (js "a") 1) (oneTask (js "b") 0)).swap := by
  refine ⟨List.nodup_singleton _, List.nodup_singleton _, ?_⟩
  intro h
  have hlower := congrArg (fun r : PairedComparison ℝ => r.lower) h
  have hthere := bounds_of_lt_two Real.sqrt mulberry32 {} (a := oneTask (js "b") 0)
    (b := oneTask (js "a") 1) (List.cons_ne_nil _ _) Nat.one_lt_two
  have hback := bounds_of_lt_two Real.sqrt mulberry32 {} (a := oneTask (js "a") 1)
    (b := oneTask (js "b") 0) (List.cons_ne_nil _ _) Nat.one_lt_two
  have hswap : (some (0 : ℝ)) = (some 1).map Neg.neg := by
    rw [← hthere.1, ← hback.2]
    exact hlower
  rw [Option.map_some, Option.some_inj] at hswap
  norm_num at hswap

end

end AgentEval.Finance
