import AgentEval.Scoring.Resolution
import AgentEval.Search.Bisect

/-!
# `finance/verdict.ts`: how many tasks a gap needs

* **`tasksRequiredToResolve_least`**: over the reals, the answer is the least number of tasks at which
  the smallest gap that can be resolved is below the given one, and there is none when no number of
  tasks up to the bound is enough.
-/

namespace AgentEval.Finance

open Js AgentEval.Scoring

/-- What a caller may set, with the defaults.
Source: `verdict.ts`, `tasksRequiredToResolve` -/
structure ResolveOptions (F : Type*) [DivisionRing F] where
  /-- Samples drawn per task. -/
  n : ℕ := 1
  /-- Attempts the score is reported over. -/
  k : ℕ := 1
  /-- Variance inflation from clustering. -/
  designEffect : F := 1
  /-- Correlation of the two models' scores. -/
  correlation : F := 0
  /-- How far to look. -/
  maxTasks : ℕ := 10000000

/-- A benchmark of so many tasks. -/
def ResolveOptions.design {F : Type*} [DivisionRing F] (options : ResolveOptions F) (tasks : ℕ) :
    DesignInput F where
  n := options.n
  k := options.k
  tasks := tasks
  designEffect := options.designEffect

section

variable {F : Type} [Field F] [LinearOrder F] (sqrt : F → F)
  (maxPassAtKVariance : ℕ → ℕ → Except (RangeError F) (WorstCase F)) (options : ResolveOptions F)

/-- The smallest gap that so many tasks can resolve, when both models run them. -/
def mrdAt (tasks : ℕ) : Except (RangeError F) F := do
  let power ← resolvingPower sqrt maxPassAtKVariance (options.design tasks) options.correlation
  return power.pairedMrd

/-- How many tasks a benchmark would need before a given gap becomes reportable.
Source: `verdict.ts`, `tasksRequiredToResolve` -/
def tasksRequiredToResolve (gap : F) : Except (RangeError F) (Option ℕ) :=
  if gap ≤ 0 then .ok none
  else do
    if gap ≤ (← mrdAt sqrt maxPassAtKVariance options options.maxTasks) then return none
    else
      let low ← Search.bisect
        (fun mid => do return decide ((← mrdAt sqrt maxPassAtKVariance options mid) < gap))
        1 options.maxTasks
      return some low

/-- So many tasks resolve a gap. -/
def Resolves (gap : F) (tasks : ℕ) : Prop :=
  ∃ power, resolvingPower sqrt maxPassAtKVariance (options.design tasks) options.correlation =
    .ok power ∧ power.pairedMrd < gap

end

section

variable {maxPassAtKVariance : ℕ → ℕ → Except (RangeError ℝ) (WorstCase ℝ)}
  {options : ResolveOptions ℝ} {worst : WorstCase ℝ} {gap : ℝ} {s t : ℕ}

/-- The smallest gap, in numbers. -/
noncomputable def gapAt (options : ResolveOptions ℝ) (worst : WorstCase ℝ) (tasks : ℕ) : ℝ :=
  pairedMrdOf Real.sqrt z95 worst.variance options.correlation options.designEffect tasks

/-- What is asked of a design. -/
structure Sound (maxPassAtKVariance : ℕ → ℕ → Except (RangeError ℝ) (WorstCase ℝ))
    (options : ResolveOptions ℝ) (worst : WorstCase ℝ) : Prop where
  /-- The worst case is known. -/
  worst_eq : maxPassAtKVariance options.n options.k = .ok worst
  /-- A variance is not negative. -/
  variance_nonneg : 0 ≤ worst.variance
  /-- Clustering does not take variance away. -/
  one_le_designEffect : 1 ≤ options.designEffect
  /-- A correlation is not below `-1`. -/
  neg_one_le_correlation : -1 ≤ options.correlation
  /-- Nor above `1`. -/
  correlation_le_one : options.correlation ≤ 1

namespace Sound

variable (hsound : Sound maxPassAtKVariance options worst)

include hsound

/-- What is returned for some tasks. -/
theorem exists_power (ht : 1 ≤ t) :
    ∃ power, resolvingPower Real.sqrt maxPassAtKVariance (options.design t) options.correlation =
      .ok power ∧ power.pairedMrd = gapAt options worst t :=
  resolvingPower_eq hsound.worst_eq (Nat.cast_pos.mpr ht) hsound.one_le_designEffect
    hsound.neg_one_le_correlation hsound.correlation_le_one

/-- The smallest gap is computed. -/
theorem mrdAt_eq (ht : 1 ≤ t) :
    mrdAt Real.sqrt maxPassAtKVariance options t = .ok (gapAt options worst t) := by
  obtain ⟨power, hpower, hmrd⟩ := hsound.exists_power ht
  unfold mrdAt
  rw [hpower, ← hmrd]
  rfl

/-- Tasks resolve what is above their smallest gap. -/
theorem resolves_iff (ht : 1 ≤ t) :
    Resolves Real.sqrt maxPassAtKVariance options gap t ↔ gapAt options worst t < gap := by
  obtain ⟨power, hpower, hmrd⟩ := hsound.exists_power ht
  unfold Resolves
  rw [hpower]
  constructor
  · rintro ⟨_, ⟨rfl⟩, hlt⟩
    rwa [← hmrd]
  · intro hlt
    exact ⟨power, rfl, by rwa [hmrd]⟩

/-- More tasks resolve smaller gaps. -/
theorem gapAt_antitone (hs : 1 ≤ s) (hst : s ≤ t) :
    gapAt options worst t ≤ gapAt options worst s :=
  pairedMrd_antitone z95_pos.le hsound.variance_nonneg hsound.correlation_le_one
    (zero_lt_one.trans_le hsound.one_le_designEffect) (Nat.cast_pos.mpr hs) (Nat.cast_le.mpr hst)

end Sound

/-- The answer is the least number of tasks that resolve the gap. -/
theorem tasksRequiredToResolve_least (hsound : Sound maxPassAtKVariance options worst)
    (hgap : 0 < gap) (hmax : 1 ≤ options.maxTasks) :
    ∃ answer, tasksRequiredToResolve Real.sqrt maxPassAtKVariance options gap = .ok answer ∧
      (∀ t, answer = some t ↔ IsLeast {t | 1 ≤ t ∧ t ≤ options.maxTasks ∧
        Resolves Real.sqrt maxPassAtKVariance options gap t} t) ∧
      (answer = none ↔ ∀ t, 1 ≤ t → t ≤ options.maxTasks →
        ¬Resolves Real.sqrt maxPassAtKVariance options gap t) := by
  unfold tasksRequiredToResolve
  rw [if_neg (not_le.mpr hgap), hsound.mrdAt_eq hmax]
  by_cases hnone : gap ≤ gapAt options worst options.maxTasks
  · -- not even all of them are enough
    have hfail : ∀ t, 1 ≤ t → t ≤ options.maxTasks →
        ¬Resolves Real.sqrt maxPassAtKVariance options gap t := by
      intro t ht htmax hresolves
      rw [hsound.resolves_iff ht] at hresolves
      exact (hnone.trans (hsound.gapAt_antitone ht htmax)).not_gt hresolves
    refine ⟨none, if_pos hnone, ?_, iff_of_true rfl hfail⟩
    intro t
    refine iff_of_false (Option.some_ne_none t).symm ?_
    rintro ⟨⟨ht, htmax, hresolves⟩, -⟩
    exact hfail t ht htmax hresolves
  · obtain ⟨low, hlow, hleast⟩ : ∃ low, Search.bisect
        (fun mid => do
          return decide ((← mrdAt Real.sqrt maxPassAtKVariance options mid) < gap))
        1 options.maxTasks = pure low ∧
          IsLeast (Search.From (fun t => gapAt options worst t < gap) 1) low := by
      refine Search.exists_bisect_eq ?_ (not_le.mp hnone) hmax ?_
      · intro s t hs hst hlt
        exact (hsound.gapAt_antitone hs hst).trans_lt hlt
      · intro t ht _
        rw [hsound.mrdAt_eq ht]
        rfl
    have hleast' : IsLeast {t | 1 ≤ t ∧ t ≤ options.maxTasks ∧
        Resolves Real.sqrt maxPassAtKVariance options gap t} low := by
      refine ⟨⟨hleast.1.1, hleast.2 ⟨hmax, not_le.mp hnone⟩, ?_⟩, ?_⟩
      · rw [hsound.resolves_iff hleast.1.1]
        exact hleast.1.2
      · rintro t ⟨ht, -, hresolves⟩
        apply hleast.2
        exact ⟨ht, (hsound.resolves_iff ht).mp hresolves⟩
    refine ⟨some low, ?_, ?_, ?_⟩
    · dsimp only [bind, Except.bind]
      rw [if_neg hnone]
      exact congrArg (· >>= fun low => .ok (some low)) hlow
    · intro t
      rw [Option.some_inj]
      exact ⟨fun h => h ▸ hleast', fun h => hleast'.unique h⟩
    · refine iff_of_false (Option.some_ne_none low) ?_
      intro hfail
      exact hfail low hleast'.1.1 hleast'.1.2.1 hleast'.1.2.2

/-- A gap of half a point, when a task is passed half of the time. -/
theorem tasksRequired_half :
    ∃ answer, tasksRequiredToResolve Real.sqrt (fun _ _ => .ok ⟨1 / 4, 1 / 2⟩) {} (1 / 2) =
        .ok answer ∧
      (∀ t, answer = some t ↔ IsLeast {t | 1 ≤ t ∧ t ≤ 10000000 ∧
        Resolves Real.sqrt (fun _ _ => .ok ⟨1 / 4, 1 / 2⟩) {} (1 / 2) t} t) ∧
      (answer = none ↔ ∀ t, 1 ≤ t → t ≤ 10000000 →
        ¬Resolves Real.sqrt (fun _ _ => .ok ⟨1 / 4, 1 / 2⟩) {} (1 / 2) t) := by
  refine @tasksRequiredToResolve_least _ {} ⟨1 / 4, 1 / 2⟩ _ ⟨rfl, ?_, ?_, ?_, ?_⟩ ?_ ?_
  all_goals norm_num

end

end AgentEval.Finance
