import Mathlib.Algebra.Order.Field.Basic
import Mathlib.Tactic.Linarith
import Mathlib.Tactic.FieldSimp
import AgentEval.Js.Decimal
import AgentEval.Js.Template

/-!
# `scoring/composite.ts`: the validity-adjusted score

Each factor that was assessed multiplies the score; one that was not is listed. The interval is
built anew around the score, from the half-width of the base interval. Over the numbers of any
ordered field.

* **`compositeScore_sound`**: the score and the interval are between `0` and `1`, and the interval
  contains the score.
* **`compositeScore_covers_iff`**: the interval covers the scaled base interval exactly when nothing
  is left of the score, or neither end of the base interval is further from the estimate than the
  widened half-width.
-/

namespace AgentEval.Scoring

open Js

/-- Source: `intervals.ts`, `IntervalMethod` -/
inductive IntervalMethod where
  | clusteredClt
  | clusterBootstrap
  | clopperPearson

/-- The name of a method. -/
def IntervalMethod.name : IntervalMethod → JsString
  | clusteredClt => js "clustered-clt"
  | clusterBootstrap => js "cluster-bootstrap"
  | clopperPearson => js "clopper-pearson"

/-- Source: `intervals.ts`, `Interval` -/
structure Interval (F : Type*) where
  /-- The estimate. -/
  estimate : F
  /-- The lower bound. -/
  lower : F
  /-- The upper bound. -/
  upper : F
  /-- How it was computed. -/
  method : IntervalMethod
  /-- Observations behind the estimate. -/
  n : ℕ
  /-- Distinct clusters. -/
  clusters : ℕ
  /-- Ratio of the clustered standard error to the naive one. -/
  varianceInflation : Option F
  /-- Why this method was chosen. -/
  rationale : JsString

/-- Source: `composite.ts`, `ValidityFactors` -/
structure ValidityFactors (F : Type*) where
  /-- Fraction of the score attributable to the model having seen the tasks. -/
  contaminationDiscount : Option F
  /-- Fraction of runs where the agent was caught gaming. -/
  gamingRate : Option F
  /-- How much of the grader's reward survives perturbation. -/
  verifierConfidence : Option F

/-- A factor, and what it did. -/
structure Applied (F : Type*) where
  /-- Its name. -/
  factor : JsString
  /-- What it multiplies by. -/
  multiplier : F
  /-- How far it moves the score. -/
  effect : F

/-- A factor that could not be applied. -/
structure Omitted where
  /-- Its name. -/
  factor : JsString
  /-- Why. -/
  reason : JsString

/-- Source: `composite.ts`, `CompositeScore` -/
structure CompositeScore (F : Type*) where
  /-- The estimator output before any adjustment. -/
  base : Interval F
  /-- Each factor applied, in order. -/
  applied : List (Applied F)
  /-- Factors that could not be applied. -/
  omitted : List Omitted
  /-- The score. -/
  score : F
  /-- The lower bound. -/
  lower : F
  /-- The upper bound. -/
  upper : F
  /-- Whether a factor went unassessed. -/
  provisional : Bool
  /-- Full recomputation trail. -/
  derivation : Template F

/-- The variables that `consider` changes. -/
structure Considered (F : Type*) where
  /-- The product so far. -/
  multiplier : F
  /-- The factors applied so far. -/
  applied : List (Applied F)
  /-- Those that could not be. -/
  omitted : List Omitted

section

variable {F : Type} [Field F] [LinearOrder F]

/-- Source: `composite.ts`, `consider` -/
def Considered.consider (estimate : F) (name : JsString) (toMultiplier : F → F)
    (missingReason : JsString) (value : Option F) (s : Considered F) :
    Except (RangeError F) (Considered F) :=
  match value with
  | none => .ok { s with omitted := s.omitted ++ [⟨name, missingReason⟩] }
  | some v =>
    if v < 0 ∨ 1 < v then
      .error ⟨[.text (name ++ js " must be in [0, 1], got "), .number v]⟩
    else
      let m := toMultiplier v
      .ok { s with
        multiplier := s.multiplier * m
        applied := s.applied ++ [⟨name, m, (s.multiplier * m - s.multiplier) * estimate⟩] }

/-- Source: `composite.ts`, `consider('contamination', …)` -/
def considerContamination (estimate : F) : Option F → Considered F →
    Except (RangeError F) (Considered F) :=
  Considered.consider estimate (js "contamination") (fun v => 1 - v)
    (js "No contamination check ran. The model cutoff was not compared against the " ++
      js "corpus date, so overlap is unknown rather than absent.")

/-- Source: `composite.ts`, `consider('gaming', …)` -/
def considerGaming (estimate : F) : Option F → Considered F →
    Except (RangeError F) (Considered F) :=
  Considered.consider estimate (js "gaming") (fun v => 1 - v)
    (js "No gaming scan ran. Runs were not checked for reward hacking, so the score " ++
      js "may include rewards for work that did not happen.")

/-- Source: `composite.ts`, `consider('verifier', …)` -/
def considerVerifier (estimate : F) : Option F → Considered F →
    Except (RangeError F) (Considered F) :=
  Considered.consider estimate (js "verifier") (fun v => v)
    (js "The grader was not assessed for robustness. Its reward may be obtainable " ++
      js "without solving the task.")

/-- Lines of text, with line breaks between them. -/
def joinLines : List (Template F) → Template F
  | [] => []
  | [line] => line
  | line :: lines => line ++ .text (js "\n") :: joinLines lines

/-- How the score was computed.
Source: `composite.ts`, `derivation` -/
def derivationOf (base : Interval F) (s : Considered F) (inflation score : F) : Template F :=
  joinLines
    ([[.text (js "base "), .fixed base.estimate 4,
        .text (js " (" ++ base.method.name ++ js ", n=" ++ natDigits base.n ++ js ", clusters=" ++
          natDigits base.clusters ++ js ")")]] ++
      s.applied.map (fun a =>
        [.text (js "x "), .fixed a.multiplier 4, .text (js " [" ++ a.factor ++ js "]")]) ++
      [[.text (js "= "), .fixed score 4],
        [.text (js "interval half-width scaled by "), .fixed s.multiplier 4] ++
          if inflation = 1 then []
          else [.text (js " then widened "), .fixed inflation 2,
            .text (js "x for verifier uncertainty")],
        if s.omitted.isEmpty then [.text (js "all validity factors assessed")]
        else [.text (js "PROVISIONAL: " ++
          ((s.omitted.map Omitted.factor).intersperse (js ", ")).flatten ++ js " unassessed")]])

/-- How much less certain a grader makes the estimate.
Source: `composite.ts`, `uncertaintyInflation` -/
def ValidityFactors.uncertaintyInflation (factors : ValidityFactors F) : F :=
  factors.verifierConfidence.elim 1 fun v => 1 + (1 - v)

/-- Apply validity adjustments to an interval.
Source: `composite.ts`, `compositeScore` -/
def compositeScore (base : Interval F) (factors : ValidityFactors F) :
    Except (RangeError F) (CompositeScore F) := do
  let s ← considerContamination base.estimate factors.contaminationDiscount ⟨1, [], []⟩
  let s ← considerGaming base.estimate factors.gamingRate s
  let s ← considerVerifier base.estimate factors.verifierConfidence s
  let score := base.estimate * s.multiplier
  let halfWidth := (base.upper - base.lower) / 2 * s.multiplier * factors.uncertaintyInflation
  return {
    base := base
    applied := s.applied
    omitted := s.omitted
    score := score
    lower := max 0 (score - halfWidth)
    upper := min 1 (score + halfWidth)
    provisional := !s.omitted.isEmpty
    derivation := derivationOf base s factors.uncertaintyInflation score }

end

/-! ## What the factors do -/

section

variable {F : Type} [Field F] [LinearOrder F]

/-- A fraction, when there is one. -/
def IsFraction (value : Option F) : Prop := ∀ v ∈ value, 0 ≤ v ∧ v ≤ 1

/-- All factors are fractions. -/
structure ValidityFactors.Fractions (factors : ValidityFactors F) : Prop where
  /-- The contamination discount is. -/
  contamination : IsFraction factors.contaminationDiscount
  /-- The gaming rate is. -/
  gaming : IsFraction factors.gamingRate
  /-- The confidence is. -/
  verifier : IsFraction factors.verifierConfidence

/-- A base interval between `0` and `1`. -/
structure Interval.Unit (base : Interval F) : Prop where
  /-- It starts at `0` or above. -/
  lower_nonneg : 0 ≤ base.lower
  /-- The estimate is not below it. -/
  lower_le : base.lower ≤ base.estimate
  /-- Nor above it. -/
  le_upper : base.estimate ≤ base.upper
  /-- It ends at `1` or below. -/
  upper_le_one : base.upper ≤ 1

/-- What a factor multiplies by, `1` when it was not assessed. -/
def factorOf (toMultiplier : F → F) (value : Option F) : F := value.elim 1 toMultiplier

/-- What is left of the score. -/
def ValidityFactors.multiplier (factors : ValidityFactors F) : F :=
  factorOf (fun v => 1 - v) factors.contaminationDiscount *
    factorOf (fun v => 1 - v) factors.gamingRate * factorOf (fun v => v) factors.verifierConfidence

/-- The product of the multipliers that were applied. -/
def product (applied : List (Applied F)) : F := (applied.map Applied.multiplier).prod

/-- One factor. -/
theorem exists_consider {estimate : F} {name missingReason : JsString} {toMultiplier : F → F}
    {value : Option F} (hvalue : IsFraction value) {s : Considered F}
    (hs : product s.applied = s.multiplier) :
    ∃ s', s.consider estimate name toMultiplier missingReason value = .ok s' ∧
      s'.multiplier = s.multiplier * factorOf toMultiplier value ∧
      product s'.applied = s'.multiplier := by
  cases value with
  | none => exact ⟨_, rfl, (mul_one s.multiplier).symm, hs⟩
  | some v =>
    obtain ⟨hlow, hhigh⟩ := hvalue v rfl
    unfold Considered.consider
    dsimp only
    rw [if_neg (not_or.mpr ⟨not_lt.mpr hlow, not_lt.mpr hhigh⟩)]
    refine ⟨_, rfl, rfl, ?_⟩
    unfold product at hs ⊢
    simp [hs]

/-- The contamination discount. -/
theorem exists_considerContamination {estimate : F} {value : Option F} (hvalue : IsFraction value)
    {s : Considered F} (hs : product s.applied = s.multiplier) :
    ∃ s', considerContamination estimate value s = .ok s' ∧
      s'.multiplier = s.multiplier * factorOf (fun v => 1 - v) value ∧
      product s'.applied = s'.multiplier := exists_consider hvalue hs

/-- The gaming rate. -/
theorem exists_considerGaming {estimate : F} {value : Option F} (hvalue : IsFraction value)
    {s : Considered F} (hs : product s.applied = s.multiplier) :
    ∃ s', considerGaming estimate value s = .ok s' ∧
      s'.multiplier = s.multiplier * factorOf (fun v => 1 - v) value ∧
      product s'.applied = s'.multiplier := exists_consider hvalue hs

/-- The confidence. -/
theorem exists_considerVerifier {estimate : F} {value : Option F} (hvalue : IsFraction value)
    {s : Considered F} (hs : product s.applied = s.multiplier) :
    ∃ s', considerVerifier estimate value s = .ok s' ∧
      s'.multiplier = s.multiplier * factorOf (fun v => v) value ∧
      product s'.applied = s'.multiplier := exists_consider hvalue hs

/-- How far the interval reaches to each side. -/
def reach (base : Interval F) (factors : ValidityFactors F) : F :=
  (base.upper - base.lower) / 2 * factors.multiplier * factors.uncertaintyInflation

/-- What is returned. -/
theorem exists_compositeScore (base : Interval F) {factors : ValidityFactors F}
    (hfactors : factors.Fractions) :
    ∃ result, compositeScore base factors = .ok result ∧
      product result.applied = factors.multiplier ∧
      result.score = base.estimate * factors.multiplier ∧
      result.lower = max 0 (base.estimate * factors.multiplier - reach base factors) ∧
      result.upper = min 1 (base.estimate * factors.multiplier + reach base factors) := by
  obtain ⟨s₁, h₁, hm₁, hs₁⟩ := @exists_considerContamination _ _ _ base.estimate _
    hfactors.contamination ⟨1, [], []⟩ rfl
  obtain ⟨s₂, h₂, hm₂, hs₂⟩ := @exists_considerGaming _ _ _ base.estimate _ hfactors.gaming _ hs₁
  obtain ⟨s₃, h₃, hm₃, hs₃⟩ :=
    @exists_considerVerifier _ _ _ base.estimate _ hfactors.verifier _ hs₂
  have hmultiplier : s₃.multiplier = factors.multiplier := by
    rw [hm₃, hm₂, hm₁, one_mul]
    rfl
  unfold compositeScore
  rw [h₁]
  dsimp only [bind, Except.bind]
  rw [h₂]
  dsimp only [bind, Except.bind]
  rw [h₃]
  unfold reach
  rw [← hmultiplier]
  exact ⟨_, rfl, hs₃, rfl, rfl, rfl⟩

end

/-! ## The interval -/

section

variable {F : Type} [Field F] [LinearOrder F] [IsStrictOrderedRing F] {base : Interval F}
  {factors : ValidityFactors F}

/-- A factor leaves a fraction of a fraction. -/
theorem factorOf_mem {toMultiplier : F → F} {value : Option F} (hvalue : IsFraction value)
    (hmap : ∀ v, 0 ≤ v → v ≤ 1 → 0 ≤ toMultiplier v ∧ toMultiplier v ≤ 1) :
    0 ≤ factorOf toMultiplier value ∧ factorOf toMultiplier value ≤ 1 := by
  cases value with
  | none => exact ⟨zero_le_one, le_rfl⟩
  | some v => exact hmap v (hvalue v rfl).1 (hvalue v rfl).2

/-- What is left after a discount. -/
theorem one_sub_mem (v : F) (hlow : 0 ≤ v) (hhigh : v ≤ 1) : 0 ≤ 1 - v ∧ 1 - v ≤ 1 :=
  ⟨sub_nonneg.mpr hhigh, sub_le_self 1 hlow⟩

namespace ValidityFactors.Fractions

variable (hfactors : factors.Fractions)

include hfactors

/-- A fraction is left of the score. -/
theorem multiplier_mem : 0 ≤ factors.multiplier ∧ factors.multiplier ≤ 1 := by
  obtain ⟨hc, hc'⟩ := factorOf_mem hfactors.contamination one_sub_mem
  obtain ⟨hg, hg'⟩ := factorOf_mem hfactors.gaming one_sub_mem
  obtain ⟨hv, hv'⟩ := factorOf_mem hfactors.verifier fun v h h' => ⟨h, h'⟩
  unfold multiplier
  constructor
  · exact mul_nonneg (mul_nonneg hc hg) hv
  · exact mul_le_one₀ (mul_le_one₀ hc' hg hg') hv hv'

/-- A grader never narrows the interval. -/
theorem one_le_uncertaintyInflation : 1 ≤ factors.uncertaintyInflation := by
  unfold uncertaintyInflation
  cases hvalue : factors.verifierConfidence with
  | none => exact le_rfl
  | some v => exact le_add_of_nonneg_right (sub_nonneg.mpr (hfactors.verifier v hvalue).2)

end ValidityFactors.Fractions

/-- A score, with an interval around it, between `0` and `1`. -/
structure CompositeScore.Sound (result : CompositeScore F) : Prop where
  /-- The score is not negative. -/
  score_nonneg : 0 ≤ result.score
  /-- The score is at most `1`. -/
  score_le_one : result.score ≤ 1
  /-- The interval starts at `0` or above. -/
  lower_nonneg : 0 ≤ result.lower
  /-- It ends at `1` or below. -/
  upper_le_one : result.upper ≤ 1
  /-- It starts at the score or below. -/
  lower_le_score : result.lower ≤ result.score
  /-- It ends at the score or above. -/
  score_le_upper : result.score ≤ result.upper

/-- The interval contains the base interval, scaled by what was applied. -/
def CompositeScore.Covers (base : Interval F) (result : CompositeScore F) : Prop :=
  result.lower ≤ product result.applied * base.lower ∧
    product result.applied * base.upper ≤ result.upper

/-- The interval reaches to both sides. -/
theorem reach_nonneg (hbase : base.Unit) (hfactors : factors.Fractions) :
    0 ≤ reach base factors := by
  have hwidth : 0 ≤ base.upper - base.lower :=
    sub_nonneg.mpr (hbase.lower_le.trans hbase.le_upper)
  have hinflation := zero_le_one.trans hfactors.one_le_uncertaintyInflation
  have hmultiplier := hfactors.multiplier_mem.1
  unfold reach
  positivity

/-- The score and the interval are between `0` and `1`. -/
theorem compositeScore_sound (hbase : base.Unit) (hfactors : factors.Fractions) :
    ∃ result, compositeScore base factors = .ok result ∧ result.Sound := by
  obtain ⟨result, hresult, -, hscore, hlower, hupper⟩ := exists_compositeScore base hfactors
  obtain ⟨hm, hm'⟩ := hfactors.multiplier_mem
  have hreach := reach_nonneg hbase hfactors
  have hnonneg : 0 ≤ base.estimate * factors.multiplier :=
    mul_nonneg (hbase.lower_nonneg.trans hbase.lower_le) hm
  have hle : base.estimate * factors.multiplier ≤ 1 :=
    mul_le_one₀ (hbase.le_upper.trans hbase.upper_le_one) hm hm'
  refine ⟨result, hresult, ?_⟩
  constructor
  · rwa [hscore]
  · rwa [hscore]
  · rw [hlower]
    exact le_max_left 0 _
  · rw [hupper]
    exact min_le_left 1 _
  · rw [hlower, hscore]
    exact max_le hnonneg (sub_le_self _ hreach)
  · rw [hupper, hscore]
    exact le_min hle (le_add_of_nonneg_right hreach)

/-- Nothing is left of the score. -/
def ValidityFactors.Void (factors : ValidityFactors F) : Prop :=
  factors.contaminationDiscount = some 1 ∨ factors.gamingRate = some 1 ∨
    factors.verifierConfidence = some 0

omit [LinearOrder F] [IsStrictOrderedRing F] in
/-- A factor leaves nothing. -/
theorem factorOf_eq_zero_iff {toMultiplier : F → F} {value : Option F} {v₀ : F}
    (hmap : ∀ v, toMultiplier v = 0 ↔ v = v₀) : factorOf toMultiplier value = 0 ↔ value = some v₀ := by
  cases value with
  | none => exact iff_of_false one_ne_zero (Option.some_ne_none v₀).symm
  | some v => exact (hmap v).trans Option.some_inj.symm

omit [LinearOrder F] [IsStrictOrderedRing F] in
/-- Nothing is left when one of the factors leaves nothing. -/
theorem multiplier_eq_zero_iff : factors.multiplier = 0 ↔ factors.Void := by
  have hdiscount : ∀ v : F, 1 - v = 0 ↔ v = 1 := fun v => sub_eq_zero.trans eq_comm
  unfold ValidityFactors.multiplier ValidityFactors.Void
  rw [mul_eq_zero, mul_eq_zero, factorOf_eq_zero_iff hdiscount, factorOf_eq_zero_iff hdiscount,
    factorOf_eq_zero_iff fun v => Iff.rfl, or_assoc]

/-- Neither end of the base interval is further from the estimate than half of its width, widened
when the grader is doubted. -/
def Centred (base : Interval F) (factors : ValidityFactors F) : Prop :=
  base.estimate - base.lower ≤
      (base.upper - base.lower) / 2 * factors.verifierConfidence.elim 1 (fun v => 2 - v) ∧
    base.upper - base.estimate ≤
      (base.upper - base.lower) / 2 * factors.verifierConfidence.elim 1 (fun v => 2 - v)

omit [LinearOrder F] [IsStrictOrderedRing F] in
/-- The widening. -/
theorem uncertaintyInflation_eq (factors : ValidityFactors F) :
    factors.uncertaintyInflation = factors.verifierConfidence.elim 1 (fun v => 2 - v) := by
  unfold ValidityFactors.uncertaintyInflation
  cases factors.verifierConfidence with
  | none => rfl
  | some v =>
    simp only [Option.elim_some]
    ring

/-- A side that is long enough before it is scaled. -/
theorem scaled_le_iff {m x y : F} (hm : 0 ≤ m) : m * x ≤ m * y ↔ m = 0 ∨ x ≤ y := by
  rcases hm.eq_or_lt with rfl | hpos
  · simp
  · rw [mul_le_mul_iff_right₀ hpos]
    simp [hpos.ne']

/-- The interval covers the scaled base interval when nothing is left, or when the estimate is in the
middle of the base interval up to the widening. -/
theorem compositeScore_covers_iff (hbase : base.Unit) (hfactors : factors.Fractions) :
    (∃ result, compositeScore base factors = .ok result ∧ result.Sound ∧
      result.Covers base) ↔ factors.Void ∨ Centred base factors := by
  obtain ⟨result, hresult, hproduct, hscore, hlower, hupper⟩ := exists_compositeScore base hfactors
  have hsound : result.Sound := by
    obtain ⟨other, hother, hsound⟩ := compositeScore_sound hbase hfactors
    rwa [← Except.ok.inj (hother.symm.trans hresult)]
  obtain ⟨hm, hm'⟩ := hfactors.multiplier_mem
  have hreach : reach base factors = factors.multiplier * ((base.upper - base.lower) / 2 *
      factors.verifierConfidence.elim 1 (fun v => 2 - v)) := by
    unfold reach
    rw [uncertaintyInflation_eq]
    ring
  have hbelow : result.lower ≤ product result.applied * base.lower ↔ factors.multiplier = 0 ∨
      base.estimate - base.lower ≤
        (base.upper - base.lower) / 2 * factors.verifierConfidence.elim 1 (fun v => 2 - v) := by
    have hnonneg := mul_nonneg hm hbase.lower_nonneg
    rw [hlower, hproduct, max_le_iff, and_iff_right hnonneg, ← scaled_le_iff hm, ← hreach,
      sub_le_iff_le_add, mul_sub, sub_le_iff_le_add, mul_comm base.estimate, add_comm]
  have habove : product result.applied * base.upper ≤ result.upper ↔ factors.multiplier = 0 ∨
      base.upper - base.estimate ≤
        (base.upper - base.lower) / 2 * factors.verifierConfidence.elim 1 (fun v => 2 - v) := by
    have hle := mul_le_one₀ hm' (hbase.lower_nonneg.trans
      (hbase.lower_le.trans hbase.le_upper)) hbase.upper_le_one
    rw [hupper, hproduct, le_min_iff, and_iff_right hle, ← scaled_le_iff hm, ← hreach,
      mul_sub, sub_le_iff_le_add, mul_comm base.estimate, add_comm]
  rw [← multiplier_eq_zero_iff]
  unfold Centred
  rw [or_and_left, ← hbelow, ← habove]
  constructor
  · rintro ⟨other, hother, -, hcovers⟩
    rwa [Except.ok.inj (hother.symm.trans hresult)] at hcovers
  · intro hcovers
    exact ⟨result, hresult, hsound, hcovers⟩

/-- No success in ten runs: the estimate is at the lower end. -/
def noneOfTen : Interval ℚ where
  estimate := 0
  lower := 0
  upper := 3 / 10
  method := .clopperPearson
  n := 10
  clusters := 10
  varianceInflation := none
  rationale := js "exact"

/-- A score that was not adjusted, with an interval of half the length. -/
theorem composite_noneOfTen : noneOfTen.Unit ∧
    (ValidityFactors.mk none none none : ValidityFactors ℚ).Fractions ∧
    ¬∃ result, compositeScore noneOfTen ⟨none, none, none⟩ = .ok result ∧ result.Sound ∧
      result.Covers noneOfTen := by
  have hfactors : (ValidityFactors.mk none none none : ValidityFactors ℚ).Fractions := by
    constructor
    all_goals
      intro v hv
      cases hv
  refine ⟨⟨le_rfl, le_rfl, ?_, ?_⟩, hfactors, ?_⟩
  · norm_num [noneOfTen]
  · norm_num [noneOfTen]
  · rintro ⟨_, hother, -, ⟨-, hcovers⟩⟩
    obtain ⟨result, hresult, hproduct, -, -, hupper⟩ := exists_compositeScore noneOfTen hfactors
    rw [Except.ok.inj (hother.symm.trans hresult)] at hcovers
    rw [hproduct, hupper] at hcovers
    norm_num [noneOfTen, reach, ValidityFactors.multiplier, factorOf,
      ValidityFactors.uncertaintyInflation] at hcovers

/-- A score in the middle of its interval. -/
theorem covers_middle : (∃ result,
      compositeScore ⟨1 / 2, 1 / 4, 3 / 4, .clusterBootstrap, 40, 8, none, js "bootstrap"⟩
        (⟨some (1 / 10), none, some (9 / 10)⟩ : ValidityFactors ℚ) = .ok result ∧ result.Sound ∧
      result.Covers ⟨1 / 2, 1 / 4, 3 / 4, .clusterBootstrap, 40, 8, none, js "bootstrap"⟩) ↔
    (⟨some (1 / 10), none, some (9 / 10)⟩ : ValidityFactors ℚ).Void ∨
      @Centred ℚ _ _ ⟨1 / 2, 1 / 4, 3 / 4, .clusterBootstrap, 40, 8, none, js "bootstrap"⟩
        ⟨some (1 / 10), none, some (9 / 10)⟩ := by
  refine compositeScore_covers_iff ⟨?_, ?_, ?_, ?_⟩ ⟨?_, ?_, ?_⟩
  case refine_6 =>
    intro v hv
    cases hv
  all_goals norm_num [IsFraction]

end

end AgentEval.Scoring
