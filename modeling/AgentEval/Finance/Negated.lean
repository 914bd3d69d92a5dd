import Mathlib.Analysis.SpecialFunctions.Log.Base
import Mathlib.Analysis.SpecialFunctions.Pow.Real
import AgentEval.Finance.Compare

/-!
# Both numbers replaced by their negatives

Over the reals. Halves are rounded up, so the negative of a tie is rounded to another multiple.

* `withinTolerance_neg` — without significant figures the tolerance does not see the sign.
* **`negated_iff`**: when the verdict is the same for the negatives.
-/

namespace AgentEval.Finance.Answers

open Js

/-- The real numbers; how they are written is a parameter. -/
noncomputable def reals (toText : ℝ → JsString) : Arithmetic ℝ :=
  unrounded toText (Real.logb 10) fun x => 10 ^ x

/-- A quantity with the opposite value. -/
def negate {V : Type} (A : Arithmetic V) (n : Quantity V) : Quantity V :=
  { n with value := A.neg n.value }

section

variable {V : Type} {A : Arithmetic V} {expected actual : Quantity V} {options : CompareOptions V}

/-- The verdict: that of the first check that refuses, or that of the tolerance. -/
theorem verdict_compareParsed : (compareParsed A expected actual options).verdict =
    ((currencyRefusal expected actual options).map Comparison.verdict).getD
      (((unitRefusal expected actual options).map Comparison.verdict).getD
        (compareMagnitudes A expected actual options).verdict) := by
  unfold compareParsed
  cases currencyRefusal expected actual options with
  | some refusal => rfl
  | none =>
    cases unitRefusal expected actual options with
    | some refusal => rfl
    | none => rfl

/-- The checks do not see the values. -/
theorem map_verdict_currencyRefusal :
    (currencyRefusal (negate A expected) (negate A actual) options).map Comparison.verdict =
      (currencyRefusal expected actual options).map Comparison.verdict := by
  unfold currencyRefusal negate
  dsimp only
  cases expected.currency with
  | none => rfl
  | some e =>
    cases actual.currency with
    | none =>
      dsimp only
      split_ifs <;> rfl
    | some a =>
      dsimp only
      split_ifs <;> rfl

/-- None of them. -/
theorem map_verdict_unitRefusal :
    (unitRefusal (negate A expected) (negate A actual) options).map Comparison.verdict =
      (unitRefusal expected actual options).map Comparison.verdict := by
  unfold unitRefusal negate
  dsimp only
  cases expected.unitExplicit with
  | false =>
    cases actual.unitExplicit with
    | false => rfl
    | true =>
      dsimp only
      split_ifs <;> rfl
  | true =>
    cases actual.unitExplicit with
    | false =>
      dsimp only
      split_ifs <;> rfl
    | true =>
      dsimp only
      split_ifs <;> rfl

end

section

variable {toText : ℝ → JsString} {expected actual : Quantity ℝ} {options : CompareOptions ℝ}
  {digits v e a : ℝ}

/-- What a number is multiplied by before it is rounded to some significant figures. -/
noncomputable def factor (digits v : ℝ) : ℝ := 10 ^ (digits - ⌈Real.logb 10 |v|⌉)

/-- A number that ends in exactly one half behind its significant figures. -/
def Tie (digits v : ℝ) : Prop := Int.fract (v * factor digits v) = 1 / 2

/-- To significant figures, a half up. -/
noncomputable def halfUp (digits v : ℝ) : ℝ := ⌊v * factor digits v + 1 / 2⌋ / factor digits v

/-- To significant figures, a half down. -/
noncomputable def halfDown (digits v : ℝ) : ℝ := ⌈v * factor digits v - 1 / 2⌉ / factor digits v

/-- No tie decides whether the two numbers agree: neither is one, or both are, of one magnitude, or
they differ whichever way halves are rounded. -/
def NoTieDecides (digits e a : ℝ) : Prop :=
  (¬Tie digits e ∧ ¬Tie digits a) ∨
    (Tie digits e ∧ Tie digits a ∧ factor digits e = factor digits a) ∨
      (halfUp digits e ≠ halfUp digits a ∧ halfDown digits e ≠ halfDown digits a)

/-- The factor is positive. -/
theorem factor_pos : 0 < factor digits v := Real.rpow_pos_of_pos (by norm_num) _

/-- It does not depend on the sign. -/
theorem factor_neg : factor digits (-v) = factor digits v := by
  unfold factor
  rw [abs_neg]

/-- Halves are rounded up. -/
theorem toSignificantFigures_eq : toSignificantFigures (reals toText) v digits = halfUp digits v := by
  have hzero : halfUp digits 0 = 0 := by
    unfold halfUp
    rw [zero_mul, zero_add, Int.floor_eq_zero_iff.mpr (by norm_num), Int.cast_zero, zero_div]
  unfold toSignificantFigures
  by_cases hv : v = 0
  · subst hv
    have heq : (reals toText).eq 0 ((reals toText).ofNat 0) = true := decide_eq_true Nat.cast_zero.symm
    rw [heq, if_pos rfl, hzero]
    exact Nat.cast_zero
  · have heq : (reals toText).eq v ((reals toText).ofNat 0) = false := by
      apply decide_eq_false
      change ¬v = ((0 : ℕ) : ℝ)
      rwa [Nat.cast_zero]
    rw [heq, if_neg Bool.false_ne_true]
    rfl

/-- Two numbers agree to some significant figures. -/
theorem withinTolerance_significantFigures :
    withinTolerance (reals toText) e a (.significantFigures digits) =
      decide (halfUp digits e = halfUp digits a) := by
  unfold withinTolerance
  dsimp only
  rw [toSignificantFigures_eq, toSignificantFigures_eq]
  rfl

/-- So those of negative numbers are rounded down. -/
theorem halfUp_neg : halfUp digits (-v) = -halfDown digits v := by
  unfold halfUp halfDown
  rw [factor_neg]
  have hceil : ⌊-v * factor digits v + 1 / 2⌋ = -⌈v * factor digits v - 1 / 2⌉ := by
    rw [← Int.floor_neg]
    congr 1
    ring
  rw [hceil, Int.cast_neg, neg_div]

/-- Apart from ties, both ways to round agree. -/
theorem halfUp_of_not_tie (h : ¬Tie digits v) : halfUp digits v = halfDown digits v := by
  have hceil : ⌈v * factor digits v - 1 / 2⌉ = ⌊v * factor digits v + 1 / 2⌋ := by
    have hle := Int.floor_le (v * factor digits v + 1 / 2)
    have hlt := Int.lt_floor_add_one (v * factor digits v + 1 / 2)
    have hne : (⌊v * factor digits v + 1 / 2⌋ : ℝ) ≠ v * factor digits v + 1 / 2 := by
      intro heq
      apply h
      refine Int.fract_eq_iff.mpr ⟨by norm_num, by norm_num, ⌊v * factor digits v + 1 / 2⌋ - 1, ?_⟩
      push_cast
      linarith
    rw [Int.ceil_eq_iff]
    have hstrict := lt_of_le_of_ne hle hne
    constructor <;> linarith
  unfold halfUp halfDown
  rw [hceil]

/-- Of a tie, they are neighbours. -/
theorem halfUp_of_tie (h : Tie digits v) :
    halfUp digits v = halfDown digits v + 1 / factor digits v := by
  have hvalue := Int.floor_add_fract (v * factor digits v)
  rw [show Int.fract (v * factor digits v) = 1 / 2 from h] at hvalue
  have hceil : ⌈v * factor digits v - 1 / 2⌉ = ⌊v * factor digits v⌋ := by
    rw [Int.ceil_eq_iff]
    constructor <;> linarith
  have hfloor : ⌊v * factor digits v + 1 / 2⌋ = ⌊v * factor digits v⌋ + 1 := by
    rw [Int.floor_eq_iff]
    push_cast
    constructor <;> linarith
  unfold halfUp halfDown
  rw [hceil, hfloor, Int.cast_add, Int.cast_one, add_div]

/-- Of two things that exclude each other, neither holds just when they are equivalent. -/
theorem neither_iff {p q : Prop} (h : ¬(p ∧ q)) : ¬p ∧ ¬q ↔ (p ↔ q) := by tauto

/-- **No tie decides**: rounding halves up or down tells the two numbers apart alike. -/
theorem noTieDecides_iff : NoTieDecides digits e a ↔
    (halfUp digits e = halfUp digits a ↔ halfDown digits e = halfDown digits a) := by
  have he := one_div_pos.mpr (@factor_pos digits e)
  have ha := one_div_pos.mpr (@factor_pos digits a)
  unfold NoTieDecides
  by_cases hte : Tie digits e
  · by_cases hta : Tie digits a
    · rw [halfUp_of_tie hte, halfUp_of_tie hta]
      by_cases hfactor : factor digits e = factor digits a
      · rw [hfactor]
        exact iff_of_true (.inr (.inl ⟨hte, hta, rfl⟩)) (add_left_inj _)
      · have hboth : ¬(halfDown digits e + 1 / factor digits e =
            halfDown digits a + 1 / factor digits a ∧ halfDown digits e = halfDown digits a) := by
          rintro ⟨hup, hdown⟩
          rw [hdown, add_right_inj, one_div, one_div, inv_inj] at hup
          exact hfactor hup
        rw [← neither_iff hboth]
        simp [hte, hfactor]
    · have hboth : ¬(halfDown digits e + 1 / factor digits e = halfDown digits a ∧
          halfDown digits e = halfDown digits a) := by
        rintro ⟨hup, hdown⟩
        linarith
      rw [halfUp_of_tie hte, halfUp_of_not_tie hta, ← neither_iff hboth]
      simp [hte, hta]
  · by_cases hta : Tie digits a
    · have hboth : ¬(halfDown digits e = halfDown digits a + 1 / factor digits a ∧
          halfDown digits e = halfDown digits a) := by
        rintro ⟨hup, hdown⟩
        linarith
      rw [halfUp_of_not_tie hte, halfUp_of_tie hta, ← neither_iff hboth]
      simp [hte, hta]
    · rw [halfUp_of_not_tie hte, halfUp_of_not_tie hta]
      exact iff_of_true (.inl ⟨hte, hta⟩) Iff.rfl

/-- The numbers that are compared change their signs. -/
theorem comparables_negate :
    comparables (reals toText) (negate (reals toText) expected) (negate (reals toText) actual)
        options =
      (-(comparables (reals toText) expected actual options).1,
        -(comparables (reals toText) expected actual options).2) := by
  have hratio : ∀ (x : ℝ) (unit : Unit),
      toRatio (reals toText) (-x) unit = -toRatio (reals toText) x unit := by
    intro x unit
    cases unit with
    | absolute => rfl
    | percent => exact neg_div _ _
    | bps => exact neg_div _ _
    | ratio => rfl
  unfold comparables negate
  dsimp only
  cases isFractionUnit expected.unit with
  | false => rfl
  | true => exact Prod.ext (hratio _ _) (hratio _ _)

/-- What a tolerance says of the negatives. -/
theorem withinTolerance_neg (toText : ℝ → JsString) {tolerance : Tolerance ℝ} :
    withinTolerance (reals toText) (-e) (-a) tolerance =
        withinTolerance (reals toText) e a tolerance ↔
      ∀ digits, tolerance = .significantFigures digits → NoTieDecides digits e a := by
  have hzero : ∀ x : ℝ, (reals toText).eq (-x) ((reals toText).ofNat 0) =
      (reals toText).eq x ((reals toText).ofNat 0) := by
    intro x
    apply decide_eq_decide.mpr
    change -x = ((0 : ℕ) : ℝ) ↔ x = ((0 : ℕ) : ℝ)
    rw [Nat.cast_zero, neg_eq_zero]
  have hdifference : -a - -e = -(a - e) := by ring
  cases tolerance with
  | exact =>
    refine iff_of_true (decide_eq_decide.mpr neg_inj) ?_
    intro digits h
    cases h
  | absolute value =>
    refine iff_of_true (decide_eq_decide.mpr ?_) ?_
    · change |-a - -e| ≤ value ↔ |a - e| ≤ value
      rw [hdifference, abs_neg]
    · intro digits h
      cases h
  | relative value =>
    refine iff_of_true ?_ ?_
    · have hquotient : (reals toText).le (|(-a - -e) / -e|) value =
          (reals toText).le (|(a - e) / e|) value := by
        rw [hdifference, neg_div_neg_eq]
      unfold withinTolerance
      rw [hzero, hzero]
      split_ifs
      · rfl
      · exact hquotient
    · intro digits h
      cases h
  | significantFigures digits =>
    have hdown : (halfUp digits (-e) = halfUp digits (-a)) ↔ halfDown digits e = halfDown digits a := by
      rw [halfUp_neg, halfUp_neg, neg_inj]
    rw [withinTolerance_significantFigures, withinTolerance_significantFigures, decide_eq_decide,
      hdown, iff_comm (a := halfDown digits e = _), ← noTieDecides_iff]
    constructor
    · intro h digits' heq
      obtain rfl := Tolerance.significantFigures.inj heq
      exact h
    · intro h
      exact h digits rfl

/-- A verdict says whether the tolerance was kept. -/
theorem verdict_eq_iff {x y : Bool} :
    (if x = true then Verdict.equivalent else .different) =
      (if y = true then Verdict.equivalent else .different) ↔ x = y := by
  cases x <;> cases y <;> decide

/-- **Negating both numbers keeps the verdict** unless a tie decides whether they agree to some
significant figures. -/
theorem negated_iff (toText : ℝ → JsString) (expected actual : Quantity ℝ)
    (options : CompareOptions ℝ) :
    (compareParsed (reals toText) (negate (reals toText) expected) (negate (reals toText) actual)
          options).verdict =
        (compareParsed (reals toText) expected actual options).verdict ↔
      (Admitted expected actual options →
        ∀ digits, options.tolerance = .significantFigures digits →
          NoTieDecides digits (comparables (reals toText) expected actual options).1
            (comparables (reals toText) expected actual options).2) := by
  rw [verdict_compareParsed, verdict_compareParsed, map_verdict_currencyRefusal,
    map_verdict_unitRefusal, verdict_compareMagnitudes, verdict_compareMagnitudes,
    comparables_negate]
  unfold Admitted
  cases currencyRefusal expected actual options with
  | some refusal => simp
  | none =>
    cases unitRefusal expected actual options with
    | some refusal => simp
    | none =>
      rw [← withinTolerance_neg toText]
      exact verdict_eq_iff.trans ⟨fun h _ => h, fun h => h ⟨rfl, rfl⟩⟩

end

/-- A plain number. -/
noncomputable def plainQuantity (v : ℝ) : Quantity ℝ where
  value := v
  raw := []
  currency := none
  currencyAmbiguous := false
  unit := .absolute
  unitExplicit := false
  scale := 1
  scaleWord := none
  negative := false
  signConvention := .none
  precision := 0

/-- To one figure, `2.5` is `3`, and `-2.5` is not `-3`. -/
theorem not_negated_twoAndHalf :
    (compareParsed (reals fun _ => []) (plainQuantity 2.5) (plainQuantity 3)
        { tolerance := .significantFigures 1 }).verdict = .equivalent ∧
      (compareParsed (reals fun _ => []) (negate (reals fun _ => []) (plainQuantity 2.5))
        (negate (reals fun _ => []) (plainQuantity 3))
          { tolerance := .significantFigures 1 }).verdict = .different := by
  have hfactor : ∀ v : ℝ, 1 < v → v ≤ 10 → factor 1 v = 1 := by
    intro v hlow hhigh
    have hceil : ⌈Real.logb 10 |v|⌉ = 1 := by
      rw [abs_of_pos (by linarith), Int.ceil_eq_iff]
      refine ⟨?_, ?_⟩
      · rw [Int.cast_one, sub_self]
        exact Real.logb_pos (by norm_num) hlow
      · rw [Int.cast_one, Real.logb_le_iff_le_rpow (by norm_num) (by linarith), Real.rpow_one]
        exact hhigh
    unfold factor
    rw [hceil, Int.cast_one, sub_self, Real.rpow_zero]
  have hverdict : ∀ e a : ℝ, (compareParsed (reals fun _ => []) (plainQuantity e) (plainQuantity a)
      { tolerance := .significantFigures 1 }).verdict =
        if halfUp 1 e = halfUp 1 a then .equivalent else .different := by
    intro e a
    rw [compareParsed_of_admitted ⟨rfl, rfl⟩, verdict_compareMagnitudes]
    change (if withinTolerance (reals fun _ => []) e a (.significantFigures 1) = true then _ else _) = _
    rw [withinTolerance_significantFigures]
    simp only [decide_eq_true_eq]
  have htwo := hfactor 2.5 (by norm_num) (by norm_num)
  have hthree := hfactor 3 (by norm_num) (by norm_num)
  refine ⟨(hverdict 2.5 3).trans (if_pos ?_), (hverdict (-2.5) (-3)).trans (if_neg ?_)⟩
  · unfold halfUp
    rw [htwo, hthree]
    norm_num
  · rw [halfUp_neg, halfUp_neg]
    unfold halfDown
    rw [htwo, hthree]
    norm_num

end AgentEval.Finance.Answers
