import AgentEval.Finance.Compare
import AgentEval.Finance.Currency
import AgentEval.Finance.Digits

/-!
# Rates against amounts of money

* `unit_of_parse` — without a default, a unit that the text does not name is that of a count.
* **`rate_amount_iff`**: when a rate and an amount of money are not equivalent.
-/

namespace AgentEval.Finance.Answers

open Js

section

variable {V : Type} {A : Arithmetic V} {n expected actual : Quantity V} {options : CompareOptions V}
  {input expectedText actualText : JsString}

/-- It carries percent or basis points. -/
def CarriesFraction (n : Quantity V) : Prop := n.unitExplicit = true ∧ (n.unit = .percent ∨ n.unit = .bps)

/-- A fraction unit and no currency. -/
def IsRate (n : Quantity V) : Prop := CarriesFraction n ∧ n.currency = none

/-- A currency and no fraction unit. -/
def IsAmount (n : Quantity V) : Prop := ¬CarriesFraction n ∧ n.currency ≠ none

/-- The unit that is read, when none is assumed. -/
theorem readUnit_none (text : JsString) :
    ((readUnit none text).explicit = true ∧
        ((readUnit none text).unit = .percent ∨ (readUnit none text).unit = .bps)) ∨
      ((readUnit none text).explicit = false ∧ (readUnit none text).unit = .absolute) := by
  unfold readUnit
  split_ifs
  · exact .inl ⟨rfl, .inr rfl⟩
  · exact .inl ⟨rfl, .inl rfl⟩
  · exact .inr ⟨rfl, rfl⟩

/-- Without a default, a unit that the text does not name is that of a count. -/
theorem unit_of_parse {locale : Option NumberLocale}
    (h : A.parseFinancialNumber input { locale := locale } = .ok n) :
    CarriesFraction n ∨ n.unitExplicit = false ∧ n.unit = .absolute := by
  obtain ⟨-, -, signed, -, hamount⟩ := Arithmetic.parse_eq_ok_iff.mp h
  obtain ⟨priced, scaled, decoded, -, -, -, rfl⟩ := Arithmetic.readAmount_eq_ok_iff.mp hamount
  unfold CarriesFraction
  rw [(Arithmetic.unit_quantity A).1, (Arithmetic.unit_quantity A).2]
  exact readUnit_none (countryQualifier.replace (fun _ => js " ") priced.text)

/-- What is compared are the parsed texts. -/
theorem compareFinancialAnswers_of_parse
    (hexpected : A.parseFinancialNumber expectedText { locale := options.locale } = .ok expected)
    (hactual : A.parseFinancialNumber actualText { locale := options.locale } = .ok actual) :
    compareFinancialAnswers A expectedText actualText options =
      compareParsed A expected actual options := by
  unfold compareFinancialAnswers
  dsimp only
  rw [hexpected, hactual]

/-- A rate is in the fraction family, and says so. -/
theorem CarriesFraction.isFractionUnit (h : CarriesFraction n) :
    n.unitExplicit = true ∧ isFractionUnit n.unit = true := by
  refine ⟨h.1, ?_⟩
  rcases h.2 with hunit | hunit
  · rw [hunit]
    rfl
  · rw [hunit]
    rfl

/-- A bare number is compared with a rate, unless the unit has to be stated. -/
theorem equivalent_iff_of_rate (hexpected : IsRate expected) (hactual : actual.unitExplicit = false) :
    (compareParsed A expected actual options).verdict = .equivalent ↔
      options.requireExplicitUnit = false ∧
        withinTolerance A (toRatio A expected.value expected.unit)
          (toRatio A actual.value options.bareNumberUnit) options.tolerance = true := by
  obtain ⟨hexplicit, hfraction⟩ := hexpected.1.isFractionUnit
  have hcurrency : currencyRefusal expected actual options = none := by
    unfold currencyRefusal
    rw [hexpected.2]
  have hcomparables : comparables A expected actual options =
      (toRatio A expected.value expected.unit, toRatio A actual.value options.bareNumberUnit) := by
    unfold comparables
    rw [hfraction, if_pos rfl, hactual, if_neg Bool.false_ne_true]
  have hadmitted : Admitted expected actual options ↔ options.requireExplicitUnit = false := by
    unfold Admitted unitRefusal
    rw [and_iff_right hcurrency, hexplicit, hactual]
    dsimp only
    cases options.requireExplicitUnit with
    | false => exact iff_of_true (if_neg Bool.false_ne_true) rfl
    | true => exact iff_of_false (by simp) Bool.noConfusion
  rw [equivalent_iff, hadmitted, hcomparables]

/-- A rate in the answer is refused where an amount is expected. -/
theorem ne_equivalent_of_amount (hexpected : n.unitExplicit = false ∧ n.unit = .absolute)
    (hactual : IsRate actual) : (compareParsed A n actual options).verdict ≠ .equivalent := by
  obtain ⟨hexplicit, hfraction⟩ := hactual.1.isFractionUnit
  have hunits : unitRefusal n actual options = some (mismatch n actual) := by
    unfold unitRefusal
    rw [hexpected.1, hexplicit]
    dsimp only
    rw [hexpected.2, hfraction]
    rfl
  rw [Ne, equivalent_iff]
  rintro ⟨⟨-, hnone⟩, -⟩
  rw [hunits] at hnone
  cases hnone

end

/-- The numbers of the language, where neither logarithm nor power is asked for. -/
def plainDoubles : Arithmetic Number := doubles id id

/-- A number of digits alone. -/
theorem decodeDigits_small {n : ℕ} (hn : n < 2 ^ 53) {token : JsString}
    (hdigits : ∀ u ∈ token, isDigit u = true) (hvalue : digitsValue token = n) :
    ∃ precision, plainDoubles.decodeDigits token .en = .ok ⟨.ofNat n, precision⟩ := by
  have hfinite : (Number.ofRat (digitsValue token)).isFinite = true := by
    rw [hvalue]
    change (Number.ofNat n).isFinite = true
    rw [Number.ofNat_eq hn]
    rfl
  obtain ⟨d, hd, hnumber⟩ := @decodeDigits_of_digits .en _ hdigits hfinite
  refine ⟨d.precision, ?_⟩
  unfold plainDoubles
  rw [doubles_decodeDigits, hd]
  refine congrArg Except.ok ?_
  unfold DigitsOk.toDecoded
  rw [hnumber, hvalue]
  rfl

/-- A whole number times one. -/
theorem ofNat_mul_one {n : ℕ} (hn : n < 2 ^ 53) : (Number.ofNat n).mul (.ofNat 1) = .ofNat n := by
  rw [Number.ofNat_eq hn]
  exact Number.mul_ofNat_one (Nat.cast_nonneg n)

/-- A percentage. -/
theorem parse_hundredPercent : ∃ n, plainDoubles.parseFinancialNumber (js "100%") {} = .ok n ∧
    IsRate n ∧ n.unit = .percent ∧ n.value = .ofNat 100 := by
  have hpriced : readCurrency (js "100%") = .ok ⟨[], none, false, js "100%"⟩ :=
    readCurrency_eq_ok_iff.mpr ⟨by rfl, Nat.zero_le 1⟩
  have hunit : afterUnit {} ⟨[], none, false, js "100%"⟩ = ⟨.percent, true, js "100 "⟩ := by rfl
  have hscaled : plainDoubles.readScale (js "100 ") = .ok ⟨[], .ofNat 1, none, js "100 "⟩ :=
    Arithmetic.readScale_of_forall (by decide)
  have hrewritten : plainDoubles.rewritten (js "100%") = js "100%" := by rfl
  have hchained : chainedScales.test (js "100%") = false := by rfl
  have hsigned : readSign (js "100%") = .ok ⟨false, .none, js "100%"⟩ := by rfl
  have htoken : tokensOf (js "100 ") = [js "100"] := by rfl
  obtain ⟨precision, hdecoded⟩ := @decodeDigits_small 100 (by norm_num) (js "100") (by decide) rfl
  rw [← hrewritten] at hchained
  have hsigned' : readSign (plainDoubles.rewritten (js "100%")) = .ok ⟨false, .none, js "100%"⟩ := by
    rw [hrewritten]
    exact hsigned
  have hscaled' : plainDoubles.readScale (afterUnit {} ⟨[], none, false, js "100%"⟩).text =
      .ok ⟨[], .ofNat 1, none, js "100 "⟩ := by
    rw [hunit]
    exact hscaled
  refine ⟨_, Arithmetic.parse_of_steps (by rfl) hchained hsigned' hpriced hscaled' htoken hdecoded,
    ⟨⟨?_, .inl ?_⟩, rfl⟩, ?_, ofNat_mul_one (by norm_num)⟩
  · rw [(Arithmetic.unit_quantity _).2, hunit]
  · rw [(Arithmetic.unit_quantity _).1, hunit]
  · rw [(Arithmetic.unit_quantity _).1, hunit]

/-- An amount. -/
theorem parse_oneDollar : ∃ n, plainDoubles.parseFinancialNumber (js "$1") {} = .ok n ∧
    IsAmount n ∧ n.value = .ofNat 1 := by
  have hpriced : readCurrency (js "$1") = .ok ⟨[js "USD"], some (js "USD"), true, js " 1"⟩ :=
    readCurrency_eq_ok_iff.mpr ⟨by rfl, le_rfl⟩
  have hunit : afterUnit {} ⟨[js "USD"], some (js "USD"), true, js " 1"⟩ =
      ⟨.absolute, false, js " 1"⟩ := by rfl
  have hscaled : plainDoubles.readScale (js " 1") = .ok ⟨[], .ofNat 1, none, js " 1"⟩ :=
    Arithmetic.readScale_of_forall (by decide)
  have hrewritten : plainDoubles.rewritten (js "$1") = js "$1" := by rfl
  have hchained : chainedScales.test (js "$1") = false := by rfl
  have hsigned : readSign (js "$1") = .ok ⟨false, .none, js "$1"⟩ := by rfl
  have htoken : tokensOf (js " 1") = [js "1"] := by rfl
  obtain ⟨precision, hdecoded⟩ := @decodeDigits_small 1 (by norm_num) (js "1") (by decide) rfl
  rw [← hrewritten] at hchained
  have hsigned' : readSign (plainDoubles.rewritten (js "$1")) = .ok ⟨false, .none, js "$1"⟩ := by
    rw [hrewritten]
    exact hsigned
  have hscaled' : plainDoubles.readScale
      (afterUnit {} ⟨[js "USD"], some (js "USD"), true, js " 1"⟩).text =
        .ok ⟨[], .ofNat 1, none, js " 1"⟩ := by
    rw [hunit]
    exact hscaled
  refine ⟨_, Arithmetic.parse_of_steps (by rfl) hchained hsigned' hpriced hscaled' htoken hdecoded,
    ⟨?_, ?_⟩, ofNat_mul_one (by norm_num)⟩
  · unfold CarriesFraction
    rw [(Arithmetic.unit_quantity _).2, hunit]
    exact fun h => Bool.noConfusion h.1
  · rw [Arithmetic.currency_quantity]
    exact Option.some_ne_none _

section

variable {V : Type} {A : Arithmetic V} {expected actual : Quantity V} {options : CompareOptions V}
  {expectedText actualText : JsString}

/-- **A rate and an amount of money are not equivalent** when the rate is in the answer, when the
unit has to be stated, or when the amount, read as the bare number that it is not, misses the rate. -/
theorem rate_amount_iff
    (hexpected : A.parseFinancialNumber expectedText { locale := options.locale } = .ok expected)
    (hactual : A.parseFinancialNumber actualText { locale := options.locale } = .ok actual)
    (h : IsRate expected ∧ IsAmount actual ∨ IsAmount expected ∧ IsRate actual) :
    (compareFinancialAnswers A expectedText actualText options).verdict ≠ .equivalent ↔
      IsRate actual ∨ options.requireExplicitUnit = true ∨
        withinTolerance A (toRatio A expected.value expected.unit)
          (toRatio A actual.value options.bareNumberUnit) options.tolerance = false := by
  rw [compareFinancialAnswers_of_parse hexpected hactual]
  rcases h with ⟨hrate, hamount⟩ | ⟨hamount, hrate⟩
  · have hbare := (unit_of_parse hactual).resolve_left hamount.1
    have hnot : ¬IsRate actual := fun hrate' => hamount.1 hrate'.1
    rw [or_iff_right hnot, Ne, equivalent_iff_of_rate hrate hbare.1, not_and_or, Bool.not_eq_false,
      Bool.not_eq_true]
  · have hbare := (unit_of_parse hexpected).resolve_left hamount.1
    exact iff_of_true (ne_equivalent_of_amount hbare hrate) (.inl hrate)

end

/-- A rate is not an amount, the other way round. -/
theorem rate_amount_dollarPercent :
    ∃ e a, plainDoubles.parseFinancialNumber (js "$1") {} = .ok e ∧
      plainDoubles.parseFinancialNumber (js "100%") {} = .ok a ∧
      ((compareFinancialAnswers plainDoubles (js "$1") (js "100%") { tolerance := .exact }).verdict ≠
          .equivalent ↔
        IsRate a ∨ false = true ∨ withinTolerance plainDoubles (toRatio plainDoubles e.value e.unit)
          (toRatio plainDoubles a.value .ratio) .exact = false) := by
  obtain ⟨e, he, hamount, -⟩ := parse_oneDollar
  obtain ⟨a, ha, hrate, -⟩ := parse_hundredPercent
  exact ⟨e, a, he, ha, @rate_amount_iff _ plainDoubles e a { tolerance := .exact } _ _ he ha
    (.inr ⟨hamount, hrate⟩)⟩

/-- **A dollar passes for a hundred percent.** -/
theorem dollar_equivalent_to_percent :
    ∃ e a, plainDoubles.parseFinancialNumber (js "100%") {} = .ok e ∧
      plainDoubles.parseFinancialNumber (js "$1") {} = .ok a ∧ IsRate e ∧ IsAmount a ∧
      (compareFinancialAnswers plainDoubles (js "100%") (js "$1") { tolerance := .exact }).verdict =
        .equivalent := by
  obtain ⟨e, he, hrate, hunit, hvalue⟩ := parse_hundredPercent
  obtain ⟨a, ha, hamount, hvalue'⟩ := parse_oneDollar
  have hbare := (@unit_of_parse _ _ _ _ none ha).resolve_left hamount.1
  have hratio : (Number.ofNat 100).div (.ofNat 100) = .ofNat 1 := by
    have hdiv := Number.div_ofInt (a := 100) (b := 100) (by norm_num) (by norm_num) (by norm_num)
    have hone : ((100 : ℤ) : ℚ) / ((100 : ℕ) : ℚ) = ((1 : ℕ) : ℚ) := by norm_num
    rw [hone] at hdiv
    exact hdiv
  refine ⟨e, a, he, ha, hrate, hamount, ?_⟩
  rw [@compareFinancialAnswers_of_parse _ _ _ _ { tolerance := .exact } _ _ he ha,
    equivalent_iff_of_rate hrate hbare.1, hunit, hvalue, hvalue']
  refine ⟨rfl, ?_⟩
  change Number.eq ((Number.ofNat 100).div (.ofNat 100)) (.ofNat 1) = true
  rw [hratio, Number.eq_ofNat_self]

end AgentEval.Finance.Answers
