import AgentEval.Finance.RateAmount
import AgentEval.Finance.Numeral
import AgentEval.Finance.Negated

/-!
# Rates, however they are written

* `verdict_of_spelling` — the verdict depends on the rate alone.
* **`equal_rates`**: a percentage, the same in basis points and the same as a bare number.
-/

namespace AgentEval.Finance.Answers

open Js

/-- A text that, if it can be read, carries percent or basis points. -/
def Marked {V : Type} (A : Arithmetic V) (text : JsString) : Prop :=
  ∀ q, A.parseFinancialNumber text {} = .ok q → CarriesFraction q

/-- The rate a numeral stands for. -/
def rate (n : Numeral) : Spelling → ℚ
  | .percent => n.value / 100
  | .bps => n.value / 10000
  | .bare => n.value

section

variable {F : Type} [Field F] [LinearOrder F] [FloorRing F]
  {toText : F → JsString} {log10 tenTo : F → F} {tolerance : Tolerance F} {expectedText : JsString}
  {e q : Quantity F}

/-- What is read of a numeral, without rounding. -/
theorem unrounded_parse (n : Numeral) (m : Spelling) :
    ∃ q, (unrounded toText log10 tenTo).parseFinancialNumber (n.text ++ m.suffix) {} = .ok q ∧
      q.currency = none ∧ q.unit = m.unit ∧ q.unitExplicit = m.explicit ∧ q.value = (n.value : F) := by
  obtain ⟨q, hparse, hcurrency, hunit, hexplicit, hvalue⟩ :=
    @Numeral.parse_eq_ok F (unrounded toText log10 tenTo) n m rfl
  refine ⟨q, hparse, hcurrency, hunit, hexplicit, hvalue.trans ?_⟩
  have hmagnitude : (unrounded toText log10 tenTo).mul ((unrounded toText log10 tenTo).ofText n.body)
      ((unrounded toText log10 tenTo).ofNat 1) = (numeralValue n.body : F) := by
    change (numeralValue n.body : F) * ((1 : ℕ) : F) = _
    rw [Nat.cast_one, mul_one]
  rw [hmagnitude]
  unfold Numeral.value
  rw [Numeral.numeralValue_body]
  split_ifs
  · rw [neg_one_mul, Rat.cast_neg]
    rfl
  · rw [one_mul]

/-- As a ratio it is the rate. -/
theorem toRatio_spelling (n : Numeral) (m : Spelling) (hunit : q.unit = m.unit)
    (hexplicit : q.unitExplicit = m.explicit) (hvalue : q.value = (n.value : F)) :
    toRatio (unrounded toText log10 tenTo) q.value (if q.unitExplicit then q.unit else .ratio) =
      (rate n m : F) := by
  rw [hunit, hexplicit, hvalue]
  cases m with
  | percent =>
    change (n.value : F) / ((100 : ℕ) : F) = ((n.value / 100 : ℚ) : F)
    push_cast
    rfl
  | bps =>
    change (n.value : F) / ((10000 : ℕ) : F) = ((n.value / 10000 : ℚ) : F)
    push_cast
    rfl
  | bare => rfl

/-- A rate that is expected is compared as a ratio. -/
theorem verdict_of_rate {V : Type} {A : Arithmetic V} {e q : Quantity V} {tolerance : Tolerance V}
    (he : CarriesFraction e) (hcurrency : q.currency = none)
    (hunit : q.unitExplicit = true → isFractionUnit q.unit = true) :
    (compareParsed A e q { tolerance := tolerance }).verdict =
      if withinTolerance A (toRatio A e.value e.unit)
        (toRatio A q.value (if q.unitExplicit then q.unit else .ratio)) tolerance = true
      then .equivalent else .different := by
  obtain ⟨hexplicit, hfraction⟩ := he.isFractionUnit
  have hpriced : currencyRefusal e q { tolerance := tolerance } = none := by
    unfold currencyRefusal
    rw [hcurrency]
    cases e.currency with
    | none => rfl
    | some code => rfl
  have hunits : unitRefusal e q { tolerance := tolerance } = none := by
    unfold unitRefusal
    rw [hexplicit]
    cases hactual : q.unitExplicit with
    | false => rfl
    | true =>
      dsimp only
      rw [hfraction, hunit hactual, if_neg fun h => h rfl]
  have hcomparables : comparables A e q { tolerance := tolerance } =
      (toRatio A e.value e.unit,
        toRatio A q.value (if q.unitExplicit then q.unit else .ratio)) := by
    unfold comparables
    rw [hfraction, if_pos rfl]
  rw [compareParsed_of_admitted ⟨hpriced, hunits⟩, verdict_compareMagnitudes, hcomparables]

/-- **The verdict depends on the rate alone.** -/
theorem verdict_of_spelling (hmarked : Marked (unrounded toText log10 tenTo) expectedText)
    {n n' : Numeral} {m m' : Spelling} (h : rate n m = rate n' m') :
    (compareFinancialAnswers (unrounded toText log10 tenTo) expectedText (n.text ++ m.suffix)
        { tolerance := tolerance }).verdict =
      (compareFinancialAnswers (unrounded toText log10 tenTo) expectedText (n'.text ++ m'.suffix)
        { tolerance := tolerance }).verdict := by
  have hfraction : ∀ m : Spelling, m.explicit = true → isFractionUnit m.unit = true := by
    intro m
    cases m <;> decide
  cases hexpected : (unrounded toText log10 tenTo).parseFinancialNumber expectedText {} with
  | error e =>
    unfold compareFinancialAnswers
    dsimp only
    rw [hexpected]
  | ok e =>
    obtain ⟨q, hparse, hcurrency, hunit, hexplicit, hvalue⟩ :=
      @unrounded_parse F _ _ _ toText log10 tenTo n m
    obtain ⟨q', hparse', hcurrency', hunit', hexplicit', hvalue'⟩ :=
      @unrounded_parse F _ _ _ toText log10 tenTo n' m'
    rw [@compareFinancialAnswers_of_parse _ _ e q { tolerance := tolerance } _ _ hexpected hparse,
      @compareFinancialAnswers_of_parse _ _ e q' { tolerance := tolerance } _ _ hexpected hparse',
      verdict_of_rate (hmarked e hexpected) hcurrency,
      verdict_of_rate (hmarked e hexpected) hcurrency',
      toRatio_spelling n m hunit hexplicit hvalue, toRatio_spelling n' m' hunit' hexplicit' hvalue', h]
    · rw [hexplicit', hunit']
      exact hfraction m'
    · rw [hexplicit, hunit]
      exact hfraction m

/-- **Equal rates get the same verdict**: a numeral with a percent sign, the one with its point two
places further right in basis points, and the one with its point two places further left alone. -/
theorem equal_rates (toText : F → JsString) (log10 tenTo : F → F) (expectedText : JsString)
    (tolerance : Tolerance F) (d r l : Numeral)
    (hmarked : Marked (unrounded toText log10 tenTo) expectedText)
    (hright : r.value = d.moveRight.value) (hleft : l.value = d.moveLeft.value) :
    (compareFinancialAnswers (unrounded toText log10 tenTo) expectedText (d.text ++ js "%")
          { tolerance := tolerance }).verdict =
        (compareFinancialAnswers (unrounded toText log10 tenTo) expectedText (r.text ++ js " bps")
          { tolerance := tolerance }).verdict ∧
      (compareFinancialAnswers (unrounded toText log10 tenTo) expectedText (d.text ++ js "%")
          { tolerance := tolerance }).verdict =
        (compareFinancialAnswers (unrounded toText log10 tenTo) expectedText l.text
          { tolerance := tolerance }).verdict := by
  rw [Numeral.value_moveRight] at hright
  rw [Numeral.value_moveLeft] at hleft
  have hbps : rate d .percent = rate r .bps := by
    unfold rate
    rw [hright]
    ring
  have hbare : rate d .percent = rate l .bare := by
    unfold rate
    rw [hleft]
  have hnone := @verdict_of_spelling F _ _ _ toText log10 tenTo tolerance _ hmarked _ _ _ _ hbare
  rw [show l.text ++ Spelling.bare.suffix = l.text from List.append_nil _] at hnone
  exact ⟨verdict_of_spelling hmarked hbps, hnone⟩

end

/-- Twelve and a half. -/
def twelveAndHalf : Numeral where
  sign := []
  int := js "12"
  frac := js "5"
  sign_mem := by decide
  digits := by unfold Digits; decide
  ne_nil := by decide

/-- `12.5%`, `1250 bps` and `0.125`, where `12.5%` is expected. -/
theorem equal_rates_twelveAndHalf :
    (compareFinancialAnswers (@unrounded ℚ _ _ _ (fun _ => []) id id) (js "12.5%") (js "12.5%")
          { tolerance := .exact }).verdict =
        (compareFinancialAnswers (@unrounded ℚ _ _ _ (fun _ => []) id id) (js "12.5%")
          (js "1250 bps") { tolerance := .exact }).verdict ∧
      (compareFinancialAnswers (@unrounded ℚ _ _ _ (fun _ => []) id id) (js "12.5%") (js "12.5%")
          { tolerance := .exact }).verdict =
        (compareFinancialAnswers (@unrounded ℚ _ _ _ (fun _ => []) id id) (js "12.5%")
          (js "0.125") { tolerance := .exact }).verdict := by
  have hpercent : twelveAndHalf.text ++ js "%" = js "12.5%" := rfl
  have hbps : twelveAndHalf.moveRight.text ++ js " bps" = js "1250 bps" := rfl
  have hbare : twelveAndHalf.moveLeft.text = js "0.125" := rfl
  have hmarked : Marked (@unrounded ℚ _ _ _ (fun _ => []) id id) (js "12.5%") := by
    intro q hq
    obtain ⟨q', hparse, -, hunit, hexplicit, -⟩ :=
      @unrounded_parse ℚ _ _ _ (fun _ => []) id id twelveAndHalf .percent
    obtain rfl := Except.ok.inj (hq.symm.trans hparse)
    exact ⟨hexplicit, .inl hunit⟩
  have h := equal_rates (fun _ => []) id id (js "12.5%") .exact twelveAndHalf
    twelveAndHalf.moveRight twelveAndHalf.moveLeft hmarked rfl rfl
  rwa [hpercent, hbps, hbare] at h

end AgentEval.Finance.Answers
