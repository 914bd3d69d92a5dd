import AgentEval.Finance.Numeric

/-!
# What the steps of `parseFinancialNumber` do

* `parse_eq_ok_iff` — the steps a parsed text has passed.
* `mem_run_exponentNotation`, `parenthesised_search` — what the patterns match.
* `readSign_cases` — the three ways to read a sign.
-/

namespace AgentEval.Finance

open Js Regex Regex.Pattern

/-! ## The steps -/

/-- The text whose sign is read. -/
def rewritten (tenTo : Number → Number) (input : JsString) : JsString :=
  expandExponents tenTo (normalise (trim input))

/-- The text after the currency and the unit. -/
def afterUnit (options : ParseOptions) (priced : Priced) : Measured :=
  readUnit options.defaultUnit (countryQualifier.replace (fun _ => js " ") priced.text)

/-- The result of the steps. -/
def amount (options : ParseOptions) (input : JsString) (signed : Signed) (priced : Priced)
    (scaled : Scaled) (decoded : DigitsOk) : ParsedNumber where
  value := if signed.negative then (decoded.value.mul scaled.scale).neg
    else decoded.value.mul scaled.scale
  raw := input
  currency := priced.currency
  currencyAmbiguous := priced.ambiguous
  unit := (afterUnit options priced).unit
  unitExplicit := (afterUnit options priced).explicit
  scale := scaled.scale
  scaleWord := scaled.scaleWord
  negative := signed.negative
  signConvention := signed.convention
  precision := decoded.precision

section

variable {tenTo : Number → Number} {options : ParseOptions} {input : JsString} {r : ParsedNumber}
  {signed : Signed}

/-- A refusal is no result. -/
theorem error_ne_ok {ε α : Type} {e : ε} {a : α} : (.error e : Except ε α) ≠ .ok a := by
  intro h
  cases h

/-- A failure stays one. -/
theorem mapError_eq_ok_iff {ε ε' α : Type} {f : ε → ε'} {x : Except ε α} {a : α} :
    x.mapError f = .ok a ↔ x = .ok a := by
  cases x with
  | error e => exact ⟨fun h => absurd h error_ne_ok, fun h => absurd h error_ne_ok⟩
  | ok b => exact ⟨fun h => congrArg _ (Except.ok.inj h), fun h => congrArg _ (Except.ok.inj h)⟩

/-- One step before another. -/
theorem bind_eq_ok_iff {ε α β : Type} {x : Except ε α} {f : α → Except ε β} {b : β} :
    x.bind f = .ok b ↔ ∃ a, x = .ok a ∧ f a = .ok b := by
  cases x with
  | error e =>
    refine ⟨fun h => absurd h error_ne_ok, ?_⟩
    rintro ⟨a, h, -⟩
    exact absurd h error_ne_ok
  | ok a =>
    refine ⟨fun h => ⟨a, rfl, h⟩, ?_⟩
    rintro ⟨a', h, hb⟩
    obtain rfl := Except.ok.inj h
    exact hb

/-- What is read after the sign. -/
theorem readAmount_eq_ok_iff : readAmount options input signed = .ok r ↔
    ∃ priced scaled decoded, readCurrency signed.text = .ok priced ∧
      readScale (afterUnit options priced).text = .ok scaled ∧
      readDigits (options.locale.getD .en) scaled.text = .ok decoded ∧
      amount options input signed priced scaled decoded = r := by
  unfold readAmount
  rw [bind_eq_ok_iff]
  refine exists_congr fun priced => ?_
  dsimp only
  change _ ∧ (readScale (afterUnit options priced).text).bind _ = _ ↔ _
  rw [bind_eq_ok_iff, ← exists_and_left]
  refine exists_congr fun scaled => ?_
  cases hdecoded : readDigits (options.locale.getD .en) scaled.text with
  | error e =>
    constructor
    · rintro ⟨-, -, h⟩
      exact absurd h error_ne_ok
    · rintro ⟨decoded, -, -, h, -⟩
      exact absurd h error_ne_ok
  | ok decoded =>
    constructor
    · rintro ⟨hpriced, hscaled, h⟩
      exact ⟨decoded, hpriced, hscaled, rfl, Except.ok.inj h⟩
    · rintro ⟨decoded', hpriced, hscaled, h, rfl⟩
      obtain rfl := Except.ok.inj h
      exact ⟨hpriced, hscaled, rfl⟩

/-- The steps a parsed text has passed. -/
theorem parse_eq_ok_iff : parseFinancialNumber tenTo input options = .ok r ↔
    (trim input).any isDigit = true ∧ chainedScales.test (rewritten tenTo input) = false ∧
      ∃ signed, readSign (rewritten tenTo input) = .ok signed ∧
        readAmount options input signed = .ok r := by
  unfold parseFinancialNumber readText
  rw [mapError_eq_ok_iff]
  dsimp only
  have hrewritten : expandExponents tenTo (normalise (trim input)) = rewritten tenTo input := rfl
  rw [hrewritten]
  split_ifs with hempty hdigits hchained
  · refine ⟨False.elim, fun h => ?_⟩
    rw [hempty] at h
    exact absurd h.1 Bool.false_ne_true
  · refine ⟨False.elim, fun h => ?_⟩
    rw [h.1] at hdigits
    exact absurd hdigits Bool.false_ne_true
  · exact ⟨False.elim, fun h => Bool.noConfusion (hchained.symm.trans h.2.1)⟩
  · rw [bind_eq_ok_iff]
    rw [Bool.not_eq_true, Bool.not_eq_false'] at hdigits
    exact ⟨fun h => ⟨hdigits, Bool.eq_false_iff.mpr hchained, h⟩, fun h => h.2.2⟩

/-- The scale words that were found are at most one. -/
theorem readScale_eq_ok_iff {text : JsString} {scaled : Scaled} : readScale text = .ok scaled ↔
    scaleWords.foldl Scaled.read ⟨[], .ofNat 1, none, text⟩ = scaled ∧ scaled.found.length ≤ 1 := by
  unfold readScale
  dsimp only
  split_ifs with h
  · refine ⟨False.elim, ?_⟩
    rintro ⟨rfl, hle⟩
    exact absurd h (Nat.not_lt.mpr hle)
  · constructor
    · intro heq
      obtain rfl := Except.ok.inj heq
      exact ⟨rfl, Nat.not_lt.mp h⟩
    · rintro ⟨rfl, -⟩
      rfl

/-- Words that are not there. -/
theorem foldl_read_of_forall {words : List (JsString × Number)} {scaled : Scaled}
    (h : ∀ w ∈ words, (scaleAfterDigit w.1).test scaled.text = false) :
    words.foldl Scaled.read scaled = scaled := by
  induction words with
  | nil => rfl
  | cons w words ih =>
    rw [List.forall_mem_cons] at h
    have hread : scaled.read w = scaled := by
      unfold Scaled.read
      rw [h.1, if_neg Bool.false_ne_true]
    rw [List.foldl_cons, hread, ih h.2]

/-- No scale word. -/
theorem readScale_of_forall {text : JsString}
    (h : ∀ w ∈ scaleWords, (scaleAfterDigit w.1).test text = false) :
    readScale text = .ok ⟨[], .ofNat 1, none, text⟩ :=
  readScale_eq_ok_iff.mpr ⟨foldl_read_of_forall h, Nat.zero_le 1⟩

/-- A text that passes all steps. -/
theorem parse_of_steps {priced : Priced} {scaled : Scaled} {token : JsString} {decoded : DigitsOk}
    (hdigits : (trim input).any isDigit = true)
    (hchained : chainedScales.test (rewritten tenTo input) = false)
    (hsigned : readSign (rewritten tenTo input) = .ok signed)
    (hpriced : readCurrency signed.text = .ok priced)
    (hscaled : readScale (afterUnit options priced).text = .ok scaled)
    (htoken : tokensOf scaled.text = [token])
    (hdecoded : decodeDigits token (options.locale.getD .en) = .ok decoded) :
    parseFinancialNumber tenTo input options =
      .ok (amount options input signed priced scaled decoded) := by
  refine parse_eq_ok_iff.mpr ⟨hdigits, hchained, signed, hsigned, readAmount_eq_ok_iff.mpr
    ⟨priced, scaled, decoded, hpriced, hscaled, ?_, rfl⟩⟩
  unfold readDigits
  rw [htoken]
  exact hdecoded

end

/-! ## Notations with an exponent -/

/-- Digits. -/
def Digits (s : JsString) : Prop := ∀ u ∈ s, isDigit u = true

/-- Digits, and maybe a point and digits. -/
def Mantissa (s : JsString) : Prop :=
  ∃ int, int ≠ [] ∧ Digits int ∧ (s = int ∨ ∃ frac, frac ≠ [] ∧ Digits frac ∧ s = int ++ 46 :: frac)

/-- Digits, and maybe a sign. -/
def Exponent (s : JsString) : Prop :=
  ∃ sign ds, (sign = [] ∨ sign = [43] ∨ sign = [45]) ∧ ds ≠ [] ∧ Digits ds ∧ s = sign ++ ds

/-- `e` or `E`. -/
def IsExponentMark (u : UInt16) : Prop := u = 101 ∨ u = 69

section

variable {b : Bool} {s : JsString} {o : Outcome UInt16}

/-- The part before the exponent mark. -/
theorem mem_run_mantissa :
    o ∈ (Pattern.seq digit.plus (Pattern.opt (.seq (symbol 46) digit.plus))).run b s ↔
      ∃ m rest, Mantissa m ∧ s = m ++ rest ∧ o = ⟨m, rest, []⟩ := by
  unfold digit symbol
  simp only [mem_run_seq, mem_run_opt, mem_run_plus_set, mem_run_set]
  constructor
  · rintro ⟨o₁, ⟨int, u, rfl, hne, hint, rfl⟩, o₂, ho₂ | rfl, rfl⟩
    · obtain ⟨o₃, ⟨x, t, htail, hx, rfl⟩, o₄, ⟨frac, v, rfl, hfne, hfrac, rfl⟩, rfl⟩ := ho₂
      obtain rfl : u = x :: (frac ++ v) := htail
      obtain rfl : x = 46 := beq_iff_eq.mp hx
      exact ⟨int ++ 46 :: frac, v, ⟨int, hne, hint, .inr ⟨frac, hfne, hfrac, rfl⟩⟩, by simp, rfl⟩
    · exact ⟨int, u, ⟨int, hne, hint, .inl rfl⟩, rfl, by simp [Outcome.andThen, Outcome.stay]⟩
  · rintro ⟨m, rest, ⟨int, hne, hint, rfl | ⟨frac, hfne, hfrac, rfl⟩⟩, rfl, rfl⟩
    · exact ⟨⟨m, rest, []⟩, ⟨m, rest, rfl, hne, hint, rfl⟩, .stay rest, .inr rfl,
        by simp [Outcome.andThen, Outcome.stay]⟩
    · exact ⟨⟨int, 46 :: (frac ++ rest), []⟩, ⟨int, _, by simp, hne, hint, rfl⟩,
        ⟨46 :: frac, rest, []⟩, .inl ⟨⟨[46], frac ++ rest, []⟩, ⟨46, _, rfl, rfl, rfl⟩,
          ⟨frac, rest, []⟩, ⟨frac, rest, rfl, hfne, hfrac, rfl⟩, rfl⟩, rfl⟩

/-- The part behind it. -/
theorem mem_run_exponent :
    o ∈ (Pattern.seq (Pattern.opt (.set fun u => u == 43 || u == 45)) digit.plus).run b s ↔
      ∃ k rest, Exponent k ∧ s = k ++ rest ∧ o = ⟨k, rest, []⟩ := by
  unfold digit
  simp only [mem_run_seq, mem_run_opt, mem_run_plus_set, mem_run_set]
  constructor
  · rintro ⟨o₁, ⟨x, t, rfl, hx, rfl⟩ | rfl, o₂, ⟨ds, v, hv, hne, hds, rfl⟩, rfl⟩
    · obtain rfl : t = ds ++ v := hv
      refine ⟨x :: ds, v, ⟨[x], ds, .inr ?_, hne, hds, rfl⟩, rfl, rfl⟩
      rcases Bool.or_eq_true _ _ ▸ hx with hx | hx
      · exact .inl (by rw [beq_iff_eq.mp hx])
      · exact .inr (by rw [beq_iff_eq.mp hx])
    · exact ⟨ds, v, ⟨[], ds, .inl rfl, hne, hds, rfl⟩, hv, rfl⟩
  · rintro ⟨k, rest, ⟨sign, ds, hsign, hne, hds, rfl⟩, rfl, rfl⟩
    rcases hsign with rfl | rfl | rfl
    · exact ⟨.stay _, .inr rfl, ⟨ds, rest, []⟩, ⟨ds, rest, rfl, hne, hds, rfl⟩, rfl⟩
    · exact ⟨⟨[43], ds ++ rest, []⟩, .inl ⟨43, _, rfl, rfl, rfl⟩, ⟨ds, rest, []⟩,
        ⟨ds, rest, rfl, hne, hds, rfl⟩, rfl⟩
    · exact ⟨⟨[45], ds ++ rest, []⟩, .inl ⟨45, _, rfl, rfl, rfl⟩, ⟨ds, rest, []⟩,
        ⟨ds, rest, rfl, hne, hds, rfl⟩, rfl⟩

/-- A notation with an exponent at a place. -/
theorem mem_run_exponentNotation : o ∈ exponentNotation.run b s ↔
    ∃ mantissa e exponent rest, Mantissa mantissa ∧ IsExponentMark e ∧ Exponent exponent ∧
      s = mantissa ++ e :: (exponent ++ rest) ∧
      o = ⟨mantissa ++ e :: exponent, rest, [(2, exponent), (1, mantissa)]⟩ := by
  unfold exponentNotation
  constructor
  · intro ho
    obtain ⟨o₁, ho₁, o₂, ho₂, rfl⟩ := mem_run_seq.mp ho
    obtain ⟨o₃, ho₃, rfl⟩ := mem_run_group.mp ho₁
    obtain ⟨m, u, hm, rfl, rfl⟩ := mem_run_mantissa.mp ho₃
    obtain ⟨o₄, ho₄, o₅, ho₅, rfl⟩ := mem_run_seq.mp ho₂
    obtain ⟨e, t, ht, he, rfl⟩ := mem_run_set.mp ho₄
    obtain ⟨o₆, ho₆, rfl⟩ := mem_run_group.mp ho₅
    obtain ⟨k, rest, hk, hrest, rfl⟩ := mem_run_exponent.mp ho₆
    obtain rfl : u = e :: t := ht
    obtain rfl : t = k ++ rest := hrest
    have hmark : IsExponentMark e := by
      rcases Bool.or_eq_true _ _ ▸ he with he | he
      · exact .inl (beq_iff_eq.mp he)
      · exact .inr (beq_iff_eq.mp he)
    exact ⟨m, e, k, rest, hm, hmark, hk, rfl, rfl⟩
  · rintro ⟨m, e, k, rest, hm, he, hk, rfl, rfl⟩
    have hmark : (e == 101 || e == 69) = true := by
      rcases he with rfl | rfl <;> rfl
    refine mem_run_seq.mpr ⟨⟨m, e :: (k ++ rest), [(1, m)]⟩, ?_, ⟨e :: k, rest, [(2, k)]⟩, ?_, rfl⟩
    · exact mem_run_group.mpr ⟨⟨m, _, []⟩, mem_run_mantissa.mpr ⟨m, _, hm, rfl, rfl⟩, rfl⟩
    · refine mem_run_seq.mpr ⟨⟨[e], k ++ rest, []⟩, mem_run_set.mpr ⟨e, _, rfl, hmark, rfl⟩,
        ⟨k, rest, [(2, k)]⟩, ?_, rfl⟩
      exact mem_run_group.mpr ⟨⟨k, rest, []⟩, mem_run_exponent.mpr ⟨k, rest, hk, rfl, rfl⟩, rfl⟩

end

/-! ## Signs -/

/-- White space only. -/
def Blank (s : JsString) : Prop := ∀ u ∈ s, isWhiteSpace u = true

/-- One symbol. -/
theorem mem_run_symbol {b : Bool} {s : JsString} {u : UInt16} {o : Outcome UInt16} :
    o ∈ (symbol u).run b s ↔ ∃ t, s = u :: t ∧ o = ⟨[u], t, []⟩ := by
  unfold symbol
  rw [mem_run_set]
  constructor
  · rintro ⟨x, t, rfl, hx, rfl⟩
    obtain rfl := beq_iff_eq.mp hx
    exact ⟨t, rfl, rfl⟩
  · rintro ⟨t, rfl, rfl⟩
    exact ⟨u, t, rfl, beq_self_eq_true u, rfl⟩

/-- A text in accounting parentheses. -/
theorem parenthesised_search {text : JsString} {m : Found UInt16}
    (h : parenthesised.search text = some m) : ∃ before after, Blank before ∧ Blank after ∧
      text = 40 :: (before ++ (m.group 1 ++ (after ++ [41]))) := by
  obtain ⟨u, rfl, hhead, -⟩ := search_eq_some h
  have ho := List.mem_of_mem_head? hhead
  unfold parenthesised at ho
  obtain ⟨o₁, ho₁, o₂, ho₂, hm⟩ := mem_run_seq.mp ho
  obtain ⟨hstart, rfl⟩ := mem_run_start.mp ho₁
  obtain ⟨o₃, ho₃, o₄, ho₄, rfl⟩ := mem_run_seq.mp ho₂
  obtain ⟨t, ht, rfl⟩ := mem_run_symbol.mp ho₃
  obtain ⟨o₅, ho₅, o₆, ho₆, rfl⟩ := mem_run_seq.mp ho₄
  obtain ⟨before, t₁, ht₁, hbefore, rfl⟩ := mem_run_star_set.mp ho₅
  obtain ⟨o₇, ho₇, o₈, ho₈, rfl⟩ := mem_run_seq.mp ho₆
  obtain ⟨o₉, ho₉, rfl⟩ := mem_run_group.mp ho₇
  obtain ⟨inner, t₂, ht₂, -, rfl⟩ := mem_run_lazyStar_set.mp ho₉
  obtain ⟨o₁₀, ho₁₀, o₁₁, ho₁₁, rfl⟩ := mem_run_seq.mp ho₈
  obtain ⟨after, t₃, ht₃, hafter, rfl⟩ := mem_run_star_set.mp ho₁₀
  obtain ⟨o₁₂, ho₁₂, o₁₃, ho₁₃, rfl⟩ := mem_run_seq.mp ho₁₁
  obtain ⟨t₄, ht₄, rfl⟩ := mem_run_symbol.mp ho₁₂
  obtain ⟨hfinish, rfl⟩ := mem_run_finish.mp ho₁₃
  have hinner : m.group 1 = inner := by
    unfold Outcome.group
    rw [← hm]
    rfl
  obtain rfl : u = 40 :: t := ht
  obtain rfl : t = before ++ t₁ := ht₁
  obtain rfl : t₁ = inner ++ t₂ := ht₂
  obtain rfl : t₂ = after ++ t₃ := ht₃
  obtain rfl : t₃ = 41 :: t₄ := ht₄
  obtain rfl : t₄ = [] := hfinish
  refine ⟨before, after, hbefore, hafter, ?_⟩
  rw [List.isEmpty_iff.mp hstart, hinner]
  rfl

/-- The text a sign stands in: the whole, or what is in the parentheses. -/
def inside (text : JsString) : JsString :=
  ((parenthesised.search text).map fun m => m.group 1).getD text

/-- The three ways to read a sign. -/
theorem readSign_cases {text : JsString} {signed : Signed} (h : readSign text = .ok signed) :
    (minusSign.test (inside text) = true ∧ parenthesised.test text = false ∧
        signed = ⟨true, .explicit, (inside text).replace 45 32⟩) ∨
      (minusSign.test (inside text) = false ∧ plusSign.test (inside text) = true ∧
        signed = ⟨parenthesised.test text, .explicit, (inside text).replace 43 32⟩) ∨
      (minusSign.test (inside text) = false ∧ plusSign.test (inside text) = false ∧
        signed = ⟨parenthesised.test text,
          if parenthesised.test text then .parenthetical else .none, inside text⟩) := by
  have htest : ((parenthesised.search text).map fun m => m.group 1).isSome =
      parenthesised.test text := Option.isSome_map
  unfold readSign at h
  dsimp only at h
  change (if minusSign.test (inside text) then _ else if plusSign.test (inside text) then _ else _) =
    _ at h
  rw [htest] at h
  cases hminus : minusSign.test (inside text) with
  | true =>
    rw [hminus, if_pos rfl] at h
    cases hparen : parenthesised.test text with
    | true =>
      rw [hparen, if_pos rfl] at h
      exact absurd h error_ne_ok
    | false =>
      rw [hparen, if_neg Bool.false_ne_true] at h
      exact .inl ⟨rfl, rfl, (Except.ok.inj h).symm⟩
  | false =>
    rw [hminus, if_neg Bool.false_ne_true] at h
    cases hplus : plusSign.test (inside text) with
    | true =>
      rw [hplus, if_pos rfl] at h
      exact .inr (.inl ⟨rfl, rfl, (Except.ok.inj h).symm⟩)
    | false =>
      rw [hplus, if_neg Bool.false_ne_true] at h
      exact .inr (.inr ⟨rfl, rfl, (Except.ok.inj h).symm⟩)

end AgentEval.Finance
