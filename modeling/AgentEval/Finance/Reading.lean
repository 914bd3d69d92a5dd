import AgentEval.Finance.Arithmetic
import AgentEval.Finance.Parsing

/-!
# `finance/numeric.ts` over any numbers

What `parseFinancialNumber` reads off a text before it comes to digits does not depend on the
numbers; here are the steps that do.

* **`doubles_parse`**: over the numbers of the language it is `parseFinancialNumber`.
* `Arithmetic.parse_eq_ok_iff` — the steps a parsed text has passed.
-/

namespace AgentEval.Finance

open Js Regex

/-- Source: `numeric.ts`, `ParsedNumber` -/
structure Quantity (V : Type) where
  /-- The magnitude with the scale applied, in the unit. -/
  value : V
  /-- The input. -/
  raw : JsString
  /-- The currency. -/
  currency : Option JsString
  /-- Whether it is a convention. -/
  currencyAmbiguous : Bool
  /-- The unit. -/
  unit : Unit
  /-- Whether the text names it. -/
  unitExplicit : Bool
  /-- The factor of the scale word. -/
  scale : V
  /-- The scale word. -/
  scaleWord : Option JsString
  /-- Whether there is a minus. -/
  negative : Bool
  /-- How the sign is written. -/
  signConvention : SignConvention
  /-- Decimal places. -/
  precision : ℕ

/-- The scale, and the text without it. -/
structure ScaleRead (V : Type) where
  /-- The scale words found. -/
  found : List JsString
  /-- The factor of the first. -/
  scale : V
  /-- The first. -/
  scaleWord : Option JsString
  /-- The text. -/
  text : JsString

/-- Source: `numeric.ts`, `DigitsOk` -/
structure Decoded (V : Type) where
  /-- The value. -/
  value : V
  /-- Decimal places. -/
  precision : ℕ

namespace Arithmetic

variable {V : Type} (A : Arithmetic V)

/-- Source: `numeric.ts`, `SCALE_WORDS` -/
def scaleWords : List (JsString × V) :=
  [(js "trillion", A.ofNat (10 ^ 12)), (js "billion", A.ofNat (10 ^ 9)),
    (js "million", A.ofNat (10 ^ 6)), (js "thousand", A.ofNat (10 ^ 3)),
    (js "crore", A.ofNat (10 ^ 7)), (js "lakh", A.ofNat (10 ^ 5)), (js "lac", A.ofNat (10 ^ 5)),
    (js "tn", A.ofNat (10 ^ 12)), (js "bn", A.ofNat (10 ^ 9)), (js "mm", A.ofNat (10 ^ 6)),
    (js "mn", A.ofNat (10 ^ 6)), (js "k", A.ofNat (10 ^ 3)), (js "b", A.ofNat (10 ^ 9)),
    (js "m", A.ofNat (10 ^ 6)), (js "t", A.ofNat (10 ^ 12))]

/-- A number in place of its notation with an exponent, where that can be written without one.
Source: `numeric.ts`, `parseFinancialNumber` -/
def expanded (o : Outcome UInt16) : JsString :=
  let expanded := A.mul (A.ofText (o.group 1)) (A.tenTo (A.ofText (o.group 2)))
  if A.isFinite expanded && !(A.toText expanded).contains 101 then A.toText expanded else o.taken

/-- Source: `numeric.ts`, `parseFinancialNumber` -/
def expandExponents (text : JsString) : JsString := exponentNotation.replaceAll A.expanded text

/-- One scale word.
Source: `numeric.ts`, `parseFinancialNumber` -/
def readWord (s : ScaleRead V) (entry : JsString × V) : ScaleRead V :=
  if (scaleAfterDigit entry.1).test s.text then
    { found := s.found ++ [entry.1]
      scale := if s.scaleWord = none then entry.2 else s.scale
      scaleWord := some (s.scaleWord.getD entry.1)
      text := (scaleAfterDigit entry.1).replace (fun o => o.group 1 ++ js " ") s.text }
  else s

/-- The scale.
Source: `numeric.ts`, `parseFinancialNumber` -/
def readScale (text : JsString) : Except Refusal (ScaleRead V) :=
  let scaled := A.scaleWords.foldl readWord ⟨[], A.ofNat 1, none, text⟩
  if 1 < scaled.found.length then
    .error ⟨.multipleScales, js "found scale words " ++ (js " and ").intercalate scaled.found ++
      js "; only one may apply"⟩
  else .ok scaled

/-- A grouped digit string under a locale.
Source: `numeric.ts`, `decodeDigits` -/
def decodeDigits (token : JsString) (locale : NumberLocale) : Except Refusal (Decoded V) :=
  let t := token.filter (· != 39)
  let groupCount := (t.splitOn locale.groupSep).length - 1
  let decimalCount := (t.splitOn locale.decimalSep).length - 1
  if 1 < decimalCount then
    .error ⟨.malformedGrouping, js "more than one decimal separator \"" ++ [locale.decimalSep] ++
      js "\" in \"" ++ token ++ js "\""⟩
  else
    let groups := ((t.splitOn locale.decimalSep).headD []).splitOn locale.groupSep
    if 0 < groupCount ∧ ((groups.headD []).length = 0 ∨ 3 < (groups.headD []).length ∨
        (groups.drop 1).any fun g => g.length ≠ 3) then
      .error ⟨.ambiguousSeparator, js "\"" ++ token ++ js "\" does not group in threes under the " ++
        locale.toJs ++ js " convention, so \"" ++ [locale.groupSep] ++
        js "\" may be a decimal separator here. Declare the locale explicitly."⟩
    else
      let t := if 0 < groupCount then (t.splitOn locale.groupSep).flatten else t
      let normalised := if locale = .en then t else t.replace 44 46
      let value := A.ofText normalised
      if !A.isFinite value then
        .error ⟨.unparseable, js "\"" ++ token ++ js "\" is not a finite number"⟩
      else .ok ⟨value, (((normalised.splitOn 46).drop 1).headD []).length⟩

/-- The one number that is left.
Source: `numeric.ts`, `parseFinancialNumber` -/
def readDigits (locale : NumberLocale) (text : JsString) : Except Refusal (Decoded V) :=
  match tokensOf text with
  | [] => .error ⟨.noDigits, js "no numeric token remained after parsing"⟩
  | [token] => A.decodeDigits token locale
  | tokens => .error ⟨.unparseable, js "found " ++ natDigits tokens.length ++
      js " separate numbers (" ++ (js ", ").intercalate tokens ++ js "); expected exactly one"⟩

/-- The result of the steps. -/
def quantity (options : ParseOptions) (input : JsString) (signed : Signed) (priced : Priced)
    (scaled : ScaleRead V) (decoded : Decoded V) : Quantity V :=
  let magnitude := A.mul decoded.value scaled.scale
  { value := if signed.negative then A.neg magnitude else magnitude
    raw := input
    currency := priced.currency
    currencyAmbiguous := priced.ambiguous
    unit := (afterUnit options priced).unit
    unitExplicit := (afterUnit options priced).explicit
    scale := scaled.scale
    scaleWord := scaled.scaleWord
    negative := signed.negative
    signConvention := signed.convention
    precision := decoded.precision }

/-- Its currency. -/
theorem currency_quantity {options : ParseOptions} {input : JsString} {signed : Signed}
    {priced : Priced} {scaled : ScaleRead V} {decoded : Decoded V} :
    (A.quantity options input signed priced scaled decoded).currency = priced.currency := rfl

/-- Its unit. -/
theorem unit_quantity {options : ParseOptions} {input : JsString} {signed : Signed}
    {priced : Priced} {scaled : ScaleRead V} {decoded : Decoded V} :
    (A.quantity options input signed priced scaled decoded).unit = (afterUnit options priced).unit ∧
      (A.quantity options input signed priced scaled decoded).unitExplicit =
        (afterUnit options priced).explicit := by
  simp only [quantity, and_self]

/-- What is read after the sign.
Source: `numeric.ts`, `parseFinancialNumber` -/
def readAmount (options : ParseOptions) (input : JsString) (signed : Signed) :
    Except Refusal (Quantity V) :=
  (readCurrency signed.text).bind fun priced =>
    (A.readScale (afterUnit options priced).text).bind fun scaled =>
      (A.readDigits (options.locale.getD .en) scaled.text).map
        (A.quantity options input signed priced scaled)

/-- What is read of a text.
Source: `numeric.ts`, `parseFinancialNumber` -/
def readText (input : JsString) (options : ParseOptions) : Except Refusal (Quantity V) :=
  let text := trim input
  if text = [] then .error ⟨.empty, js "input was empty or whitespace only"⟩
  else if !text.any isDigit then
    .error ⟨.noDigits, js "no digits present, so there is nothing to parse"⟩
  else
    let text := A.expandExponents (normalise text)
    if chainedScales.test text then
      .error ⟨.multipleScales, js "two scale words are chained together; this is not a quantity"⟩
    else (readSign text).bind (A.readAmount options input)

/-- Source: `numeric.ts`, `parseFinancialNumber` -/
def parseFinancialNumber (input : JsString) (options : ParseOptions) :
    Except ParseFailure (Quantity V) :=
  (A.readText input options).mapError fun r => ⟨r.reason, input, r.detail⟩

/-! ## Texts that pass all steps -/

/-- The text whose sign is read. -/
def rewritten (input : JsString) : JsString := A.expandExponents (normalise (trim input))

variable {A} {options : ParseOptions} {input : JsString} {signed : Signed} {priced : Priced}
  {scaled : ScaleRead V} {token : JsString} {decoded : Decoded V}

/-- Words that are not there. -/
theorem foldl_readWord_of_forall {words : List (JsString × V)}
    (h : ∀ w ∈ words, (scaleAfterDigit w.1).test scaled.text = false) :
    words.foldl readWord scaled = scaled := by
  induction words with
  | nil => rfl
  | cons w words ih =>
    rw [List.forall_mem_cons] at h
    have hread : readWord scaled w = scaled := by
      unfold readWord
      rw [h.1, if_neg Bool.false_ne_true]
    rw [List.foldl_cons, hread, ih h.2]

/-- No scale word. -/
theorem readScale_of_forall {text : JsString}
    (h : ∀ w ∈ Finance.scaleWords, (scaleAfterDigit w.1).test text = false) :
    A.readScale text = .ok ⟨[], A.ofNat 1, none, text⟩ := by
  have hwords : A.scaleWords.map Prod.fst = Finance.scaleWords.map Prod.fst := rfl
  have hnone : ∀ w ∈ A.scaleWords, (scaleAfterDigit w.1).test text = false := by
    intro w hw
    have hkey := List.mem_map_of_mem (f := Prod.fst) hw
    rw [hwords] at hkey
    obtain ⟨w', hw', heq⟩ := List.mem_map.mp hkey
    rw [← heq]
    exact h w' hw'
  unfold readScale
  rw [foldl_readWord_of_forall hnone]
  exact if_neg (Nat.not_lt_zero 1)

/-- What is read after the sign. -/
theorem readAmount_eq_ok_iff {n : Quantity V} : A.readAmount options input signed = .ok n ↔
    ∃ priced scaled decoded, readCurrency signed.text = .ok priced ∧
      A.readScale (afterUnit options priced).text = .ok scaled ∧
      A.readDigits (options.locale.getD .en) scaled.text = .ok decoded ∧
      A.quantity options input signed priced scaled decoded = n := by
  unfold readAmount
  rw [bind_eq_ok_iff]
  refine exists_congr fun priced => ?_
  rw [bind_eq_ok_iff, ← exists_and_left]
  refine exists_congr fun scaled => ?_
  cases A.readDigits (options.locale.getD .en) scaled.text with
  | error e =>
    constructor
    · rintro ⟨-, -, h⟩
      exact absurd h error_ne_ok
    · rintro ⟨decoded, -, -, h, -⟩
      exact absurd h error_ne_ok
  | ok decoded =>
    constructor
    · rintro ⟨hpriced, hscaled, h⟩
      exact ⟨decoded, hpriced, hscaled, rfl, Except.ok.inj h⟩
    · rintro ⟨decoded', hpriced, hscaled, h, rfl⟩
      obtain rfl := Except.ok.inj h
      exact ⟨hpriced, hscaled, rfl⟩

/-- The steps a parsed text has passed. -/
theorem parse_eq_ok_iff {n : Quantity V} : A.parseFinancialNumber input options = .ok n ↔
    (trim input).any isDigit = true ∧ chainedScales.test (A.rewritten input) = false ∧
      ∃ signed, readSign (A.rewritten input) = .ok signed ∧
        A.readAmount options input signed = .ok n := by
  unfold parseFinancialNumber readText
  rw [mapError_eq_ok_iff]
  dsimp only
  have hrewritten : A.expandExponents (normalise (trim input)) = A.rewritten input := rfl
  rw [hrewritten]
  split_ifs with hempty hdigits hchained
  · refine ⟨False.elim, fun h => ?_⟩
    rw [hempty] at h
    exact absurd h.1 Bool.false_ne_true
  · refine ⟨False.elim, fun h => ?_⟩
    rw [h.1] at hdigits
    exact absurd hdigits Bool.false_ne_true
  · exact ⟨False.elim, fun h => Bool.noConfusion (hchained.symm.trans h.2.1)⟩
  · rw [bind_eq_ok_iff]
    rw [Bool.not_eq_true, Bool.not_eq_false'] at hdigits
    exact ⟨fun h => ⟨hdigits, Bool.eq_false_iff.mpr hchained, h⟩, fun h => h.2.2⟩

/-- A text that passes all steps. -/
theorem parse_of_steps (hdigits : (trim input).any isDigit = true)
    (hchained : chainedScales.test (A.rewritten input) = false)
    (hsigned : readSign (A.rewritten input) = .ok signed)
    (hpriced : readCurrency signed.text = .ok priced)
    (hscaled : A.readScale (afterUnit options priced).text = .ok scaled)
    (htoken : tokensOf scaled.text = [token])
    (hdecoded : A.decodeDigits token (options.locale.getD .en) = .ok decoded) :
    A.parseFinancialNumber input options =
      .ok (A.quantity options input signed priced scaled decoded) := by
  refine parse_eq_ok_iff.mpr ⟨hdigits, hchained, signed, hsigned, readAmount_eq_ok_iff.mpr
    ⟨priced, scaled, decoded, hpriced, hscaled, ?_, rfl⟩⟩
  unfold readDigits
  rw [htoken]
  exact hdecoded

end Arithmetic

/-! ## Over the numbers of the language -/

/-- A parsed number as a quantity. -/
def ParsedNumber.toQuantity (r : ParsedNumber) : Quantity Number where
  value := r.value
  raw := r.raw
  currency := r.currency
  currencyAmbiguous := r.currencyAmbiguous
  unit := r.unit
  unitExplicit := r.unitExplicit
  scale := r.scale
  scaleWord := r.scaleWord
  negative := r.negative
  signConvention := r.signConvention
  precision := r.precision

/-- What was read of a scale. -/
def Scaled.toRead (s : Scaled) : ScaleRead Number := ⟨s.found, s.scale, s.scaleWord, s.text⟩

/-- What was decoded. -/
def DigitsOk.toDecoded (d : DigitsOk) : Decoded Number := ⟨d.value, d.precision⟩

section

variable {log10 tenTo : Number → Number} {text input : JsString}

/-- One scale word. -/
theorem readWord_toRead (s : Scaled) (entry : JsString × Number) :
    Arithmetic.readWord s.toRead entry = (s.read entry).toRead := by
  unfold Arithmetic.readWord Scaled.read Scaled.toRead
  dsimp only
  split_ifs <;> rfl

/-- All of them. -/
theorem foldl_toRead (words : List (JsString × Number)) (s : Scaled) :
    words.foldl Arithmetic.readWord s.toRead = (words.foldl Scaled.read s).toRead := by
  induction words generalizing s with
  | nil => rfl
  | cons entry words ih => rw [List.foldl_cons, List.foldl_cons, readWord_toRead, ih]

/-- The scale. -/
theorem doubles_readScale : (doubles log10 tenTo).readScale text =
    (readScale text).map Scaled.toRead := by
  have hfold : (doubles log10 tenTo).scaleWords.foldl Arithmetic.readWord
      ⟨[], (doubles log10 tenTo).ofNat 1, none, text⟩ =
        (scaleWords.foldl Scaled.read ⟨[], .ofNat 1, none, text⟩).toRead :=
    foldl_toRead scaleWords ⟨[], .ofNat 1, none, text⟩
  unfold Arithmetic.readScale readScale
  rw [hfold]
  unfold Scaled.toRead
  dsimp only
  split_ifs <;> rfl

/-- The digits. -/
theorem doubles_decodeDigits {token : JsString} {locale : NumberLocale} :
    (doubles log10 tenTo).decodeDigits token locale =
      (decodeDigits token locale).map DigitsOk.toDecoded := by
  unfold Arithmetic.decodeDigits decodeDigits doubles
  dsimp only
  split_ifs <;> rfl

/-- The one number that is left. -/
theorem doubles_readDigits {locale : NumberLocale} : (doubles log10 tenTo).readDigits locale text =
    (readDigits locale text).map DigitsOk.toDecoded := by
  unfold Arithmetic.readDigits readDigits
  cases tokensOf text with
  | nil => rfl
  | cons token tokens =>
    cases tokens with
    | nil => exact doubles_decodeDigits
    | cons => rfl

/-- Steps that agree, after steps that agree. -/
theorem map_bind_eq {ε α α' β β' : Type} {x : Except ε α} {k : α → α'} {f : α' → Except ε β'}
    {g : α → Except ε β} {h : β → β'} (hstep : ∀ a, f (k a) = (g a).map h) :
    (x.map k).bind f = (x.bind g).map h := by
  cases x with
  | error e => rfl
  | ok a => exact hstep a

/-- The same steps first. -/
theorem bind_eq_map {ε α β β' : Type} {x : Except ε α} {f : α → Except ε β'} {g : α → Except ε β}
    {h : β → β'} (hstep : ∀ a, f a = (g a).map h) : x.bind f = (x.bind g).map h := by
  cases x with
  | error e => rfl
  | ok a => exact hstep a

/-- What is read after the sign. -/
theorem doubles_readAmount {options : ParseOptions} {signed : Signed} :
    (doubles log10 tenTo).readAmount options input signed =
      (readAmount options input signed).map ParsedNumber.toQuantity := by
  unfold Arithmetic.readAmount readAmount
  apply bind_eq_map
  intro priced
  rw [doubles_readScale]
  apply map_bind_eq
  intro scaled
  have htext : scaled.toRead.text = scaled.text := rfl
  rw [htext, doubles_readDigits]
  cases readDigits (options.locale.getD .en) scaled.text with
  | error e => rfl
  | ok decoded =>
    simp only [Except.map, Arithmetic.quantity, ParsedNumber.toQuantity, afterUnit]
    rfl

/-- **Over the numbers of the language**, it is `parseFinancialNumber`. -/
theorem doubles_parse {options : ParseOptions} :
    (doubles log10 tenTo).parseFinancialNumber input options =
      (parseFinancialNumber tenTo input options).map ParsedNumber.toQuantity := by
  have htext : (doubles log10 tenTo).readText input options =
      (readText tenTo input options).map ParsedNumber.toQuantity := by
    unfold Arithmetic.readText readText
    dsimp only
    have hexpand : (doubles log10 tenTo).expandExponents = expandExponents tenTo := rfl
    rw [hexpand]
    split_ifs
    · rfl
    · rfl
    · rfl
    · apply bind_eq_map
      intro signed
      exact doubles_readAmount
  unfold Arithmetic.parseFinancialNumber parseFinancialNumber
  rw [htext]
  cases readText tenTo input options with
  | error e => rfl
  | ok r => rfl

end

end AgentEval.Finance
