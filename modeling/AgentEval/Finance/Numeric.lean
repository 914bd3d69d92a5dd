import AgentEval.Js.Arith
import AgentEval.Js.Literal
import AgentEval.Regex.Pattern

/-!
# `finance/numeric.ts`: financial numbers out of free text

The text is rewritten step by step: exponents are expanded, then the sign, the currency, the unit and
the scale are read off and blanked, and what is left must be one number. `10 ** n` is a parameter.
Groups that no replacement refers to are left out of the patterns.
-/

namespace AgentEval.Finance

open Js Regex

/-! ## Symbols and words -/

/-- A letter of ASCII in lower case. -/
def lower (u : UInt16) : UInt16 := if 65 ≤ u && u ≤ 90 then u + 32 else u

/-- A letter of ASCII in upper case. -/
def upper (u : UInt16) : UInt16 := if 97 ≤ u && u ≤ 122 then u - 32 else u

/-- `[a-z]`, ignoring case. -/
def isLetter (u : UInt16) : Bool := 97 ≤ lower u && lower u ≤ 122

/-- The same symbol, ignoring case. -/
def sameLetter (u v : UInt16) : Bool := lower u == lower v

/-- A word, ignoring case. -/
def word (w : JsString) : Pattern UInt16 := .word sameLetter w

/-- One symbol. -/
def symbol (u : UInt16) : Pattern UInt16 := .set (· == u)

/-- `[0-9]` -/
def digit : Pattern UInt16 := .set isDigit

/-- `\s*` -/
def gap : Pattern UInt16 := .star (.set isWhiteSpace)

/-- `(?![a-z0-9])`, ignoring case. -/
def wordEnd : Pattern UInt16 := .notAhead (.set fun u => isLetter u || isDigit u)

/-- Each of some symbols replaced by one. -/
def substitute (us : List UInt16) (v : UInt16) (s : JsString) : JsString :=
  s.map fun u => if u ∈ us then v else u

/-! ## What is said of a number -/

/-- Source: `numeric.ts`, `Unit` -/
inductive Unit where
  /-- A count. -/
  | absolute
  /-- Of a hundred. -/
  | percent
  /-- Of ten thousand. -/
  | bps
  /-- A fraction. -/
  | ratio
  deriving DecidableEq

/-- Source: `numeric.ts`, `SignConvention` -/
inductive SignConvention where
  /-- No sign. -/
  | none
  /-- A plus or a minus. -/
  | explicit
  /-- Accounting parentheses. -/
  | parenthetical
  deriving DecidableEq

/-- Source: `numeric.ts`, `ParseFailureReason` -/
inductive ParseFailureReason where
  /-- Nothing but white space. -/
  | empty
  /-- No digit. -/
  | noDigits
  /-- Two decimal marks. -/
  | malformedGrouping
  /-- Groups that are not of three. -/
  | ambiguousSeparator
  /-- Two currencies. -/
  | multipleCurrencies
  /-- Two scales. -/
  | multipleScales
  /-- Anything else. -/
  | unparseable
  deriving DecidableEq

/-- Source: `numeric.ts`, `NumberLocale` -/
inductive NumberLocale where
  /-- `1,234.5` -/
  | en
  /-- `1.234,5` -/
  | eu
  deriving DecidableEq

/-- The name of a locale. -/
def NumberLocale.toJs : NumberLocale → JsString
  | en => js "en"
  | eu => js "eu"

/-- Source: `numeric.ts`, `ParsedNumber` -/
structure ParsedNumber where
  /-- The magnitude with the scale applied, in the unit. -/
  value : Number
  /-- The input. -/
  raw : JsString
  /-- The currency. -/
  currency : Option JsString
  /-- Whether it is a convention. -/
  currencyAmbiguous : Bool
  /-- The unit. -/
  unit : Unit
  /-- Whether the text names it. -/
  unitExplicit : Bool
  /-- The factor of the scale word. -/
  scale : Number
  /-- The scale word. -/
  scaleWord : Option JsString
  /-- Whether there is a minus. -/
  negative : Bool
  /-- How the sign is written. -/
  signConvention : SignConvention
  /-- Decimal places. -/
  precision : ℕ

/-- Source: `numeric.ts`, `ParseFailure` -/
structure ParseFailure where
  /-- Why. -/
  reason : ParseFailureReason
  /-- The input. -/
  raw : JsString
  /-- What was wrong. -/
  detail : JsString

/-- A refusal, before the input is added. -/
structure Refusal where
  /-- Why. -/
  reason : ParseFailureReason
  /-- What was wrong. -/
  detail : JsString

/-- Source: `numeric.ts`, `ParseOptions` -/
structure ParseOptions where
  /-- How digits are written. -/
  locale : Option NumberLocale := none
  /-- The unit of a bare number. -/
  defaultUnit : Option Unit := none

/-! ## Tables -/

/-- Source: `numeric.ts`, `SCALE_WORDS` -/
def scaleWords : List (JsString × Number) :=
  [(js "trillion", .ofNat (10 ^ 12)), (js "billion", .ofNat (10 ^ 9)),
    (js "million", .ofNat (10 ^ 6)), (js "thousand", .ofNat (10 ^ 3)),
    (js "crore", .ofNat (10 ^ 7)), (js "lakh", .ofNat (10 ^ 5)), (js "lac", .ofNat (10 ^ 5)),
    (js "tn", .ofNat (10 ^ 12)), (js "bn", .ofNat (10 ^ 9)), (js "mm", .ofNat (10 ^ 6)),
    (js "mn", .ofNat (10 ^ 6)), (js "k", .ofNat (10 ^ 3)), (js "b", .ofNat (10 ^ 9)),
    (js "m", .ofNat (10 ^ 6)), (js "t", .ofNat (10 ^ 12))]

/-- Source: `numeric.ts`, `UNAMBIGUOUS_SYMBOLS` -/
def unambiguousSymbols : List (UInt16 × JsString) :=
  [(0x20AC, js "EUR"), (0xA3, js "GBP"), (0xA5, js "JPY"), (0x20B9, js "INR"), (0x20A9, js "KRW"),
    (0x20BD, js "RUB"), (0x20BA, js "TRY"), (0x20AA, js "ILS")]

/-- Source: `numeric.ts`, `AMBIGUOUS_SYMBOLS` -/
def ambiguousSymbols : List (UInt16 × JsString) := [(36, js "USD")]

/-- The codes of `CURRENCY_CODE`. -/
def currencyCodes : List JsString :=
  [js "USD", js "EUR", js "GBP", js "JPY", js "INR", js "CNY", js "CAD", js "AUD", js "CHF",
    js "SGD", js "HKD", js "KRW", js "SEK", js "NOK", js "DKK", js "NZD", js "ZAR", js "BRL",
    js "MXN", js "RUB", js "TRY", js "AED", js "SAR"]

/-! ## Patterns -/

/-- Source: `numeric.ts`, `SCALE_ALTERNATION`, with an optional plural -/
def scaleWord : Pattern UInt16 :=
  .seq (.oneOf (scaleWords.map fun w => word w.1)) (Pattern.opt (word (js "s")))

/-- Source: `numeric.ts`, `CHAINED_SCALES` -/
def chainedScales : Pattern UInt16 :=
  .seq digit <| .seq gap <| .seq scaleWord <| .seq (Pattern.plus (.set isWhiteSpace)) <|
    .seq scaleWord wordEnd

/-- The notation with an exponent.
Source: `numeric.ts`, `parseFinancialNumber` -/
def exponentNotation : Pattern UInt16 :=
  .seq (.group 1 (.seq digit.plus (Pattern.opt (.seq (symbol 46) digit.plus)))) <|
    .seq (.set fun u => u == 101 || u == 69) <|
      .group 2 (.seq (Pattern.opt (.set fun u => u == 43 || u == 45)) digit.plus)

/-- Accounting parentheses around the whole text.
Source: `numeric.ts`, `parseFinancialNumber` -/
def parenthesised : Pattern UInt16 :=
  .seq .start <| .seq (symbol 40) <| .seq gap <|
    .seq (.group 1 (.lazyStar (.set fun u => u ∉ [0x0A, 0x0D, 0x2028, 0x2029]))) <|
      .seq gap <| .seq (symbol 41) .finish

/-- A sign in front of one of some symbols.
Source: `numeric.ts`, `parseFinancialNumber` -/
def signBefore (sign : UInt16) (next : UInt16 → Bool) : Pattern UInt16 :=
  .seq (.alt .start (.set fun u => !isDigit u)) <| .seq (symbol sign) <| .seq gap (.set next)

/-- Source: `numeric.ts`, `hasMinus` -/
def minusSign : Pattern UInt16 :=
  signBefore 45 fun u => isDigit u || u ∈ [36, 0x20AC, 0xA3, 0xA5, 0x20B9, 46]

/-- A plus in front of a number.
Source: `numeric.ts`, `parseFinancialNumber` -/
def plusSign : Pattern UInt16 := signBefore 43 fun u => isDigit u || u == 36

/-- Source: `numeric.ts`, `CURRENCY_CODE` -/
def currencyCode : Pattern UInt16 :=
  .seq (.group 1 (.alt .start (.set fun u => !isLetter u))) <|
    .seq (.group 2 (.oneOf (currencyCodes.map word)))
      (.group 3 (.alt (.set fun u => !isLetter u) .finish))

/-- The rest of a form such as `US$`, in front of a number.
Source: `numeric.ts`, `parseFinancialNumber` -/
def countryQualifier : Pattern UInt16 :=
  .seq (.alt .start (.set isWhiteSpace)) <|
    .seq (.oneOf ([js "US", js "C", js "A", js "NZ", js "HK", js "S", js "R"].map word)) <|
      .seq gap (.ahead digit)

/-- Some words in front of `point` or `points`. -/
def points (w : JsString) : Pattern UInt16 :=
  .seq (word w) <| .seq gap <| .seq (word (js "point")) (Pattern.opt (word (js "s")))

/-- Basis points.
Source: `numeric.ts`, `parseFinancialNumber` -/
def basisPoints : Pattern UInt16 :=
  .oneOf [points (js "basis"), word (js "bps"),
    .seq (word (js "bp")) (.notAhead (.set isLetter))]

/-- Percent.
Source: `numeric.ts`, `parseFinancialNumber` -/
def percentage : Pattern UInt16 :=
  .oneOf [symbol 37, points (js "percentage"),
    .seq (word (js "percent")) (Pattern.opt (word (js "age"))), word (js "pct")]

/-- A scale word behind a digit.
Source: `numeric.ts`, `parseFinancialNumber` -/
def scaleAfterDigit (w : JsString) : Pattern UInt16 :=
  .seq (.group 1 digit) <| .seq gap <| .seq (word w) <|
    .seq (Pattern.opt (word (js "s"))) wordEnd

/-! ## The steps of `parseFinancialNumber` -/

/-- The variants of Unicode for minus, dash, space and apostrophe.
Source: `numeric.ts`, `parseFinancialNumber` -/
def normalise (text : JsString) : JsString :=
  substitute [0x2018, 0x2019, 0x201B] 39
    (substitute [0xA0, 0x202F, 0x2009] 32
      (substitute [0x2013, 0x2014] 45 (substitute [0x2212] 45 text)))

/-- A number in place of its notation with an exponent, where that can be written without one.
Source: `numeric.ts`, `parseFinancialNumber` -/
def expanded (tenTo : Number → Number) (o : Outcome UInt16) : JsString :=
  let expanded := (Number.ofText (o.group 1)).mul (tenTo (Number.ofText (o.group 2)))
  if expanded.isFinite && !expanded.toString.contains 101 then expanded.toString else o.taken

/-- Source: `numeric.ts`, `parseFinancialNumber` -/
def expandExponents (tenTo : Number → Number) (text : JsString) : JsString :=
  exponentNotation.replaceAll (expanded tenTo) text

/-- The sign, and the text without it. -/
structure Signed where
  /-- Whether there is a minus. -/
  negative : Bool
  /-- How it is written. -/
  convention : SignConvention
  /-- The text. -/
  text : JsString

/-- The sign.
Source: `numeric.ts`, `parseFinancialNumber` -/
def readSign (text : JsString) : Except Refusal Signed :=
  let inner := (parenthesised.search text).map fun m => m.group 1
  let text := inner.getD text
  if minusSign.test text then
    if inner.isSome then
      .error ⟨.unparseable, js "both parentheses and an explicit minus sign are present"⟩
    else .ok ⟨true, .explicit, text.replace 45 32⟩
  else if plusSign.test text then .ok ⟨inner.isSome, .explicit, text.replace 43 32⟩
  else .ok ⟨inner.isSome, if inner.isSome then .parenthetical else .none, text⟩

/-- The currency, and the text without it. -/
structure Priced where
  /-- The currencies found, each once. -/
  found : List JsString
  /-- The currency. -/
  currency : Option JsString
  /-- Whether it is a convention. -/
  ambiguous : Bool
  /-- The text. -/
  text : JsString

/-- A currency that was found. -/
def Priced.add (p : Priced) (code : JsString) : List JsString :=
  if code ∈ p.found then p.found else p.found ++ [code]

/-- One symbol.
Source: `numeric.ts`, `parseFinancialNumber` -/
def Priced.readSymbol (ambiguous : Bool) (p : Priced) (entry : UInt16 × JsString) : Priced :=
  if entry.1 ∈ p.text then
    ⟨p.add entry.2, some entry.2, ambiguous || p.ambiguous, substitute [entry.1] 32 p.text⟩
  else p

/-- A code, which counts more than a symbol.
Source: `numeric.ts`, `parseFinancialNumber` -/
def Priced.readCode (p : Priced) : Priced :=
  match currencyCode.search p.text with
  | none => p
  | some m =>
    let code := (m.group 2).map upper
    { found := if p.ambiguous && some code == p.currency then p.found else p.add code
      currency := some code
      ambiguous := false
      text := currencyCode.replace (fun o => o.group 1 ++ js " " ++ o.group 3) p.text }

/-- The currency.
Source: `numeric.ts`, `parseFinancialNumber` -/
def readCurrency (text : JsString) : Except Refusal Priced :=
  let symbols := ambiguousSymbols.foldl (Priced.readSymbol true)
    (unambiguousSymbols.foldl (Priced.readSymbol false) ⟨[], none, false, text⟩)
  let priced := symbols.readCode
  if 1 < priced.found.length then
    .error ⟨.multipleCurrencies, js "found " ++
      (js " and ").intercalate (priced.found.mergeSort fun a b => decide (keyLE a b)) ++
      js "; one quantity cannot be in two currencies"⟩
  else .ok priced

/-- The unit, and the text without it. -/
structure Measured where
  /-- The unit. -/
  unit : Unit
  /-- Whether the text names it. -/
  explicit : Bool
  /-- The text. -/
  text : JsString

/-- The unit.
Source: `numeric.ts`, `parseFinancialNumber` -/
def readUnit (defaultUnit : Option Unit) (text : JsString) : Measured :=
  if basisPoints.test text then ⟨.bps, true, basisPoints.replaceAll (fun _ => js " ") text⟩
  else if percentage.test text then ⟨.percent, true, percentage.replaceAll (fun _ => js " ") text⟩
  else ⟨defaultUnit.getD .absolute, false, text⟩

/-- The scale, and the text without it. -/
structure Scaled where
  /-- The scale words found. -/
  found : List JsString
  /-- The factor of the first. -/
  scale : Number
  /-- The first. -/
  scaleWord : Option JsString
  /-- The text. -/
  text : JsString

/-- One scale word.
Source: `numeric.ts`, `parseFinancialNumber` -/
def Scaled.read (s : Scaled) (entry : JsString × Number) : Scaled :=
  if (scaleAfterDigit entry.1).test s.text then
    { found := s.found ++ [entry.1]
      scale := if s.scaleWord = none then entry.2 else s.scale
      scaleWord := some (s.scaleWord.getD entry.1)
      text := (scaleAfterDigit entry.1).replace (fun o => o.group 1 ++ js " ") s.text }
  else s

/-- The scale.
Source: `numeric.ts`, `parseFinancialNumber` -/
def readScale (text : JsString) : Except Refusal Scaled :=
  let scaled := scaleWords.foldl Scaled.read ⟨[], .ofNat 1, none, text⟩
  if 1 < scaled.found.length then
    .error ⟨.multipleScales, js "found scale words " ++ (js " and ").intercalate scaled.found ++
      js "; only one may apply"⟩
  else .ok scaled

/-- What is left, cut at white space; only what has a digit counts.
Source: `numeric.ts`, `parseFinancialNumber` -/
def tokensOf (text : JsString) : List JsString :=
  let digitPart := trim (text.map fun u =>
    if isDigit u || u == 46 || u == 44 || u == 39 || isWhiteSpace u then u else 32)
  ((Pattern.plus (.set isWhiteSpace)).splitAll digitPart).filter fun t => t.any isDigit

/-- Source: `numeric.ts`, `DigitsOk` -/
structure DigitsOk where
  /-- The value. -/
  value : Number
  /-- Decimal places. -/
  precision : ℕ

/-- The mark between groups.
Source: `numeric.ts`, `decodeDigits` -/
def NumberLocale.groupSep : NumberLocale → UInt16
  | en => 44
  | eu => 46

/-- The mark before the decimals.
Source: `numeric.ts`, `decodeDigits` -/
def NumberLocale.decimalSep : NumberLocale → UInt16
  | en => 46
  | eu => 44

/-- A grouped digit string under a locale.
Source: `numeric.ts`, `decodeDigits` -/
def decodeDigits (token : JsString) (locale : NumberLocale) : Except Refusal DigitsOk :=
  let t := token.filter (· != 39)
  let groupCount := (t.splitOn locale.groupSep).length - 1
  let decimalCount := (t.splitOn locale.decimalSep).length - 1
  if 1 < decimalCount then
    .error ⟨.malformedGrouping, js "more than one decimal separator \"" ++ [locale.decimalSep] ++
      js "\" in \"" ++ token ++ js "\""⟩
  else
    let groups := ((t.splitOn locale.decimalSep).headD []).splitOn locale.groupSep
    if 0 < groupCount ∧ ((groups.headD []).length = 0 ∨ 3 < (groups.headD []).length ∨
        (groups.drop 1).any fun g => g.length ≠ 3) then
      .error ⟨.ambiguousSeparator, js "\"" ++ token ++ js "\" does not group in threes under the " ++
        locale.toJs ++ js " convention, so \"" ++ [locale.groupSep] ++
        js "\" may be a decimal separator here. Declare the locale explicitly."⟩
    else
      let t := if 0 < groupCount then (t.splitOn locale.groupSep).flatten else t
      let normalised := if locale = .en then t else t.replace 44 46
      let value := Number.ofText normalised
      if !value.isFinite then
        .error ⟨.unparseable, js "\"" ++ token ++ js "\" is not a finite number"⟩
      else .ok ⟨value, (((normalised.splitOn 46).drop 1).headD []).length⟩

/-- The one number that is left.
Source: `numeric.ts`, `parseFinancialNumber` -/
def readDigits (locale : NumberLocale) (text : JsString) : Except Refusal DigitsOk :=
  match tokensOf text with
  | [] => .error ⟨.noDigits, js "no numeric token remained after parsing"⟩
  | [token] => decodeDigits token locale
  | tokens => .error ⟨.unparseable, js "found " ++ natDigits tokens.length ++
      js " separate numbers (" ++ (js ", ").intercalate tokens ++ js "); expected exactly one"⟩

/-- What is read after the sign.
Source: `numeric.ts`, `parseFinancialNumber` -/
def readAmount (options : ParseOptions) (input : JsString) (signed : Signed) :
    Except Refusal ParsedNumber :=
  (readCurrency signed.text).bind fun priced =>
    let measured := readUnit options.defaultUnit
      (countryQualifier.replace (fun _ => js " ") priced.text)
    (readScale measured.text).bind fun scaled =>
      (readDigits (options.locale.getD .en) scaled.text).map fun decoded =>
        let magnitude := decoded.value.mul scaled.scale
        { value := if signed.negative then magnitude.neg else magnitude
          raw := input
          currency := priced.currency
          currencyAmbiguous := priced.ambiguous
          unit := measured.unit
          unitExplicit := measured.explicit
          scale := scaled.scale
          scaleWord := scaled.scaleWord
          negative := signed.negative
          signConvention := signed.convention
          precision := decoded.precision }

/-- What is read of a text.
Source: `numeric.ts`, `parseFinancialNumber` -/
def readText (tenTo : Number → Number) (input : JsString) (options : ParseOptions) :
    Except Refusal ParsedNumber :=
  let text := trim input
  if text = [] then .error ⟨.empty, js "input was empty or whitespace only"⟩
  else if !text.any isDigit then
    .error ⟨.noDigits, js "no digits present, so there is nothing to parse"⟩
  else
    let text := expandExponents tenTo (normalise text)
    if chainedScales.test text then
      .error ⟨.multipleScales, js "two scale words are chained together; this is not a quantity"⟩
    else (readSign text).bind (readAmount options input)

/-- Source: `numeric.ts`, `parseFinancialNumber` -/
def parseFinancialNumber (tenTo : Number → Number) (input : JsString) (options : ParseOptions) :
    Except ParseFailure ParsedNumber :=
  (readText tenTo input options).mapError fun r => ⟨r.reason, input, r.detail⟩

end AgentEval.Finance
