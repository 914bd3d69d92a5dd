import Mathlib.Data.Rat.Floor
import Mathlib.Tactic.NormNum
import Mathlib.Tactic.Ring
import AgentEval.Js.Binary64
import AgentEval.Js.Str

/-!
# `models/cost.ts`, and the usage that two adapters report to it

Prices and counts are numbers of any ordered field; a price is for a million tokens or for an hour.
Vendors count differently. In a `usage` of an OpenAI-compatible endpoint the cached tokens are among
the prompt tokens and the reasoning tokens among the completion tokens; in one of the Messages API
the cache reads stand beside the input tokens. `CompletionUsage.bill` and `MessagesUsage.bill` are
what the tokens of each come to, every token at its one rate.

* **`tokensUsd_completion`**, **`tokensUsd_messages`**: by how much the cost that is computed misses
  the bill, before it is rounded.
* **`billed_once_iff`**: when it does not.
-/

namespace AgentEval.Models.Cost

open Js

/-! ## `cost.ts` -/

/-- What is read of a token price sheet.
Source: `registry.ts`, `TokenPricing` -/
structure TokenPricing (F : Type) where
  /-- USD for a million tokens of input. -/
  inputPerMillionUsd : F
  /-- USD for a million tokens of output. -/
  outputPerMillionUsd : F
  /-- The rate for cached input. -/
  cachedInputPerMillionUsd : Option F := none
  /-- The rate for reasoning output. -/
  reasoningOutputPerMillionUsd : Option F := none

/-- What is read of a pricing.
Source: `registry.ts`, `Pricing` -/
inductive Pricing (F : Type) where
  /-- A published rate. -/
  | tokens (tokens : TokenPricing F)
  /-- The operator's own cost of an hour. -/
  | hardware (hourlyUsd : F)
  /-- Not known. -/
  | unknown

/-- Source: `types.ts`, `Usage` -/
structure Usage (F : Type) where
  /-- Tokens of input. -/
  inputTokens : Option F := none
  /-- Tokens of output. -/
  outputTokens : Option F := none
  /-- All of them. -/
  totalTokens : Option F := none
  /-- Those of input that were cached. -/
  cachedInputTokens : Option F := none
  /-- Those of output that are reasoning. -/
  reasoningTokens : Option F := none

/-- Source: `cost.ts`, `HardwareUsage` -/
structure HardwareUsage (F : Type) where
  /-- Wall-clock seconds the model occupied the hardware. -/
  occupancySeconds : F

/-- Source: `cost.ts`, `CostAmount` -/
inductive CostAmount (F : Type) where
  /-- An amount. -/
  | known (usd : F)
  /-- Why it could not be computed. -/
  | unknown (reason : JsString)

section

variable {F : Type} [Field F]

/-- A number of tokens at a price. -/
def priced (tokens perMillionUsd : F) : F := tokens / ((10 ^ 6 : ℕ) : F) * perMillionUsd

/-- No tokens cost nothing. -/
theorem priced_zero (p : F) : priced 0 p = 0 := by
  unfold priced
  rw [zero_div, zero_mul]

/-- The price of more tokens. -/
theorem priced_add (a b p : F) : priced (a + b) p = priced a p + priced b p := by
  unfold priced
  rw [add_div, add_mul]

/-- What costs nothing. -/
theorem priced_eq_zero_iff [CharZero F] {a p : F} : priced a p = 0 ↔ a = 0 ∨ p = 0 := by
  unfold priced
  rw [mul_eq_zero, div_eq_zero_iff, Nat.cast_eq_zero]
  simp

end

section

variable {F : Type} [Field F] [LinearOrder F]

/-- The cost of counted tokens, before it is rounded.
Source: `cost.ts`, `costOfGeneration` -/
def tokensUsd (t : TokenPricing F) (usage : Usage F) (input output : F) : F :=
  let cached := usage.cachedInputTokens.getD 0
  let uncachedInput := max 0 (input - cached)
  let usd := priced uncachedInput t.inputPerMillionUsd + priced output t.outputPerMillionUsd
  let usd := if 0 < cached then
      usd + priced cached (t.cachedInputPerMillionUsd.getD t.inputPerMillionUsd)
    else usd
  let reasoning := usage.reasoningTokens.getD 0
  match t.reasoningOutputPerMillionUsd with
  | some rate => if 0 < reasoning then usd + priced reasoning rate else usd
  | none => usd

variable [FloorRing F]

/-- Six decimal places.
Source: `cost.ts`, `round` -/
def round (usd : F) : F := ⌊usd * ((10 ^ 6 : ℕ) : F) + 1 / 2⌋ / ((10 ^ 6 : ℕ) : F)

/-- Source: `cost.ts`, `costOfGeneration` -/
def costOfGeneration (pricing : Pricing F) (usage : Usage F) (hardware : Option (HardwareUsage F)) :
    CostAmount F :=
  match pricing with
  | .unknown => .unknown (js "No pricing is configured for this model.")
  | .hardware hourlyUsd =>
    match hardware with
    | none => .unknown (js ("This model is priced by hardware time, but no occupancy was recorded " ++
        "for the run."))
    | some hardware =>
      .known (round (hourlyUsd * (hardware.occupancySeconds / ((3600 : ℕ) : F))))
  | .tokens t =>
    match usage.inputTokens, usage.outputTokens with
    | some input, some output => .known (round (tokensUsd t usage input output))
    | _, _ => .unknown (js ("The provider did not report token usage for this call, so its cost " ++
        "cannot be computed."))

end

/-! ## What the vendors report -/

/-- The usage of a chat completion. A missing `…_details` object is one without counts.
Source: `openai-compatible.ts`, `ChatCompletion.usage` -/
structure CompletionUsage (F : Type) where
  /-- `prompt_tokens` -/
  promptTokens : Option F := none
  /-- `completion_tokens` -/
  completionTokens : Option F := none
  /-- `total_tokens` -/
  totalTokens : Option F := none
  /-- `prompt_tokens_details.cached_tokens` -/
  cachedTokens : Option F := none
  /-- `completion_tokens_details.reasoning_tokens` -/
  reasoningTokens : Option F := none

/-- The usage that the adapter passes on.
Source: `openai-compatible.ts`, `OpenAICompatibleProvider.generate` -/
def CompletionUsage.toUsage {F : Type} (u : CompletionUsage F) : Usage F where
  inputTokens := u.promptTokens
  outputTokens := u.completionTokens
  totalTokens := u.totalTokens
  cachedInputTokens := u.cachedTokens
  reasoningTokens := u.reasoningTokens

/-- The usage of a message.
Source: `anthropic.ts`, `MessagesResponse.usage` -/
structure MessagesUsage (F : Type) where
  /-- `input_tokens` -/
  inputTokens : Option F := none
  /-- `output_tokens` -/
  outputTokens : Option F := none
  /-- `cache_read_input_tokens` -/
  cacheReadInputTokens : Option F := none

/-- The usage that the adapter passes on.
Source: `anthropic.ts`, `AnthropicProvider.generate` -/
def MessagesUsage.toUsage {F : Type} [Add F] (u : MessagesUsage F) : Usage F where
  inputTokens := u.inputTokens
  outputTokens := u.outputTokens
  totalTokens := u.inputTokens.bind fun input => u.outputTokens.map fun output => input + output
  cachedInputTokens := u.cacheReadInputTokens
  reasoningTokens := none

section

variable {F : Type} [Field F] [LinearOrder F]

/-- The counts of a chat completion: both totals, and the parts of them that are counted again. -/
structure CompletionUsage.Counts (u : CompletionUsage F) (prompt completion : F) : Prop where
  prompt_eq : u.promptTokens = some prompt
  completion_eq : u.completionTokens = some completion
  cached_nonneg : 0 ≤ u.cachedTokens.getD 0
  cached_le : u.cachedTokens.getD 0 ≤ prompt
  reasoning_nonneg : 0 ≤ u.reasoningTokens.getD 0
  reasoning_le : u.reasoningTokens.getD 0 ≤ completion

/-- Every token of a chat completion at its one rate. -/
def CompletionUsage.bill (t : TokenPricing F) (u : CompletionUsage F) (prompt completion : F) : F :=
  priced (prompt - u.cachedTokens.getD 0) t.inputPerMillionUsd +
    priced (u.cachedTokens.getD 0) (t.cachedInputPerMillionUsd.getD t.inputPerMillionUsd) +
    priced (completion - u.reasoningTokens.getD 0) t.outputPerMillionUsd +
    priced (u.reasoningTokens.getD 0) (t.reasoningOutputPerMillionUsd.getD t.outputPerMillionUsd)

/-- The counts of a message: the cache reads are none of the input tokens. -/
structure MessagesUsage.Counts (u : MessagesUsage F) (input output : F) : Prop where
  input_eq : u.inputTokens = some input
  output_eq : u.outputTokens = some output
  input_nonneg : 0 ≤ input
  output_nonneg : 0 ≤ output
  cacheRead_nonneg : 0 ≤ u.cacheReadInputTokens.getD 0

/-- Every token of a message at its one rate. -/
def MessagesUsage.bill (t : TokenPricing F) (u : MessagesUsage F) (input output : F) : F :=
  priced input t.inputPerMillionUsd +
    priced (u.cacheReadInputTokens.getD 0)
      (t.cachedInputPerMillionUsd.getD t.inputPerMillionUsd) +
    priced output t.outputPerMillionUsd

/-! ## The cost and the bill -/

variable {t : TokenPricing F}

/-- Tokens that are there are added only when there are any, which makes no difference. -/
theorem add_priced_of_nonneg {c : F} (hc : 0 ≤ c) (usd p : F) :
    (if 0 < c then usd + priced c p else usd) = usd + priced c p := by
  split_ifs with h
  · rfl
  · rw [le_antisymm (not_lt.mp h) hc, priced_zero, add_zero]

/-- What is charged for the reasoning tokens on top of the output. -/
def reasoningSurcharge (t : TokenPricing F) (reasoning : F) : F :=
  t.reasoningOutputPerMillionUsd.elim 0 (priced reasoning)

/-- The cost of counted tokens that are not negative. -/
theorem tokensUsd_eq {usage : Usage F} {input output : F}
    (hcached : 0 ≤ usage.cachedInputTokens.getD 0) (hreasoning : 0 ≤ usage.reasoningTokens.getD 0) :
    tokensUsd t usage input output =
      priced (max 0 (input - usage.cachedInputTokens.getD 0)) t.inputPerMillionUsd +
        priced output t.outputPerMillionUsd +
        priced (usage.cachedInputTokens.getD 0)
          (t.cachedInputPerMillionUsd.getD t.inputPerMillionUsd) +
        reasoningSurcharge t (usage.reasoningTokens.getD 0) := by
  unfold tokensUsd reasoningSurcharge
  simp only [add_priced_of_nonneg hcached]
  cases t.reasoningOutputPerMillionUsd with
  | none => exact (add_zero _).symm
  | some rate => exact add_priced_of_nonneg hreasoning _ _

/-- **A chat completion is charged the output rate for its reasoning tokens too**, where these have a
rate of their own. -/
theorem tokensUsd_completion [IsStrictOrderedRing F] {u : CompletionUsage F} {prompt completion : F}
    (h : u.Counts prompt completion) : tokensUsd t u.toUsage prompt completion =
      u.bill t prompt completion +
        t.reasoningOutputPerMillionUsd.elim 0
          fun _ => priced (u.reasoningTokens.getD 0) t.outputPerMillionUsd := by
  rw [tokensUsd_eq h.cached_nonneg h.reasoning_nonneg]
  have hsplit : priced completion t.outputPerMillionUsd =
      priced (completion - u.reasoningTokens.getD 0) t.outputPerMillionUsd +
        priced (u.reasoningTokens.getD 0) t.outputPerMillionUsd := by
    rw [← priced_add, sub_add_cancel]
  unfold CompletionUsage.bill reasoningSurcharge CompletionUsage.toUsage
  rw [max_eq_right (sub_nonneg.mpr h.cached_le), hsplit]
  cases t.reasoningOutputPerMillionUsd with
  | none =>
    simp only [Option.elim_none, Option.getD_none]
    ring
  | some rate =>
    simp only [Option.elim_some, Option.getD_some]
    ring

/-- **A message is charged nothing for as many input tokens as there are cache reads.** -/
theorem tokensUsd_messages {u : MessagesUsage F} {input output : F} (h : u.Counts input output)
    [IsStrictOrderedRing F] : tokensUsd t u.toUsage input output =
      u.bill t input output -
        priced (min input (u.cacheReadInputTokens.getD 0)) t.inputPerMillionUsd := by
  rw [tokensUsd_eq h.cacheRead_nonneg le_rfl]
  have hsplit : priced input t.inputPerMillionUsd =
      priced (max 0 (input - u.cacheReadInputTokens.getD 0)) t.inputPerMillionUsd +
        priced (min input (u.cacheReadInputTokens.getD 0)) t.inputPerMillionUsd := by
    rw [← priced_add]
    rcases le_total input (u.cacheReadInputTokens.getD 0) with hle | hle
    · rw [max_eq_left (sub_nonpos.mpr hle), min_eq_left hle, zero_add]
    · rw [max_eq_right (sub_nonneg.mpr hle), min_eq_right hle, sub_add_cancel]
  have hnone : reasoningSurcharge t (0 : F) = 0 := by
    unfold reasoningSurcharge
    cases t.reasoningOutputPerMillionUsd with
    | none => rfl
    | some rate => exact priced_zero rate
  unfold MessagesUsage.bill MessagesUsage.toUsage
  rw [hsplit]
  simp only [Option.getD_none, hnone]
  ring

variable [IsStrictOrderedRing F] [FloorRing F]

/-- **Every token is billed once**, up to the rounding of the sum: for a chat completion, exactly when
it has no reasoning tokens, or these have no rate of their own, or the output costs nothing; for a
message, exactly when it has no input tokens, or no cache reads, or the input costs nothing. -/
theorem billed_once_iff (t : TokenPricing F) (hardware : Option (HardwareUsage F)) :
    (∀ (u : CompletionUsage F) (prompt completion : F), u.Counts prompt completion →
      costOfGeneration (.tokens t) u.toUsage hardware =
          .known (round (tokensUsd t u.toUsage prompt completion)) ∧
        (tokensUsd t u.toUsage prompt completion = u.bill t prompt completion ↔
          u.reasoningTokens.getD 0 = 0 ∨ t.reasoningOutputPerMillionUsd = none ∨
            t.outputPerMillionUsd = 0)) ∧
    (∀ (u : MessagesUsage F) (input output : F), u.Counts input output →
      costOfGeneration (.tokens t) u.toUsage hardware =
          .known (round (tokensUsd t u.toUsage input output)) ∧
        (tokensUsd t u.toUsage input output = u.bill t input output ↔
          input = 0 ∨ u.cacheReadInputTokens.getD 0 = 0 ∨ t.inputPerMillionUsd = 0)) := by
  refine ⟨fun u prompt completion h => ⟨?_, ?_⟩, fun u input output h => ⟨?_, ?_⟩⟩
  · unfold costOfGeneration CompletionUsage.toUsage
    simp only [h.prompt_eq, h.completion_eq]
  · rw [tokensUsd_completion h, add_eq_left]
    cases t.reasoningOutputPerMillionUsd with
    | none => simp
    | some rate => simp [priced_eq_zero_iff]
  · unfold costOfGeneration MessagesUsage.toUsage
    simp only [h.input_eq, h.output_eq]
  · rw [tokensUsd_messages h, sub_eq_self, priced_eq_zero_iff, ← or_assoc]
    apply or_congr_left
    constructor
    · intro hmin
      rcases min_choice input (u.cacheReadInputTokens.getD 0) with heq | heq
      · exact .inl (heq.symm.trans hmin)
      · exact .inr (heq.symm.trans hmin)
    · rintro (heq | heq)
      · rw [heq]
        exact min_eq_left h.cacheRead_nonneg
      · rw [heq]
        exact min_eq_right h.input_nonneg

end

/-- A price sheet with every rate. -/
def everyRate : TokenPricing ℚ where
  inputPerMillionUsd := 10
  outputPerMillionUsd := 50
  cachedInputPerMillionUsd := some 1
  reasoningOutputPerMillionUsd := some 100

/-- A thousand prompt tokens, half of them cached, and ten of completion. -/
def halfCached : CompletionUsage ℚ where
  promptTokens := some 1000
  completionTokens := some 10
  cachedTokens := some 500

/-- A thousand input tokens and ten of output. -/
def uncached : MessagesUsage ℚ where
  inputTokens := some 1000
  outputTokens := some 10

/-- Both are billed once. -/
theorem billed_once_uncached :
    tokensUsd everyRate halfCached.toUsage 1000 10 = halfCached.bill everyRate 1000 10 ∧
      tokensUsd everyRate uncached.toUsage 1000 10 = uncached.bill everyRate 1000 10 := by
  constructor
  · refine ((billed_once_iff everyRate none).1 halfCached 1000 10 ⟨rfl, rfl, ?_, ?_, ?_, ?_⟩).2.mpr
      (.inl rfl) <;> norm_num [halfCached]
  · refine ((billed_once_iff everyRate none).2 uncached 1000 10 ⟨rfl, rfl, ?_, ?_, ?_⟩).2.mpr
      (.inr (.inl rfl)) <;> norm_num [uncached]

/-- A million tokens of completion, all of them reasoning. -/
def allReasoning : CompletionUsage ℚ where
  promptTokens := some 0
  completionTokens := some (10 ^ 6)
  reasoningTokens := some (10 ^ 6)

/-- A million input tokens beside a million cache reads. -/
def withCacheReads : MessagesUsage ℚ where
  inputTokens := some (10 ^ 6)
  outputTokens := some 0
  cacheReadInputTokens := some (10 ^ 6)

/-- A bill of 100 USD for reasoning comes to 150, and one of 11 USD for input to 1. -/
theorem not_billed_once :
    (costOfGeneration (.tokens everyRate) allReasoning.toUsage none = .known 150 ∧
      allReasoning.bill everyRate 0 (10 ^ 6) = 100) ∧
    (costOfGeneration (.tokens everyRate) withCacheReads.toUsage none = .known 1 ∧
      withCacheReads.bill everyRate (10 ^ 6) 0 = 11) := by
  refine ⟨⟨?_, ?_⟩, ?_, ?_⟩
  · norm_num [costOfGeneration, CompletionUsage.toUsage, allReasoning, tokensUsd, everyRate, priced,
      round]
  · norm_num [CompletionUsage.bill, allReasoning, everyRate, priced]
  · norm_num [costOfGeneration, MessagesUsage.toUsage, withCacheReads, tokensUsd, everyRate, priced,
      round]
  · norm_num [MessagesUsage.bill, withCacheReads, everyRate, priced]

end AgentEval.Models.Cost
