import AgentEval.Models.Registry

/-!
# `models/capabilities.ts`: which models may run a benchmark

A benchmark requires capabilities and budgets of tokens. A capability of a model may be unknown: it
stands for each of the two things that it may turn out to be.

* **`checkCompatibility_settles`**: what is decided with unknowns, against what is decided of each way
  they may turn out.
* **`buildCompatibilityMatrix_informed`**: what stays of a matrix when unknowns turn out.
-/

namespace AgentEval.Models

open Js

/-! ## The data -/

/-- What a benchmark can require.
Source: `models/capabilities.ts`, `Capability` -/
inductive RequiredCapability where
  | streaming | tools | parallelToolCalls | vision | audio | structuredOutput | jsonMode | reasoning
  | multiTurn | systemMessages
  deriving DecidableEq

/-- The property of `ModelCapabilities` with the name of a capability. -/
def RequiredCapability.key : RequiredCapability → Capability
  | streaming => .streaming
  | tools => .tools
  | parallelToolCalls => .parallelToolCalls
  | vision => .vision
  | audio => .audio
  | structuredOutput => .structuredOutput
  | jsonMode => .jsonMode
  | reasoning => .reasoning
  | multiTurn => .multiTurn
  | systemMessages => .systemMessages

/-- The name of a capability. -/
def RequiredCapability.toJs : RequiredCapability → JsString
  | streaming => js "streaming"
  | tools => js "tools"
  | parallelToolCalls => js "parallelToolCalls"
  | vision => js "vision"
  | audio => js "audio"
  | structuredOutput => js "structuredOutput"
  | jsonMode => js "jsonMode"
  | reasoning => js "reasoning"
  | multiTurn => js "multiTurn"
  | systemMessages => js "systemMessages"

/-- Source: `models/capabilities.ts`, `BenchmarkRequirements` -/
structure BenchmarkRequirements where
  /-- Capabilities without which the benchmark is invalid. -/
  required : Option (List RequiredCapability)
  /-- The least context. -/
  minContextWindow : Option Number
  /-- The least output budget. -/
  minOutputTokens : Option Number

/-- What to do when a capability is unknown.
Source: `models/capabilities.ts`, `UnknownPolicy` -/
inductive UnknownPolicy where
  /-- Exclude the model. -/
  | exclude
  /-- Include it, with a flag. -/
  | includeFlagged
  /-- Probe before deciding. -/
  | probe
  deriving DecidableEq

/-- Source: `models/capabilities.ts`, `CompatibilityDecision` -/
@[ext]
structure CompatibilityDecision where
  /-- Whether the model may run. -/
  compatible : Bool
  /-- What the model does not have. -/
  missing : List RequiredCapability
  /-- What could not be established. -/
  unknown : List RequiredCapability
  /-- The budgets that fail. -/
  limits : List JsString
  /-- The sentence for a reader. -/
  reason : JsString
  /-- Whether the model runs with something unknown. -/
  flagged : Bool

/-! ## The functions -/

/-- Source: `models/capabilities.ts`, `readCapability` -/
def readCapability (caps : ModelCapabilities) (c : RequiredCapability) : Support := caps.support c.key

/-- The step of the loop over what is required: what is missing, and what is unknown. -/
def sortCapability (caps : ModelCapabilities)
    (acc : List RequiredCapability × List RequiredCapability) (c : RequiredCapability) :
    List RequiredCapability × List RequiredCapability :=
  match readCapability caps c with
  | .unsupported => (acc.1 ++ [c], acc.2)
  | .unknown => (acc.1, acc.2 ++ [c])
  | .supported => acc

/-- What a budget adds to the limits: a budget that is not known is not assumed adequate. -/
def limitOf (unknown : Number → JsString) (below : JsString) (least held : Option Number) :
    List JsString :=
  match least, held with
  | none, _ => []
  | some n, none => [unknown n]
  | some n, some m =>
    if m.lt n then [below ++ m.toString ++ js " is below the required " ++ n.toString] else []

/-- What the context adds to the limits. -/
def contextLimits (model : RegisteredModel) (requirements : BenchmarkRequirements) : List JsString :=
  limitOf (fun n => js "context window is unknown, and the benchmark needs at least " ++ n.toString ++
      js " tokens")
    (js "context window ") requirements.minContextWindow model.contextWindow

/-- What the output budget adds to the limits. -/
def outputLimits (model : RegisteredModel) (requirements : BenchmarkRequirements) : List JsString :=
  limitOf (fun n => js "max output tokens is unknown, and the benchmark needs at least " ++ n.toString)
    (js "max output ") requirements.minOutputTokens model.maxOutputTokens

/-- `names.join(', ')` -/
def joinNames (names : List RequiredCapability) : JsString :=
  (js ", ").intercalate (names.map RequiredCapability.toJs)

/-- The parts of the sentence about a model that is skipped. -/
def skippedParts (missing unknown : List RequiredCapability) (limits : List JsString)
    (unknownPolicy : UnknownPolicy) : List JsString :=
  (if missing.isEmpty then [] else [js "does not support " ++ joinNames missing]) ++
  (if !unknown.isEmpty && decide (unknownPolicy = .exclude) then
    [js "has unverified support for " ++ joinNames unknown ++
      js " (excluded by default: an unverified capability can invalidate a score silently, " ++
      js "whereas an excluded model is a visible gap)"] else []) ++
  (if !unknown.isEmpty && decide (unknownPolicy = .probe) then
    [js "needs a capability probe for " ++ joinNames unknown] else []) ++
  limits

/-- Source: `models/capabilities.ts`, `explain` -/
def explain (missing unknown : List RequiredCapability) (limits : List JsString)
    (compatible flagged : Bool) (unknownPolicy : UnknownPolicy) (displayName : JsString) : JsString :=
  if compatible && !flagged then displayName ++ js " meets every requirement."
  else if compatible && flagged then
    displayName ++ js " is running with unverified support for " ++ joinNames unknown ++ js ". " ++
      js "Results carry lower confidence until a capability probe confirms it."
  else
    displayName ++ js " was skipped: it " ++
      (js "; ").intercalate (skippedParts missing unknown limits unknownPolicy) ++ js "."

/-- Whether a model may run a benchmark.
Source: `models/capabilities.ts`, `checkCompatibility` -/
def checkCompatibility (model : RegisteredModel) (requirements : BenchmarkRequirements)
    (unknownPolicy : UnknownPolicy) : CompatibilityDecision :=
  let (missing, unknown) :=
    (requirements.required.getD []).foldl (sortCapability model.capabilities) ([], [])
  let limits := contextLimits model requirements ++ outputLimits model requirements
  let unknownBlocks := !unknown.isEmpty && decide (unknownPolicy ≠ .includeFlagged)
  let compatible := missing.isEmpty && limits.isEmpty && !unknownBlocks
  let flagged := compatible && !unknown.isEmpty
  ⟨compatible, missing, unknown, limits,
    explain missing unknown limits compatible flagged unknownPolicy model.displayName, flagged⟩

/-- What a benchmark declares.
Source: `models/capabilities.ts`, `requirementsFrom` -/
def requirementsFrom (vision tools structuredOutput reasoning audio : Option Bool)
    (minContextWindow minOutputTokens : Option Number) : BenchmarkRequirements :=
  let pushed (flag : Option Bool) (c : RequiredCapability) := if flag = some true then [c] else []
  let required := pushed vision .vision ++ pushed tools .tools ++
    pushed structuredOutput .structuredOutput ++ pushed reasoning .reasoning ++ pushed audio .audio
  ⟨if required.isEmpty then none else some required, minContextWindow, minOutputTokens⟩

/-- Source: `models/capabilities.ts`, `MatrixEntry` -/
structure MatrixEntry where
  /-- The model. -/
  modelId : JsString
  /-- What it is called. -/
  displayName : JsString
  /-- The decision. -/
  decision : CompatibilityDecision

/-- Source: `models/capabilities.ts`, `CompatibilityMatrix` -/
structure CompatibilityMatrix where
  /-- The models that run. -/
  included : List MatrixEntry
  /-- The models that do not. -/
  excluded : List MatrixEntry
  /-- The models that run with something unknown. -/
  flagged : List MatrixEntry

/-- The entry of a model. -/
def entryOf (requirements : BenchmarkRequirements) (unknownPolicy : UnknownPolicy)
    (m : RegisteredModel) : MatrixEntry :=
  ⟨m.modelId, m.displayName, checkCompatibility m requirements unknownPolicy⟩

/-- The step of the loop over the models. -/
def addEntry (requirements : BenchmarkRequirements) (unknownPolicy : UnknownPolicy)
    (matrix : CompatibilityMatrix) (m : RegisteredModel) : CompatibilityMatrix :=
  let entry := entryOf requirements unknownPolicy m
  if entry.decision.compatible then
    { matrix with
      included := matrix.included ++ [entry]
      flagged := if entry.decision.flagged then matrix.flagged ++ [entry] else matrix.flagged }
  else { matrix with excluded := matrix.excluded ++ [entry] }

/-- The models against what a benchmark requires.
Source: `models/capabilities.ts`, `buildCompatibilityMatrix` -/
def buildCompatibilityMatrix (models : List RegisteredModel) (requirements : BenchmarkRequirements)
    (unknownPolicy : UnknownPolicy) : CompatibilityMatrix :=
  models.foldl (addEntry requirements unknownPolicy) ⟨[], [], []⟩

/-! ## What a decision rests on -/

/-- What the benchmark requires with a given support. -/
def BenchmarkRequirements.having (r : BenchmarkRequirements) (caps : ModelCapabilities) (s : Support) :
    List RequiredCapability :=
  (r.required.getD []).filter fun c => decide (readCapability caps c = s)

/-- The budgets that fail. -/
def limitsOf (m : RegisteredModel) (r : BenchmarkRequirements) : List JsString :=
  contextLimits m r ++ outputLimits m r

/-- The loop finds what is unsupported and what is unknown, in the order of the requirements. -/
theorem foldl_sortCapability (caps : ModelCapabilities) (cs : List RequiredCapability)
    (acc : List RequiredCapability × List RequiredCapability) :
    cs.foldl (sortCapability caps) acc =
      (acc.1 ++ cs.filter fun c => decide (readCapability caps c = .unsupported),
        acc.2 ++ cs.filter fun c => decide (readCapability caps c = .unknown)) := by
  induction cs generalizing acc with
  | nil => simp
  | cons c cs ih =>
    rw [List.foldl_cons, ih, sortCapability]
    cases h : readCapability caps c <;> simp [h]

variable {m m' : RegisteredModel} {r : BenchmarkRequirements} {p : UnknownPolicy}

/-- What is missing. -/
theorem missing_checkCompatibility :
    (checkCompatibility m r p).missing = r.having m.capabilities .unsupported := by
  rw [checkCompatibility, foldl_sortCapability]
  rfl

/-- What is unknown. -/
theorem unknown_checkCompatibility :
    (checkCompatibility m r p).unknown = r.having m.capabilities .unknown := by
  rw [checkCompatibility, foldl_sortCapability]
  rfl

/-- The limits. -/
theorem limits_checkCompatibility : (checkCompatibility m r p).limits = limitsOf m r := rfl

/-- **When a model may run.** -/
theorem compatible_checkCompatibility : (checkCompatibility m r p).compatible = true ↔
    r.having m.capabilities .unsupported = [] ∧ limitsOf m r = [] ∧
      (p = .includeFlagged ∨ r.having m.capabilities .unknown = []) := by
  rw [checkCompatibility, foldl_sortCapability]
  simp [BenchmarkRequirements.having, limitsOf, or_comm, and_assoc]

/-- A flag stands for something unknown. -/
theorem flagged_checkCompatibility : (checkCompatibility m r p).flagged = true ↔
    (checkCompatibility m r p).compatible = true ∧ (checkCompatibility m r p).unknown ≠ [] := by
  change (_ && _) = true ↔ _
  rw [Bool.and_eq_true, Bool.not_eq_true', List.isEmpty_eq_false_iff]
  exact Iff.rfl

/-- Nothing that is required has a given support. -/
theorem having_eq_nil_iff {caps : ModelCapabilities} {s : Support} :
    r.having caps s = [] ↔ ∀ c ∈ r.required.getD [], caps.support c.key ≠ s := by
  rw [BenchmarkRequirements.having, List.filter_eq_nil_iff]
  exact forall₂_congr fun c _ => not_congr decide_eq_true_iff

/-- Unknowns are excluded: everything that is required is supported. -/
theorem compatible_iff_supported (hp : p ≠ .includeFlagged) :
    (checkCompatibility m r p).compatible = true ↔
      limitsOf m r = [] ∧ ∀ c ∈ r.required.getD [], m.capabilities.support c.key = .supported := by
  rw [compatible_checkCompatibility, or_iff_right hp, having_eq_nil_iff, having_eq_nil_iff]
  constructor
  · rintro ⟨hmissing, hlimits, hunknown⟩
    refine ⟨hlimits, fun c hc => ?_⟩
    cases h : m.capabilities.support c.key with
    | supported => rfl
    | unsupported => exact absurd h (hmissing c hc)
    | unknown => exact absurd h (hunknown c hc)
  · rintro ⟨hlimits, hall⟩
    refine ⟨fun c hc => ?_, hlimits, fun c hc => ?_⟩ <;>
    · rw [hall c hc]
      decide

/-- Unknowns are included: nothing that is required is unsupported. -/
theorem compatible_includeFlagged_iff : (checkCompatibility m r .includeFlagged).compatible = true ↔
    limitsOf m r = [] ∧ ∀ c ∈ r.required.getD [], m.capabilities.support c.key ≠ .unsupported := by
  rw [compatible_checkCompatibility, having_eq_nil_iff, and_comm]
  simp

/-! ## What unknowns may turn out to be -/

/-- What is known is supported or unsupported. -/
theorem Support.ne_unsupported_iff {s : Support} (h : s ≠ .unknown) :
    s ≠ .unsupported ↔ s = .supported := by
  cases s with
  | supported => exact iff_of_true (by decide) rfl
  | unsupported => exact iff_of_false (fun hne => hne rfl) (by decide)
  | unknown => exact absurd rfl h

/-- One support says what another does, where the other says anything. -/
def Support.Informs (s t : Support) : Prop := s = .unknown ∨ s = t

/-- A model with another support of its capabilities. -/
def RegisteredModel.withSupport (m : RegisteredModel) (support : Capability → Support) :
    RegisteredModel :=
  { m with capabilities := { m.capabilities with support } }

/-- What the capabilities of a model may turn out to be: what is known stays, and nothing is unknown. -/
structure TurnsOut (caps : ModelCapabilities) (support : Capability → Support) : Prop where
  /-- What is known stays. -/
  informs : ∀ c, (caps.support c).Informs (support c)
  /-- Nothing is unknown. -/
  settled : ∀ c, support c ≠ .unknown

/-- The limits do not depend on the capabilities. -/
theorem limitsOf_withSupport (support : Capability → Support) :
    limitsOf (m.withSupport support) r = limitsOf m r := rfl

/-- Every unknown turns out to be `t`. -/
def settledTo (caps : ModelCapabilities) (t : Support) (c : Capability) : Support :=
  if caps.support c = .unknown then t else caps.support c

/-- It is one way to turn out. -/
theorem turnsOut_settledTo (caps : ModelCapabilities) {t : Support} (ht : t ≠ .unknown) :
    TurnsOut caps (settledTo caps t) where
  informs c := by
    unfold settledTo
    split_ifs with h
    · exact .inl h
    · exact .inr rfl
  settled c := by
    unfold settledTo
    split_ifs with h
    · exact ht
    · exact h

/-- Where nothing is unknown the policy does not matter. -/
theorem compatible_settled_iff {support : Capability → Support} (h : ∀ c, support c ≠ .unknown) :
    (checkCompatibility (m.withSupport support) r p).compatible = true ↔
      limitsOf m r = [] ∧ ∀ c ∈ r.required.getD [], support c.key = .supported := by
  by_cases hp : p = .includeFlagged
  · subst hp
    rw [compatible_includeFlagged_iff, limitsOf_withSupport]
    exact and_congr_right fun _ => forall₂_congr fun c _ => Support.ne_unsupported_iff (h c.key)
  · exact compatible_iff_supported hp

/-- **What is decided with unknowns.** A model may run where unknowns are excluded exactly when it may
run however they turn out; where they are included exactly when it may run if they turn out well; and
it runs with a flag exactly when that depends on how they turn out. -/
theorem checkCompatibility_settles (m : RegisteredModel) (r : BenchmarkRequirements) :
    ((checkCompatibility m r .exclude).compatible = true ↔
      ∀ support, TurnsOut m.capabilities support → ∀ q,
        (checkCompatibility (m.withSupport support) r q).compatible = true) ∧
    ((checkCompatibility m r .probe).compatible = true ↔
      ∀ support, TurnsOut m.capabilities support → ∀ q,
        (checkCompatibility (m.withSupport support) r q).compatible = true) ∧
    ((checkCompatibility m r .includeFlagged).compatible = true ↔
      ∃ support, TurnsOut m.capabilities support ∧ ∀ q,
        (checkCompatibility (m.withSupport support) r q).compatible = true) ∧
    ((checkCompatibility m r .includeFlagged).flagged = true ↔
      (∃ support, TurnsOut m.capabilities support ∧ ∀ q,
        (checkCompatibility (m.withSupport support) r q).compatible = true) ∧
      ∃ support, TurnsOut m.capabilities support ∧ ∀ q,
        (checkCompatibility (m.withSupport support) r q).compatible = false) := by
  have hincluded : (checkCompatibility m r .includeFlagged).compatible = true ↔
      ∃ support, TurnsOut m.capabilities support ∧ ∀ q,
        (checkCompatibility (m.withSupport support) r q).compatible = true := by
    rw [compatible_includeFlagged_iff]
    constructor
    · rintro ⟨hlimits, hall⟩
      have hturns := turnsOut_settledTo m.capabilities (show Support.supported ≠ .unknown by decide)
      refine ⟨_, hturns, fun q => (compatible_settled_iff hturns.settled).mpr ⟨hlimits, fun c hc => ?_⟩⟩
      unfold settledTo
      split_ifs with hunknown
      · rfl
      · exact (Support.ne_unsupported_iff hunknown).mp (hall c hc)
    · rintro ⟨support, hturns, hrun⟩
      obtain ⟨hlimits, hall⟩ := (compatible_settled_iff hturns.settled).mp (hrun .exclude)
      refine ⟨hlimits, fun c hc h => ?_⟩
      rcases hturns.informs c.key with hu | hs
      · cases h.symm.trans hu
      · cases (h.symm.trans hs).trans (hall c hc)
  have hexcluded : ∀ p, p ≠ .includeFlagged → ((checkCompatibility m r p).compatible = true ↔
      ∀ support, TurnsOut m.capabilities support → ∀ q,
        (checkCompatibility (m.withSupport support) r q).compatible = true) := by
    intro p hp
    rw [compatible_iff_supported hp]
    constructor
    · rintro ⟨hlimits, hall⟩ support hturns q
      refine (compatible_settled_iff hturns.settled).mpr ⟨hlimits, fun c hc => ?_⟩
      rcases hturns.informs c.key with hu | hs
      · cases (hall c hc).symm.trans hu
      · exact hs.symm.trans (hall c hc)
    · intro h
      -- the unknowns turn out to be unsupported
      have hturns := turnsOut_settledTo m.capabilities (show Support.unsupported ≠ .unknown by decide)
      obtain ⟨hlimits, hall⟩ := (compatible_settled_iff hturns.settled).mp (h _ hturns .exclude)
      refine ⟨hlimits, fun c hc => ?_⟩
      have hsupported := hall c hc
      unfold settledTo at hsupported
      split_ifs at hsupported
      exact hsupported
  refine ⟨hexcluded _ (by decide), hexcluded _ (by decide), hincluded, ?_⟩
  rw [flagged_checkCompatibility, hincluded, unknown_checkCompatibility, ne_eq, having_eq_nil_iff]
  refine and_congr_right fun hruns => ?_
  have hlimits := (compatible_includeFlagged_iff.mp (hincluded.mpr hruns)).1
  constructor
  · intro h
    obtain ⟨c, hc, hunknown⟩ : ∃ c ∈ r.required.getD [], m.capabilities.support c.key = .unknown := by
      by_contra hnone
      exact h fun c hc hunknown => hnone ⟨c, hc, hunknown⟩
    have hturns := turnsOut_settledTo m.capabilities (show Support.unsupported ≠ .unknown by decide)
    refine ⟨_, hturns, fun q => Bool.eq_false_iff.mpr fun hcompatible => ?_⟩
    have hsupported := ((compatible_settled_iff hturns.settled).mp hcompatible).2 c hc
    unfold settledTo at hsupported
    rw [if_pos hunknown] at hsupported
    cases hsupported
  · rintro ⟨support, hturns, hnot⟩ hknown
    have hfalse := hnot .exclude
    rw [Bool.eq_false_iff, ne_eq, compatible_settled_iff hturns.settled] at hfalse
    refine hfalse ⟨hlimits, fun c hc => ?_⟩
    have hall := (compatible_includeFlagged_iff.mp (hincluded.mpr hruns)).2 c hc
    rcases hturns.informs c.key with hu | hs
    · exact absurd hu (hknown c hc)
    · exact hs ▸ (Support.ne_unsupported_iff (hknown c hc)).mp hall

/-! ## The matrix -/

/-- A later revision of a model says what an earlier one does, and perhaps more of what the model can
do. -/
structure Informed (m m' : RegisteredModel) : Prop where
  /-- It is the same model. -/
  modelId : m.modelId = m'.modelId
  /-- It reads as much. -/
  contextWindow : m.contextWindow = m'.contextWindow
  /-- It writes as much. -/
  maxOutputTokens : m.maxOutputTokens = m'.maxOutputTokens
  /-- What is known of it stays. -/
  informs : ∀ c, (m.capabilities.support c).Informs (m'.capabilities.support c)

/-- **The matrix**: what runs, what does not and what runs with a flag, each in the order of the
models. -/
theorem buildCompatibilityMatrix_eq (ms : List RegisteredModel) :
    buildCompatibilityMatrix ms r p =
      ⟨(ms.map (entryOf r p)).filter fun e => e.decision.compatible,
        (ms.map (entryOf r p)).filter fun e => !e.decision.compatible,
        (ms.map (entryOf r p)).filter fun e => e.decision.flagged⟩ := by
  have hfrom : ∀ acc : CompatibilityMatrix, ms.foldl (addEntry r p) acc =
      ⟨acc.included ++ (ms.map (entryOf r p)).filter fun e => e.decision.compatible,
        acc.excluded ++ (ms.map (entryOf r p)).filter fun e => !e.decision.compatible,
        acc.flagged ++ (ms.map (entryOf r p)).filter fun e => e.decision.flagged⟩ := by
    induction ms with
    | nil => simp
    | cons m ms ih =>
      intro acc
      have hflag : (entryOf r p m).decision.flagged = true →
          (entryOf r p m).decision.compatible = true := fun h => (flagged_checkCompatibility.mp h).1
      rw [List.foldl_cons, ih, addEntry]
      cases hc : (entryOf r p m).decision.compatible with
      | false =>
        rw [hc] at hflag
        have hf : (entryOf r p m).decision.flagged = false :=
          Bool.eq_false_iff.mpr fun h => Bool.false_ne_true (hflag h)
        simp [hc, hf]
      | true => cases hf : (entryOf r p m).decision.flagged <;> simp [hc, hf]
  exact (hfrom _).trans (by simp)

/-- The limits stay. -/
theorem Informed.limitsOf_eq (h : Informed m m') : limitsOf m' r = limitsOf m r := by
  unfold limitsOf contextLimits outputLimits
  rw [h.contextWindow, h.maxOutputTokens]

/-- What unknowns turn out to be does not exclude a model that runs without them. -/
theorem compatible_of_informed (h : Informed m m')
    (hrun : (checkCompatibility m r .exclude).compatible = true) :
    (checkCompatibility m' r p).compatible = true := by
  obtain ⟨hlimits, hall⟩ := (compatible_iff_supported (by decide)).mp hrun
  have hsupported : ∀ c ∈ r.required.getD [], m'.capabilities.support c.key = .supported := by
    intro c hc
    rcases h.informs c.key with hu | hs
    · cases (hall c hc).symm.trans hu
    · exact hs.symm.trans (hall c hc)
  rw [compatible_checkCompatibility, h.limitsOf_eq, having_eq_nil_iff, having_eq_nil_iff]
  refine ⟨fun c hc => ?_, hlimits, .inr fun c hc => ?_⟩ <;>
  · rw [hsupported c hc]
    decide

/-- It does not include a model that is excluded with them. -/
theorem incompatible_of_informed (h : Informed m m')
    (hrun : (checkCompatibility m r .includeFlagged).compatible = false) :
    (checkCompatibility m' r p).compatible = false := by
  rw [Bool.eq_false_iff] at hrun ⊢
  refine fun hcompatible => hrun ?_
  obtain ⟨hmissing, hlimits, -⟩ := compatible_checkCompatibility.mp hcompatible
  rw [compatible_includeFlagged_iff, ← h.limitsOf_eq]
  refine ⟨hlimits, fun c hc hunsupported => having_eq_nil_iff.mp hmissing c hc ?_⟩
  rcases h.informs c.key with hu | hs
  · cases hunsupported.symm.trans hu
  · exact hs.symm.trans hunsupported

/-- It does not put a flag on a model. -/
theorem flagged_of_informed (h : Informed m m') (hflag : (checkCompatibility m' r p).flagged = true) :
    (checkCompatibility m r .includeFlagged).flagged = true := by
  obtain ⟨hcompatible, hunknown⟩ := flagged_checkCompatibility.mp hflag
  refine flagged_checkCompatibility.mpr ⟨?_, ?_⟩
  · by_contra hnot
    rw [incompatible_of_informed h (Bool.not_eq_true _ ▸ hnot)] at hcompatible
    cases hcompatible
  · rw [unknown_checkCompatibility, ne_eq, having_eq_nil_iff] at hunknown ⊢
    refine fun hknown => hunknown fun c hc hu => hknown c hc ?_
    rcases h.informs c.key with hu' | hs
    · exact hu'
    · exact hs.trans hu

/-- The models that pass a test are among those that pass another, in their order. -/
theorem sublist_of_related {R : RegisteredModel → RegisteredModel → Prop}
    (hid : ∀ {m m'}, R m m' → m.modelId = m'.modelId) {ms ms' : List RegisteredModel}
    {q : UnknownPolicy} {P P' : MatrixEntry → Bool} (h : List.Forall₂ R ms ms')
    (himp : ∀ {m m'}, R m m' → P (entryOf r p m) = true → P' (entryOf r q m') = true) :
    (((ms.map (entryOf r p)).filter P).map MatrixEntry.modelId).Sublist
      (((ms'.map (entryOf r q)).filter P').map MatrixEntry.modelId) := by
  induction h with
  | nil => exact .slnil
  | @cons m m' ms ms' hm _ ih =>
    have hentry : (entryOf r p m).modelId = (entryOf r q m').modelId := hid hm
    rw [List.map_cons, List.map_cons]
    cases hP : P (entryOf r p m) with
    | true =>
      rw [List.filter_cons_of_pos hP, List.filter_cons_of_pos (himp hm hP), List.map_cons,
        List.map_cons, hentry]
      exact ih.cons_cons _
    | false =>
      rw [List.filter_cons_of_neg (Bool.eq_false_iff.mp hP), List.filter_cons]
      split_ifs
      · exact ih.cons _
      · exact ih

/-- A revision says what it does. -/
theorem Informed.refl (m : RegisteredModel) : Informed m m := ⟨rfl, rfl, rfl, fun _ => .inr rfl⟩

/-- What has been said stays said. -/
theorem Informed.trans {m₁ m₂ m₃ : RegisteredModel} (h : Informed m₁ m₂) (h' : Informed m₂ m₃) :
    Informed m₁ m₃ where
  modelId := h.modelId.trans h'.modelId
  contextWindow := h.contextWindow.trans h'.contextWindow
  maxOutputTokens := h.maxOutputTokens.trans h'.maxOutputTokens
  informs c := by
    rcases h.informs c with hu | hs
    · exact .inl hu
    · exact hs ▸ h'.informs c

/-- What is said at one time is among what is said at a later one. -/
theorem forall₂_informed {stage : ℕ → List RegisteredModel}
    (h : ∀ n, List.Forall₂ Informed (stage n) (stage (n + 1))) {i j : ℕ} (hij : i ≤ j) :
    List.Forall₂ Informed (stage i) (stage j) := by
  have htrans : ∀ {ms₁ ms₂ ms₃ : List RegisteredModel}, List.Forall₂ Informed ms₁ ms₂ →
      List.Forall₂ Informed ms₂ ms₃ → List.Forall₂ Informed ms₁ ms₃ := by
    intro ms₁ ms₂ ms₃ h₁
    induction h₁ generalizing ms₃ with
    | nil => exact id
    | cons hm _ ih =>
      rintro (_ | ⟨hm', h₂⟩)
      exact .cons (hm.trans hm') (ih h₂)
  induction j, hij using Nat.le_induction with
  | base => exact List.forall₂_same.mpr fun m _ => .refl m
  | succ j _ ih => exact htrans ih (h j)

/-- A model whose vision has a given support. -/
def seeing (vision : Support) : RegisteredModel :=
  ⟨js "m", 1, js "t", js "M", js "openai", .cloudApi, js "gpt", none, none, none,
    ⟨fun c => if c = .vision then vision else .unknown, true, .unknown, none⟩, none, none, .unknown,
    PlainObject.empty, ⟨0, TimeValue.zero_inRange⟩, none⟩

/-- Its vision is probed. -/
def probedVision (n : ℕ) : List RegisteredModel := [seeing (if n = 0 then .unknown else .supported)]

/-- What is unknown turns out. -/
theorem informed_probedVision (n : ℕ) :
    List.Forall₂ Informed (probedVision n) (probedVision (n + 1)) := by
  refine .cons ⟨rfl, rfl, rfl, fun c => ?_⟩ .nil
  by_cases hc : c = .vision
  · by_cases hn : n = 0
    · exact .inl (by simp [seeing, hc, hn])
    · exact .inr (by simp [seeing, hc, hn])
  · exact .inr (by simp [seeing, hc])

end AgentEval.Models
