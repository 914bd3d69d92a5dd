import AgentEval.Crypto.Collision
import AgentEval.Js.Literal
import AgentEval.Provenance.PassportCorrect
import AgentEval.Words.Lines

/-!
# `provenance/identity.ts`: executions and what differs between two

An execution is a model and a deployment. Its digest covers every line that the two addresses hash;
`diffExecutions` walks a list of its own, with five facets of the deployment.

* `isSameExecution_iff` — two executions are the same when both addresses are.
* `diffExecutions_eq_nil_iff` — what the facets compare.
* `deploymentText_eq_iff` — what the address of a deployment compares, where no field has two lines.
* **`isSameExecution_iff_no_difference`**: when the two agree.
-/

namespace AgentEval.Provenance

open Js Sha256 Crypto

/-! ## `identity.ts` -/

/-- A model as actually evaluated.
Source: `identity.ts`, `EvaluatedModel` -/
structure EvaluatedModel where
  /-- Which weights. -/
  model : ModelIdentity
  /-- Served how, and on what. -/
  deployment : DeploymentIdentity

/-- What the digest of an execution is fed. -/
def executionParts (e : EvaluatedModel) : List JsString :=
  [js "execution:v1\n", modelDigest e.model ++ js "\n" ++ deploymentDigest e.deployment ++ js "\n"]

/-- Source: `identity.ts`, `executionDigest` -/
def executionDigest (e : EvaluatedModel) : JsString := addressOf (executionParts e)

/-- Whether two results may be attributed to the same model.
Source: `identity.ts`, `isSameModel` -/
def isSameModel (a b : EvaluatedModel) : Bool := decide (modelDigest a.model = modelDigest b.model)

/-- Whether the entire execution configuration matches.
Source: `identity.ts`, `isSameExecution` -/
def isSameExecution (a b : EvaluatedModel) : Bool := decide (executionDigest a = executionDigest b)

/-- Source: `identity.ts`, `ExecutionDifference.dimension` -/
inductive Dimension where
  | model | runtime | hardware | endpoint | precision | quantization
  deriving DecidableEq

/-- Source: `identity.ts`, `ExecutionDifference` -/
structure ExecutionDifference where
  /-- What differs. -/
  dimension : Dimension
  /-- How. -/
  detail : JsString

/-- Source: `identity.ts`, `describeModel` -/
def describeModel (m : ModelIdentity) : JsString :=
  let rev := m.commitSha <|> m.revision
  if truthy rev then m.repository ++ js "@" ++ (orEmpty rev).take 12 else m.repository

/-- Source: `identity.ts`, `describeAccelerator` -/
def describeAccelerator : Option AcceleratorProvenance → JsString
  | none => js "unspecified hardware"
  | some a =>
    let count := if a.count.any (Number.lt (.ofNat 1)) then
        orEmpty (a.count.map Number.toString) ++ js "x "
      else []
    count ++ a.vendor ++ if truthy a.model then js " " ++ orEmpty a.model else []

/-- An optional text in a template. -/
def orUndefined (s : Option JsString) : JsString := s.getD (js "undefined")

/-- The vendor and the model of an accelerator, as they are compared.
Source: `identity.ts`, `diffExecutions` -/
def hardwareName (a : Option AcceleratorProvenance) : JsString :=
  orUndefined (a.map fun a => a.vendor) ++ js "/" ++ orUndefined (a.bind fun a => a.model)

deriving instance DecidableEq for InferenceEngine
deriving instance DecidableEq for NumericPrecision

/-- A difference, if there is one. -/
def difference (same : Bool) (dimension : Dimension) (detail : JsString) :
    List ExecutionDifference :=
  if same then [] else [⟨dimension, detail⟩]

/-- Source: `identity.ts`, `diffExecutions` -/
def diffExecutions (a b : EvaluatedModel) : List ExecutionDifference :=
  let ra := a.deployment.runtime
  let rb := b.deployment.runtime
  let ha := a.deployment.accelerator
  let hb := b.deployment.accelerator
  difference (decide (modelDigest a.model = modelDigest b.model)) .model
      (js "different weights: " ++ describeModel a.model ++ js " vs " ++ describeModel b.model) ++
    difference (decide (ra.engine = rb.engine)) .runtime
      (ra.engine.text ++ js " vs " ++ rb.engine.text) ++
    difference (decide (ra.precision = rb.precision)) .precision
      ((ra.precision.map NumericPrecision.text).getD (js "unknown") ++ js " vs " ++
        (rb.precision.map NumericPrecision.text).getD (js "unknown")) ++
    difference (decide (ra.quantization = rb.quantization)) .quantization
      (ra.quantization.getD (js "none") ++ js " vs " ++ rb.quantization.getD (js "none")) ++
    difference (decide (hardwareName ha = hardwareName hb)) .hardware
      (describeAccelerator ha ++ js " vs " ++ describeAccelerator hb) ++
    difference (decide (a.deployment.endpoint = b.deployment.endpoint)) .endpoint
      (js "served from different endpoints")

/-! ## Addresses and what they hash -/

/-- What is hashed. -/
def hashedText (parts : List JsString) : Bytes := parts.flatMap utf8

/-- What the address of a deployment is fed. -/
def deploymentParts (d : DeploymentIdentity) : List JsString :=
  [js "deployment-identity:v1\n",
    d.provider ++ js "\n" ++ d.servedModelId ++ js "\n",
    js "engine:" ++ d.runtime.engine.text ++ js "@" ++ orEmpty d.runtime.engineVersion ++ js "\n" ++
      js "container:" ++ orEmpty d.runtime.containerDigest ++ js "\n" ++
      js "precision:" ++ orEmpty (d.runtime.precision.map NumericPrecision.text) ++ js "\n" ++
      js "quant:" ++ orEmpty d.runtime.quantization ++ js "\n" ++
      js "tp:" ++ orEmpty (d.runtime.tensorParallelism.map Number.toString) ++ js "\n",
    hardwareLines d.accelerator,
    js "endpoint:" ++ orEmpty d.endpoint ++ js "\n"]

/-- What the address of a deployment hashes. -/
def deploymentText (d : DeploymentIdentity) : Bytes := hashedText (deploymentParts d)

/-- What the digest of an execution hashes. -/
def executionText (e : EvaluatedModel) : Bytes := hashedText (executionParts e)

/-- The address of a deployment is that of its parts. -/
theorem deploymentDigest_eq (d : DeploymentIdentity) :
    deploymentDigest d = addressOf (deploymentParts d) := rfl

/-- Equal addresses of texts that do not collide. -/
theorem addressOf_eq_iff {xs ys : List JsString}
    (hS : ¬ CollisionIn sha256 [hashedText xs, hashedText ys]) :
    addressOf xs = addressOf ys ↔ hashedText xs = hashedText ys := by
  unfold addressOf
  constructor
  · intro h
    apply eq_of_not_collisionIn hS (by simp) (by simp)
    exact Digest.ext (toHex_injective (List.append_cancel_left h))
  · intro h
    unfold hashedText at h
    rw [h]

/-- An address is a word and the digits of a digest: 71 symbols, all in ASCII. -/
theorem addressOf_text (xs : List JsString) :
    (addressOf xs).length = 71 ∧ ∀ u ∈ addressOf xs, u.toNat < 128 := by
  have hdigit : ∀ n < 16, (hexDigit n).toNat < 128 := by decide
  have hword : ∀ u ∈ js "sha256:", u.toNat < 128 := by decide
  unfold addressOf
  refine ⟨?_, List.forall_mem_append.mpr ⟨hword, fun u hu => ?_⟩⟩
  · rw [List.length_append, length_toHex, Digest.length_bytes]
    rfl
  · obtain ⟨x, -, hx⟩ := List.mem_flatMap.mp hu
    have hlt := x.toNat_lt
    rcases List.mem_pair.mp hx with rfl | rfl
    · exact hdigit _ (by omega)
    · exact hdigit _ (by omega)

/-- The digest of an execution covers both addresses. -/
theorem executionText_eq_iff {a b : EvaluatedModel} : executionText a = executionText b ↔
    modelDigest a.model = modelDigest b.model ∧
      deploymentDigest a.deployment = deploymentDigest b.deployment := by
  have hascii : ∀ e : EvaluatedModel, ∀ u ∈ modelDigest e.model ++ js "\n" ++
      deploymentDigest e.deployment ++ js "\n", u.toNat < 128 := by
    intro e
    have hline : ∀ u ∈ js "\n", u.toNat < 128 := by decide
    simp only [List.forall_mem_append]
    exact ⟨⟨⟨(addressOf_text _).2, hline⟩, (addressOf_text _).2⟩, hline⟩
  constructor
  · intro h
    unfold executionText hashedText executionParts at h
    rw [List.flatMap_cons, List.flatMap_cons, List.flatMap_cons, List.flatMap_cons,
      List.append_cancel_left_eq, List.flatMap_nil, List.append_nil, List.append_nil] at h
    have htext := eq_of_utf8_eq_ascii (hascii b) h
    rw [List.append_cancel_right_eq, List.append_assoc, List.append_assoc] at htext
    obtain ⟨hmodel, hrest⟩ := List.append_inj htext
      ((addressOf_text _).1.trans (addressOf_text _).1.symm)
    exact ⟨hmodel, List.append_cancel_left hrest⟩
  · rintro ⟨hmodel, hdeployment⟩
    unfold executionText executionParts
    rw [hmodel, hdeployment]

/-- **Two executions are the same** when their models have one address and their deployments hash one
text, unless the hash collides. -/
theorem isSameExecution_iff {a b : EvaluatedModel}
    (hexecution : ¬ CollisionIn sha256 [executionText a, executionText b])
    (hdeployment : ¬ CollisionIn sha256 [deploymentText a.deployment, deploymentText b.deployment]) :
    isSameExecution a b = true ↔ isSameModel a b = true ∧
      deploymentText a.deployment = deploymentText b.deployment := by
  unfold isSameExecution isSameModel executionDigest
  rw [decide_eq_true_iff, decide_eq_true_iff, addressOf_eq_iff hexecution]
  apply executionText_eq_iff.trans
  rw [deploymentDigest_eq, deploymentDigest_eq, addressOf_eq_iff hdeployment]
  rfl

/-! ## The facets -/

/-- The facets of two deployments that are compared agree. -/
structure SameFacets (d e : DeploymentIdentity) : Prop where
  engine : d.runtime.engine = e.runtime.engine
  precision : d.runtime.precision = e.runtime.precision
  quantization : d.runtime.quantization = e.runtime.quantization
  hardware : hardwareName d.accelerator = hardwareName e.accelerator
  endpoint : d.endpoint = e.endpoint

/-- A difference is named when there is one. -/
theorem difference_eq_nil_iff {same : Bool} {dimension : Dimension} {detail : JsString} :
    difference same dimension detail = [] ↔ same = true := by
  cases same with
  | true => exact iff_of_true rfl rfl
  | false => exact iff_of_false (List.cons_ne_nil _ _) Bool.false_ne_true

/-- **What `diffExecutions` compares.** -/
theorem diffExecutions_eq_nil_iff {a b : EvaluatedModel} : diffExecutions a b = [] ↔
    isSameModel a b = true ∧ SameFacets a.deployment b.deployment := by
  unfold diffExecutions isSameModel
  simp only [List.append_eq_nil_iff, difference_eq_nil_iff, decide_eq_true_eq]
  constructor
  · rintro ⟨⟨⟨⟨⟨hmodel, hengine⟩, hprecision⟩, hquantization⟩, hhardware⟩, hendpoint⟩
    exact ⟨hmodel, hengine, hprecision, hquantization, hhardware, hendpoint⟩
  · rintro ⟨hmodel, h⟩
    exact ⟨⟨⟨⟨⟨hmodel, h.engine⟩, h.precision⟩, h.quantization⟩, h.hardware⟩, h.endpoint⟩

/-! ## Fields of one line -/

/-- The vendor and the model of an accelerator, as they are hashed. -/
def hashedHardware (a : Option AcceleratorProvenance) : JsString :=
  orEmpty (a.map fun a => a.vendor) ++ js "/" ++ orEmpty (a.bind fun a => a.model)

/-- How many accelerators, as it is hashed. -/
def hashedCount (a : Option AcceleratorProvenance) : JsString :=
  orEmpty (a.bind fun a => a.count.map Number.toString)

/-- The toolkits, as they are hashed. -/
def hashedToolkits (a : Option AcceleratorProvenance) : JsString :=
  orEmpty (a.bind fun a => a.toolkitVersions.map canonicalKeyValues)

/-- A text of one line, with its surrogates paired. -/
structure OneLine (s : JsString) : Prop where
  wellFormed : WellFormed s
  line : 10 ∉ s

/-- A deployment whose fields are of one line each. -/
structure DeploymentIdentity.Plain (d : DeploymentIdentity) : Prop where
  provider : OneLine d.provider
  servedModelId : OneLine d.servedModelId
  engineVersion : OneLine (orEmpty d.runtime.engineVersion)
  containerDigest : OneLine (orEmpty d.runtime.containerDigest)
  quantization : OneLine (orEmpty d.runtime.quantization)
  hardware : OneLine (hashedHardware d.accelerator)
  toolkits : OneLine (hashedToolkits d.accelerator)
  endpoint : OneLine (orEmpty d.endpoint)

/-- Two deployments agree in all that is hashed; what is absent is like an empty text. -/
structure SameHashed (d e : DeploymentIdentity) : Prop where
  provider : d.provider = e.provider
  servedModelId : d.servedModelId = e.servedModelId
  engine : d.runtime.engine = e.runtime.engine
  engineVersion : orEmpty d.runtime.engineVersion = orEmpty e.runtime.engineVersion
  containerDigest : orEmpty d.runtime.containerDigest = orEmpty e.runtime.containerDigest
  precision : d.runtime.precision = e.runtime.precision
  quantization : orEmpty d.runtime.quantization = orEmpty e.runtime.quantization
  tensorParallelism : orEmpty (d.runtime.tensorParallelism.map Number.toString) =
    orEmpty (e.runtime.tensorParallelism.map Number.toString)
  hardware : hashedHardware d.accelerator = hashedHardware e.accelerator
  count : hashedCount d.accelerator = hashedCount e.accelerator
  toolkits : hashedToolkits d.accelerator = hashedToolkits e.accelerator
  endpoint : orEmpty d.endpoint = orEmpty e.endpoint

/-- The lines that are hashed of a deployment, as they are fed. -/
def deploymentLines (d : DeploymentIdentity) : List (List JsString) :=
  [[js "deployment-identity:v1"],
    [d.provider, d.servedModelId],
    [js "engine:" ++ (d.runtime.engine.text ++ 64 :: orEmpty d.runtime.engineVersion),
      js "container:" ++ orEmpty d.runtime.containerDigest,
      js "precision:" ++ orEmpty (d.runtime.precision.map NumericPrecision.text),
      js "quant:" ++ orEmpty d.runtime.quantization,
      js "tp:" ++ orEmpty (d.runtime.tensorParallelism.map Number.toString)],
    [js "hw:" ++ (hashedHardware d.accelerator ++ 120 :: hashedCount d.accelerator),
      js "toolkits:" ++ hashedToolkits d.accelerator],
    [js "endpoint:" ++ orEmpty d.endpoint]]

/-- The parts are the lines. -/
theorem deploymentParts_eq (d : DeploymentIdentity) :
    deploymentParts d = (deploymentLines d).map fun ls => ls.flatMap (· ++ [10]) := by
  have hline : js "\n" = [10] := rfl
  have hat : js "@" = [64] := rfl
  have hx : js "x" = [120] := rfl
  have hfirst : js "deployment-identity:v1\n" = js "deployment-identity:v1" ++ [10] := rfl
  unfold deploymentParts deploymentLines hardwareLines hashedHardware hashedCount hashedToolkits
  rw [hline, hat, hx, hfirst]
  simp only [List.map_cons, List.map_nil, List.flatMap_cons, List.flatMap_nil,
    List.append_assoc, List.append_nil, List.cons_append, List.nil_append]

/-- Well-formed texts are encoded one by one. -/
theorem utf8_append {s : JsString} (hs : WellFormed s) (t : JsString) :
    utf8 (s ++ t) = utf8 s ++ utf8 t := by
  obtain ⟨cs, rfl⟩ := hs
  have hchars : toChars (cs.flatMap utf16 ++ t) = cs ++ toChars t := by
    induction cs with
    | nil => rfl
    | cons c cs ih =>
      rw [List.flatMap_cons, List.append_assoc, toChars_utf16_append, ih, List.cons_append]
  unfold utf8
  rw [hchars, toChars_flatMap_utf16, List.flatMap_append]

/-- What is hashed of well-formed texts determines the text they make. -/
theorem hashedText_eq_iff {xs ys : List JsString} (hxs : ∀ s ∈ xs, WellFormed s)
    (hys : ∀ s ∈ ys, WellFormed s) : hashedText xs = hashedText ys ↔ xs.flatten = ys.flatten := by
  have hflatten : ∀ zs : List JsString, (∀ s ∈ zs, WellFormed s) →
      WellFormed zs.flatten ∧ hashedText zs = utf8 zs.flatten := by
    intro zs hzs
    induction zs with
    | nil => exact ⟨.nil, rfl⟩
    | cons z zs ih =>
      rw [List.forall_mem_cons] at hzs
      obtain ⟨hwf, htext⟩ := ih hzs.2
      refine ⟨hzs.1.append hwf, ?_⟩
      rw [List.flatten_cons, utf8_append hzs.1, ← htext]
      rfl
  rw [(hflatten xs hxs).2, (hflatten ys hys).2]
  exact ⟨utf8_injective (hflatten xs hxs).1 (hflatten ys hys).1, congrArg utf8⟩

/-- A word in front of a line. -/
theorem OneLine.append {s t : JsString} (hs : OneLine s) (ht : OneLine t) : OneLine (s ++ t) :=
  ⟨hs.wellFormed.append ht.wellFormed, fun h => (List.mem_append.mp h).elim hs.line ht.line⟩

/-- A word of the source. -/
theorem oneLine_js {s : String} (h : 10 ∉ js s) : OneLine (js s) := ⟨wellFormed_js s, h⟩

/-- An optional Number: one line, without an `x`. -/
theorem oneLine_toString (n : Option Number) : OneLine (orEmpty (n.map Number.toString)) ∧
    120 ∉ orEmpty (n.map Number.toString) := by
  cases n with
  | none => exact ⟨⟨.nil, List.not_mem_nil⟩, List.not_mem_nil⟩
  | some n =>
    refine ⟨⟨n.wellFormed_toString, fun h => ?_⟩, fun h => ?_⟩
    · exact absurd (n.mem_toString_units 10 h) (by decide)
    · exact absurd (n.mem_toString_units 120 h) (by decide)

/-- The number of accelerators. -/
theorem oneLine_hashedCount (a : Option AcceleratorProvenance) :
    OneLine (hashedCount a) ∧ 120 ∉ hashedCount a := by
  have heq : hashedCount a = orEmpty ((a.bind fun a => a.count).map Number.toString) := by
    cases a <;> rfl
  rw [heq]
  exact oneLine_toString _

/-- The name of an engine: one line, without an `@`. -/
theorem oneLine_engine (e : InferenceEngine) : OneLine e.text ∧ 64 ∉ e.text := by
  cases e <;> exact ⟨oneLine_js (by decide), by decide⟩

/-- The name of a precision, if there is one. -/
theorem oneLine_precision (p : Option NumericPrecision) :
    OneLine (orEmpty (p.map NumericPrecision.text)) := by
  cases p with
  | none => exact ⟨.nil, List.not_mem_nil⟩
  | some p => cases p <;> exact oneLine_js (by decide)

/-- Engines have different names. -/
theorem InferenceEngine.text_injective : Function.Injective InferenceEngine.text := by
  intro e f h
  cases e <;> cases f <;> first | rfl | simp [InferenceEngine.text] at h

/-- Precisions have different names, none of them empty. -/
theorem precision_eq_of_text {p q : Option NumericPrecision}
    (h : orEmpty (p.map NumericPrecision.text) = orEmpty (q.map NumericPrecision.text)) : p = q := by
  have htext : ∀ p q : NumericPrecision, p.text = q.text → p = q := by
    intro p q h
    cases p <;> cases q <;> first | rfl | simp [NumericPrecision.text] at h
  have hne : ∀ p : NumericPrecision, p.text ≠ [] := by
    intro p
    cases p <;> simp [NumericPrecision.text]
  cases p with
  | none =>
    cases q with
    | none => rfl
    | some q => exact absurd h.symm (hne q)
  | some p =>
    cases q with
    | none => exact absurd h (hne p)
    | some q => exact congrArg some (htext p q h)

section

variable {d e : DeploymentIdentity}

/-- The lines of a plain deployment are lines. -/
theorem DeploymentIdentity.Plain.lines (h : d.Plain) :
    ∀ ls ∈ deploymentLines d, ∀ l ∈ ls, OneLine l := by
  have hat : OneLine (js "@") := oneLine_js (by decide)
  have hx : OneLine (js "x") := oneLine_js (by decide)
  unfold deploymentLines
  simp only [List.forall_mem_cons]
  exact ⟨⟨oneLine_js (by decide), List.forall_mem_nil _⟩,
    ⟨h.provider, h.servedModelId, List.forall_mem_nil _⟩,
    ⟨(oneLine_js (by decide)).append ((oneLine_engine _).1.append (hat.append h.engineVersion)),
      (oneLine_js (by decide)).append h.containerDigest,
      (oneLine_js (by decide)).append (oneLine_precision _),
      (oneLine_js (by decide)).append h.quantization,
      (oneLine_js (by decide)).append (oneLine_toString _).1, List.forall_mem_nil _⟩,
    ⟨(oneLine_js (by decide)).append (h.hardware.append (hx.append (oneLine_hashedCount _).1)),
      (oneLine_js (by decide)).append h.toolkits, List.forall_mem_nil _⟩,
    ⟨(oneLine_js (by decide)).append h.endpoint, List.forall_mem_nil _⟩, List.forall_mem_nil _⟩

/-- Lines with their ends are well formed. -/
theorem wellFormed_lines {ls : List JsString} (h : ∀ l ∈ ls, OneLine l) :
    WellFormed (ls.flatMap (· ++ [10])) := by
  induction ls with
  | nil => exact .nil
  | cons l ls ih =>
    rw [List.forall_mem_cons] at h
    exact (h.1.wellFormed.append (wellFormed_js "\n")).append (ih h.2)

/-- The parts of a plain deployment are well formed. -/
theorem DeploymentIdentity.Plain.parts (h : d.Plain) : ∀ s ∈ deploymentParts d, WellFormed s := by
  rw [deploymentParts_eq, List.forall_mem_map]
  exact fun ls hls => wellFormed_lines (h.lines ls hls)

/-- **What the address of a deployment compares.** -/
theorem deploymentText_eq_iff (hd : d.Plain) (he : e.Plain) :
    deploymentText d = deploymentText e ↔ SameHashed d e := by
  have hflatten : ∀ d, (deploymentParts d).flatten =
      (deploymentLines d).flatten.flatMap (· ++ [10]) := by
    intro d
    rw [deploymentParts_eq]
    simp only [List.flatMap_def, List.map_flatten, List.flatten_flatten, List.map_map]
    rfl
  have hplain : ∀ {d : DeploymentIdentity}, d.Plain → ∀ l ∈ (deploymentLines d).flatten, 10 ∉ l := by
    intro d h l hl
    obtain ⟨ls, hls, hl⟩ := List.mem_flatten.mp hl
    exact (h.lines ls hls l hl).line
  unfold deploymentText
  rw [hashedText_eq_iff hd.parts he.parts, hflatten, hflatten]
  constructor
  · intro h
    have hlines := Lines.eq_of_ended (hplain hd) (hplain he) h
    unfold deploymentLines at hlines
    simp only [List.flatten_cons, List.flatten_nil, List.cons_append, List.nil_append,
      List.cons.injEq, List.append_cancel_left_eq, true_and, and_true] at hlines
    obtain ⟨hprovider, hserved, hengine, hcontainer, hprecision, hquantization, htp, hhardware,
      htoolkits, hendpoint⟩ := hlines
    obtain ⟨hname, hversion⟩ :=
      Lines.eq_of_front (oneLine_engine _).2 (oneLine_engine _).2 hengine
    obtain ⟨hhw, hcount⟩ :=
      Lines.eq_of_back (oneLine_hashedCount _).2 (oneLine_hashedCount _).2 hhardware
    exact ⟨hprovider, hserved, InferenceEngine.text_injective hname, hversion, hcontainer,
      precision_eq_of_text hprecision, hquantization, htp, hhw, hcount, htoolkits, hendpoint⟩
  · intro h
    unfold deploymentLines
    rw [h.provider, h.servedModelId, h.engine, h.engineVersion, h.containerDigest, h.precision,
      h.quantization, h.tensorParallelism, h.hardware, h.count, h.toolkits, h.endpoint]

end

/-! ## When the two agree -/

/-- **The same execution, and no difference named**: the two say the same exactly when, for executions
of one model, the facets that are compared agree if and only if all that is hashed of the deployments
does. Where every field is of one line, that is each field, and an absent one is like an empty one. -/
theorem isSameExecution_iff_no_difference {a b : EvaluatedModel}
    (hexecution : ¬ CollisionIn sha256 [executionText a, executionText b])
    (hdeployment : ¬ CollisionIn sha256 [deploymentText a.deployment, deploymentText b.deployment]) :
    ((isSameExecution a b = true ↔ diffExecutions a b = []) ↔
      (isSameModel a b = true →
        (SameFacets a.deployment b.deployment ↔
          deploymentText a.deployment = deploymentText b.deployment))) ∧
    (a.deployment.Plain → b.deployment.Plain →
      (deploymentText a.deployment = deploymentText b.deployment ↔
        SameHashed a.deployment b.deployment)) := by
  refine ⟨?_, deploymentText_eq_iff⟩
  rw [isSameExecution_iff hexecution hdeployment, diffExecutions_eq_nil_iff, and_congr_right_iff]
  exact imp_congr_right fun _ => Iff.comm

/-- The collisions among one text. -/
theorem not_collisionIn_pair (t : Bytes) : ¬ CollisionIn sha256 [t, t] := by
  rintro ⟨x, hx, y, hy, hne, -⟩
  simp only [List.mem_cons, List.not_mem_nil, or_false, or_self] at hx hy
  exact hne (hx.trans hy.symm)

/-- An execution and itself. -/
theorem isSameExecution_self_iff :
    isSameExecution ⟨qwen, vllmDeployment⟩ ⟨qwen, vllmDeployment⟩ = true ↔
      diffExecutions ⟨qwen, vllmDeployment⟩ ⟨qwen, vllmDeployment⟩ = [] :=
  (isSameExecution_iff_no_difference (not_collisionIn_pair _) (not_collisionIn_pair _)).1.mpr
    fun _ => iff_of_true ⟨rfl, rfl, rfl, rfl, rfl⟩ rfl

/-- The runtime at a version, with a quantization or without. -/
def vllmRuntimeAt (version : JsString) (quantization : Option JsString) : RuntimeProvenance where
  props := [(js "engine", .str (js "vllm")), (js "engineVersion", .str version)] ++
    quantization.toList.map fun q => (js "quantization", .str q)
  wf := by
    cases quantization with
    | none =>
      refine JsVal.wf_obj.mpr ⟨?_, ?_⟩
      · change [js "engine", js "engineVersion"].Nodup
        simp
      · exact List.forall_mem_cons.mpr ⟨trivial, List.forall_mem_singleton.mpr trivial⟩
    | some q =>
      refine JsVal.wf_obj.mpr ⟨?_, ?_⟩
      · change [js "engine", js "engineVersion", js "quantization"].Nodup
        simp
      · exact List.forall_mem_cons.mpr
          ⟨trivial, List.forall_mem_cons.mpr ⟨trivial, List.forall_mem_singleton.mpr trivial⟩⟩
  engine := .vllm
  engineVersion := some version
  containerDigest := none
  precision := none
  quantization := quantization
  tensorParallelism := none
  get_engine := by cases quantization <;> rfl
  get_engineVersion := by cases quantization <;> rfl
  get_containerDigest := by cases quantization <;> rfl
  get_precision := by cases quantization <;> rfl
  get_quantization := by cases quantization <;> rfl
  get_tensorParallelism := by cases quantization <;> rfl

/-- The model served by it. -/
def vllmDeploymentAt (version : JsString) (quantization : Option JsString) :
    DeploymentIdentity where
  props := [(js "provider", .str (js "vllm")), (js "servedModelId", .str (js "Qwen/Qwen3-8B")),
    (js "runtime", (vllmRuntimeAt version quantization).toJs)]
  wf := by
    refine JsVal.wf_obj.mpr ⟨?_, ?_⟩
    · change [js "provider", js "servedModelId", js "runtime"].Nodup
      simp
    · simp only [List.forall_mem_cons]
      exact ⟨trivial, trivial, (vllmRuntimeAt version quantization).wf, List.forall_mem_nil _⟩
  provider := js "vllm"
  servedModelId := js "Qwen/Qwen3-8B"
  runtime := vllmRuntimeAt version quantization
  accelerator := none
  endpoint := none
  get_provider := rfl
  get_servedModelId := rfl
  get_runtime := rfl
  get_accelerator := rfl
  get_endpoint := rfl

/-- The execution. -/
def qwenAt (version : JsString) (quantization : Option JsString) : EvaluatedModel :=
  ⟨qwen, vllmDeploymentAt version quantization⟩

/-- No difference is named between two versions. -/
theorem diffExecutions_qwenAt (v w : JsString) (q : Option JsString) :
    diffExecutions (qwenAt v q) (qwenAt w q) = [] := by
  refine diffExecutions_eq_nil_iff.mpr ⟨?_, rfl, rfl, rfl, rfl, rfl⟩
  unfold isSameModel qwenAt
  exact decide_eq_true rfl

/-- Two versions of the engine are two executions, unless the hash collides, and no difference is
named. And a runtime with an empty quantization and one without any are the same execution, of which
a difference is named. -/
theorem difference_not_named :
    (diffExecutions (qwenAt (js "0.6.0") none) (qwenAt (js "0.7.0") none) = [] ∧
      (isSameExecution (qwenAt (js "0.6.0") none) (qwenAt (js "0.7.0") none) = true →
        CollisionIn sha256 [executionText (qwenAt (js "0.6.0") none),
            executionText (qwenAt (js "0.7.0") none)] ∨
          CollisionIn sha256 [deploymentText (vllmDeploymentAt (js "0.6.0") none),
            deploymentText (vllmDeploymentAt (js "0.7.0") none)])) ∧
    (isSameExecution (qwenAt (js "0.6.0") none) (qwenAt (js "0.6.0") (some [])) = true ∧
      diffExecutions (qwenAt (js "0.6.0") none) (qwenAt (js "0.6.0") (some [])) ≠ [] ∧
      ¬ CollisionIn sha256 [executionText (qwenAt (js "0.6.0") none),
        executionText (qwenAt (js "0.6.0") (some []))] ∧
      ¬ CollisionIn sha256 [deploymentText (vllmDeploymentAt (js "0.6.0") none),
        deploymentText (vllmDeploymentAt (js "0.6.0") (some []))]) := by
  have hempty : deploymentParts (vllmDeploymentAt (js "0.6.0") (some [])) =
      deploymentParts (vllmDeploymentAt (js "0.6.0") none) := rfl
  have hparts : executionParts (qwenAt (js "0.6.0") (some [])) =
      executionParts (qwenAt (js "0.6.0") none) := by
    unfold executionParts qwenAt
    rw [deploymentDigest_eq, deploymentDigest_eq, hempty]
  refine ⟨⟨?_, fun hsame => ?_⟩, ?_, ?_, ?_, ?_⟩
  · exact diffExecutions_qwenAt _ _ none
  · by_contra hnone
    obtain ⟨hexecution, hdeployment⟩ := not_or.mp hnone
    have htext := ((isSameExecution_iff hexecution hdeployment).mp hsame).2
    have hplain : ∀ version : JsString, OneLine version → (vllmDeploymentAt version none).Plain := by
      intro version h
      have hnil : OneLine [] := ⟨.nil, List.not_mem_nil⟩
      exact ⟨oneLine_js (by decide), oneLine_js (by decide), h, hnil, hnil,
        oneLine_js (s := "/") (by decide), hnil, hnil⟩
    have hversion := ((deploymentText_eq_iff (hplain _ (oneLine_js (by decide)))
      (hplain _ (oneLine_js (by decide)))).mp htext).engineVersion
    exact absurd hversion (by decide)
  · unfold isSameExecution executionDigest
    rw [hparts]
    exact decide_eq_true rfl
  · intro hnil
    have hquantization := (diffExecutions_eq_nil_iff.mp hnil).2.quantization
    cases hquantization
  · unfold executionText
    rw [hparts]
    exact not_collisionIn_pair _
  · unfold deploymentText
    rw [hempty]
    exact not_collisionIn_pair _

end AgentEval.Provenance
