import AgentEval.Evidence.Signer

/-!
# `provenance/identity.ts`: model and deployment identity

A model and a deployment have a content address each: SHA-256 over the fields that pin them. An
identity is the object that was recorded, with what its interface says of the fields that are read;
the other fields stay in the object.

* `ModelIdentity.json`, `DeploymentIdentity.json` — an identity after a way through JSON text;
  **`modelDigest_json`**, **`deploymentDigest_json`**: it keeps its address.
* `canonicalKeyValues_perm` — the order of the toolkits does not matter.
-/

namespace AgentEval.Provenance

open Js Sha256

/-- SHA-256 over texts fed to it one after the other. -/
def addressOf (updates : List JsString) : JsString :=
  js "sha256:" ++ toHex (sha256 (updates.flatMap utf8)).bytes

/-- `s ?? ''`. -/
def orEmpty (s : Option JsString) : JsString := s.getD []

/-! ## Models -/

/-- Where a model's weights came from.
Source: `identity.ts`, `ModelOrigin` -/
inductive ModelOrigin where
  /-- Any model registry. -/
  | hub
  /-- A vendor endpoint whose weights are not distributed. -/
  | proprietaryApi
  /-- An artifact on this machine. -/
  | localArtifact
  /-- Not recorded. -/
  | unknown

/-- The text of an origin. -/
def ModelOrigin.text : ModelOrigin → JsString
  | hub => js "hub"
  | proprietaryApi => js "proprietary_api"
  | localArtifact => js "local_artifact"
  | unknown => js "unknown"

/-- Source: `identity.ts`, `ModelIdentity` -/
structure ModelIdentity extends PlainObject where
  /-- The repository the weights belong to. -/
  repository : JsString
  /-- Where it is. -/
  origin : ModelOrigin
  /-- The exact revision. -/
  revision : Option JsString
  /-- Commit SHA where the origin exposes one. -/
  commitSha : Option JsString
  /-- A digest over the weight files. -/
  weightsDigest : Option JsString
  /-- The tokenizer. -/
  tokenizerRepository : Option JsString
  /-- Its revision. -/
  tokenizerRevision : Option JsString
  get_repository : toPlainObject.get (js "repository") = .str repository
  get_origin : toPlainObject.get (js "origin") = .str origin.text
  get_revision : toPlainObject.get (js "revision") = revision.elim .undefined .str
  get_commitSha : toPlainObject.get (js "commitSha") = commitSha.elim .undefined .str
  get_weightsDigest : toPlainObject.get (js "weightsDigest") = weightsDigest.elim .undefined .str
  get_tokenizerRepository : toPlainObject.get (js "tokenizerRepository") =
    tokenizerRepository.elim .undefined .str
  get_tokenizerRevision : toPlainObject.get (js "tokenizerRevision") =
    tokenizerRevision.elim .undefined .str

/-- Content address for a model.
Source: `identity.ts`, `modelDigest` -/
def modelDigest (m : ModelIdentity) : JsString :=
  addressOf [js "model-identity:v1\n",
    m.origin.text ++ js "\n" ++ m.repository ++ js "\n",
    js "rev:" ++ orEmpty m.revision ++ js "\n",
    js "sha:" ++ orEmpty m.commitSha ++ js "\n",
    js "weights:" ++ orEmpty m.weightsDigest ++ js "\n",
    js "tok:" ++ orEmpty m.tokenizerRepository ++ js "@" ++ orEmpty m.tokenizerRevision ++ js "\n"]

/-- How firmly a model is pinned.
Source: `identity.ts`, `PinningStrength` -/
inductive PinningStrength where
  /-- To a weights digest. -/
  | exact
  /-- To a commit. -/
  | revision
  /-- To a revision the provider reported. -/
  | aliased
  /-- Not at all. -/
  | unpinned
  deriving DecidableEq

/-- The text of a strength. -/
def PinningStrength.text : PinningStrength → JsString
  | exact => js "exact"
  | revision => js "revision"
  | aliased => js "alias"
  | unpinned => js "unpinned"

/-- Whether an optional text is there and not empty. -/
def truthy (s : Option JsString) : Bool := s.any (· ≠ [])

/-- How firmly a model is pinned, and what that means.
Source: `identity.ts`, `pinningStrength` -/
def pinningStrength (m : ModelIdentity) : PinningStrength × JsString :=
  if truthy m.weightsDigest then
    (.exact, js "Pinned to a weights digest. The exact bytes evaluated can be re-fetched.")
  else if truthy m.commitSha then
    (.revision,
      js "Pinned to a commit. The repository could be deleted, but not silently changed.")
  else if truthy m.revision then
    (.aliased,
      js ("Pinned to a provider-reported revision. Reproducible only while the provider keeps " ++
        "serving that snapshot."))
  else
    (.unpinned,
      js ("No revision was recorded. A later run may evaluate different weights under the same " ++
        "name, and the two results cannot be distinguished."))

/-! ## Deployments -/

/-- The serving stack.
Source: `identity.ts`, `InferenceEngine` -/
inductive InferenceEngine where
  | vllm | sglang | tgi | ollama | llamacpp | lmstudio | nim | tensorrtLlm | transformers
  | vendorManaged | unknown

/-- The text of an engine. -/
def InferenceEngine.text : InferenceEngine → JsString
  | vllm => js "vllm"
  | sglang => js "sglang"
  | tgi => js "tgi"
  | ollama => js "ollama"
  | llamacpp => js "llamacpp"
  | lmstudio => js "lmstudio"
  | nim => js "nim"
  | tensorrtLlm => js "tensorrt-llm"
  | transformers => js "transformers"
  | vendorManaged => js "vendor_managed"
  | unknown => js "unknown"

/-- Source: `identity.ts`, `NumericPrecision` -/
inductive NumericPrecision where
  | fp32 | fp16 | bf16 | fp8 | int8 | int4 | mixed | unknown

/-- The text of a precision. -/
def NumericPrecision.text : NumericPrecision → JsString
  | fp32 => js "fp32"
  | fp16 => js "fp16"
  | bf16 => js "bf16"
  | fp8 => js "fp8"
  | int8 => js "int8"
  | int4 => js "int4"
  | mixed => js "mixed"
  | unknown => js "unknown"

/-- Source: `identity.ts`, `RuntimeProvenance` -/
structure RuntimeProvenance extends PlainObject where
  /-- The engine. -/
  engine : InferenceEngine
  /-- The engine's own version string. -/
  engineVersion : Option JsString
  /-- Container digest, where the runtime ships as an image. -/
  containerDigest : Option JsString
  /-- The numeric precision. -/
  precision : Option NumericPrecision
  /-- Quantisation scheme as the runtime names it. -/
  quantization : Option JsString
  /-- Tensor or pipeline parallelism. -/
  tensorParallelism : Option Number
  get_engine : toPlainObject.get (js "engine") = .str engine.text
  get_engineVersion : toPlainObject.get (js "engineVersion") = engineVersion.elim .undefined .str
  get_containerDigest : toPlainObject.get (js "containerDigest") =
    containerDigest.elim .undefined .str
  get_precision : toPlainObject.get (js "precision") =
    precision.elim .undefined fun p => .str p.text
  get_quantization : toPlainObject.get (js "quantization") = quantization.elim .undefined .str
  get_tensorParallelism : toPlainObject.get (js "tensorParallelism") =
    tensorParallelism.elim .undefined .num

/-- Source: `identity.ts`, `AcceleratorProvenance` -/
structure AcceleratorProvenance extends PlainObject where
  /-- The vendor. -/
  vendor : JsString
  /-- The accelerator model. -/
  model : Option JsString
  /-- How many took part. -/
  count : Option Number
  /-- Driver and toolkit versions, keyed by name. -/
  toolkitVersions : Option StringRecord
  get_vendor : toPlainObject.get (js "vendor") = .str vendor
  get_model : toPlainObject.get (js "model") = model.elim .undefined .str
  get_count : toPlainObject.get (js "count") = count.elim .undefined .num
  get_toolkitVersions : toPlainObject.get (js "toolkitVersions") =
    toolkitVersions.elim .undefined StringRecord.toJs

/-- Source: `identity.ts`, `DeploymentIdentity` -/
structure DeploymentIdentity extends PlainObject where
  /-- Adapter that reached this deployment. -/
  provider : JsString
  /-- The identifier the provider was asked for. -/
  servedModelId : JsString
  /-- The runtime. -/
  runtime : RuntimeProvenance
  /-- The hardware. -/
  accelerator : Option AcceleratorProvenance
  /-- The endpoint, for self-hosted deployments. -/
  endpoint : Option JsString
  get_provider : toPlainObject.get (js "provider") = .str provider
  get_servedModelId : toPlainObject.get (js "servedModelId") = .str servedModelId
  get_runtime : toPlainObject.get (js "runtime") = runtime.toJs
  get_accelerator : toPlainObject.get (js "accelerator") =
    accelerator.elim .undefined fun a => a.toJs
  get_endpoint : toPlainObject.get (js "endpoint") = endpoint.elim .undefined .str

/-- Stable ordering, so that the order in which keys were inserted cannot change a digest.
Source: `identity.ts`, `canonicalKeyValues` -/
def canonicalKeyValues (rec : StringRecord) : JsString :=
  joinComma ((sortProps rec.entries).map fun p => p.1 ++ js "=" ++ p.2)

/-- What the hardware adds to the address.
Source: `identity.ts`, `deploymentDigest` -/
def hardwareLines (a : Option AcceleratorProvenance) : JsString :=
  js "hw:" ++ orEmpty (a.map fun a => a.vendor) ++ js "/" ++ orEmpty (a.bind fun a => a.model) ++
    js "x" ++ orEmpty (a.bind fun a => a.count.map Number.toString) ++ js "\n" ++
    js "toolkits:" ++ orEmpty (a.bind fun a => a.toolkitVersions.map canonicalKeyValues) ++
    js "\n"

/-- Content address for a deployment.
Source: `identity.ts`, `deploymentDigest` -/
def deploymentDigest (d : DeploymentIdentity) : JsString :=
  addressOf [js "deployment-identity:v1\n",
    d.provider ++ js "\n" ++ d.servedModelId ++ js "\n",
    js "engine:" ++ d.runtime.engine.text ++ js "@" ++ orEmpty d.runtime.engineVersion ++ js "\n" ++
      js "container:" ++ orEmpty d.runtime.containerDigest ++ js "\n" ++
      js "precision:" ++ orEmpty (d.runtime.precision.map NumericPrecision.text) ++ js "\n" ++
      js "quant:" ++ orEmpty d.runtime.quantization ++ js "\n" ++
      js "tp:" ++ orEmpty (d.runtime.tensorParallelism.map Number.toString) ++ js "\n",
    hardwareLines d.accelerator,
    js "endpoint:" ++ orEmpty d.endpoint ++ js "\n"]

/-! ## The way through JSON text -/

/-- An optional text after a way through JSON text. -/
theorem jsonForm_elim_str (s : Option JsString) :
    (s.elim JsVal.undefined .str).jsonForm = s.elim .undefined .str := by
  cases s <;> rfl

/-- An optional Number after it. -/
theorem jsonForm_elim_num (x : Option Number) :
    (x.elim JsVal.undefined .num).jsonForm = x.elim .undefined .num := by
  cases x <;> rfl

/-- A model identity after a way through JSON text. -/
def ModelIdentity.json (m : ModelIdentity) : ModelIdentity where
  toPlainObject := m.toPlainObject.json
  repository := m.repository
  origin := m.origin
  revision := m.revision
  commitSha := m.commitSha
  weightsDigest := m.weightsDigest
  tokenizerRepository := m.tokenizerRepository
  tokenizerRevision := m.tokenizerRevision
  get_repository := by rw [PlainObject.get_json, m.get_repository]; rfl
  get_origin := by rw [PlainObject.get_json, m.get_origin]; rfl
  get_revision := by rw [PlainObject.get_json, m.get_revision, jsonForm_elim_str]
  get_commitSha := by rw [PlainObject.get_json, m.get_commitSha, jsonForm_elim_str]
  get_weightsDigest := by rw [PlainObject.get_json, m.get_weightsDigest, jsonForm_elim_str]
  get_tokenizerRepository := by
    rw [PlainObject.get_json, m.get_tokenizerRepository, jsonForm_elim_str]
  get_tokenizerRevision := by
    rw [PlainObject.get_json, m.get_tokenizerRevision, jsonForm_elim_str]

/-- **A model keeps its address.** -/
theorem modelDigest_json (m : ModelIdentity) : modelDigest m.json = modelDigest m := rfl

/-- A runtime after a way through JSON text. -/
def RuntimeProvenance.json (r : RuntimeProvenance) : RuntimeProvenance where
  toPlainObject := r.toPlainObject.json
  engine := r.engine
  engineVersion := r.engineVersion
  containerDigest := r.containerDigest
  precision := r.precision
  quantization := r.quantization
  tensorParallelism := r.tensorParallelism
  get_engine := by rw [PlainObject.get_json, r.get_engine]; rfl
  get_engineVersion := by rw [PlainObject.get_json, r.get_engineVersion, jsonForm_elim_str]
  get_containerDigest := by rw [PlainObject.get_json, r.get_containerDigest, jsonForm_elim_str]
  get_precision := by
    rw [PlainObject.get_json, r.get_precision]
    cases r.precision <;> rfl
  get_quantization := by rw [PlainObject.get_json, r.get_quantization, jsonForm_elim_str]
  get_tensorParallelism := by
    rw [PlainObject.get_json, r.get_tensorParallelism, jsonForm_elim_num]

/-- A record of texts is its own JSON form. -/
theorem jsonForm_elim_record (r : Option StringRecord) :
    (r.elim JsVal.undefined StringRecord.toJs).jsonForm = r.elim .undefined StringRecord.toJs := by
  cases r with
  | none => rfl
  | some r =>
    refine JsVal.IsData.jsonForm_eq (JsVal.isData_obj.mpr ⟨?_, ?_⟩)
    · exact (JsVal.distinctKeys_map JsVal.str).mpr r.distinct
    · exact List.forall_mem_map.mpr fun _ _ => trivial

/-- An accelerator after a way through JSON text. -/
def AcceleratorProvenance.json (a : AcceleratorProvenance) : AcceleratorProvenance where
  toPlainObject := a.toPlainObject.json
  vendor := a.vendor
  model := a.model
  count := a.count
  toolkitVersions := a.toolkitVersions
  get_vendor := by rw [PlainObject.get_json, a.get_vendor]; rfl
  get_model := by rw [PlainObject.get_json, a.get_model, jsonForm_elim_str]
  get_count := by rw [PlainObject.get_json, a.get_count, jsonForm_elim_num]
  get_toolkitVersions := by
    rw [PlainObject.get_json, a.get_toolkitVersions, jsonForm_elim_record]

/-- A deployment identity after a way through JSON text. -/
def DeploymentIdentity.json (d : DeploymentIdentity) : DeploymentIdentity where
  toPlainObject := d.toPlainObject.json
  provider := d.provider
  servedModelId := d.servedModelId
  runtime := d.runtime.json
  accelerator := d.accelerator.map AcceleratorProvenance.json
  endpoint := d.endpoint
  get_provider := by rw [PlainObject.get_json, d.get_provider]; rfl
  get_servedModelId := by rw [PlainObject.get_json, d.get_servedModelId]; rfl
  get_runtime := by
    rw [PlainObject.get_json, d.get_runtime]
    exact PlainObject.toJs_json.symm
  get_accelerator := by
    rw [PlainObject.get_json, d.get_accelerator]
    cases d.accelerator with
    | none => rfl
    | some a => exact PlainObject.toJs_json.symm
  get_endpoint := by rw [PlainObject.get_json, d.get_endpoint, jsonForm_elim_str]

/-- **A deployment keeps its address.** -/
theorem deploymentDigest_json (d : DeploymentIdentity) :
    deploymentDigest d.json = deploymentDigest d := by
  have hardware : hardwareLines d.json.accelerator = hardwareLines d.accelerator := by
    change hardwareLines (d.accelerator.map AcceleratorProvenance.json) = _
    cases d.accelerator <;> rfl
  unfold deploymentDigest
  rw [hardware]
  rfl

/-- The order of the toolkits does not matter. -/
theorem canonicalKeyValues_perm {r s : StringRecord} (h : r.entries.Perm s.entries) :
    canonicalKeyValues r = canonicalKeyValues s := by
  unfold canonicalKeyValues
  rw [sortProps_eq_of_perm h r.distinct]

end AgentEval.Provenance
