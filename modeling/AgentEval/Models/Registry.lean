import AgentEval.Api.RunRoutes
import AgentEval.Async.Phases
import AgentEval.Async.Runs
import AgentEval.Js.Url

/-!
# `models/registry.ts`: the model registry

A registered model is a list of revisions, oldest first, under the key of its tenant and its
identifier. `register` and `update` are single operations; `recordProbe` reads the model, waits,
updates it, waits again, and writes the identifier that the provider has reported into the last
revision.

* **`update_eq_ok`**: what an accepted update does.
* **`assertSafeEndpoint_eq_ok`**: which endpoints pass the check.
-/

namespace AgentEval.Models

open Js Store Api Async

/-! ## The data -/

/-- Source: `registry.ts`, `DeploymentType` -/
inductive DeploymentType where
  /-- A vendor's managed API. -/
  | cloudApi
  /-- Served by the operator. -/
  | selfHosted
  /-- On the machine of the evaluation. -/
  | «local»
  /-- An endpoint of a third party with the OpenAI protocol. -/
  | openaiCompatible
  /-- Anything else over HTTP. -/
  | remoteEndpoint
  deriving DecidableEq

/-- The name of a deployment type. -/
def DeploymentType.toJs : DeploymentType → JsString
  | cloudApi => js "CLOUD_API"
  | selfHosted => js "SELF_HOSTED"
  | «local» => js "LOCAL"
  | openaiCompatible => js "OPENAI_COMPATIBLE"
  | remoteEndpoint => js "REMOTE_ENDPOINT"

/-- Whether the endpoint is part of what identifies the model.
Source: `registry.ts`, `endpointIsIdentity` -/
def endpointIsIdentity (d : DeploymentType) : Bool := decide (d ≠ .cloudApi)

/-- Source: `registry.ts`, `TokenPricing` -/
structure TokenPricing where
  /-- USD for a million tokens of input. -/
  inputPerMillionUsd : Number
  /-- USD for a million tokens of output. -/
  outputPerMillionUsd : Number
  /-- The rate for cached input. -/
  cachedInputPerMillionUsd : Option Number
  /-- The rate for reasoning output. -/
  reasoningOutputPerMillionUsd : Option Number
  /-- Where the numbers come from. -/
  source : Option JsString
  /-- When they were confirmed. -/
  asOf : Option JsString

/-- Source: `registry.ts`, `HardwarePricing` -/
structure HardwarePricing where
  /-- USD for an hour. -/
  hourlyUsd : Number
  /-- Where the number comes from. -/
  source : Option JsString
  /-- When it was confirmed. -/
  asOf : Option JsString

/-- Source: `registry.ts`, `Pricing` -/
inductive Pricing where
  /-- A published rate. -/
  | tokens (tokens : TokenPricing)
  /-- The operator's own cost. -/
  | hardware (hardware : HardwarePricing)
  /-- Not known. -/
  | unknown

/-- Source: `types.ts`, `Support` -/
inductive Support where
  /-- It is there. -/
  | supported
  /-- It is not. -/
  | unsupported
  /-- Nobody knows. -/
  | unknown
  deriving DecidableEq

/-- What a model may support.
Source: `types.ts`, `ProviderCapabilities`; `registry.ts`, `ModelCapabilities` -/
inductive Capability where
  | streaming | tools | vision | structuredOutput | modelListing | multiTurn | parallelToolCalls
  | jsonMode | reasoning | audio | systemMessages
  deriving DecidableEq

/-- How a capability was established.
Source: `registry.ts`, `CapabilitySource` -/
inductive CapabilitySource where
  /-- By a request. -/
  | probed
  /-- By the provider. -/
  | declared
  /-- By an operator. -/
  | operator
  /-- Not at all. -/
  | unknown
  deriving DecidableEq

/-- Source: `registry.ts`, `ModelCapabilities` -/
structure ModelCapabilities where
  /-- The support of each capability. -/
  support : Capability → Support
  /-- Whether a key is needed. -/
  requiresApiKey : Bool
  /-- How all this was established. -/
  source : CapabilitySource
  /-- When the probe ran. -/
  probedAt : Option JsString

/-- Source: `registry.ts`, `Partial<ModelCapabilities>` -/
structure PartialCapabilities where
  /-- The support of some capabilities. -/
  support : Capability → Option Support
  /-- Whether a key is needed. -/
  requiresApiKey : Option Bool
  /-- How all this was established. -/
  source : Option CapabilitySource
  /-- When the probe ran. -/
  probedAt : Option JsString

/-- Source: `registry.ts`, `unknownCapabilities` -/
def unknownCapabilities : ModelCapabilities := ⟨fun _ => .unknown, true, .unknown, none⟩

/-- `{ ...capabilities, ...patch }` -/
def ModelCapabilities.spread (capabilities : ModelCapabilities)
    (patch : Option PartialCapabilities) : ModelCapabilities :=
  match patch with
  | none => capabilities
  | some patch =>
    { support := fun c => (patch.support c).getD (capabilities.support c)
      requiresApiKey := patch.requiresApiKey.getD capabilities.requiresApiKey
      source := patch.source.getD capabilities.source
      probedAt := patch.probedAt <|> capabilities.probedAt }

/-- Source: `registry.ts`, `RegisteredModel` -/
structure RegisteredModel where
  /-- The identifier. -/
  modelId : JsString
  /-- The number of the revision. -/
  revision : ℕ
  /-- The tenant. -/
  tenantId : JsString
  /-- What it is called. -/
  displayName : JsString
  /-- The adapter. -/
  provider : JsString
  /-- Where it runs. -/
  deploymentType : DeploymentType
  /-- What the provider is asked for. -/
  modelIdentifier : JsString
  /-- What the provider has reported. -/
  resolvedModelId : Option JsString
  /-- The endpoint. -/
  baseUrl : Option JsString
  /-- The stored credential. -/
  credentialId : Option JsString
  /-- What it can do. -/
  capabilities : ModelCapabilities
  /-- How much it reads. -/
  contextWindow : Option Number
  /-- How much it writes. -/
  maxOutputTokens : Option Number
  /-- What it costs. -/
  pricing : Pricing
  /-- Notes of the operator. -/
  metadata : PlainObject
  /-- When the revision was made. -/
  createdAt : TimeValue
  /-- When a later one superseded it. -/
  supersededAt : Option TimeValue

/-- Source: `registry.ts`, `ModelRegistryError` -/
structure ModelRegistryError where
  /-- What is wrong. -/
  message : JsString

/-- Source: `registry.ts`, `RegisterModelInput` -/
structure RegisterModelInput where
  /-- The identifier. -/
  modelId : JsString
  /-- What to call it. -/
  displayName : JsString
  /-- The adapter. -/
  provider : JsString
  /-- Where it runs. -/
  deploymentType : DeploymentType
  /-- What the provider is asked for. -/
  modelIdentifier : JsString
  /-- The endpoint. -/
  baseUrl : Option JsString
  /-- The stored credential. -/
  credentialId : Option JsString
  /-- What it can do. -/
  capabilities : Option PartialCapabilities
  /-- How much it reads. -/
  contextWindow : Option Number
  /-- How much it writes. -/
  maxOutputTokens : Option Number
  /-- What it costs. -/
  pricing : Option Pricing
  /-- Notes. -/
  metadata : Option PlainObject

/-- The identifier in a patch is not read.
Source: `registry.ts`, `Partial<RegisterModelInput>` -/
structure ModelPatch where
  /-- What to call it. -/
  displayName : Option JsString := none
  /-- The adapter. -/
  provider : Option JsString := none
  /-- Where it runs. -/
  deploymentType : Option DeploymentType := none
  /-- What the provider is asked for. -/
  modelIdentifier : Option JsString := none
  /-- The endpoint. -/
  baseUrl : Option JsString := none
  /-- The stored credential. -/
  credentialId : Option JsString := none
  /-- What it can do. -/
  capabilities : Option PartialCapabilities := none
  /-- How much it reads. -/
  contextWindow : Option Number := none
  /-- How much it writes. -/
  maxOutputTokens : Option Number := none
  /-- What it costs. -/
  pricing : Option Pricing := none
  /-- Notes. -/
  metadata : Option PlainObject := none

/-- What a probe has found.
Source: `registry.ts`, `ModelRegistry.recordProbe` -/
structure Probe where
  /-- The identifier that the provider reported. -/
  resolvedModelId : Option JsString
  /-- What the model can do. -/
  capabilities : PartialCapabilities
  /-- How much it reads. -/
  contextWindow : Option Number

/-! ## Validation -/

/-- A character after the first one of an identifier. -/
def isIdUnit (u : UInt16) : Bool :=
  (97 ≤ u && u ≤ 122) || isDigit u || [46, 95, 45].contains u

/-- Source: `registry.ts`, `ID_RE` -/
def isModelId (id : JsString) : Bool :=
  match id with
  | [] => false
  | u :: rest => ((97 ≤ u && u ≤ 122) || isDigit u) && rest.all isIdUnit && decide (rest.length ≤ 63)

/-- A host that is refused as a metadata service.
Source: `registry.ts`, `assertSafeEndpoint` -/
def isMetadataHost (host : JsString) : Bool :=
  decide (host = js "169.254.169.254") || decide (host = js "metadata.google.internal") ||
    (js ".internal").isSuffixOf host

/-- A host on the machine itself.
Source: `registry.ts`, `assertSafeEndpoint` -/
def isLoopbackHost (host : JsString) : Bool :=
  decide (host = js "localhost") || decide (host = js "::1") || decide (host = js "[::1]") ||
    (js "127.").isPrefixOf host

/-- Source: `registry.ts`, `assertSafeEndpoint` -/
def assertSafeEndpoint (parse : UrlParser) (url : JsString) (allowLoopback : Bool) :
    Except ModelRegistryError Unit :=
  match parse url with
  | none => .error ⟨js "baseUrl \"" ++ url ++ js "\" is not a valid URL."⟩
  | some parsed =>
    if parsed.protocol ≠ js "http:" ∧ parsed.protocol ≠ js "https:" then
      .error ⟨js "baseUrl scheme \"" ++ parsed.protocol ++
        js "\" is not allowed. Only http and https are permitted."⟩
    else
      let host := asciiLower parsed.host.hostname
      if isMetadataHost host then
        .error ⟨js "baseUrl host \"" ++ host ++
          js "\" is a cloud metadata endpoint and cannot be registered."⟩
      else if isLoopbackHost host && !allowLoopback then
        .error ⟨js "baseUrl host \"" ++ host ++
          js "\" is loopback, which is not permitted in this deployment."⟩
      else .ok ()

/-- **The endpoints that pass**: URLs with `http` or `https` whose host is not refused. -/
theorem assertSafeEndpoint_eq_ok {parse : UrlParser} {url : JsString} :
    assertSafeEndpoint parse url true = .ok () ↔ ∃ parsed, parse url = some parsed ∧
      (parsed.protocol = js "http:" ∨ parsed.protocol = js "https:") ∧
      isMetadataHost (asciiLower parsed.host.hostname) = false := by
  unfold assertSafeEndpoint
  cases parse url with
  | none => simp
  | some parsed =>
    dsimp only
    by_cases hprotocol : parsed.protocol ≠ js "http:" ∧ parsed.protocol ≠ js "https:"
    · rw [if_pos hprotocol]
      refine iff_of_false (by simp) ?_
      rintro ⟨_, hparsed, hhttp, -⟩
      obtain rfl := Option.some.inj hparsed
      exact hhttp.elim hprotocol.1 hprotocol.2
    · rw [if_neg hprotocol]
      have hhttp : parsed.protocol = js "http:" ∨ parsed.protocol = js "https:" := by
        rw [not_and_or, not_not, not_not] at hprotocol
        exact hprotocol
      cases hhost : isMetadataHost (asciiLower parsed.host.hostname) with
      | true => simp [hhost]
      | false => simp [hhost, hhttp]

/-- Source: `registry.ts`, `validate` -/
def validate (parse : UrlParser) (modelId modelIdentifier : JsString)
    (deploymentType : DeploymentType) (baseUrl : Option JsString) :
    Except ModelRegistryError Unit :=
  if isModelId modelId = false then
    .error ⟨js "modelId \"" ++ modelId ++
      js "\" must be 1-64 chars of [a-z0-9._-] starting alphanumeric."⟩
  else if trim modelIdentifier = [] then
    .error ⟨js "modelIdentifier is required — it is what the provider is asked for."⟩
  else if endpointIsIdentity deploymentType = true ∧ baseUrl.filter (· ≠ []) = none then
    .error ⟨js "deploymentType " ++ deploymentType.toJs ++
      js " requires a baseUrl. The endpoint is part of this " ++
      js "model's identity: the same weights served at a different precision or on different " ++
      js "hardware is a different system to benchmark."⟩
  else
    match baseUrl.filter (· ≠ []) with
    | none => .ok ()
    | some url => assertSafeEndpoint parse url true

/-- What is valid. -/
structure Valid (parse : UrlParser) (modelId modelIdentifier : JsString)
    (deploymentType : DeploymentType) (baseUrl : Option JsString) : Prop where
  isId : isModelId modelId = true
  named : trim modelIdentifier ≠ []
  located : endpointIsIdentity deploymentType = true → baseUrl.filter (· ≠ []) ≠ none
  endpoint : ∀ url ∈ baseUrl.filter (· ≠ []), assertSafeEndpoint parse url true = .ok ()

/-- **What `validate` accepts.** -/
theorem validate_eq_ok {parse : UrlParser} {modelId modelIdentifier : JsString}
    {deploymentType : DeploymentType} {baseUrl : Option JsString} :
    validate parse modelId modelIdentifier deploymentType baseUrl = .ok () ↔
      Valid parse modelId modelIdentifier deploymentType baseUrl := by
  unfold validate
  split_ifs with hid hname hurl
  · refine iff_of_false (by simp) fun h => ?_
    rw [h.isId] at hid
    cases hid
  · exact iff_of_false (by simp) fun h => h.named hname
  · exact iff_of_false (by simp) fun h => h.located hurl.1 hurl.2
  · rw [Bool.not_eq_false] at hid
    have hrequired : endpointIsIdentity deploymentType = true → baseUrl.filter (· ≠ []) ≠ none :=
      fun hidentity hnone => hurl ⟨hidentity, hnone⟩
    cases hfilter : baseUrl.filter (· ≠ []) with
    | none =>
      refine iff_of_true rfl ⟨hid, hname, hrequired, fun url hmem => ?_⟩
      rw [hfilter] at hmem
      cases hmem
    | some url =>
      constructor
      · intro h
        refine ⟨hid, hname, hrequired, fun url' hmem => ?_⟩
        rw [hfilter] at hmem
        exact Option.some.inj hmem ▸ h
      · exact fun h => h.endpoint url hfilter

/-! ## The store -/

/-- The map of the models and the clock. -/
structure ModelStore where
  /-- The revisions of each model, oldest first. -/
  models : List (JsString × List RegisteredModel)
  /-- What `new Date()` reads. -/
  clock : TimeValue

/-- Whether a number counts as there. -/
def truthy : Number → Bool
  | .nan => false
  | .negZero => false
  | .finite x => decide (x.val ≠ 0)
  | .infinity _ => true

/-- `{ ...o, ...patch }` -/
def spreadObject (o : PlainObject) (patch : Option PlainObject) : PlainObject :=
  match patch with
  | none => o
  | some patch =>
    { props := patch.props.foldl setProp o.props
      wf := by
        obtain ⟨props, wf⟩ := patch
        dsimp only
        have hvals := (JsVal.wf_obj.mp wf).2
        clear wf
        have hwf := o.wf
        generalize o.props = start at hwf ⊢
        induction props generalizing start with
        | nil => exact hwf
        | cons p props ih =>
          obtain ⟨hp, hprops⟩ := List.forall_mem_cons.mp hvals
          refine ih hprops _ ?_
          obtain ⟨hkeys, hstart⟩ := JsVal.wf_obj.mp hwf
          refine JsVal.wf_obj.mpr ⟨hkeys.setProp p, fun q hq => ?_⟩
          rcases mem_of_mem_setProp hq with rfl | hq
          · exact hp
          · exact hstart q hq }

namespace InMemoryModelRegistry

/-- Source: `registry.ts`, `InMemoryModelRegistry.key` -/
def key (tenantId modelId : JsString) : JsString := tenantId ++ js ":" ++ modelId

/-- The first revision of a model.
Source: `registry.ts`, `InMemoryModelRegistry.register` -/
def registeredModel (ctx : TenantContext) (input : RegisterModelInput) (now : TimeValue) :
    RegisteredModel where
  modelId := input.modelId
  revision := 1
  tenantId := ctx.tenantId
  displayName := input.displayName
  provider := input.provider
  deploymentType := input.deploymentType
  modelIdentifier := input.modelIdentifier
  resolvedModelId := none
  baseUrl := input.baseUrl.filter (· ≠ [])
  credentialId := input.credentialId.filter (· ≠ [])
  capabilities := unknownCapabilities.spread input.capabilities
  contextWindow := input.contextWindow
  maxOutputTokens := input.maxOutputTokens
  pricing := input.pricing.getD .unknown
  metadata := input.metadata.getD .empty
  createdAt := now
  supersededAt := none

/-- Source: `registry.ts`, `InMemoryModelRegistry.register` -/
def register (parse : UrlParser) (ctx : TenantContext) (input : RegisterModelInput)
    (s : ModelStore) : Except ModelRegistryError RegisteredModel × ModelStore :=
  match validate parse input.modelId input.modelIdentifier input.deploymentType input.baseUrl with
  | .error e => (.error e, s)
  | .ok _ =>
    let k := key ctx.tenantId input.modelId
    if k ∈ s.models.map Prod.fst then
      (.error ⟨js "Model \"" ++ input.modelId ++
        js "\" is already registered. Use update() to create a new revision."⟩, s)
    else
      let record := registeredModel ctx input s.clock
      (.ok record, { s with models := setProp s.models (k, [record]) })

/-- The revisions under a key. -/
def revisions (ctx : TenantContext) (modelId : JsString) (s : ModelStore) :
    List RegisteredModel := (s.models.lookup (key ctx.tenantId modelId)).getD []

/-- Source: `registry.ts`, `InMemoryModelRegistry.get` -/
def get (ctx : TenantContext) (modelId : JsString) (s : ModelStore) : Option RegisteredModel :=
  (revisions ctx modelId s).getLast?

/-- Source: `registry.ts`, `InMemoryModelRegistry.getRevision` -/
def getRevision (ctx : TenantContext) (modelId : JsString) (revision : ℕ) (s : ModelStore) :
    Option RegisteredModel :=
  (revisions ctx modelId s).find? (·.revision = revision)

/-- `localeLE` is the order of `localeCompare`.
Source: `registry.ts`, `InMemoryModelRegistry.list` -/
def list (localeLE : JsString → JsString → Bool) (ctx : TenantContext) (s : ModelStore) :
    List RegisteredModel :=
  let out := (s.models.filter fun p => (ctx.tenantId ++ js ":").isPrefixOf p.1).filterMap
    fun p => p.2.getLast?
  out.mergeSort fun a b => localeLE a.modelId b.modelId

/-- The base URL that an update is checked with.
Source: `registry.ts`, `InMemoryModelRegistry.update` -/
def mergedBaseUrl (current : RegisteredModel) (patch : ModelPatch) : Option JsString :=
  (patch.baseUrl <|> current.baseUrl).filter (· ≠ [])

/-- The next revision of a model.
Source: `registry.ts`, `InMemoryModelRegistry.update` -/
def nextRevision (current : RegisteredModel) (patch : ModelPatch) (now : TimeValue) :
    RegisteredModel :=
  { current with
    revision := current.revision + 1
    displayName := patch.displayName.getD current.displayName
    provider := patch.provider.getD current.provider
    deploymentType := patch.deploymentType.getD current.deploymentType
    modelIdentifier := patch.modelIdentifier.getD current.modelIdentifier
    capabilities := current.capabilities.spread patch.capabilities
    pricing := patch.pricing.getD current.pricing
    metadata := spreadObject current.metadata patch.metadata
    createdAt := now
    baseUrl := mergedBaseUrl current patch <|> current.baseUrl
    credentialId :=
      (patch.credentialId <|> current.credentialId).filter (· ≠ []) <|> current.credentialId
    -- `patch.contextWindow ?? (current.contextWindow !== undefined)`
    contextWindow := patch.contextWindow.filter truthy <|> current.contextWindow
    supersededAt := none }

/-- Source: `registry.ts`, `InMemoryModelRegistry.update` -/
def update (parse : UrlParser) (ctx : TenantContext) (modelId : JsString) (patch : ModelPatch)
    (s : ModelStore) : Except ModelRegistryError RegisteredModel × ModelStore :=
  match get ctx modelId s with
  | none =>
    (.error ⟨js "Model \"" ++ modelId ++ js "\" is not registered for this tenant."⟩, s)
  | some current =>
    match validate parse modelId (patch.modelIdentifier.getD current.modelIdentifier)
      (patch.deploymentType.getD current.deploymentType) (mergedBaseUrl current patch) with
    | .error e => (.error e, s)
    | .ok _ =>
      let next := nextRevision current patch s.clock
      (.ok next, { s with models := setProp s.models (key ctx.tenantId modelId,
        (revisions ctx modelId s).dropLast ++
          [{ current with supersededAt := some s.clock }, next]) })

section

variable {parse : UrlParser} {ctx : TenantContext} {modelId : JsString} {patch : ModelPatch}
  {input : RegisterModelInput} {s s' : ModelStore} {r : RegisteredModel}

/-- **What a registration does** when it is accepted. -/
theorem register_eq_ok (h : register parse ctx input s = (.ok r, s')) :
    Valid parse input.modelId input.modelIdentifier input.deploymentType input.baseUrl ∧
      key ctx.tenantId input.modelId ∉ s.models.map Prod.fst ∧
      r = registeredModel ctx input s.clock ∧
      s' = { s with models := setProp s.models (key ctx.tenantId input.modelId, [r]) } := by
  unfold register at h
  cases hvalid : validate parse input.modelId input.modelIdentifier input.deploymentType
    input.baseUrl with
  | error e =>
    rw [hvalid] at h
    cases h
  | ok u =>
    rw [hvalid] at h
    dsimp only at h
    split_ifs at h with hkey
    · cases h
    · cases h
      exact ⟨validate_eq_ok.mp hvalid, hkey, rfl, rfl⟩

/-- A registration that is refused changes nothing. -/
theorem register_eq_error {e : ModelRegistryError} (h : register parse ctx input s = (.error e, s')) :
    s' = s := by
  unfold register at h
  split at h
  · cases h
    rfl
  · dsimp only at h
    split_ifs at h
    · cases h
      rfl
    · cases h

/-- **What an update does** when it is accepted. -/
theorem update_eq_ok (h : update parse ctx modelId patch s = (.ok r, s')) :
    ∃ current, get ctx modelId s = some current ∧
      Valid parse modelId (patch.modelIdentifier.getD current.modelIdentifier)
        (patch.deploymentType.getD current.deploymentType) (mergedBaseUrl current patch) ∧
      r = nextRevision current patch s.clock ∧
      s' = { s with models := setProp s.models (key ctx.tenantId modelId,
        (revisions ctx modelId s).dropLast ++
          [{ current with supersededAt := some s.clock }, r]) } := by
  unfold update at h
  cases hget : get ctx modelId s with
  | none =>
    rw [hget] at h
    cases h
  | some current =>
    rw [hget] at h
    dsimp only at h
    split at h
    · cases h
    · rename_i hvalid
      cases h
      exact ⟨current, rfl, validate_eq_ok.mp hvalid, rfl, rfl⟩

/-- An update that is refused changes nothing. -/
theorem update_eq_error {e : ModelRegistryError}
    (h : update parse ctx modelId patch s = (.error e, s')) : s' = s := by
  unfold update at h
  split at h
  · cases h
    rfl
  · split at h
    · cases h
      rfl
    · cases h

end

/-- The patch of a probe.
Source: `registry.ts`, `InMemoryModelRegistry.recordProbe` -/
def probePatch (probe : Probe) (now : TimeValue) : ModelPatch where
  capabilities := some { probe.capabilities with
    source := some .probed
    probedAt := some now.toISOString }
  contextWindow := probe.contextWindow

/-- The last revision is overwritten.
Source: `registry.ts`, `InMemoryModelRegistry.recordProbe` -/
def writeResolved (ctx : TenantContext) (modelId : JsString) (withResolved : RegisteredModel)
    (s : ModelStore) : ModelStore :=
  { s with models := setProp s.models (key ctx.tenantId modelId,
    (revisions ctx modelId s).dropLast ++ [withResolved]) }

end InMemoryModelRegistry

/-! ## Runs -/

/-- Where a call waits for its next operation. -/
inductive ModelPoint where
  /-- `register` -/
  | register
  /-- `update` -/
  | update
  /-- `recordProbe` at the start. -/
  | probeRead
  /-- `recordProbe` after its first `await`. -/
  | probeUpdate (tenantId modelId : JsString)
  /-- `recordProbe` after its second one, with what it writes. -/
  | probeResolve (tenantId modelId : JsString) (withResolved : RegisteredModel)

/-- What a call resolves to. -/
abbrev ModelAnswer : Type := Except ModelRegistryError RegisteredModel

/-- Source: `registry.ts`, `InMemoryModelRegistry.recordProbe` -/
def InMemoryModelRegistry.recordProbe (parse : UrlParser) (ctx : TenantContext)
    (modelId : JsString) (probe : Probe) : Task ModelStore ModelPoint ModelAnswer := do
  let current ← Task.await .probeRead fun s => (get ctx modelId s, s)
  match current with
  | none => return .error ⟨js "Model \"" ++ modelId ++ js "\" is not registered."⟩
  | some _ =>
    let updated ← Task.await (.probeUpdate ctx.tenantId modelId) fun s =>
      update parse ctx modelId (probePatch probe s.clock) s
    match updated with
    | .error e => return .error e
    | .ok updated =>
      match probe.resolvedModelId.filter (· ≠ []) with
      | none => return .ok updated
      | some resolved =>
        let withResolved := { updated with resolvedModelId := some resolved }
        Task.await (.probeResolve ctx.tenantId modelId withResolved) fun s =>
          (.ok withResolved, writeResolved ctx modelId withResolved s)

/-- The store and the calls that work on it. -/
abbrev ModelServer := Pool ModelStore ModelPoint ModelAnswer

/-- What can happen next. -/
inductive ModelEvent where
  /-- `register` is called. -/
  | register (ctx : TenantContext) (input : RegisterModelInput)
  /-- `update` is called. -/
  | update (ctx : TenantContext) (modelId : JsString) (patch : ModelPatch)
  /-- `recordProbe` is called. -/
  | recordProbe (ctx : TenantContext) (modelId : JsString) (probe : Probe)
  /-- A call is resumed. -/
  | resume (i : ℕ)
  /-- Time passes. -/
  | tick (now : TimeValue)

/-- The event as one of the pool. -/
def ModelEvent.toAsync (parse : UrlParser) :
    ModelEvent → Async.Event ModelStore ModelPoint ModelAnswer
  | register ctx input =>
    .spawn (Task.await .register (InMemoryModelRegistry.register parse ctx input))
  | update ctx modelId patch =>
    .spawn (Task.await .update (InMemoryModelRegistry.update parse ctx modelId patch))
  | recordProbe ctx modelId probe =>
    .spawn (InMemoryModelRegistry.recordProbe parse ctx modelId probe)
  | resume i => .resume i
  | tick now => .other fun s => { s with clock := now }

namespace ModelServer

/-- An empty registry. -/
def start (clock : TimeValue) : ModelServer := ⟨⟨[], clock⟩, []⟩

/-- One step. -/
def step (parse : UrlParser) (server : ModelServer) (e : ModelEvent) : ModelServer :=
  Pool.step server (e.toAsync parse)

/-- The registry after a list of events. -/
def run (parse : UrlParser) (server : ModelServer) (events : List ModelEvent) : ModelServer :=
  events.foldl (step parse) server

end ModelServer

end AgentEval.Models
