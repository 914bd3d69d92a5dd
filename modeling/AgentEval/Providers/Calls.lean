import AgentEval.Auth.ProviderCredentials
import AgentEval.Worker.Tick

/-!
# `providers/registry.ts`, `worker/executor.ts`, `api/routes/providers.ts`: calls to providers

Three paths lead to an adapter: the execution of a run by `ModelExecutor`, the connection test and
the listing of models. Each takes the configuration of the provider from the environment and merges
what a stored credential reveals into it. The paths are written over any type of text, so that a run
can be followed with texts that carry more than their characters.

* **`execute_map`**, **`testConnection_map`**, **`listModels_map`**: what the paths do does not
  depend on what else the texts carry.
-/

namespace AgentEval.Providers

open Js Store Api Auth Worker

/-- What an adapter is called with. Headers and a timeout are not set on any of the paths.
Source: `types.ts`, `ProviderConfig` -/
structure ProviderConfig (α : Type) where
  /-- The key. -/
  apiKey : Option α := none
  /-- The endpoint. -/
  baseUrl : Option α := none

/-- An adapter, as far as the paths look at it.
Source: `types.ts`, `ModelProvider` -/
structure ModelProvider where
  /-- The identifier. -/
  id : JsString
  /-- Whether it has `listModels`. -/
  listModels : Bool

/-- Source: `types.ts`, `ProviderError` -/
structure ProviderError where
  /-- The kind of the error. -/
  category : JsString
  /-- What is wrong. -/
  message : JsString

/-! ## The registry -/

/-- Source: `registry.ts`, `providerRegistry` -/
def providerRegistry : List ModelProvider :=
  ["openai", "anthropic", "xai", "google", "deepseek", "mistral", "minimax", "moonshot", "zai",
    "dashscope", "openrouter", "together", "groq", "fireworks", "ollama", "vllm", "sglang", "tgi",
    "lmstudio", "tensorrt-llm", "nim", "openai-compatible"].map fun id => ⟨js id, true⟩

/-- Source: `registry.ts`, `ProviderRegistry.has` -/
def ProviderRegistry.has (id : JsString) : Bool := decide (id ∈ providerRegistry.map (·.id))

/-- Source: `registry.ts`, `ProviderRegistry.get` -/
def ProviderRegistry.get (id : JsString) : Except ProviderError ModelProvider :=
  match providerRegistry.find? (·.id = id) with
  | none => .error ⟨js "NOT_CONFIGURED", js "Unknown provider \"" ++ id ++ js "\". Registered: " ++
      (js ", ").intercalate (providerRegistry.map (·.id)) ++ js "."⟩
  | some provider => .ok provider

/-- Source: `registry.ts`, `ENV_KEYS` -/
def envKeys : List (JsString × JsString) :=
  [(js "openai", js "OPENAI_API_KEY"), (js "anthropic", js "ANTHROPIC_API_KEY"),
    (js "xai", js "XAI_API_KEY"), (js "google", js "GOOGLE_API_KEY"),
    (js "deepseek", js "DEEPSEEK_API_KEY"), (js "mistral", js "MISTRAL_API_KEY"),
    (js "minimax", js "MINIMAX_API_KEY"), (js "moonshot", js "MOONSHOT_API_KEY"),
    (js "zai", js "ZAI_API_KEY"), (js "dashscope", js "DASHSCOPE_API_KEY"),
    (js "openai-compatible", js "OPENAI_COMPATIBLE_API_KEY")]

/-- Source: `registry.ts`, `ENV_BASE_URLS` -/
def envBaseUrls : List (JsString × JsString) :=
  [(js "ollama", js "OLLAMA_BASE_URL"), (js "vllm", js "VLLM_BASE_URL"),
    (js "tensorrt-llm", js "TENSORRT_LLM_BASE_URL"), (js "nim", js "NIM_BASE_URL"),
    (js "openai-compatible", js "OPENAI_COMPATIBLE_BASE_URL")]

/-! ## What the paths come to -/

/-- The call of an adapter. -/
structure AdapterCall (α : Type) where
  /-- The provider whose adapter is called. -/
  provider : JsString
  /-- What it is called with. -/
  config : ProviderConfig α

/-- Source: `executor.ts`, `ModelExecutor.execute`; what `generate` is asked for. -/
structure ModelRequest where
  /-- The model. -/
  model : JsString
  /-- The one message of the user. -/
  content : JsString
  /-- Passed on when it is a number. -/
  temperature : Option Number
  /-- Passed on when it is a number. -/
  maxTokens : Option Number

/-- What an execution does. -/
inductive Executed (α : Type) where
  /-- It fails with a reason and these events. -/
  | failed (reason : JsString) (events : List ExecutionEvent)
  /-- It calls `generate` after these events. -/
  | generate (call : AdapterCall α) (request : ModelRequest) (events : List ExecutionEvent)

/-- What a route does. -/
inductive ProviderReply (α : Type) where
  /-- It answers with a problem. -/
  | problem (p : Problem)
  /-- The credential store has thrown. -/
  | thrown (e : CredentialError)
  /-- It answers that the provider lists no models. -/
  | noListing (note : JsString)
  /-- It calls the adapter. -/
  | call (c : AdapterCall α)

/-- What resolves a stored credential, in a state.
Source: `executor.ts`, `CredentialResolver` -/
abbrev Resolver (σ α : Type) : Type :=
  JsString → JsString → σ → Except CredentialError (Option (Revealed α)) × σ

/-- The manifest of a run, as far as the executor reads it. -/
structure RunModel where
  /-- `model.identifier` -/
  identifier : Option JsString
  /-- `model.sampling` -/
  sampling : Option PlainObject

/-- Source: `executor.ts`, `ModelExecutor` -/
structure ModelExecutor (σ α : Type) where
  /-- Whether models may be called. -/
  enabled : Bool
  /-- The credential store, when the worker has it. -/
  resolveCredential : Option (Resolver σ α)

/-- A parameter of a query: it may be given more than once. -/
inductive QueryParam where
  /-- Given once. -/
  | single (s : JsString)
  /-- Given several times: an array. -/
  | repeated (ss : List JsString)

/-- Whether a parameter is there: an array always is. -/
def QueryParam.truthy : QueryParam → Bool
  | .single s => decide (s ≠ [])
  | .repeated _ => true

/-! ## The details of the events -/

/-- The detail of a failure, with what failed.
Source: `executor.ts`, `ModelExecutor.execute` -/
def failedEvent (reason : JsString) (more : Option (JsString × JsString))
    (hmore : ∀ p ∈ more, p.1 ≠ js "reason") : ExecutionEvent :=
  ⟨js "execution.failed", StringRecord.toObject
    { entries := (js "reason", reason) :: more.toList
      distinct := by
        cases more with
        | none => exact List.nodup_singleton _
        | some p =>
          change [js "reason", p.1].Nodup
          simpa using (hmore p rfl).symm }⟩

/-- The detail of a request to a model. The credential is never recorded.
Source: `executor.ts`, `ModelExecutor.execute` -/
def requestPayload (provider model : JsString) (sampling : PlainObject)
    (baseUrl credentialId : Option JsString) : PlainObject where
  props := [(js "provider", .str provider), (js "model", .str model),
      (js "sampling", sampling.toJs)] ++
    baseUrl.toList.map (fun u => (js "baseUrl", .str u)) ++
    credentialId.toList.map (fun c => (js "credentialId", .str c))
  wf := by
    refine JsVal.wf_obj.mpr ⟨?_, ?_⟩
    · cases baseUrl <;> cases credentialId
      · change [js "provider", js "model", js "sampling"].Nodup
        simp
      · change [js "provider", js "model", js "sampling", js "credentialId"].Nodup
        simp
      · change [js "provider", js "model", js "sampling", js "baseUrl"].Nodup
        simp
      · change [js "provider", js "model", js "sampling", js "baseUrl", js "credentialId"].Nodup
        simp
    · intro p hp
      simp only [List.mem_append, List.mem_cons, List.not_mem_nil, or_false, List.mem_map,
        Option.mem_toList] at hp
      rcases hp with ((rfl | rfl | rfl) | ⟨u, -, rfl⟩) | ⟨c, -, rfl⟩
      · trivial
      · trivial
      · exact sampling.wf
      · trivial
      · trivial

/-- `typeof v === 'number'` -/
def asNumber : JsVal → Option Number
  | .num n => some n
  | _ => none

/-- `provider/model`, where both are read from.
Source: `executor.ts`, `ModelExecutor.execute` -/
def route (identifier : JsString) : Option (JsString × JsString) :=
  match identifier.idxOf? 47 with
  | some (k + 1) => some (identifier.take (k + 1), identifier.drop (k + 2))
  | _ => none

/-! ## The paths -/

section

variable {σ α : Type} (text : α → JsString) (env : JsString → Option α)

/-- Where a provider's configuration comes from. Only identifiers of registered providers are looked
up.
Source: `registry.ts`, `resolveConfig` -/
def resolveConfig (providerId : JsString) : ProviderConfig α where
  apiKey := ((envKeys.lookup providerId).bind env).filter (text · ≠ [])
  baseUrl := ((envBaseUrls.lookup providerId).bind env).filter (text · ≠ [])

/-- `{ ...config, ...revealed }` -/
def ProviderConfig.merge (config : ProviderConfig α) (revealed : Revealed α) : ProviderConfig α where
  apiKey := revealed.apiKey <|> config.apiKey
  baseUrl := revealed.baseUrl <|> config.baseUrl

/-- Source: `executor.ts`, `ModelExecutor.unavailableReason` -/
def ModelExecutor.unavailableReason (executor : ModelExecutor σ α) : Option JsString :=
  if executor.enabled then none
  else some (js "Model execution is disabled. Set AGENT_EVAL_MODEL_EXEC=1 to enable it.")

/-- The configuration of a run that may name a stored credential, or why there is none.
Source: `executor.ts`, `ModelExecutor.execute` -/
def runConfig (resolveCredential : Option (Resolver σ α)) (providerId : JsString)
    (run : Option RunContext) (s : σ) : Except JsString (ProviderConfig α) × σ :=
  let config := resolveConfig text env providerId
  match run.bind fun r => (present r.credentialId).map (r.tenantId, ·) with
  | none => (.ok config, s)
  | some (tenantId, credentialId) =>
    match resolveCredential with
    | none => (.error (js "Run names provider credential \"" ++ credentialId ++
        js "\", but this worker was started without access to the credential store."), s)
    | some resolve =>
      match resolve tenantId credentialId s with
      | (.error e, s) => (.error e.message, s)
      | (.ok none, s) => (.error (js "Provider credential \"" ++ credentialId ++
          js "\" was not found for this tenant."), s)
      | (.ok (some revealed), s) => (.ok (config.merge revealed), s)

/-- Source: `executor.ts`, `ModelExecutor.execute` -/
def ModelExecutor.execute (executor : ModelExecutor σ α) (runId : JsString) (model : Option RunModel)
    (run : Option RunContext) (s : σ) : Executed α × σ :=
  match executor.unavailableReason with
  | some blocked => (.failed blocked [], s)
  | none =>
    let identifier := (model.bind (·.identifier)).getD []
    match route identifier with
    | none =>
      let reason := js "Model identifier \"" ++ identifier ++ js "\" is not routable. " ++
        js "Use \"<provider>/<model-id>\", for example \"ollama/some-model\"."
      (.failed reason [failedEvent reason none (by simp)], s)
    | some (providerId, modelId) =>
      match ProviderRegistry.get providerId with
      | .error e =>
        (.failed e.message [failedEvent e.message (some (js "providerId", providerId)) (by simp)], s)
      | .ok provider =>
        let credentialId := run.bind fun r => present r.credentialId
        match runConfig text env executor.resolveCredential providerId run s with
        | (.error reason, s) =>
          (.failed reason
            [failedEvent reason (credentialId.map (js "credentialId", ·)) (by simp)], s)
        | (.ok config, s) =>
          let sampling := (model.bind (·.sampling)).getD .empty
          (.generate ⟨provider.id, config⟩
            ⟨modelId, js "Run " ++ runId ++ js ". Reply with a one-sentence acknowledgement.",
              asNumber (sampling.get (js "temperature")), asNumber (sampling.get (js "max_tokens"))⟩
            [⟨js "model.request",
              requestPayload providerId modelId sampling (config.baseUrl.map text) credentialId⟩], s)

/-- Source: `api/routes/providers.ts`, `POST /v1/providers/test` -/
def testConnection (reveal : Resolver σ α) (ctx : TenantContext) (providerId : JsString)
    (credentialId : Option JsString) (s : σ) : ProviderReply α × σ :=
  if js "runs:read" ∉ ctx.scopes then
    (.problem (errorHandler (some 403) (js "missing required scope: runs:read")), s)
  else if ProviderRegistry.has providerId = false then
    (.problem
      (problem (js "not-found") (js "Unknown provider") 404 (some providerId) none), s)
  else
    let config := resolveConfig text env providerId
    match present credentialId with
    | none => (.call ⟨providerId, config⟩, s)
    | some credentialId =>
      match reveal ctx.tenantId credentialId s with
      | (.error e, s) => (.thrown e, s)
      | (.ok none, s) =>
        (.problem (problem (js "not-found") (js "Credential not found") 404 none none), s)
      | (.ok (some revealed), s) => (.call ⟨providerId, config.merge revealed⟩, s)

/-- A credential that a query names: an array names none.
Source: `api/routes/providers.ts`, `GET /v1/providers/:id/models` -/
def revealNamed (reveal : Resolver σ α) (tenantId : JsString) (credentialId : Option QueryParam)
    (s : σ) : Except CredentialError (Option (Revealed α)) × σ :=
  match credentialId.filter QueryParam.truthy with
  | some (.single credentialId) => reveal tenantId credentialId s
  | _ => (.ok none, s)

/-- Source: `api/routes/providers.ts`, `GET /v1/providers/:id/models` -/
def listModels (reveal : Resolver σ α) (ctx : TenantContext) (id : JsString)
    (credentialId : Option QueryParam) (s : σ) : ProviderReply α × σ :=
  if js "runs:read" ∉ ctx.scopes then
    (.problem (errorHandler (some 403) (js "missing required scope: runs:read")), s)
  else
    match providerRegistry.find? (·.id = id) with
    | none => (.problem (problem (js "not-found") (js "Unknown provider") 404 none none), s)
    | some provider =>
      if provider.listModels = false then
        (.noListing
          (js "This provider does not expose a model list. Enter a model id directly."), s)
      else
        let config := resolveConfig text env id
        match revealNamed reveal ctx.tenantId credentialId s with
        | (.error e, s) => (.thrown e, s)
        | (.ok none, s) => (.call ⟨provider.id, config⟩, s)
        | (.ok (some revealed), s) => (.call ⟨provider.id, config.merge revealed⟩, s)

end

/-! ## Texts that carry more -/

section map

variable {σ α β : Type} (f : α → β)

/-- The configuration with its texts replaced. -/
def ProviderConfig.map (config : ProviderConfig α) : ProviderConfig β :=
  ⟨config.apiKey.map f, config.baseUrl.map f⟩

/-- What is revealed, with its texts replaced. -/
def mapRevealed (revealed : Revealed α) : Revealed β :=
  ⟨revealed.apiKey.map f, revealed.baseUrl.map f, revealed.providerId⟩

/-- The call with its texts replaced. -/
def AdapterCall.map (call : AdapterCall α) : AdapterCall β := ⟨call.provider, call.config.map f⟩

/-- The resolver of replaced texts. -/
def Resolver.map (resolve : Resolver σ α) : Resolver σ β := fun tenantId id s =>
  ((resolve tenantId id s).1.map (Option.map (mapRevealed f)), (resolve tenantId id s).2)

/-- The execution with its texts replaced. -/
def Executed.map : Executed α → Executed β
  | .failed reason events => .failed reason events
  | .generate call request events => .generate (call.map f) request events

/-- The reply with its texts replaced. -/
def ProviderReply.map : ProviderReply α → ProviderReply β
  | .problem p => .problem p
  | .thrown e => .thrown e
  | .noListing note => .noListing note
  | .call c => .call (c.map f)

variable {f} {text : α → JsString} {text' : β → JsString} {env : JsString → Option α}

/-- The configuration from the environment. -/
theorem resolveConfig_map (hf : ∀ a, text' (f a) = text a) (providerId : JsString) :
    resolveConfig text' (fun name => (env name).map f) providerId =
      (resolveConfig text env providerId).map f := by
  have hfilter : ∀ o : Option α, (o.map f).filter (text' · ≠ []) =
      (o.filter (text · ≠ [])).map f := by
    intro o
    cases o with
    | none => rfl
    | some a =>
      rw [Option.map_some, Option.filter_some, Option.filter_some, hf]
      split <;> rfl
  have hbind : ∀ o : Option JsString, (o.bind fun name => (env name).map f) =
      (o.bind env).map f := by
    intro o
    cases o <;> rfl
  unfold resolveConfig ProviderConfig.map
  rw [hbind, hbind, hfilter, hfilter]

/-- The merge of a configuration with what is revealed. -/
theorem merge_map (config : ProviderConfig α) (revealed : Revealed α) :
    (config.map f).merge (mapRevealed f revealed) = (config.merge revealed).map f := by
  unfold ProviderConfig.merge ProviderConfig.map mapRevealed
  cases revealed.apiKey <;> cases revealed.baseUrl <;> rfl

/-- The configuration of a run. -/
theorem runConfig_map (hf : ∀ a, text' (f a) = text a) (resolve : Option (Resolver σ α))
    (providerId : JsString) (run : Option RunContext) (s : σ) :
    runConfig text' (fun name => (env name).map f) (resolve.map (Resolver.map f)) providerId run s =
      ((runConfig text env resolve providerId run s).1.map (ProviderConfig.map f),
        (runConfig text env resolve providerId run s).2) := by
  unfold runConfig
  rw [resolveConfig_map hf]
  cases run.bind fun r => (present r.credentialId).map (r.tenantId, ·) with
  | none => rfl
  | some named =>
    cases resolve with
    | none => rfl
    | some resolve =>
      simp only [Option.map_some, Resolver.map]
      rcases resolve named.1 named.2 s with ⟨_ | _ | revealed, s⟩
      · rfl
      · rfl
      · simp only [Except.map, Option.map_some, merge_map]

/-- **An execution on texts that carry more** does what it does on the texts. -/
theorem execute_map (hf : ∀ a, text' (f a) = text a) (executor : ModelExecutor σ α)
    (runId : JsString) (model : Option RunModel) (run : Option RunContext) (s : σ) :
    ModelExecutor.execute text' (fun name => (env name).map f)
        ⟨executor.enabled, executor.resolveCredential.map (Resolver.map f)⟩ runId model run s =
      ((executor.execute text env runId model run s).1.map f,
        (executor.execute text env runId model run s).2) := by
  have hurl : ∀ config : ProviderConfig α,
      (config.map f).baseUrl.map text' = config.baseUrl.map text := by
    intro config
    unfold ProviderConfig.map
    cases config.baseUrl with
    | none => rfl
    | some u => exact congrArg some (hf u)
  unfold ModelExecutor.execute
  rw [show ModelExecutor.unavailableReason
    ⟨executor.enabled, executor.resolveCredential.map (Resolver.map f)⟩ =
      executor.unavailableReason from rfl]
  cases executor.unavailableReason with
  | some blocked => rfl
  | none =>
    dsimp only
    cases route ((model.bind (·.identifier)).getD []) with
    | none => rfl
    | some routed =>
      obtain ⟨providerId, modelId⟩ := routed
      dsimp only
      cases ProviderRegistry.get providerId with
      | error e => rfl
      | ok provider =>
        dsimp only
        rw [runConfig_map hf]
        rcases runConfig text env executor.resolveCredential providerId run s with
          ⟨reason | config, s⟩
        · rfl
        · simp only [Except.map, hurl]
          rfl

/-- **A connection test on texts that carry more.** -/
theorem testConnection_map (hf : ∀ a, text' (f a) = text a) (reveal : Resolver σ α)
    (ctx : TenantContext) (providerId : JsString) (credentialId : Option JsString) (s : σ) :
    testConnection text' (fun name => (env name).map f) (reveal.map f) ctx providerId credentialId s =
      ((testConnection text env reveal ctx providerId credentialId s).1.map f,
        (testConnection text env reveal ctx providerId credentialId s).2) := by
  unfold testConnection
  rw [resolveConfig_map hf]
  by_cases hscope : js "runs:read" ∉ ctx.scopes
  · rw [if_pos hscope, if_pos hscope]
    rfl
  rw [if_neg hscope, if_neg hscope]
  by_cases hknown : ProviderRegistry.has providerId = false
  · rw [if_pos hknown, if_pos hknown]
    rfl
  rw [if_neg hknown, if_neg hknown]
  cases present credentialId with
  | none => rfl
  | some id =>
    simp only [Resolver.map]
    rcases reveal ctx.tenantId id s with ⟨_ | _ | revealed, s⟩
    · rfl
    · rfl
    · simp only [Except.map, Option.map_some, merge_map]
      rfl

/-- The credential that a query names. -/
theorem revealNamed_map (reveal : Resolver σ α) (tenantId : JsString)
    (credentialId : Option QueryParam) (s : σ) :
    revealNamed (reveal.map f) tenantId credentialId s =
      ((revealNamed reveal tenantId credentialId s).1.map (Option.map (mapRevealed f)),
        (revealNamed reveal tenantId credentialId s).2) := by
  unfold revealNamed
  cases credentialId.filter QueryParam.truthy with
  | none => rfl
  | some named => cases named <;> rfl

/-- **A listing of models on texts that carry more.** -/
theorem listModels_map (hf : ∀ a, text' (f a) = text a) (reveal : Resolver σ α)
    (ctx : TenantContext) (id : JsString) (credentialId : Option QueryParam) (s : σ) :
    listModels text' (fun name => (env name).map f) (reveal.map f) ctx id credentialId s =
      ((listModels text env reveal ctx id credentialId s).1.map f,
        (listModels text env reveal ctx id credentialId s).2) := by
  unfold listModels
  rw [resolveConfig_map hf, revealNamed_map]
  by_cases hscope : js "runs:read" ∉ ctx.scopes
  · rw [if_pos hscope, if_pos hscope]
    rfl
  rw [if_neg hscope, if_neg hscope]
  cases providerRegistry.find? (·.id = id) with
  | none => rfl
  | some provider =>
    dsimp only
    by_cases hlists : provider.listModels = false
    · rw [if_pos hlists, if_pos hlists]
      rfl
    rw [if_neg hlists, if_neg hlists]
    rcases revealNamed reveal ctx.tenantId credentialId s with ⟨_ | _ | revealed, s⟩
    · rfl
    · rfl
    · simp only [Except.map, Option.map_some, merge_map]
      rfl

end map

end AgentEval.Providers
