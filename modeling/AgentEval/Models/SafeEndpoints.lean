import AgentEval.Models.Registry
import AgentEval.Providers.KeysStay

/-!
# Endpoints of metadata services

An endpoint is safe when it is a URL with `http` or `https` whose host does not denote the metadata
service of a cloud. The registry checks every base URL it stores, and its check knows the address
`169.254.169.254` and names that end in `.internal`. It does not know the address inside of an IPv6
address, nor names that end in the dot of the root. Base URLs of stored credentials are not checked.

* **`safe_iff`**: the endpoints that pass the check and are not safe.
* **`endpoints_safe`**: where no base URL is one of those and those of credentials are safe, every
  endpoint that is kept or used is.
* **`metadata_reached`**: the registry keeps `http://[::ffff:169.254.169.254]/v1`, and a credential
  gives `http://169.254.169.254/v1` to an adapter.
-/

namespace AgentEval.Models

open Js Store Api Auth Providers Async

/-! ## Hosts -/

/-- `::ffff:169.254.169.254` -/
def mappedMetadata : List UInt16 := [0, 0, 0, 0, 0, 0xffff, 0xa9fe, 0xa9fe]

/-- A host that denotes a metadata service: its address as IPv4 or in IPv6, or a name under
`.internal`, with or without the dot of the root. -/
def DenotesMetadata : Host → Prop
  | .domain name => js ".internal" <:+ asciiLower name ∨ js ".internal." <:+ asciiLower name
  | .ipv4 a b c d => a = 169 ∧ b = 254 ∧ c = 169 ∧ d = 254
  | .ipv6 pieces _ => pieces = mappedMetadata
  | .other _ => False

/-- A host that the check does not recognise as one of those. -/
def Missed : Host → Prop
  | .domain name => js ".internal." <:+ asciiLower name
  | .ipv6 pieces _ => pieces = mappedMetadata
  | _ => False

/-- A URL with `http` or `https` whose host denotes no metadata service. -/
def SafeEndpoint (parse : UrlParser) (url : JsString) : Prop :=
  ∃ parsed, parse url = some parsed ∧
    (parsed.protocol = js "http:" ∨ parsed.protocol = js "https:") ∧ ¬ DenotesMetadata parsed.host

/-- A URL whose host the check does not recognise. -/
def MissedEndpoint (parse : UrlParser) (url : JsString) : Prop :=
  ∃ parsed, parse url = some parsed ∧ Missed parsed.host

section

variable {parse : UrlParser} {url : JsString}

/-- A host that passes the check denotes a metadata service when the check misses it. -/
theorem denotesMetadata_iff {host : Host} (h : isMetadataHost (asciiLower host.hostname) = false) :
    DenotesMetadata host ↔ Missed host := by
  unfold isMetadataHost at h
  rw [Bool.or_eq_false_iff, Bool.or_eq_false_iff] at h
  obtain ⟨⟨haddress, -⟩, hsuffix⟩ := h
  cases host with
  | domain name =>
    refine or_iff_right fun hname => ?_
    rw [Host.hostname, List.isSuffixOf_iff_suffix.mpr hname] at hsuffix
    cases hsuffix
  | ipv4 a b c d =>
    refine iff_of_false ?_ id
    rintro ⟨rfl, rfl, rfl, rfl⟩
    exact of_decide_eq_false haddress rfl
  | ipv6 pieces hlength => exact Iff.rfl
  | other text => exact Iff.rfl

/-- **The endpoints that pass the check** are safe unless the check misses them. -/
theorem safe_iff (h : assertSafeEndpoint parse url true = .ok ()) :
    SafeEndpoint parse url ↔ ¬ MissedEndpoint parse url := by
  obtain ⟨parsed, hparse, hhttp, hhost⟩ := assertSafeEndpoint_eq_ok.mp h
  unfold SafeEndpoint MissedEndpoint
  constructor
  · rintro ⟨parsed', hparse', -, hdenotes⟩ ⟨parsed'', hparse'', hmissed⟩
    obtain rfl := Option.some.inj (hparse.symm.trans hparse')
    obtain rfl := Option.some.inj (hparse.symm.trans hparse'')
    exact hdenotes ((denotesMetadata_iff hhost).mpr hmissed)
  · intro hmissed
    refine ⟨parsed, hparse, hhttp, fun hdenotes => hmissed ⟨parsed, hparse, ?_⟩⟩
    exact (denotesMetadata_iff hhost).mp hdenotes

/-- A valid base URL that the check does not miss is safe. -/
theorem Valid.safe {modelId modelIdentifier : JsString} {deploymentType : DeploymentType}
    {baseUrl : Option JsString} (h : Valid parse modelId modelIdentifier deploymentType baseUrl)
    (hurl : url ∈ baseUrl.filter (· ≠ [])) (hmissed : ¬ MissedEndpoint parse url) :
    SafeEndpoint parse url :=
  (safe_iff (h.endpoint url hurl)).mpr hmissed

end

/-! ## The registry -/

/-- Every base URL in the registry is safe. -/
def StoreSafe (parse : UrlParser) (s : ModelStore) : Prop :=
  ∀ p ∈ s.models, ∀ r ∈ p.2, ∀ url ∈ r.baseUrl, SafeEndpoint parse url

/-- The base URL that a call gives is not one that the check misses. -/
def ModelEvent.Recognised (parse : UrlParser) : ModelEvent → Prop
  | .register _ input => ∀ url ∈ input.baseUrl, ¬ MissedEndpoint parse url
  | .update _ _ patch => ∀ url ∈ patch.baseUrl, ¬ MissedEndpoint parse url
  | _ => True

section

variable {parse : UrlParser} {ctx : TenantContext} {modelId : JsString} {s s' : ModelStore}
  {r : RegisteredModel}

/-- The revisions of a model are in the registry. -/
theorem mem_models_of_get (h : InMemoryModelRegistry.get ctx modelId s = some r) :
    ∃ p ∈ s.models, r ∈ p.2 ∧ p.2 = InMemoryModelRegistry.revisions ctx modelId s := by
  unfold InMemoryModelRegistry.get InMemoryModelRegistry.revisions at h
  cases hlookup : s.models.lookup (InMemoryModelRegistry.key ctx.tenantId modelId) with
  | none =>
    rw [hlookup] at h
    cases h
  | some revisions =>
    rw [hlookup] at h
    refine ⟨_, mem_of_lookup hlookup, List.mem_of_getLast? h, ?_⟩
    unfold InMemoryModelRegistry.revisions
    rw [hlookup]
    rfl

/-- The revisions of a model, as far as they are safe. -/
theorem StoreSafe.revisions (h : StoreSafe parse s) :
    ∀ r ∈ InMemoryModelRegistry.revisions ctx modelId s, ∀ url ∈ r.baseUrl,
      SafeEndpoint parse url := by
  unfold InMemoryModelRegistry.revisions
  cases hlookup : s.models.lookup (InMemoryModelRegistry.key ctx.tenantId modelId) with
  | none =>
    intro r hr
    cases hr
  | some revisions => exact h _ (mem_of_lookup hlookup)

/-- Writing safe revisions keeps the registry safe. -/
theorem StoreSafe.setProp (h : StoreSafe parse s) {k : JsString} {rs : List RegisteredModel}
    (hrs : ∀ r ∈ rs, ∀ url ∈ r.baseUrl, SafeEndpoint parse url) :
    StoreSafe parse { s with models := setProp s.models (k, rs) } := by
  intro p hp
  rcases mem_of_mem_setProp hp with rfl | hp
  · exact hrs
  · exact h p hp

/-- A registration keeps the registry safe. -/
theorem StoreSafe.register (h : StoreSafe parse s) {input : RegisterModelInput}
    (hinput : ∀ url ∈ input.baseUrl, ¬ MissedEndpoint parse url) :
    StoreSafe parse (InMemoryModelRegistry.register parse ctx input s).2 := by
  rcases hregister : InMemoryModelRegistry.register parse ctx input s with ⟨e | r, s'⟩
  · rw [InMemoryModelRegistry.register_eq_error hregister]
    exact h
  · obtain ⟨hvalid, -, rfl, rfl⟩ := InMemoryModelRegistry.register_eq_ok hregister
    apply h.setProp
    intro r hr url hurl
    obtain rfl := List.mem_singleton.mp hr
    refine hvalid.safe hurl (hinput url ?_)
    exact (Option.filter_eq_some_iff.mp hurl).1

/-- The base URL of the next revision. -/
theorem safe_nextRevision {current : RegisteredModel} {patch : ModelPatch}
    {modelIdentifier : JsString} {deploymentType : DeploymentType} {now : TimeValue}
    (hcurrent : ∀ url ∈ current.baseUrl, SafeEndpoint parse url)
    (hvalid : Valid parse modelId modelIdentifier deploymentType
      (InMemoryModelRegistry.mergedBaseUrl current patch))
    (hpatch : ∀ url ∈ patch.baseUrl, ¬ MissedEndpoint parse url) :
    ∀ url ∈ (InMemoryModelRegistry.nextRevision current patch now).baseUrl,
      SafeEndpoint parse url := by
  intro url hurl
  change (InMemoryModelRegistry.mergedBaseUrl current patch <|> current.baseUrl) = some url at hurl
  cases hmerged : InMemoryModelRegistry.mergedBaseUrl current patch with
  | none =>
    rw [hmerged] at hurl
    exact hcurrent url hurl
  | some url' =>
    rw [hmerged] at hurl
    obtain rfl := Option.some.inj hurl
    cases hbase : patch.baseUrl with
    | none =>
      unfold InMemoryModelRegistry.mergedBaseUrl at hmerged
      rw [hbase] at hmerged
      exact hcurrent url' (Option.filter_eq_some_iff.mp hmerged).1
    | some given =>
      unfold InMemoryModelRegistry.mergedBaseUrl at hmerged
      rw [hbase] at hmerged
      obtain ⟨hgiven, hne⟩ := Option.filter_eq_some_iff.mp hmerged
      obtain rfl := Option.some.inj hgiven
      refine hvalid.safe ?_ (hpatch given hbase)
      unfold InMemoryModelRegistry.mergedBaseUrl
      rw [hbase]
      exact Option.filter_eq_some_iff.mpr
        ⟨Option.filter_eq_some_iff.mpr ⟨rfl, hne⟩, hne⟩

/-- An update keeps the registry safe, and returns a safe revision. -/
theorem StoreSafe.update (h : StoreSafe parse s) {patch : ModelPatch}
    (hpatch : ∀ url ∈ patch.baseUrl, ¬ MissedEndpoint parse url) :
    StoreSafe parse (InMemoryModelRegistry.update parse ctx modelId patch s).2 ∧
      ∀ r, (InMemoryModelRegistry.update parse ctx modelId patch s).1 = .ok r →
        ∀ url ∈ r.baseUrl, SafeEndpoint parse url := by
  rcases hupdate : InMemoryModelRegistry.update parse ctx modelId patch s with ⟨e | r, s'⟩
  · rw [InMemoryModelRegistry.update_eq_error hupdate]
    refine ⟨h, fun r hr => ?_⟩
    cases hr
  · obtain ⟨current, hget, hvalid, rfl, rfl⟩ := InMemoryModelRegistry.update_eq_ok hupdate
    have hcurrent : ∀ url ∈ current.baseUrl, SafeEndpoint parse url := by
      obtain ⟨p, hp, hmem, -⟩ := mem_models_of_get hget
      exact h p hp current hmem
    have hnext : ∀ url ∈ (InMemoryModelRegistry.nextRevision current _ s.clock).baseUrl,
        SafeEndpoint parse url :=
      safe_nextRevision hcurrent hvalid hpatch
    refine ⟨h.setProp ?_, ?_⟩
    · intro r hr
      rcases List.mem_append.mp hr with hr | hr
      · exact h.revisions r (List.dropLast_subset _ hr)
      · rcases List.mem_cons.mp hr with rfl | hr
        · exact hcurrent
        · obtain rfl := List.mem_singleton.mp hr
          exact hnext
    · intro r hr
      obtain rfl := (Except.ok.inj hr).symm
      exact hnext

/-- Each operation of `recordProbe` keeps the registry safe. -/
theorem each_recordProbe {probe : Probe} :
    (InMemoryModelRegistry.recordProbe parse ctx modelId probe).Each (StoreSafe parse)
      (fun _ _ s' => StoreSafe parse s') := by
  unfold InMemoryModelRegistry.recordProbe
  apply Task.Each.await
  intro s hs
  refine ⟨hs, ?_⟩
  cases InMemoryModelRegistry.get ctx modelId s with
  | none => trivial
  | some current =>
    apply Task.Each.await
    intro s hs
    obtain ⟨hstore, hok⟩ := @StoreSafe.update parse ctx modelId s hs
      (InMemoryModelRegistry.probePatch probe s.clock) (fun url hurl => by cases hurl)
    refine ⟨hstore, ?_⟩
    dsimp only
    cases hupdated : (InMemoryModelRegistry.update parse ctx modelId
        (InMemoryModelRegistry.probePatch probe s.clock) s).1 with
    | error e => trivial
    | ok updated =>
      dsimp only
      cases probe.resolvedModelId.filter (· ≠ []) with
      | none => trivial
      | some resolved =>
        apply Task.Each.await_self
        intro s hs
        apply hs.setProp
        intro r hr
        rcases List.mem_append.mp hr with hr | hr
        · exact hs.revisions r (List.dropLast_subset _ hr)
        · obtain rfl := List.mem_singleton.mp hr
          exact hok updated hupdated

/-- **What one step keeps.** -/
theorem each_step {server : ModelServer} {e : ModelEvent}
    (h : server.Each (StoreSafe parse) fun _ _ s' => StoreSafe parse s')
    (he : e.Recognised parse) :
    (server.step parse e).Each (StoreSafe parse) fun _ _ s' => StoreSafe parse s' := by
  refine h.step (fun _ _ _ _ hs => hs) ?_ ?_
  · intro t ht
    cases e with
    | register ctx input =>
      cases ht
      exact Task.Each.await_self fun s hs => hs.register he
    | update ctx modelId patch =>
      cases ht
      exact Task.Each.await_self fun s hs => (hs.update he).1
    | recordProbe ctx modelId probe =>
      cases ht
      exact each_recordProbe
    | resume i => cases ht
    | tick now => cases ht
  · intro update hupdate
    cases e with
    | tick now =>
      cases hupdate
      exact h.1
    | _ => cases hupdate

end

/-! ## Stored credentials -/

/-- The base URL of a new credential is safe. -/
def SafeCreation (parse : UrlParser) : CredentialOp → Prop
  | .create _ _ _ input => ∀ url ∈ input.baseUrl, url ≠ [] → SafeEndpoint parse url
  | _ => True

/-- Every base URL of a credential is safe. -/
def CredentialsSafe (parse : UrlParser) (s : CredentialStore) : Prop :=
  ∀ p ∈ s.credentials, ∀ url ∈ p.2.baseUrl, SafeEndpoint parse url

section

variable {parse : UrlParser} {gcm : AesGcm} {box : Option SecretBox} {s : CredentialStore}

/-- A step keeps the base URLs of credentials safe. -/
theorem CredentialsSafe.step (h : CredentialsSafe parse s) {op : CredentialOp}
    (hop : SafeCreation parse op) : CredentialsSafe parse (s.step gcm box op) := by
  have hold : ∀ {tenantId id c}, ProviderCredentialStore.find tenantId id s = some c →
      ∀ url ∈ c.baseUrl, SafeEndpoint parse url := by
    intro tenantId id c hfind
    exact h _ (mem_of_lookup (CredentialStore.find_eq_some.mp hfind).1)
  unfold CredentialsSafe
  rcases @CredentialStore.step_cases gcm box s op with hsame | ⟨id, c, hwrites, hset⟩
  · rw [hsame]
    exact h
  · rw [hset]
    intro p hp
    rcases mem_of_mem_setProp hp with rfl | hp
    · cases hwrites with
      | create hkey =>
        intro url hurl
        obtain ⟨hgiven, hne⟩ := Option.filter_eq_some_iff.mp hurl
        exact hop url hgiven (of_decide_eq_true hne)
      | reveal hfind hrevoked hkey =>
        have hbefore := hold hfind
        exact hbefore
      | revoke hfind =>
        have hbefore := hold hfind
        exact hbefore
    · exact h p hp

/-- What is revealed of safe credentials. -/
theorem CredentialsSafe.reveal (h : CredentialsSafe parse s) {tenantId id : JsString}
    {revealed : Revealed JsString}
    (hrevealed : (ProviderCredentialStore.revealForProviderCall gcm box tenantId id s).1 =
      .ok (some revealed)) : ∀ url ∈ revealed.baseUrl, SafeEndpoint parse url := by
  rcases ProviderCredentialStore.revealForProviderCall_eq_ok.mp hrevealed with
    ⟨-, hnone⟩ | ⟨c, key, hfind, -, -, hreveals⟩
  · cases hnone
  · cases hreveals
    intro url hurl
    exact h _ (mem_of_lookup (CredentialStore.find_eq_some.mp hfind).1) url
      (Option.filter_eq_some_iff.mp hurl).1

end

/-- **Endpoints**: where every base URL that is registered or given in an update is none that the
check misses, and the base URL of every credential that is created is safe, each endpoint that the
registry keeps is safe, and so is each endpoint of a credential that an adapter is called with. -/
theorem endpoints_safe (parse : UrlParser) (gcm : AesGcm) (box : Option SecretBox)
    (env : JsString → Option JsString) (clock : TimeValue) (events : List ModelEvent)
    (ops : List CredentialOp) (hevents : ∀ e ∈ events, e.Recognised parse)
    (hops : ∀ op ∈ ops, SafeCreation parse op) :
    StoreSafe parse ((ModelServer.start clock).run parse events).shared ∧
      ∀ (request : ProviderRequest) (call : AdapterCall Labelled),
        request.call Labelled.text (labelEnv env)
            (labelReveal (ProviderCredentialStore.revealForProviderCall gcm box))
            ((CredentialStore.start clock).run gcm box ops) = some call →
          ∀ url ∈ call.config.baseUrl, ∀ providerId, url.origin = .credential providerId →
            SafeEndpoint parse url.text := by
  constructor
  · have hrun : ((ModelServer.start clock).run parse events).Each (StoreSafe parse)
        fun _ _ s' => StoreSafe parse s' := by
      refine run_keeps (C := fun _ e => e.Recognised parse) (fun _ _ => each_step) ?_ ?_
      · exact ⟨fun p hp => absurd hp List.not_mem_nil, fun t ht => absurd ht List.not_mem_nil⟩
      · rintro past e later rfl
        exact hevents e (by simp)
    exact hrun.1
  · have hsafe : CredentialsSafe parse ((CredentialStore.start clock).run gcm box ops) := by
      refine run_keeps (C := fun _ op => SafeCreation parse op)
        (fun s op (hs : CredentialsSafe parse s) hop => hs.step hop) ?_ ?_
      · exact fun p hp => absurd hp List.not_mem_nil
      · rintro past op later rfl
        exact hops op (by simp)
    intro request call hcall url hurl providerId horigin
    rcases call_cases hcall with hconfig | ⟨tenantId, id, revealed, -, hrevealed, hconfig⟩
    · rw [hconfig, resolveConfig_label] at hurl
      obtain ⟨u, -, rfl⟩ := Option.map_eq_some_iff.mp hurl
      cases horigin
    · obtain ⟨r, hr, rfl⟩ := labelReveal_eq_ok hrevealed
      rw [hconfig, resolveConfig_label] at hurl
      unfold ProviderConfig.merge labelRevealed at hurl
      dsimp only at hurl
      cases hbase : r.baseUrl with
      | none =>
        rw [hbase] at hurl
        obtain ⟨u, -, rfl⟩ := Option.map_eq_some_iff.mp hurl
        cases horigin
      | some u =>
        rw [hbase] at hurl
        obtain rfl := Option.some.inj hurl
        exact hsafe.reveal hr u hbase

/-! ## Three endpoints -/

section examples

/-- A model behind an endpoint. -/
def localModel (baseUrl : JsString) : RegisterModelInput where
  modelId := js "llama"
  displayName := js "Llama"
  provider := js "openai-compatible"
  deploymentType := .selfHosted
  modelIdentifier := js "llama-3"
  baseUrl := some baseUrl
  credentialId := none
  capabilities := none
  contextWindow := none
  maxOutputTokens := none
  pricing := none
  metadata := none

/-- `http://127.0.0.1:8000/v1` -/
def loopbackUrl : JsString := js "http://127.0.0.1:8000/v1"

/-- `http://169.254.169.254/v1` -/
def metadataUrl : JsString := js "http://169.254.169.254/v1"

/-- `http://[::ffff:169.254.169.254]/v1` -/
def mappedUrl : JsString := js "http://[::ffff:169.254.169.254]/v1"

/-- The parser on these three. -/
def exampleParse : UrlParser := fun url =>
  if url = loopbackUrl then some ⟨js "http:", .ipv4 127 0 0 1⟩
  else if url = metadataUrl then some ⟨js "http:", .ipv4 169 254 169 254⟩
  else if url = mappedUrl then some ⟨js "http:", .ipv6 mappedMetadata rfl⟩
  else none

/-- Somebody who registers models. -/
def registrar : TenantContext := ⟨js "tenant", js "user", [js "runs:read", js "runs:write"]⟩

/-- A registration. -/
def registerAt (baseUrl : JsString) : List ModelEvent :=
  [.register registrar (localModel baseUrl), .resume 0]

/-- A credential with an endpoint, as `POST /v1/provider-credentials` creates it. -/
def createAt (baseUrl : JsString) : List CredentialOp :=
  [.create ⟨[0, 0], []⟩ (js "tenant") (js "user")
    ⟨js "openai-compatible", js "mine", none, some baseUrl⟩]

/-- The connection test with that credential. -/
def testAt : ProviderRequest :=
  .test registrar (js "openai-compatible") (some (js "cred_000000"))

/-- The start of the clock. -/
def dawn : TimeValue := ⟨0, TimeValue.zero_inRange⟩

/-- `http://127.0.0.1:8000/v1` as a URL. -/
theorem exampleParse_loopback : exampleParse loopbackUrl = some ⟨js "http:", .ipv4 127 0 0 1⟩ :=
  if_pos rfl

/-- A model and a credential on the machine itself. -/
theorem endpoints_safe_loopback :
    StoreSafe exampleParse
      ((ModelServer.start dawn).run exampleParse (registerAt loopbackUrl)).shared := by
  refine (endpoints_safe exampleParse plainGcm none serverEnv dawn (registerAt loopbackUrl)
    (createAt loopbackUrl) ?_ ?_).1
  · intro e he
    rcases List.mem_cons.mp he with rfl | he
    · rintro url hurl ⟨parsed, hparsed, hmissed⟩
      obtain rfl := Option.some.inj hurl
      obtain rfl := Option.some.inj (exampleParse_loopback.symm.trans hparsed)
      exact hmissed
    · obtain rfl := List.mem_singleton.mp he
      trivial
  · intro op hop
    obtain rfl := List.mem_singleton.mp hop
    intro url hurl _
    obtain rfl := Option.some.inj hurl
    refine ⟨_, exampleParse_loopback, .inl rfl, ?_⟩
    rintro ⟨ha, -⟩
    cases ha

/-- **The registry keeps** `http://[::ffff:169.254.169.254]/v1`, **and an adapter is called with**
`http://169.254.169.254/v1` from a credential. -/
theorem metadata_reached :
    ¬ StoreSafe exampleParse
        ((ModelServer.start dawn).run exampleParse (registerAt mappedUrl)).shared ∧
      ¬ ∀ call, testAt.call Labelled.text (labelEnv serverEnv)
          (labelReveal (ProviderCredentialStore.revealForProviderCall plainGcm none))
          ((CredentialStore.start dawn).run plainGcm none (createAt metadataUrl)) = some call →
        ∀ url ∈ call.config.baseUrl, ∀ providerId, url.origin = .credential providerId →
          SafeEndpoint exampleParse url.text := by
  constructor
  · intro h
    have hstored : (js "tenant:llama", [InMemoryModelRegistry.registeredModel registrar
        (localModel mappedUrl) dawn]) ∈
        ((ModelServer.start dawn).run exampleParse (registerAt mappedUrl)).shared.models :=
      List.mem_singleton_self _
    obtain ⟨parsed, hparsed, -, hdenotes⟩ := h _ hstored _ (List.mem_singleton_self _) mappedUrl rfl
    have hmapped : exampleParse mappedUrl = some ⟨js "http:", .ipv6 mappedMetadata rfl⟩ := rfl
    obtain rfl := Option.some.inj (hmapped.symm.trans hparsed)
    exact hdenotes rfl
  · intro h
    obtain ⟨parsed, hparsed, -, hdenotes⟩ := h ⟨js "openai-compatible", none,
      some ⟨metadataUrl, .credential (js "openai-compatible")⟩⟩ rfl _ rfl _ rfl
    have hmetadata : exampleParse metadataUrl = some ⟨js "http:", .ipv4 169 254 169 254⟩ := rfl
    obtain rfl := Option.some.inj (hmetadata.symm.trans hparsed)
    exact hdenotes ⟨rfl, rfl, rfl, rfl⟩

end examples

end AgentEval.Models
