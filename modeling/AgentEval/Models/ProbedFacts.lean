import AgentEval.Models.Tenants

/-!
# What a probe has found

A revision may carry an identifier that the provider has reported, and capabilities that are marked as
probed. Both come from a probe, and an update carries them over.

* **`probed_facts`**: they are of the provider, the model and the endpoint of the revision, in every
  run in which an update that changes one of these finds neither, and an update of probed capabilities
  says where it has them from.
* **`fact_of_another_model`**: the model of a revision is changed, and the identifier stays.
-/

namespace AgentEval.Models

open Js Store Api Async

/-- What a probe is a probe of. -/
def RegisteredModel.probed (r : RegisteredModel) : JsString × JsString × Option JsString :=
  (r.provider, r.modelIdentifier, r.baseUrl)

/-- An event records a probe of a model whose current revision is `cur`. -/
structure RecordsProbe (parse : UrlParser) (clock : TimeValue) (past : List ModelEvent)
    (e : ModelEvent) (tenantId modelId : JsString) (probe : Probe) (cur : RegisteredModel) :
    Prop where
  called : ∃ i ctx, e = .resume i ∧ ctx.tenantId = tenantId ∧
    (calls (ModelEvent.toAsync parse) past)[i]? = some (.recordProbe ctx modelId probe) ∧
    ∃ task, ((ModelServer.start clock).run parse past).tasks[i]? = some task ∧
      task.point = some (.probeUpdate tenantId modelId)
  current : ∃ ctx, ctx.tenantId = tenantId ∧
    InMemoryModelRegistry.get ctx modelId ((ModelServer.start clock).run parse past).shared =
      some cur

/-- The capabilities as a probe leaves them. -/
def afterProbe (cur : RegisteredModel) (probe : Probe) (now : TimeValue) : ModelCapabilities :=
  cur.capabilities.spread (InMemoryModelRegistry.probePatch probe now).capabilities

/-- What a revision has from a probe was reported by one that was recorded in a run, while the model
was what the revision says it is. -/
structure Backed (parse : UrlParser) (clock : TimeValue) (events : List ModelEvent)
    (r : RegisteredModel) : Prop where
  resolved : ∀ id, r.resolvedModelId = some id → ∃ past e later probe cur,
    events = past ++ e :: later ∧
      RecordsProbe parse clock past e r.tenantId r.modelId probe cur ∧ cur.probed = r.probed ∧
      probe.resolvedModelId = some id
  capabilities : r.capabilities.source = .probed → ∃ past e later probe cur,
    events = past ++ e :: later ∧
      RecordsProbe parse clock past e r.tenantId r.modelId probe cur ∧ cur.probed = r.probed ∧
      r.capabilities = afterProbe cur probe ((ModelServer.start clock).run parse past).shared.clock

/-- A patch that leaves a model what it is. -/
structure ModelPatch.SameModel (patch : ModelPatch) (cur : RegisteredModel) : Prop where
  provider : ∀ provider ∈ patch.provider, provider = cur.provider
  modelIdentifier : ∀ id ∈ patch.modelIdentifier, id = cur.modelIdentifier
  baseUrl : ∀ url ∈ patch.baseUrl, url ≠ [] → cur.baseUrl = some url

/-- Where a patch has its capabilities from. -/
def ModelPatch.source (patch : ModelPatch) : Option CapabilitySource :=
  patch.capabilities.bind (·.source)

/-- A patch that changes a model finds nothing that a probe has found, and one that changes probed
capabilities says where it has them from. -/
structure ModelPatch.Respects (patch : ModelPatch) (cur : RegisteredModel) : Prop where
  resolved : cur.resolvedModelId ≠ none → patch.SameModel cur
  capabilities : cur.capabilities.source = .probed → patch.source = none →
    patch.SameModel cur ∧ cur.capabilities.spread patch.capabilities = cur.capabilities

/-- **The condition on a step**: an update that is accepted respects what probes have found. -/
def RespectsProbes (parse : UrlParser) (clock : TimeValue) (past : List ModelEvent) :
    ModelEvent → Prop
  | .resume i => ∀ ctx modelId patch cur,
      (calls (ModelEvent.toAsync parse) past)[i]? = some (.update ctx modelId patch) →
      (∃ task, ((ModelServer.start clock).run parse past).tasks[i]? = some task ∧
        task.point = some .update) →
      InMemoryModelRegistry.get ctx modelId ((ModelServer.start clock).run parse past).shared =
        some cur →
      Valid parse modelId (patch.modelIdentifier.getD cur.modelIdentifier)
        (patch.deploymentType.getD cur.deploymentType)
        (InMemoryModelRegistry.mergedBaseUrl cur patch) →
      patch.Respects cur
  | _ => True

/-- Capabilities that an operator supplies are not marked as probed. -/
def NotProbed : ModelEvent → Prop
  | .register _ input => input.capabilities.bind (·.source) ≠ some .probed
  | .update _ _ patch => patch.source ≠ some .probed
  | _ => True

section facts

variable {parse : UrlParser} {clock : TimeValue} {past : List ModelEvent} {e : ModelEvent}
  {r r' cur : RegisteredModel} {patch : ModelPatch} {now : TimeValue}

/-- What is backed stays backed. -/
theorem Backed.concat (h : Backed parse clock past r) : Backed parse clock (past ++ [e]) r := by
  refine ⟨fun id hid => ?_, fun hprobed => ?_⟩
  · obtain ⟨before, e', later, probe, cur, rfl, hfact⟩ := h.resolved id hid
    refine ⟨before, e', later ++ [e], probe, cur, ?_, hfact⟩
    rw [List.append_assoc, List.cons_append]
  · obtain ⟨before, e', later, probe, cur, rfl, hfact⟩ := h.capabilities hprobed
    refine ⟨before, e', later ++ [e], probe, cur, ?_, hfact⟩
    rw [List.append_assoc, List.cons_append]

/-- A revision with the same facts of the same model. -/
theorem Backed.congr (h : Backed parse clock past r) (htenant : r'.tenantId = r.tenantId)
    (hmodel : r'.modelId = r.modelId)
    (hresolved : r'.resolvedModelId ≠ none →
      r'.resolvedModelId = r.resolvedModelId ∧ r'.probed = r.probed)
    (hcapabilities : r'.capabilities.source = .probed →
      r'.capabilities = r.capabilities ∧ r'.probed = r.probed) :
    Backed parse clock past r' := by
  refine ⟨fun id hid => ?_, fun hprobed => ?_⟩
  · obtain ⟨hsame, hof⟩ := hresolved (by simp [hid])
    rw [htenant, hmodel, hof]
    exact h.resolved id (hsame.symm.trans hid)
  · obtain ⟨hsame, hof⟩ := hcapabilities hprobed
    rw [htenant, hmodel, hof, hsame]
    exact h.capabilities (hsame ▸ hprobed)

/-- A patch that leaves a model what it is. -/
theorem ModelPatch.SameModel.probed (h : patch.SameModel cur) :
    (InMemoryModelRegistry.nextRevision cur patch now).probed = cur.probed := by
  have hget : ∀ (x : Option JsString) (y : JsString), (∀ z ∈ x, z = y) → x.getD y = y := by
    intro x y hx
    cases x with
    | none => rfl
    | some z => exact hx z rfl
  have hurl : (InMemoryModelRegistry.mergedBaseUrl cur patch <|> cur.baseUrl) = cur.baseUrl := by
    unfold InMemoryModelRegistry.mergedBaseUrl
    cases hpatch : patch.baseUrl with
    | none =>
      cases hbase : cur.baseUrl with
      | none => rfl
      | some url => by_cases hne : url = [] <;> simp [Option.filter, hne]
    | some url =>
      by_cases hne : url = []
      · simp [Option.filter, hne]
      · rw [h.baseUrl url hpatch hne]
        simp [Option.filter, hne]
  unfold RegisteredModel.probed InMemoryModelRegistry.nextRevision
  dsimp only
  rw [hget _ _ h.provider, hget _ _ h.modelIdentifier, hurl]

/-- Where capabilities are from after a patch. -/
theorem source_spread (c : ModelCapabilities) (patch : Option PartialCapabilities) :
    (c.spread patch).source = (patch.bind (·.source)).getD c.source := by
  unfold ModelCapabilities.spread
  cases patch with
  | none => rfl
  | some patch => rfl

/-- Capabilities that are probed after a patch were so before, or the patch says so. -/
theorem source_cases {c : ModelCapabilities} {patch : Option PartialCapabilities}
    (h : (c.spread patch).source = .probed) :
    patch.bind (·.source) = some .probed ∨ patch.bind (·.source) = none ∧ c.source = .probed := by
  rw [source_spread] at h
  cases hsource : patch.bind (·.source) with
  | none =>
    rw [hsource] at h
    exact .inr ⟨rfl, h⟩
  | some source =>
    rw [hsource] at h
    exact .inl (congrArg some h)

/-- **An update keeps what it respects.** -/
theorem Backed.update (h : Backed parse clock past cur) (hrespects : patch.Respects cur)
    (hsource : patch.source ≠ some .probed) :
    Backed parse clock past (InMemoryModelRegistry.nextRevision cur patch now) := by
  refine h.congr rfl rfl ?_ ?_
  · intro hresolved
    exact ⟨rfl, (hrespects.resolved hresolved).probed⟩
  · intro hprobed
    rcases source_cases hprobed with hclaims | ⟨hnone, hcur⟩
    · exact absurd hclaims hsource
    · obtain ⟨hsame, hkeep⟩ := hrespects.capabilities hcur hnone
      exact ⟨hkeep, hsame.probed⟩

/-- A probe changes nothing that it is a probe of. -/
theorem probed_probePatch (cur : RegisteredModel) (probe : Probe) (now : TimeValue) :
    (InMemoryModelRegistry.nextRevision cur (InMemoryModelRegistry.probePatch probe now) now).probed =
      cur.probed := by
  apply ModelPatch.SameModel.probed
  refine ⟨?_, ?_, ?_⟩
  · rintro provider ⟨⟩
  · rintro id ⟨⟩
  · rintro url ⟨⟩

end facts

/-! ## Every run -/

/-- What the revisions of a state, and those that a probe will write, have from probes is backed. -/
structure AllBacked (parse : UrlParser) (clock : TimeValue) (past : List ModelEvent)
    (phases : List (ModelEvent × ModelPhase)) (s : ModelStore) : Prop where
  owned : Owned past phases s
  stored : ∀ p ∈ s.models, ∀ r ∈ p.2, Backed parse clock past r
  resolving : ∀ call t m w, (call, .resolving t m w) ∈ phases → Backed parse clock past w

section run

variable {parse : UrlParser} {clock : TimeValue} {past : List ModelEvent} {e call : ModelEvent}
  {phases : List (ModelEvent × ModelPhase)} {s s' : ModelStore} {r cur : RegisteredModel}
  {phase phase' : ModelPhase} {i : ℕ} {ctx : TenantContext} {modelId : JsString}
  {patch : ModelPatch} {rs : List RegisteredModel}

/-- What is backed stays backed. -/
theorem AllBacked.concat (h : AllBacked parse clock past phases s) :
    AllBacked parse clock (past ++ [e]) phases s :=
  ⟨h.owned.concat, fun p hp r hr => (h.stored p hp r hr).concat,
    fun call t m w hw => (h.resolving call t m w hw).concat⟩

/-- The rule for a write: the new revisions are backed, and so is what the call will write. -/
theorem AllBacked.write (h : AllBacked parse clock past phases s) {k : JsString}
    (howned : Owned (past ++ [e]) (phases.set i (call, phase'))
      { s with models := setProp s.models (k, rs) })
    (hrs : ∀ r ∈ rs, Backed parse clock (past ++ [e]) r)
    (hphase : ∀ t m w, phase' = .resolving t m w → Backed parse clock (past ++ [e]) w) :
    AllBacked parse clock (past ++ [e]) (phases.set i (call, phase'))
      { s with models := setProp s.models (k, rs) } := by
  refine ⟨howned, fun p hp r hr => ?_, fun call' t m w hw => ?_⟩
  · rcases mem_of_mem_setProp hp with rfl | hp
    · exact hrs r hr
    · exact (h.stored p hp r hr).concat
  · rcases List.mem_or_eq_of_mem_set hw with hw | hw
    · exact (h.resolving call' t m w hw).concat
    · obtain ⟨-, hphase'⟩ := Prod.mk.inj hw
      exact hphase t m w hphase'.symm

/-- The model that an update finds is backed. -/
theorem AllBacked.get (h : AllBacked parse clock past phases s)
    (hget : InMemoryModelRegistry.get ctx modelId s = some cur) : Backed parse clock past cur := by
  obtain ⟨rs, hlookup, -, hlast⟩ := lookup_of_get hget
  exact h.stored _ (mem_of_lookup hlookup) cur (List.mem_of_getLast? hlast)

/-- The revisions after an update: those that were there, the last one with a stamp, and the new
one. -/
theorem AllBacked.revisions (h : AllBacked parse clock past phases s)
    (hget : InMemoryModelRegistry.get ctx modelId s = some cur)
    (hr : Backed parse clock (past ++ [e]) r) {stamp : Option TimeValue} :
    ∀ r' ∈ (InMemoryModelRegistry.revisions ctx modelId s).dropLast ++
        [{ cur with supersededAt := stamp }, r], Backed parse clock (past ++ [e]) r' := by
  obtain ⟨rs, hlookup, hrs, -⟩ := lookup_of_get hget
  intro r' hr'
  rcases List.mem_append.mp hr' with hr' | hr'
  · rw [hrs] at hr'
    exact (h.stored _ (mem_of_lookup hlookup) r' (List.dropLast_subset _ hr')).concat
  · rcases List.mem_cons.mp hr' with rfl | hr'
    · refine (h.get hget).concat.congr rfl rfl ?_ ?_
      · exact fun _ => ⟨rfl, rfl⟩
      · exact fun _ => ⟨rfl, rfl⟩
    · obtain rfl := List.mem_singleton.mp hr'
      exact hr

/-- **The revision of a probe is backed** by the event that records it, and so is the one with the
identifier that the probe has reported. -/
theorem Backed.probe {probe : Probe} (h : Backed parse clock past cur)
    (hrecords : RecordsProbe parse clock past e cur.tenantId cur.modelId probe cur) :
    Backed parse clock (past ++ [e]) (InMemoryModelRegistry.nextRevision cur
        (InMemoryModelRegistry.probePatch probe
          ((ModelServer.start clock).run parse past).shared.clock)
        ((ModelServer.start clock).run parse past).shared.clock) ∧
      ∀ id, probe.resolvedModelId = some id →
        Backed parse clock (past ++ [e]) { InMemoryModelRegistry.nextRevision cur
          (InMemoryModelRegistry.probePatch probe
            ((ModelServer.start clock).run parse past).shared.clock)
          ((ModelServer.start clock).run parse past).shared.clock with
            resolvedModelId := some id } := by
  have hsame := probed_probePatch cur probe ((ModelServer.start clock).run parse past).shared.clock
  constructor
  · refine ⟨fun id hid => ?_, fun _ => ⟨past, e, [], probe, cur, rfl, hrecords, hsame.symm, rfl⟩⟩
    obtain ⟨before, e', later, probe', cur', hpast, hrec, hof, hid'⟩ := h.concat.resolved id hid
    exact ⟨before, e', later, probe', cur', hpast, hrec, hof.trans hsame.symm, hid'⟩
  · intro id hid
    refine ⟨fun id' hid' => ?_, fun _ => ⟨past, e, [], probe, cur, rfl, hrecords, hsame.symm, rfl⟩⟩
    exact ⟨past, e, [], probe, cur, rfl, hrecords, hsame.symm, hid.trans hid'⟩

/-- The step of a probe at which it updates the model. -/
theorem AllBacked.records {probe : Probe}
    (h : AllBacked parse clock past phases ((ModelServer.start clock).run parse past).shared)
    (hcall : (calls (ModelEvent.toAsync parse) past)[i]? = some (.recordProbe ctx modelId probe))
    {task : Task ModelStore ModelPoint ModelAnswer}
    (ht : ((ModelServer.start clock).run parse past).tasks[i]? = some task)
    (hpoint : task.point = some (.probeUpdate ctx.tenantId modelId))
    (hget : InMemoryModelRegistry.get ctx modelId
      ((ModelServer.start clock).run parse past).shared = some cur)
    (hid : isModelId modelId = true) :
    RecordsProbe parse clock past (.resume i) cur.tenantId cur.modelId probe cur := by
  obtain ⟨htenant, hmodel, -⟩ := h.owned.get hid hget
  refine ⟨⟨i, ctx, rfl, htenant.symm, ?_, task, ht, ?_⟩, ctx, htenant.symm, ?_⟩
  · rw [hmodel]
    exact hcall
  · rw [htenant, hmodel]
    exact hpoint
  · rw [hmodel]
    exact hget

/-- **What an operation keeps** that respects what probes have found. -/
theorem AllBacked.step
    (h : AllBacked parse clock past phases ((ModelServer.start clock).run parse past).shared)
    (hi : phases[i]? = some (call, phase))
    (hcall : (calls (ModelEvent.toAsync parse) past)[i]? = some call) {point : ModelPoint}
    {task : Task ModelStore ModelPoint ModelAnswer}
    (ht : ((ModelServer.start clock).run parse past).tasks[i]? = some task)
    (hpoint : task.point = some point) {update : ModelStore → ModelStore}
    (hop : ModelOp parse (· = call) phase point update
      ((ModelServer.start clock).run parse past).shared phase')
    (hnot : NotProbed call) (hrespects : RespectsProbes parse clock past (.resume i)) :
    AllBacked parse clock (past ++ [.resume i]) (phases.set i (call, phase'))
      (update ((ModelServer.start clock).run parse past).shared) := by
  have howned := (h.owned.step hi (mem_of_mem_calls (List.mem_of_getElem? hcall)) hop).concat
    (e := .resume i)
  cases hop with
  | same _ hupdate =>
    rw [hupdate, set_self hi]
    exact h.concat
  | @register ctx input r _ _ hQ hregister =>
    obtain ⟨-, -, hr, hs'⟩ := InMemoryModelRegistry.register_eq_ok hregister
    rw [hs'] at howned ⊢
    refine h.write howned ?_ (by rintro t m w ⟨⟩)
    intro r' hr'
    rw [List.mem_singleton.mp hr', hr]
    refine ⟨by rintro id ⟨⟩, fun hprobed => ?_⟩
    -- nothing establishes what a new model can do but the operator
    rw [← hQ] at hnot
    rw [NotProbed] at hnot
    rcases source_cases hprobed with hclaims | ⟨-, hunknown⟩
    · exact absurd hclaims hnot
    · cases hunknown
  | @update ctx modelId patch r _ _ hQ hupdate =>
    obtain ⟨cur, hget, hvalid, hr, hs'⟩ := InMemoryModelRegistry.update_eq_ok hupdate
    rw [hs'] at howned ⊢
    rw [← hQ] at hnot hcall
    have hpatch := hrespects ctx modelId patch cur hcall ⟨task, ht, hpoint⟩ hget hvalid
    refine h.write howned (h.revisions hget ?_) (by rintro t m w ⟨⟩)
    rw [hr]
    exact (h.get hget).concat.update hpatch hnot
  | @probe ctx modelId probe r _ _ hQ hresolved hupdate =>
    obtain ⟨cur, hget, hvalid, hr, hs'⟩ := InMemoryModelRegistry.update_eq_ok hupdate
    rw [hs'] at howned ⊢
    rw [← hQ] at hcall
    have hrecords := h.records hcall ht hpoint hget hvalid.isId
    refine h.write howned (h.revisions hget ?_) (by rintro t m w ⟨⟩)
    rw [hr]
    exact ((h.get hget).probe hrecords).1
  | @resolving ctx modelId probe r resolved _ _ hQ hresolved hupdate =>
    obtain ⟨cur, hget, hvalid, hr, hs'⟩ := InMemoryModelRegistry.update_eq_ok hupdate
    rw [hs'] at howned ⊢
    rw [← hQ] at hcall
    have hrecords := h.records hcall ht hpoint hget hvalid.isId
    obtain ⟨hprobe, hwritten⟩ := (h.get hget).probe hrecords
    refine h.write howned (h.revisions hget ?_) ?_
    · rw [hr]
      exact hprobe
    · rintro t m w ⟨⟩
      rw [hr]
      exact hwritten resolved (Option.eq_some_of_filter_eq_some hresolved)
  | @resolve ctx modelId w _ _ hupdate =>
    rw [hupdate] at howned ⊢
    refine h.write howned ?_ (by rintro t m w ⟨⟩)
    intro r' hr'
    rcases List.mem_append.mp hr' with hr' | hr'
    · have hold := List.dropLast_subset _ hr'
      unfold InMemoryModelRegistry.revisions at hold
      cases hlookup : ((ModelServer.start clock).run parse past).shared.models.lookup
          (InMemoryModelRegistry.key ctx.tenantId modelId) with
      | none =>
        rw [hlookup] at hold
        exact absurd hold List.not_mem_nil
      | some rs =>
        rw [hlookup] at hold
        exact (h.stored _ (mem_of_lookup hlookup) r' hold).concat
    · obtain rfl := List.mem_singleton.mp hr'
      exact (h.resolving _ _ _ _ (List.mem_of_getElem? hi)).concat

end run

/-- **Probed facts belong to what was probed**, in every run in which each accepted update respects what
probes have found. -/
theorem probed_facts (parse : UrlParser) (clock : TimeValue) (events : List ModelEvent)
    (hnot : ∀ e ∈ events, NotProbed e)
    (hrespects : ∀ past e later, events = past ++ e :: later → RespectsProbes parse clock past e) :
    ∀ p ∈ ((ModelServer.start clock).run parse events).shared.models, ∀ r ∈ p.2,
      Backed parse clock events r := by
  obtain ⟨phases, -, -, h⟩ : ∃ phases, _ ∧ _ ∧ AllBacked parse clock events phases
      ((ModelServer.start clock).run parse events).shared := by
    refine Pool.run_calls .idle
      (fun e t ht => ModelEvent.follows (I := fun _ => True) (Q := fun call => call = e) rfl ht)
      (fun _ _ _ _ => trivial) ?_ ?_ ?_ ?_ events ?_
    · refine ⟨⟨?_, ?_, ?_⟩, ?_, ?_⟩
      · exact fun p hp => absurd hp List.not_mem_nil
      · exact fun p hp => absurd hp List.not_mem_nil
      · exact fun call t m w hw => absurd hw List.not_mem_nil
      · exact fun p hp => absurd hp List.not_mem_nil
      · exact fun call t m w hw => absurd hw List.not_mem_nil
    · intro past phases e t s _ h
      refine ⟨h.owned.spawn, h.concat.stored, fun call t m w hw => ?_⟩
      rcases List.mem_append.mp hw with hw | hw
      · exact h.concat.resolving call t m w hw
      · rw [List.mem_singleton] at hw
        cases hw
    · exact fun past phases e i s _ h => h.concat
    · intro past phases e update s he h
      cases e with
      | tick now =>
        obtain rfl := Event.other.inj he
        have hold := h.concat (e := .tick now)
        exact ⟨⟨hold.owned.nonempty, hold.owned.stored, hold.owned.resolving⟩, hold.stored,
          hold.resolving⟩
      | register ctx input => cases he
      | update ctx modelId patch => cases he
      | recordProbe ctx modelId probe => cases he
      | resume i => cases he
    · intro past e later i call phases phase phase' point update next hevents he ht hcall hi hQ h
      cases e with
      | resume j =>
        obtain rfl := Event.resume.inj he
        have hmem : call ∈ events := by
          rw [hevents]
          exact List.mem_append_left _ (mem_of_mem_calls (List.mem_of_getElem? hcall))
        exact h.step hi hcall ht rfl hQ (hnot call hmem) (hrespects past _ later hevents)
      | register ctx input => cases he
      | update ctx modelId patch => cases he
      | recordProbe ctx modelId probe => cases he
      | tick now => cases he
  exact h.stored

/-! ## A probe, and another model -/

section examples

/-- The model is registered and probed. -/
def probedThen (e : ModelEvent) : List ModelEvent :=
  [.register owner cloudModel, .resume 0, .recordProbe owner (js "gpt") aliasProbe, .resume 1,
    .resume 1, .resume 1, e, .resume 2]

/-- The model is replaced. -/
def replaced : ModelPatch := { modelIdentifier := some (js "gpt-5") }

/-- A probed model is renamed. -/
theorem probed_facts_renamed : ∃ r, InMemoryModelRegistry.getRevision owner (js "gpt") 3
      ((ModelServer.start midnight).run (fun _ => none)
        (probedThen (.update owner (js "gpt") renamed))).shared = some r ∧
    r.resolvedModelId = some (js "gpt-4o-2024") ∧
    Backed (fun _ => none) midnight (probedThen (.update owner (js "gpt") renamed)) r := by
  refine ⟨_, rfl, rfl, probed_facts (fun _ => none) midnight
    (probedThen (.update owner (js "gpt") renamed)) ?_ ?_ (js "t:gpt", _)
    (List.mem_singleton_self _) _ (.tail _ (.tail _ (.head _)))⟩
  · intro e he
    simp only [probedThen, List.mem_cons, List.not_mem_nil, or_false] at he
    rcases he with rfl | rfl | rfl | rfl | rfl | rfl | rfl | rfl
    all_goals simp [NotProbed, cloudModel, renamed, ModelPatch.source]
  · refine forall_steps_cons trivial (forall_steps_cons ?_ (forall_steps_cons trivial
      (forall_steps_cons ?_ (forall_steps_cons ?_ (forall_steps_cons ?_ (forall_steps_cons trivial
        (forall_steps_cons ?_ fun _ _ _ h => absurd h (by simp))))))))
    · rintro _ _ _ _ ⟨⟩
    · rintro _ _ _ _ ⟨⟩
    · rintro _ _ _ _ ⟨⟩
    · rintro _ _ _ _ ⟨⟩
    · rintro _ _ _ cur ⟨⟩ - - -
      refine ⟨fun _ => ⟨?_, ?_, ?_⟩, fun _ _ => ⟨⟨?_, ?_, ?_⟩, rfl⟩⟩
      all_goals rintro _ ⟨⟩

/-- **A fact of another model**: the model is replaced, and the new revision has the identifier that was
reported for the old one. -/
theorem fact_of_another_model :
    (∀ e ∈ probedThen (.update owner (js "gpt") replaced), NotProbed e) ∧
    ∃ r, InMemoryModelRegistry.get owner (js "gpt") ((ModelServer.start midnight).run (fun _ => none)
        (probedThen (.update owner (js "gpt") replaced))).shared = some r ∧
      ¬ Backed (fun _ => none) midnight (probedThen (.update owner (js "gpt") replaced)) r := by
  constructor
  · intro e he
    simp only [probedThen, List.mem_cons, List.not_mem_nil, or_false] at he
    rcases he with rfl | rfl | rfl | rfl | rfl | rfl | rfl | rfl
    all_goals simp [NotProbed, cloudModel, replaced, ModelPatch.source]
  · refine ⟨_, rfl, fun h => ?_⟩
    obtain ⟨past, e, later, probe, cur, hevents, hrecords, hof, -⟩ := h.resolved _ rfl
    have hnever : ∀ past e later, probedThen (.update owner (js "gpt") replaced) = past ++ e :: later →
        RecordsProbe (fun _ => none) midnight past e (js "t") (js "gpt") probe cur →
        cur.modelIdentifier = js "gpt-4o" := by
      refine forall_steps_cons ?_ (forall_steps_cons ?_ (forall_steps_cons ?_
        (forall_steps_cons ?_ (forall_steps_cons ?_ (forall_steps_cons ?_ (forall_steps_cons ?_
          (forall_steps_cons ?_ fun _ _ _ h => absurd h (by simp))))))))
      · rintro ⟨⟨_, _, ⟨⟩, _⟩, _⟩
      · rintro ⟨⟨_, _, ⟨⟩, -, ⟨⟩, _⟩, _⟩
      · rintro ⟨⟨_, _, ⟨⟩, _⟩, _⟩
      · rintro ⟨⟨_, _, ⟨⟩, -, -, _, ⟨⟩, ⟨⟩⟩, _⟩
      · rintro ⟨-, ⟨_, _, _⟩, ⟨⟩, ⟨⟩⟩
        rfl
      · rintro ⟨⟨_, _, ⟨⟩, -, -, _, ⟨⟩, ⟨⟩⟩, _⟩
      · rintro ⟨⟨_, _, ⟨⟩, _⟩, _⟩
      · rintro ⟨⟨_, _, ⟨⟩, -, ⟨⟩, _⟩, _⟩
    have hmodel := hnever past e later hevents hrecords
    have hreplaced : cur.modelIdentifier = js "gpt-5" := congrArg (·.2.1) hof
    rw [hmodel] at hreplaced
    revert hreplaced
    decide

end examples

end AgentEval.Models
