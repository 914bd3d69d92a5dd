import AgentEval.Async.Calls
import AgentEval.Models.AppendOnly

/-!
# Tenants of the model registry

All models are in one map. The key of a model is its tenant, a colon, and its identifier; an
identifier has no colon, a tenant may have one. A list takes every key that begins with the tenant and
a colon.

* **`tenants_isolated_iff`**: a tenant reads its own models only, and nobody else changes what it
  reads, as long as no model is registered under a tenant whose name goes on from its own with a
  colon.
* **`tenant_leak`**: the tenant `a` reads a model of the tenant `a:b`.
-/

namespace AgentEval.Models

open Js Store Api Async

/-! ## Keys -/

section keys

variable {t tenantId modelId : JsString}

/-- A colon is one unit. -/
theorem js_colon : js ":" = [58] := rfl

/-- An identifier has no colon. -/
theorem colon_not_mem (hid : isModelId modelId = true) : (58 : UInt16) ∉ modelId := by
  cases modelId with
  | nil => exact List.not_mem_nil
  | cons u rest =>
    unfold isModelId at hid
    rw [Bool.and_eq_true, Bool.and_eq_true, List.all_eq_true] at hid
    obtain ⟨⟨hfirst, hrest⟩, -⟩ := hid
    intro hmem
    rcases List.mem_cons.mp hmem with rfl | hmem
    · revert hfirst
      decide
    · have hunit := hrest _ hmem
      revert hunit
      decide

/-- **The keys that begin with a tenant**: its own, and those of the tenants whose names go on from
it with a colon. -/
theorem isPrefix_key (hid : isModelId modelId = true) :
    t ++ js ":" <+: InMemoryModelRegistry.key tenantId modelId ↔
      t = tenantId ∨ t ++ js ":" <+: tenantId := by
  unfold InMemoryModelRegistry.key
  rw [js_colon]
  constructor
  · rintro ⟨rest, hrest⟩
    rw [List.append_assoc tenantId] at hrest
    rcases List.append_eq_append_iff.mp hrest with ⟨tail, htail, -⟩ | ⟨tail, htail, hid'⟩
    · exact .inr ⟨tail, htail.symm⟩
    · -- the colon of the tenant is at or after that of the key
      cases tail with
      | nil =>
        rw [List.append_nil] at htail
        exact .inr ⟨[], by rw [List.append_nil, htail]⟩
      | cons u tail =>
        obtain ⟨rfl, rfl⟩ := List.cons.inj hid'
        rcases List.eq_nil_or_concat tail with rfl | ⟨tail, v, rfl⟩
        · exact .inl (List.append_inj_left' htail rfl)
        · exfalso
          rw [List.concat_eq_append, ← List.cons_append, ← List.append_assoc] at htail
          obtain rfl := List.singleton_inj.mp (List.append_inj_right' htail rfl)
          exact colon_not_mem hid (by simp)
  · rintro (rfl | hstarts)
    · exact List.prefix_append ..
    · rw [List.append_assoc]
      exact hstarts.trans (List.prefix_append ..)

/-- A tenant's name does not go on from itself. -/
theorem not_isPrefix_self (t : JsString) : ¬ t ++ js ":" <+: t := by
  intro h
  have hle := h.length_le
  rw [List.length_append] at hle
  exact absurd hle (Nat.not_le_of_lt (Nat.lt_add_of_pos_right (by decide)))

/-- **A key has one tenant and one identifier.** -/
theorem key_inj {tenantId' modelId' : JsString} (hid : isModelId modelId = true)
    (hid' : isModelId modelId' = true)
    (h : InMemoryModelRegistry.key tenantId modelId = InMemoryModelRegistry.key tenantId' modelId') :
    tenantId = tenantId' ∧ modelId = modelId' := by
  have hself : tenantId ++ js ":" <+: InMemoryModelRegistry.key tenantId modelId :=
    List.prefix_append ..
  have hself' : tenantId' ++ js ":" <+: InMemoryModelRegistry.key tenantId' modelId' :=
    List.prefix_append ..
  rw [h] at hself
  rw [← h] at hself'
  have htenant : tenantId = tenantId' := by
    rcases (isPrefix_key hid').mp hself with heq | hstarts
    · exact heq
    · rcases (isPrefix_key hid).mp hself' with heq | hstarts'
      · exact heq.symm
      · have hloop : tenantId <+: tenantId' := (List.prefix_append ..).trans hstarts
        exact absurd (hstarts'.trans hloop) (not_isPrefix_self tenantId')
  subst htenant
  exact ⟨rfl, List.append_cancel_left h⟩

end keys

/-! ## What a tenant reads -/

/-- The tenant of a call. -/
def ModelEvent.tenant : ModelEvent → Option JsString
  | register ctx _ => some ctx.tenantId
  | update ctx _ _ => some ctx.tenantId
  | recordProbe ctx _ _ => some ctx.tenantId
  | resume _ => none
  | tick _ => none

/-- A revision of a model that a call of a run has registered. -/
structure Registered (events : List ModelEvent) (r : RegisteredModel) : Prop where
  isId : isModelId r.modelId = true
  called : ∃ ctx input, .register ctx input ∈ events ∧ ctx.tenantId = r.tenantId ∧
    input.modelId = r.modelId

/-- Everything that is read under a tenant has a property. -/
structure ReadsOnly (localeLE : JsString → JsString → Bool) (t : JsString)
    (P : RegisteredModel → Prop) (s : ModelStore) : Prop where
  list : ∀ ctx : TenantContext, ctx.tenantId = t →
    ∀ r ∈ InMemoryModelRegistry.list localeLE ctx s, P r
  get : ∀ ctx : TenantContext, ctx.tenantId = t →
    ∀ modelId, ∀ r ∈ InMemoryModelRegistry.get ctx modelId s, P r
  getRevision : ∀ ctx : TenantContext, ctx.tenantId = t →
    ∀ modelId n, ∀ r ∈ InMemoryModelRegistry.getRevision ctx modelId n s, P r

/-- The same is read under a tenant in two states. -/
structure ReadsSame (localeLE : JsString → JsString → Bool) (t : JsString)
    (s s' : ModelStore) : Prop where
  list : ∀ ctx : TenantContext, ctx.tenantId = t →
    InMemoryModelRegistry.list localeLE ctx s' = InMemoryModelRegistry.list localeLE ctx s
  get : ∀ ctx : TenantContext, ctx.tenantId = t → ∀ modelId,
    InMemoryModelRegistry.get ctx modelId s' = InMemoryModelRegistry.get ctx modelId s
  getRevision : ∀ ctx : TenantContext, ctx.tenantId = t → ∀ modelId n,
    InMemoryModelRegistry.getRevision ctx modelId n s' =
      InMemoryModelRegistry.getRevision ctx modelId n s

/-- No model is registered under a tenant whose name goes on from this one with a colon. -/
def Separate (t : JsString) (s : ModelStore) : Prop :=
  ∀ p ∈ s.models, ∀ r ∈ p.2, ¬ t ++ js ":" <+: r.tenantId

/-- The models under keys that begin with a tenant and a colon. -/
def view (t : JsString) (s : ModelStore) : List (JsString × List RegisteredModel) :=
  s.models.filter fun p => (t ++ js ":").isPrefixOf p.1

section reads

variable {localeLE : JsString → JsString → Bool} {t modelId : JsString} {s s' : ModelStore}
  {ctx : TenantContext} {past : List ModelEvent} {r : RegisteredModel}

/-- The revisions of a model are read from the view of its tenant. -/
theorem revisions_eq_view : InMemoryModelRegistry.revisions ctx modelId s =
    ((view ctx.tenantId s).lookup (InMemoryModelRegistry.key ctx.tenantId modelId)).getD [] := by
  unfold view
  rw [@lookup_filter _ _ fun k => (ctx.tenantId ++ js ":").isPrefixOf k]
  · rfl
  · exact List.isPrefixOf_iff_prefix.mpr (List.prefix_append ..)

/-- **A tenant reads what is in its view.** -/
theorem readsSame_of_view (h : view t s' = view t s) : ReadsSame localeLE t s s' := by
  have hrevisions : ∀ ctx : TenantContext, ctx.tenantId = t → ∀ modelId,
      InMemoryModelRegistry.revisions ctx modelId s' =
        InMemoryModelRegistry.revisions ctx modelId s := by
    rintro ctx rfl modelId
    rw [revisions_eq_view, revisions_eq_view, h]
  refine ⟨?_, ?_, ?_⟩
  · rintro ctx rfl
    unfold view at h
    unfold InMemoryModelRegistry.list
    rw [h]
  · intro ctx hctx modelId
    unfold InMemoryModelRegistry.get
    rw [hrevisions ctx hctx]
  · intro ctx hctx modelId n
    unfold InMemoryModelRegistry.getRevision
    rw [hrevisions ctx hctx]

/-- The revisions that are read under a tenant are in its view. -/
theorem mem_view_of_mem_revisions (h : r ∈ InMemoryModelRegistry.revisions ctx modelId s) :
    ∃ p ∈ view ctx.tenantId s, r ∈ p.2 := by
  rw [revisions_eq_view] at h
  cases hlookup : (view ctx.tenantId s).lookup
    (InMemoryModelRegistry.key ctx.tenantId modelId) with
  | none =>
    rw [hlookup] at h
    exact absurd h List.not_mem_nil
  | some rs =>
    rw [hlookup] at h
    exact ⟨_, mem_of_lookup hlookup, h⟩

/-- A property of everything in the view of a tenant. -/
theorem readsOnly_of_view {P : RegisteredModel → Prop} (h : ∀ p ∈ view t s, ∀ r ∈ p.2, P r) :
    ReadsOnly localeLE t P s := by
  refine ⟨?_, ?_, ?_⟩
  · rintro ctx rfl r hr
    unfold InMemoryModelRegistry.list at hr
    rw [List.mem_mergeSort] at hr
    obtain ⟨p, hp, hlast⟩ := List.mem_filterMap.mp hr
    exact h p hp r (List.mem_of_getLast? hlast)
  · rintro ctx rfl modelId r hr
    obtain ⟨p, hp, hmem⟩ := mem_view_of_mem_revisions (List.mem_of_getLast? hr)
    exact h p hp r hmem
  · rintro ctx rfl modelId n r hr
    obtain ⟨p, hp, hmem⟩ := mem_view_of_mem_revisions (List.mem_of_find?_eq_some hr)
    exact h p hp r hmem

end reads

/-! ## What the calls keep -/

/-- Every revision is stored under its key and of a model that was registered, and a probe that will
write one was called by the tenant of that model. -/
structure Owned (past : List ModelEvent) (phases : List (ModelEvent × ModelPhase))
    (s : ModelStore) : Prop where
  nonempty : ∀ p ∈ s.models, p.2 ≠ []
  stored : ∀ p ∈ s.models, ∀ r ∈ p.2, r.key = p.1 ∧ Registered past r
  resolving : ∀ call t m w, (call, .resolving t m w) ∈ phases →
    call.tenant = some t ∧ w.tenantId = t ∧ w.modelId = m ∧ Registered past w

section owned

variable {parse : UrlParser} {past : List ModelEvent} {phases : List (ModelEvent × ModelPhase)}
  {s s' : ModelStore} {e call : ModelEvent} {phase phase' : ModelPhase} {i : ℕ}
  {ctx : TenantContext} {modelId : JsString} {patch : ModelPatch} {r cur : RegisteredModel}

/-- What a run has registered stays registered. -/
theorem Registered.concat (h : Registered past r) : Registered (past ++ [e]) r := by
  obtain ⟨hid, ctx, input, hcall, htenant, hmodel⟩ := h
  exact ⟨hid, ctx, input, List.mem_append_left _ hcall, htenant, hmodel⟩

/-- The model that an update finds is that of its tenant and identifier. -/
theorem Owned.get (h : Owned past phases s) (hid : isModelId modelId = true)
    (hget : InMemoryModelRegistry.get ctx modelId s = some cur) :
    cur.tenantId = ctx.tenantId ∧ cur.modelId = modelId ∧ Registered past cur := by
  obtain ⟨rs, hlookup, -, hlast⟩ := lookup_of_get hget
  obtain ⟨hkey, hcur⟩ := h.stored _ (mem_of_lookup hlookup) cur (List.mem_of_getLast? hlast)
  obtain ⟨htenant, hmodel⟩ := key_inj hcur.isId hid hkey
  exact ⟨htenant, hmodel, hcur⟩

/-- What a call does to the store: new revisions of a model of its own tenant. -/
structure WritesOwn (past : List ModelEvent) (call : ModelEvent) (s s' : ModelStore)
    (r : RegisteredModel) (rs : List RegisteredModel) : Prop where
  caller : call.tenant = some r.tenantId
  mem : r ∈ rs
  stored : ∀ r' ∈ rs, r'.key = r.key ∧ Registered past r'
  eq : s' = { s with models := setProp s.models (r.key, rs) }

/-- An update writes a model of its own tenant. -/
theorem Owned.update (h : Owned past phases s) (hcall : call.tenant = some ctx.tenantId)
    (hupdate : InMemoryModelRegistry.update parse ctx modelId patch s = (.ok r, s')) :
    r.tenantId = ctx.tenantId ∧ r.modelId = modelId ∧ Registered past r ∧
      ∃ rs, WritesOwn past call s s' r rs := by
  obtain ⟨cur, hget, hvalid, hr, rfl⟩ := InMemoryModelRegistry.update_eq_ok hupdate
  obtain ⟨htenant, hmodel, hcur⟩ := h.get hvalid.isId hget
  obtain ⟨rs, hlookup, hrs, -⟩ := lookup_of_get hget
  have hrtenant : r.tenantId = ctx.tenantId := by
    rw [hr]
    exact htenant
  have hrmodel : r.modelId = modelId := by
    rw [hr]
    exact hmodel
  have hregistered : Registered past r := by
    obtain ⟨hid, ctx', input, hregister, htenant', hmodel'⟩ := hcur
    refine ⟨?_, ctx', input, hregister, ?_, ?_⟩
    · rw [hrmodel, ← hmodel]
      exact hid
    · rw [hrtenant, ← htenant]
      exact htenant'
    · rw [hrmodel, ← hmodel]
      exact hmodel'
  have hkey : r.key = InMemoryModelRegistry.key ctx.tenantId modelId := by
    unfold RegisteredModel.key
    rw [hrtenant, hrmodel]
  refine ⟨hrtenant, hrmodel, hregistered,
    rs.dropLast ++ [{ cur with supersededAt := some s.clock }, r], ?_, ?_, ?_, ?_⟩
  · rw [hcall, hrtenant]
  · simp
  · intro r' hr'
    rcases List.mem_append.mp hr' with hr' | hr'
    · obtain ⟨hk, hold⟩ := h.stored _ (mem_of_lookup hlookup) r' (List.dropLast_subset _ hr')
      exact ⟨hk.trans hkey.symm, hold⟩
    · rcases List.mem_cons.mp hr' with rfl | hr'
      · refine ⟨?_, hcur.isId, hcur.called⟩
        unfold RegisteredModel.key
        rw [hrtenant, hrmodel, htenant, hmodel]
      · obtain rfl := List.mem_singleton.mp hr'
        exact ⟨rfl, hregistered⟩
  · rw [hkey, hrs]

/-- **What an operation does**: nothing, or it writes a model of the tenant that has called it. -/
theorem Owned.operation (h : Owned past phases s) (hi : phases[i]? = some (call, phase))
    (hcall : call ∈ past) {point : ModelPoint} {update : ModelStore → ModelStore}
    (hop : ModelOp parse (· = call) phase point update s phase') :
    (update s = s ∧ phase' = phase) ∨
      (∃ r rs, WritesOwn past call s (update s) r rs) ∧
        ∀ t m w, phase' = .resolving t m w →
          call.tenant = some t ∧ w.tenantId = t ∧ w.modelId = m ∧ Registered past w := by
  cases hop with
  | same hpoint hupdate => exact .inl ⟨hupdate, rfl⟩
  | @register ctx input r _ _ hQ hregister =>
    obtain ⟨hvalid, -, hr, hs'⟩ := InMemoryModelRegistry.register_eq_ok hregister
    refine .inr ⟨⟨r, [r], ?_, List.mem_singleton_self r, ?_, ?_⟩, ?_⟩
    · rw [← hQ, hr]
      rfl
    · intro r' hr'
      obtain rfl := List.mem_singleton.mp hr'
      refine ⟨rfl, ?_, ctx, input, hQ ▸ hcall, ?_, ?_⟩
      · rw [hr]
        exact hvalid.isId
      · rw [hr]
        rfl
      · rw [hr]
        rfl
    · rw [hs', show r.key = InMemoryModelRegistry.key ctx.tenantId input.modelId by rw [hr]; rfl]
    · rintro t m w ⟨⟩
  | update hQ hupdate =>
    obtain ⟨-, -, -, rs, hwrites⟩ := h.update (congrArg ModelEvent.tenant hQ.symm) hupdate
    refine .inr ⟨⟨_, rs, hwrites⟩, ?_⟩
    rintro t m w ⟨⟩
  | probe hQ hresolved hupdate =>
    obtain ⟨-, -, -, rs, hwrites⟩ := h.update (congrArg ModelEvent.tenant hQ.symm) hupdate
    refine .inr ⟨⟨_, rs, hwrites⟩, ?_⟩
    rintro t m w ⟨⟩
  | resolving hQ hresolved hupdate =>
    have hcaller := congrArg ModelEvent.tenant hQ.symm
    obtain ⟨htenant, hmodel, hregistered, rs, hwrites⟩ := h.update hcaller hupdate
    refine .inr ⟨⟨_, rs, hwrites⟩, ?_⟩
    rintro t m w ⟨⟩
    exact ⟨hcaller, htenant, hmodel, hregistered.isId, hregistered.called⟩
  | @resolve ctx modelId w _ _ hupdate =>
    obtain ⟨hcaller, htenant, hmodel, hregistered⟩ :=
      h.resolving _ _ _ _ (List.mem_of_getElem? hi)
    have hkey : InMemoryModelRegistry.key ctx.tenantId modelId = w.key := by
      unfold RegisteredModel.key
      rw [htenant, hmodel]
    refine .inr ⟨⟨w, (InMemoryModelRegistry.revisions ctx modelId s).dropLast ++ [w], ?_, ?_, ?_,
      ?_⟩, ?_⟩
    · rw [hcaller, htenant]
    · simp
    · intro r' hr'
      rcases List.mem_append.mp hr' with hr' | hr'
      · obtain ⟨p, hp, hmem⟩ : ∃ p ∈ s.models, p.1 = w.key ∧ r' ∈ p.2 := by
          have hold := List.dropLast_subset _ hr'
          unfold InMemoryModelRegistry.revisions at hold
          rw [hkey] at hold
          cases hlookup : s.models.lookup w.key with
          | none =>
            rw [hlookup] at hold
            exact absurd hold List.not_mem_nil
          | some rs =>
            rw [hlookup] at hold
            exact ⟨_, mem_of_lookup hlookup, rfl, hold⟩
        obtain ⟨hk, hold⟩ := h.stored p hp r' hmem.2
        exact ⟨hk.trans hmem.1, hold⟩
      · obtain rfl := List.mem_singleton.mp hr'
        exact ⟨rfl, hregistered⟩
    · rw [hupdate, ← hkey]
      rfl
    · rintro t m w ⟨⟩

/-- What was kept is kept when an event is added. -/
theorem Owned.concat (h : Owned past phases s) : Owned (past ++ [e]) phases s := by
  refine ⟨h.nonempty, fun p hp r hr => ?_, fun call t m w hw => ?_⟩
  · obtain ⟨hkey, hregistered⟩ := h.stored p hp r hr
    exact ⟨hkey, hregistered.concat⟩
  · obtain ⟨hcaller, htenant, hmodel, hregistered⟩ := h.resolving call t m w hw
    exact ⟨hcaller, htenant, hmodel, hregistered.concat⟩

/-- A new call has written nothing. -/
theorem Owned.spawn (h : Owned past phases s) :
    Owned (past ++ [e]) (phases ++ [(e, .idle)]) s := by
  refine ⟨h.nonempty, h.concat.stored, fun call t m w hw => ?_⟩
  rcases List.mem_append.mp hw with hw | hw
  · exact h.concat.resolving call t m w hw
  · rw [List.mem_singleton] at hw
    cases hw

/-- What was kept is kept by an operation. -/
theorem Owned.step (h : Owned past phases s) (hi : phases[i]? = some (call, phase))
    (hcall : call ∈ past) {point : ModelPoint} {update : ModelStore → ModelStore}
    (hop : ModelOp parse (· = call) phase point update s phase') :
    Owned past (phases.set i (call, phase')) (update s) := by
  rcases h.operation hi hcall hop with ⟨hsame, rfl⟩ | ⟨⟨r, rs, hwrites⟩, hresolving⟩
  · rw [hsame, set_self hi]
    exact h
  · refine ⟨fun p hp => ?_, fun p hp r' hr' => ?_, fun call' t m w hw => ?_⟩
    · rw [hwrites.eq] at hp
      rcases mem_of_mem_setProp hp with rfl | hp
      · exact List.ne_nil_of_mem hwrites.mem
      · exact h.nonempty p hp
    · rw [hwrites.eq] at hp
      rcases mem_of_mem_setProp hp with rfl | hp
      · exact hwrites.stored r' hr'
      · exact h.stored p hp r' hr'
    · rcases List.mem_or_eq_of_mem_set hw with hw | hw
      · exact h.resolving call' t m w hw
      · obtain ⟨rfl, hphase⟩ := Prod.mk.inj hw
        exact hresolving t m w hphase.symm

end owned

/-! ## Every run -/

namespace ModelServer

/-- **What every run keeps.** -/
theorem run_owned (parse : UrlParser) (clock : TimeValue) (events : List ModelEvent) :
    ∃ phases, ((start clock).run parse events).Follows (fun _ => True)
        (Task.Tagged fun call => ModelOp parse (· = call)) (fun p => Answered p.2) phases ∧
      phases.map Prod.fst = calls (ModelEvent.toAsync parse) events ∧
      Owned events phases ((start clock).run parse events).shared := by
  refine Pool.run_calls .idle
    (fun e t ht => ModelEvent.follows (Q := fun call => call = e) rfl ht)
    (fun _ _ _ _ => trivial) ?_ ?_ ?_ ?_ events ?_
  · refine ⟨?_, ?_, ?_⟩
    · exact fun p hp => absurd hp List.not_mem_nil
    · exact fun p hp => absurd hp List.not_mem_nil
    · exact fun call t m w hw => absurd hw List.not_mem_nil
  · exact fun past phases e t s _ h => h.spawn
  · exact fun past phases e i s _ h => h.concat
  · intro past phases e update s he h
    cases e with
    | tick now =>
      obtain rfl := Event.other.inj he
      exact ⟨h.nonempty, h.concat.stored, h.concat.resolving⟩
    | register ctx input => cases he
    | update ctx modelId patch => cases he
    | recordProbe ctx modelId probe => cases he
    | resume i => cases he
  · intro past e later i call phases phase phase' point update next _ _ _ hcall hi hQ h
    exact (h.step hi (mem_of_mem_calls (List.mem_of_getElem? hcall)) hQ).concat

variable {parse : UrlParser} {localeLE : JsString → JsString → Bool} {clock : TimeValue}
  {t : JsString} {past : List ModelEvent}

/-- **What a tenant reads is its own**, where no model is registered under a longer name. -/
theorem readsOnly (h : Separate t ((start clock).run parse past).shared) :
    ReadsOnly localeLE t (fun r => r.tenantId = t ∧ Registered past r)
      ((start clock).run parse past).shared := by
  obtain ⟨phases, -, -, howned⟩ := run_owned parse clock past
  apply readsOnly_of_view
  intro p hp r hr
  obtain ⟨hp, hstarts⟩ := List.mem_filter.mp hp
  obtain ⟨hkey, hregistered⟩ := howned.stored p hp r hr
  rw [List.isPrefixOf_iff_prefix, ← hkey] at hstarts
  have htenant := ((isPrefix_key hregistered.isId).mp hstarts).resolve_right (h p hp r hr)
  exact ⟨htenant.symm, hregistered⟩

/-- **A call of another tenant changes nothing**, where it registers no model under a longer name. -/
theorem readsSame {i : ℕ} {call : ModelEvent}
    (hcall : (calls (ModelEvent.toAsync parse) past)[i]? = some call) (ht : call.tenant ≠ some t)
    (h : Separate t ((start clock).run parse (past ++ [.resume i])).shared) :
    ReadsSame localeLE t ((start clock).run parse past).shared
      ((start clock).run parse (past ++ [.resume i])).shared := by
  obtain ⟨phases, hfollows, hcalls, howned⟩ := run_owned parse clock past
  apply readsSame_of_view
  have hrun : (start clock).run parse (past ++ [.resume i]) =
      ((start clock).run parse past).step parse (.resume i) := Pool.runBy_concat ..
  rw [hrun] at h ⊢
  rcases hfollows.resume_cases trivial i with
    hsame | ⟨⟨call', phase⟩, ⟨_, phase'⟩, point, update, next, -, hi, ⟨-, hop⟩, hupdate⟩
  · unfold view
    rw [ModelServer.step, ModelEvent.toAsync, hsame]
  · obtain rfl : call' = call := by
      have hfst := congrArg (·[i]?) hcalls
      rw [List.getElem?_map, hi, hcall] at hfst
      exact Option.some.inj hfst
    have hmem := mem_of_mem_calls (List.mem_of_getElem? hcall)
    rw [ModelServer.step, ModelEvent.toAsync, hupdate] at h ⊢
    rcases howned.operation hi hmem hop with ⟨hsame, -⟩ | ⟨⟨r, rs, hwrites⟩, -⟩
    · rw [hsame]
    · rw [hwrites.eq] at h ⊢
      apply filter_setProp
      rw [Bool.eq_false_iff]
      intro hstarts
      obtain ⟨-, hregistered⟩ := hwrites.stored r hwrites.mem
      rcases (isPrefix_key hregistered.isId).mp (List.isPrefixOf_iff_prefix.mp hstarts) with
        heq | hlonger
      · rw [hwrites.caller, heq] at ht
        exact ht rfl
      · refine h (r.key, rs) ?_ r hwrites.mem hlonger
        exact mem_setProp_self _ _

end ModelServer

/-- **Tenants are isolated exactly** where no model is registered under a tenant whose name goes on from
this one with a colon: in every state of a run a tenant reads only models that were registered under
it, and no step of another tenant's call changes what it reads. -/
theorem tenants_isolated_iff (parse : UrlParser) (localeLE : JsString → JsString → Bool)
    (clock : TimeValue) (t : JsString) (events : List ModelEvent) :
    ((∀ past later, events = past ++ later →
        ReadsOnly localeLE t (fun r => r.tenantId = t ∧ Registered past r)
          ((ModelServer.start clock).run parse past).shared) ∧
      ∀ past i later call, events = past ++ .resume i :: later →
        (calls (ModelEvent.toAsync parse) past)[i]? = some call → call.tenant ≠ some t →
          ReadsSame localeLE t ((ModelServer.start clock).run parse past).shared
            ((ModelServer.start clock).run parse (past ++ [.resume i])).shared) ↔
      ∀ past later, events = past ++ later →
        Separate t ((ModelServer.start clock).run parse past).shared := by
  constructor
  · rintro ⟨hreads, -⟩ past later hevents p hp r hr hlonger
    obtain ⟨phases, -, -, howned⟩ := ModelServer.run_owned parse clock past
    obtain ⟨hkey, hregistered⟩ := howned.stored p hp r hr
    obtain ⟨cur, hcur⟩ := Option.isSome_iff_exists.mp
      (List.getLast?_isSome.mpr (howned.nonempty p hp))
    obtain ⟨hkey', hregistered'⟩ := howned.stored p hp cur (List.mem_of_getLast? hcur)
    -- the list of the shorter tenant has the model
    have hlisted : cur.tenantId = t := by
      refine ((hreads past later hevents).list ⟨t, [], []⟩ rfl cur ?_).1
      unfold InMemoryModelRegistry.list
      rw [List.mem_mergeSort]
      refine List.mem_filterMap.mpr ⟨p, List.mem_filter.mpr ⟨hp, ?_⟩, hcur⟩
      rw [List.isPrefixOf_iff_prefix, ← hkey]
      exact (isPrefix_key hregistered.isId).mpr (.inr hlonger)
    obtain ⟨htenant, -⟩ := key_inj hregistered.isId hregistered'.isId (hkey.trans hkey'.symm)
    rw [htenant, hlisted] at hlonger
    exact not_isPrefix_self t hlonger
  · intro hseparate
    refine ⟨fun past later hevents => ModelServer.readsOnly (hseparate past later hevents), ?_⟩
    intro past i later call hevents hcall ht
    refine ModelServer.readsSame hcall ht (hseparate _ later ?_)
    rw [List.append_assoc]
    exact hevents

/-! ## Two tenants, one name within the other -/

section examples

/-- The tenant whose name goes on from `a` with a colon. -/
def longer : TenantContext := ⟨js "a:b", js "u", []⟩

/-- The tenant `a`. -/
def shorter : TenantContext := ⟨js "a", js "u", []⟩

/-- **A tenant reads a model of another one**, in its list and under an identifier with a colon. -/
theorem tenant_leak : ∃ r,
    InMemoryModelRegistry.list (fun _ _ => true) shorter
      ((ModelServer.start midnight).run (fun _ => none)
        [.register longer cloudModel, .resume 0]).shared = [r] ∧
    InMemoryModelRegistry.get shorter (js "b:gpt")
      ((ModelServer.start midnight).run (fun _ => none)
        [.register longer cloudModel, .resume 0]).shared = some r ∧
    r.tenantId = js "a:b" := by
  refine ⟨InMemoryModelRegistry.registeredModel longer cloudModel midnight, ?_, rfl, rfl⟩
  exact List.mergeSort_singleton _

end examples

end AgentEval.Models
