import AgentEval.Models.AppendOnly

/-!
# Patches of a model

`update` takes over a patch field by field. It does not read the identifier nor the limit of the
output, and it takes an empty text or a number that counts as missing for a field that is not there.

* **`patch_applied_iff`**: an accepted update makes the revision that the patch says exactly when no
  such field of the patch differs from what the model has; a refused one changes nothing.
* **`limit_ignored`**: a new limit of the output is accepted and dropped.
-/

namespace AgentEval.Models

open Js Store InMemoryModelRegistry

/-- A patch with the identifier that it may have.
Source: `registry.ts`, `Partial<RegisterModelInput>` -/
structure FullPatch extends ModelPatch where
  /-- The identifier. -/
  modelId : Option JsString := none

/-- A revision is the current one with every field of a patch in place of its own. -/
structure Applied (current : RegisteredModel) (patch : FullPatch) (now : TimeValue)
    (next : RegisteredModel) : Prop where
  modelId : next.modelId = patch.modelId.getD current.modelId
  displayName : next.displayName = patch.displayName.getD current.displayName
  provider : next.provider = patch.provider.getD current.provider
  deploymentType : next.deploymentType = patch.deploymentType.getD current.deploymentType
  modelIdentifier : next.modelIdentifier = patch.modelIdentifier.getD current.modelIdentifier
  baseUrl : next.baseUrl = (patch.baseUrl <|> current.baseUrl)
  credentialId : next.credentialId = (patch.credentialId <|> current.credentialId)
  contextWindow : next.contextWindow = (patch.contextWindow <|> current.contextWindow)
  maxOutputTokens : next.maxOutputTokens = (patch.maxOutputTokens <|> current.maxOutputTokens)
  pricing : next.pricing = patch.pricing.getD current.pricing
  support : ∀ c, next.capabilities.support c =
    ((patch.capabilities.bind (·.support c)).getD (current.capabilities.support c))
  requiresApiKey : next.capabilities.requiresApiKey =
    (patch.capabilities.bind (·.requiresApiKey)).getD current.capabilities.requiresApiKey
  source : next.capabilities.source =
    (patch.capabilities.bind (·.source)).getD current.capabilities.source
  probedAt : next.capabilities.probedAt =
    (patch.capabilities.bind (·.probedAt) <|> current.capabilities.probedAt)
  metadata : ∀ key, next.metadata.props.lookup key =
    (patch.metadata.bind (·.props.lookup key) <|> current.metadata.props.lookup key)
  /-- What is not the operator's is kept. -/
  kept : next.tenantId = current.tenantId ∧ next.resolvedModelId = current.resolvedModelId
  /-- It is a new revision. -/
  renewed : next.revision = current.revision + 1 ∧ next.createdAt = now ∧ next.supersededAt = none

/-- A revision follows the current one, which is only stamped, and nothing else changes. -/
structure Appended (ctx : TenantContext) (modelId : JsString) (s : ModelStore)
    (current next : RegisteredModel) (s' : ModelStore) : Prop where
  own : revisions ctx modelId s' = (revisions ctx modelId s).dropLast ++
    [{ current with supersededAt := some s.clock }, next]
  others : ∀ k, k ≠ key ctx.tenantId modelId → s'.models.lookup k = s.models.lookup k
  clock : s'.clock = s.clock

/-- **What `update` takes over** of a patch: the fields that it drops are as they were. -/
structure Covered (current : RegisteredModel) (patch : FullPatch) : Prop where
  modelId : ∀ id ∈ patch.modelId, id = current.modelId
  baseUrl : some [] = patch.baseUrl → current.baseUrl = some []
  credentialId : some [] = patch.credentialId → current.credentialId = some []
  contextWindow : ∀ w ∈ patch.contextWindow, truthy w = false → current.contextWindow = some w
  maxOutputTokens : ∀ n ∈ patch.maxOutputTokens, current.maxOutputTokens = some n

section

variable {current : RegisteredModel} {patch : FullPatch} {now : TimeValue}

/-- The properties of a spread object. -/
theorem lookup_spreadObject (o : PlainObject) (patch : Option PlainObject) (key : JsString) :
    (spreadObject o patch).props.lookup key =
      (patch.bind (·.props.lookup key) <|> o.props.lookup key) := by
  have hfold : ∀ ps qs : List (JsString × JsVal), DistinctKeys ps →
      (ps.foldl setProp qs).lookup key = (ps.lookup key <|> qs.lookup key) := by
    intro ps
    induction ps with
    | nil => exact fun _ _ => rfl
    | cons p ps ih =>
      intro qs hdistinct
      have hnodup := List.nodup_cons.mp hdistinct
      rw [List.foldl_cons, ih _ hnodup.2, lookup_setProp, List.lookup_cons]
      by_cases h : key = p.1
      · subst h
        rw [if_pos rfl, beq_self_eq_true, lookup_eq_none_iff.mpr hnodup.1]
        rfl
      · rw [if_neg h, beq_false_of_ne h]
  cases patch with
  | none => rfl
  | some patch => exact hfold patch.props o.props patch.distinctKeys

/-- A text that is not empty, or else what was there. -/
theorem filter_orElse_iff {field held : Option JsString} :
    ((field <|> held).filter (· ≠ []) <|> held) = (field <|> held) ↔
      (some [] = field → held = some []) := by
  cases field with
  | none =>
    refine iff_of_true ?_ fun h => by cases h
    cases held with
    | none => rfl
    | some t =>
      cases t with
      | nil => rfl
      | cons u t => rfl
  | some t =>
    cases t with
    | nil => exact ⟨fun h _ => h, fun h => h rfl⟩
    | cons u t => exact iff_of_true rfl fun h => by cases h

/-- A number that counts, or else what was there. -/
theorem filter_truthy_iff {field held : Option Number} :
    (field.filter truthy <|> held) = (field <|> held) ↔
      ∀ w ∈ field, truthy w = false → held = some w := by
  cases field with
  | none => exact iff_of_true rfl (by simp)
  | some w =>
    rw [Option.filter_some]
    cases h : truthy w with
    | true => exact iff_of_true rfl (by simp [h])
    | false =>
      constructor
      · rintro heq v hv -
        cases hv
        exact heq
      · exact fun hheld => hheld w rfl h

/-- **The next revision has the whole patch** exactly when it is covered. -/
theorem applied_nextRevision_iff :
    Applied current patch now (nextRevision current patch.toModelPatch now) ↔
      Covered current patch := by
  constructor
  · intro h
    constructor
    · intro id hid
      have hmodel := h.modelId
      rw [hid] at hmodel
      exact hmodel.symm
    · exact filter_orElse_iff.mp h.baseUrl
    · exact filter_orElse_iff.mp h.credentialId
    · exact filter_truthy_iff.mp h.contextWindow
    · intro n hn
      have hlimit := h.maxOutputTokens
      rw [hn] at hlimit
      exact hlimit
  · intro h
    have hcapabilities : ∀ c, (current.capabilities.spread patch.capabilities).support c =
        (patch.capabilities.bind (·.support c)).getD (current.capabilities.support c) := by
      intro c
      cases patch.capabilities <;> rfl
    constructor
    · cases hid : patch.modelId with
      | none => rfl
      | some id => exact (h.modelId id hid).symm
    · rfl
    · rfl
    · rfl
    · rfl
    · exact filter_orElse_iff.mpr h.baseUrl
    · exact filter_orElse_iff.mpr h.credentialId
    · exact filter_truthy_iff.mpr h.contextWindow
    · cases hn : patch.maxOutputTokens with
      | none => rfl
      | some n => exact h.maxOutputTokens n hn
    · rfl
    · exact hcapabilities
    · change (current.capabilities.spread patch.capabilities).requiresApiKey = _
      cases patch.capabilities <;> rfl
    · change (current.capabilities.spread patch.capabilities).source = _
      cases patch.capabilities <;> rfl
    · change (current.capabilities.spread patch.capabilities).probedAt = _
      cases patch.capabilities <;> rfl
    · exact lookup_spreadObject current.metadata patch.metadata
    · exact ⟨rfl, rfl⟩
    · exact ⟨rfl, rfl, rfl⟩

end

/-- **An accepted update makes the revision that the patch says exactly when the patch is covered**,
and a refused one changes nothing. -/
theorem patch_applied_iff (parse : UrlParser) (ctx : TenantContext) (modelId : JsString)
    (patch : FullPatch) (s : ModelStore) :
    (∀ e s', update parse ctx modelId patch.toModelPatch s = (.error e, s') → s' = s) ∧
      ∀ next s', update parse ctx modelId patch.toModelPatch s = (.ok next, s') →
        ∃ current, get ctx modelId s = some current ∧
          (Applied current patch s.clock next ∧ Appended ctx modelId s current next s' ↔
            Covered current patch) := by
  refine ⟨fun e s' h => update_eq_error h, fun next s' h => ?_⟩
  obtain ⟨current, hget, -, rfl, rfl⟩ := update_eq_ok h
  refine ⟨current, hget, ?_⟩
  rw [applied_nextRevision_iff, and_iff_left]
  constructor
  · unfold revisions
    rw [lookup_setProp, if_pos rfl]
    rfl
  · intro k hk
    rw [lookup_setProp, if_neg hk]
  · rfl

/-! ## A name and a limit -/

/-- The store with one model. -/
def oneModel : ModelStore :=
  ⟨[(js "t:gpt", [registeredModel owner cloudModel midnight])], midnight⟩

/-- The model is renamed. -/
theorem patch_applied_renamed :
    ∃ next s', update (fun _ => none) owner (js "gpt") { displayName := some (js "renamed") }
        oneModel = (.ok next, s') ∧
      Applied (registeredModel owner cloudModel midnight)
        { displayName := some (js "renamed") } midnight next := by
  refine ⟨_, _, rfl, ?_⟩
  obtain ⟨current, hget, hiff⟩ := (patch_applied_iff (fun _ => none) owner (js "gpt")
    { displayName := some (js "renamed") } oneModel).2 _ _ rfl
  cases hget
  refine (hiff.mpr ⟨?_, ?_, ?_, ?_, ?_⟩).1
  · rintro _ ⟨⟩
  · rintro ⟨⟩
  · rintro ⟨⟩
  · rintro _ ⟨⟩
  · rintro _ ⟨⟩

/-- **A new limit is dropped**: the update is accepted and the revision has none. -/
theorem limit_ignored :
    ∃ next s', update (fun _ => none) owner (js "gpt") { maxOutputTokens := some (.ofNat 4096) }
        oneModel = (.ok next, s') ∧
      ¬ Applied (registeredModel owner cloudModel midnight)
        { maxOutputTokens := some (.ofNat 4096) } midnight next := by
  refine ⟨_, _, rfl, fun h => ?_⟩
  have hlimit := h.maxOutputTokens
  cases hlimit

end AgentEval.Models
