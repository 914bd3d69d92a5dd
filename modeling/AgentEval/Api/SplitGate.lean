import AgentEval.Api.RunRoutes
import AgentEval.Async.Phases

/-!
# The gate before held-out splits

`POST /v1/runs` asks for the scope `splits:held-out` where `normalizeSplit` recognises a held-out
split. What it does not recognise passes, although its comment says that null is not allowed.

* **`split_gate_iff`**: without that scope a split that is neither for training nor for development
  is refused, unless `normalizeSplit` does not know it and nothing else is wrong with the request.
* **`unknown_split_created`**: a run on the split `held.out`.
-/

namespace AgentEval.Api

open Js Evidence Store Async

/-! ## Requests that are refused -/

/-- A request is refused: none of its operations stores a run, in whatever state it finds the stores,
and its answer is no acceptance. -/
def Refused (t : Task Stores RunPoint RunResponse) : Prop :=
  t.Follows (fun _ => True) (fun _ _ update s _ => (update s).runs = s.runs)
    (fun _ response => ∀ runId status, response ≠ .accepted runId status) ()

/-- What the checks before the gate ask of a request. -/
structure Startable (input : StartRunInput) : Prop where
  identifier : NotBlank input.model.identifier
  taskSetId : NotBlank input.taskSetId
  taskSetVersion : NotBlank input.taskSetVersion
  split : NotBlank input.split
  verifierId : NotBlank input.verifierId
  verifierVersion : NotBlank input.verifierVersion
  rules : ∀ rule ∈ input.retentionRules, lookupRule rule ≠ none

section

variable {toUpperCase : JsString → JsString} {ctx : TenantContext} {input : StartRunInput}
  {s : Stores}

/-- The isolation backends have names. -/
theorem notBlank_isolationBackend {backend : JsString} (h : backend ∈ isolationBackends) :
    NotBlank backend := by
  simp only [isolationBackends, List.mem_cons, List.not_mem_nil, or_false] at h
  rcases h with rfl | rfl | rfl | rfl | rfl | rfl | rfl <;> rfl

/-- The manifest of a startable request is complete. -/
theorem Startable.complete (h : Startable input) {runId splitHash : JsString}
    (hrunId : NotBlank runId) (hhash : isHex64 splitHash = true) :
    (input.manifestInput runId splitHash).Complete where
  runId := hrunId
  digest := input.digest_ok
  identifier := h.identifier
  taskSetId := h.taskSetId
  taskSetVersion := h.taskSetVersion
  split := h.split
  verifierId := h.verifierId
  verifierVersion := h.verifierVersion
  isolationBackend := notBlank_isolationBackend input.backend_mem
  splitHash := hhash
  taskCount := by simp [StartRunInput.manifestInput]
  toolchain := input.toolchain_ne

/-- Retention rules resolve when all of them are known. -/
theorem exists_resolveRetention_iff {rules : List JsString} (hrules : rules ≠ [])
    (start : TimeValue) :
    (∃ retention, resolveRetention rules start = .ok retention) ↔
      ∀ rule ∈ rules, lookupRule rule ≠ none := by
  constructor
  · rintro ⟨retention, h⟩ rule hrule hnone
    obtain ⟨first, applied, heq⟩ := exists_rules_of_resolveRetention h
    have hmem : (none : Option RetentionRule) ∈ rules.map lookupRule :=
      List.mem_map.mpr ⟨rule, hrule, hnone⟩
    rw [heq] at hmem
    obtain ⟨r, -, hr⟩ := List.mem_map.mp hmem
    cases hr
  · intro h
    obtain ⟨applied, happlied⟩ : ∃ applied : List RetentionRule,
        rules.map lookupRule = applied.map some := by
      clear hrules
      induction rules with
      | nil => exact ⟨[], rfl⟩
      | cons rule rules ih =>
        obtain ⟨hrule, hrules⟩ := List.forall_mem_cons.mp h
        obtain ⟨applied, happlied⟩ := ih hrules
        obtain ⟨r, hr⟩ := Option.ne_none_iff_exists'.mp hrule
        exact ⟨r :: applied, by rw [List.map_cons, List.map_cons, hr, happlied]⟩
    cases applied with
    | nil => exact absurd (List.map_eq_nil_iff.mp happlied) hrules
    | cons first applied => exact ⟨_, resolveRetention_eq happlied start⟩

/-- **The runs that are stored**: those that pass the checks and the gate. -/
theorem exists_created_iff :
    (∃ run, (submit toUpperCase ctx input s).1 = .created run) ↔
      Startable input ∧ splitDenial toUpperCase ctx input = none := by
  constructor
  · rintro ⟨run, h⟩
    obtain ⟨splitHash, hcomplete, hretention, -⟩ := submit_created h
    have hrules := (exists_resolveRetention_iff input.rules_ne.1 s.clock).mp hretention
    refine ⟨⟨hcomplete.identifier, hcomplete.taskSetId, hcomplete.taskSetVersion,
      hcomplete.split, hcomplete.verifierId, hcomplete.verifierVersion, hrules⟩, ?_⟩
    rw [submit] at h
    dsimp only at h
    split at h
    · cases h
    · split at h
      · cases h
      · split at h
        · cases h
        · assumption
  · rintro ⟨hstartable, hdenial⟩
    refine exists_submit (fun splitHash hhash => ?_) ?_ hdenial
    · exact hstartable.complete (notBlank_newId s) hhash
    · exact (exists_resolveRetention_iff input.rules_ne.1 s.clock).mpr hstartable.rules

/-- Where no run is stored, the runs stay as they are. -/
theorem runs_submit (h : ∀ run, (submit toUpperCase ctx input s).1 ≠ .created run) :
    (submit toUpperCase ctx input s).2.runs = s.runs := by
  rw [submit] at h ⊢
  dsimp only at h ⊢
  split at h
  · rfl
  · split at h
    · rfl
    · split at h
      · rfl
      · exact absurd rfl (h _)

/-- A request that stores no run in any state is refused. -/
theorem refused_of_not_created
    (h : ∀ s run, (submit toUpperCase ctx input s).1 ≠ .created run) :
    Refused (postRun toUpperCase ctx input) := by
  unfold postRun
  split
  · rintro runId status ⟨⟩
  · apply Task.Follows.await
    intro s _
    refine ⟨(), runs_submit (h s), ?_⟩
    cases hsubmit : (submit toUpperCase ctx input s).1 with
    | refused p => rintro runId status ⟨⟩
    | denied reason appended =>
      cases appended with
      | error e => rintro runId status ⟨⟩
      | ok entry => rintro runId status ⟨⟩
    | created run => exact absurd hsubmit (h s run)

/-- **The requests that are refused.** -/
theorem refused_iff : Refused (postRun toUpperCase ctx input) ↔
    js "runs:write" ∉ ctx.scopes ∨ ¬ Startable input ∨
      splitDenial toUpperCase ctx input ≠ none := by
  by_cases hwrite : js "runs:write" ∈ ctx.scopes
  · rw [or_iff_right (not_not.mpr hwrite), ← not_and_or]
    constructor
    · intro hrefused hpasses
      obtain ⟨run, hrun⟩ := @exists_created_iff toUpperCase ctx input startStores |>.mpr hpasses
      obtain ⟨splitHash, -, -, -, hstores⟩ := submit_created hrun
      unfold postRun at hrefused
      rw [if_neg (not_not.mpr hwrite)] at hrefused
      obtain ⟨-, hruns, -⟩ := hrefused startStores trivial
      dsimp only at hruns
      rw [hstores] at hruns
      cases hruns
    · intro hpasses
      apply refused_of_not_created
      exact fun s run hrun => hpasses (exists_created_iff.mp ⟨run, hrun⟩)
  · refine iff_of_true ?_ (.inl hwrite)
    unfold postRun
    rw [if_pos hwrite]
    rintro runId status ⟨⟩

/-- A caller without the scope is refused held-out splits, and no other that is known. -/
theorem splitDenial_eq_none_iff (hscope : heldOutScope ∉ ctx.scopes) :
    splitDenial toUpperCase ctx input = none ↔
      normalizeSplit toUpperCase input.split ≠ some .heldOut := by
  unfold splitDenial
  cases hsplit : normalizeSplit toUpperCase input.split with
  | none => simp
  | some split => cases split <;> simp [checkSplitAccess, hscope]

/-- **The gate**: a caller without the scope `splits:held-out` is refused each split that is neither
for training nor for development exactly when `normalizeSplit` knows the split or the request fails
another check. -/
theorem split_gate_iff (toUpperCase : JsString → JsString) (ctx : TenantContext)
    (input : StartRunInput) (hscope : heldOutScope ∉ ctx.scopes) :
    (normalizeSplit toUpperCase input.split ≠ some .train →
        normalizeSplit toUpperCase input.split ≠ some .dev →
        Refused (postRun toUpperCase ctx input)) ↔
      normalizeSplit toUpperCase input.split ≠ none ∨ js "runs:write" ∉ ctx.scopes ∨
        ¬ Startable input := by
  rw [refused_iff, Ne.eq_def (splitDenial toUpperCase ctx input), splitDenial_eq_none_iff hscope,
    not_not]
  cases hsplit : normalizeSplit toUpperCase input.split with
  | none => simp
  | some split => cases split <;> simp

end

/-! ## Two spellings -/

section examples

/-- `toUpperCase` on texts of ASCII letters. -/
def asciiUpper (s : JsString) : JsString :=
  s.map fun u => if 97 ≤ u ∧ u ≤ 122 then u - 32 else u

/-- Somebody who may start runs. -/
def scheduler : TenantContext := ⟨js "tenant", js "user", [js "runs:write"]⟩

/-- A request for a run on a split. -/
def splitInput (split : JsString) (hsplit : split ≠ []) : StartRunInput :=
  { plainInput with
    split := split
    split_ne := hsplit }

/-- The caller has no scope for held-out splits. -/
theorem scheduler_scopes : heldOutScope ∉ scheduler.scopes := by
  simp [scheduler, heldOutScope]

/-- Nothing else is wrong with the request. -/
theorem startable_splitInput {split : JsString} (hsplit : split ≠ []) (hblank : NotBlank split) :
    Startable (splitInput split hsplit) where
  identifier := rfl
  taskSetId := rfl
  taskSetVersion := rfl
  split := hblank
  verifierId := rfl
  verifierVersion := rfl
  rules := by
    intro rule hrule
    obtain rfl := List.mem_singleton.mp hrule
    obtain ⟨r, hr⟩ : ∃ r, lookupRule (js "eu-ai-act-art-19") = some r := ⟨_, rfl⟩
    rw [hr]
    exact Option.some_ne_none r

/-- A spelling that is recognised. -/
theorem split_gate_heldOut :
    Refused (postRun asciiUpper scheduler (splitInput (js " held-out ") (by simp))) := by
  have hsplit : normalizeSplit asciiUpper (js " held-out ") = some .heldOut := rfl
  refine (split_gate_iff asciiUpper scheduler (splitInput (js " held-out ") (by simp))
    scheduler_scopes).mpr (.inl ?_) ?_ ?_
  · exact hsplit ▸ Option.some_ne_none _
  · exact hsplit ▸ by simp
  · exact hsplit ▸ by simp

/-- **A run on the split `held.out`** is created: `normalizeSplit` does not know the name. -/
theorem unknown_split_created : ¬ ∀ (ctx : TenantContext) (input : StartRunInput),
    heldOutScope ∉ ctx.scopes → normalizeSplit asciiUpper input.split ≠ some .train →
      normalizeSplit asciiUpper input.split ≠ some .dev →
      Refused (postRun asciiUpper ctx input) := by
  intro h
  have hsplit : normalizeSplit asciiUpper (js "held.out") = none := rfl
  have hne : js "held.out" ≠ [] := by simp
  have hrefused := refused_iff.mp (h scheduler (splitInput (js "held.out") hne) scheduler_scopes
    (hsplit ▸ by simp) (hsplit ▸ by simp))
  rcases hrefused with hwrite | hstartable | hdenial
  · exact hwrite (List.mem_singleton_self _)
  · exact hstartable (startable_splitInput hne rfl)
  · apply hdenial
    rw [splitDenial_eq_none_iff scheduler_scopes]
    exact hsplit ▸ by simp

end examples

end AgentEval.Api
