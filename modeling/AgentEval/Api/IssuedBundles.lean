import AgentEval.Api.Evidenced

/-!
# What an issued bundle was made of

`POST /v1/evidence/bundles` reads the run, but takes two things from elsewhere. The rules that the
evidence is kept under are those of the request, not those the run was created with; and the machine
that the run was executed on is handed to `createBundle`, whose input has no such field and which
builds the contents field by field.

* **`ends_postBundle_bundle`**: a bundle that is issued, whatever else happens during the request.
* **`bundle_kept_iff`**: it is kept as long as the run requires exactly when one of the rules of the
  request asks for as long as each of the rules of the run.
* **`bundle_lacks_environment`**: it never says on which machine the run was executed.
-/

namespace AgentEval.Api

open Js Evidence Store Async

section

variable {R : Stores → Stores → Prop} {signer : KeySource} {reader : TenantContext}
  {input : GenerateBundleInput} {s s' : Stores} {id : JsString} {bundle : EvidenceBundle}

/-- The input of a bundle that the request makes: the run was found in one state and the rest was read
later. -/
structure MadeOf (reader : TenantContext) (input : GenerateBundleInput) (now : TimeValue)
    (bundleInput : BundleInput) : Prop where
  retention : ∃ retention, resolveRetention input.retentionRules now = .ok retention ∧
    bundleInput.retainUntil = retention.retainUntil
  generatedAt : bundleInput.generatedAt = some (some now)
  runId : bundleInput.runId = input.runId
  tenantId : bundleInput.tenantId = reader.tenantId

/-- What is recorded is what was signed. -/
theorem ends_recordBundle_bundle {entryCount : ℕ} {retention : ResolvedRetention}
    {bundleId : JsString} {signed : EvidenceBundle}
    (h : (recordBundle reader input entryCount retention bundleId signed).Ends R s
      (.bundle id bundle) s') : signed = bundle := by
  obtain ⟨u, -, h⟩ := Task.ends_await.mp h
  cases hdate : AuditLog.toISOString retention.retainUntil with
  | error e =>
    rw [hdate] at h
    cases h.1
  | ok retainUntil =>
    rw [hdate] at h
    obtain ⟨v, -, h⟩ := Task.ends_await.mp h
    generalize (u.append reader ⟨js "evidence.bundled", some input.runId,
      some (bundledPayload bundleId entryCount retainUntil), none⟩).1 = appended at h
    cases appended with
    | error e => cases h.1
    | ok entry =>
      obtain ⟨hresponse, -⟩ := h
      exact (Response.bundle.inj hresponse).2

/-- **What an issued bundle was made of**, whatever the rest of the system does meanwhile. -/
theorem ends_postBundle_bundle (h : (postBundle signer reader input).Ends R s (.bundle id bundle) s') :
    ∃ now signedAt bundleInput, MadeOf reader input now bundleInput ∧
      createBundle signer now signedAt bundleInput = .ok bundle := by
  unfold postBundle at h
  split at h
  · cases h.1
  · obtain ⟨u, -, h⟩ := Task.ends_await.mp h
    cases hrun : InMemoryRunStore.get reader input.runId s.runs with
    | none =>
      rw [hrun] at h
      cases h.1
    | some run =>
      rw [hrun] at h
      obtain ⟨v, -, h⟩ := Task.ends_await.mp h
      dsimp only at h
      split at h
      · cases h.1
      · unfold proveBundle at h
        obtain ⟨w, -, h⟩ := Task.ends_await.mp h
        dsimp only at h
        cases hretention : resolveRetention input.retentionRules v.clock with
        | error e =>
          rw [hretention] at h
          cases h.1
        | ok retention =>
          rw [hretention] at h
          obtain ⟨x, -, h⟩ := Task.ends_await.mp h
          dsimp only at h
          split at h
          · cases h.1
          · rename_i proofs _
            unfold signBundle at h
            obtain ⟨y, -, h⟩ := Task.ends_await.mp h
            obtain ⟨z, -, h⟩ := Task.ends_await.mp h
            dsimp only at h
            split at h
            · cases h.1
            · rename_i signed hcreate
              obtain rfl := ends_recordBundle_bundle h
              exact ⟨v.clock, y.clock, _, ⟨⟨retention, hretention, rfl⟩, rfl, rfl, rfl⟩, hcreate⟩

end

/-! ## How long a bundle is kept -/

/-- A bundle is kept at least until the date that some rules give, counted from the date it was
generated at. -/
def KeptFor (rules : List JsString) (bundle : EvidenceBundle) : Prop :=
  ∃ generatedAt retention due kept, bundle.payload.generatedAt = TimeValue.toISOString generatedAt ∧
    resolveRetention rules generatedAt = .ok retention ∧ retention.retainUntil = some due ∧
    bundle.payload.retainUntil = TimeValue.toISOString kept ∧ due.ms ≤ kept.ms

/-- One list of rules asks for at least as long as another, whose first rule has a floor. -/
def AsksFor (rules required : List JsString) : Prop :=
  (∃ id ∈ required.head?, (floorOf id).isSome) ∧
    ∀ id ∈ required, ∀ days ∈ floorOf id, ∃ id' ∈ rules, ∃ days' ∈ floorOf id', days ≤ days'

section

variable {rules required : List JsString} {start : TimeValue} {retention : ResolvedRetention}

/-- The text of a date determines the date. -/
theorem toISOString_injective {a b : TimeValue} (h : a.toISOString = b.toISOString) : a = b := by
  have hms := congrArg parseIso h
  rw [TimeValue.parseIso_toISOString, TimeValue.parseIso_toISOString, Option.some.injEq] at hms
  cases a
  cases b
  simpa using hms

/-- The date of a time. -/
theorem newDate_eq_some {t : ℤ} {date : TimeValue} :
    newDate t = some date ↔ date.ms = t := by
  unfold newDate
  constructor
  · intro h
    split_ifs at h with hrange
    exact congrArg TimeValue.ms (Option.some.inj h).symm
  · rintro rfl
    rw [dif_pos date.inRange]

/-- **The date that rules give**: the longest floor from the start, if the first rule has one. -/
theorem retainUntil_eq_some {date : TimeValue}
    (h : resolveRetention rules start = .ok retention) (hdate : retention.retainUntil = some date) :
    ∃ days : ℕ, date.ms = start.ms + days * 86400000 ∧
      (∃ id ∈ rules.head?, (floorOf id).isSome) ∧ (∃ id ∈ rules, days ∈ floorOf id) ∧
        ∀ id ∈ rules, ∀ other ∈ floorOf id, other ≤ days := by
  obtain ⟨first, applied, hrules⟩ := exists_rules_of_resolveRetention h
  rw [resolveRetention_eq hrules, Except.ok.injEq] at h
  subst h
  obtain ⟨days, hdays, hnew⟩ := Option.bind_eq_some_iff.mp hdate
  exact ⟨days, newDate_eq_some.mp hnew, (governing_floor_iff hrules).mp hdays⟩

/-- **When rules give a date that is not later** than a number of days from the start. -/
theorem exists_due_iff {kept : TimeValue} {days : ℕ}
    (hknown : ∃ retention, resolveRetention required start = .ok retention)
    (hkept : kept.ms = start.ms + days * 86400000) :
    (∃ retention due, resolveRetention required start = .ok retention ∧
        retention.retainUntil = some due ∧ due.ms ≤ kept.ms) ↔
      (∃ id ∈ required.head?, (floorOf id).isSome) ∧
        ∀ id ∈ required, ∀ other ∈ floorOf id, other ≤ days := by
  constructor
  · rintro ⟨retention, due, hresolve, hdue, hle⟩
    obtain ⟨longest, hlongest, hfirst, -, hall⟩ := retainUntil_eq_some hresolve hdue
    refine ⟨hfirst, fun id hid other hother => (hall id hid other hother).trans ?_⟩
    omega
  · rintro ⟨hfirst, hall⟩
    obtain ⟨retention, hresolve⟩ := hknown
    obtain ⟨first, applied, hrules⟩ := exists_rules_of_resolveRetention hresolve
    obtain ⟨longest, hlongest⟩ := exists_governing_floor hrules hfirst
    obtain ⟨-, ⟨id, hid, hmem⟩, -⟩ := (governing_floor_iff hrules).mp hlongest
    have hle : longest ≤ days := hall id hid longest hmem
    -- the date is between the start and the later one
    have hrange : |start.ms + longest * 86400000| ≤ 8640000000000000 := by
      have hstart := abs_le.mp start.inRange
      have hend := abs_le.mp kept.inRange
      exact abs_le.mpr ⟨by omega, by omega⟩
    refine ⟨_, ⟨_, hrange⟩, resolveRetention_eq hrules start, ?_, ?_⟩
    · change (governing first (first :: applied)).minimumDays.bind _ = _
      rw [hlongest]
      exact newDate_eq_some.mpr rfl
    · rw [hkept]
      exact Int.add_le_add_left (by omega) _

end

/-- The rules of a run that was accepted are known. -/
theorem resolveRetention_of_accepted {toUpperCase : JsString → JsString} {ctx : TenantContext}
    {input : StartRunInput} {R : Stores → Stores → Prop} {s₀ s₁ : Stores} {runId : JsString}
    {status : RunStatus}
    (h : (postRun toUpperCase ctx input).Ends R s₀ (.accepted runId status) s₁) (now : TimeValue) :
    ∃ retention, resolveRetention input.retentionRules now = .ok retention := by
  unfold postRun at h
  split at h
  · cases h.1
  · obtain ⟨u, -, h⟩ := Task.ends_await.mp h
    cases hsubmit : (submit toUpperCase ctx input s₀).1 with
    | refused p =>
      rw [hsubmit] at h
      cases h.1
    | denied reason appended =>
      rw [hsubmit] at h
      cases appended with
      | error e => cases h.1
      | ok entry => cases h.1
    | created run =>
      obtain ⟨-, -, ⟨retention, hretention⟩, -⟩ := submit_created hsubmit
      obtain ⟨first, applied, hrules⟩ := exists_rules_of_resolveRetention hretention
      exact ⟨_, resolveRetention_eq hrules now⟩

/-- How long an issued bundle is kept. -/
theorem keptFor_iff {rules required : List JsString} {R : Stores → Stores → Prop}
    {signer : KeySource} {reader : TenantContext} {runId id : JsString} {s s' : Stores}
    {bundle : EvidenceBundle}
    (hknown : ∀ now, ∃ retention, resolveRetention required now = .ok retention)
    (hissued : (postBundle signer reader ⟨runId, rules⟩).Ends R s (.bundle id bundle) s') :
    KeptFor required bundle ↔ AsksFor rules required := by
  obtain ⟨now, signedAt, bundleInput, hmade, hcreate⟩ := ends_postBundle_bundle hissued
  obtain ⟨retention, hresolve, hretain⟩ := hmade.retention
  obtain ⟨-, -, -, kept, generatedAt, digest, signature, hkept, hgenerated, -, -, -, rfl⟩ :=
    createBundle_ok hcreate
  obtain rfl : now = generatedAt := by
    rw [hmade.generatedAt] at hgenerated
    exact Option.some.inj hgenerated
  obtain ⟨days, hdays, -, ⟨id', hid', hmem⟩, hlongest⟩ :=
    retainUntil_eq_some hresolve (hretain.symm.trans hkept)
  have hkeptFor : KeptFor required ⟨bundleContents bundleInput digest kept.toISOString
      now.toISOString, signature⟩ ↔ ∃ retention due, resolveRetention required now =
        .ok retention ∧ retention.retainUntil = some due ∧ due.ms ≤ kept.ms := by
    constructor
    · rintro ⟨now', retention', due, kept', hnow, hresolve', hdue, hkept', hle⟩
      obtain rfl := toISOString_injective hnow
      obtain rfl := toISOString_injective hkept'
      exact ⟨retention', due, hresolve', hdue, hle⟩
    · rintro ⟨retention', due, hresolve', hdue, hle⟩
      exact ⟨now, retention', due, kept, rfl, hresolve', hdue, rfl, hle⟩
  rw [hkeptFor, exists_due_iff (hknown now) hdays]
  refine and_congr_right fun _ => ⟨fun h id hid other hother => ?_, fun h id hid other hother => ?_⟩
  · exact ⟨id', hid', days, hmem, h id hid other hother⟩
  · obtain ⟨id'', hid'', days', hmem', hle⟩ := h id hid other hother
    exact hle.trans (hlongest id'' hid'' days' hmem')

/-- **A bundle is kept as long as its run requires** exactly when the rules of the request for the
bundle ask for as long as the rules that the run was created with. -/
theorem bundle_kept_iff (toUpperCase : JsString → JsString) (signer : KeySource)
    (ctx reader : TenantContext) (input : StartRunInput) (runId id : JsString) (status : RunStatus)
    (rules : List JsString) (R R' : Stores → Stores → Prop) (s₀ s₁ s s' : Stores)
    (bundle : EvidenceBundle)
    (haccepted : (postRun toUpperCase ctx input).Ends R s₀ (.accepted runId status) s₁)
    (hissued : (postBundle signer reader ⟨runId, rules⟩).Ends R' s (.bundle id bundle) s') :
    KeptFor input.retentionRules bundle ↔ AsksFor rules input.retentionRules :=
  keptFor_iff (resolveRetention_of_accepted haccepted) hissued

/-! ## The machine -/

/-- The contents have no place for the machine. -/
theorem get_environment_bundleContents (input : BundleInput)
    (digest retainUntil generatedAt : JsString) :
    (bundleContents input digest retainUntil generatedAt).get (js "executionEnvironment") =
      .undefined := by
  change getProp (contentsProps _ _ _ _) _ = _
  unfold contentsProps
  cases input.consistency <;> rfl

/-- What an issued bundle says about the machine. -/
theorem get_environment_of_issued {R : Stores → Stores → Prop} {signer : KeySource}
    {reader : TenantContext} {input : GenerateBundleInput} {s s' : Stores} {id : JsString}
    {bundle : EvidenceBundle}
    (h : (postBundle signer reader input).Ends R s (.bundle id bundle) s') :
    bundle.payload.get (js "executionEnvironment") = .undefined := by
  obtain ⟨now, signedAt, bundleInput, -, hcreate⟩ := ends_postBundle_bundle h
  obtain ⟨-, -, -, kept, generatedAt, digest, signature, -, -, -, -, -, rfl⟩ :=
    createBundle_ok hcreate
  exact get_environment_bundleContents ..

/-- **No bundle says on which machine its run was executed**, whatever the run has recorded and
whatever else happens during the request. -/
theorem bundle_lacks_environment (signer : KeySource) (reader : TenantContext)
    (input : GenerateBundleInput) (R : Stores → Stores → Prop) (s s' : Stores) (id : JsString)
    (bundle : EvidenceBundle) (environment : PlainObject)
    (hissued : (postBundle signer reader input).Ends R s (.bundle id bundle) s') :
    bundle.payload.get (js "executionEnvironment") ≠ environment.toJs := by
  rw [get_environment_of_issued hissued]
  rintro ⟨⟩

/-! ## Two bundles -/

section examples

/-- A rule of six months. -/
def sixMonths : List JsString := [js "eu-ai-act-art-19"]

/-- The floor of that rule. -/
theorem floorOf_sixMonths {id : JsString} (h : id ∈ sixMonths) : floorOf id = some 183 := by
  rw [List.mem_singleton.mp h]
  rfl

/-- A request may name that rule alone. -/
theorem sixMonths_ne : sixMonths ≠ [] ∧ [] ∉ sixMonths :=
  ⟨List.cons_ne_nil _ _, by simp [sixMonths]⟩

/-- A rule with a floor is known. -/
theorem exists_known {id : JsString} {days : ℕ} (h : floorOf id = some days) :
    ∃ rule, [id].map lookupRule = [rule].map some := by
  obtain ⟨rule, hrule, -⟩ := Option.bind_eq_some_iff.mp h
  exact ⟨rule, congrArg (fun r => [r]) hrule⟩

/-- A bundle is issued under that rule, for a run under any rules. -/
theorem exists_issued {rules : List JsString} {hrules : rules ≠ [] ∧ [] ∉ rules} {runId : JsString}
    {s : Stores} (hrun : Accepted evidenceUser (rulesInput rules hrules) runId s)
    (hsize : s.audit.size = 1) : ∃ id bundle s',
      (postBundle digestKey evidenceUser ⟨runId, sixMonths⟩).Ends
        (Passing fun t => t.ms ≤ epoch.ms) s (.bundle id bundle) s' := by
  -- the manifest does not say under which rules the run was created
  have hrun' : Accepted evidenceUser (rulesInput sixMonths sixMonths_ne) runId s :=
    ⟨hrun.coherent, hrun.run, hrun.entry, hrun.tenant, _, [], rfl⟩
  have hscope : js "evidence:generate" ∈ evidenceUser.scopes :=
    List.mem_cons_of_mem _ (List.mem_cons_self ..)
  have hactor : evidenceUser.actor ≠ [] := by
    change js "user" ≠ []
    simp
  have hev : Evidenceable (rulesInput sixMonths sixMonths_ne) epoch s.audit.size := by
    refine ⟨StringRecord.isJson_toJs _, by rintro ⟨⟩, ⟨_, rfl, rfl⟩, ?_, ?_, by rw [hsize]; norm_num⟩
    · exact ⟨_, List.mem_singleton_self _, 183, floorOf_sixMonths (List.mem_singleton_self _), le_rfl⟩
    · rintro id hid days hdays
      rw [floorOf_sixMonths hid] at hdays
      cases hdays
      decide
  have hevidenced := (hrun'.evidenced_iff genuine_digestKey (by rw [hsize]; norm_num) hscope hactor
    rfl (fun _ => .nan) epoch).mpr hev
  have hpass : ∀ u, ∃ v, Passing (fun t => t.ms ≤ epoch.ms) u v := fun u =>
    ⟨{ u with clock := epoch }, epoch, le_rfl, rfl⟩
  obtain ⟨response, s', hends⟩ := Task.exists_ends hpass
    (postBundle digestKey evidenceUser ⟨runId, sixMonths⟩) s
  obtain ⟨id, bundle, -, rfl, -⟩ := hevidenced response s' hends
  exact ⟨id, bundle, s', hends⟩

/-- A run is accepted and a bundle issued for it. -/
theorem exists_accepted_issued {rules : List JsString} (hrules : rules ≠ [] ∧ [] ∉ rules)
    {first : RetentionRule} {applied : List RetentionRule}
    (hknown : rules.map lookupRule = (first :: applied).map some) :
    ∃ runId status s₁ bundleId bundle s',
      (postRun id evidenceUser (rulesInput rules hrules)).Ends Grows startStores
        (.accepted runId status) s₁ ∧
      (postBundle digestKey evidenceUser ⟨runId, sixMonths⟩).Ends
        (Passing fun t => t.ms ≤ epoch.ms) s₁ (.bundle bundleId bundle) s' := by
  obtain ⟨runId, status, s₁, haccepted, hsize⟩ := exists_accepted id hrules hknown
  have hrun : Accepted evidenceUser (rulesInput rules hrules) runId s₁ :=
    accepted_of_postRun coherent_startStores (by rw [hsize]; norm_num) haccepted
  obtain ⟨id, bundle, s', hissued⟩ := exists_issued hrun hsize
  exact ⟨runId, status, s₁, id, bundle, s', haccepted, hissued⟩

/-- A run under six months of retention, whose bundle is kept for six months. -/
theorem bundle_kept_sixMonths : ∃ runId status s₁ bundleId bundle s',
    (postRun id evidenceUser plainInput).Ends Grows startStores (.accepted runId status) s₁ ∧
      (postBundle digestKey evidenceUser ⟨runId, sixMonths⟩).Ends
        (Passing fun t => t.ms ≤ epoch.ms) s₁ (.bundle bundleId bundle) s' ∧
      KeptFor sixMonths bundle := by
  obtain ⟨rule, hknown⟩ := exists_known (floorOf_sixMonths (List.mem_singleton_self _))
  obtain ⟨runId, status, s₁, id, bundle, s', haccepted, hissued⟩ :=
    exists_accepted_issued sixMonths_ne hknown
  refine ⟨runId, status, s₁, id, bundle, s', haccepted, hissued, (bundle_kept_iff _ _ _ _ _ _ _ _ _ _
    _ _ _ _ _ _ haccepted hissued).mpr ⟨⟨_, rfl, rfl⟩, fun id' hid' days hdays => ?_⟩⟩
  exact ⟨id', hid', days, hdays, le_rfl⟩

/-- **A run under six years of retention** whose bundle is kept for six months. -/
theorem bundle_kept_short : ¬ ∀ (toUpperCase : JsString → JsString) (signer : KeySource)
    (ctx reader : TenantContext) (input : StartRunInput) (runId id : JsString) (status : RunStatus)
    (rules : List JsString) (R R' : Stores → Stores → Prop) (s₀ s₁ s' : Stores)
    (bundle : EvidenceBundle),
    (postRun toUpperCase ctx input).Ends R s₀ (.accepted runId status) s₁ →
    (postBundle signer reader ⟨runId, rules⟩).Ends R' s₁ (.bundle id bundle) s' →
    KeptFor input.retentionRules bundle := by
  intro hall
  have hrules : [js "hipaa-164-316"] ≠ [] ∧ [] ∉ [js "hipaa-164-316"] :=
    ⟨List.cons_ne_nil _ _, by simp⟩
  have hfloor : floorOf (js "hipaa-164-316") = some 2191 := rfl
  obtain ⟨rule, hknown⟩ := exists_known hfloor
  obtain ⟨runId, status, s₁, id, bundle, s', haccepted, hissued⟩ :=
    exists_accepted_issued hrules hknown
  have hkept := hall _ _ _ _ _ _ _ _ _ _ _ _ _ _ _ haccepted hissued
  obtain ⟨-, hasks⟩ := (keptFor_iff (resolveRetention_of_accepted haccepted) hissued).mp hkept
  obtain ⟨id', hid', days, hdays, hle⟩ := hasks _ (List.mem_singleton_self _) 2191 hfloor
  rw [floorOf_sixMonths hid'] at hdays
  cases hdays
  norm_num at hle

/-- The machine of a run. -/
def machine : PlainObject where
  props := [(js "hostname", .str (js "gpu-1"))]
  wf := by
    refine JsVal.wf_obj.mpr ⟨List.nodup_singleton _, ?_⟩
    simp only [List.forall_mem_cons]
    exact ⟨trivial, List.forall_mem_nil _⟩

/-- A bundle is issued for a run with a machine. -/
theorem exists_issued_machine : ∃ runId run s id bundle s',
    InMemoryRunStore.get evidenceUser runId s.runs = some run ∧
      run.executionEnvironment = some machine ∧
      (postBundle digestKey evidenceUser ⟨runId, sixMonths⟩).Ends
        (Passing fun t => t.ms ≤ epoch.ms) s (.bundle id bundle) s' := by
  obtain ⟨rule, hknown⟩ := exists_known (floorOf_sixMonths (List.mem_singleton_self _))
  obtain ⟨runId, status, s₁, haccepted, hsize⟩ := exists_accepted id sixMonths_ne hknown
  have hrun : Accepted evidenceUser (rulesInput sixMonths sixMonths_ne) runId s₁ :=
    accepted_of_postRun coherent_startStores (by rw [hsize]; norm_num) haccepted
  obtain ⟨id, bundle, s', hissued⟩ :=
    exists_issued (hrun.grows (.setEnvironment runId machine)) hsize
  obtain ⟨r, -, -, hlookup, htenant, -⟩ := hrun.run
  refine ⟨runId, { r with executionEnvironment := some machine }, _, id, bundle, s', ?_, rfl, hissued⟩
  unfold InMemoryRunStore.get InMemoryRunStore.setEnvironment
  rw [hlookup]
  dsimp only
  rw [lookup_setProp, if_pos rfl, Option.filter_some, if_pos (decide_eq_true htenant)]

/-- A bundle that does not say on which machine its run was executed. -/
theorem bundle_lacks_machine : ∃ bundle : EvidenceBundle,
    bundle.payload.get (js "executionEnvironment") ≠ machine.toJs := by
  obtain ⟨runId, run, s, id, bundle, s', -, -, hissued⟩ := exists_issued_machine
  exact ⟨bundle, bundle_lacks_environment _ _ _ _ _ _ _ _ _ hissued⟩

/-- **A run whose machine is recorded**, and a bundle without it. -/
theorem environment_dropped : ¬ ∀ (signer : KeySource) (reader : TenantContext)
    (input : GenerateBundleInput) (R : Stores → Stores → Prop) (s s' : Stores) (id : JsString)
    (bundle : EvidenceBundle) (run : RunRecord) (environment : PlainObject),
    InMemoryRunStore.get reader input.runId s.runs = some run →
    run.executionEnvironment = some environment →
    (postBundle signer reader input).Ends R s (.bundle id bundle) s' →
    bundle.payload.get (js "executionEnvironment") = environment.toJs := by
  intro hall
  obtain ⟨runId, run, s, id, bundle, s', hget, henvironment, hissued⟩ := exists_issued_machine
  have h := hall _ _ _ _ _ _ _ _ _ _ hget henvironment hissued
  rw [get_environment_of_issued hissued] at h
  cases h

end examples

end AgentEval.Api
