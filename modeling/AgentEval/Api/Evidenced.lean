import AgentEval.Api.OneState
import AgentEval.Api.RunRoutes
import AgentEval.Evidence.ProofLength

/-!
# Whether an accepted run can be evidenced

`POST /v1/runs` checks what a run declares; the bundle route signs it later, and checks more.
`Evidenceable` says what the first has to be given for the second to succeed.

* **`run_evidenced_iff`**: for a run that was accepted, in every later state, the bundle route answers
  with a bundle that verifies exactly when the request for the run was evidenceable.
* **`storage_limitation_not_evidenced`**: a run kept under the storage limitation alone is accepted,
  and never gets a bundle.
-/

namespace AgentEval.Api

open Js Evidence Store Async

/-! ## What happens in between -/

/-- What the rest of the system does to the stores: the log grows, and a run that is stored keeps its
tenant and its manifest. -/
structure Grows (s s' : Stores) : Prop where
  coherent : s.audit.Coherent → s'.audit.Coherent
  entries : s.audit.entries <+: s'.audit.entries
  runs : ∀ id r, s.runs.lookup id = some r →
    ∃ r', s'.runs.lookup id = some r' ∧ r'.tenantId = r.tenantId ∧ r'.manifest = r.manifest

namespace Grows

variable {s s' s'' : Stores}

/-- Nothing happens. -/
theorem refl (s : Stores) : Grows s s := ⟨id, List.prefix_refl _, fun _ r h => ⟨r, h, rfl, rfl⟩⟩

/-- One thing after another. -/
theorem trans (h : Grows s s') (h' : Grows s' s'') : Grows s s'' := by
  refine ⟨h'.coherent ∘ h.coherent, h.entries.trans h'.entries, fun id r hr => ?_⟩
  obtain ⟨r', hr', htenant, hmanifest⟩ := h.runs id r hr
  obtain ⟨r'', hr'', htenant', hmanifest'⟩ := h'.runs id r' hr'
  exact ⟨r'', hr'', htenant'.trans htenant, hmanifest'.trans hmanifest⟩

/-- What leaves the log and the runs alone. -/
theorem of_eq (haudit : s'.audit = s.audit) (hruns : s'.runs = s.runs) : Grows s s' := by
  refine ⟨?_, ?_, ?_⟩
  · rw [haudit]
    exact id
  · rw [haudit]
  · rw [hruns]
    exact fun _ r hr => ⟨r, hr, rfl, rfl⟩

/-- An append, whether it throws or not. -/
theorem append (ctx : TenantContext) (event : AuditEvent) (s : Stores) :
    Grows s (s.append ctx event).2 := by
  refine ⟨fun h => ?_, ?_, fun _ r hr => ⟨r, hr, rfl, rfl⟩⟩
  · exact (InMemoryAuditStore.coherent_append h ctx event s.clock).1
  · exact s.audit.prefix_append _ s.clock

/-- Storing a record that has the tenant and the manifest of the one it replaces. -/
theorem setProp {id : JsString} {r : RunRecord} (haudit : s'.audit = s.audit)
    (hruns : s'.runs = Js.setProp s.runs (id, r))
    (hsame : ∀ old, s.runs.lookup id = some old →
      r.tenantId = old.tenantId ∧ r.manifest = old.manifest) : Grows s s' := by
  refine ⟨?_, ?_, fun id' old hold => ?_⟩
  · rw [haudit]
    exact fun h => h
  · rw [haudit]
  · rw [hruns, lookup_setProp]
    split
    · rename_i hid
      subst hid
      obtain ⟨htenant, hmanifest⟩ := hsame old hold
      exact ⟨r, rfl, htenant, hmanifest⟩
    · exact ⟨old, hold, rfl, rfl⟩

/-- A worker claims a run. -/
theorem claimNext (hs : InMemoryRunStore.Keyed s.runs) (workerId : JsString) :
    Grows s (s.claimNext workerId).2 := by
  rw [Stores.claimNext, InMemoryRunStore.claimNext]
  split
  · exact of_eq rfl rfl
  · rename_i next hnext
    refine setProp rfl rfl fun old hold => ?_
    have hlookup := (hs.lookup_nextQueued hnext).1
    change s.runs.lookup next.id = some old at hold
    rw [hlookup, Option.some.injEq] at hold
    exact hold ▸ ⟨rfl, rfl⟩

/-- A worker records the machine. -/
theorem setEnvironment (id : JsString) (environment : PlainObject) :
    Grows s { s with runs := InMemoryRunStore.setEnvironment id environment s.runs } := by
  rw [InMemoryRunStore.setEnvironment]
  split
  · exact of_eq rfl rfl
  · rename_i r hr
    refine setProp rfl rfl fun old hold => ?_
    rw [hr, Option.some.injEq] at hold
    exact hold ▸ ⟨rfl, rfl⟩

/-- A worker records the outcome. -/
theorem finish (id : JsString) (status : Outcome) (reason : Option JsString) :
    Grows s (s.finish id status reason).2 := by
  rw [Stores.finish, InMemoryRunStore.finish]
  split
  · exact of_eq rfl rfl
  · rename_i r hr
    refine setProp rfl rfl fun old hold => ?_
    rw [hr, Option.some.injEq] at hold
    exact hold ▸ ⟨rfl, rfl⟩

/-- A cancel request writes over a record that it read before other things happened. -/
theorem setStatus {ctx : TenantContext} {id : JsString} {r : RunRecord}
    (hread : InMemoryRunStore.get ctx id s.runs = some r) (h : Grows s s') (status : RunStatus) :
    Grows s' { s' with
      runs := Js.setProp s'.runs (id, InMemoryRunStore.withStatus r status s'.clock) } := by
  refine setProp rfl rfl fun old hold => ?_
  obtain ⟨r', hr', htenant, hmanifest⟩ :=
    h.runs id r (Option.eq_some_of_filter_eq_some hread)
  rw [hr', Option.some.injEq] at hold
  exact hold ▸ ⟨htenant.symm, hmanifest.symm⟩

end Grows

/-- Time passes, and nothing else happens: the clock shows one of some times. -/
def Passing (times : TimeValue → Prop) (s s' : Stores) : Prop :=
  ∃ t, times t ∧ s' = { s with clock := t }

/-! ## What a request has to be given -/

/-- The floor of a rule, when it is known and has one. -/
def floorOf (id : JsString) : Option ℕ := (lookupRule id).bind (·.minimumDays)

/-- What a request to start a run has to be given for the run to be evidenced until a horizon, in a
log of some size: the manifest can be hashed, the first rule has a floor, one of the rules asks for
the minimum that bundles ask for, every date is one, and the verifiers can follow the log. -/
structure Evidenceable (input : StartRunInput) (horizon : TimeValue) (size : ℕ) : Prop where
  sampling : input.model.sampling.toJs.jsonForm.IsJson
  seed : input.seed ≠ some .negZero
  first : ∃ id ∈ input.retentionRules.head?, (floorOf id).isSome
  long : ∃ id ∈ input.retentionRules, ∃ days ∈ floorOf id, minimumRetentionDays ≤ days
  dates : ∀ id ∈ input.retentionRules, ∀ days ∈ floorOf id,
    horizon.ms + days * 86400000 ≤ 8640000000000000
  size : size ≤ 2 ^ 31

/-! ## Retention -/

section retention

variable {ruleIds : List JsString} {first : RetentionRule} {applied : List RetentionRule}

/-- No floor is longer than ten years. -/
theorem floorOf_le {id : JsString} {days : ℕ} (h : days ∈ floorOf id) : days ≤ 3653 := by
  have hall : ∀ p ∈ standardRules, ∀ days ∈ p.2.minimumDays, days ≤ 3653 := by
    simp [standardRules, standardRule, art19MinimumDays]
  rw [floorOf, Option.mem_def, Option.bind_eq_some_iff] at h
  obtain ⟨rule, hrule, hdays⟩ := h
  rw [lookupRule] at hrule
  split at hrule
  · rename_i found hfound
    cases hrule
    exact hall _ (mem_of_lookup hfound) _ hdays
  · split at hrule
    · cases hrule
      cases hdays
    · cases hrule

/-- The floors of rules that are known. -/
theorem mem_floorOf_iff (h : ruleIds.map lookupRule = applied.map some) {days : ℕ} :
    (∃ id ∈ ruleIds, days ∈ floorOf id) ↔ ∃ rule ∈ applied, days ∈ rule.minimumDays := by
  have hmem : ∀ rule, rule ∈ applied ↔ ∃ id ∈ ruleIds, lookupRule id = some rule := by
    intro rule
    have hiff := List.mem_map (f := lookupRule) (b := some rule) (l := ruleIds)
    rw [h, List.mem_map] at hiff
    simpa using hiff
  constructor
  · rintro ⟨id, hid, hdays⟩
    obtain ⟨rule, hrule, hfloor⟩ := Option.bind_eq_some_iff.mp hdays
    exact ⟨rule, (hmem rule).mpr ⟨id, hid, hrule⟩, hfloor⟩
  · rintro ⟨rule, hrule, hdays⟩
    obtain ⟨id, hid, hlookup⟩ := (hmem rule).mp hrule
    exact ⟨id, hid, Option.bind_eq_some_iff.mpr ⟨rule, hlookup, hdays⟩⟩

/-- The rule of the first identifier. -/
theorem head_lookupRule (h : ruleIds.map lookupRule = (first :: applied).map some) :
    (∃ id ∈ ruleIds.head?, (floorOf id).isSome) ↔ first.minimumDays.isSome := by
  cases ruleIds with
  | nil => cases h
  | cons id rest =>
    rw [List.map_cons, List.map_cons, List.cons.injEq] at h
    simp [floorOf, h.1]

/-- The governing rule has a floor when the first one has. -/
theorem exists_governing_floor (h : ruleIds.map lookupRule = (first :: applied).map some)
    (hfirst : ∃ id ∈ ruleIds.head?, (floorOf id).isSome) :
    ∃ days, (governing first (first :: applied)).minimumDays = some days := by
  obtain ⟨m, hm⟩ := Option.isSome_iff_exists.mp ((head_lookupRule h).mp hfirst)
  obtain ⟨days, hdays, -⟩ := @le_governing_first first (first :: applied) m hm
  exact ⟨days, hdays⟩

/-- **What floor the governing rule has**: none when the first rule has none, else the longest. -/
theorem governing_floor_iff (h : ruleIds.map lookupRule = (first :: applied).map some) {days : ℕ} :
    (governing first (first :: applied)).minimumDays = some days ↔
      (∃ id ∈ ruleIds.head?, (floorOf id).isSome) ∧ (∃ id ∈ ruleIds, days ∈ floorOf id) ∧
        ∀ id ∈ ruleIds, ∀ other ∈ floorOf id, other ≤ days := by
  rw [head_lookupRule h, mem_floorOf_iff h]
  cases hm : first.minimumDays with
  | none =>
    rw [governing_of_minimumDays_none hm, hm]
    simp
  | some m =>
    obtain ⟨n, hn, -⟩ := @le_governing_first first (first :: applied) m hm
    have hlongest : ∀ rule ∈ first :: applied, ∀ other ∈ rule.minimumDays, other ≤ n := by
      intro rule hrule other hother
      obtain ⟨n', hn', hle⟩ := le_governing hm hrule hother
      rw [hn, Option.some.injEq] at hn'
      omega
    have hmem : ∃ rule ∈ first :: applied, n ∈ rule.minimumDays := by
      refine ⟨_, ?_, hn⟩
      rcases List.mem_cons.mp (@governing_mem first (first :: applied)) with heq | hmem
      · rw [heq]
        exact List.mem_cons_self ..
      · exact hmem
    rw [hn, Option.some.injEq]
    constructor
    · rintro rfl
      refine ⟨rfl, hmem, fun id' hid' other hother => ?_⟩
      obtain ⟨rule, hrule, hother'⟩ := (mem_floorOf_iff h).mp ⟨id', hid', hother⟩
      exact hlongest rule hrule other hother'
    · rintro ⟨-, ⟨rule, hrule, hdays⟩, hle⟩
      obtain ⟨id', hid', hn'⟩ := (mem_floorOf_iff h).mpr hmem
      exact le_antisymm (hle id' hid' n hn') (hlongest rule hrule days hdays)

end retention

/-! ## The bundle -/

section bundle

variable {crypto : NodeCrypto} {signer : KeySource} {log : AuditLog} {now signedAt : TimeValue}
  {bundleInput : BundleInput} {days : ℕ}

/-- A period that ends at a date is as long as it says. -/
theorem daysBetween_of_newDate {retainUntil : TimeValue} (hdays : days ≤ 3653)
    (h : newDate (now.ms + days * 86400000) = some retainUntil) :
    daysBetween (.ofInt retainUntil.ms) (.ofInt now.ms) = .ofNat days := by
  rw [newDate] at h
  split at h
  · cases h
    refine Number.div_sub_of_eq ?_ (now.inRange.trans_lt (by norm_num)) (by norm_num) (by omega)
      (by norm_num) (by norm_num)
    rename_i hrange
    exact hrange.trans_lt (by norm_num)
  · cases h

/-- **When a bundle over a log is created** for a period that starts when it is made. -/
theorem exists_createBundle_iff (hsigner : signer.Genuine crypto) (h : log.Coherent)
    (hlt : log.size < 2 ^ 53) (hcut : bundleInput.CutFrom log) (hne : bundleInput.entries ≠ [])
    (hconsistency : bundleInput.consistency = none) (hmappings : bundleInput.mappings = none)
    (hgenerated : bundleInput.generatedAt = some (some now)) {floor : Option ℕ}
    (hfloor : ∀ days ∈ floor, days ≤ 3653)
    (hretain : bundleInput.retainUntil = floor.bind fun (days : ℕ) =>
      newDate (now.ms + days * 86400000)) :
    (∃ bundle, createBundle signer now signedAt bundleInput = .ok bundle) ↔
      bundleInput.manifest.toJs.jsonForm.IsJson ∧ ∃ days, floor = some days ∧
        minimumRetentionDays ≤ days ∧ now.ms + days * 86400000 ≤ 8640000000000000 := by
  constructor
  · rintro ⟨bundle, hbundle⟩
    obtain ⟨-, -, -, retainUntil, generatedAt, digest, -, hretain', hgenerated', hlong, hdigest, -,
      -⟩ := createBundle_ok hbundle
    rw [hretain, Option.bind_eq_some_iff] at hretain'
    obtain ⟨days, rfl, hdate⟩ := hretain'
    rw [hgenerated] at hgenerated'
    cases hgenerated'
    have hle : days ≤ 3653 := hfloor days rfl
    rw [daysBetween_of_newDate hle hdate, Number.lt_ofNat (by omega) (by decide)] at hlong
    refine ⟨(canonicalDigest_eq_ok_iff.mp hdigest).1, days, rfl, not_lt.mp (of_decide_eq_false hlong),
      ?_⟩
    rw [newDate] at hdate
    split at hdate
    · rename_i hrange
      exact (abs_le.mp hrange).2
    · cases hdate
  · rintro ⟨hjson, days, rfl, hlong, hdate⟩
    have hrange : |now.ms + days * 86400000| ≤ 8640000000000000 := by
      have hlow := (abs_le.mp now.inRange).1
      exact abs_le.mpr ⟨by omega, hdate⟩
    have hretain' : bundleInput.retainUntil = some ⟨now.ms + days * 86400000, hrange⟩ := by
      rw [hretain, Option.bind_some, newDate, dif_pos hrange]
    have hgenerated' : bundleInput.generatedAt.getD (some now) = some now := by
      rw [hgenerated, Option.getD_some]
    refine exists_createBundle hsigner h hlt hcut hne
      ⟨_, (canonicalize_eq_ok_iff bundleInput.manifest.wf).mpr ⟨hjson, rfl⟩⟩ ?_ ?_ hretain'
      hgenerated' ?_ signedAt
    · rw [hconsistency]
      rintro _ ⟨⟩
    · rw [hmappings]
      rintro _ ⟨⟩
    · dsimp only
      omega

/-- **Above `2 ^ 31` entries no bundle verifies.** -/
theorem not_valid_of_wide (h : log.Coherent) (hwide : 2 ^ 31 < log.size) (hlt : log.size < 2 ^ 32)
    (hcut : bundleInput.CutFrom log) {bundle : EvidenceBundle}
    (hbundle : createBundle signer now signedAt bundleInput = .ok bundle) (host : JsString → Number)
    (publicKeyPem : JsString) :
    ¬ ∃ r, verifyBundle crypto host bundle publicKeyPem = .ok r ∧ r.valid = true := by
  intro hvalid
  obtain ⟨-, hacc⟩ := verifyBundle_valid_iff.mp hvalid
  obtain ⟨hne, -, -, _, _, _, _, -, -, -, -, -, rfl⟩ := createBundle_ok hbundle
  obtain ⟨e, he⟩ := List.exists_mem_of_ne_nil _ hne
  obtain ⟨o, ho, hinclusion⟩ := hacc.inclusion e he
  obtain ⟨k, proof, hk, hproof, hat⟩ := hcut.proof_at h (by omega) he
  have hlt' : k < log.tree.leaves.length := by
    have hsize : log.tree.leaves.length = log.size := h.size_tree
    rw [hsize]
    exact (List.getElem?_eq_some_iff.mp hk).1
  rw [AuditLog.inclusionProof, log.tree.inclusionProof_eq hlt', Except.ok.injEq] at hproof
  change bundleInput.inclusionProofs.at e.seq = some o at ho
  rw [hat, Option.some.injEq] at ho
  subst ho hproof
  have hsize : log.tree.leaves.length = log.size := h.size_tree
  rw [valid_verifyInclusion_of_wide (hsize ▸ hwide) (hsize ▸ hlt.le) rfl] at hinclusion
  cases hinclusion

end bundle

/-! ## The requests -/

section requests

variable {toUpperCase : JsString → JsString} {crypto : NodeCrypto} {signer : KeySource}
  {ctx reader : TenantContext} {input : StartRunInput} {runId : JsString} {s s' : Stores}

/-- A run that was accepted, in some later state. -/
structure Accepted (ctx : TenantContext) (input : StartRunInput) (runId : JsString) (s : Stores) :
    Prop where
  coherent : s.audit.Coherent
  run : ∃ r splitHash createdAt, s.runs.lookup runId = some r ∧ r.tenantId = ctx.tenantId ∧
    r.manifest = (input.manifestInput runId splitHash).manifest createdAt
  entry : ∃ e ∈ s.audit.entries, e.tenantId = ctx.tenantId ∧ e.subject = some runId
  tenant : ctx.tenantId ≠ []
  rules : ∃ first applied, input.retentionRules.map lookupRule = (first :: applied).map some

/-- An accepted run stays one. -/
theorem Accepted.grows (h : Accepted ctx input runId s) (hgrows : Grows s s') :
    Accepted ctx input runId s' := by
  refine ⟨hgrows.coherent h.coherent, ?_, ?_, h.tenant, h.rules⟩
  · obtain ⟨r, splitHash, createdAt, hr, htenant, hmanifest⟩ := h.run
    obtain ⟨r', hr', htenant', hmanifest'⟩ := hgrows.runs runId r hr
    exact ⟨r', splitHash, createdAt, hr', htenant'.trans htenant, hmanifest'.trans hmanifest⟩
  · obtain ⟨e, he, hnames⟩ := h.entry
    exact ⟨e, hgrows.entries.subset he, hnames⟩

/-- **What acceptance leaves behind.** -/
theorem accepted_of_postRun {status : RunStatus} (hs : s.audit.Coherent)
    (hsize : s'.audit.size < 2 ^ 53)
    (h : (postRun toUpperCase ctx input).Ends Grows s (.accepted runId status) s') :
    Accepted ctx input runId s' := by
  rw [postRun] at h
  split at h
  · obtain ⟨hresponse, -⟩ := h
    cases hresponse
  · obtain ⟨u, hu, h⟩ := Task.ends_await.mp h
    cases hsubmit : (submit toUpperCase ctx input s).1 with
    | refused p =>
      rw [hsubmit] at h
      cases h.1
    | denied reason appended =>
      rw [hsubmit] at h
      cases appended with
      | error e => cases h.1
      | ok entry => cases h.1
    | created run =>
      rw [hsubmit] at h
      obtain ⟨v, hv, h⟩ := Task.ends_await.mp h
      obtain ⟨splitHash, -, ⟨retention, hretention⟩, hrun, hstored⟩ := submit_created hsubmit
      generalize hevent : AuditEvent.mk (js "run.started") (some run.id)
        (some (startedPayload input).toObject) none = event at h hv
      have hsubject : event.subject = some run.id := by rw [← hevent]
      cases happend : (u.append ctx event).1 with
      | error e =>
        rw [happend] at h
        cases h.1
      | ok entry =>
        rw [happend] at h
        obtain ⟨hresponse, rfl⟩ := h
        cases hresponse
        have hsize' : u.audit.size < 2 ^ 53 :=
          ((Grows.append ctx event u).trans hv).entries.length_le.trans_lt hsize
        have haccepts : Accepts ctx event := by
          by_contra hnot
          obtain ⟨e, herror⟩ := @append_error_of_not_accepts ctx event u hnot
          rw [herror] at happend
          cases happend
        obtain ⟨entry, hok, -, htenant, hnames, -⟩ := haccepts.append hsize'
        have hcoherent : u.audit.Coherent := by
          refine hu.coherent ?_
          rw [hstored]
          exact hs
        have hlookup : (submit toUpperCase ctx input s).2.runs.lookup run.id = some run := by
          rw [hstored, lookup_setProp, if_pos rfl]
        obtain ⟨r, hr, htenant', hmanifest⟩ := hu.runs run.id run hlookup
        have hentry : entry ∈ (u.append ctx event).2.audit.entries := by
          rw [hok]
          exact List.mem_append_right _ (List.mem_singleton_self _)
        refine Accepted.grows (s := (u.append ctx event).2)
          ⟨(Grows.append ctx event u).coherent hcoherent,
            ⟨r, splitHash, s.clock.toISOString, hr, ?_, ?_⟩,
            ⟨entry, hentry, htenant, hnames.trans hsubject⟩, haccepts.tenantId,
            exists_rules_of_resolveRetention hretention⟩ hv
        · rw [htenant', hrun]
          rfl
        · rw [hmanifest, hrun]
          rfl

/-- What the bundle route makes of a request for the bundle of an accepted run. -/
structure Made (input : StartRunInput) (log : AuditLog) (now : TimeValue)
    (bundleInput : BundleInput) : Prop where
  cut : bundleInput.CutFrom log
  entries : bundleInput.entries ≠ []
  manifest : ∃ runId splitHash createdAt,
    bundleInput.manifest = (input.manifestInput runId splitHash).manifest createdAt
  consistency : bundleInput.consistency = none
  mappings : bundleInput.mappings = none
  generatedAt : bundleInput.generatedAt = some (some now)
  retainUntil : ∃ first applied,
    input.retentionRules.map lookupRule = (first :: applied).map some ∧
      bundleInput.retainUntil = (governing first (first :: applied)).minimumDays.bind
        fun (days : ℕ) => newDate (now.ms + days * 86400000)

/-- The rest of the system stays out of the log of a request. -/
theorem audit_of_passing {times : TimeValue → Prop} (h : Passing times s s') :
    s'.audit = s.audit := by
  obtain ⟨t, -, rfl⟩ := h
  rfl

/-- Recording a bundle that was created ends with it. -/
theorem ends_recordBundle {times : TimeValue → Prop} {response : Response} {entryCount : ℕ}
    {retention : ResolvedRetention} {retainUntil : TimeValue} {bundleId : JsString}
    {bundle : EvidenceBundle} (hactor : reader.actor ≠ []) (htenant : reader.tenantId ≠ [])
    (hsize : s.audit.size < 2 ^ 53) (hcount : entryCount < 2 ^ 53)
    (hretain : retention.retainUntil = some retainUntil)
    (h : (recordBundle reader ⟨runId, input.retentionRules⟩ entryCount retention bundleId
      bundle).Ends (Passing times) s response s') : response = .bundle bundleId bundle := by
  obtain ⟨u, hu, h⟩ := Task.ends_await.mp h
  have haudit : u.audit = s.audit := (audit_of_passing hu).trans rfl
  rw [hretain] at h
  obtain ⟨v, hv, h⟩ := Task.ends_await.mp h
  generalize hevent : AuditEvent.mk (js "evidence.bundled") (some runId)
    (some (bundledPayload bundleId entryCount retainUntil.toISOString)) none = event at h hv
  have haction : js "evidence.bundled" ≠ [] := by simp
  have haccepts : Accepts reader event := by
    rw [← hevent]
    refine ⟨haction, hactor, htenant, by simp, ?_⟩
    refine PlainObject.isJson_of_forall ?_
    simp only [bundledPayload, Option.getD_some, List.forall_mem_cons, Number.ofNat_eq hcount]
    exact ⟨trivial, trivial, trivial, List.forall_mem_nil _⟩
  obtain ⟨entry, hok, -⟩ := haccepts.append (s := u) (by rw [haudit]; exact hsize)
  rw [hok] at h
  exact h.1.symm

/-- The proofs of a slice of the log can be read. -/
theorem exists_inclusionProofs {log : AuditLog} (h : log.Coherent) (hlt : log.size < 2 ^ 53)
    {entries : List AuditEntry} (hslice : entries.Sublist log.entries) :
    ∃ proofs, inclusionProofs entries log = .ok proofs := by
  have hsize : log.tree.leaves.length = log.size := h.size_tree
  have hall : ∀ e ∈ entries, ∃ p, (do
      let proof ← InMemoryAuditStore.inclusionProof (Number.trunc e.seq.toRat) log
      return (e.seq.toString, .ofProof proof) :
        Except JsError (JsString × InclusionProofObject)) = .ok p := by
    intro e he
    obtain ⟨k, -, hk, hseq⟩ := h.getElem?_of_mem (hslice.mem he)
    have htrunc : Number.trunc e.seq.toRat = k := by
      rw [hseq, Number.ofNat_eq (hk.trans hlt)]
      exact Number.trunc_natCast k
    rw [htrunc, InMemoryAuditStore.inclusionProof, AuditLog.inclusionProof,
      log.tree.inclusionProof_eq (hsize ▸ hk)]
    exact ⟨_, rfl⟩
  rw [inclusionProofs]
  clear hslice
  induction entries with
  | nil => exact ⟨[], rfl⟩
  | cons e entries ih =>
    rw [List.forall_mem_cons] at hall
    obtain ⟨p, hp⟩ := hall.1
    obtain ⟨ps, hps⟩ := ih hall.2
    rw [List.mapM_cons, hp, hps]
    exact ⟨p :: ps, rfl⟩

/-- What signing comes to: the bundle that is created, if one is. -/
theorem ends_signBundle {times : TimeValue → Prop} {response : Response} {run : RunRecord}
    {entries : List AuditEntry} {now : TimeValue} {retention : ResolvedRetention} {root : JsString}
    {proofs : List (JsString × InclusionProofObject)}
    (h : (signBundle signer reader ⟨runId, input.retentionRules⟩ run entries now retention root
      proofs).Ends (Passing times) s response s') (hactor : reader.actor ≠ [])
    (htenant : reader.tenantId ≠ []) (hsize : s.audit.size < 2 ^ 53)
    (hslice : entries.Sublist s.audit.entries) :
    ∃ signedAt bundleId, ∀ id bundle, response = .bundle id bundle ↔ bundleId = id ∧
      createBundle signer now signedAt (bundleInput reader ⟨runId, input.retentionRules⟩ run entries
        now retention root proofs bundleId s.audit.size) = .ok bundle := by
  rw [signBundle] at h
  obtain ⟨_, ⟨t₁, -, rfl⟩, h⟩ := Task.ends_await.mp h
  obtain ⟨u, hu, h⟩ := Task.ends_await.mp h
  have haudit : u.audit = s.audit := (audit_of_passing hu).trans rfl
  refine ⟨t₁, (s.newId (js "bundle")).1, fun id bundle => ?_⟩
  have hroot : (InMemoryAuditStore.root (s.newId (js "bundle")).2.audit).2 = s.audit.size := rfl
  dsimp only at h
  rw [hroot] at h
  cases hcreate : createBundle signer now t₁ (bundleInput reader ⟨runId, input.retentionRules⟩ run
      entries now retention root proofs (s.newId (js "bundle")).1 s.audit.size) with
  | error e =>
    rw [hcreate] at h
    obtain ⟨rfl, -⟩ := h
    refine iff_of_false (by simp) ?_
    rintro ⟨-, ⟨⟩⟩
  | ok created =>
    rw [hcreate] at h
    obtain ⟨-, -, -, retainUntil, -, -, -, hretain, -⟩ := createBundle_ok hcreate
    have hcount : entries.length < 2 ^ 53 := hslice.length_le.trans_lt hsize
    rw [ends_recordBundle hactor htenant (by rw [haudit]; exact hsize) hcount hretain h,
      Response.bundle.injEq, Except.ok.injEq]

/-- **What a request for a bundle comes to**, when only time passes: a bundle input that is made at
one of the times, and the bundle that is created from it, if one is. -/
theorem ends_postBundle {times : TimeValue → Prop} {response : Response}
    (hrun : Accepted ctx input runId s) (hsize : s.audit.size < 2 ^ 53)
    (hscope : js "evidence:generate" ∈ reader.scopes) (hactor : reader.actor ≠ [])
    (htenant : reader.tenantId = ctx.tenantId)
    (h : (postBundle signer reader ⟨runId, input.retentionRules⟩).Ends (Passing times) s response
      s') :
    ∃ now signedAt bundleInput, times now ∧ Made input s.audit now bundleInput ∧
      ∀ id bundle, response = .bundle id bundle ↔
        bundleInput.bundleId = id ∧ createBundle signer now signedAt bundleInput = .ok bundle := by
  obtain ⟨r, splitHash, createdAt, hlookup, hrtenant, hmanifest⟩ := hrun.run
  obtain ⟨first, applied, hrules⟩ := hrun.rules
  rw [postBundle, if_neg (not_not.mpr hscope)] at h
  obtain ⟨_, ⟨t₁, -, rfl⟩, h⟩ := Task.ends_await.mp h
  have hget : InMemoryRunStore.get reader runId s.runs = some r := by
    rw [InMemoryRunStore.get, hlookup, Option.filter_some, if_pos]
    exact decide_eq_true (hrtenant.trans htenant.symm)
  rw [hget] at h
  obtain ⟨_, ⟨now, hnow, rfl⟩, h⟩ := Task.ends_await.mp h
  dsimp only at h
  generalize hentries : InMemoryAuditStore.entriesForSubject reader runId s.audit = entries at h
  have hslice : entries.Sublist s.audit.entries :=
    hentries ▸ InMemoryAuditStore.entriesForSubject_sublist ..
  have hne : entries ≠ [] := by
    obtain ⟨e, he, hetenant, hesubject⟩ := hrun.entry
    rw [← hentries]
    refine @List.ne_nil_of_mem _ e _ ?_
    rw [InMemoryAuditStore.entriesForSubject, List.mem_filter, AuditLog.forTenant, List.mem_filter]
    exact ⟨⟨he, decide_eq_true (hetenant.trans htenant.symm)⟩, decide_eq_true hesubject⟩
  rw [if_neg (by simpa using hne), proveBundle] at h
  obtain ⟨_, ⟨t₃, -, rfl⟩, h⟩ := Task.ends_await.mp h
  dsimp only at h
  rw [resolveRetention_eq hrules] at h
  obtain ⟨_, ⟨t₄, -, rfl⟩, h⟩ := Task.ends_await.mp h
  dsimp only at h
  obtain ⟨proofs, hproofs⟩ := exists_inclusionProofs hrun.coherent hsize hslice
  rw [hproofs] at h
  dsimp only at h
  have htenant' : reader.tenantId ≠ [] := htenant ▸ hrun.tenant
  obtain ⟨signedAt, bundleId, hbundle⟩ := ends_signBundle h hactor htenant' hsize hslice
  refine ⟨now, signedAt, bundleInput reader ⟨runId, input.retentionRules⟩ r entries now _ _ proofs
    bundleId s.audit.size, hnow, ?_, hbundle⟩
  have hproves := proves_of_inclusionProofs hrun.coherent hsize hslice hproofs
  exact ⟨⟨hslice, ⟨proofs, hproves, rfl⟩, rfl, rfl⟩, hne,
    ⟨runId, splitHash, createdAt, hmanifest⟩, rfl, rfl, rfl, first, applied, hrules, rfl⟩

/-- The manifest of an accepted run can be hashed when what the request declares can. -/
theorem isJson_manifest_iff_declared {splitHash createdAt : JsString} :
    ((input.manifestInput runId splitHash).manifest createdAt).toJs.jsonForm.IsJson ↔
      input.model.sampling.toJs.jsonForm.IsJson ∧ input.seed ≠ some .negZero := by
  rw [isJson_manifest_iff]
  change _ ∧ (∀ x ∈ input.seed, _) ∧ JsVal.IsJson (.num (.ofNat 1)) ↔ _
  have hcount : JsVal.IsJson (.num (.ofNat 1)) := by
    rw [Number.ofNat_eq (by norm_num)]
    trivial
  have hseed : (∀ x ∈ input.seed, JsVal.IsJson (.num x)) ↔ input.seed ≠ some .negZero := by
    constructor
    · intro h hneg
      exact h .negZero hneg
    · intro h x hx
      have hint := input.seed_int x hx
      cases x with
      | nan => cases hint
      | infinity s => cases hint
      | negZero => exact absurd hx h
      | finite y => exact trivial
  rw [hseed, and_iff_left hcount]
  rfl

/-- **When what the bundle route makes becomes a bundle that verifies.** -/
theorem Made.verifies_iff (hsigner : signer.Genuine crypto) {log : AuditLog} (h : log.Coherent)
    (hlt : log.size < 2 ^ 32) {now signedAt : TimeValue} {bundleInput : BundleInput}
    (hmade : Made input log now bundleInput) (host : JsString → Number) :
    (∃ bundle, createBundle signer now signedAt bundleInput = .ok bundle ∧
        ∃ r, verifyBundle crypto host bundle signer.publicKeyPem = .ok r ∧ r.valid = true) ↔
      Evidenceable input now log.size := by
  obtain ⟨runId, splitHash, createdAt, hmanifest⟩ := hmade.manifest
  obtain ⟨first, applied, hrules, hretain⟩ := hmade.retainUntil
  have hfloor : ∀ days ∈ (governing first (first :: applied)).minimumDays, days ≤ 3653 := by
    intro days hdays
    obtain ⟨-, ⟨id, -, hid⟩, -⟩ := (governing_floor_iff hrules).mp hdays
    exact floorOf_le hid
  have hcreated := @exists_createBundle_iff crypto signer log now signedAt bundleInput hsigner h
    (hlt.trans (by norm_num)) hmade.cut hmade.entries hmade.consistency hmade.mappings
    hmade.generatedAt _ hfloor hretain
  rw [hmanifest, isJson_manifest_iff_declared] at hcreated
  constructor
  · rintro ⟨bundle, hbundle, hvalid⟩
    obtain ⟨⟨hsampling, hseed⟩, days, hdays, hlong, hdate⟩ := hcreated.mp ⟨bundle, hbundle⟩
    obtain ⟨hfirst, ⟨id, hid, hmem⟩, hlongest⟩ := (governing_floor_iff hrules).mp hdays
    refine ⟨hsampling, hseed, hfirst, ⟨id, hid, days, hmem, hlong⟩, fun id' hid' other hother => ?_,
      ?_⟩
    · have hle := hlongest id' hid' other hother
      omega
    · by_contra hwide
      exact not_valid_of_wide h (not_le.mp hwide) hlt hmade.cut hbundle host _ hvalid
  · intro hev
    obtain ⟨id, hid, floor, hfloor', hlong⟩ := hev.long
    obtain ⟨days, hdays⟩ := exists_governing_floor hrules hev.first
    obtain ⟨-, ⟨id', hid', hmem⟩, hlongest⟩ := (governing_floor_iff hrules).mp hdays
    obtain ⟨bundle, hbundle⟩ := hcreated.mpr ⟨⟨hev.sampling, hev.seed⟩, days, hdays,
      hlong.trans (hlongest id hid floor hfloor'), hev.dates id' hid' days hmem⟩
    obtain ⟨-, -, -, -, hvalid⟩ :=
      verifyBundle_of_createBundle hsigner h hev.size hmade.cut hbundle host
    exact ⟨bundle, hbundle, hvalid⟩

end requests

/-! ## Accepted runs -/

/-- A response with a bundle that verifies. -/
def Response.Verifies (crypto : NodeCrypto) (host : JsString → Number) (publicKeyPem : JsString)
    (response : Response) : Prop :=
  ∃ bundleId bundle r, response = .bundle bundleId bundle ∧
    verifyBundle crypto host bundle publicKeyPem = .ok r ∧ r.valid = true

/-- What is evidenceable until a horizon is evidenceable at any time before it. -/
theorem Evidenceable.mono {input : StartRunInput} {horizon now : TimeValue} {size : ℕ}
    (h : Evidenceable input horizon size) (hnow : now.ms ≤ horizon.ms) :
    Evidenceable input now size := by
  refine ⟨h.sampling, h.seed, h.first, h.long, fun id hid days hdays => ?_, h.size⟩
  have hdate := h.dates id hid days hdays
  omega

/-- **When a run that was accepted can be evidenced** up to a horizon. -/
theorem Accepted.evidenced_iff {crypto : NodeCrypto} {signer : KeySource}
    (hsigner : signer.Genuine crypto) {ctx : TenantContext} {input : StartRunInput}
    {runId : JsString} {s : Stores} (hrun : Accepted ctx input runId s)
    (hsize : s.audit.size < 2 ^ 32) {reader : TenantContext}
    (hscope : js "evidence:generate" ∈ reader.scopes) (hactor : reader.actor ≠ [])
    (htenant : reader.tenantId = ctx.tenantId) (host : JsString → Number) (horizon : TimeValue) :
    (∀ response s', (postBundle signer reader ⟨runId, input.retentionRules⟩).Ends
        (Passing fun t => t.ms ≤ horizon.ms) s response s' →
          response.Verifies crypto host signer.publicKeyPem) ↔
      Evidenceable input horizon s.audit.size := by
  have hsize' : s.audit.size < 2 ^ 53 := hsize.trans (by norm_num)
  constructor
  · intro hall
    -- one of the requests finds the clock at the horizon throughout
    have hpass : ∀ u, ∃ v, Passing (fun t => t = horizon) u v := fun u =>
      ⟨{ u with clock := horizon }, horizon, rfl, rfl⟩
    obtain ⟨response, s', hends⟩ := Task.exists_ends hpass
      (postBundle signer reader ⟨runId, input.retentionRules⟩) s
    have hlate : (postBundle signer reader ⟨runId, input.retentionRules⟩).Ends
        (Passing fun t => t.ms ≤ horizon.ms) s response s' := by
      refine hends.mono ?_
      rintro u v ⟨t, rfl, hv⟩
      exact ⟨t, le_rfl, hv⟩
    obtain ⟨id, bundle, r, hresponse, hvalid⟩ := hall response s' hlate
    obtain ⟨now, signedAt, bundleInput, rfl, hmade, hbundle⟩ :=
      ends_postBundle hrun hsize' hscope hactor htenant hends
    exact (hmade.verifies_iff hsigner hrun.coherent hsize host).mp
      ⟨bundle, ((hbundle id bundle).mp hresponse).2, r, hvalid⟩
  · intro hev response s' hends
    obtain ⟨now, signedAt, bundleInput, hnow, hmade, hbundle⟩ :=
      ends_postBundle hrun hsize' hscope hactor htenant hends
    obtain ⟨bundle, hcreate, r, hvalid⟩ :=
      (hmade.verifies_iff hsigner hrun.coherent hsize host).mpr (hev.mono hnow)
    exact ⟨_, bundle, r, (hbundle _ bundle).mpr ⟨rfl, hcreate⟩, hvalid⟩

/-- **When an accepted run can be evidenced.** In every later state, every request for the bundle of
an accepted run under the rules of the run, with nothing but time in between, is answered with a
bundle that verifies exactly when the run was evidenceable. -/
theorem run_evidenced_iff (toUpperCase : JsString → JsString) (crypto : NodeCrypto)
    (signer : KeySource) (hsigner : signer.Genuine crypto) (host : JsString → Number)
    (ctx : TenantContext) (input : StartRunInput) (runId : JsString) (status : RunStatus)
    (s₀ s₁ s : Stores) (hs₀ : s₀.audit.Coherent)
    (haccepted : (postRun toUpperCase ctx input).Ends Grows s₀ (.accepted runId status) s₁)
    (hlater : Grows s₁ s) (hsize : s.audit.size < 2 ^ 32) (reader : TenantContext)
    (hscope : js "evidence:generate" ∈ reader.scopes) (hactor : reader.actor ≠ [])
    (htenant : reader.tenantId = ctx.tenantId) (horizon : TimeValue) :
    (∀ response s', (postBundle signer reader ⟨runId, input.retentionRules⟩).Ends
        (Passing fun t => t.ms ≤ horizon.ms) s response s' →
          response.Verifies crypto host signer.publicKeyPem) ↔
      Evidenceable input horizon s.audit.size := by
  have hsize' : s₁.audit.size < 2 ^ 53 :=
    hlater.entries.length_le.trans_lt (hsize.trans (by norm_num))
  have hrun : Accepted ctx input runId s := (accepted_of_postRun hs₀ hsize' haccepted).grows hlater
  exact hrun.evidenced_iff hsigner hsize hscope hactor htenant host horizon

section examples

/-- A user who may start runs and ask for their evidence. -/
def evidenceUser : TenantContext :=
  ⟨js "tenant", js "user", [js "runs:write", js "evidence:generate", heldOutScope]⟩

/-- A request under known rules is accepted. -/
theorem exists_accepted (toUpperCase : JsString → JsString) {rules : List JsString}
    (hrules : rules ≠ [] ∧ [] ∉ rules) {first : RetentionRule} {applied : List RetentionRule}
    (hknown : rules.map lookupRule = (first :: applied).map some) :
    ∃ runId status s₁, (postRun toUpperCase evidenceUser (rulesInput rules hrules)).Ends Grows
      startStores (.accepted runId status) s₁ ∧ s₁.audit.size = 1 := by
  have hscope : heldOutScope ∈ evidenceUser.scopes :=
    List.mem_cons_of_mem _ (List.mem_cons_of_mem _ (List.mem_singleton_self _))
  have hwrite : ¬ js "runs:write" ∉ evidenceUser.scopes := not_not.mpr (List.mem_cons_self ..)
  obtain ⟨run, hcreated⟩ :=
    exists_submit_rulesInput toUpperCase evidenceUser hscope startStores hrules hknown
  obtain ⟨-, -, -, -, hstored⟩ := submit_created hcreated
  generalize hu : (submit toUpperCase evidenceUser (rulesInput rules hrules) startStores).2 = u
    at hstored
  have haudit : u.audit = .new := by
    rw [hstored]
    rfl
  have haccepts : Accepts evidenceUser ⟨js "run.started", some run.id,
      some (startedPayload (rulesInput rules hrules)).toObject, none⟩ := by
    refine ⟨?_, ?_, ?_, nofun, (startedPayload _).isJson_toJs⟩
    all_goals
      change js _ ≠ []
      simp
  obtain ⟨entry, hok, -⟩ := haccepts.append (s := u) (by rw [haudit]; decide)
  refine ⟨run.id, run.status, { u with audit := u.audit.extend entry }, ?_, ?_⟩
  · rw [postRun, if_neg hwrite]
    refine Task.ends_await.mpr ⟨u, ?_, ?_⟩
    · rw [hu]
      exact Grows.refl u
    · rw [hcreated]
      refine Task.ends_await.mpr ⟨_, Grows.refl _, ?_⟩
      rw [hok]
      exact ⟨rfl, rfl⟩
  · dsimp only
    rw [haudit]
    rfl

/-- A new log is coherent. -/
theorem coherent_startStores : startStores.audit.Coherent := AuditLog.coherent_run []

/-- A run under the AI Act is evidenced as long as the clock shows the first instant. -/
theorem run_evidenced_plain : ∃ runId status s₁,
    (postRun id evidenceUser plainInput).Ends Grows startStores (.accepted runId status) s₁ ∧
      ∀ response s', (postBundle digestKey evidenceUser ⟨runId, plainInput.retentionRules⟩).Ends
        (Passing fun t => t.ms ≤ epoch.ms) s₁ response s' →
          response.Verifies digestCrypto (fun _ => .nan) digestKey.publicKeyPem := by
  have hknown : plainInput.retentionRules.map lookupRule =
      [⟨some (js "eu-ai-act-art-19"), some (js
        "EU AI Act Art. 19 — automatically generated logs, at least six months"),
        some art19MinimumDays, none⟩].map some := rfl
  obtain ⟨runId, status, s₁, haccepted, hsize⟩ := exists_accepted id plainInput.rules_ne hknown
  have hscope : js "evidence:generate" ∈ evidenceUser.scopes :=
    List.mem_cons_of_mem _ (List.mem_cons_self ..)
  have hactor : evidenceUser.actor ≠ [] := by
    change js "user" ≠ []
    simp
  refine ⟨runId, status, s₁, haccepted, (run_evidenced_iff id digestCrypto digestKey
    genuine_digestKey (fun _ => .nan) evidenceUser plainInput runId status startStores s₁ s₁
    coherent_startStores haccepted (Grows.refl s₁) (by rw [hsize]; norm_num) evidenceUser hscope
    hactor rfl epoch).mpr ?_⟩
  have hfloor : floorOf (js "eu-ai-act-art-19") = some 183 := rfl
  refine ⟨StringRecord.isJson_toJs _, nofun, ⟨_, rfl, rfl⟩, ?_, ?_, by rw [hsize]; norm_num⟩
  · exact ⟨_, List.mem_singleton_self _, 183, hfloor, le_rfl⟩
  · rintro id hid days hdays
    rw [List.mem_singleton.mp hid, hfloor] at hdays
    cases hdays
    decide

/-- **A run under the storage limitation alone is accepted, and never evidenced.** -/
theorem storage_limitation_not_evidenced : ¬ ∀ (toUpperCase : JsString → JsString)
    (crypto : NodeCrypto) (signer : KeySource) (host : JsString → Number) (ctx : TenantContext)
    (input : StartRunInput) (runId : JsString) (status : RunStatus) (s₀ s₁ s : Stores)
    (reader : TenantContext) (horizon : TimeValue), signer.Genuine crypto → s₀.audit.Coherent →
    (postRun toUpperCase ctx input).Ends Grows s₀ (.accepted runId status) s₁ → Grows s₁ s →
    s.audit.size < 2 ^ 32 → js "evidence:generate" ∈ reader.scopes → reader.actor ≠ [] →
    reader.tenantId = ctx.tenantId →
    ∀ response s', (postBundle signer reader ⟨runId, input.retentionRules⟩).Ends
      (Passing fun t => t.ms ≤ horizon.ms) s response s' →
        response.Verifies crypto host signer.publicKeyPem := by
  intro hall
  have hrules : [js "gdpr-storage-limitation"] ≠ [] ∧ [] ∉ [js "gdpr-storage-limitation"] :=
    ⟨List.cons_ne_nil _ _, by simp⟩
  have hknown : [js "gdpr-storage-limitation"].map lookupRule =
      [⟨some (js "gdpr-storage-limitation"), some (js
        "GDPR Art. 5(1)(e) — kept no longer than necessary"), some 0, none⟩].map some := rfl
  obtain ⟨runId, status, s₁, haccepted, hsize⟩ := exists_accepted id hrules hknown
  have hscope : js "evidence:generate" ∈ evidenceUser.scopes :=
    List.mem_cons_of_mem _ (List.mem_cons_self ..)
  have hactor : evidenceUser.actor ≠ [] := by
    change js "user" ≠ []
    simp
  have hrun : Accepted evidenceUser (rulesInput _ hrules) runId s₁ :=
    accepted_of_postRun coherent_startStores (by rw [hsize]; norm_num) haccepted
  have hevidenced := hall id digestCrypto digestKey (fun _ => .nan) evidenceUser
    (rulesInput _ hrules) runId status startStores s₁ s₁ evidenceUser epoch genuine_digestKey
    coherent_startStores haccepted (Grows.refl s₁) (by rw [hsize]; norm_num) hscope hactor rfl
  obtain ⟨id, hid, days, hdays, hlong⟩ := ((hrun.evidenced_iff genuine_digestKey
    (by rw [hsize]; norm_num) hscope hactor rfl (fun _ => .nan) epoch).mp hevidenced).long
  have hfloor : floorOf (js "gdpr-storage-limitation") = some 0 := rfl
  rw [List.mem_singleton.mp hid, hfloor] at hdays
  cases hdays
  cases hlong

end examples

end AgentEval.Api
