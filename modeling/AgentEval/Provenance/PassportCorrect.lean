import AgentEval.Provenance.Passport

/-!
# Passports: complete, and what class a verifier finds

* `PassportPayload.Accepted.json`, **`verifyPassport_json`**: what is accepted is accepted after
  `JSON.stringify` and `JSON.parse`.
* **`passport_complete`**: an issued passport whose arithmetic holds is accepted, before and after.
* **`supportedClass_eq_iff`**: the class a verifier finds in an issued passport is the one signed
  exactly when the numbers were not self-reported.
-/

namespace AgentEval.Provenance

open Js Evidence

/-! ## The way through JSON text -/

/-- The digests after a way through JSON text. -/
def ArtifactDigests.json (d : ArtifactDigests) : ArtifactDigests where
  toPlainObject := d.toPlainObject.json
  model := d.model
  deployment := d.deployment
  get_model := by rw [PlainObject.get_json, d.get_model]; rfl
  get_deployment := by rw [PlainObject.get_json, d.get_deployment]; rfl

/-- The metrics after it. -/
def PassportMetrics.json (m : PassportMetrics) : PassportMetrics where
  toPlainObject := m.toPlainObject.json
  successRate := m.successRate
  tasksAttempted := m.tasksAttempted
  tasksSucceeded := m.tasksSucceeded
  trials := m.trials
  get_successRate := by rw [PlainObject.get_json, m.get_successRate]; rfl
  get_tasksAttempted := by rw [PlainObject.get_json, m.get_tasksAttempted]; rfl
  get_tasksSucceeded := by rw [PlainObject.get_json, m.get_tasksSucceeded]; rfl
  get_trials := by rw [PlainObject.get_json, m.get_trials]; rfl

/-- The statistics after it. -/
def PassportStatistics.json (s : PassportStatistics) : PassportStatistics where
  toPlainObject := s.toPlainObject.json
  confidenceIntervalLow := s.confidenceIntervalLow
  confidenceIntervalHigh := s.confidenceIntervalHigh
  confidenceLevel := s.confidenceLevel
  get_confidenceIntervalLow := by rw [PlainObject.get_json, s.get_confidenceIntervalLow]; rfl
  get_confidenceIntervalHigh := by rw [PlainObject.get_json, s.get_confidenceIntervalHigh]; rfl
  get_confidenceLevel := by rw [PlainObject.get_json, s.get_confidenceLevel]; rfl

/-- The evidence after it. -/
def PassportEvidence.json (e : PassportEvidence) : PassportEvidence where
  toPlainObject := e.toPlainObject.json
  merkleRoot := e.merkleRoot
  treeSize := e.treeSize
  get_merkleRoot := by rw [PlainObject.get_json, e.get_merkleRoot]; rfl
  get_treeSize := by rw [PlainObject.get_json, e.get_treeSize]; rfl

/-- A payload after it. -/
def PassportPayload.json (payload : PassportPayload) : PassportPayload where
  toPlainObject := payload.toPlainObject.json
  passportVersion := payload.passportVersion
  model := payload.model.json
  deployment := payload.deployment.json
  digests := payload.digests.json
  metrics := payload.metrics.json
  statistics := payload.statistics.json
  evidence := payload.evidence.map PassportEvidence.json
  provenanceClass := payload.provenanceClass
  get_passportVersion := by rw [PlainObject.get_json, payload.get_passportVersion]; rfl
  get_model := by
    rw [PlainObject.get_json, payload.get_model]
    exact PlainObject.toJs_json.symm
  get_deployment := by
    rw [PlainObject.get_json, payload.get_deployment]
    exact PlainObject.toJs_json.symm
  get_digests := by
    rw [PlainObject.get_json, payload.get_digests]
    exact PlainObject.toJs_json.symm
  get_metrics := by
    rw [PlainObject.get_json, payload.get_metrics]
    exact PlainObject.toJs_json.symm
  get_statistics := by
    rw [PlainObject.get_json, payload.get_statistics]
    exact PlainObject.toJs_json.symm
  get_evidence := by
    rw [PlainObject.get_json, payload.get_evidence]
    cases payload.evidence with
    | none => rfl
    | some e => exact PlainObject.toJs_json.symm
  get_provenanceClass := by rw [PlainObject.get_json, payload.get_provenanceClass]; rfl

/-- Evidence stays there. -/
theorem hasEvidence_json (evidence : Option PassportEvidence) :
    hasEvidence (evidence.map PassportEvidence.json) = hasEvidence evidence := by
  cases evidence <;> rfl

/-- **What is accepted of a payload is accepted after a way through JSON text.** -/
theorem PassportPayload.Accepted.json {payload : PassportPayload} (h : payload.Accepted) :
    payload.json.Accepted where
  version := h.version
  model := (modelDigest_json payload.model).trans h.model
  deployment := (deploymentDigest_json payload.deployment).trans h.deployment
  evidence := by
    intro hclass
    exact (hasEvidence_json payload.evidence).trans (h.evidence hclass)
  rate := h.rate
  interval := h.interval

/-- A passport after a way through JSON text. -/
def Passport.json (passport : Passport) : Passport :=
  ⟨passport.payload.json, passport.signature.json⟩

/-- The passport as a value. -/
theorem Passport.toJs_json (passport : Passport) : passport.json.toJs = passport.toJs.jsonForm := by
  have hpayload : passport.payload.json.toJs = passport.payload.toJs.jsonForm :=
    PlainObject.toJs_json
  have hsignature : passport.signature.json.toJs = passport.signature.toJs.jsonForm :=
    PlainObject.toJs_json
  unfold Passport.toJs Passport.json
  rw [JsVal.jsonForm_obj, hpayload, hsignature]
  rfl

/-- The text of a passport reads back as its JSON form. -/
theorem Passport.jsonParse_jsonStringify (passport : Passport)
    (hpayload : passport.payload.toJs.jsonForm.IsJson)
    (hsignature : passport.signature.toJs.jsonForm.IsJson) :
    ∃ text, jsonStringify passport.toJs = .ok (some text) ∧
      jsonParse text = some passport.json.toJs := by
  have hjson : passport.toJs.jsonForm.IsJson := by
    rw [← passport.toJs_json, Passport.toJs]
    refine JsVal.isJson_obj.mpr ⟨?_, ?_⟩
    · change [js "payload", js "signature"].Nodup
      simp
    · rw [← PlainObject.toJs_json] at hpayload hsignature
      simp only [List.forall_mem_cons]
      exact ⟨hpayload, hsignature, List.forall_mem_nil _⟩
  obtain ⟨text, htext, hparse⟩ := JsVal.jsonParse_jsonStringify hjson
  exact ⟨text, htext, by rw [hparse, passport.toJs_json]⟩

/-- **An accepted passport is accepted after a way through JSON text.** -/
theorem verifyPassport_json {crypto : NodeCrypto} {passport : Passport} {publicKeyPem : JsString}
    (h : (verifyPassport crypto passport publicKeyPem).valid = true) :
    (verifyPassport crypto passport.json publicKeyPem).valid = true := by
  obtain ⟨hsig, hacc⟩ := verifyPassport_valid_iff.mp h
  exact verifyPassport_valid_iff.mpr ⟨verifySignature_json hsig, hacc.json⟩

/-! ## Inputs that are issued -/

/-- A payload can be written when the objects it is made of can. -/
theorem isJson_passportPayload {input : IssuePassportInput}
    (hmodel : input.model.toJs.jsonForm.IsJson)
    (hdeployment : input.deployment.toJs.jsonForm.IsJson)
    (hmetrics : input.metrics.toJs.jsonForm.IsJson)
    (hstatistics : input.statistics.toJs.jsonForm.IsJson)
    (heconomics : ∀ e ∈ input.economics, e.toJs.jsonForm.IsJson)
    (hevidence : ∀ e ∈ input.evidence, e.toJs.jsonForm.IsJson) (now : TimeValue) :
    (passportPayload input now).toJs.jsonForm.IsJson := by
  have hstr : ∀ t, (JsVal.str t).jsonForm.IsJson := fun _ => trivial
  have hoptional : ∀ key s, ∀ p ∈ optionalText key s, p.2.jsonForm.IsJson := by
    intro key s
    exact @forall_optionalText (fun v => v.jsonForm.IsJson) hstr key s
  have hdigests : (artifactDigests input).toJs.jsonForm.IsJson := by
    refine PlainObject.isJson_of_forall ?_
    unfold artifactDigests digestProps
    simp only [List.forall_mem_append, List.forall_mem_cons]
    exact ⟨⟨⟨⟨⟨⟨hstr _, hstr _, hstr _, List.forall_mem_nil _⟩, hoptional _ _⟩, hoptional _ _⟩,
      hoptional _ _⟩, hoptional _ _⟩, hoptional _ _⟩
  refine PlainObject.isJson_of_forall ?_
  unfold passportPayload payloadProps
  simp only [List.forall_mem_append, List.forall_mem_cons, List.forall_mem_map]
  refine ⟨⟨⟨⟨hstr _, hstr _, hstr _, StringRecord.isJson_toJs _, hmodel, hdeployment, hstr _,
    hstr _, hdigests, hmetrics, hstatistics, List.forall_mem_nil _⟩,
    fun e he => heconomics e (Option.mem_toList.mp he)⟩,
    fun e he => hevidence e (Option.mem_toList.mp he)⟩, hstr _, StringRecord.isJson_toJs _, ?_,
    List.forall_mem_nil _⟩
  rw [JsVal.jsonForm_arr, JsVal.isJson_arr, List.map_map, List.forall_mem_map]
  exact fun _ _ => trivial

/-- A genuine key issues what can be written. -/
theorem exists_issuePassport {crypto : NodeCrypto} {keySource : KeySource}
    (hkey : keySource.Genuine crypto) {input : IssuePassportInput} {now : TimeValue}
    (hjson : (passportPayload input now).toJs.jsonForm.IsJson) (signedAt : TimeValue) :
    ∃ passport, issuePassport keySource now signedAt input = .ok passport := by
  obtain ⟨signature, hsign⟩ := exists_sign hkey hjson signedAt
  refine ⟨⟨passportPayload input now, signature⟩, ?_⟩
  unfold issuePassport
  rw [hsign]
  rfl

/-- A model at a commit. -/
def qwen : ModelIdentity where
  props := [(js "repository", .str (js "Qwen/Qwen3-8B")), (js "origin", .str (js "hub")),
    (js "commitSha", .str (js "aaaaaaaa"))]
  wf := by
    refine JsVal.wf_obj.mpr ⟨?_, ?_⟩
    · change [js "repository", js "origin", js "commitSha"].Nodup
      simp
    · simp only [List.forall_mem_cons]
      exact ⟨trivial, trivial, trivial, List.forall_mem_nil _⟩
  repository := js "Qwen/Qwen3-8B"
  origin := .hub
  revision := none
  commitSha := some (js "aaaaaaaa")
  weightsDigest := none
  tokenizerRepository := none
  tokenizerRevision := none
  get_repository := rfl
  get_origin := rfl
  get_revision := rfl
  get_commitSha := rfl
  get_weightsDigest := rfl
  get_tokenizerRepository := rfl
  get_tokenizerRevision := rfl

/-- A runtime with nothing but its engine. -/
def vllmRuntime : RuntimeProvenance where
  props := [(js "engine", .str (js "vllm"))]
  wf := JsVal.wf_obj.mpr ⟨List.nodup_singleton _, List.forall_mem_singleton.mpr trivial⟩
  engine := .vllm
  engineVersion := none
  containerDigest := none
  precision := none
  quantization := none
  tensorParallelism := none
  get_engine := rfl
  get_engineVersion := rfl
  get_containerDigest := rfl
  get_precision := rfl
  get_quantization := rfl
  get_tensorParallelism := rfl

/-- The model served by it. -/
def vllmDeployment : DeploymentIdentity where
  props := [(js "provider", .str (js "vllm")), (js "servedModelId", .str (js "Qwen/Qwen3-8B")),
    (js "runtime", vllmRuntime.toJs)]
  wf := by
    refine JsVal.wf_obj.mpr ⟨?_, ?_⟩
    · change [js "provider", js "servedModelId", js "runtime"].Nodup
      simp
    · simp only [List.forall_mem_cons]
      exact ⟨trivial, trivial, vllmRuntime.wf, List.forall_mem_nil _⟩
  provider := js "vllm"
  servedModelId := js "Qwen/Qwen3-8B"
  runtime := vllmRuntime
  accelerator := none
  endpoint := none
  get_provider := rfl
  get_servedModelId := rfl
  get_runtime := rfl
  get_accelerator := rfl
  get_endpoint := rfl

/-- One task, attempted once. -/
def oneOfOne : PassportMetrics where
  props := [(js "successRate", .num (.ofNat 1)), (js "tasksAttempted", .num (.ofNat 1)),
    (js "tasksSucceeded", .num (.ofNat 1)), (js "trials", .num (.ofNat 1))]
  wf := by
    refine JsVal.wf_obj.mpr ⟨?_, ?_⟩
    · change [js "successRate", js "tasksAttempted", js "tasksSucceeded", js "trials"].Nodup
      simp
    · simp only [List.forall_mem_cons]
      exact ⟨trivial, trivial, trivial, trivial, List.forall_mem_nil _⟩
  successRate := .ofNat 1
  tasksAttempted := .ofNat 1
  tasksSucceeded := .ofNat 1
  trials := .ofNat 1
  get_successRate := rfl
  get_tasksAttempted := rfl
  get_tasksSucceeded := rfl
  get_trials := rfl

/-- An interval that says nothing. -/
def unitInterval : PassportStatistics where
  props := [(js "confidenceIntervalLow", .num (.ofNat 0)),
    (js "confidenceIntervalHigh", .num (.ofNat 1)), (js "confidenceLevel", .num (.ofNat 1))]
  wf := by
    refine JsVal.wf_obj.mpr ⟨?_, ?_⟩
    · change [js "confidenceIntervalLow", js "confidenceIntervalHigh", js "confidenceLevel"].Nodup
      simp
    · simp only [List.forall_mem_cons]
      exact ⟨trivial, trivial, trivial, List.forall_mem_nil _⟩
  confidenceIntervalLow := .ofNat 0
  confidenceIntervalHigh := .ofNat 1
  confidenceLevel := .ofNat 1
  get_confidenceIntervalLow := rfl
  get_confidenceIntervalHigh := rfl
  get_confidenceLevel := rfl

/-- Evidence over a log of one entry. -/
def oneEntry : PassportEvidence where
  props := [(js "merkleRoot", .str (js "dddddddd")), (js "treeSize", .num (.ofNat 1)),
    (js "bundleId", .str (js "bundle_1"))]
  wf := by
    refine JsVal.wf_obj.mpr ⟨?_, ?_⟩
    · change [js "merkleRoot", js "treeSize", js "bundleId"].Nodup
      simp
    · simp only [List.forall_mem_cons]
      exact ⟨trivial, trivial, trivial, List.forall_mem_nil _⟩
  merkleRoot := js "dddddddd"
  treeSize := .ofNat 1
  get_merkleRoot := rfl
  get_treeSize := rfl

/-- An input with evidence. -/
def plainPassport (selfReported : Option Bool) : IssuePassportInput where
  passportId := js "psp_test"
  issuerVersion := js "1.0.0"
  model := qwen
  deployment := vllmDeployment
  benchmarkId := js "terminal-bench"
  benchmarkVersion := js "2.1"
  benchmarkDigest := js "sha256:bbbbbbbb"
  environmentDigest := none
  verifierDigest := none
  scorerDigest := none
  judgeDigest := none
  trajectoriesDigest := none
  metrics := oneOfOne
  statistics := unitInterval
  economics := none
  evidence := some oneEntry
  selfReported := selfReported

/-- It is issued. -/
theorem exists_plainPassport (selfReported : Option Bool) : ∃ passport,
    issuePassport digestKey ⟨0, TimeValue.zero_inRange⟩ ⟨0, TimeValue.zero_inRange⟩
      (plainPassport selfReported) = .ok passport := by
  have hnum : ∀ n : ℕ, n < 2 → (JsVal.num (.ofNat n)).jsonForm.IsJson := by
    intro n hn
    rw [Number.ofNat_eq (hn.trans (by norm_num))]
    trivial
  have hstr : ∀ t, (JsVal.str t).jsonForm.IsJson := fun _ => trivial
  refine exists_issuePassport genuine_digestKey (isJson_passportPayload ?_ ?_ ?_ ?_ ?_ ?_ _) _
  · refine PlainObject.isJson_of_forall (List.forall_mem_cons.mpr ⟨hstr _, ?_⟩)
    exact List.forall_mem_cons.mpr ⟨hstr _, List.forall_mem_singleton.mpr (hstr _)⟩
  · refine PlainObject.isJson_of_forall (List.forall_mem_cons.mpr ⟨hstr _, ?_⟩)
    refine List.forall_mem_cons.mpr ⟨hstr _, List.forall_mem_singleton.mpr ?_⟩
    exact PlainObject.isJson_of_forall (List.forall_mem_singleton.mpr (hstr _))
  · refine PlainObject.isJson_of_forall ?_
    unfold plainPassport oneOfOne
    simp only [List.forall_mem_cons]
    exact ⟨hnum 1 one_lt_two, hnum 1 one_lt_two, hnum 1 one_lt_two, hnum 1 one_lt_two,
      List.forall_mem_nil _⟩
  · refine PlainObject.isJson_of_forall ?_
    unfold plainPassport unitInterval
    simp only [List.forall_mem_cons]
    exact ⟨hnum 0 zero_lt_two, hnum 1 one_lt_two, hnum 1 one_lt_two, List.forall_mem_nil _⟩
  · intro e he
    cases he
  · intro e he
    obtain rfl : oneEntry = e := Option.some.inj he
    refine PlainObject.isJson_of_forall ?_
    unfold oneEntry
    simp only [List.forall_mem_cons]
    exact ⟨hstr _, hnum 1 one_lt_two, hstr _, List.forall_mem_nil _⟩

/-- Its success rate is that of the counts. -/
theorem rateConsistent_oneOfOne : oneOfOne.rateConsistent = true := by
  have hdiv : (Number.ofNat 1).div (.ofNat 1) = .ofNat 1 := by
    have h : (Number.ofNat 1).toRat = 1 := by simp [Number.ofNat_eq, Number.toRat]
    rw [Number.ofNat_eq (by norm_num)] at h ⊢
    simp only [Number.div, h, div_one, one_ne_zero, if_false]
    exact Number.ofRat_of_isDouble _
  have hbound : (2 : ℚ) ^ (-40 : ℤ) ≤ roundQ (1 / 10 ^ 9) :=
    le_roundQ_of_isDouble ⟨1, -40, by norm_num, by norm_num, by norm_num, by norm_num⟩ (by norm_num)
  have hlt : (Number.ofNat 0).lt (.ofRat (1 / 10 ^ 9)) = true := by
    have hpos : (0 : ℚ) < roundQ (1 / 10 ^ 9) := lt_of_lt_of_le (by norm_num) hbound
    rw [Number.lt, Number.ofNat_eq (by norm_num)]
    rcases Number.place_ofRat (q := 1 / 10 ^ 9) (by norm_num) with hplace | hplace
    · rw [hplace]
      apply decide_eq_true
      simpa [Number.place] using hpos
    · rw [hplace]
      apply decide_eq_true
      exact WithBot.coe_lt_coe.mpr (WithTop.coe_lt_top _)
  have habs : (Number.ofNat 0).abs = .ofNat 0 := by
    rw [Number.ofNat_eq (by norm_num)]
    simp [Number.abs]
  unfold PassportMetrics.rateConsistent oneOfOne
  rw [hdiv, Number.sub_ofNat (by norm_num) le_rfl, Nat.sub_self, habs, hlt, Bool.or_true]

/-- Its interval is one. -/
theorem intervalSane_unitInterval : unitInterval.intervalSane = true := by
  unfold PassportStatistics.intervalSane unitInterval
  simp [Number.le_ofNat]

/-! ## Completeness -/

/-- The payload of an input whose arithmetic holds is accepted. -/
theorem accepted_passportPayload {input : IssuePassportInput}
    (hrate : input.metrics.rateConsistent = true)
    (hinterval : input.statistics.intervalSane = true) (now : TimeValue) :
    (passportPayload input now).Accepted where
  version := rfl
  model := rfl
  deployment := rfl
  evidence := hasEvidence_of_deriveProvenanceClass
  rate := hrate
  interval := hinterval

/-- **Passport completeness.** Whatever `issuePassport` accepts with a success rate and an interval
that satisfy the verifier's arithmetic, the passport is accepted under the signer's public key, and
accepted after `JSON.stringify` and `JSON.parse`. -/
theorem passport_complete (crypto : NodeCrypto) (keySource : KeySource)
    (hkey : keySource.Sound crypto) (now signedAt : TimeValue) (input : IssuePassportInput)
    (passport : Passport) (hissue : issuePassport keySource now signedAt input = .ok passport)
    (hrate : input.metrics.rateConsistent = true)
    (hinterval : input.statistics.intervalSane = true) :
    (verifyPassport crypto passport keySource.publicKeyPem).valid = true ∧
      ∃ text parsed, jsonStringify passport.toJs = .ok (some text) ∧
        jsonParse text = some (Passport.toJs parsed) ∧
        (verifyPassport crypto parsed keySource.publicKeyPem).valid = true := by
  obtain ⟨hpayload, hsign⟩ := issuePassport_ok hissue
  have hvalid : (verifyPassport crypto passport keySource.publicKeyPem).valid = true := by
    apply verifyPassport_valid_iff.mpr
    rw [hpayload]
    exact ⟨verifySignature_sign hkey hsign, accepted_passportPayload hrate hinterval now⟩
  have hjson : passport.payload.toJs.jsonForm.IsJson ∧
      passport.signature.toJs.jsonForm.IsJson := by
    obtain ⟨hjson, value, -, hsignature⟩ := sign_ok hsign
    rw [hpayload, hsignature]
    exact ⟨hjson, isJson_ofValue _ _ _⟩
  obtain ⟨text, htext, hparse⟩ := passport.jsonParse_jsonStringify hjson.1 hjson.2
  exact ⟨hvalid, text, passport.json, htext, hparse, verifyPassport_json hvalid⟩

/-- A passport that is accepted, before and after. -/
theorem passport_complete_plain : ∃ passport,
    issuePassport digestKey ⟨0, TimeValue.zero_inRange⟩ ⟨0, TimeValue.zero_inRange⟩
      (plainPassport none) = .ok passport ∧
    (verifyPassport digestCrypto passport digestKey.publicKeyPem).valid = true ∧
    ∃ text parsed, jsonStringify passport.toJs = .ok (some text) ∧
      jsonParse text = some (Passport.toJs parsed) ∧
      (verifyPassport digestCrypto parsed digestKey.publicKeyPem).valid = true := by
  obtain ⟨passport, hissue⟩ := exists_plainPassport none
  exact ⟨passport, hissue, passport_complete digestCrypto digestKey genuine_digestKey.sound _ _ _
    passport hissue rateConsistent_oneOfOne intervalSane_unitInterval⟩

/-! ## The class a verifier finds -/

/-- The class found in an issued passport. -/
theorem supportedClass_of_issued {crypto : NodeCrypto} {keySource : KeySource}
    {now signedAt : TimeValue} {input : IssuePassportInput} {passport : Passport}
    (hissue : issuePassport keySource now signedAt input = .ok passport)
    (publicKeyPem : JsString) :
    (verifyPassport crypto passport publicKeyPem).supportedClass =
        supportedClass input.evidence ∧
      passport.payload.provenanceClass = (deriveProvenanceClass input).1 := by
  obtain ⟨hpayload, -⟩ := issuePassport_ok hissue
  unfold verifyPassport
  rw [hpayload]
  exact ⟨rfl, rfl⟩

/-- Where the numbers were not self-reported, issuer and verifier derive one class. -/
theorem deriveProvenanceClass_eq {input : IssuePassportInput} (h : input.selfReported ≠ some true) :
    (deriveProvenanceClass input).1 = supportedClass input.evidence := by
  unfold deriveProvenanceClass supportedClass
  rw [if_neg h]
  cases hasEvidence input.evidence <;> rfl

/-- Where they were, the issuer derives the weakest class and the verifier a stronger one. -/
theorem strength_lt_of_selfReported {input : IssuePassportInput}
    (h : input.selfReported = some true) :
    (deriveProvenanceClass input).1.strength < (supportedClass input.evidence).strength := by
  unfold deriveProvenanceClass supportedClass
  rw [if_pos h]
  cases hasEvidence input.evidence
  · exact Nat.zero_lt_one
  · exact Nat.zero_lt_two

/-- **The class a verifier finds in an issued passport is the one that was signed exactly when the
numbers were not self-reported**, and exactly then it is no stronger. -/
theorem supportedClass_eq_iff (crypto : NodeCrypto) (keySource : KeySource)
    (now signedAt : TimeValue) (input : IssuePassportInput) (passport : Passport)
    (hissue : issuePassport keySource now signedAt input = .ok passport)
    (publicKeyPem : JsString) :
    ((verifyPassport crypto passport publicKeyPem).supportedClass =
        passport.payload.provenanceClass ↔ input.selfReported ≠ some true) ∧
      ((verifyPassport crypto passport publicKeyPem).supportedClass.strength ≤
        passport.payload.provenanceClass.strength ↔ input.selfReported ≠ some true) := by
  obtain ⟨hsupported, hclass⟩ := @supportedClass_of_issued crypto _ _ _ _ _ hissue publicKeyPem
  rw [hsupported, hclass]
  by_cases hself : input.selfReported = some true
  · have hlt := strength_lt_of_selfReported hself
    refine ⟨iff_of_false ?_ (not_not.mpr hself), iff_of_false (not_le.mpr hlt) (not_not.mpr hself)⟩
    intro heq
    rw [heq] at hlt
    exact lt_irrefl _ hlt
  · have heq := deriveProvenanceClass_eq hself
    exact ⟨iff_of_true heq.symm hself, iff_of_true (heq ▸ le_rfl) hself⟩

/-- The class found in a passport whose numbers were not self-reported. -/
theorem supportedClass_plain : ∃ passport,
    issuePassport digestKey ⟨0, TimeValue.zero_inRange⟩ ⟨0, TimeValue.zero_inRange⟩
      (plainPassport (some false)) = .ok passport ∧
    (verifyPassport digestCrypto passport digestKey.publicKeyPem).supportedClass =
      passport.payload.provenanceClass := by
  obtain ⟨passport, hissue⟩ := exists_plainPassport (some false)
  refine ⟨passport, hissue, ?_⟩
  apply (supportedClass_eq_iff digestCrypto _ _ _ _ _ hissue _).1.mpr
  intro h
  cases h

/-- There is evidence. -/
theorem hasEvidence_plain (selfReported : Option Bool) :
    hasEvidence (plainPassport selfReported).evidence = true := by
  have hroot : js "dddddddd" ≠ [] := List.cons_ne_nil _ _
  have hsize : (Number.ofNat 0).lt (.ofNat 1) = true := Number.lt_ofNat_of_lt (by norm_num) one_pos
  unfold hasEvidence plainPassport oneEntry
  simp only [Option.any_some, hsize, Bool.and_true, decide_eq_true_eq]
  exact hroot

/-- A self-reported number with evidence is signed as self-reported and found to be verified. -/
theorem selfReported_found_verified : ∃ passport,
    issuePassport digestKey ⟨0, TimeValue.zero_inRange⟩ ⟨0, TimeValue.zero_inRange⟩
      (plainPassport (some true)) = .ok passport ∧
    passport.payload.provenanceClass = .selfReported ∧
    (verifyPassport digestCrypto passport digestKey.publicKeyPem).supportedClass =
      .agentEvalVerified := by
  obtain ⟨passport, hissue⟩ := exists_plainPassport (some true)
  obtain ⟨hsupported, hclass⟩ := @supportedClass_of_issued digestCrypto _ _ _ _ _ hissue
    digestKey.publicKeyPem
  refine ⟨passport, hissue, hclass, ?_⟩
  rw [hsupported, supportedClass, hasEvidence_plain, if_pos rfl]

end AgentEval.Provenance
