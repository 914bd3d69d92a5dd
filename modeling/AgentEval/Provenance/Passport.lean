import AgentEval.Js.Arith
import AgentEval.Provenance.Identity

/-!
# `provenance/passport.ts`: the evaluation passport

A passport is a signed object: what ran, how well it did, how uncertain that is, and the evidence.
`issuePassport` derives the provenance class and signs; `verifyPassport` recomputes the digests, the
class the evidence supports and the arithmetic.

* **`issuePassport_ok`**: what was signed.
* **`verifyPassport_valid_iff`**: what an accepted passport is.
-/

namespace AgentEval.Provenance

open Js Evidence

/-! ## The parts of a passport -/

/-- How much a reader should trust a number.
Source: `passport.ts`, `ProvenanceClass` -/
inductive ProvenanceClass where
  /-- The party being measured produced the number. -/
  | selfReported
  /-- A third party produced it, without verifiable evidence. -/
  | communityReported
  /-- Produced here, with evidence anyone can verify offline. -/
  | agentEvalVerified
  deriving DecidableEq

/-- The text of a class. -/
def ProvenanceClass.text : ProvenanceClass → JsString
  | selfReported => js "SELF_REPORTED"
  | communityReported => js "COMMUNITY_REPORTED"
  | agentEvalVerified => js "AGENT_EVAL_VERIFIED"

/-- The place of a class, weakest first. -/
def ProvenanceClass.strength : ProvenanceClass → ℕ
  | selfReported => 0
  | communityReported => 1
  | agentEvalVerified => 2

/-- The digests a verifier reads, in the object that holds all of them.
Source: `passport.ts`, `ArtifactDigests` -/
structure ArtifactDigests extends PlainObject where
  /-- The exact weights. -/
  model : JsString
  /-- The serving stack and hardware. -/
  deployment : JsString
  get_model : toPlainObject.get (js "model") = .str model
  get_deployment : toPlainObject.get (js "deployment") = .str deployment

/-- What was measured.
Source: `passport.ts`, `PassportMetrics` -/
structure PassportMetrics extends PlainObject where
  /-- The headline number. -/
  successRate : Number
  /-- Tasks attempted. -/
  tasksAttempted : Number
  /-- Tasks succeeded. -/
  tasksSucceeded : Number
  /-- Independent attempts per task. -/
  trials : Number
  get_successRate : toPlainObject.get (js "successRate") = .num successRate
  get_tasksAttempted : toPlainObject.get (js "tasksAttempted") = .num tasksAttempted
  get_tasksSucceeded : toPlainObject.get (js "tasksSucceeded") = .num tasksSucceeded
  get_trials : toPlainObject.get (js "trials") = .num trials

/-- How uncertain the headline number is.
Source: `passport.ts`, `PassportStatistics` -/
structure PassportStatistics extends PlainObject where
  /-- Lower bound of the confidence interval. -/
  confidenceIntervalLow : Number
  /-- Upper bound of it. -/
  confidenceIntervalHigh : Number
  /-- Its level. -/
  confidenceLevel : Number
  get_confidenceIntervalLow :
    toPlainObject.get (js "confidenceIntervalLow") = .num confidenceIntervalLow
  get_confidenceIntervalHigh :
    toPlainObject.get (js "confidenceIntervalHigh") = .num confidenceIntervalHigh
  get_confidenceLevel : toPlainObject.get (js "confidenceLevel") = .num confidenceLevel

/-- What it cost; an absent cost is unknown.
Source: `passport.ts`, `PassportEconomics` -/
structure PassportEconomics extends PlainObject where
  /-- The total. -/
  totalCostUsd : Option Number
  get_totalCostUsd : toPlainObject.get (js "totalCostUsd") = totalCostUsd.elim .undefined .num

/-- Evidence a third party can check.
Source: `passport.ts`, `PassportEvidence` -/
structure PassportEvidence extends PlainObject where
  /-- Root over the audit entries. -/
  merkleRoot : JsString
  /-- Number of leaves. -/
  treeSize : Number
  get_merkleRoot : toPlainObject.get (js "merkleRoot") = .str merkleRoot
  get_treeSize : toPlainObject.get (js "treeSize") = .num treeSize

/-- The signed body, with what a verifier reads of it.
Source: `passport.ts`, `PassportPayload` -/
structure PassportPayload extends PlainObject where
  /-- Schema version. -/
  passportVersion : JsString
  /-- The model. -/
  model : ModelIdentity
  /-- The deployment. -/
  deployment : DeploymentIdentity
  /-- The digests. -/
  digests : ArtifactDigests
  /-- What was measured. -/
  metrics : PassportMetrics
  /-- How uncertain it is. -/
  statistics : PassportStatistics
  /-- The evidence. -/
  evidence : Option PassportEvidence
  /-- Derived, not supplied. -/
  provenanceClass : ProvenanceClass
  get_passportVersion : toPlainObject.get (js "passportVersion") = .str passportVersion
  get_model : toPlainObject.get (js "model") = model.toJs
  get_deployment : toPlainObject.get (js "deployment") = deployment.toJs
  get_digests : toPlainObject.get (js "digests") = digests.toJs
  get_metrics : toPlainObject.get (js "metrics") = metrics.toJs
  get_statistics : toPlainObject.get (js "statistics") = statistics.toJs
  get_evidence : toPlainObject.get (js "evidence") = evidence.elim .undefined fun e => e.toJs
  get_provenanceClass : toPlainObject.get (js "provenanceClass") = .str provenanceClass.text

/-- Source: `passport.ts`, `Passport` -/
structure Passport where
  /-- What is signed. -/
  payload : PassportPayload
  /-- The signature. -/
  signature : Signature

/-- The passport as a value. -/
def Passport.toJs (passport : Passport) : JsVal :=
  .obj [(js "payload", passport.payload.toJs), (js "signature", passport.signature.toJs)]

/-- Source: `passport.ts`, `IssuePassportInput` -/
structure IssuePassportInput where
  /-- The identifier. -/
  passportId : JsString
  /-- The version of the software. -/
  issuerVersion : JsString
  /-- The model. -/
  model : ModelIdentity
  /-- The deployment. -/
  deployment : DeploymentIdentity
  /-- The benchmark. -/
  benchmarkId : JsString
  /-- Its version. -/
  benchmarkVersion : JsString
  /-- Its definition at a revision. -/
  benchmarkDigest : JsString
  /-- Environment image or definition. -/
  environmentDigest : Option JsString
  /-- The scoring implementation. -/
  verifierDigest : Option JsString
  /-- The scorer. -/
  scorerDigest : Option JsString
  /-- Judge configuration. -/
  judgeDigest : Option JsString
  /-- Root over the trajectories. -/
  trajectoriesDigest : Option JsString
  /-- What was measured. -/
  metrics : PassportMetrics
  /-- How uncertain it is. -/
  statistics : PassportStatistics
  /-- What it cost. -/
  economics : Option PassportEconomics
  /-- Supplied only for a result this deployment produced. -/
  evidence : Option PassportEvidence
  /-- True when the numbers came from the party being measured. -/
  selfReported : Option Bool

/-! ## Issuing -/

/-- Whether evidence is there and not empty. -/
def hasEvidence (evidence : Option PassportEvidence) : Bool :=
  evidence.any fun e => decide (e.merkleRoot ≠ []) && (Number.ofNat 0).lt e.treeSize

/-- Decide the provenance class from what is present.
Source: `passport.ts`, `deriveProvenanceClass` -/
def deriveProvenanceClass (input : IssuePassportInput) : ProvenanceClass × List JsString :=
  if input.selfReported = some true then
    (.selfReported,
      [js ("Reported by the party being measured. No independent execution took place, so the " ++
        "numbers cannot be checked against a trajectory.")])
  else if !hasEvidence input.evidence then
    (.communityReported,
      [js ("No evidence bundle is attached, so this result cannot be verified offline. It " ++
        "records what was claimed, not what was proven.")])
  else (.agentEvalVerified, [])

/-- Caveats that depend on the measurement rather than its provenance.
Source: `passport.ts`, `measurementCaveats` -/
def measurementCaveats (input : IssuePassportInput) : List JsString :=
  let width := input.statistics.confidenceIntervalHigh.sub input.statistics.confidenceIntervalLow
  let pin := pinningStrength input.model
  (if input.metrics.trials.eq (.ofNat 1) then
    [js ("A single trial per task. Stochastic sampling means a repeat run may differ, and the " ++
      "interval below reflects task sampling only, not sampling variance.")]
  else []) ++
  (if input.metrics.tasksAttempted.lt (.ofNat 30) then
    [js "Only " ++ input.metrics.tasksAttempted.toString ++
      js (" task(s) were attempted. The confidence interval is wide and small differences " ++
        "between models are not resolvable at this sample size.")]
  else []) ++
  (if (Number.ofRat (2 / 10)).lt width then
    [js "The " ++ (input.statistics.confidenceLevel.mul (.ofNat 100)).toFixed 0 ++
      js "% interval spans " ++ (width.mul (.ofNat 100)).toFixed 1 ++
      js " percentage points. Treat the point estimate as indicative only."]
  else []) ++
  (if pin.1 = .unpinned ∨ pin.1 = .aliased then [pin.2] else []) ++
  (if (input.economics.bind fun e => e.totalCostUsd).isNone then
    [js "Cost was not recorded or no pricing was configured, so it is reported as unknown."]
  else [])

/-- A property that is there when the text is there and not empty. -/
def optionalText (key : JsString) (s : Option JsString) : Props :=
  if truthy s then [(key, .str (orEmpty s))] else []

/-- The digests of a passport.
Source: `passport.ts`, `issuePassport` -/
def digestProps (input : IssuePassportInput) : Props :=
  [(js "model", .str (modelDigest input.model)),
    (js "deployment", .str (deploymentDigest input.deployment)),
    (js "benchmark", .str input.benchmarkDigest)] ++
  optionalText (js "environment") input.environmentDigest ++
  optionalText (js "verifier") input.verifierDigest ++
  optionalText (js "scorer") input.scorerDigest ++
  optionalText (js "judge") input.judgeDigest ++
  optionalText (js "trajectories") input.trajectoriesDigest

/-- The keys of optional texts are among their keys. -/
theorem sublist_optionalText (key : JsString) (s : Option JsString) :
    ((optionalText key s).map Prod.fst).Sublist [key] := by
  unfold optionalText
  split_ifs
  · exact List.Sublist.refl _
  · exact List.nil_sublist _

/-- The value of an optional text is a text. -/
theorem forall_optionalText {P : JsVal → Prop} (hstr : ∀ t, P (.str t)) (key : JsString)
    (s : Option JsString) : ∀ p ∈ optionalText key s, P p.2 := by
  unfold optionalText
  split_ifs
  · exact List.forall_mem_singleton.mpr (hstr _)
  · exact List.forall_mem_nil _

/-- The digests are well formed. -/
theorem wf_digestProps (input : IssuePassportInput) : JsVal.WF (.obj (digestProps input)) := by
  refine JsVal.wf_obj.mpr ⟨?_, ?_⟩
  · have hkeys : ([js "model", js "deployment", js "benchmark"] ++ [js "environment"] ++
        [js "verifier"] ++ [js "scorer"] ++ [js "judge"] ++ [js "trajectories"]).Nodup := by simp
    refine hkeys.sublist ?_
    unfold digestProps
    simp only [List.map_append]
    refine List.Sublist.append (List.Sublist.append (List.Sublist.append (List.Sublist.append
      (List.Sublist.append (List.Sublist.refl _) ?_) ?_) ?_) ?_) ?_ <;>
    exact sublist_optionalText _ _
  · have hstr : ∀ t, JsVal.WF (.str t) := fun _ => trivial
    unfold digestProps
    simp only [List.forall_mem_append, List.forall_mem_cons]
    exact ⟨⟨⟨⟨⟨⟨hstr _, hstr _, hstr _, List.forall_mem_nil _⟩, forall_optionalText hstr _ _⟩,
      forall_optionalText hstr _ _⟩, forall_optionalText hstr _ _⟩, forall_optionalText hstr _ _⟩,
      forall_optionalText hstr _ _⟩

/-- The digests object.
Source: `passport.ts`, `issuePassport` -/
def artifactDigests (input : IssuePassportInput) : ArtifactDigests where
  props := digestProps input
  wf := wf_digestProps input
  model := modelDigest input.model
  deployment := deploymentDigest input.deployment
  get_model := rfl
  get_deployment := rfl

/-- The software that produced a passport. -/
def issuerObject (version : JsString) : StringRecord where
  entries := [(js "name", js "agent-eval"), (js "version", version)]
  distinct := by
    change [js "name", js "version"].Nodup
    simp

/-- How firmly the model was pinned. -/
def reproducibilityObject (m : ModelIdentity) : StringRecord where
  entries := [(js "pinning", (pinningStrength m).1.text), (js "detail", (pinningStrength m).2)]
  distinct := by
    change [js "pinning", js "detail"].Nodup
    simp

/-- The properties of the payload; `economics` and `evidence` are there when they were given.
Source: `passport.ts`, `issuePassport` -/
def payloadProps (input : IssuePassportInput) (now : TimeValue) : Props :=
  [(js "passportVersion", .str (js "1.0")), (js "passportId", .str input.passportId),
    (js "issuedAt", .str now.toISOString), (js "issuer", (issuerObject input.issuerVersion).toJs),
    (js "model", input.model.toJs), (js "deployment", input.deployment.toJs),
    (js "benchmarkId", .str input.benchmarkId),
    (js "benchmarkVersion", .str input.benchmarkVersion),
    (js "digests", (artifactDigests input).toJs), (js "metrics", input.metrics.toJs),
    (js "statistics", input.statistics.toJs)] ++
  (input.economics.toList.map fun e => (js "economics", e.toJs)) ++
  (input.evidence.toList.map fun e => (js "evidence", e.toJs)) ++
  [(js "provenanceClass", .str (deriveProvenanceClass input).1.text),
    (js "reproducibility", (reproducibilityObject input.model).toJs),
    (js "caveats", .arr (((deriveProvenanceClass input).2 ++ measurementCaveats input).map .str))]

/-- The payload is well formed. -/
theorem wf_payloadProps (input : IssuePassportInput) (now : TimeValue) :
    JsVal.WF (.obj (payloadProps input now)) := by
  have hone : ∀ (o : Option PlainObject) (key : JsString),
      ((o.toList.map fun e => (key, e.toJs)).map Prod.fst).Sublist [key] := by
    intro o key
    cases o with
    | none => exact List.nil_sublist _
    | some o => exact List.Sublist.refl _
  refine JsVal.wf_obj.mpr ⟨?_, ?_⟩
  · have hkeys : ([js "passportVersion", js "passportId", js "issuedAt", js "issuer", js "model",
        js "deployment", js "benchmarkId", js "benchmarkVersion", js "digests", js "metrics",
        js "statistics"] ++ [js "economics"] ++ [js "evidence"] ++
        [js "provenanceClass", js "reproducibility", js "caveats"]).Nodup := by simp
    refine hkeys.sublist ?_
    unfold payloadProps
    simp only [List.map_append]
    refine List.Sublist.append (List.Sublist.append (List.Sublist.append (List.Sublist.refl _) ?_)
      ?_) (List.Sublist.refl _)
    · cases input.economics with
      | none => exact List.nil_sublist _
      | some e => exact List.Sublist.refl _
    · cases input.evidence with
      | none => exact List.nil_sublist _
      | some e => exact List.Sublist.refl _
  · have hstr : ∀ t, JsVal.WF (.str t) := fun _ => trivial
    unfold payloadProps
    simp only [List.forall_mem_append, List.forall_mem_cons, List.forall_mem_map]
    refine ⟨⟨⟨⟨hstr _, hstr _, hstr _, StringRecord.wf_toJs _, input.model.wf,
      input.deployment.wf, hstr _, hstr _, (artifactDigests input).wf, input.metrics.wf,
      input.statistics.wf, List.forall_mem_nil _⟩, fun e _ => e.wf⟩, fun e _ => e.wf⟩, hstr _,
      StringRecord.wf_toJs _, JsVal.wf_arr.mpr (List.forall_mem_map.mpr fun _ _ => trivial),
      List.forall_mem_nil _⟩

/-- The payload that is signed.
Source: `passport.ts`, `issuePassport` -/
def passportPayload (input : IssuePassportInput) (now : TimeValue) : PassportPayload where
  props := payloadProps input now
  wf := wf_payloadProps input now
  passportVersion := js "1.0"
  model := input.model
  deployment := input.deployment
  digests := artifactDigests input
  metrics := input.metrics
  statistics := input.statistics
  evidence := input.evidence
  provenanceClass := (deriveProvenanceClass input).1
  get_passportVersion := rfl
  get_model := rfl
  get_deployment := rfl
  get_digests := rfl
  get_metrics := rfl
  get_statistics := rfl
  get_evidence := by
    change getProp (payloadProps _ _) _ = _
    unfold payloadProps
    cases input.economics <;> cases input.evidence <;> rfl
  get_provenanceClass := by
    change getProp (payloadProps _ _) _ = _
    unfold payloadProps
    cases input.economics <;> cases input.evidence <;> rfl

/-- Build and sign a passport; `now` and `signedAt` are what the clock reads at the two places.
Source: `passport.ts`, `issuePassport` -/
def issuePassport (keySource : KeySource) (now signedAt : TimeValue) (input : IssuePassportInput) :
    Except JsError Passport := do
  let signature ← sign keySource (passportPayload input now).toPlainObject signedAt
  return ⟨passportPayload input now, signature⟩

/-! ## Verification -/

/-- Source: `passport.ts`, `PassportVerification.checks` -/
structure PassportCheck where
  /-- Its name. -/
  name : JsString
  /-- Whether it passed. -/
  passed : Bool
  /-- What was found. -/
  detail : JsString

/-- Source: `passport.ts`, `PassportVerification` -/
structure PassportVerification where
  /-- Whether the passport was accepted. -/
  valid : Bool
  /-- Every check performed. -/
  checks : List PassportCheck
  /-- The class the evidence supports. -/
  supportedClass : ProvenanceClass
  /-- What failed. -/
  reason : Option JsString

/-- The text of a property that the interface says is one. -/
def textOf : JsVal → JsString
  | .str s => s
  | _ => js "undefined"

/-- The signature check. -/
def signatureCheck (sig : SignatureVerification) (signature : Signature) : PassportCheck where
  name := js "signature"
  passed := sig.valid
  detail :=
    if sig.valid then
      js "Ed25519 signature valid for key " ++ textOf (signature.get (js "keyId")) ++ js "."
    else js "Signature invalid: " ++ sig.reason.getD (js "unknown reason") ++ js "."

/-- The check of a digest against the identity it covers.
Source: `passport.ts`, `verifyPassport` -/
def digestCheck (name label noun recomputed recorded : JsString) : PassportCheck where
  name := name
  passed := decide (recomputed = recorded)
  detail :=
    if recomputed = recorded then
      label ++ js " digest matches the recorded " ++ noun ++ js " identity."
    else label ++ js " digest mismatch: payload says " ++ recorded ++ js ", identity hashes to " ++
      recomputed ++ js "."

/-- The class check.
Source: `passport.ts`, `verifyPassport` -/
def classCheck (payload : PassportPayload) : PassportCheck where
  name := js "provenance_class"
  passed := decide (payload.provenanceClass ≠ .agentEvalVerified) || hasEvidence payload.evidence
  detail :=
    if decide (payload.provenanceClass ≠ .agentEvalVerified) || hasEvidence payload.evidence then
      js "Class " ++ payload.provenanceClass.text ++ js " is supported by the attached evidence."
    else js ("Passport claims AGENT_EVAL_VERIFIED but carries no evidence bundle. " ++
      "A valid signature over a false claim is still a false claim.")

/-- Whether the success rate is that of the counts.
Source: `passport.ts`, `verifyPassport` -/
def PassportMetrics.rateConsistent (m : PassportMetrics) : Bool :=
  m.tasksAttempted.eq (.ofNat 0) ||
    (m.successRate.sub (m.tasksSucceeded.div m.tasksAttempted)).abs.lt (.ofRat (1 / 10 ^ 9))

/-- Whether the interval is one in the unit interval.
Source: `passport.ts`, `verifyPassport` -/
def PassportStatistics.intervalSane (s : PassportStatistics) : Bool :=
  s.confidenceIntervalLow.le s.confidenceIntervalHigh &&
    (Number.ofNat 0).le s.confidenceIntervalLow && s.confidenceIntervalHigh.le (.ofNat 1)

/-- The check of the success rate. -/
def metricsCheck (m : PassportMetrics) : PassportCheck where
  name := js "metrics_consistency"
  passed := m.rateConsistent
  detail :=
    if m.rateConsistent then js "Success rate matches the recorded task counts."
    else js "Success rate " ++ m.successRate.toString ++ js " does not match " ++
      m.tasksSucceeded.toString ++ js "/" ++ m.tasksAttempted.toString ++ js "."

/-- The check of the interval. -/
def intervalCheck (s : PassportStatistics) : PassportCheck where
  name := js "interval_sanity"
  passed := s.intervalSane
  detail :=
    if s.intervalSane then js "Confidence interval is well-formed."
    else js "Confidence interval is inverted or outside [0,1]."

/-- The class that the evidence supports.
Source: `passport.ts`, `verifyPassport` -/
def supportedClass (evidence : Option PassportEvidence) : ProvenanceClass :=
  if hasEvidence evidence then .agentEvalVerified else .communityReported

/-- Verify a passport with nothing but a public key.
Source: `passport.ts`, `verifyPassport` -/
def verifyPassport (crypto : NodeCrypto) (passport : Passport) (publicKeyPem : JsString) :
    PassportVerification :=
  let payload := passport.payload
  let sig := verifySignature crypto payload.toPlainObject passport.signature publicKeyPem
  if payload.passportVersion ≠ js "1.0" then
    { valid := false
      checks := [signatureCheck sig passport.signature,
        { name := js "version"
          passed := false
          detail := js "Unsupported passport version \"" ++ payload.passportVersion ++ js "\"." }]
      supportedClass := .communityReported
      reason := some (js "Unsupported passport version.") }
  else
    let checks := [signatureCheck sig passport.signature,
      digestCheck (js "model_digest") (js "Model") (js "model") (modelDigest payload.model)
        payload.digests.model,
      digestCheck (js "deployment_digest") (js "Deployment") (js "deployment")
        (deploymentDigest payload.deployment) payload.digests.deployment,
      classCheck payload, metricsCheck payload.metrics, intervalCheck payload.statistics]
    let failed := checks.filter fun c => !c.passed
    { valid := failed.isEmpty
      checks := checks
      supportedClass := Provenance.supportedClass payload.evidence
      reason := if failed.isEmpty then none else
        some ((js ", ").intercalate (failed.map PassportCheck.name)) }

/-- What a passport that a verifier accepts has, key and signature apart. -/
structure PassportPayload.Accepted (payload : PassportPayload) : Prop where
  /-- The version is implemented. -/
  version : payload.passportVersion = js "1.0"
  /-- The digest is that of the model. -/
  model : modelDigest payload.model = payload.digests.model
  /-- The digest is that of the deployment. -/
  deployment : deploymentDigest payload.deployment = payload.digests.deployment
  /-- The strongest class has evidence. -/
  evidence : payload.provenanceClass = .agentEvalVerified → hasEvidence payload.evidence = true
  /-- The success rate is that of the counts. -/
  rate : payload.metrics.rateConsistent = true
  /-- The interval is one. -/
  interval : payload.statistics.intervalSane = true

/-- **An accepted passport** has a valid signature and an accepted payload. -/
theorem verifyPassport_valid_iff {crypto : NodeCrypto} {passport : Passport}
    {publicKeyPem : JsString} :
    (verifyPassport crypto passport publicKeyPem).valid = true ↔
      (verifySignature crypto passport.payload.toPlainObject passport.signature
        publicKeyPem).valid = true ∧ passport.payload.Accepted := by
  unfold verifyPassport
  by_cases hversion : passport.payload.passportVersion = js "1.0"
  · rw [if_neg (not_not.mpr hversion)]
    simp only [List.isEmpty_iff, List.filter_eq_nil_iff, List.forall_mem_cons, signatureCheck,
      digestCheck, classCheck, metricsCheck, intervalCheck, Bool.not_eq_true', Bool.not_eq_false,
      decide_eq_true_eq, Bool.or_eq_true, ← imp_iff_not_or]
    constructor
    · rintro ⟨hsig, hmodel, hdeployment, hclass, hrate, hinterval, -⟩
      exact ⟨hsig, hversion, hmodel, hdeployment, hclass, hrate, hinterval⟩
    · rintro ⟨hsig, h⟩
      exact ⟨hsig, h.model, h.deployment, h.evidence, h.rate, h.interval, List.forall_mem_nil _⟩
  · rw [if_pos hversion]
    exact iff_of_false Bool.false_ne_true fun h => hversion h.2.version

/-- **What was signed.** -/
theorem issuePassport_ok {keySource : KeySource} {now signedAt : TimeValue}
    {input : IssuePassportInput} {passport : Passport}
    (h : issuePassport keySource now signedAt input = .ok passport) :
    passport.payload = passportPayload input now ∧
      sign keySource (passportPayload input now).toPlainObject signedAt =
        .ok passport.signature := by
  unfold issuePassport at h
  cases hsign : sign keySource (passportPayload input now).toPlainObject signedAt with
  | error e =>
    rw [hsign] at h
    cases h
  | ok signature =>
    rw [hsign] at h
    cases h
    exact ⟨rfl, rfl⟩

/-- The strongest class is derived from evidence only. -/
theorem hasEvidence_of_deriveProvenanceClass {input : IssuePassportInput}
    (h : (deriveProvenanceClass input).1 = .agentEvalVerified) :
    hasEvidence input.evidence = true := by
  unfold deriveProvenanceClass at h
  split_ifs at h with hself hevidence
  simpa using hevidence

end AgentEval.Provenance
