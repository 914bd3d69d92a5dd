import AgentEval.Evidence.AuditLog
import AgentEval.Evidence.Signer

/-!
# `evidence-bundle.ts`: evidence bundles

A bundle is a signed object: audit entries, a proof for each that it is in the log whose root is
cited, the manifest of the run with its digest, and a retention period. `createBundle` assembles and
signs one, `verifyBundle` checks one with nothing but a public key. The two share `verifyEntrySlice`
and `manifestDigest` and nothing else.

* **`verifyBundle_valid_iff`**: what an accepted bundle is.
* **`createBundle_eq`**: what is signed, and when.
-/

namespace AgentEval.Evidence

open Js Sha256 Crypto

/-! ## Bundles -/

/-- An inclusion proof as an object. -/
structure InclusionProofObject extends PlainObject where
  /-- What its properties say. -/
  proof : InclusionProof
  get_leafIndex : toPlainObject.get (js "leafIndex") = .num proof.leafIndex
  get_treeSize : toPlainObject.get (js "treeSize") = .num proof.treeSize
  get_path : toPlainObject.get (js "path") = .arr (proof.path.map .str)

/-- The object that `MerkleTree.inclusionProof` returns. -/
def InclusionProofObject.ofProof (proof : InclusionProof) : InclusionProofObject where
  props := [(js "leafIndex", .num proof.leafIndex), (js "treeSize", .num proof.treeSize),
    (js "path", .arr (proof.path.map .str))]
  wf := by
    refine JsVal.wf_obj.mpr ⟨?_, ?_⟩
    · change [js "leafIndex", js "treeSize", js "path"].Nodup
      simp
    · simp only [List.forall_mem_cons]
      refine ⟨trivial, trivial, JsVal.wf_arr.mpr ?_, List.forall_mem_nil _⟩
      exact List.forall_mem_map.mpr fun _ _ => trivial
  proof := proof
  get_leafIndex := rfl
  get_treeSize := rfl
  get_path := rfl

/-- `Record<number, InclusionProof>`: proofs by the text of a sequence number. -/
structure ProofRecord where
  /-- The proofs. -/
  proofs : List (JsString × InclusionProofObject)
  /-- No key occurs twice. -/
  distinctKeys : DistinctKeys proofs

/-- The record as a value. -/
def ProofRecord.toJs (r : ProofRecord) : JsVal :=
  .obj (r.proofs.map fun p => (p.1, p.2.toJs))

/-- `inclusionProofs[seq]`. -/
def ProofRecord.at (r : ProofRecord) (seq : Number) : Option InclusionProofObject :=
  r.proofs.lookup seq.toString

/-- The contents of a bundle: the object, and what the interface says of the properties that a
verifier reads.
Source: `evidence-bundle.ts`, `BundleContents` -/
structure BundleContents extends PlainObject where
  /-- The manifest of the run. -/
  manifest : PlainObject
  /-- Its digest. -/
  manifestDigest : JsString
  /-- Audit entries for the run, in order. -/
  entries : List AuditEntry
  /-- Merkle root of the whole log at the time the bundle was cut. -/
  logRoot : JsString
  /-- Its size. -/
  logSize : Number
  /-- Inclusion proof per entry, keyed by sequence number. -/
  inclusionProofs : ProofRecord
  /-- The retention object. -/
  retention : PlainObject
  /-- Earliest date the bundle may be deleted. -/
  retainUntil : JsString
  /-- When it was cut. -/
  generatedAt : JsString
  get_manifest : toPlainObject.get (js "manifest") = manifest.toJs
  get_manifestDigest : toPlainObject.get (js "manifestDigest") = .str manifestDigest
  get_entries : toPlainObject.get (js "entries") = .arr (entries.map fun e => e.toJs)
  get_logRoot : toPlainObject.get (js "logRoot") = .str logRoot
  get_logSize : toPlainObject.get (js "logSize") = .num logSize
  get_inclusionProofs : toPlainObject.get (js "inclusionProofs") = inclusionProofs.toJs
  get_retention : toPlainObject.get (js "retention") = retention.toJs
  get_retainUntil : retention.get (js "retainUntil") = .str retainUntil
  get_generatedAt : toPlainObject.get (js "generatedAt") = .str generatedAt

/-- Source: `evidence-bundle.ts`, `EvidenceBundle` -/
structure EvidenceBundle where
  /-- What is signed. -/
  payload : BundleContents
  /-- The signature. -/
  signature : Signature

/-- The bundle as a value. -/
def EvidenceBundle.toJs (bundle : EvidenceBundle) : JsVal :=
  .obj [(js "payload", bundle.payload.toJs), (js "signature", bundle.signature.toJs)]

/-- Stable digest of a manifest.
Source: `reproducibility.ts`, `manifestDigest` -/
def manifestDigest (manifest : PlainObject) : Except CanonicalizationError JsString :=
  canonicalDigest manifest

/-- Minimum retention under EU AI Act Art. 19.
Source: `evidence-bundle.ts`, `MINIMUM_RETENTION_DAYS` -/
def minimumRetentionDays : ℕ := 183

/-! ## Verification -/

/-- Source: `evidence-bundle.ts`, `BundleVerification.checks` -/
structure BundleChecks where
  /-- The signature. -/
  signature : Bool
  /-- The slice of entries. -/
  chain : Bool
  /-- Every entry is in the log. -/
  inclusion : Bool
  /-- The manifest digest. -/
  manifest : Bool
  /-- The retention period. -/
  retention : Bool

/-- Source: `evidence-bundle.ts`, `BundleVerification` -/
structure BundleVerification where
  /-- Whether the bundle was accepted. -/
  valid : Bool
  /-- The checks. -/
  checks : BundleChecks
  /-- What failed. -/
  failures : List JsString

/-- A text interpolated into another when it may be missing. -/
def interpolate (s : Option JsString) : JsString := s.getD (js "undefined")

/-- The inclusion check of one entry: nothing when the entry is provably in the log.
Source: `evidence-bundle.ts`, `verifyBundle` -/
def checkInclusion (contents : BundleContents) (entry : AuditEntry) : Option JsString :=
  match contents.inclusionProofs.at entry.seq with
  | none => some (js "entry " ++ entry.seq.toString ++ js ": no inclusion proof")
  | some proof =>
    let result := verifyInclusion proof.proof (.buffer (fromHex entry.entryHash)) contents.logRoot
    if result.valid then none
    else some (js "entry " ++ entry.seq.toString ++ js ": not in the log (" ++
      interpolate result.reason ++ js ")")

/-- The days between two dates. -/
def daysBetween (retainUntil generatedAt : Number) : Number :=
  (retainUntil.sub generatedAt).div (.ofNat 86400000)

/-- The checks, and the failures in the order in which they are pushed.
Source: `evidence-bundle.ts`, `verifyBundle` -/
def bundleVerification (sig : SignatureVerification) (chain : ChainVerification)
    (missing : List JsString) (manifest : Bool) (days : Number) : BundleVerification :=
  let checks : BundleChecks := ⟨sig.valid, chain.valid, missing.isEmpty, manifest,
    Number.le (.ofNat minimumRetentionDays) days⟩
  let failures :=
    (if checks.signature then [] else [js "signature: " ++ interpolate sig.reason]) ++
    (if checks.chain then [] else [js "audit chain: " ++ interpolate chain.reason]) ++ missing ++
    (if checks.manifest then [] else [js "manifest digest does not match the manifest"]) ++
    (if checks.retention then [] else [js "retention of " ++ days.floor.toString ++
      js " days is below the Art. 19 minimum"])
  ⟨failures.isEmpty, checks, failures⟩

/-- Verify a bundle using only the bundle and a public key. `host` is how `Date.parse` reads what is
not an ISO date.
Source: `evidence-bundle.ts`, `verifyBundle` -/
def verifyBundle (crypto : NodeCrypto) (host : JsString → Number) (bundle : EvidenceBundle)
    (publicKeyPem : JsString) : Except JsError BundleVerification := do
  let contents := bundle.payload
  let sig := verifySignature crypto contents.toPlainObject bundle.signature publicKeyPem
  let chain := verifyEntrySlice contents.entries
  let missing := contents.entries.filterMap (checkInclusion contents)
  let recomputed ← (manifestDigest contents.manifest).mapError CanonicalizationError.toJsError
  let days := daysBetween (dateParse host contents.retainUntil) (dateParse host contents.generatedAt)
  return bundleVerification sig chain missing (decide (recomputed = contents.manifestDigest)) days

/-- Stable identifier for the contents of a bundle.
Source: `evidence-bundle.ts`, `bundleDigest` -/
def bundleDigest (bundle : EvidenceBundle) : Except CanonicalizationError JsString :=
  canonicalDigest bundle.payload.toPlainObject

/-! ## What is accepted -/

/-- Whether an entry has a proof that is accepted against the root cited. -/
def Included (contents : BundleContents) (entry : AuditEntry) : Prop :=
  ∃ proof, contents.inclusionProofs.at entry.seq = some proof ∧
    (verifyInclusion proof.proof (.buffer (fromHex entry.entryHash)) contents.logRoot).valid = true

/-- The inclusion check finds nothing exactly when the entry is provably in the log. -/
theorem checkInclusion_eq_none_iff {contents : BundleContents} {entry : AuditEntry} :
    checkInclusion contents entry = none ↔ Included contents entry := by
  unfold checkInclusion Included
  cases contents.inclusionProofs.at entry.seq with
  | none => simp
  | some proof => simp

/-- What a bundle that a verifier accepts has, key and signature apart. -/
structure BundleContents.Accepted (host : JsString → Number) (contents : BundleContents) : Prop where
  /-- The entries are an accepted slice. -/
  chain : (verifyEntrySlice contents.entries).valid = true
  /-- Each is provably in the log. -/
  inclusion : ∀ e ∈ contents.entries, Included contents e
  /-- The digest is that of the manifest. -/
  manifest : Evidence.manifestDigest contents.manifest = .ok contents.manifestDigest
  /-- The retention period is long enough. -/
  retention : Number.le (.ofNat minimumRetentionDays)
    (daysBetween (dateParse host contents.retainUntil) (dateParse host contents.generatedAt)) = true

/-- Nothing fails exactly when every check succeeds. -/
theorem bundleVerification_valid_iff {sig : SignatureVerification} {chain : ChainVerification}
    {missing : List JsString} {manifest : Bool} {days : Number} :
    (bundleVerification sig chain missing manifest days).valid = true ↔
      sig.valid = true ∧ chain.valid = true ∧ missing = [] ∧ manifest = true ∧
        Number.le (.ofNat minimumRetentionDays) days = true := by
  rw [bundleVerification, List.isEmpty_iff]
  simp only [List.append_eq_nil_iff, ite_eq_left_iff, List.cons_ne_self, imp_false, not_not]
  tauto

/-- **An accepted bundle** has a valid signature and accepted contents. -/
theorem verifyBundle_valid_iff {crypto : NodeCrypto} {host : JsString → Number}
    {bundle : EvidenceBundle} {publicKeyPem : JsString} :
    (∃ r, verifyBundle crypto host bundle publicKeyPem = .ok r ∧ r.valid = true) ↔
      (verifySignature crypto bundle.payload.toPlainObject bundle.signature
        publicKeyPem).valid = true ∧ bundle.payload.Accepted host := by
  have hmissing : bundle.payload.entries.filterMap (checkInclusion bundle.payload) = [] ↔
      ∀ e ∈ bundle.payload.entries, Included bundle.payload e := by
    rw [List.filterMap_eq_nil_iff]
    exact forall₂_congr fun _ _ => checkInclusion_eq_none_iff
  constructor
  · rintro ⟨r, hr, hvalid⟩
    cases hd : Evidence.manifestDigest bundle.payload.manifest with
    | error e => simp [verifyBundle, hd, Except.mapError, bind, Except.bind] at hr
    | ok recomputed =>
      simp only [verifyBundle, hd, Except.mapError, bind, Except.bind] at hr
      obtain rfl := Except.ok.inj hr
      obtain ⟨hsig, hchain, hincl, hman, hret⟩ := bundleVerification_valid_iff.mp hvalid
      refine ⟨hsig, hchain, hmissing.mp hincl, ?_, hret⟩
      rw [hd, of_decide_eq_true hman]
  · rintro ⟨hsig, hacc⟩
    have hvalid := bundleVerification_valid_iff.mpr
      ⟨hsig, hacc.chain, hmissing.mpr hacc.inclusion,
        decide_eq_true (rfl : bundle.payload.manifestDigest = _), hacc.retention⟩
    refine ⟨_, ?_, hvalid⟩
    simp only [verifyBundle, hacc.manifest, Except.mapError, bind, Except.bind]
    rfl

/-! ## Creation -/

/-- How far a mapping goes.
Source: `evidence-bundle.ts`, `MappingStrength` -/
inductive MappingStrength where
  /-- Demonstrably meets a technical requirement. -/
  | satisfies
  /-- Evidence a reviewer needs, which does not discharge the obligation on its own. -/
  | supports
  /-- Beyond what the text requires. -/
  | exceeds

/-- The text of a strength. -/
def MappingStrength.text : MappingStrength → JsString
  | satisfies => js "satisfies"
  | supports => js "supports"
  | exceeds => js "exceeds"

/-- A mapping with its stated limits, if any.
Source: `evidence-bundle.ts`, `ArticleMapping` -/
def articleMapping (provision requirement : JsString) (strength : MappingStrength)
    (evidence : JsString) (caveat : Option JsString) : PlainObject where
  props := [(js "provision", .str provision), (js "requirement", .str requirement),
    (js "strength", .str strength.text), (js "evidence", .str evidence)] ++
      caveat.toList.map fun text => (js "caveat", .str text)
  wf := by
    refine JsVal.wf_obj.mpr ⟨?_, ?_⟩
    · have hkeys : [js "provision", js "requirement", js "strength", js "evidence",
          js "caveat"].Nodup := by simp
      cases caveat with
      | none => exact hkeys.sublist (List.sublist_append_left _ [js "caveat"])
      | some text => exact hkeys
    · cases caveat <;> simp [JsVal.WF, JsVal.All]

/-- The mappings this system can support.
Source: `evidence-bundle.ts`, `STANDARD_MAPPINGS` -/
def standardMappings : List PlainObject :=
  [articleMapping (js "EU AI Act Art. 12")
      (js ("High-risk systems shall technically allow for the automatic recording of events " ++
        "over the lifetime of the system."))
      .satisfies
      (js ("Every tool call, approval and state change is recorded automatically, with actor " ++
        "and timestamp."))
      none,
    articleMapping (js "EU AI Act Art. 12")
      (js "Logs must enable identification of risk situations and post-market monitoring.")
      .exceeds
      (js ("Entries are hash-chained and committed to a Merkle root, so alteration after the " ++
        "fact is detectable by a third party."))
      (js ("Article 12 does not require tamper-evidence. This is a stronger property than the " ++
        "text asks for and should not be presented as what makes the system compliant.")),
    articleMapping (js "EU AI Act Art. 19")
      (js "Providers shall keep logs for a period of at least six months.")
      .satisfies
      (js "Retention is recorded per bundle and enforced by the storage layer.")
      (js ("Six months is a floor, not a ceiling. Sectoral rules may require longer -- HIPAA " ++
        "documentation retention is six years -- and the configured period governs.")),
    articleMapping (js "EU AI Act Art. 14")
      (js ("High-risk systems shall be effectively overseen by natural persons, who can " ++
        "intervene or interrupt."))
      .supports
      (js ("Approval decisions are recorded with the identity of the approver and the action " ++
        "they gated."))
      (js ("Human oversight is an organisational obligation. An approval queue evidences that " ++
        "oversight occurred; it does not establish that the overseers were competent, " ++
        "independent, or able to act on what they saw.")),
    articleMapping (js "EU AI Act Art. 17")
      (js ("Providers shall put a quality management system in place, including procedures for " ++
        "testing and validation."))
      .supports
      (js ("Runs are reproducible from a pinned manifest, so evaluations are repeatable rather " ++
        "than one-off."))
      (js "One repeatable evaluation is not a quality management system."),
    articleMapping (js "NIST AI RMF Measure 2.1")
      (js "Test sets, metrics and details about the tools used during TEVV are documented.")
      .satisfies
      (js ("The reproducibility manifest pins environment digest, task split hash, model, " ++
        "sampling and verifier version."))
      none,
    articleMapping (js "SR 11-7")
      (js ("Model development and validation should be documented in sufficient detail that " ++
        "parties unfamiliar with a model can understand it."))
      .supports
      (js ("The manifest and audit trail give an independent validator the exact configuration " ++
        "and the observed behaviour."))
      (js "SR 11-7 requires independent validation by people. This supplies their inputs.")]

/-- Source: `evidence-bundle.ts`, `BundleInput` -/
structure BundleInput where
  /-- The identifier of the bundle. -/
  bundleId : JsString
  /-- The tenant. -/
  tenantId : JsString
  /-- The run. -/
  runId : JsString
  /-- The manifest of the run. -/
  manifest : PlainObject
  /-- Audit entries for the run, in order. -/
  entries : List AuditEntry
  /-- Merkle root of the whole log. -/
  logRoot : JsString
  /-- Its size. -/
  logSize : Number
  /-- Inclusion proof per entry. -/
  inclusionProofs : ProofRecord
  /-- Optional proof that the log extends a previously published root. -/
  consistency : Option PlainObject
  /-- The mappings, the standard ones when left out. -/
  mappings : Option (List PlainObject)
  /-- Earliest date the bundle may be deleted; the date may be invalid. -/
  retainUntil : Option TimeValue
  /-- The rule that set it. -/
  policy : JsString
  /-- Whether it landed on write-once storage. -/
  wormAnchored : Bool
  /-- Overrides the clock; the date may be invalid. -/
  generatedAt : Option (Option TimeValue)

/-- Source: `evidence-bundle.ts`, `BundleError` -/
def bundleError (message : JsString) : JsError := ⟨js "BundleError", message⟩

/-- `date.getTime()`. -/
def getTime : Option TimeValue → Number
  | none => .nan
  | some t => .ofInt t.ms

/-- The retention object of the contents.
Source: `evidence-bundle.ts`, `createBundle` -/
def retentionObject (retainUntil policy : JsString) (wormAnchored : Bool) : PlainObject where
  props := [(js "retainUntil", .str retainUntil), (js "policy", .str policy),
    (js "wormAnchored", .bool wormAnchored)]
  wf := by
    refine JsVal.wf_obj.mpr ⟨?_, ?_⟩
    · change [js "retainUntil", js "policy", js "wormAnchored"].Nodup
      simp
    · simp [JsVal.WF, JsVal.All]

/-- The properties of the contents; `consistency` is there when it was given.
Source: `evidence-bundle.ts`, `createBundle` -/
def contentsProps (input : BundleInput) (manifestDigest : JsString) (retention : PlainObject)
    (generatedAt : JsString) : Props :=
  [(js "bundleId", .str input.bundleId), (js "tenantId", .str input.tenantId),
    (js "runId", .str input.runId), (js "manifest", input.manifest.toJs),
    (js "manifestDigest", .str manifestDigest),
    (js "entries", .arr (input.entries.map fun e => e.toJs)), (js "logRoot", .str input.logRoot),
    (js "logSize", .num input.logSize), (js "inclusionProofs", input.inclusionProofs.toJs)] ++
  (input.consistency.toList.map fun c => (js "consistency", c.toJs)) ++
  [(js "mappings", .arr ((input.mappings.getD standardMappings).map fun m => m.toJs)),
    (js "retention", retention.toJs), (js "generatedAt", .str generatedAt)]

/-- The values of the contents, one by one. -/
theorem forall_contentsProps {P : JsVal → Prop} {input : BundleInput} {manifestDigest : JsString}
    {retention : PlainObject} {generatedAt : JsString} (hstr : ∀ t, P (.str t))
    (hmanifest : P input.manifest.toJs) (hentries : P (.arr (input.entries.map fun e => e.toJs)))
    (hsize : P (.num input.logSize)) (hproofs : P input.inclusionProofs.toJs)
    (hconsistency : ∀ c ∈ input.consistency, P c.toJs)
    (hmappings : P (.arr ((input.mappings.getD standardMappings).map fun m => m.toJs)))
    (hretention : P retention.toJs) :
    ∀ p ∈ contentsProps input manifestDigest retention generatedAt, P p.2 := by
  rw [contentsProps.eq_def, List.forall_mem_append, List.forall_mem_append, List.forall_mem_map]
  refine ⟨⟨?_, fun c hc => hconsistency c (Option.mem_toList.mp hc)⟩, ?_⟩
  · simp only [List.forall_mem_cons]
    exact ⟨hstr _, hstr _, hstr _, hmanifest, hstr _, hentries, hstr _, hsize, hproofs,
      List.forall_mem_nil _⟩
  · simp only [List.forall_mem_cons]
    exact ⟨hmappings, hretention, hstr _, List.forall_mem_nil _⟩

/-- The contents are well formed. -/
theorem wf_contentsProps (input : BundleInput) (manifestDigest : JsString)
    (retention : PlainObject) (generatedAt : JsString) :
    JsVal.WF (.obj (contentsProps input manifestDigest retention generatedAt)) := by
  have hitems : ∀ l : List PlainObject, JsVal.WF (.arr (l.map fun o => o.toJs)) := fun l =>
    JsVal.wf_arr.mpr (List.forall_mem_map.mpr fun o _ => o.wf)
  refine JsVal.wf_obj.mpr ⟨?_, ?_⟩
  · have hkeys : ([js "bundleId", js "tenantId", js "runId", js "manifest", js "manifestDigest",
        js "entries", js "logRoot", js "logSize", js "inclusionProofs"] ++ [js "consistency"] ++
        [js "mappings", js "retention", js "generatedAt"]).Nodup := by simp
    refine hkeys.sublist ?_
    rw [contentsProps.eq_def, List.map_append, List.map_append]
    refine List.Sublist.append_right (List.Sublist.append_left ?_ _) _
    cases input.consistency with
    | none => exact List.nil_sublist _
    | some c => exact List.Sublist.refl _
  · refine forall_contentsProps (fun _ => trivial) input.manifest.wf ?_ trivial ?_
      (fun c _ => c.wf) (hitems _) retention.wf
    · exact JsVal.wf_arr.mpr (List.forall_mem_map.mpr fun e _ => e.wf)
    · refine JsVal.wf_obj.mpr ⟨?_, ?_⟩
      · exact (JsVal.distinctKeys_map fun q : InclusionProofObject => q.toJs).mpr
          input.inclusionProofs.distinctKeys
      · exact List.forall_mem_map.mpr fun p _ => p.2.wf

/-- The contents that are signed.
Source: `evidence-bundle.ts`, `createBundle` -/
def bundleContents (input : BundleInput) (manifestDigest retainUntil generatedAt : JsString) :
    BundleContents where
  props := contentsProps input manifestDigest
    (retentionObject retainUntil input.policy input.wormAnchored) generatedAt
  wf := wf_contentsProps _ _ _ _
  manifest := input.manifest
  manifestDigest := manifestDigest
  entries := input.entries
  logRoot := input.logRoot
  logSize := input.logSize
  inclusionProofs := input.inclusionProofs
  retention := retentionObject retainUntil input.policy input.wormAnchored
  retainUntil := retainUntil
  generatedAt := generatedAt
  get_manifest := rfl
  get_manifestDigest := rfl
  get_entries := rfl
  get_logRoot := rfl
  get_logSize := rfl
  get_inclusionProofs := rfl
  get_retention := by
    change getProp (contentsProps _ _ _ _) _ = _
    unfold contentsProps
    cases input.consistency <;> rfl
  get_retainUntil := rfl
  get_generatedAt := by
    change getProp (contentsProps _ _ _ _) _ = _
    unfold contentsProps
    cases input.consistency <;> rfl

/-- Assemble and sign a bundle; `now` and `signedAt` are what the clock reads at the two places.
Source: `evidence-bundle.ts`, `createBundle` -/
def createBundle (keySource : KeySource) (now signedAt : TimeValue) (input : BundleInput) :
    Except JsError EvidenceBundle := do
  if input.entries.isEmpty then
    throw (bundleError (js "a bundle needs at least one audit entry"))
  let chain := verifyEntrySlice input.entries
  if !chain.valid then
    throw (bundleError (js "refusing to sign a bundle over a broken chain: " ++
      interpolate chain.reason ++
      js ". Signing this would attest to records that do not verify."))
  match input.entries.find? fun e => (input.inclusionProofs.at e.seq).isNone with
  | some entry =>
    throw (bundleError (js "entry " ++ entry.seq.toString ++ js " has no inclusion proof"))
  | none => pure ()
  let generatedAt := input.generatedAt.getD (some now)
  let retentionDays := daysBetween (getTime input.retainUntil) (getTime generatedAt)
  if retentionDays.lt (.ofNat minimumRetentionDays) then
    throw (bundleError (js "retention of " ++ retentionDays.floor.toString ++
      js " days is below the " ++ natDigits minimumRetentionDays ++
      js "-day minimum in EU AI Act Art. 19"))
  let digest ← (manifestDigest input.manifest).mapError CanonicalizationError.toJsError
  let retainUntil ← AuditLog.toISOString input.retainUntil
  let generatedAt ← AuditLog.toISOString generatedAt
  let contents := bundleContents input digest retainUntil generatedAt
  let signature ← sign keySource contents.toPlainObject signedAt
  return ⟨contents, signature⟩

/-- **When a bundle is signed, and what.** -/
theorem createBundle_eq {keySource : KeySource} {now signedAt : TimeValue} {input : BundleInput}
    {retainUntil generatedAt : TimeValue} {digest : JsString} {signature : Signature}
    (hne : input.entries ≠ []) (hchain : (verifyEntrySlice input.entries).valid = true)
    (hproofs : ∀ e ∈ input.entries, (input.inclusionProofs.at e.seq).isSome = true)
    (hretain : input.retainUntil = some retainUntil)
    (hgenerated : input.generatedAt.getD (some now) = some generatedAt)
    (hdays : (daysBetween (.ofInt retainUntil.ms) (.ofInt generatedAt.ms)).lt
      (.ofNat minimumRetentionDays) = false)
    (hdigest : manifestDigest input.manifest = .ok digest)
    (hsign : sign keySource (bundleContents input digest retainUntil.toISOString
      generatedAt.toISOString).toPlainObject signedAt = .ok signature) :
    createBundle keySource now signedAt input =
      .ok ⟨bundleContents input digest retainUntil.toISOString generatedAt.toISOString,
        signature⟩ := by
  have hfind : (input.entries.find? fun e => (input.inclusionProofs.at e.seq).isNone) = none := by
    rw [List.find?_eq_none]
    intro e he
    have h := hproofs e he
    rw [Option.isSome_iff_ne_none] at h
    simpa using h
  have hempty : input.entries.isEmpty = false := by simpa using hne
  simp only [createBundle, hempty, hchain, hfind, hretain, hgenerated, getTime, hdays, hdigest,
    AuditLog.toISOString, hsign, Except.mapError, bind, Except.bind, pure, Except.pure]
  rfl

/-- **What a signed bundle was made of.** -/
theorem createBundle_ok {keySource : KeySource} {now signedAt : TimeValue} {input : BundleInput}
    {bundle : EvidenceBundle} (h : createBundle keySource now signedAt input = .ok bundle) :
    input.entries ≠ [] ∧ (verifyEntrySlice input.entries).valid = true ∧
      (∀ e ∈ input.entries, (input.inclusionProofs.at e.seq).isSome = true) ∧
      ∃ retainUntil generatedAt digest signature,
        input.retainUntil = some retainUntil ∧
        input.generatedAt.getD (some now) = some generatedAt ∧
        (daysBetween (.ofInt retainUntil.ms) (.ofInt generatedAt.ms)).lt
          (.ofNat minimumRetentionDays) = false ∧
        manifestDigest input.manifest = .ok digest ∧
        sign keySource (bundleContents input digest (TimeValue.toISOString retainUntil)
          (TimeValue.toISOString generatedAt)).toPlainObject signedAt = .ok signature ∧
        bundle = ⟨bundleContents input digest retainUntil.toISOString generatedAt.toISOString,
          signature⟩ := by
  unfold createBundle at h
  simp only [bind, Except.bind, pure, Except.pure, throw, throwThe, MonadExceptOf.throw] at h
  repeat' split at h
  all_goals try (cases h; done)
  rename_i hne hchain _ hfind hdays _ digest hdigest _ _ hretain' _ _ hgenerated' _ signature hsign
  obtain ⟨retainUntil, hretain, rfl⟩ := AuditLog.toISOString_eq_ok.mp hretain'
  obtain ⟨generatedAt, hgenerated, rfl⟩ := AuditLog.toISOString_eq_ok.mp hgenerated'
  rw [hretain, hgenerated, Bool.not_eq_true] at hdays
  refine ⟨by simpa using hne, by simpa using hchain, fun e he => ?_, retainUntil, generatedAt,
    digest, signature, hretain, hgenerated, hdays, mapError_eq_ok.mp hdigest, hsign,
    (Except.ok.inj h).symm⟩
  have hsome := List.find?_eq_none.mp hfind e he
  exact Option.isSome_iff_ne_none.mpr (by simpa using hsome)

end AgentEval.Evidence
