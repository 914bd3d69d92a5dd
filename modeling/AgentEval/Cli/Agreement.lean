import AgentEval.Cli.VerifyLocal

/-!
# Agreement of the two bundle verifiers

`verifyLocalBundle` and `verifyBundle` are given one file. The command line does not look at the
algorithm named in a signature nor at the length of the nodes of a path, and it writes `-0` and the
numbers that are not finite where the server rejects them; the server's digest of a manifest with
such a number is an exception.

* **`serverInclusion_iff`**: the server accepts the paths that the command line accepts and whose
  nodes are hashes.
* **`exists_verifyBundle`**, **`verifyBundle_throws`**: the server returns exactly when the manifest
  can be written.
* **`verifiers_agree_iff`**: when the two agree.
-/

namespace AgentEval.Cli

open Js Sha256 Evidence

/-! ## Inclusion -/

section inclusion

variable {path : List JsString} {root : JsString}

/-- A text that decodes to 32 octets is a hash, and no other is. -/
theorem hexToBuf_cases (s : JsString) :
    (∃ d : Digest, hexToBuf s = .ok d ∧ d.bytes = fromHex s ∧ (fromHex s).length = 32) ∨
      (∃ e, hexToBuf s = .error e) ∧ (fromHex s).length ≠ 32 := by
  unfold hexToBuf
  by_cases h : (fromHex s).length = 32
  · rw [dif_pos h]
    exact Or.inl ⟨_, rfl, rfl, h⟩
  · rw [dif_neg h]
    exact Or.inr ⟨⟨_, rfl⟩, h⟩

/-- **The server's loop ends where the command line's does**, on hashes only. -/
theorem serverLoop_eq_ok_iff {fn sn : Number} {hash : Digest} {r : Number × Digest} :
    Evidence.inclusionLoop fn sn hash path = .ok r ↔
      inclusionLoop fn sn hash path = some r ∧ ∀ s ∈ path, (fromHex s).length = 32 := by
  induction path generalizing fn sn hash with
  | nil =>
    rw [Evidence.inclusionLoop, inclusionLoop, Except.ok.injEq, Option.some.injEq,
      and_iff_left (List.forall_mem_nil _)]
  | cons s path ih =>
    rw [Evidence.inclusionLoop, inclusionLoop, List.forall_mem_cons]
    by_cases hend : sn.eq (.ofNat 0) = true
    · rw [if_pos hend, if_pos hend]
      refine iff_of_false (by simp) ?_
      rintro ⟨⟨⟩, -⟩
    rw [if_neg hend, if_neg hend]
    rcases hexToBuf_cases s with ⟨d, hok, hbytes, hlength⟩ | ⟨⟨e, herror⟩, hlength⟩
    · -- the node is hashed on the same side by both
      rw [hok, and_iff_right hlength, ← hbytes]
      exact ih
    · rw [herror]
      exact iff_of_false (by simp) fun h => hlength h.2.1

/-- What the command line accepts. -/
theorem verifyInclusion_eq_true_iff {leaf : Bytes} {leafIndex treeSize : Number} :
    verifyInclusion leaf leafIndex treeSize path root = true ↔
      treeSize.le (.ofNat 0) = false ∧ leafIndex.lt (.ofNat 0) = false ∧
        treeSize.le leafIndex = false ∧ ∃ sn hash,
          inclusionLoop leafIndex (treeSize.sub (.ofNat 1)) (hashLeaf leaf) path =
            some (sn, hash) ∧ sn.eq (.ofNat 0) = true ∧ toHex hash.bytes = root := by
  unfold verifyInclusion
  by_cases hguard : (treeSize.le (.ofNat 0) || leafIndex.lt (.ofNat 0) ||
      treeSize.le leafIndex) = true
  · rw [if_pos hguard]
    refine iff_of_false Bool.false_ne_true ?_
    rintro ⟨hsize, hlow, hhigh, -⟩
    rw [hsize, hlow, hhigh] at hguard
    exact absurd hguard (by decide)
  · rw [if_neg hguard]
    rw [Bool.not_eq_true, Bool.or_eq_false_iff, Bool.or_eq_false_iff] at hguard
    obtain ⟨⟨hsize, hlow⟩, hhigh⟩ := hguard
    rw [and_iff_right hsize, and_iff_right hlow, and_iff_right hhigh]
    cases inclusionLoop leafIndex (treeSize.sub (.ofNat 1)) (hashLeaf leaf) path with
    | none =>
      refine iff_of_false Bool.false_ne_true ?_
      rintro ⟨_, _, ⟨⟩, -⟩
    | some r => simp [Prod.ext_iff]

/-- **The server accepts the paths that the command line accepts and whose nodes are hashes.** -/
theorem serverInclusion_iff {proof : InclusionProof} {leaf : Bytes} :
    (Evidence.verifyInclusion proof (.buffer leaf) root).valid = true ↔
      verifyInclusion leaf proof.leafIndex proof.treeSize proof.path root = true ∧
        ∀ s ∈ proof.path, (fromHex s).length = 32 := by
  rw [verifyInclusion_valid_iff, verifyInclusion_eq_true_iff]
  constructor
  · rintro ⟨hsize, hlow, hhigh, sn, hash, hloop, hend, hroot⟩
    obtain ⟨hlocal, hnodes⟩ := serverLoop_eq_ok_iff.mp hloop
    exact ⟨⟨hsize, hlow, hhigh, sn, hash, hlocal, hend, hroot⟩, hnodes⟩
  · rintro ⟨⟨hsize, hlow, hhigh, sn, hash, hlocal, hend, hroot⟩, hnodes⟩
    exact ⟨hsize, hlow, hhigh, sn, hash, serverLoop_eq_ok_iff.mpr ⟨hlocal, hnodes⟩, hend, hroot⟩

end inclusion

/-! ## Agreement -/

/-- The text is that of an Ed25519 public key. -/
structure Ed25519 (crypto : NodeCrypto) (publicKeyPem : JsString) (key : crypto.PublicKey) :
    Prop where
  /-- There is a text. -/
  ne_nil : publicKeyPem ≠ []
  /-- It is that of the key. -/
  create : crypto.createPublicKey publicKeyPem = .ok key
  /-- The key is one of Ed25519. -/
  type : crypto.asymmetricKeyType key = js "ed25519"

/-- Both verifiers return, and with the same answer on the checks they share. -/
def Agree (crypto : NodeCrypto) (host : JsString → Number) (file : OfflineFile)
    (publicKeyPem : JsString) : Prop :=
  ∃ offline server, verifyLocalBundle crypto file = .ok offline ∧
    verifyBundle crypto host file.bundle publicKeyPem = .ok server ∧
    offline.checks.signature = server.checks.signature ∧
    (offline.checks.entryDigests && offline.checks.ordering) = server.checks.chain ∧
    offline.checks.inclusion = server.checks.inclusion ∧
    offline.checks.manifest = server.checks.manifest

/-- A bundle on which nothing that only the server looks at decides a check. -/
structure Plain (crypto : NodeCrypto) (key : crypto.PublicKey) (bundle : EvidenceBundle) : Prop where
  /-- The manifest can be written. -/
  manifest : bundle.payload.manifest.toJs.IsJson
  /-- A signature of the contents, as the command line writes them, names the algorithm, and the
  contents can be written. -/
  signature : crypto.verify (lossyBytes bundle.payload.toPlainObject) key
    (fromBase64 bundle.signature.value) = true →
      bundle.signature.algorithm = js "ed25519" ∧ bundle.payload.toJs.IsJson
  /-- Entries that ascend and have the digests that the command line computes can be written. -/
  chain : Ascending bundle.payload.entries → (∀ e ∈ bundle.payload.entries, LocallyDigested e) →
    ∀ e ∈ bundle.payload.entries, e.rest.toJs.IsJson
  /-- Paths that lead to the root cited have hashes for nodes. -/
  inclusion : (∀ e ∈ bundle.payload.entries, LocallyIncluded bundle.payload e) →
    ∀ e ∈ bundle.payload.entries, ∀ proof, bundle.payload.inclusionProofs.at e.seq = some proof →
      ∀ s ∈ proof.proof.path, (fromHex s).length = 32

section agreement

variable {crypto : NodeCrypto} {host : JsString → Number} {file : OfflineFile}
  {publicKeyPem : JsString} {key : crypto.PublicKey}

/-- Two answers, one of which asks for more. -/
theorem answer_eq_iff {a b : Bool} {P Q : Prop} (ha : a = true ↔ P) (hb : b = true ↔ Q ∧ P) :
    a = b ↔ (P → Q) := by
  rw [Bool.eq_iff_iff, ha, hb]
  tauto

/-- The command line asks the key about the contents as it writes them. -/
theorem signatureCheck_eq (hpem : file.publicKeyPem = some publicKeyPem)
    (hkey : Ed25519 crypto publicKeyPem key) :
    (signatureCheck crypto file).1 = crypto.verify (lossyBytes file.bundle.payload.toPlainObject) key
      (fromBase64 file.bundle.signature.value) := by
  have hverify : edVerify crypto file.bundle publicKeyPem =
      .ok (crypto.verify (lossyBytes file.bundle.payload.toPlainObject) key
        (fromBase64 file.bundle.signature.value)) := by
    rw [edVerify, canonical_eq file.isData, hkey.create]
    rfl
  unfold signatureCheck
  rw [hpem]
  cases publicKeyPem with
  | nil => exact absurd rfl hkey.ne_nil
  | cons u pem =>
    dsimp only
    rw [hverify]
    cases crypto.verify (lossyBytes file.bundle.payload.toPlainObject) key
      (fromBase64 file.bundle.signature.value) <;> rfl

/-- The server asks the key about contents that can be written, under the right algorithm. -/
theorem serverSignature_iff (hkey : Ed25519 crypto publicKeyPem key) :
    (verifySignature crypto file.bundle.payload.toPlainObject file.bundle.signature
        publicKeyPem).valid = true ↔
      (file.bundle.signature.algorithm = js "ed25519" ∧ file.bundle.payload.toJs.IsJson) ∧
        crypto.verify (lossyBytes file.bundle.payload.toPlainObject) key
          (fromBase64 file.bundle.signature.value) = true := by
  rw [verifySignature_valid_iff, file.isData.jsonForm_eq, and_assoc]
  refine and_congr_right fun _ => and_congr_right fun hjson => ?_
  rw [lossyBytes_eq hjson]
  constructor
  · rintro ⟨key', hcreate, -, hverify⟩
    obtain rfl := Except.ok.inj (hkey.create.symm.trans hcreate)
    exact hverify
  · exact fun hverify => ⟨key, hkey.create, hkey.type, hverify⟩

/-- The digest that the server computes is that of the command line, for what can be written. -/
theorem canonicalDigest_iff {o : PlainObject} (ho : o.toJs.IsData) {digest : JsString} :
    canonicalDigest o = .ok digest ↔
      o.toJs.IsJson ∧ toHex (sha256 (lossyBytes o)).bytes = digest := by
  rw [canonicalDigest_eq_ok_iff, ho.jsonForm_eq]
  refine and_congr_right fun hjson => ?_
  rw [lossyBytes_eq hjson]
  exact eq_comm

/-- The server accepts the slices that the command line accepts and whose entries can be written. -/
theorem serverChain_iff :
    (verifyEntrySlice file.bundle.payload.entries).valid = true ↔
      (∀ e ∈ file.bundle.payload.entries, e.rest.toJs.IsJson) ∧
        (∀ e ∈ file.bundle.payload.entries, LocallyDigested e) ∧
          Ascending file.bundle.payload.entries := by
  have hdigested : (∀ e ∈ file.bundle.payload.entries, Digested e) ↔
      ∀ e ∈ file.bundle.payload.entries, e.rest.toJs.IsJson ∧ LocallyDigested e :=
    forall₂_congr fun e he => canonicalDigest_iff (file.isData_rest he)
  rw [verifyEntrySlice_valid_iff, hdigested, Ascending]
  simp only [forall_and]
  tauto

/-- The server finds every entry in the log when the command line does and the nodes are hashes. -/
theorem serverIncluded_iff {contents : BundleContents} :
    (∀ e ∈ contents.entries, Included contents e) ↔
      (∀ e ∈ contents.entries, ∀ proof, contents.inclusionProofs.at e.seq = some proof →
        ∀ s ∈ proof.proof.path, (fromHex s).length = 32) ∧
        ∀ e ∈ contents.entries, LocallyIncluded contents e := by
  rw [← forall₂_and]
  refine forall₂_congr fun e _ => ?_
  unfold Included LocallyIncluded
  cases contents.inclusionProofs.at e.seq with
  | none => simp
  | some proof => simp [serverInclusion_iff, and_comm]

/-- **The server returns when the manifest can be written**, with these checks. -/
theorem exists_verifyBundle (hmanifest : file.bundle.payload.manifest.toJs.IsJson) :
    ∃ r, verifyBundle crypto host file.bundle publicKeyPem = .ok r ∧
      r.checks.signature = (verifySignature crypto file.bundle.payload.toPlainObject
        file.bundle.signature publicKeyPem).valid ∧
      r.checks.chain = (verifyEntrySlice file.bundle.payload.entries).valid ∧
      (r.checks.inclusion = true ↔
        ∀ e ∈ file.bundle.payload.entries, Included file.bundle.payload e) ∧
      r.checks.manifest = decide (toHex (sha256 (lossyBytes file.bundle.payload.manifest)).bytes =
        file.bundle.payload.manifestDigest) := by
  have hdigest := (canonicalDigest_iff file.isData_manifest).mpr ⟨hmanifest, rfl⟩
  have hmissing : (file.bundle.payload.entries.filterMap
      (checkInclusion file.bundle.payload)).isEmpty = true ↔
        ∀ e ∈ file.bundle.payload.entries, Included file.bundle.payload e := by
    rw [List.isEmpty_iff, List.filterMap_eq_nil_iff]
    exact forall₂_congr fun _ _ => checkInclusion_eq_none_iff
  rw [verifyBundle, manifestDigest, hdigest]
  exact ⟨_, rfl, rfl, rfl, hmissing, rfl⟩

/-- **The server throws when the manifest cannot be written.** -/
theorem verifyBundle_throws (hmanifest : ¬ file.bundle.payload.manifest.toJs.IsJson)
    (r : BundleVerification) : verifyBundle crypto host file.bundle publicKeyPem ≠ .ok r := by
  intro h
  cases hd : manifestDigest file.bundle.payload.manifest with
  | ok digest => exact hmanifest ((canonicalDigest_iff file.isData_manifest).mp hd).1
  | error e =>
    rw [verifyBundle, hd] at h
    cases h

end agreement

/-! ## Two files -/

/-- What a bundle without entries is made of. -/
def emptyInput (manifest : PlainObject) : BundleInput where
  bundleId := js "b-1"
  tenantId := js "t-1"
  runId := js "r-1"
  manifest := manifest
  entries := []
  logRoot := genesisHash
  logSize := .ofNat 0
  inclusionProofs := ⟨[], List.nodup_nil⟩
  consistency := none
  mappings := some []
  retainUntil := none
  policy := js "default"
  wormAnchored := false
  generatedAt := none

/-- The file of such a bundle, without a digest, dates or a signature. -/
def emptyFile (manifest : PlainObject) (h : manifest.toJs.IsData) : OfflineFile where
  bundle := ⟨bundleContents (emptyInput manifest) [] [] [], .ofValue (js "dev-key-1") [] []⟩
  publicKeyPem := some (js "dev-key-1")
  isData := by
    refine JsVal.isData_obj.mpr ⟨(bundleContents (emptyInput manifest) [] [] []).distinctKeys, ?_⟩
    refine forall_contentsProps (fun _ => trivial) h (JsVal.isData_arr.mpr (List.forall_mem_nil _))
      trivial (JsVal.isData_obj.mpr ⟨List.nodup_nil, List.forall_mem_nil _⟩) (fun c hc => nomatch hc)
      (JsVal.isData_arr.mpr (List.forall_mem_nil _)) ?_
    refine JsVal.isData_obj.mpr ⟨PlainObject.distinctKeys, ?_⟩
    simp only [retentionObject, List.forall_mem_cons]
    exact ⟨trivial, trivial, trivial, List.forall_mem_nil _⟩

/-- A manifest with a negative zero. -/
def negZeroManifest : PlainObject where
  props := [(js "seed", .num .negZero)]
  wf := JsVal.wf_obj.mpr ⟨List.nodup_singleton _, List.forall_mem_singleton.mpr trivial⟩

/-- The key of the sample scheme. -/
theorem ed25519_digestCrypto : Ed25519 digestCrypto (js "dev-key-1") () :=
  ⟨by simp, by simp [digestCrypto], rfl⟩

end AgentEval.Cli
