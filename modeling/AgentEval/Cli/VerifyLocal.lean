import AgentEval.Evidence.EvidenceBundle

/-!
# `verify-local.ts`: offline bundle verification

The command line verifies a downloaded bundle with code of its own: canonical JSON, the digests of
the entries, their order, the walk up the tree and the digest of the manifest are written again.

`canonical` writes numbers with `JSON.stringify`, so that `-0` becomes `0` and a number that is not
finite `null`; `JsVal.lossy` is the value that is left.

* **`canonical_eq`**: the text of data is the canonical text of its lossy form.
* **`exists_verifyLocalBundle`**: on a file of data the verifier returns, and with which checks.
-/

namespace AgentEval.Cli

open Js Sha256 Evidence

/-! ## Canonical JSON -/

/-- `typeof value`, for a value that is no object. -/
def typeOf : JsVal → JsString
  | .undefined => js "undefined"
  | .bool _ => js "boolean"
  | .num _ => js "number"
  | .str _ => js "string"
  | .bigint _ => js "bigint"
  | .function => js "function"
  | .symbol => js "symbol"
  | _ => js "object"

mutual

/-- RFC 8785: object keys sorted, no insignificant whitespace. A cycle exhausts the stack.
Source: `verify-local.ts`, `canonical` -/
def canonical : JsVal → Except JsError JsString
  | .null => .ok (js "null")
  | .bool true => .ok (js "true")
  | .bool false => .ok (js "false")
  | .num x => .ok (if x.isFinite then x.toString else js "null")
  | .str s => .ok (quote s)
  | .arr xs => do
    let items ← canonicalItems xs
    return 91 :: (joinComma items ++ [93])
  | .obj ps => do
    let parts ← (sortProps (canonicalProps ps)).mapM Prod.snd
    return 123 :: (joinComma parts ++ [125])
  | .date _ => .ok (js "{}")
  | .ancestor _ => .error ⟨js "RangeError", js "Maximum call stack size exceeded"⟩
  | v => .error (.error (js "cannot canonicalize " ++ typeOf v))

/-- The texts of the items of an array.
Source: `verify-local.ts`, `canonical` -/
def canonicalItems : List JsVal → Except JsError (List JsString)
  | [] => .ok []
  | x :: xs => do
    let item ← canonical x
    let items ← canonicalItems xs
    return item :: items

/-- The texts of the properties of an object, each under its key; those that are `undefined` are
left out.
Source: `verify-local.ts`, `canonical` -/
def canonicalProps : Props → List (JsString × Except JsError JsString)
  | [] => []
  | (k, v) :: ps =>
    if v.isUndefined then canonicalProps ps
    else (k, (canonical v).map (member k)) :: canonicalProps ps

end

/-! ## Hashing and inclusion -/

/-- Source: `verify-local.ts`, `hashLeaf` -/
def hashLeaf (data : Bytes) : Digest := sha256 (0 :: data)

/-- Source: `verify-local.ts`, `hashNode` -/
def hashNode (l r : Bytes) : Digest := sha256 (1 :: (l ++ r))

/-- The loop over the path; it ends with `sn` and the hash, or returns `false`. The tests and the
moves of a pass are those of `proof-verifier.ts`; the length of a sibling is not looked at.
Source: `verify-local.ts`, `verifyInclusion` -/
def inclusionLoop (fn sn : Number) (hash : Digest) : List JsString → Option (Number × Digest)
  | [] => some (sn, hash)
  | sibling :: path =>
    if sn.eq (.ofNat 0) then none
    else
      let node := fromHex sibling
      inclusionLoop (moveUp fn sn).1 (moveUp fn sn).2
        (if isRightChild fn sn then hashNode node hash.bytes else hashNode hash.bytes node) path

/-- Source: `verify-local.ts`, `verifyInclusion` -/
def verifyInclusion (leaf : Bytes) (leafIndex treeSize : Number) (path : List JsString)
    (root : JsString) : Bool :=
  if treeSize.le (.ofNat 0) || leafIndex.lt (.ofNat 0) || treeSize.le leafIndex then false
  else
    match inclusionLoop leafIndex (treeSize.sub (.ofNat 1)) (hashLeaf leaf) path with
    | none => false
    | some (sn, hash) => sn.eq (.ofNat 0) && decide (toHex hash.bytes = root)

/-! ## The verifier -/

/-- What `JSON.parse` makes of a downloaded file. `bundle` is `offline.bundle ?? offline`. -/
structure OfflineFile where
  /-- The bundle. -/
  bundle : EvidenceBundle
  /-- The public key, if the file has one. -/
  publicKeyPem : Option JsString
  /-- The contents were read from JSON text. -/
  isData : bundle.payload.toJs.IsData

/-- Source: `verify-local.ts`, `LocalVerification.checks` -/
structure LocalChecks where
  /-- The signature. -/
  signature : Bool
  /-- The digests of the entries. -/
  entryDigests : Bool
  /-- Their order. -/
  ordering : Bool
  /-- Every entry is in the log. -/
  inclusion : Bool
  /-- The manifest digest. -/
  manifest : Bool

/-- Source: `verify-local.ts`, `LocalVerification` -/
structure LocalVerification where
  /-- Whether the bundle was accepted. -/
  valid : Bool
  /-- The checks. -/
  checks : LocalChecks
  /-- What failed. -/
  failures : List JsString

/-- SHA-256 over the text of an object, in hexadecimal.
Source: `verify-local.ts`, `verifyLocalBundle` -/
def localDigest (o : PlainObject) : Except JsError JsString :=
  (canonical o.toJs).map fun text => toHex (sha256 (utf8 text)).bytes

/-- `edVerify` on the text of the contents; an error carries its message.
Source: `verify-local.ts`, `verifyLocalBundle` -/
def edVerify (crypto : NodeCrypto) (bundle : EvidenceBundle) (publicKeyPem : JsString) :
    Except JsString Bool := do
  let text ← (canonical bundle.payload.toJs).mapError JsError.message
  let key ← crypto.createPublicKey publicKeyPem
  return crypto.verify (utf8 text) key (fromBase64 bundle.signature.value)

/-- The signature check, and what failed.
Source: `verify-local.ts`, `verifyLocalBundle` -/
def signatureCheck (crypto : NodeCrypto) (file : OfflineFile) : Bool × List JsString :=
  match file.publicKeyPem with
  | none | some [] => (false, [js "no public key in the file; download it with `evidence download`"])
  | some publicKeyPem =>
    match edVerify crypto file.bundle publicKeyPem with
    | .ok true => (true, [])
    | .ok false => (false, [js "signature does not verify against the public key"])
    | .error message => (false, [js "signature check failed: " ++ message])

/-- The entries that were modified.
Source: `verify-local.ts`, `verifyLocalBundle` -/
def digestFailures : List AuditEntry → Except JsError (List JsString)
  | [] => .ok []
  | entry :: entries => do
    let recomputed ← localDigest entry.rest
    let failures ← digestFailures entries
    return if recomputed ≠ entry.entryHash then
      (js "entry " ++ entry.seq.toString ++ js " was modified after it was written") :: failures
    else failures

/-- The entries that do not follow the one before them.
Source: `verify-local.ts`, `verifyLocalBundle` -/
def orderingFailures (previous : Number) : List AuditEntry → List JsString
  | [] => []
  | entry :: entries =>
    if entry.seq.le previous then
      (js "entry " ++ entry.seq.toString ++ js " does not follow " ++ previous.toString ++
        js "; the slice is reordered") :: orderingFailures entry.seq entries
    else orderingFailures entry.seq entries

/-- The inclusion check of one entry: nothing when the entry is in the log.
Source: `verify-local.ts`, `verifyLocalBundle` -/
def inclusionFailure (contents : BundleContents) (entry : AuditEntry) : Option JsString :=
  match contents.inclusionProofs.at entry.seq with
  | none => some (js "entry " ++ entry.seq.toString ++ js ": no inclusion proof")
  | some proof =>
    if verifyInclusion (fromHex entry.entryHash) proof.proof.leafIndex proof.proof.treeSize
        proof.proof.path contents.logRoot then none
    else some (js "entry " ++ entry.seq.toString ++ js ": not provably in the log")

/-- Verify a downloaded bundle offline.
Source: `verify-local.ts`, `verifyLocalBundle` -/
def verifyLocalBundle (crypto : NodeCrypto) (file : OfflineFile) :
    Except JsError LocalVerification := do
  let contents := file.bundle.payload
  let signature := signatureCheck crypto file
  let modified ← digestFailures contents.entries
  let reordered := orderingFailures (.ofInt (-1)) contents.entries
  let missing := contents.entries.filterMap (inclusionFailure contents)
  let recomputed ← localDigest contents.manifest
  let checks : LocalChecks := ⟨signature.1, modified.isEmpty, reordered.isEmpty, missing.isEmpty,
    decide (recomputed = contents.manifestDigest)⟩
  let failures := signature.2 ++ modified ++ reordered ++ missing ++
    if checks.manifest then [] else [js "manifest digest does not match the manifest"]
  return ⟨checks.signature && checks.entryDigests && checks.ordering && checks.inclusion &&
    checks.manifest, checks, failures⟩

/-! ## Canonical text of data -/

section data

variable {v : JsVal} {xs : List JsVal} {ps : Props} {o : PlainObject} {key : JsString}

/-- The items of an array are written one after the other. -/
theorem canonicalItems_eq (h : ∀ x ∈ xs, canonical x = .ok (canonicalText x.lossy)) :
    canonicalItems xs = .ok (xs.map fun x => canonicalText x.lossy) := by
  induction xs with
  | nil => rfl
  | cons x xs ih =>
    rw [List.forall_mem_cons] at h
    rw [canonicalItems, h.1, ih h.2]
    rfl

/-- The properties that are written. -/
theorem canonicalProps_eq (hps : JsVal.IsData (.obj ps))
    (h : ∀ p ∈ ps, canonical p.2 = .ok (canonicalText p.2.lossy)) :
    canonicalProps ps = ps.map fun p => (p.1, .ok (member p.1 (canonicalText p.2.lossy))) := by
  obtain ⟨-, hdata⟩ := JsVal.isData_obj.mp hps
  clear hps
  induction ps with
  | nil => rfl
  | cons p ps ih =>
    rw [List.forall_mem_cons] at h hdata
    rw [canonicalProps, hdata.1.isUndefined, if_neg Bool.false_ne_true, h.1, ih h.2 hdata.2]
    rfl

/-- **Data is written as its lossy form.** -/
theorem canonical_eq (h : v.IsData) : canonical v = .ok (canonicalText v.lossy) := by
  induction v using JsVal.induct with
  | null => rfl
  | bool b => cases b <;> rfl
  | num x =>
    cases x with
    | negZero =>
      have hzero : (Number.ofNat 0).toString = [48] := by decide +kernel
      exact congrArg Except.ok hzero.symm
    | _ => rfl
  | str s => rfl
  | arr xs ih =>
    rw [canonical, canonicalItems_eq fun x hx => ih x hx (JsVal.isData_arr.mp h x hx),
      JsVal.lossy_arr, canonicalText_arr, List.map_map]
    rfl
  | obj ps ih =>
    have hparts := canonicalProps_eq h fun p hp => ih p hp ((JsVal.isData_obj.mp h).2 p hp)
    have hlossy := h.isJson_lossy.isData
    rw [JsVal.lossy_obj] at hlossy
    have hsort := map_sortProps
      (fun k (v : JsVal) => (Except.ok (member k (canonicalText v.lossy)) : Except JsError JsString)) ps
    have hsort' := map_sortProps (fun _ => JsVal.lossy) ps
    rw [canonical, hparts, JsVal.lossy_obj, canonicalText_obj, hlossy.filter_eq, ← hsort, ← hsort',
      List.mapM_map, List.map_map]
    change (List.mapM (fun p : JsString × JsVal => pure (member p.1 (canonicalText p.2.lossy))) _ >>=
      _) = _
    rw [List.mapM_pure]
    rfl
  | _ => exact absurd h id

/-- The octets that the command line hashes and signs for an object. -/
def lossyBytes (o : PlainObject) : Bytes := utf8 (canonicalText o.toJs.lossy)

/-- On a JSON value they are the canonical octets. -/
theorem lossyBytes_eq (h : o.toJs.IsJson) : lossyBytes o = canonicalBytes o := by
  rw [lossyBytes, h.lossy_eq, canonicalBytes]

/-- The digest of an object of data. -/
theorem localDigest_eq (h : o.toJs.IsData) :
    localDigest o = .ok (toHex (sha256 (lossyBytes o)).bytes) := by
  rw [localDigest, canonical_eq h]
  rfl

/-- A property of data is data. -/
theorem isData_get (h : o.toJs.IsData) (hne : o.get key ≠ .undefined) : (o.get key).IsData :=
  (JsVal.isData_obj.mp h).2 _ (mem_of_getProp_ne hne)

/-- The rest of data is data. -/
theorem isData_without (h : o.toJs.IsData) : (o.without key).toJs.IsData := by
  obtain ⟨hk, hps⟩ := JsVal.isData_obj.mp h
  refine JsVal.isData_obj.mpr ⟨?_, fun p hp => hps p (List.mem_of_mem_filter hp)⟩
  exact List.Nodup.sublist (List.Sublist.map _ List.filter_sublist) hk

end data

/-! ## The verifier on data -/

/-- The hash of an entry is the digest of its octets as the command line writes them. -/
def LocallyDigested (entry : AuditEntry) : Prop :=
  toHex (sha256 (lossyBytes entry.rest)).bytes = entry.entryHash

/-- The sequence numbers ascend, from above `-1`. -/
def Ascending (entries : List AuditEntry) : Prop :=
  List.IsChain (fun x y => Number.le y x = false) (.ofInt (-1) :: entries.map (·.seq))

/-- An entry has a proof that leads to the root cited, whatever the lengths of its nodes. -/
def LocallyIncluded (contents : BundleContents) (entry : AuditEntry) : Prop :=
  ∃ proof, contents.inclusionProofs.at entry.seq = some proof ∧
    verifyInclusion (fromHex entry.entryHash) proof.proof.leafIndex proof.proof.treeSize
      proof.proof.path contents.logRoot = true

section verifier

variable {contents : BundleContents} {entries : List AuditEntry} {entry : AuditEntry}

/-- The digests are looked at one after the other. -/
theorem exists_digestFailures (h : ∀ e ∈ entries, e.rest.toJs.IsData) :
    ∃ failures, digestFailures entries = .ok failures ∧
      (failures = [] ↔ ∀ e ∈ entries, LocallyDigested e) := by
  induction entries with
  | nil => exact ⟨[], rfl, iff_of_true rfl (List.forall_mem_nil _)⟩
  | cons entry entries ih =>
    rw [List.forall_mem_cons] at h
    obtain ⟨failures, hok, hiff⟩ := ih h.2
    rw [digestFailures, localDigest_eq h.1, hok, List.forall_mem_cons, ← hiff]
    by_cases hd : LocallyDigested entry
    · exact ⟨failures, congrArg Except.ok (if_neg (not_not.mpr hd)), (and_iff_right hd).symm⟩
    · exact ⟨_, congrArg Except.ok (if_pos hd),
        iff_of_false (List.cons_ne_nil _ _) fun h => hd h.1⟩

/-- Nothing is out of order exactly when the sequence numbers ascend. -/
theorem orderingFailures_eq_nil_iff {previous : Number} :
    orderingFailures previous entries = [] ↔
      List.IsChain (fun x y => Number.le y x = false) (previous :: entries.map (·.seq)) := by
  induction entries generalizing previous with
  | nil => exact iff_of_true rfl (.singleton _)
  | cons entry entries ih =>
    rw [orderingFailures, List.map_cons, List.isChain_cons_cons, ← ih]
    by_cases hseq : entry.seq.le previous = true
    · rw [if_pos hseq]
      exact iff_of_false (List.cons_ne_nil _ _) fun h => by simp [hseq] at h
    · rw [if_neg hseq, and_iff_right (by simpa using hseq)]

/-- Nothing is found exactly when the entry has a proof that leads to the root. -/
theorem inclusionFailure_eq_none_iff :
    inclusionFailure contents entry = none ↔ LocallyIncluded contents entry := by
  unfold inclusionFailure LocallyIncluded
  cases contents.inclusionProofs.at entry.seq with
  | none => simp
  | some proof => simp

/-- The manifest of a file is data. -/
theorem OfflineFile.isData_manifest (file : OfflineFile) :
    file.bundle.payload.manifest.toJs.IsData := by
  have h := @isData_get _ (js "manifest") file.isData
  rw [file.bundle.payload.get_manifest] at h
  exact h nofun

/-- The rest of an entry of a file is data. -/
theorem OfflineFile.isData_rest (file : OfflineFile) (h : entry ∈ file.bundle.payload.entries) :
    entry.rest.toJs.IsData := by
  have hentries := @isData_get _ (js "entries") file.isData
  rw [file.bundle.payload.get_entries] at hentries
  exact isData_without (JsVal.isData_arr.mp (hentries nofun) _ (List.mem_map_of_mem h))

/-- **On a file of data the verifier returns**, with these checks. -/
theorem exists_verifyLocalBundle (crypto : NodeCrypto) (file : OfflineFile) :
    ∃ r, verifyLocalBundle crypto file = .ok r ∧
      r.checks.signature = (signatureCheck crypto file).1 ∧
      (r.checks.entryDigests = true ↔ ∀ e ∈ file.bundle.payload.entries, LocallyDigested e) ∧
      (r.checks.ordering = true ↔ Ascending file.bundle.payload.entries) ∧
      (r.checks.inclusion = true ↔
        ∀ e ∈ file.bundle.payload.entries, LocallyIncluded file.bundle.payload e) ∧
      r.checks.manifest = decide (toHex (sha256 (lossyBytes file.bundle.payload.manifest)).bytes =
        file.bundle.payload.manifestDigest) := by
  obtain ⟨modified, hmodified, hdigests⟩ := exists_digestFailures fun _ he => file.isData_rest he
  have hrun : ∃ r, verifyLocalBundle crypto file = .ok r ∧
      r.checks = ⟨(signatureCheck crypto file).1, modified.isEmpty,
        (orderingFailures (.ofInt (-1)) file.bundle.payload.entries).isEmpty,
        (file.bundle.payload.entries.filterMap (inclusionFailure file.bundle.payload)).isEmpty,
        decide (toHex (sha256 (lossyBytes file.bundle.payload.manifest)).bytes =
          file.bundle.payload.manifestDigest)⟩ := by
    rw [verifyLocalBundle, hmodified, localDigest_eq file.isData_manifest]
    exact ⟨_, rfl, rfl⟩
  obtain ⟨r, hr, hchecks⟩ := hrun
  refine ⟨r, hr, ?_⟩
  rw [hchecks]
  refine ⟨rfl, ?_, ?_, ?_, rfl⟩
  · rw [← hdigests, List.isEmpty_iff]
  · rw [Ascending, ← orderingFailures_eq_nil_iff, List.isEmpty_iff]
  · rw [List.isEmpty_iff, List.filterMap_eq_nil_iff]
    exact forall₂_congr fun _ _ => inclusionFailure_eq_none_iff

end verifier

end AgentEval.Cli
