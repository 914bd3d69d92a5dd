import AgentEval.Evidence.EvidenceBundle
import AgentEval.Evidence.LogIntegrity

/-!
# Evidence bundles: sound and complete

* `BundleContents.Accepted.json`, **`verifyBundle_json`**: what is accepted is accepted after
  `JSON.stringify` and `JSON.parse`.
* **`bundle_complete`**: a bundle cut from a log, over any of its entries, is created and accepted.
* **`bundle_sound`**: an accepted bundle that cites the root of a log has entries of that log only,
  in the order of the log.
-/

namespace AgentEval.Evidence

open Js Sha256 Crypto

/-! ## The way through JSON text -/

/-- An entry after a way through JSON text. -/
def AuditEntry.json (entry : AuditEntry) : AuditEntry where
  toPlainObject := entry.toPlainObject.json
  seq := entry.seq
  recordedAt := entry.recordedAt
  action := entry.action
  actor := entry.actor
  tenantId := entry.tenantId
  subject := entry.subject
  payload := entry.payload.json
  previousHash := entry.previousHash
  entryHash := entry.entryHash
  get_seq := by rw [PlainObject.get_json, entry.get_seq]; rfl
  get_recordedAt := by rw [PlainObject.get_json, entry.get_recordedAt]; rfl
  get_action := by rw [PlainObject.get_json, entry.get_action]; rfl
  get_actor := by rw [PlainObject.get_json, entry.get_actor]; rfl
  get_tenantId := by rw [PlainObject.get_json, entry.get_tenantId]; rfl
  get_subject := by
    rw [PlainObject.get_json, entry.get_subject]
    cases entry.subject <;> rfl
  get_payload := by rw [PlainObject.get_json, entry.get_payload, PlainObject.toJs_json]
  get_previousHash := by rw [PlainObject.get_json, entry.get_previousHash]; rfl
  get_entryHash := by rw [PlainObject.get_json, entry.get_entryHash]; rfl

/-- An entry keeps its digest. -/
theorem Digested.json {entry : AuditEntry} (h : Digested entry) : Digested entry.json := by
  have hrest : entry.json.rest = entry.rest.json := PlainObject.without_json
  rw [Digested, hrest]
  exact canonicalDigest_json h

/-- A proof after a way through JSON text. -/
def InclusionProofObject.json (o : InclusionProofObject) : InclusionProofObject where
  toPlainObject := o.toPlainObject.json
  proof := o.proof
  get_leafIndex := by rw [PlainObject.get_json, o.get_leafIndex]; rfl
  get_treeSize := by rw [PlainObject.get_json, o.get_treeSize]; rfl
  get_path := by
    rw [PlainObject.get_json, o.get_path, JsVal.jsonForm_arr, List.map_map]
    rfl

/-- A record of proofs after a way through JSON text. -/
def ProofRecord.json (r : ProofRecord) : ProofRecord where
  proofs := r.proofs.map fun p => (p.1, p.2.json)
  distinctKeys := (JsVal.distinctKeys_map InclusionProofObject.json).mpr r.distinctKeys

/-- The record as a value. -/
theorem ProofRecord.toJs_json (r : ProofRecord) : r.json.toJs = r.toJs.jsonForm := by
  have hkeep : (r.proofs.map fun p => (p.1, p.2.toJs)).filter (fun p => !p.2.isUndefined) =
      r.proofs.map fun p => (p.1, p.2.toJs) := by
    rw [List.filter_eq_self, List.forall_mem_map]
    exact fun _ _ => rfl
  rw [ProofRecord.toJs, ProofRecord.toJs, JsVal.jsonForm_obj, hkeep, List.map_map, json,
    List.map_map]
  congr 1
  refine List.map_congr_left fun p _ => ?_
  exact congrArg (Prod.mk p.1) PlainObject.toJs_json

/-- The proof at a sequence number is kept. -/
theorem ProofRecord.at_json (r : ProofRecord) (seq : Number) :
    r.json.at seq = (r.at seq).map InclusionProofObject.json := by
  change (r.proofs.map fun p => (p.1, p.2.json)).lookup seq.toString = _
  rw [ProofRecord.at]
  induction r.proofs with
  | nil => rfl
  | cons p ps ih =>
    rw [List.map_cons, List.lookup_cons, List.lookup_cons, ih]
    split <;> rfl

/-- Contents after a way through JSON text. -/
def BundleContents.json (contents : BundleContents) : BundleContents where
  toPlainObject := contents.toPlainObject.json
  manifest := contents.manifest.json
  manifestDigest := contents.manifestDigest
  entries := contents.entries.map AuditEntry.json
  logRoot := contents.logRoot
  logSize := contents.logSize
  inclusionProofs := contents.inclusionProofs.json
  retention := contents.retention.json
  retainUntil := contents.retainUntil
  generatedAt := contents.generatedAt
  get_manifest := by rw [PlainObject.get_json, contents.get_manifest, PlainObject.toJs_json]
  get_manifestDigest := by rw [PlainObject.get_json, contents.get_manifestDigest]; rfl
  get_entries := by
    rw [PlainObject.get_json, contents.get_entries, JsVal.jsonForm_arr, List.map_map, List.map_map]
    congr 1
    exact List.map_congr_left fun e _ => PlainObject.toJs_json.symm
  get_logRoot := by rw [PlainObject.get_json, contents.get_logRoot]; rfl
  get_logSize := by rw [PlainObject.get_json, contents.get_logSize]; rfl
  get_inclusionProofs := by
    rw [PlainObject.get_json, contents.get_inclusionProofs, ProofRecord.toJs_json]
  get_retention := by rw [PlainObject.get_json, contents.get_retention, PlainObject.toJs_json]
  get_retainUntil := by rw [PlainObject.get_json, contents.get_retainUntil]; rfl
  get_generatedAt := by rw [PlainObject.get_json, contents.get_generatedAt]; rfl

/-- **What is accepted of the contents is accepted after a way through JSON text.** -/
theorem BundleContents.Accepted.json {host : JsString → Number} {contents : BundleContents}
    (h : contents.Accepted host) : contents.json.Accepted host where
  chain := by
    obtain ⟨hseqs, hdigested⟩ := verifyEntrySlice_valid_iff.mp h.chain
    refine verifyEntrySlice_valid_iff.mpr ⟨?_, ?_⟩
    · rwa [BundleContents.json, List.map_map]
    · exact List.forall_mem_map.mpr fun e he => (hdigested e he).json
  inclusion := by
    refine List.forall_mem_map.mpr fun e he => ?_
    obtain ⟨o, ho, hvalid⟩ := h.inclusion e he
    refine ⟨o.json, ?_, hvalid⟩
    have hat := contents.inclusionProofs.at_json e.seq
    rwa [ho] at hat
  manifest := canonicalDigest_json h.manifest
  retention := h.retention

/-- A bundle after a way through JSON text. -/
def EvidenceBundle.json (bundle : EvidenceBundle) : EvidenceBundle :=
  ⟨bundle.payload.json, bundle.signature.json⟩

/-- The bundle as a value. -/
theorem EvidenceBundle.toJs_json (bundle : EvidenceBundle) :
    bundle.json.toJs = bundle.toJs.jsonForm := by
  have hpayload : bundle.payload.json.toJs = bundle.payload.toJs.jsonForm := PlainObject.toJs_json
  have hsignature : bundle.signature.json.toJs = bundle.signature.toJs.jsonForm :=
    PlainObject.toJs_json
  rw [EvidenceBundle.toJs, EvidenceBundle.toJs, JsVal.jsonForm_obj, EvidenceBundle.json, hpayload,
    hsignature]
  rfl

/-- The text of a bundle reads back as its JSON form. -/
theorem EvidenceBundle.jsonParse_jsonStringify (bundle : EvidenceBundle)
    (hpayload : bundle.payload.toJs.jsonForm.IsJson)
    (hsignature : bundle.signature.toJs.jsonForm.IsJson) :
    ∃ text, jsonStringify bundle.toJs = .ok (some text) ∧
      jsonParse text = some bundle.json.toJs := by
  have hjson : bundle.toJs.jsonForm.IsJson := by
    rw [← bundle.toJs_json, EvidenceBundle.toJs]
    refine JsVal.isJson_obj.mpr ⟨?_, ?_⟩
    · change [js "payload", js "signature"].Nodup
      simp
    · rw [← PlainObject.toJs_json] at hpayload hsignature
      simp only [List.forall_mem_cons]
      exact ⟨hpayload, hsignature, List.forall_mem_nil _⟩
  obtain ⟨text, htext, hparse⟩ := JsVal.jsonParse_jsonStringify hjson
  exact ⟨text, htext, by rw [hparse, bundle.toJs_json]⟩

/-- **An accepted bundle is accepted after a way through JSON text.** -/
theorem verifyBundle_json {crypto : NodeCrypto} {host : JsString → Number}
    {bundle : EvidenceBundle} {publicKeyPem : JsString}
    (h : ∃ r, verifyBundle crypto host bundle publicKeyPem = .ok r ∧ r.valid = true) :
    ∃ r, verifyBundle crypto host bundle.json publicKeyPem = .ok r ∧ r.valid = true := by
  obtain ⟨hsig, hacc⟩ := verifyBundle_valid_iff.mp h
  exact verifyBundle_valid_iff.mpr ⟨verifySignature_json hsig, hacc.json⟩

/-! ## Completeness -/

/-- An entry whose digest exists can be written. -/
theorem Digested.isJson {entry : AuditEntry} (h : Digested entry) : entry.toJs.jsonForm.IsJson := by
  have hrest := PlainObject.isJson_iff.mp (canonicalDigest_eq_ok_iff.mp h).1
  have hperm := PlainObject.perm_without entry.get_entryHash nofun
  refine PlainObject.isJson_iff.mpr fun p hp hdef => ?_
  rcases List.mem_append.mp (hperm.mem_iff.mp hp) with hp | hp
  · exact hrest p hp hdef
  · rw [List.mem_singleton.mp hp]
    trivial

/-- A record of proofs that can be written can be written. -/
theorem ProofRecord.isJson {r : ProofRecord}
    (h : ∀ p ∈ r.proofs, p.2.toJs.jsonForm.IsJson) : r.toJs.jsonForm.IsJson := by
  rw [← r.toJs_json, ProofRecord.toJs, json, List.map_map, JsVal.isJson_obj, List.forall_mem_map]
  refine ⟨(JsVal.distinctKeys_map fun o : InclusionProofObject => o.json.toJs).mpr r.distinctKeys,
    fun p hp => ?_⟩
  have hjson := h p hp
  rw [← PlainObject.toJs_json] at hjson
  exact hjson

/-- A proof with finite positions can be written. -/
theorem isJson_ofProof {m n : ℕ} (hm : m < 2 ^ 53) (hn : n < 2 ^ 53) (path : List JsString) :
    (InclusionProofObject.ofProof ⟨.ofNat m, .ofNat n, path⟩).toJs.jsonForm.IsJson := by
  refine PlainObject.isJson_of_forall ?_
  simp only [InclusionProofObject.ofProof, List.forall_mem_cons, Number.ofNat_eq hm,
    Number.ofNat_eq hn, JsVal.jsonForm_arr, JsVal.isJson_arr, List.map_map]
  refine ⟨trivial, trivial, ?_, List.forall_mem_nil _⟩
  exact List.forall_mem_map.mpr fun _ _ => trivial

/-- The standard mappings can be written. -/
theorem isJson_standardMappings : ∀ m ∈ standardMappings, m.toJs.jsonForm.IsJson := by
  have h : ∀ provision requirement strength evidence caveat,
      (articleMapping provision requirement strength evidence caveat).toJs.jsonForm.IsJson := by
    intro provision requirement strength evidence caveat
    refine PlainObject.isJson_of_forall ?_
    rw [articleMapping, List.forall_mem_append, List.forall_mem_map]
    refine ⟨?_, fun _ _ => trivial⟩
    simp only [List.forall_mem_cons]
    exact ⟨trivial, trivial, trivial, trivial, List.forall_mem_nil _⟩
  simp only [standardMappings, List.forall_mem_cons]
  exact ⟨h _ _ _ _ _, h _ _ _ _ _, h _ _ _ _ _, h _ _ _ _ _, h _ _ _ _ _, h _ _ _ _ _,
    h _ _ _ _ _, List.forall_mem_nil _⟩

/-- The proof of an entry is the log's own, under its sequence number. -/
def AuditLog.Proves (log : AuditLog) (entry : AuditEntry) (p : JsString × InclusionProofObject) :
    Prop :=
  p.1 = entry.seq.toString ∧ ∃ (seq : ℕ) (proof : InclusionProof), entry.seq = .ofNat seq ∧
    log.inclusionProof seq = .ok proof ∧ p.2 = .ofProof proof

/-- `Object.fromEntries` on proofs. -/
def ProofRecord.fromEntries (ps : List (JsString × InclusionProofObject)) : ProofRecord :=
  ⟨Js.fromEntries ps, distinctKeys_fromEntries ps⟩

/-- An input cut from a log: a slice of it, as a filter makes one, with the log's proofs, root and
size. -/
structure BundleInput.CutFrom (input : BundleInput) (log : AuditLog) : Prop where
  /-- Some entries of the log, in its order. -/
  entries : input.entries.Sublist log.entries
  /-- One proof each. -/
  proofs : ∃ ps, List.Forall₂ log.Proves input.entries ps ∧
    input.inclusionProofs = .fromEntries ps
  /-- The root of the log. -/
  logRoot : input.logRoot = log.root
  /-- The size of the log. -/
  logSize : input.logSize = .ofNat log.size

/-- What is in the first of two related lists is related to something in the second. -/
theorem exists_of_forall₂ {α β : Type*} {R : α → β → Prop} {xs : List α} {ys : List β}
    (h : List.Forall₂ R xs ys) {x : α} (hx : x ∈ xs) : ∃ y ∈ ys, R x y := by
  induction h with
  | nil => exact absurd hx List.not_mem_nil
  | cons hxy _ ih =>
    rcases List.mem_cons.mp hx with rfl | hx
    · exact ⟨_, List.mem_cons_self .., hxy⟩
    · obtain ⟨y, hmem, hR⟩ := ih hx
      exact ⟨y, List.mem_cons_of_mem _ hmem, hR⟩

/-- Something related to every item of a list makes a list related to it. -/
theorem exists_forall₂ {α β : Type*} {R : α → β → Prop} {xs : List α}
    (h : ∀ x ∈ xs, ∃ y, R x y) : ∃ ys, List.Forall₂ R xs ys := by
  induction xs with
  | nil => exact ⟨[], .nil⟩
  | cons x xs ih =>
    rw [List.forall_mem_cons] at h
    obtain ⟨y, hy⟩ := h.1
    obtain ⟨ys, hys⟩ := ih h.2
    exact ⟨y :: ys, .cons hy hys⟩

/-- Dates far enough apart are far enough apart in rounded days. -/
theorem le_daysBetween {retainUntil generatedAt : TimeValue}
    (hdays : generatedAt.ms + minimumRetentionDays * 86400000 ≤ retainUntil.ms) :
    Number.le (.ofNat minimumRetentionDays)
      (daysBetween (.ofInt retainUntil.ms) (.ofInt generatedAt.ms)) = true :=
  Number.le_div_sub (retainUntil.inRange.trans_lt (by norm_num))
    (generatedAt.inRange.trans_lt (by norm_num)) (by norm_num [minimumRetentionDays]) (by norm_num)
    (by norm_num [minimumRetentionDays]) hdays

section completeness

variable {log : AuditLog} {slice : List AuditEntry} {input : BundleInput}

/-- Every entry is at the position it says. -/
theorem AuditLog.Coherent.getElem?_of_mem (h : log.Coherent) {entry : AuditEntry}
    (hentry : entry ∈ log.entries) :
    ∃ k, log.entries[k]? = some entry ∧ k < log.size ∧ entry.seq = .ofNat k := by
  obtain ⟨k, hk⟩ := List.getElem?_of_mem hentry
  exact ⟨k, hk, (List.getElem?_eq_some_iff.mp hk).1, h.seq_eq hk⟩

/-- **Any slice of a log is accepted.** -/
theorem AuditLog.Coherent.verifyEntrySlice (h : log.Coherent) (hlt : log.size < 2 ^ 53)
    (hslice : slice.Sublist log.entries) : (verifyEntrySlice slice).valid = true := by
  have hseqs : (log.entries.map (·.seq)).Pairwise fun x y => Number.le y x = false := by
    rw [h.numbered, List.pairwise_map]
    refine List.Pairwise.imp_of_mem ?_ List.pairwise_lt_range
    intro a b ha hb hab
    have ha' := List.mem_range.mp ha
    have hb' := List.mem_range.mp hb
    rw [AuditLog.size] at hlt
    rw [Number.le_ofNat (by omega) (by omega)]
    exact decide_eq_false (by omega)
  refine verifyEntrySlice_valid_iff.mpr ⟨?_, fun e he => h.digested e (hslice.mem he)⟩
  refine (List.pairwise_cons.mpr ⟨?_, hseqs.sublist (hslice.map _)⟩).isChain
  intro x hx
  obtain ⟨e, he, rfl⟩ := List.mem_map.mp hx
  obtain ⟨k, -, hk, hseq⟩ := h.getElem?_of_mem (hslice.mem he)
  rw [hseq, Number.ofNat_eq (hk.trans hlt), Number.ofInt_eq (by norm_num)]
  simp only [Number.le, Number.place]
  refine decide_eq_false (not_le.mpr (WithBot.coe_lt_coe.mpr (WithTop.coe_lt_coe.mpr ?_)))
  push_cast
  linarith [(Nat.cast_nonneg k : (0 : ℚ) ≤ k)]

/-- Every slice of a log has its proofs. -/
theorem AuditLog.Coherent.exists_proves (h : log.Coherent) (hslice : slice.Sublist log.entries) :
    ∃ ps, List.Forall₂ log.Proves slice ps := by
  refine exists_forall₂ fun e he => ?_
  obtain ⟨k, -, hk, hseq⟩ := h.getElem?_of_mem (hslice.mem he)
  rw [← h.size_tree] at hk
  exact ⟨(e.seq.toString, _), rfl, k, _, hseq, log.tree.inclusionProof_eq hk, rfl⟩

/-- The keys of the proofs are the texts of the sequence numbers. -/
theorem map_fst_of_proves {entries : List AuditEntry}
    {ps : List (JsString × InclusionProofObject)} (hps : List.Forall₂ log.Proves entries ps) :
    ps.map Prod.fst = entries.map fun e => e.seq.toString := by
  induction hps with
  | nil => rfl
  | cons hp _ ih => rw [List.map_cons, List.map_cons, hp.1, ih]

/-- The keys of the proofs are distinct. -/
theorem distinctKeys_of_proves (h : log.Coherent) (hlt : log.size < 2 ^ 53)
    (hslice : slice.Sublist log.entries) {ps : List (JsString × InclusionProofObject)}
    (hps : List.Forall₂ log.Proves slice ps) : DistinctKeys ps := by
  have htexts : (log.entries.map fun e => e.seq.toString).Nodup := by
    have hmap : (log.entries.map fun e => e.seq.toString) =
        (List.range log.entries.length).map fun k => (Number.ofNat k).toString := by
      have hcongr := congrArg (List.map Number.toString) h.numbered
      rwa [List.map_map, List.map_map] at hcongr
    rw [hmap]
    refine List.Nodup.map_on ?_ List.nodup_range
    intro a ha b hb hab
    have ha' := List.mem_range.mp ha
    have hb' := List.mem_range.mp hb
    rw [AuditLog.size] at hlt
    exact Number.toString_ofNat_injOn (by omega) (by omega) hab
  rw [DistinctKeys, map_fst_of_proves hps]
  exact htexts.sublist (hslice.map _)

/-- The record of a cut input holds the log's proof of each of its entries. -/
theorem BundleInput.CutFrom.proof_at (hcut : input.CutFrom log) (h : log.Coherent)
    (hlt : log.size < 2 ^ 53) {entry : AuditEntry} (he : entry ∈ input.entries) :
    ∃ (k : ℕ) (proof : InclusionProof), log.entries[k]? = some entry ∧
      log.inclusionProof k = .ok proof ∧
      input.inclusionProofs.at entry.seq = some (.ofProof proof) := by
  obtain ⟨ps, hps, hrecord⟩ := hcut.proofs
  have hkeys : DistinctKeys ps := distinctKeys_of_proves h hlt hcut.entries hps
  obtain ⟨p, hmem, hkey, m, proof, hm, hproof, hp⟩ := exists_of_forall₂ hps he
  obtain ⟨k, hk, hklt, hseq⟩ := h.getElem?_of_mem (hcut.entries.mem he)
  -- the position the proof is for is that of the entry
  have hmlt : m < log.size := by
    have hsize := h.size_tree
    rw [MerkleTree.size] at hsize
    rw [AuditLog.inclusionProof, MerkleTree.inclusionProof] at hproof
    split_ifs at hproof
    omega
  have hmk : m = k := Number.ofNat_injOn (hmlt.trans hlt) (hklt.trans hlt) (hm ▸ hseq)
  subst hmk
  refine ⟨m, proof, hk, hproof, ?_⟩
  have hproofs : input.inclusionProofs.proofs = ps := by
    rw [hrecord]
    exact fromEntries_eq_self hkeys
  rw [ProofRecord.at, hproofs, ← hkey, lookup_eq_some_of_mem hkeys hmem, hp]

/-- The creator's measure of the retention period is the verifier's, on the dates as texts. -/
theorem retention_bundleContents {retainUntil generatedAt : TimeValue}
    (hdays : (daysBetween (.ofInt retainUntil.ms) (.ofInt generatedAt.ms)).lt
      (.ofNat minimumRetentionDays) = false) (host : JsString → Number) :
    Number.le (.ofNat minimumRetentionDays) (daysBetween (dateParse host retainUntil.toISOString)
      (dateParse host generatedAt.toISOString)) = true := by
  rw [TimeValue.dateParse_toISOString, TimeValue.dateParse_toISOString]
  refine Number.le_of_lt_eq_false ?_ (Number.isSome_place_ofNat _) hdays
  exact Number.isSome_place_div_sub (retainUntil.inRange.trans_lt (by norm_num))
    (generatedAt.inRange.trans_lt (by norm_num)) (by norm_num) (by norm_num)

/-- The contents cut from a log are accepted. -/
theorem accepted_bundleContents (h : log.Coherent) (hle : log.size ≤ 2 ^ 31)
    (hcut : input.CutFrom log) {digest : JsString}
    (hdigest : manifestDigest input.manifest = .ok digest) {retainUntil generatedAt : TimeValue}
    (hdays : (daysBetween (.ofInt retainUntil.ms) (.ofInt generatedAt.ms)).lt
      (.ofNat minimumRetentionDays) = false)
    (host : JsString → Number) :
    (bundleContents input digest retainUntil.toISOString generatedAt.toISOString).Accepted host where
  chain := by
    change (Evidence.verifyEntrySlice input.entries).valid = true
    exact h.verifyEntrySlice (by omega) hcut.entries
  inclusion := by
    intro e he
    obtain ⟨k, proof, hk, hproof, hat⟩ := hcut.proof_at h (by omega) he
    obtain ⟨proof', hproof', hvalid⟩ := h.verifyInclusion hle hk
    rw [hproof, Except.ok.injEq] at hproof'
    subst hproof'
    refine ⟨_, hat, ?_⟩
    change (Evidence.verifyInclusion proof (AuditLog.leafData e) input.logRoot).valid = true
    rwa [hcut.logRoot]
  manifest := hdigest
  retention := retention_bundleContents hdays host

/-- Contents can be written when their parts can. -/
theorem isJson_bundleContents_of {digest : JsString} (hentries : ∀ e ∈ input.entries, Digested e)
    (hsize : (JsVal.num input.logSize).jsonForm.IsJson)
    (hproofs : ∀ p ∈ input.inclusionProofs.proofs, p.2.toJs.jsonForm.IsJson)
    (hdigest : manifestDigest input.manifest = .ok digest)
    (hconsistency : ∀ c ∈ input.consistency, ∃ text, canonicalize c.toJs = .ok text)
    (hmappings : ∀ ms ∈ input.mappings, ∀ m ∈ ms, ∃ text, canonicalize m.toJs = .ok text)
    (retainUntil generatedAt : JsString) :
    (bundleContents input digest retainUntil generatedAt).toJs.jsonForm.IsJson := by
  have hwritten : ∀ o : PlainObject, (∃ text, canonicalize o.toJs = .ok text) →
      o.toJs.jsonForm.IsJson := fun o ⟨_, htext⟩ => ((canonicalize_eq_ok_iff o.wf).mp htext).1
  refine PlainObject.isJson_of_forall (forall_contentsProps (P := fun v => v.jsonForm.IsJson)
    (fun _ => trivial) (canonicalDigest_eq_ok_iff.mp hdigest).1 ?_ hsize (ProofRecord.isJson hproofs)
    (fun c hc => hwritten c (hconsistency c hc)) ?_ ?_)
  · rw [JsVal.jsonForm_arr, JsVal.isJson_arr, List.map_map, List.forall_mem_map]
    exact fun e he => (hentries e he).isJson
  · rw [JsVal.jsonForm_arr, JsVal.isJson_arr, List.map_map, List.forall_mem_map]
    intro m hm
    cases hms : input.mappings with
    | none =>
      rw [hms] at hm
      exact isJson_standardMappings m hm
    | some ms =>
      rw [hms] at hm
      exact hwritten m (hmappings ms hms m hm)
  · refine PlainObject.isJson_of_forall ?_
    simp only [retentionObject, List.forall_mem_cons]
    exact ⟨trivial, trivial, trivial, List.forall_mem_nil _⟩

/-- The contents cut from a log can be written. -/
theorem isJson_bundleContents (h : log.Coherent) (hlt : log.size < 2 ^ 53)
    (hcut : input.CutFrom log) {digest : JsString}
    (hdigest : manifestDigest input.manifest = .ok digest)
    (hconsistency : ∀ c ∈ input.consistency, ∃ text, canonicalize c.toJs = .ok text)
    (hmappings : ∀ ms ∈ input.mappings, ∀ m ∈ ms, ∃ text, canonicalize m.toJs = .ok text)
    (retainUntil generatedAt : JsString) :
    (bundleContents input digest retainUntil generatedAt).toJs.jsonForm.IsJson := by
  have hsize : log.tree.leaves.length = log.size := h.size_tree
  refine isJson_bundleContents_of (fun e he => h.digested e (hcut.entries.mem he)) ?_ ?_ hdigest
    hconsistency hmappings retainUntil generatedAt
  · rw [hcut.logSize, Number.ofNat_eq hlt]
    trivial
  · obtain ⟨ps, hps, hrecord⟩ := hcut.proofs
    have hproofs : input.inclusionProofs.proofs = ps := by
      rw [hrecord]
      exact fromEntries_eq_self (distinctKeys_of_proves h hlt hcut.entries hps)
    rw [hproofs]
    intro p hp
    obtain ⟨e, -, -, m, proof, -, hproof, hp⟩ := exists_of_forall₂ hps.flip hp
    have hm : m < log.tree.leaves.length := by
      rw [AuditLog.inclusionProof, MerkleTree.inclusionProof] at hproof
      split_ifs at hproof
      omega
    rw [AuditLog.inclusionProof, log.tree.inclusionProof_eq hm, Except.ok.injEq] at hproof
    rw [hp, ← hproof]
    exact isJson_ofProof (by omega) (by omega) _

/-- **A bundle that was created over a cut from a coherent log is accepted**, cites that log, and can
be written. -/
theorem verifyBundle_of_createBundle {crypto : NodeCrypto} {keySource : KeySource}
    (hkey : keySource.Genuine crypto) (h : log.Coherent) (hle : log.size ≤ 2 ^ 31)
    (hcut : input.CutFrom log) {now signedAt : TimeValue} {bundle : EvidenceBundle}
    (hcreate : createBundle keySource now signedAt input = .ok bundle) (host : JsString → Number) :
    bundle.payload.logRoot = log.root ∧ bundle.payload.logSize = .ofNat log.size ∧
      bundle.payload.toJs.jsonForm.IsJson ∧ bundle.signature.toJs.jsonForm.IsJson ∧
      ∃ r, verifyBundle crypto host bundle keySource.publicKeyPem = .ok r ∧ r.valid = true := by
  obtain ⟨-, -, -, retainUntil, generatedAt, digest, signature, -, -, hdays, hdigest, hsign,
    rfl⟩ := createBundle_ok hcreate
  have hsig := verifySignature_sign hkey.sound hsign
  have hacc := accepted_bundleContents h hle hcut hdigest hdays host
  have hroot : (bundleContents input digest retainUntil.toISOString
    generatedAt.toISOString).logRoot = log.root := hcut.logRoot
  have hsize : (bundleContents input digest retainUntil.toISOString
    generatedAt.toISOString).logSize = .ofNat log.size := hcut.logSize
  obtain ⟨hjson, _, -, hsignature⟩ := sign_ok hsign
  -- from here on the contents are not looked into
  generalize bundleContents input digest retainUntil.toISOString generatedAt.toISOString = contents
    at hjson hsig hacc hroot hsize
  refine ⟨hroot, hsize, hjson, ?_, verifyBundle_valid_iff.mpr ⟨hsig, hacc⟩⟩
  rw [hsignature]
  exact isJson_ofValue _ _ _

/-- **A bundle over a cut from a coherent log is created.** -/
theorem exists_createBundle {crypto : NodeCrypto} {keySource : KeySource}
    (hkey : keySource.Genuine crypto) (h : log.Coherent) (hlt : log.size < 2 ^ 53)
    (hcut : input.CutFrom log) (hne : input.entries ≠ [])
    (hmanifest : ∃ text, canonicalize input.manifest.toJs = .ok text)
    (hconsistency : ∀ c ∈ input.consistency, ∃ text, canonicalize c.toJs = .ok text)
    (hmappings : ∀ ms ∈ input.mappings, ∀ m ∈ ms, ∃ text, canonicalize m.toJs = .ok text)
    {now retainUntil generatedAt : TimeValue} (hretain : input.retainUntil = some retainUntil)
    (hgenerated : input.generatedAt.getD (some now) = some generatedAt)
    (hdays : generatedAt.ms + minimumRetentionDays * 86400000 ≤ retainUntil.ms)
    (signedAt : TimeValue) :
    ∃ bundle, createBundle keySource now signedAt input = .ok bundle := by
  obtain ⟨text, htext⟩ := hmanifest
  obtain ⟨digest, hdigest⟩ : ∃ digest, manifestDigest input.manifest = .ok digest :=
    ⟨_, canonicalDigest_eq_ok_iff.mpr
      ⟨((canonicalize_eq_ok_iff input.manifest.wf).mp htext).1, rfl⟩⟩
  have hjson := isJson_bundleContents h hlt hcut hdigest hconsistency hmappings
    retainUntil.toISOString generatedAt.toISOString
  obtain ⟨signature, hsign⟩ := exists_sign hkey hjson signedAt
  have hproofs : ∀ e ∈ input.entries, (input.inclusionProofs.at e.seq).isSome = true := by
    intro e he
    obtain ⟨_, _, -, -, hat⟩ := hcut.proof_at h hlt he
    rw [hat, Option.isSome_some]
  exact ⟨_, createBundle_eq hne (h.verifyEntrySlice hlt hcut.entries) hproofs hretain hgenerated
    (Number.lt_eq_false_of_le (le_daysBetween hdays)) hdigest hsign⟩

end completeness

/-- **Bundle completeness.** A bundle cut from a reachable log over any of its entries, with a
manifest that canonicalizes and a retention period that is long enough, is created under a genuine
key, accepted under its public key, and accepted after `JSON.stringify` and `JSON.parse`. -/
theorem bundle_complete (crypto : NodeCrypto) (host : JsString → Number) (keySource : KeySource)
    (hkey : keySource.Genuine crypto) (calls : List (AuditEventInput × TimeValue))
    (hlt : (AuditLog.run calls).size < 2 ^ 31) (input : BundleInput)
    (hcut : input.CutFrom (AuditLog.run calls)) (hne : input.entries ≠ [])
    (hmanifest : ∃ text, canonicalize input.manifest.toJs = .ok text)
    (hconsistency : ∀ c ∈ input.consistency, ∃ text, canonicalize c.toJs = .ok text)
    (hmappings : ∀ ms ∈ input.mappings, ∀ m ∈ ms, ∃ text, canonicalize m.toJs = .ok text)
    (now signedAt retainUntil generatedAt : TimeValue)
    (hretain : input.retainUntil = some retainUntil)
    (hgenerated : input.generatedAt.getD (some now) = some generatedAt)
    (hdays : generatedAt.ms + minimumRetentionDays * 86400000 ≤ retainUntil.ms) :
    ∃ bundle, createBundle keySource now signedAt input = .ok bundle ∧
      (∃ r, verifyBundle crypto host bundle keySource.publicKeyPem = .ok r ∧ r.valid = true) ∧
      ∃ text parsed, jsonStringify bundle.toJs = .ok (some text) ∧
        jsonParse text = some (EvidenceBundle.toJs parsed) ∧
        ∃ r, verifyBundle crypto host parsed keySource.publicKeyPem = .ok r ∧ r.valid = true := by
  have h := AuditLog.coherent_run calls
  obtain ⟨bundle, hcreate⟩ := exists_createBundle hkey h (hlt.trans (by norm_num)) hcut hne
    hmanifest hconsistency hmappings hretain hgenerated hdays signedAt
  obtain ⟨-, -, hpayload, hsignature, hvalid⟩ :=
    verifyBundle_of_createBundle hkey h hlt.le hcut hcreate host
  obtain ⟨text, htext, hparse⟩ := bundle.jsonParse_jsonStringify hpayload hsignature
  exact ⟨bundle, hcreate, hvalid, text, bundle.json, htext, hparse, verifyBundle_json hvalid⟩

/-- A bundle input over the entries of one tenant, kept for the shortest time from the epoch. -/
def startedInput (log : AuditLog) (ps : List (JsString × InclusionProofObject)) : BundleInput where
  bundleId := js "bundle_1"
  tenantId := js "tenant"
  runId := js "run_1"
  manifest := .empty
  entries := log.entries.filter fun e => e.tenantId == js "tenant"
  logRoot := log.root
  logSize := .ofNat log.size
  inclusionProofs := .fromEntries ps
  consistency := none
  mappings := none
  retainUntil := some ⟨minimumRetentionDays * 86400000, by norm_num [minimumRetentionDays]⟩
  policy := js "eu-ai-act-art-19"
  wormAnchored := false
  generatedAt := none

/-- The input is cut from the log of the started calls, and has an entry. -/
theorem exists_cutFrom_startedInput : ∃ ps,
    (startedInput (AuditLog.run startedCalls) ps).CutFrom (AuditLog.run startedCalls) ∧
      (startedInput (AuditLog.run startedCalls) ps).entries ≠ [] := by
  have hslice : ((AuditLog.run startedCalls).entries.filter fun e =>
      e.tenantId == js "tenant").Sublist (AuditLog.run startedCalls).entries := List.filter_sublist
  obtain ⟨ps, hps⟩ := (AuditLog.coherent_run startedCalls).exists_proves hslice
  refine ⟨ps, ⟨hslice, ⟨ps, hps, rfl⟩, rfl, rfl⟩, ?_⟩
  obtain ⟨entry, hentries, htenant⟩ := exists_run_startedCalls
  rw [startedInput, hentries, List.filter_singleton, htenant, beq_self_eq_true]
  exact List.cons_ne_nil _ _

/-- The empty manifest canonicalizes. -/
theorem canonicalize_empty : ∃ text, canonicalize PlainObject.empty.toJs = .ok text :=
  ⟨_, (canonicalize_eq_ok_iff PlainObject.empty.wf).mpr
    ⟨JsVal.isJson_obj.mpr ⟨List.nodup_nil, List.forall_mem_nil _⟩, rfl⟩⟩

/-- A bundle over a run of two calls. -/
theorem bundle_complete_started : ∃ ps bundle,
    createBundle digestKey ⟨0, TimeValue.zero_inRange⟩ ⟨0, TimeValue.zero_inRange⟩
      (startedInput (AuditLog.run startedCalls) ps) = .ok bundle ∧
    (∃ r, verifyBundle digestCrypto (fun _ => .nan) bundle digestKey.publicKeyPem = .ok r ∧
      r.valid = true) ∧
    ∃ text parsed, jsonStringify bundle.toJs = .ok (some text) ∧
      jsonParse text = some (EvidenceBundle.toJs parsed) ∧
      ∃ r, verifyBundle digestCrypto (fun _ => .nan) parsed digestKey.publicKeyPem = .ok r ∧
        r.valid = true := by
  obtain ⟨ps, hcut, hne⟩ := exists_cutFrom_startedInput
  exact ⟨ps, bundle_complete digestCrypto _ digestKey genuine_digestKey startedCalls
    (by rw [size_run_startedCalls]; norm_num) _ hcut hne canonicalize_empty
    (fun _ h => nomatch h) (fun _ h => nomatch h) _ _ _ ⟨0, TimeValue.zero_inRange⟩ rfl rfl
    (by simp)⟩

/-! ## Soundness -/

/-- Entries that record the same event under one hash are canonically equal. -/
theorem canonicalize_eq_of_rest {e f : AuditEntry} (he : Digested e) (hf : Digested f)
    (hrest : e.rest.toJs.jsonForm.SameUpToKeyOrder f.rest.toJs.jsonForm)
    (hhash : e.entryHash = f.entryHash) :
    ∃ text, canonicalize e.toJs = .ok text ∧ canonicalize f.toJs = .ok text := by
  have hperm : ∀ g : AuditEntry, g.toJs.jsonForm.SameUpToKeyOrder
      (.obj (g.rest.json.props ++ [(js "entryHash", .str g.entryHash)])) := by
    intro g
    have hget : g.json.get (js "entryHash") = .str g.entryHash := g.json.get_entryHash
    have h := PlainObject.perm_without hget nofun
    rw [show g.json.without (js "entryHash") = g.rest.json from PlainObject.without_json] at h
    rw [← PlainObject.toJs_json]
    exact .perm h
  have hsame : e.toJs.jsonForm.SameUpToKeyOrder f.toJs.jsonForm := by
    rw [← PlainObject.toJs_json, ← PlainObject.toJs_json] at hrest
    have happ := (JsVal.SameUpToKeyOrder.append hrest [(js "entryHash", .str e.entryHash)])
    rw [hhash] at happ
    exact ((hhash ▸ hperm e).trans happ).trans (hperm f).symm
  have htext := canonicalText_eq_of_sameUpToKeyOrder (JsVal.wf_jsonForm e.wf) hsame
  exact ⟨_, (canonicalize_eq_ok_iff e.wf).mpr ⟨he.isJson, rfl⟩,
    (canonicalize_eq_ok_iff f.wf).mpr ⟨hf.isJson, htext⟩⟩

/-- What checking the proof of an entry hashes. -/
def proofPreimages (contents : BundleContents) (entry : AuditEntry) : List Bytes :=
  match contents.inclusionProofs.at entry.seq with
  | none => []
  | some o => inclusionPreimages o.proof (AuditLog.leafData entry)

/-- What checking a bundle and building the log hash. -/
def bundlePreimages (log : AuditLog) (contents : BundleContents) : List Bytes :=
  contents.entries.flatMap (proofPreimages contents) ++
    (treePreimages (log.entries.map AuditLog.leafData) ++
      (contents.entries ++ log.entries).map fun e => canonicalBytes e.rest)

/-- The hash of a digested entry is read back from its octets. -/
theorem eq_of_fromHex_entryHash {e f : AuditEntry} (he : Digested e) (hf : Digested f)
    (h : fromHex e.entryHash = fromHex f.entryHash) : e.entryHash = f.entryHash := by
  have hhe := (canonicalDigest_eq_ok_iff.mp he).2
  have hhf := (canonicalDigest_eq_ok_iff.mp hf).2
  rw [hhe, hhf, fromHex_toHex, fromHex_toHex] at h
  rw [hhe, hhf, h]

/-- An entry of a bundle and an entry of the log with one hash record the same. -/
theorem AuditLog.Coherent.sameRecord {log : AuditLog} (h : log.Coherent)
    {host : JsString → Number} {contents : BundleContents} (hacc : contents.Accepted host)
    (hS : ¬ CollisionIn sha256 (bundlePreimages log contents)) {e f : AuditEntry}
    (he : e ∈ contents.entries) (hf : f ∈ log.entries)
    (hbytes : fromHex e.entryHash = fromHex f.entryHash) :
    SameRecord e f ∧ ∃ text, canonicalize e.toJs = .ok text ∧ canonicalize f.toJs = .ok text := by
  have hde := (verifyEntrySlice_valid_iff.mp hacc.chain).2 e he
  have hdf := h.digested f hf
  have hhash : e.entryHash = f.entryHash := eq_of_fromHex_entryHash hde hdf hbytes
  have hes : canonicalBytes e.rest ∈ bundlePreimages log contents :=
    List.mem_append_right _ (List.mem_append_right _
      (List.mem_map_of_mem (List.mem_append_left _ he)))
  have hfs : canonicalBytes f.rest ∈ bundlePreimages log contents :=
    List.mem_append_right _ (List.mem_append_right _
      (List.mem_map_of_mem (List.mem_append_right _ hf)))
  exact ⟨sameRecord_of_entryHash_eq hde hdf hS hes hfs hhash, canonicalize_eq_of_rest hde hdf
    (sameUpToKeyOrder_of_entryHash_eq hde hdf hS hes hfs hhash) hhash⟩

/-- What checking the proof of an entry hashes is among what checking the bundle hashes. -/
theorem inclusionPreimages_subset {log : AuditLog} {contents : BundleContents} {e : AuditEntry}
    (he : e ∈ contents.entries) {o : InclusionProofObject}
    (hat : contents.inclusionProofs.at e.seq = some o) :
    inclusionPreimages o.proof (AuditLog.leafData e) ⊆ bundlePreimages log contents := by
  intro b hb
  refine List.mem_append_left _ (List.mem_flatMap.mpr ⟨e, he, ?_⟩)
  rw [proofPreimages, hat]
  exact hb

/-- What building the log's tree hashes is among it too. -/
theorem treePreimages_subset (log : AuditLog) (contents : BundleContents) :
    treePreimages (log.entries.map AuditLog.leafData) ⊆ bundlePreimages log contents :=
  fun _ hb => List.mem_append_right _ (List.mem_append_left _ hb)

/-- **An entry provably in a log is an entry of it**, at the position it says. -/
theorem AuditLog.Coherent.entry_of_included {log : AuditLog} (h : log.Coherent)
    {host : JsString → Number} {contents : BundleContents} (hacc : contents.Accepted host)
    (hroot : contents.logRoot = log.root)
    (hS : ¬ CollisionIn sha256 (bundlePreimages log contents)) {e : AuditEntry}
    (he : e ∈ contents.entries) :
    ∃ k, e.seq = .ofNat k ∧ ∃ f, log.entries[k]? = some f ∧
      ∃ text, canonicalize e.toJs = .ok text ∧ canonicalize f.toJs = .ok text := by
  obtain ⟨o, hat, hvalid⟩ := hacc.inclusion e he
  rw [hroot, AuditLog.root, h.tree] at hvalid
  obtain ⟨x, hx, hbytes⟩ := exists_leaf_of_verifyInclusion hvalid hS
    (inclusionPreimages_subset he hat) (treePreimages_subset log contents)
  obtain ⟨f, hf, rfl⟩ := List.mem_map.mp hx
  obtain ⟨hsame, htext⟩ := h.sameRecord hacc hS he hf hbytes.symm
  obtain ⟨k, hk, -, hseq⟩ := h.getElem?_of_mem hf
  exact ⟨k, hsame.seq.trans hseq, f, hk, htext⟩

/-- Ascending sequence numbers of small positions are ascending positions. -/
theorem pairwise_of_isChain {positions : List ℕ} {n : ℕ} (hn : n < 2 ^ 53)
    (hlt : ∀ k ∈ positions, k < n) {first : Number}
    (h : List.IsChain (fun x y => Number.le y x = false) (first :: positions.map .ofNat)) :
    positions.Pairwise (· < ·) := by
  have hchain := (List.isChain_map (R := fun x y => Number.le y x = false) Number.ofNat).mp h.tail
  refine (hchain.imp_of_mem_imp ?_).pairwise
  intro a b ha hb hle
  rw [Number.le_ofNat ((hlt b hb).trans hn) ((hlt a ha).trans hn)] at hle
  exact not_le.mp (of_decide_eq_false hle)

/-- **Bundle soundness.** Whatever the bundle and the key, an accepted bundle that cites the root of
a reachable log has entries of that log only: each is canonically equal to the entry at the position
it says, and the positions ascend. Otherwise there is a collision among what checking the bundle and
building the log hash. -/
theorem bundle_sound (crypto : NodeCrypto) (host : JsString → Number)
    (calls : List (AuditEventInput × TimeValue)) (hlt : (AuditLog.run calls).size < 2 ^ 31)
    (bundle : EvidenceBundle) (publicKeyPem : JsString)
    (hroot : bundle.payload.logRoot = (AuditLog.run calls).root)
    (hacc : ∃ r, verifyBundle crypto host bundle publicKeyPem = .ok r ∧ r.valid = true) :
    (∃ positions : List ℕ, positions.Pairwise (· < ·) ∧
        List.Forall₂ (fun e k => e.seq = .ofNat k ∧ ∃ f, (AuditLog.run calls).entries[k]? = some f ∧
          ∃ text, canonicalize e.toJs = .ok text ∧ canonicalize f.toJs = .ok text)
          bundle.payload.entries positions) ∨
      CollisionIn sha256 (bundlePreimages (AuditLog.run calls) bundle.payload) := by
  rw [or_iff_not_imp_right]
  intro hS
  have hacc := (verifyBundle_valid_iff.mp hacc).2
  obtain ⟨positions, hpositions⟩ := exists_forall₂ fun e he =>
    (AuditLog.coherent_run calls).entry_of_included hacc hroot hS he
  refine ⟨positions, ?_, hpositions⟩
  have hseqs : bundle.payload.entries.map (·.seq) = positions.map .ofNat := by
    refine List.forall₂_eq_eq_eq.le _ _ ?_
    rw [List.forall₂_map_left_iff, List.forall₂_map_right_iff]
    exact hpositions.imp fun _ _ h => h.1
  have hchain := (verifyEntrySlice_valid_iff.mp hacc.chain).1
  rw [hseqs] at hchain
  refine pairwise_of_isChain (hlt.trans (by norm_num)) (fun k hk => ?_) hchain
  obtain ⟨e, -, -, f, hf, -⟩ := exists_of_forall₂ hpositions.flip hk
  exact (List.getElem?_eq_some_iff.mp hf).1

/-- An accepted bundle over a run of two calls. -/
theorem bundle_sound_started : ∃ bundle : EvidenceBundle,
    (∃ positions : List ℕ, positions.Pairwise (· < ·) ∧
        List.Forall₂ (fun e k => e.seq = .ofNat k ∧
          ∃ f, (AuditLog.run startedCalls).entries[k]? = some f ∧
            ∃ text, canonicalize e.toJs = .ok text ∧ canonicalize f.toJs = .ok text)
          bundle.payload.entries positions) ∨
      CollisionIn sha256 (bundlePreimages (AuditLog.run startedCalls) bundle.payload) := by
  have hlt : (AuditLog.run startedCalls).size < 2 ^ 31 := by
    rw [size_run_startedCalls]
    norm_num
  obtain ⟨ps, hcut, hne⟩ := exists_cutFrom_startedInput
  have h := AuditLog.coherent_run startedCalls
  have hepoch : (startedInput (AuditLog.run startedCalls) ps).generatedAt.getD
    (some ⟨0, TimeValue.zero_inRange⟩) = some ⟨0, TimeValue.zero_inRange⟩ := rfl
  obtain ⟨bundle, hcreate⟩ := exists_createBundle genuine_digestKey h (hlt.trans (by norm_num)) hcut
    hne canonicalize_empty (fun _ h => nomatch h) (fun _ h => nomatch h) rfl hepoch (by simp)
    ⟨0, TimeValue.zero_inRange⟩
  obtain ⟨hroot, -, -, -, hacc⟩ :=
    verifyBundle_of_createBundle genuine_digestKey h hlt.le hcut hcreate fun _ => .nan
  exact ⟨bundle, bundle_sound digestCrypto _ startedCalls hlt bundle _ hroot hacc⟩

end AgentEval.Evidence
