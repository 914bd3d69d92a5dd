import AgentEval.Evidence.BundleIssue
import AgentEval.Evidence.ProofLength

/-!
# The positions that a bundle states

An entry of a bundle says its sequence number, its inclusion proof says an index and a size of its
own, and the contents say the size of the log. The verifier checks the proof at the index and the
size the proof states; neither is compared with the sequence number or with the size of the log.

* `exists_steps_of_included` — an accepted proof is one at the position it states.
* `seq_eq_of_position` — with the root and the size of a log, that position is the entry's.
* `coherent_of_createBundle` — a bundle cut from a log states coherent positions.
* `accepted_incoherent` — an accepted bundle need not.
-/

namespace AgentEval.Evidence

open Js Sha256 Crypto Merkle

/-- The path of a loop that ends is the siblings of its steps. -/
theorem map_hexToBuf_eq {fn sn sn' : Number} {fr sr fr' sr' : Digest} {path : List JsString}
    (h : consistencyLoop fn sn fr sr path = .ok (sn', fr', sr')) :
    path.map hexToBuf = (loopSteps fn sn path).map fun s => .ok s.2 := by
  induction path generalizing fn sn fr sr with
  | nil => rfl
  | cons x path ih =>
    obtain ⟨-, fr₁, sr₁, hrest⟩ := eq_false_of_consistencyLoop_cons h
    rw [consistencyLoop] at h
    rw [loopSteps]
    cases hnode : hexToBuf x with
    | error e =>
      rw [hnode] at h
      split_ifs at h
    | ok node => rw [List.map_cons, List.map_cons, hnode, ih hrest]

/-- A proof at a position: the steps of leaf `m` of `n`, with the path for siblings, lead from the
leaf to the root. -/
def InclusionProof.LeadsFrom (p : InclusionProof) (leaf : Digest) (m n : ℕ) (root : JsString) :
    Prop :=
  ∃ steps : List (Step Digest), steps.map Prod.fst = dirs m n ∧
    p.path.map hexToBuf = steps.map (fun s => .ok s.2) ∧
    toHex (climb treeHash leaf steps).bytes = root

/-- **An accepted proof leads from the leaf at the position it states.** -/
theorem leadsFrom_of_verifyInclusion {p : InclusionProof} {d : LeafData} {root : JsString}
    {m n : ℕ} (hm : p.leafIndex.eq (.ofNat m) = true) (hn : p.treeSize.eq (.ofNat n) = true)
    (hle : n ≤ 2 ^ 32) (hacc : (verifyInclusion p d root).valid = true) :
    m < n ∧ p.LeadsFrom (hashLeaf d) m n root := by
  obtain ⟨hpos, -, hbound, sn, sr, hloop, htop, hroot⟩ := verifyInclusion_valid_iff.mp hacc
  obtain ⟨fr, hcons⟩ := exists_consistencyLoop (hashLeaf d) hloop
  have hsize : p.treeSize = .ofNat n := by
    rcases Number.eq_ofNat_cases (by omega) hn with h | ⟨h, rfl⟩
    · exact h
    · rw [h] at hpos
      exact absurd hpos (by simp [Number.le, Number.place, Number.ofNat_zero])
  have hlt : m < n := index_lt (by omega) hsize hm hbound
  rw [hsize, Number.sub_ofNat (by omega) (show 1 ≤ n by omega)] at hcons
  -- a position of `-0` is the position `0`
  replace hcons : consistencyLoop (.ofNat m) (.ofNat (n - 1)) (hashLeaf d) (hashLeaf d) p.path =
      .ok (sn, fr, sr) := by
    rcases Number.eq_ofNat_cases (by omega) hm with h | ⟨h, rfl⟩
    · rwa [h] at hcons
    · rwa [h, (loop_negZero _ _ _ _).1] at hcons
  have hsmall : n - 1 < 2 ^ 31 := by
    by_contra hwide
    have hneg : (Number.ofNat (n - 1)).toInt32 < 0 := by
      rw [Number.toInt32_ofNat_of_le (by omega) (by omega)]
      omega
    rw [ne_zero_of_toInt32_neg hneg hcons] at htop
    cases htop
  refine ⟨hlt, loopSteps (.ofNat m) (.ofNat (n - 1)) p.path, ?_, map_hexToBuf_eq hcons, ?_⟩
  · rw [dirs_eq_levelDirs hlt, map_fst_loopSteps (by omega) hsmall hcons htop]
  · rw [← (consistencyLoop_eq_climb hcons).2, hroot]

/-- **With the root and the size of a log, the position a proof states is that of the entry.** -/
theorem AuditLog.Coherent.seq_eq_of_position {log : AuditLog} (h : log.Coherent)
    (hlt : log.size < 2 ^ 31) {host : JsString → Number} {contents : BundleContents}
    (hacc : contents.Accepted host) (hroot : contents.logRoot = log.root)
    (hS : ¬ CollisionIn sha256 (bundlePreimages log contents)) {e : AuditEntry}
    (he : e ∈ contents.entries) {o : InclusionProofObject} {k : ℕ}
    (hat : contents.inclusionProofs.at e.seq = some o)
    (hsize : o.proof.treeSize.eq (.ofNat log.size) = true)
    (hk : o.proof.leafIndex.eq (.ofNat k) = true) : e.seq = .ofNat k := by
  obtain ⟨o', hat', hvalid⟩ := hacc.inclusion e he
  rw [hat, Option.some.injEq] at hat'
  subst hat'
  have hsize' : o.proof.treeSize = .ofNat (log.entries.map AuditLog.leafData).length := by
    rw [List.length_map]
    rcases Number.eq_ofNat_cases (by omega) hsize with hsize | ⟨hsize, hzero⟩
    · exact hsize
    · obtain ⟨hpos, -⟩ := verifyInclusion_valid_iff.mp hvalid
      rw [hsize] at hpos
      exact absurd hpos (by simp [Number.le, Number.place, Number.ofNat_zero])
  rw [hroot, AuditLog.root, h.tree] at hvalid
  have hproof : _ ⊆ bundlePreimages log contents := inclusionPreimages_subset he hat
  have htree := treePreimages_subset log contents
  obtain ⟨x, hx, hleaf⟩ := leaf_of_verifyInclusion (by rwa [List.length_map]) hsize' hk hvalid hS
    hproof htree
  rw [List.getElem?_map, Option.map_eq_some_iff] at hx
  obtain ⟨f, hf, rfl⟩ := hx
  have hmem := List.mem_of_getElem? hf
  -- the two leaves hash one preimage
  have hbytes : fromHex f.entryHash = fromHex e.entryHash := by
    refine List.append_cancel_left (eq_of_not_collisionIn hS (htree ?_)
      (hproof (List.mem_cons_self ..)) hleaf)
    refine List.mem_map.mpr ⟨.leaf (fromHex f.entryHash), List.mem_append_left _ ?_, rfl⟩
    rw [List.map_map]
    exact List.mem_map.mpr ⟨_, List.mem_map_of_mem hmem, rfl⟩
  exact (h.sameRecord hacc hS he hmem hbytes.symm).1.seq.trans (h.seq_eq hf)

/-- **A bundle cut from a log states the positions of its entries and the size of the log.** -/
theorem coherent_of_createBundle {log : AuditLog} (h : log.Coherent) (hlt : log.size < 2 ^ 53)
    {input : BundleInput} (hcut : input.CutFrom log) {keySource : KeySource}
    {now signedAt : TimeValue} {bundle : EvidenceBundle}
    (hcreate : createBundle keySource now signedAt input = .ok bundle) :
    ∀ e ∈ bundle.payload.entries, ∃ o, bundle.payload.inclusionProofs.at e.seq = some o ∧
      o.proof.leafIndex = e.seq ∧ o.proof.treeSize = bundle.payload.logSize := by
  obtain ⟨-, -, -, retainUntil, generatedAt, digest, signature, -, -, -, -, -, rfl⟩ :=
    createBundle_ok hcreate
  intro e he
  obtain ⟨k, proof, hk, hproof, hat⟩ := hcut.proof_at h hlt he
  refine ⟨_, hat, ?_⟩
  have hsize := h.size_tree
  have hkn := (List.getElem?_eq_some_iff.mp hk).1
  rw [AuditLog.inclusionProof, log.tree.inclusionProof_eq (by
    rw [MerkleTree.size] at hsize
    rw [hsize]
    exact hkn), Except.ok.injEq] at hproof
  subst hproof
  refine ⟨(h.seq_eq hk).symm, ?_⟩
  change Number.ofNat log.tree.leaves.length = input.logSize
  rw [hcut.logSize, ← hsize, MerkleTree.size]

/-- **What the positions of an accepted bundle say.** A proof is one at the index and the size it
states; where the bundle cites the root of a reachable log and a proof states the size of that log,
its index is the entry's sequence number, up to a collision; and a bundle cut from a log states
nothing else. -/
theorem bundle_positions :
    (∀ (crypto : NodeCrypto) (host : JsString → Number) (bundle : EvidenceBundle)
        (publicKeyPem : JsString),
      (∃ r, verifyBundle crypto host bundle publicKeyPem = .ok r ∧ r.valid = true) →
      (∀ e ∈ bundle.payload.entries, ∃ o, bundle.payload.inclusionProofs.at e.seq = some o ∧
        o.proof.leafIndex.lt (.ofNat 0) = false ∧ o.proof.treeSize.le o.proof.leafIndex = false ∧
        ∀ m n : ℕ, o.proof.leafIndex.eq (.ofNat m) = true → o.proof.treeSize.eq (.ofNat n) = true →
          n ≤ 2 ^ 32 → m < n ∧
            o.proof.LeadsFrom (hashLeaf (AuditLog.leafData e)) m n bundle.payload.logRoot) ∧
      ∀ calls : List (AuditEventInput × TimeValue), (AuditLog.run calls).size < 2 ^ 31 →
        bundle.payload.logRoot = (AuditLog.run calls).root →
        (∀ e ∈ bundle.payload.entries, ∀ o (k : ℕ),
          bundle.payload.inclusionProofs.at e.seq = some o →
          o.proof.treeSize.eq (.ofNat (AuditLog.run calls).size) = true →
          o.proof.leafIndex.eq (.ofNat k) = true → e.seq = .ofNat k) ∨
        CollisionIn sha256 (bundlePreimages (AuditLog.run calls) bundle.payload)) ∧
    ∀ (keySource : KeySource) (now signedAt : TimeValue)
      (calls : List (AuditEventInput × TimeValue)) (input : BundleInput) (bundle : EvidenceBundle),
      (AuditLog.run calls).size < 2 ^ 53 → input.CutFrom (AuditLog.run calls) →
      createBundle keySource now signedAt input = .ok bundle →
      ∀ e ∈ bundle.payload.entries, ∃ o, bundle.payload.inclusionProofs.at e.seq = some o ∧
        o.proof.leafIndex = e.seq ∧ o.proof.treeSize = bundle.payload.logSize := by
  refine ⟨fun crypto host bundle publicKeyPem hacc => ?_, fun _ _ _ calls _ _ hlt hcut hcreate =>
    coherent_of_createBundle (AuditLog.coherent_run calls) hlt hcut hcreate⟩
  have hacc := (verifyBundle_valid_iff.mp hacc).2
  refine ⟨fun e he => ?_, fun calls hlt hroot => ?_⟩
  · obtain ⟨o, hat, hvalid⟩ := hacc.inclusion e he
    obtain ⟨-, hlow, hbound, -⟩ := verifyInclusion_valid_iff.mp hvalid
    exact ⟨o, hat, hlow, hbound, fun m n hm hn hle => leadsFrom_of_verifyInclusion hm hn hle hvalid⟩
  · rw [or_iff_not_imp_right]
    intro hS e he o k hat hsize hk
    exact (AuditLog.coherent_run calls).seq_eq_of_position hlt hacc hroot hS he hat hsize hk

/-- The positions of a bundle over a run of two calls. -/
theorem bundle_positions_started : ∃ ps bundle,
    createBundle digestKey ⟨0, TimeValue.zero_inRange⟩ ⟨0, TimeValue.zero_inRange⟩
      (startedInput (AuditLog.run startedCalls) ps) = .ok bundle ∧
    (∀ e ∈ bundle.payload.entries, ∃ o, bundle.payload.inclusionProofs.at e.seq = some o ∧
      o.proof.leafIndex = e.seq ∧ o.proof.treeSize = bundle.payload.logSize) ∧
    ((∀ e ∈ bundle.payload.entries, ∀ o (k : ℕ),
        bundle.payload.inclusionProofs.at e.seq = some o →
        o.proof.treeSize.eq (.ofNat (AuditLog.run startedCalls).size) = true →
        o.proof.leafIndex.eq (.ofNat k) = true → e.seq = .ofNat k) ∨
      CollisionIn sha256 (bundlePreimages (AuditLog.run startedCalls) bundle.payload)) := by
  have hlt : (AuditLog.run startedCalls).size < 2 ^ 31 := by
    rw [size_run_startedCalls]
    norm_num
  obtain ⟨ps, hcut, hne⟩ := exists_cutFrom_startedInput
  have h := AuditLog.coherent_run startedCalls
  have hepoch : (startedInput (AuditLog.run startedCalls) ps).generatedAt.getD
      (some ⟨0, TimeValue.zero_inRange⟩) = some ⟨0, TimeValue.zero_inRange⟩ := rfl
  obtain ⟨bundle, hcreate⟩ := exists_createBundle genuine_digestKey h
    (hlt.trans (by norm_num)) hcut hne canonicalize_empty (fun _ h => nomatch h)
    (fun _ h => nomatch h) rfl hepoch (by simp) ⟨0, TimeValue.zero_inRange⟩
  obtain ⟨hroot, -, -, -, hacc⟩ :=
    verifyBundle_of_createBundle genuine_digestKey h hlt.le hcut hcreate fun _ => .nan
  exact ⟨ps, bundle, hcreate,
    bundle_positions.2 _ _ _ startedCalls _ bundle (hlt.trans (by norm_num)) hcut hcreate,
    (bundle_positions.1 _ _ bundle _ hacc).2 startedCalls hlt hroot⟩

/-- An input whose proof says index 1 of 2 leaves. -/
def displacedInput : BundleInput :=
  oneEntryInput 1 2 [toHex (hashLeaf (.buffer [])).bytes]
    (toHex (hashNode (hashLeaf (.buffer [])) (hashLeaf (AuditLog.leafData (startedEntry .empty)))).bytes)

/-- Its proof leads to its root. -/
theorem proves_displacedInput : displacedInput.Proves (startedEntry .empty) := by
  have hdirs : [(Dir.right, hashLeaf (.buffer []))].map Prod.fst = levelDirs 1 1 := by
    simp [levelDirs]
  have hloop := consistencyLoop_renderSteps (hashLeaf (AuditLog.leafData (startedEntry .empty)))
    (hashLeaf (AuditLog.leafData (startedEntry .empty))) le_rfl (by norm_num) hdirs
  refine ⟨_, at_oneEntryInput, verifyInclusion_valid_iff.mpr
    ⟨by decide +kernel, by decide +kernel, by decide +kernel, .ofNat 0, _, ?_, by decide +kernel, rfl⟩⟩
  change inclusionLoop (.ofNat 1) ((Number.ofNat 2).sub (.ofNat 1))
    (hashLeaf (AuditLog.leafData (startedEntry .empty))) [toHex (hashLeaf (.buffer [])).bytes] = _
  rw [Number.sub_ofNat (by norm_num) (by norm_num),
    inclusionLoop_eq _ _ (hashLeaf (AuditLog.leafData (startedEntry .empty)))]
  exact congrArg (Except.map fun r => (r.1, r.2.2)) hloop

/-- **An accepted bundle need not state coherent positions.** -/
theorem accepted_incoherent :
    ¬ ∀ (crypto : NodeCrypto) (host : JsString → Number) (bundle : EvidenceBundle)
      (publicKeyPem : JsString),
      (∃ r, verifyBundle crypto host bundle publicKeyPem = .ok r ∧ r.valid = true) →
      ∀ e ∈ bundle.payload.entries, ∀ o, bundle.payload.inclusionProofs.at e.seq = some o →
        o.proof.leafIndex.eq e.seq = true ∧ o.proof.treeSize.eq bundle.payload.logSize = true := by
  intro h
  have hpasses : displacedInput.Passes digestKey ⟨0, TimeValue.zero_inRange⟩ :=
    passes_oneEntryInput (by norm_num) (by norm_num)
  obtain ⟨bundle, hbundle⟩ := hpasses.exists_createBundle ⟨0, TimeValue.zero_inRange⟩
  have hacc := (verifyBundle_createBundle_iff genuine_digestKey.sound hbundle fun _ => .nan).mpr
    (List.forall_mem_singleton.mpr proves_displacedInput)
  obtain ⟨-, -, -, retainUntil, generatedAt, digest, signature, -, -, -, -, -, rfl⟩ :=
    createBundle_ok hbundle
  have hat : displacedInput.inclusionProofs.at (startedEntry .empty).seq = _ := at_oneEntryInput
  obtain ⟨hindex, -⟩ := h _ _ _ _ hacc (startedEntry .empty) (List.mem_singleton_self _) _ hat
  exact absurd hindex (by decide +kernel)

end AgentEval.Evidence
