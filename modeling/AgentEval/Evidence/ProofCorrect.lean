import AgentEval.Evidence.ProofVerifier

/-!
# What the verifiers accept

Completeness and soundness of `verifyInclusion` and `verifyConsistency` against `MerkleTree`.

* **`verifyInclusion_inclusionProof`**, **`verifyConsistency_consistencyProof`** — the proofs a
  tree gives out are accepted.
* **`leaf_of_verifyInclusion`**, **`prefix_of_verifyConsistency`** — what is accepted against the
  root of a tree is true of the tree, or two different inputs of SHA-256 with one digest are among
  the named ones: `treePreimages` of the lists of leaves, `inclusionPreimages` and
  `consistencyPreimages` of the proof.

The soundness arguments are the same: what the loop climbed and what the tree hashes meet at the
root, so without a collision they coincide from there down. For inclusion the directions come from
the position, which is a leaf's only if the index is an integer; for any other Number the leaf is
still one of the tree (`Merkle.mem_of_climb_eq_root`).
-/

namespace AgentEval.Evidence

open Js Sha256 Merkle Crypto

/-! ## Completeness -/

namespace MerkleTree

variable (t : MerkleTree)

/-- A proof for a position of the tree. -/
theorem inclusionProof_eq {m : ℕ} (hm : m < t.leaves.length) :
    t.inclusionProof m =
      .ok ⟨.ofNat m, .ofNat t.leaves.length, renderSteps (auditSteps treeHash m t.leaves)⟩ := by
  rw [inclusionProof, if_neg (by omega), t.buildPath_eq_auditSteps _ le_rfl, range_zero_length,
    Number.ofNat_eq_ofInt m, Int.toNat_natCast]

/-- **The inclusion proofs of a tree are accepted.** -/
theorem verifyInclusion_inclusionProof {m : ℕ} {d : LeafData}
    (hm : t.leaves[m]? = some (hashLeaf d)) (hle : t.leaves.length ≤ 2 ^ 31) :
    ∃ p, t.inclusionProof m = .ok p ∧ (verifyInclusion p d t.root).valid = true := by
  obtain ⟨hm', -⟩ := List.getElem?_eq_some_iff.mp hm
  refine ⟨_, t.inclusionProof_eq hm', verifyInclusion_valid_iff.mpr ⟨?_, ?_, ?_, ?_⟩⟩
  · rw [Number.le_ofNat (by omega) (by norm_num)]
    simpa using List.ne_nil_of_length_pos (by omega)
  · rw [Number.lt_ofNat (by omega) (by norm_num)]
    simp
  · rw [Number.le_ofNat (by omega) (by omega)]
    simpa using hm'
  · have hsub : (Number.ofNat t.leaves.length).sub (.ofNat 1) = .ofNat (t.leaves.length - 1) :=
      Number.sub_ofNat (by omega) (by omega)
    have hdirs : (auditSteps treeHash m t.leaves).map Prod.fst =
        levelDirs m (t.leaves.length - 1) := by
      rw [map_fst_auditSteps, dirs_eq_levelDirs hm']
    refine ⟨.ofNat 0, Merkle.root treeHash t.leaves, ?_, by simp, t.root_eq.symm⟩
    simp only [hsub]
    rw [inclusionLoop_eq _ _ (hashLeaf d),
      consistencyLoop_renderSteps _ _ (by omega) (by omega) hdirs, climb_auditSteps treeHash hm]
    rfl

/-- A proof between the first `m` leaves, some but not all, and the tree. -/
theorem consistencyProof_eq {m : ℕ} (hpos : 0 < m) (hm : m < t.leaves.length) :
    t.consistencyProof m =
      .ok ⟨.ofNat m, .ofNat t.leaves.length,
        (if Dir.right ∉ proofDirs m t.leaves.length then []
          else [toHex (proofSeed treeHash m t.leaves).bytes]) ++
          renderSteps (proofSteps treeHash m t.leaves)⟩ := by
  rw [consistencyProof, if_neg (by omega), if_pos (by omega), Int.toNat_natCast,
    t.subproof_eq_proofSteps true le_rfl hpos (by omega), range_zero_length,
    Number.ofNat_eq_ofInt m]
  simp

end MerkleTree

/-- The loop of a consistency check starts at the last complete subtree. -/
theorem consistencyStart_eq {m n : ℕ} (hpos : 0 < m) (hm : m < n) (hn : n < 2 ^ 31)
    (path : List JsString) :
    consistencyStart ⟨.ofNat m, .ofNat n, path⟩ =
      (.ofNat (lastComplete (m - 1) (n - 1)).1, .ofNat (lastComplete (m - 1) (n - 1)).2) := by
  have h₁ : (Number.ofNat m).sub (.ofNat 1) = .ofNat (m - 1) :=
    Number.sub_ofNat (by omega) (by omega)
  have h₂ : (Number.ofNat n).sub (.ofNat 1) = .ofNat (n - 1) :=
    Number.sub_ofNat (by omega) (by omega)
  rw [consistencyStart, h₁, h₂, shiftWhileOdd_ofNat (by omega) (by omega)]

/-- Sizes in order, as the verifier compares them. -/
theorem consistency_sizes {m n : ℕ} (hpos : 0 < m) (hm : m < n) (hn : n < 2 ^ 53) :
    (Number.ofNat n).lt (.ofNat m) = false ∧ (Number.ofNat m).eq (.ofNat n) = false ∧
      (Number.ofNat m).eq (.ofNat 0) = false := by
  rw [Number.lt_ofNat (by omega) (by omega), Number.eq_ofNat (by omega) (by omega),
    Number.eq_ofNat (by omega) (by norm_num)]
  simp only [decide_eq_false_iff_not]
  omega

/-- The verifier reads the seed the prover means: from the path, or the earlier root itself. -/
theorem consistencySeed_eq (t : MerkleTree) {m : ℕ} (hpos : 0 < m) (hm : m < t.leaves.length)
    (hlt : t.leaves.length < 2 ^ 31) (path : List JsString) :
    consistencySeed ⟨.ofNat m, .ofNat t.leaves.length,
        (if Dir.right ∉ proofDirs m t.leaves.length then []
          else [toHex (proofSeed treeHash m t.leaves).bytes]) ++ path⟩
        (MerkleTree.root ⟨t.leaves.take m⟩) =
      .ok (proofSeed treeHash m t.leaves, path) := by
  have hpow : isPowerOfTwo (.ofNat m) = true ↔ Dir.right ∉ proofDirs m t.leaves.length := by
    rw [isPowerOfTwo_ofNat (by omega), right_notMem_proofDirs_iff hpos hm]
  rw [consistencySeed]
  by_cases h : Dir.right ∉ proofDirs m t.leaves.length
  · simp only [if_pos (hpow.mpr h), if_pos h, List.nil_append, MerkleTree.root_eq, hexToBuf_toHex]
    rw [proofSeed_of_notMem_right treeHash hpos h]
  · simp only [if_neg (mt hpow.mp h), if_neg h, List.cons_append, List.nil_append, hexToBuf_toHex]

/-- **The consistency proofs of a tree are accepted**, against the tree of its first leaves. -/
theorem MerkleTree.verifyConsistency_consistencyProof (t : MerkleTree) {m : ℕ}
    (hm : m ≤ t.leaves.length) (hlt : t.leaves.length < 2 ^ 31) :
    ∃ p, t.consistencyProof m = .ok p ∧
      (verifyConsistency p (MerkleTree.root ⟨t.leaves.take m⟩) t.root).valid = true := by
  rcases hm.eq_or_lt with rfl | hm
  · -- the tree itself
    refine ⟨⟨.ofNat t.leaves.length, .ofNat t.leaves.length, []⟩, ?_, ?_⟩
    · rw [consistencyProof, if_neg (by omega), if_neg (by omega), Number.ofNat_eq_ofInt]
    · rw [verifyConsistency, Number.lt_ofNat (by omega) (by omega),
        Number.eq_ofNat (by omega) (by omega), List.take_length]
      simp
  rcases Nat.eq_zero_or_pos m with rfl | hpos
  · -- the empty tree
    refine ⟨⟨.ofNat 0, .ofNat t.leaves.length, []⟩, ?_, ?_⟩
    · rw [consistencyProof, if_neg (by omega), if_neg (by omega), Number.ofNat_eq_ofInt 0]
    · rw [verifyConsistency, Number.lt_ofNat (by omega) (by omega),
        Number.eq_ofNat (by omega) (by omega), Number.eq_ofNat (by omega) (by norm_num)]
      simp [hm.ne]
  obtain ⟨h₁, h₂, h₃⟩ := consistency_sizes hpos hm (by omega)
  have hdirs : (proofSteps treeHash m t.leaves).map Prod.fst = levelDirs _ _ :=
    (map_fst_proofSteps treeHash t.leaves m).trans (proofDirs_eq_levelDirs hpos hm)
  obtain ⟨hle₁, hle₂⟩ := lastComplete_le (show m - 1 ≤ t.leaves.length - 1 by omega)
  refine ⟨_, t.consistencyProof_eq hpos hm, (verifyConsistency_valid_iff h₁ h₂ h₃).mpr ?_⟩
  refine ⟨_, _, .ofNat 0, Merkle.root treeHash (t.leaves.take m), Merkle.root treeHash t.leaves,
    consistencySeed_eq t hpos hm hlt _, ?_, by simp, ?_, t.root_eq.symm⟩
  · rw [consistencyStart_eq hpos hm hlt, consistencyLoop_renderSteps _ _ hle₁ (by omega) hdirs,
      climb_right_proofSteps treeHash t.leaves hpos, climb_proofSteps]
  · rw [MerkleTree.root_eq]

/-! ## Soundness -/

/-- What building the tree over a list of data hashes. -/
def treePreimages (data : List LeafData) : List Bytes :=
  (treeInputs treeHash (data.map LeafData.toBytes)).map preimage

/-- What checking an inclusion proof hashes. -/
def inclusionPreimages (p : InclusionProof) (d : LeafData) : List Bytes :=
  preimage (.leaf d.toBytes) ::
    (climbInputs treeHash (hashLeaf d)
      (loopSteps p.leafIndex (p.treeSize.sub (.ofNat 1)) p.path)).map preimage

/-- What checking a consistency proof hashes on the way to the later root. -/
def consistencyPreimages (p : ConsistencyProof) (firstRoot : JsString) : List Bytes :=
  match consistencySeed p firstRoot with
  | .error _ => []
  | .ok (seed, path) =>
    (climbInputs treeHash seed
      (loopSteps (consistencyStart p).1 (consistencyStart p).2 path)).map preimage

/-- The leaf hashes in the library's terms. -/
theorem map_leaf_eq (data : List LeafData) :
    ((data.map LeafData.toBytes).map fun a => treeHash (.leaf a)) = data.map hashLeaf :=
  List.map_map ..

/-- The root of the tree over a list of data. -/
theorem root_ofData (data : List LeafData) :
    (MerkleTree.ofData data).root = toHex (Merkle.root treeHash (data.map hashLeaf)).bytes := by
  rw [MerkleTree.root_eq, MerkleTree.leaves_ofData]

/-- What computing the root hashes, building the tree hashes. -/
theorem rootInputs_subset_treePreimages (data : List LeafData) :
    (rootInputs treeHash (data.map hashLeaf)).map preimage ⊆ treePreimages data := by
  rw [treePreimages, treeInputs, map_leaf_eq, List.map_append]
  exact List.subset_append_right ..

/-- Texts of digests tell them apart. -/
theorem eq_of_toHex_eq {d e : Digest} (h : toHex d.bytes = toHex e.bytes) : d = e :=
  Digest.ext (toHex_injective h)

/-- What an accepted inclusion proof has climbed. -/
theorem climb_of_verifyInclusion {data : List LeafData} {d : LeafData} {p : InclusionProof}
    (hacc : (verifyInclusion p d (MerkleTree.ofData data).root).valid = true) :
    ∃ sn fr sr, consistencyLoop p.leafIndex (p.treeSize.sub (.ofNat 1)) (hashLeaf d) (hashLeaf d)
        p.path = .ok (sn, fr, sr) ∧ sn.eq (.ofNat 0) = true ∧
      climb treeHash (hashLeaf d) (loopSteps p.leafIndex (p.treeSize.sub (.ofNat 1)) p.path) =
        Merkle.root treeHash (data.map hashLeaf) := by
  obtain ⟨-, -, -, sn, sr, hloop, htop, hroot⟩ := verifyInclusion_valid_iff.mp hacc
  obtain ⟨fr, hcons⟩ := exists_consistencyLoop (hashLeaf d) hloop
  refine ⟨sn, fr, sr, hcons, htop, ?_⟩
  rw [← (consistencyLoop_eq_climb hcons).2]
  exact eq_of_toHex_eq (hroot.trans (root_ofData data))

/-- A collision among the inputs of the tree hash is one of SHA-256 among their octets. -/
theorem not_collisionIn_treeHash {S : List (Input Bytes Digest)} {s : List Bytes}
    (hS : ¬ CollisionIn sha256 s) (hsub : S.map preimage ⊆ s) : ¬ CollisionIn treeHash S :=
  fun h => hS ((CollisionIn.of_comp preimage_injective h).mono hsub)

/-- **An accepted inclusion proof of any shape speaks of some leaf of the tree.** -/
theorem exists_leaf_of_verifyInclusion {data : List LeafData} {d : LeafData} {p : InclusionProof}
    {s : List Bytes} (hacc : (verifyInclusion p d (MerkleTree.ofData data).root).valid = true)
    (hS : ¬ CollisionIn sha256 s) (hp : inclusionPreimages p d ⊆ s) (ht : treePreimages data ⊆ s) :
    ∃ x ∈ data, x.toBytes = d.toBytes := by
  obtain ⟨-, -, -, -, -, hclimb⟩ := climb_of_verifyInclusion hacc
  obtain ⟨hleaf, hpath⟩ := List.cons_subset.mp hp
  have hno := not_collisionIn_treeHash (S := .leaf d.toBytes ::
    climbInputs treeHash (hashLeaf d)
      (loopSteps p.leafIndex (p.treeSize.sub (.ofNat 1)) p.path) ++
    treeInputs treeHash (data.map LeafData.toBytes)) hS (by
      rw [List.cons_append, List.map_cons, List.map_append]
      exact List.cons_subset.mpr ⟨hleaf, List.append_subset.mpr ⟨hpath, ht⟩⟩)
  have hmem := mem_of_climb_eq_root treeHash hno (List.mem_cons_self ..)
    (fun i hi => List.mem_cons_of_mem _ (List.mem_append_left _ hi))
    (fun i hi => List.mem_cons_of_mem _ (List.mem_append_right _ hi))
    (hclimb.trans (by rw [map_leaf_eq]))
  exact List.mem_map.mp hmem

/-- An index that is a natural number and passes the bound is below the size. -/
theorem index_lt {p : InclusionProof} {m n : ℕ} (hn : n + 1 < 2 ^ 53) (hsize : p.treeSize = .ofNat n)
    (hm : p.leafIndex.eq (.ofNat m) = true) (hbound : p.treeSize.le p.leafIndex = false) : m < n := by
  by_contra hge
  have hle : p.treeSize.le p.leafIndex = true := by
    rw [hsize, Number.le_congr_right hm]
    rcases (not_lt.mp hge).eq_or_lt with rfl | hlt
    · rw [Number.le_ofNat (by omega) (by omega)]
      simp
    · exact Number.le_of_lt (Number.lt_ofNat_of_lt hn hlt)
  rw [hle] at hbound
  cases hbound

/-- **An accepted inclusion proof for position `k` of a tree of the claimed size speaks of leaf
`k`.** -/
theorem leaf_of_verifyInclusion {data : List LeafData} {d : LeafData} {p : InclusionProof}
    {s : List Bytes} {k : ℕ} (hlt : data.length < 2 ^ 31)
    (hsize : p.treeSize = .ofNat data.length) (hk : p.leafIndex.eq (.ofNat k) = true)
    (hacc : (verifyInclusion p d (MerkleTree.ofData data).root).valid = true)
    (hS : ¬ CollisionIn sha256 s) (hp : inclusionPreimages p d ⊆ s) (ht : treePreimages data ⊆ s) :
    ∃ x, data[k]? = some x ∧ hashLeaf x = hashLeaf d := by
  obtain ⟨hpos, -, hbound, -⟩ := verifyInclusion_valid_iff.mp hacc
  obtain ⟨sn, fr, sr, hloop, htop, hclimb⟩ := climb_of_verifyInclusion hacc
  have hlen : 0 < data.length := by
    rw [hsize, Number.le_ofNat (by omega) (by norm_num)] at hpos
    simpa [List.length_pos_iff] using hpos
  have hkn : k < data.length := index_lt (by omega) hsize hk hbound
  have hsub : p.treeSize.sub (.ofNat 1) = .ofNat (data.length - 1) := by
    rw [hsize]
    exact Number.sub_ofNat (by omega) hlen
  rw [inclusionPreimages] at hp
  rw [hsub] at hloop hclimb hp
  -- a position of `-0` is the position `0`
  have hindex : consistencyLoop (.ofNat k) (.ofNat (data.length - 1)) (hashLeaf d) (hashLeaf d)
      p.path = .ok (sn, fr, sr) ∧ loopSteps p.leafIndex (.ofNat (data.length - 1)) p.path =
        loopSteps (.ofNat k) (.ofNat (data.length - 1)) p.path := by
    rcases Number.eq_ofNat_cases (by omega) hk with h | ⟨h, rfl⟩
    · rw [h] at hloop ⊢
      exact ⟨hloop, rfl⟩
    · rw [h] at hloop ⊢
      obtain ⟨h₁, h₂⟩ := loop_negZero (.ofNat (data.length - 1)) (hashLeaf d) (hashLeaf d) p.path
      exact ⟨h₁.symm.trans hloop, h₂⟩
  rw [hindex.2] at hclimb hp
  have hdirs := map_fst_loopSteps (by omega) (by omega) hindex.1 htop
  set steps := loopSteps (.ofNat k) (.ofNat (data.length - 1)) p.path with hsteps
  have hleaf : (data.map hashLeaf)[k]? = some (hashLeaf data[k]) := by
    rw [List.getElem?_map, List.getElem?_eq_getElem hkn]
    rfl
  have hno := not_collisionIn_treeHash
    (S := climbInputs treeHash (hashLeaf d) steps ++ rootInputs treeHash (data.map hashLeaf)) hS (by
      rw [List.map_append]
      exact List.append_subset.mpr ⟨(List.cons_subset.mp hp).2,
        List.Subset.trans (rootInputs_subset_treePreimages data) ht⟩)
  have hsame : steps.map Prod.fst = (auditSteps treeHash k (data.map hashLeaf)).map Prod.fst := by
    rw [hdirs, map_fst_auditSteps, List.length_map, dirs_eq_levelDirs hkn]
  obtain ⟨heq, -⟩ := climb_injective treeHash hno hsame (List.subset_append_left ..)
    (List.Subset.trans (climbInputs_auditSteps_subset treeHash hleaf)
      (List.subset_append_right ..))
    (hclimb.trans (climb_auditSteps treeHash hleaf).symm)
  exact ⟨data[k], List.getElem?_eq_getElem hkn, heq.symm⟩

/-- **An accepted consistency proof between the roots of two lists, with their sizes, makes the
first a prefix of the second.** -/
theorem prefix_of_verifyConsistency {A B : List LeafData} {p : ConsistencyProof} {s : List Bytes}
    (hA : 1 ≤ A.length) (hB : B.length < 2 ^ 31) (hfirst : p.firstSize = .ofNat A.length)
    (hsecond : p.secondSize = .ofNat B.length)
    (hacc : (verifyConsistency p (MerkleTree.ofData A).root (MerkleTree.ofData B).root).valid =
      true)
    (hS : ¬ CollisionIn sha256 s)
    (hp : consistencyPreimages p (MerkleTree.ofData A).root ⊆ s)
    (htA : treePreimages A ⊆ s) (htB : treePreimages B ⊆ s)
    (htBA : treePreimages (B.take A.length) ⊆ s) :
    A.length ≤ B.length ∧ A.map hashLeaf <+: B.map hashLeaf := by
  have hrootsA := List.Subset.trans (rootInputs_subset_treePreimages A) htA
  have hrootsB := List.Subset.trans (rootInputs_subset_treePreimages B) htB
  rcases lt_trichotomy A.length B.length with hlt | heq | hgt
  · refine ⟨hlt.le, ?_⟩
    obtain ⟨h₁, h₂, h₃⟩ := consistency_sizes (by omega) hlt (by omega)
    rw [← hfirst, ← hsecond] at h₁ h₂
    rw [← hfirst] at h₃
    obtain ⟨seed, path, sn, fr, sr, hseed, hloop, htop, hfr, hsr⟩ :=
      (verifyConsistency_valid_iff h₁ h₂ h₃).mp hacc
    obtain ⟨hclimbf, hclimbs⟩ := consistencyLoop_eq_climb hloop
    have hfr' : fr = Merkle.root treeHash (A.map hashLeaf) :=
      eq_of_toHex_eq (hfr.trans (root_ofData A))
    have hsr' : sr = Merkle.root treeHash (B.map hashLeaf) :=
      eq_of_toHex_eq (hsr.trans (root_ofData B))
    rw [consistencyPreimages, hseed] at hp
    simp only at hp
    -- the steps taken are those of the honest proof
    have hstart := consistencyStart_eq (m := A.length) (n := B.length) (by omega) hlt hB p.path
    rw [← hfirst, ← hsecond] at hstart
    obtain ⟨hle₁, hle₂⟩ := lastComplete_le (show A.length - 1 ≤ B.length - 1 by omega)
    have hdirs : (loopSteps (consistencyStart p).1 (consistencyStart p).2 path).map Prod.fst =
        (proofSteps treeHash A.length (B.map hashLeaf)).map Prod.fst := by
      rw [map_fst_proofSteps, List.length_map, proofDirs_eq_levelDirs (by omega) hlt]
      rw [hstart] at hloop ⊢
      exact map_fst_loopSteps hle₁ (by omega) hloop htop
    set steps := loopSteps (consistencyStart p).1 (consistencyStart p).2 path
    have hno := not_collisionIn_treeHash
      (S := climbInputs treeHash seed steps ++ rootInputs treeHash (B.map hashLeaf)) hS (by
        rw [List.map_append]
        exact List.append_subset.mpr ⟨hp, hrootsB⟩)
    obtain ⟨rfl, hsteps⟩ := climb_injective treeHash hno hdirs (List.subset_append_left ..)
      (List.Subset.trans (climbInputs_proofSteps_subset treeHash _ A.length)
        (List.subset_append_right ..))
      ((hclimbs.symm.trans hsr').trans (climb_proofSteps treeHash _ A.length).symm)
    -- so the earlier root is that of the first leaves of `B`
    have hextends : Merkle.root treeHash (A.map hashLeaf) =
        Merkle.root treeHash ((B.take A.length).map hashLeaf) := by
      rw [← hfr', hclimbf, hsteps, climb_right_proofSteps treeHash _ (by omega), List.map_take]
    have hno' := not_collisionIn_treeHash
      (S := rootInputs treeHash (A.map hashLeaf) ++
        rootInputs treeHash ((B.take A.length).map hashLeaf)) hS (by
        rw [List.map_append]
        exact List.append_subset.mpr ⟨hrootsA,
          List.Subset.trans (rootInputs_subset_treePreimages _) htBA⟩)
    have hAB := root_injective treeHash hno' (by simp [hlt.le]) (List.subset_append_left ..)
      (List.subset_append_right ..) hextends
    rw [hAB, List.map_take]
    exact List.take_prefix ..
  · refine ⟨heq.le, ?_⟩
    rw [verifyConsistency, hfirst, hsecond, heq, Number.lt_ofNat (by omega) (by omega),
      Number.eq_ofNat (by omega) (by omega)] at hacc
    simp only [lt_irrefl, decide_false, Bool.false_eq_true, if_false, decide_true, if_true] at hacc
    split_ifs at hacc with hpath hroots
    · cases hacc
    · rw [root_ofData, root_ofData] at hroots
      have hno := not_collisionIn_treeHash
        (S := rootInputs treeHash (A.map hashLeaf) ++ rootInputs treeHash (B.map hashLeaf)) hS (by
          rw [List.map_append]
          exact List.append_subset.mpr ⟨hrootsA, hrootsB⟩)
      rw [root_injective treeHash hno (by simp [heq]) (List.subset_append_left ..)
        (List.subset_append_right ..) (eq_of_toHex_eq hroots)]
    · cases hacc
  · rw [verifyConsistency, hfirst, hsecond, Number.lt_ofNat_of_lt (by omega) hgt] at hacc
    cases hacc

/-! ## The guarantees -/

/-- **Inclusion completeness.** The proof a tree gives out for any of its positions is accepted for
the data at that position. -/
theorem inclusion_complete (data : List LeafData) (m : ℕ) (hm : m < data.length)
    (hlt : data.length < 2 ^ 31) :
    ∃ p, (MerkleTree.ofData data).inclusionProof m = .ok p ∧
      (verifyInclusion p data[m] (MerkleTree.ofData data).root).valid = true := by
  have hleaves := MerkleTree.leaves_ofData data
  refine MerkleTree.verifyInclusion_inclusionProof _ ?_ (by rw [hleaves, List.length_map]; exact hlt.le)
  rw [hleaves, List.getElem?_map, List.getElem?_eq_getElem hm]
  rfl

/-- Three leaves. -/
def threeLeaves : List LeafData := [.string (js "a"), .string (js "b"), .string (js "c")]

/-- The last leaf of three, on the ragged edge. -/
theorem inclusion_complete_ragged :
    ∃ p, (MerkleTree.ofData threeLeaves).inclusionProof 2 = .ok p ∧
      (verifyInclusion p (.string (js "c")) (MerkleTree.ofData threeLeaves).root).valid = true :=
  inclusion_complete threeLeaves 2 (by decide) (by decide)

/-- **Inclusion soundness.** Whatever the path and the index, what is accepted against the root of
a list of leaves, with its size, is the hash of a leaf of the list, of the leaf at the index where
the index is one, or there is a collision among what the proof and the tree hash. -/
theorem inclusion_sound (data : List LeafData) (d : LeafData) (p : InclusionProof)
    (hpos : 1 ≤ data.length) (hlt : data.length < 2 ^ 31)
    (hsize : p.treeSize = .ofNat data.length)
    (hacc : (verifyInclusion p d (MerkleTree.ofData data).root).valid = true) :
    (∃ i x, data[i]? = some x ∧ hashLeaf x = hashLeaf d ∧
        ∀ k : ℕ, p.leafIndex.eq (.ofNat k) = true → k = i) ∨
      CollisionIn sha256 (inclusionPreimages p d ++ treePreimages data) := by
  rw [or_iff_not_imp_right]
  intro hS
  have hp := List.subset_append_left (inclusionPreimages p d) (treePreimages data)
  have ht := List.subset_append_right (inclusionPreimages p d) (treePreimages data)
  by_cases hindex : ∃ k : ℕ, p.leafIndex.eq (.ofNat k) = true
  · obtain ⟨k, hk⟩ := hindex
    obtain ⟨x, hx, hhash⟩ := leaf_of_verifyInclusion hlt hsize hk hacc hS hp ht
    refine ⟨k, x, hx, hhash, fun j hj => ?_⟩
    -- two indices equal to one Number are equal
    obtain ⟨y, hy, -⟩ := leaf_of_verifyInclusion hlt hsize hj hacc hS hp ht
    have hj' := (List.getElem?_eq_some_iff.mp hy).1
    have hk' := (List.getElem?_eq_some_iff.mp hx).1
    rcases Number.eq_ofNat_cases (by omega) hj with h | ⟨h, rfl⟩
    · rw [h, Number.eq_ofNat (by omega) (by omega)] at hk
      exact of_decide_eq_true hk
    · rcases Number.eq_ofNat_cases (by omega) hk with h' | ⟨-, rfl⟩
      · rw [h', Number.ofNat_eq (by omega)] at h
        cases h
      · rfl
  · obtain ⟨x, hx, hbytes⟩ := exists_leaf_of_verifyInclusion hacc hS hp ht
    obtain ⟨i, hi⟩ := List.getElem?_of_mem hx
    refine ⟨i, x, hi, ?_, fun k hk => absurd ⟨k, hk⟩ hindex⟩
    rw [hashLeaf, hashLeaf, hbytes]

/-- The accepted proof of the middle leaf of three. -/
theorem inclusion_sound_middle :
    ∃ p, (verifyInclusion p (.string (js "b")) (MerkleTree.ofData threeLeaves).root).valid = true ∧
      ((∃ i x, threeLeaves[i]? = some x ∧ hashLeaf x = hashLeaf (.string (js "b")) ∧
          ∀ k : ℕ, p.leafIndex.eq (.ofNat k) = true → k = i) ∨
        CollisionIn sha256 (inclusionPreimages p (.string (js "b")) ++ treePreimages threeLeaves)) := by
  have hlen : (MerkleTree.ofData threeLeaves).leaves.length = 3 := rfl
  obtain ⟨p, hp, hacc⟩ := (MerkleTree.ofData threeLeaves).verifyInclusion_inclusionProof
    (m := 1) (d := .string (js "b")) rfl (by decide)
  rw [MerkleTree.inclusionProof_eq _ (by decide)] at hp
  cases hp
  exact ⟨_, hacc, inclusion_sound threeLeaves _ _ (by decide) (by decide) rfl hacc⟩

/-- **Consistency completeness.** The proof between any two sizes of a tree is accepted. -/
theorem consistency_complete (data : List LeafData) (m : ℕ) (hm : m ≤ data.length)
    (hlt : data.length < 2 ^ 31) :
    ∃ p, (MerkleTree.ofData data).consistencyProof m = .ok p ∧
      (verifyConsistency p (MerkleTree.ofData (data.take m)).root
        (MerkleTree.ofData data).root).valid = true := by
  have hleaves := MerkleTree.leaves_ofData data
  have hfirst : MerkleTree.ofData (data.take m) = ⟨(MerkleTree.ofData data).leaves.take m⟩ := by
    rw [hleaves, ← List.map_take, ← MerkleTree.leaves_ofData]
  rw [hfirst]
  refine (MerkleTree.ofData data).verifyConsistency_consistencyProof ?_ ?_
  · rwa [hleaves, List.length_map]
  · rwa [hleaves, List.length_map]

/-- From two leaves to three. -/
theorem consistency_complete_two :
    ∃ p, (MerkleTree.ofData threeLeaves).consistencyProof 2 = .ok p ∧
      (verifyConsistency p (MerkleTree.ofData (threeLeaves.take 2)).root
        (MerkleTree.ofData threeLeaves).root).valid = true :=
  consistency_complete threeLeaves 2 (by decide) (by decide)

/-- **Consistency soundness.** Whatever the path, what is accepted between the roots of two lists,
with their sizes, makes the leaf hashes of the first a prefix of those of the second, or there is a
collision among what the proof and the trees hash. -/
theorem consistency_sound (A B : List LeafData) (p : ConsistencyProof) (hA : 1 ≤ A.length)
    (hB : B.length < 2 ^ 31) (hfirst : p.firstSize = .ofNat A.length)
    (hsecond : p.secondSize = .ofNat B.length)
    (hacc : (verifyConsistency p (MerkleTree.ofData A).root (MerkleTree.ofData B).root).valid =
      true) :
    (A.length ≤ B.length ∧ A.map hashLeaf <+: B.map hashLeaf) ∨
      CollisionIn sha256 (consistencyPreimages p (MerkleTree.ofData A).root ++
        (treePreimages A ++ (treePreimages B ++ treePreimages (B.take A.length)))) := by
  rw [or_iff_not_imp_right]
  intro hS
  refine prefix_of_verifyConsistency hA hB hfirst hsecond hacc hS ?_ ?_ ?_ ?_
  · exact List.subset_append_left ..
  all_goals
    intro i hi
    simp only [List.mem_append]
    tauto

/-- The accepted proof from two leaves to three. -/
theorem consistency_sound_two :
    ∃ p, (verifyConsistency p (MerkleTree.ofData (threeLeaves.take 2)).root
        (MerkleTree.ofData threeLeaves).root).valid = true ∧
      (((threeLeaves.take 2).length ≤ threeLeaves.length ∧
          (threeLeaves.take 2).map hashLeaf <+: threeLeaves.map hashLeaf) ∨
        CollisionIn sha256 (consistencyPreimages p (MerkleTree.ofData (threeLeaves.take 2)).root ++
          (treePreimages (threeLeaves.take 2) ++
            (treePreimages threeLeaves ++ treePreimages (threeLeaves.take 2))))) := by
  obtain ⟨p, hp, hacc⟩ := (MerkleTree.ofData threeLeaves).verifyConsistency_consistencyProof
    (m := 2) (by decide) (by decide)
  rw [MerkleTree.consistencyProof_eq _ (by decide) (by decide)] at hp
  cases hp
  exact ⟨_, hacc, consistency_sound (threeLeaves.take 2) threeLeaves _ (by decide) (by decide) rfl
    rfl hacc⟩

end AgentEval.Evidence
