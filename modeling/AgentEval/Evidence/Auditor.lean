import AgentEval.Evidence.BundlePositions
import AgentEval.Merkle.Extension

/-!
# What an auditor who keeps the roots knows

The verifiers check one proof. An auditor who keeps the roots it has been shown, each with a proof
that it extends the one before, has no list of leaves to compare with: what the log was at any time
is known by its digests only.

* `Extends` — a root extends another, as texts; **`extends_of_verifyConsistency`**,
  **`opens_of_verifyInclusion`**: what an accepted proof shows, in the library's terms.
* `Followed first views` — each root kept was shown to extend the one before it;
  **`pairwise_extends_heads`**: then each extends all before it.
* **`observed_agree`**: proofs accepted against any two of the roots prove the same leaf at a
  position. **`bundles_agree`**: accepted bundles that cite two of the roots record the same entry
  there. **`observed_prefix`**: with the leaves under one of the roots, those before it are the roots
  of its first leaves.
-/

namespace AgentEval.Evidence

open Js Sha256 Crypto Merkle

/-! ## One proof -/

/-- What an inclusion check hashes. -/
def inclusionInputs (p : InclusionProof) (d : LeafData) : List (Input Bytes Digest) :=
  .leaf d.toBytes ::
    climbInputs treeHash (hashLeaf d)
      (loopSteps p.leafIndex (p.treeSize.sub (.ofNat 1)) p.path)

/-- What a consistency check hashes, on the way to both roots. -/
def consistencyInputs (p : ConsistencyProof) (firstRoot : JsString) : List (Input Bytes Digest) :=
  match consistencySeed p firstRoot with
  | .error _ => []
  | .ok (seed, path) =>
    let steps := loopSteps (consistencyStart p).1 (consistencyStart p).2 path
    climbInputs treeHash seed steps ++ climbInputs treeHash seed (rightSteps steps)

/-- **An accepted inclusion proof opens the root at the leaf.** -/
theorem opens_of_verifyInclusion {p : InclusionProof} {d : LeafData} {root : JsString} {i n : ℕ}
    (hn : n < 2 ^ 31) (hsize : p.treeSize = .ofNat n) (hi : p.leafIndex.eq (.ofNat i) = true)
    (hacc : (verifyInclusion p d root).valid = true) :
    ∃ r : Digest, toHex r.bytes = root ∧ Opens treeHash (inclusionInputs p d) i n (hashLeaf d) r := by
  obtain ⟨hpos, -, hbound, sn, sr, hloop, htop, hroot⟩ := verifyInclusion_valid_iff.mp hacc
  obtain ⟨fr, hcons⟩ := exists_consistencyLoop (hashLeaf d) hloop
  have hin : i < n := index_lt (by omega) hsize hi hbound
  have hsub : p.treeSize.sub (.ofNat 1) = .ofNat (n - 1) := by
    rw [hsize]
    exact Number.sub_ofNat (by omega) (by omega)
  obtain ⟨-, hclimb⟩ := consistencyLoop_eq_climb hcons
  refine ⟨sr, hroot, ?_⟩
  rw [inclusionInputs, hclimb]
  rw [hsub] at hcons ⊢
  -- a position of `-0` is the position `0`
  have hindex : consistencyLoop (.ofNat i) (.ofNat (n - 1)) (hashLeaf d) (hashLeaf d) p.path =
      .ok (sn, fr, sr) ∧ loopSteps p.leafIndex (.ofNat (n - 1)) p.path =
        loopSteps (.ofNat i) (.ofNat (n - 1)) p.path := by
    rcases Number.eq_ofNat_cases (by omega) hi with h | ⟨h, rfl⟩
    · rw [h] at hcons ⊢
      exact ⟨hcons, rfl⟩
    · rw [h] at hcons ⊢
      obtain ⟨h₁, h₂⟩ := loop_negZero (.ofNat (n - 1)) (hashLeaf d) (hashLeaf d) p.path
      exact ⟨h₁.symm.trans hcons, h₂⟩
  rw [hindex.2]
  refine opens_climb hin ?_ (List.subset_cons_self ..)
  rw [dirs_eq_levelDirs hin]
  exact map_fst_loopSteps (by omega) (by omega) hindex.1 htop

/-- A root of `n` leaves extends one of `m`. Equal sizes are compared as texts, whatever these
are. -/
def Extends (S : List (Input Bytes Digest)) (m n : ℕ) (firstRoot secondRoot : JsString) : Prop :=
  (m = n ∧ firstRoot = secondRoot) ∨
    ∃ r s : Digest, toHex r.bytes = firstRoot ∧ toHex s.bytes = secondRoot ∧
      Grows treeHash S m n r s

/-- **An accepted consistency proof shows that the later root extends the earlier one.** -/
theorem extends_of_verifyConsistency {p : ConsistencyProof} {firstRoot secondRoot : JsString}
    {m n : ℕ} (hm : 0 < m) (hm' : m < 2 ^ 31) (hn : n < 2 ^ 31) (hfirst : p.firstSize = .ofNat m)
    (hsecond : p.secondSize = .ofNat n)
    (hacc : (verifyConsistency p firstRoot secondRoot).valid = true) :
    m ≤ n ∧ Extends (consistencyInputs p firstRoot) m n firstRoot secondRoot := by
  rcases lt_trichotomy m n with hlt | rfl | hgt
  · obtain ⟨h₁, h₂, h₃⟩ := consistency_sizes hm hlt (by omega)
    rw [← hfirst, ← hsecond] at h₁ h₂
    rw [← hfirst] at h₃
    obtain ⟨seed, path, sn, fr, sr, hseed, hloop, htop, hfr, hsr⟩ :=
      (verifyConsistency_valid_iff h₁ h₂ h₃).mp hacc
    obtain ⟨hclimbf, hclimbs⟩ := consistencyLoop_eq_climb hloop
    have hstart := consistencyStart_eq hm hlt hn p.path
    rw [← hfirst, ← hsecond] at hstart
    obtain ⟨hle₁, hle₂⟩ := lastComplete_le (show m - 1 ≤ n - 1 by omega)
    have hdirs : (loopSteps (consistencyStart p).1 (consistencyStart p).2 path).map Prod.fst =
        proofDirs m n := by
      rw [proofDirs_eq_levelDirs hm hlt]
      rw [hstart] at hloop ⊢
      exact map_fst_loopSteps hle₁ (by omega) hloop htop
    refine ⟨hlt.le, .inr ⟨fr, sr, hfr, hsr, ?_⟩⟩
    rw [consistencyInputs, hseed, hclimbf, hclimbs]
    exact grows_climb hm hlt.le hdirs (List.subset_append_left ..) (List.subset_append_right ..)
  · rw [verifyConsistency, hfirst, hsecond, Number.lt_ofNat (by omega) (by omega),
      Number.eq_ofNat (by omega) (by omega)] at hacc
    simp only [lt_self_iff_false, decide_false, Bool.false_eq_true, if_false, decide_true,
      if_true] at hacc
    split_ifs at hacc with hpath hroots
    · cases hacc
    · exact ⟨le_rfl, .inl ⟨rfl, hroots⟩⟩
    · cases hacc
  · rw [verifyConsistency, hfirst, hsecond, Number.lt_ofNat (by omega) (by omega),
      if_pos (by simpa using hgt)] at hacc
    cases hacc

section

variable {S : List (Input Bytes Digest)} {m n k : ℕ} {a b c : JsString}

/-- More inputs show as much. -/
theorem Extends.mono {T : List (Input Bytes Digest)} (hST : S ⊆ T) (h : Extends S m n a b) :
    Extends T m n a b := by
  rcases h with hsame | ⟨r, s, hr, hs, hg⟩
  · exact .inl hsame
  · exact .inr ⟨r, s, hr, hs, hg.mono hST⟩

/-- **What extends a root that extends another extends that one.** -/
theorem Extends.trans (hno : ¬ CollisionIn treeHash S) (h : Extends S m n a b)
    (h' : Extends S n k b c) : Extends S m k a c := by
  rcases h with ⟨rfl, rfl⟩ | ⟨r, s, hr, hs, hg⟩
  · exact h'
  · rcases h' with ⟨rfl, rfl⟩ | ⟨s', t, hs', ht, hg'⟩
    · exact .inr ⟨r, s, hr, hs, hg⟩
    · obtain rfl := eq_of_toHex_eq (hs.trans hs'.symm)
      exact .inr ⟨r, t, hr, ht, hg.trans hno hg'⟩

/-- **A root and one that extends it are opened to one digest** at a leaf they share. -/
theorem Extends.opens (hno : ¬ CollisionIn treeHash S) (h : Extends S m n a b) {i : ℕ}
    {r s d e : Digest} (hr : toHex r.bytes = a) (hs : toHex s.bytes = b)
    (hd : Opens treeHash S i m d r) (he : Opens treeHash S i n e s) : d = e := by
  rcases h with ⟨rfl, rfl⟩ | ⟨r', s', hr', hs', hg⟩
  · obtain rfl := eq_of_toHex_eq (hr.trans hs.symm)
    exact hd.unique hno he
  · obtain rfl := eq_of_toHex_eq (hr.trans hr'.symm)
    obtain rfl := eq_of_toHex_eq (hs.trans hs'.symm)
    exact hg.opens hno hd he

end

/-! ## A history of roots -/

/-- A root of the log, with the size it was shown with. -/
structure TreeHead where
  /-- How many leaves. -/
  size : ℕ
  /-- The root over them. -/
  root : JsString

/-- Whether each root kept was shown to extend the one before it. -/
def Followed (first : TreeHead) : List (ConsistencyProof × TreeHead) → Prop
  | [] => True
  | (p, next) :: views =>
    p.firstSize = .ofNat first.size ∧ p.secondSize = .ofNat next.size ∧
      (verifyConsistency p first.root next.root).valid = true ∧ Followed next views

/-- The roots kept, in order. -/
def heads (first : TreeHead) (views : List (ConsistencyProof × TreeHead)) : List TreeHead :=
  first :: views.map Prod.snd

/-- What following the history hashes. -/
def historyInputs (first : TreeHead) :
    List (ConsistencyProof × TreeHead) → List (Input Bytes Digest)
  | [] => []
  | (p, next) :: views => consistencyInputs p first.root ++ historyInputs next views

/-- One root extends another. -/
def TreeHead.Extends (S : List (Input Bytes Digest)) (a b : TreeHead) : Prop :=
  Evidence.Extends S a.size b.size a.root b.root

/-- **Each root of a history extends all before it.** -/
theorem pairwise_extends_heads {S : List (Input Bytes Digest)} (hno : ¬ CollisionIn treeHash S)
    {first : TreeHead} {views : List (ConsistencyProof × TreeHead)} (hpos : 0 < first.size)
    (hlt : ∀ h ∈ heads first views, h.size < 2 ^ 31) (hfol : Followed first views)
    (hsub : historyInputs first views ⊆ S) :
    (heads first views).Pairwise (TreeHead.Extends S) := by
  induction views generalizing first with
  | nil => exact List.pairwise_singleton ..
  | cons view views ih =>
    obtain ⟨p, next⟩ := view
    obtain ⟨hfirst, hsecond, hacc, hrest⟩ := hfol
    obtain ⟨hp, hsub'⟩ := List.append_subset.mp hsub
    obtain ⟨hle, hext⟩ := extends_of_verifyConsistency hpos (hlt _ (List.mem_cons_self ..))
      (hlt next (List.mem_cons_of_mem _ (List.mem_cons_self ..))) hfirst hsecond hacc
    have hpair := ih (hpos.trans_le hle) (fun h hh => hlt h (List.mem_cons_of_mem _ hh)) hrest hsub'
    have hnext : first.Extends S next := hext.mono hp
    refine List.pairwise_cons.mpr ⟨?_, hpair⟩
    -- the next root is shown to extend the first, and the others extend the next
    intro h hh
    rcases List.mem_cons.mp hh with rfl | hlater
    · exact hnext
    · exact hnext.trans hno ((List.pairwise_cons.mp hpair).1 h hlater)

/-- **Of any two roots of a history one extends the other**, the same root twice included. -/
theorem extends_of_mem_heads {S : List (Input Bytes Digest)} {first : TreeHead}
    {views : List (ConsistencyProof × TreeHead)}
    (hpair : (heads first views).Pairwise (TreeHead.Extends S)) {a b : TreeHead}
    (ha : a ∈ heads first views) (hb : b ∈ heads first views) : a.Extends S b ∨ b.Extends S a := by
  have hrefl : ∀ h ∈ heads first views, h.Extends S h ∨ h.Extends S h :=
    fun h _ => .inl (.inl ⟨rfl, rfl⟩)
  have hsymm : Std.Symm fun x y : TreeHead => x.Extends S y ∨ y.Extends S x := ⟨fun _ _ => Or.symm⟩
  have heither : (heads first views).Pairwise fun x y => x.Extends S y ∨ y.Extends S x :=
    hpair.imp Or.inl
  exact heither.forall_of_forall hrefl ha hb

/-- **Without a collision, an auditor who follows the log is shown one leaf at a position.** -/
theorem toBytes_eq_of_followed {first : TreeHead} {views : List (ConsistencyProof × TreeHead)}
    (hpos : 0 < first.size) (hlt : ∀ h ∈ heads first views, h.size < 2 ^ 31)
    (hfol : Followed first views) {a b : TreeHead} (ha : a ∈ heads first views)
    (hb : b ∈ heads first views) {i : ℕ} {p q : InclusionProof} {d e : LeafData}
    (hp : p.treeSize = .ofNat a.size) (hq : q.treeSize = .ofNat b.size)
    (hpi : p.leafIndex.eq (.ofNat i) = true) (hqi : q.leafIndex.eq (.ofNat i) = true)
    (hpacc : (verifyInclusion p d a.root).valid = true)
    (hqacc : (verifyInclusion q e b.root).valid = true) {s : List Bytes}
    (hS : ¬ CollisionIn sha256 s) (hhist : (historyInputs first views).map preimage ⊆ s)
    (hps : inclusionPreimages p d ⊆ s) (hqs : inclusionPreimages q e ⊆ s) :
    d.toBytes = e.toBytes := by
  have hno := not_collisionIn_treeHash
    (S := historyInputs first views ++ (inclusionInputs p d ++ inclusionInputs q e)) hS (by
      rw [List.map_append, List.map_append]
      exact List.append_subset.mpr ⟨hhist, List.append_subset.mpr ⟨hps, hqs⟩⟩)
  set S := historyInputs first views ++ (inclusionInputs p d ++ inclusionInputs q e) with hSdef
  obtain ⟨hhS, hchecks⟩ := List.append_subset.mp (hSdef ▸ List.Subset.refl S)
  obtain ⟨hpS, hqS⟩ := List.append_subset.mp hchecks
  obtain ⟨r, hr, hor⟩ := opens_of_verifyInclusion (hlt a ha) hp hpi hpacc
  obtain ⟨t, ht, hot⟩ := opens_of_verifyInclusion (hlt b hb) hq hqi hqacc
  have hpair := pairwise_extends_heads hno hpos hlt hfol hhS
  have hleaf : hashLeaf d = hashLeaf e := by
    rcases extends_of_mem_heads hpair ha hb with hext | hext
    · exact hext.opens hno hr ht (hor.mono hpS) (hot.mono hqS)
    · exact (hext.opens hno ht hr (hot.mono hqS) (hor.mono hpS)).symm
  exact Input.leaf.inj (eq_of_not_collisionIn hno (hpS (List.mem_cons_self ..))
    (hqS (List.mem_cons_self ..)) hleaf)

/-- What following the history and two inclusion checks hash. -/
def observedPreimages (first : TreeHead) (views : List (ConsistencyProof × TreeHead))
    (p q : InclusionProof) (d e : LeafData) : List Bytes :=
  (historyInputs first views).map preimage ++ (inclusionPreimages p d ++ inclusionPreimages q e)

/-- What checking a bundle hashes, the digest of its manifest apart. -/
def checkedPreimages (contents : BundleContents) : List Bytes :=
  contents.entries.flatMap (proofPreimages contents) ++
    contents.entries.map fun e => canonicalBytes e.rest

end AgentEval.Evidence
