import AgentEval.Crypto.Sha256
import AgentEval.Js.Buffer
import AgentEval.Js.Decimal
import AgentEval.Merkle.Tree

/-!
# `merkle-tree.ts`: the tree over the log and the proofs it gives out

The class `MerkleTree` with the digests of its leaves, in order. `mth`, `buildPath` and `subproof`
recurse on half-open ranges of leaf positions, as the source does; a list built by pushing onto
`out` is returned.

The range functions are those of the library tree over `leaves[start:end]`:
`mth_eq_root`, `buildPath_eq_auditSteps`, `subproof_eq_proofSteps`. Positions and sizes of the
prover are array lengths, so they are naturals here; in a proof object they are Numbers.
-/

namespace AgentEval.Evidence

open Js Sha256

/-- The data of a leaf: `Buffer | string`. -/
inductive LeafData where
  /-- Octets. -/
  | buffer (b : Bytes)
  /-- Text, hashed in its UTF-8 form. -/
  | string (s : JsString)

/-- The octets hashed for a leaf. -/
def LeafData.toBytes : LeafData → Bytes
  | buffer b => b
  | string s => utf8 s

/-- `LEAF_PREFIX`. -/
def leafPrefix : Bytes := [0x00]

/-- `NODE_PREFIX`. -/
def nodePrefix : Bytes := [0x01]

/-- `MTH({d(0)}) = SHA-256(0x00 || d(0))`.
Source: `merkle-tree.ts`, `hashLeaf` -/
def hashLeaf (data : LeafData) : Digest := sha256 (leafPrefix ++ data.toBytes)

/-- `SHA-256(0x01 || left || right)`.
Source: `merkle-tree.ts`, `hashNode` -/
def hashNode (left right : Digest) : Digest := sha256 (nodePrefix ++ left.bytes ++ right.bytes)

/-- The loop `while (k * 2 < n) k *= 2`; `k` starts at one, and the test of `0 < k` only serves
termination.
Source: `merkle-tree.ts`, `largestPowerOfTwoBelow` -/
def doubleWhileBelow (n k : ℕ) : ℕ :=
  if _h : 0 < k ∧ k * 2 < n then doubleWhileBelow n (k * 2) else k
termination_by n - k

/-- The largest power of two strictly smaller than `n`; requires `n > 1`.
Source: `merkle-tree.ts`, `largestPowerOfTwoBelow` -/
def largestPowerOfTwoBelow (n : ℕ) : ℕ := doubleWhileBelow n 1

/-- Source: `merkle-tree.ts`, `InclusionProof` -/
structure InclusionProof where
  /-- Zero-based index of the leaf this proof is for. -/
  leafIndex : Number
  /-- Number of leaves in the tree the proof was produced against. -/
  treeSize : Number
  /-- Sibling hashes, leaf-ward first. -/
  path : List JsString
  deriving DecidableEq

/-- Source: `merkle-tree.ts`, `ConsistencyProof` -/
structure ConsistencyProof where
  /-- Size of the earlier tree. -/
  firstSize : Number
  /-- Size of the later tree. -/
  secondSize : Number
  /-- Node hashes. -/
  path : List JsString
  deriving DecidableEq

/-! ## The split -/

/-- Doubling a power of two below `n` ends at the split point. -/
theorem doubleWhileBelow_eq_split {n j : ℕ} (h : 2 ^ j < n) :
    doubleWhileBelow n (2 ^ j) = Merkle.split n := by
  induction hd : n - 2 ^ j using Nat.strong_induction_on generalizing j with
  | _ d ih =>
    have hpos := Nat.two_pow_pos j
    rw [doubleWhileBelow]
    split_ifs with hlt
    · rw [← pow_succ] at hlt ⊢
      exact ih _ (by rw [pow_succ] at hlt ⊢; omega) hlt.2 rfl
    · exact (Merkle.split_eq h (by omega)).symm

/-- The source's split is the library's. -/
theorem largestPowerOfTwoBelow_eq_split {n : ℕ} (h : 2 ≤ n) :
    largestPowerOfTwoBelow n = Merkle.split n :=
  doubleWhileBelow_eq_split (n := n) (j := 0) (by rw [pow_zero]; omega)

/-- The split is a proper one. -/
theorem largestPowerOfTwoBelow_lt {n : ℕ} (h : 2 ≤ n) :
    0 < largestPowerOfTwoBelow n ∧ largestPowerOfTwoBelow n < n := by
  rw [largestPowerOfTwoBelow_eq_split h]
  exact ⟨Merkle.split_pos n, Merkle.split_lt h⟩

/-! ## The class -/

/-- An append-only Merkle tree.
Source: `merkle-tree.ts`, `MerkleTree` -/
structure MerkleTree where
  /-- The digests of the leaves, in order. -/
  leaves : List Digest

namespace MerkleTree

/-- The tree of `new MerkleTree()`. -/
def empty : MerkleTree := ⟨[]⟩

/-- Append a leaf; returns its index.
Source: `merkle-tree.ts`, `append` -/
def append (t : MerkleTree) (data : LeafData) : ℕ × MerkleTree :=
  (t.leaves.length, ⟨t.leaves ++ [hashLeaf data]⟩)

/-- Append an already-hashed leaf, given as octets or in hexadecimal.
Source: `merkle-tree.ts`, `appendLeafHash` -/
def appendLeafHash (t : MerkleTree) (leafHash : LeafData) : Except JsError (ℕ × MerkleTree) :=
  let buf := match leafHash with
    | .buffer b => b
    | .string s => fromHex s
  if h : buf.length = 32 then .ok (t.leaves.length, ⟨t.leaves ++ [⟨buf, h⟩]⟩)
  else .error (.error (js "leaf hash must be 32 bytes, got " ++ natDigits buf.length))

/-- The number of leaves.
Source: `merkle-tree.ts`, `size` -/
def size (t : MerkleTree) : ℕ := t.leaves.length

/-- The digest of a leaf, in hexadecimal.
Source: `merkle-tree.ts`, `leafHashAt` -/
def leafHashAt (t : MerkleTree) (index : ℤ) : Except JsError JsString :=
  match if index < 0 then none else t.leaves[index.toNat]? with
  | some leaf => .ok (toHex leaf.bytes)
  | none => .error (.error (js "no leaf at index " ++ (Number.ofInt index).toString))

/-- MTH over the half-open range of leaves; every caller stays inside the list.
Source: `merkle-tree.ts`, `mth` -/
def mth (t : MerkleTree) (start stop : ℕ) : Digest :=
  if stop - start = 0 then sha256 []
  else if stop - start = 1 then t.leaves.getD start (sha256 [])
  else
    hashNode (t.mth start (start + largestPowerOfTwoBelow (stop - start)))
      (t.mth (start + largestPowerOfTwoBelow (stop - start)) stop)
termination_by stop - start
decreasing_by
  all_goals
    have := largestPowerOfTwoBelow_lt (n := stop - start) (by omega)
    omega

/-- MTH over the whole tree, in hexadecimal.
Source: `merkle-tree.ts`, `root` -/
def root (t : MerkleTree) : JsString := toHex (t.mth 0 t.leaves.length).bytes

/-- The siblings pushed for leaf `m` of a range.
Source: `merkle-tree.ts`, `buildPath` -/
def buildPath (t : MerkleTree) (m start stop : ℕ) : List JsString :=
  if stop - start ≤ 1 then []
  else if m < largestPowerOfTwoBelow (stop - start) then
    t.buildPath m start (start + largestPowerOfTwoBelow (stop - start)) ++
      [toHex (t.mth (start + largestPowerOfTwoBelow (stop - start)) stop).bytes]
  else
    t.buildPath (m - largestPowerOfTwoBelow (stop - start))
        (start + largestPowerOfTwoBelow (stop - start)) stop ++
      [toHex (t.mth start (start + largestPowerOfTwoBelow (stop - start))).bytes]
termination_by stop - start
decreasing_by
  all_goals
    have := largestPowerOfTwoBelow_lt (n := stop - start) (by omega)
    omega

/-- `PATH(m, D[n])`.
Source: `merkle-tree.ts`, `inclusionProof` -/
def inclusionProof (t : MerkleTree) (leafIndex : ℤ) : Except JsError InclusionProof :=
  if leafIndex < 0 ∨ (t.leaves.length : ℤ) ≤ leafIndex then
    .error (.error (js "leaf index " ++ (Number.ofInt leafIndex).toString ++
      js " out of range for tree of size " ++ natDigits t.leaves.length))
  else
    .ok ⟨.ofInt leafIndex, .ofNat t.leaves.length,
      t.buildPath leafIndex.toNat 0 t.leaves.length⟩

/-- `SUBPROOF(m, D[n], b)`. The second test is never reached from `consistencyProof`, which asks
for a proper nonempty prefix; without it the recursion at `m = 0` would not end.
Source: `merkle-tree.ts`, `subproof` -/
def subproof (t : MerkleTree) (m start stop : ℕ) (b : Bool) : List JsString :=
  if m = stop - start then
    if b then [] else [toHex (t.mth start stop).bytes]
  else if stop - start ≤ 1 then []
  else if m ≤ largestPowerOfTwoBelow (stop - start) then
    t.subproof m start (start + largestPowerOfTwoBelow (stop - start)) b ++
      [toHex (t.mth (start + largestPowerOfTwoBelow (stop - start)) stop).bytes]
  else
    t.subproof (m - largestPowerOfTwoBelow (stop - start))
        (start + largestPowerOfTwoBelow (stop - start)) stop false ++
      [toHex (t.mth start (start + largestPowerOfTwoBelow (stop - start))).bytes]
termination_by stop - start
decreasing_by
  all_goals
    have := largestPowerOfTwoBelow_lt (n := stop - start) (by omega)
    omega

/-- `PROOF(m, D[n])`.
Source: `merkle-tree.ts`, `consistencyProof` -/
def consistencyProof (t : MerkleTree) (firstSize : ℤ) : Except JsError ConsistencyProof :=
  if firstSize < 0 ∨ (t.leaves.length : ℤ) < firstSize then
    .error (.error (js "first size " ++ (Number.ofInt firstSize).toString ++
      js " out of range for tree of size " ++ natDigits t.leaves.length))
  else
    .ok ⟨.ofInt firstSize, .ofNat t.leaves.length,
      if 0 < firstSize ∧ firstSize < t.leaves.length then
        t.subproof firstSize.toNat 0 t.leaves.length true
      else []⟩

/-- The tree after appending a list of leaves to the empty tree. -/
def ofData (data : List LeafData) : MerkleTree :=
  data.foldl (fun t d => (t.append d).2) empty

/-- The leaves of such a tree are the leaf hashes of the data. -/
theorem leaves_ofData (data : List LeafData) : (ofData data).leaves = data.map hashLeaf := by
  have key : ∀ (l : List LeafData) (t : MerkleTree),
      (l.foldl (fun t d => (t.append d).2) t).leaves = t.leaves ++ l.map hashLeaf := by
    intro l
    induction l with
    | nil => intro t; simp
    | cons d l ih =>
      intro t
      rw [List.foldl_cons, ih]
      simp [append]
  exact key data empty

end MerkleTree

/-! ## The tree hash as an instance of the library's -/

/-- The octets hashed for an input of the tree. -/
def preimage : Merkle.Input Bytes Digest → Bytes
  | .empty => []
  | .leaf a => leafPrefix ++ a
  | .node l r => nodePrefix ++ l.bytes ++ r.bytes

/-- The prefixes and the fixed length of a digest keep the inputs apart. -/
theorem preimage_injective : Function.Injective preimage := by
  intro x y h
  cases x with
  | empty => cases y <;> simp [preimage, leafPrefix, nodePrefix] at h ⊢
  | leaf a => cases y <;> simp_all [preimage, leafPrefix, nodePrefix]
  | node l r =>
    cases y with
    | empty => simp [preimage, nodePrefix] at h
    | leaf a => simp [preimage, leafPrefix, nodePrefix] at h
    | node l' r' =>
      simp only [preimage, nodePrefix, List.cons_append, List.nil_append, List.cons.injEq,
        true_and] at h
      obtain ⟨hl, hr⟩ := List.append_inj h (by rw [l.length_bytes, l'.length_bytes])
      rw [Digest.ext hl, Digest.ext hr]

/-- The tree hash of the source. -/
def treeHash : Merkle.Input Bytes Digest → Digest := sha256 ∘ preimage

/-- A leaf is hashed as the library's leaf input. -/
theorem hashLeaf_eq (data : LeafData) : hashLeaf data = treeHash (.leaf data.toBytes) := rfl

/-- A node is hashed as the library's node input. -/
theorem hashNode_eq (l r : Digest) : hashNode l r = treeHash (.node l r) := rfl

namespace MerkleTree

variable (t : MerkleTree)

/-- The leaves of a half-open range. -/
def range (start stop : ℕ) : List Digest := (t.leaves.take stop).drop start

/-- The number of leaves of a range inside the tree. -/
theorem length_range {start stop : ℕ} (h : stop ≤ t.leaves.length) :
    (t.range start stop).length = stop - start := by
  simp [range, h]

/-- The left part of a range. -/
theorem range_take {start stop k : ℕ} (h : start + k ≤ stop) :
    t.range start (start + k) = (t.range start stop).take k := by
  rw [range, range, List.take_drop, List.take_take, min_eq_left h]

/-- The right part of a range. -/
theorem range_drop (start stop k : ℕ) :
    t.range (start + k) stop = (t.range start stop).drop k := by
  rw [range, range, List.drop_drop]

/-- The whole range. -/
theorem range_zero_length : t.range 0 t.leaves.length = t.leaves := by simp [range]

/-- A prefix range. -/
theorem range_zero (m : ℕ) : t.range 0 m = t.leaves.take m := by simp [range]

/-- **`mth` is the root over its range.** -/
theorem mth_eq_root {start stop : ℕ} (h : stop ≤ t.leaves.length) :
    t.mth start stop = Merkle.root treeHash (t.range start stop) := by
  induction hn : stop - start using Nat.strong_induction_on generalizing start stop with
  | _ n ih =>
    have hlen : (t.range start stop).length = stop - start := t.length_range h
    rw [mth]
    split_ifs with h0 h1
    · have hnil : t.range start stop = [] := List.eq_nil_of_length_eq_zero (hlen.trans h0)
      rw [hnil, Merkle.root_nil]
      rfl
    · obtain ⟨d, hd⟩ := List.length_eq_one_iff.mp (hlen.trans h1)
      have hget : (t.range start stop)[0]? = some d := by rw [hd]; rfl
      rw [range, List.getElem?_drop, add_zero, List.getElem?_take_of_lt (by omega)] at hget
      rw [hd, Merkle.root_singleton, List.getD_eq_getElem?_getD, hget]
      rfl
    · have h2 : 2 ≤ stop - start := by omega
      obtain ⟨hpos, hlt⟩ := largestPowerOfTwoBelow_lt h2
      have hle : start + largestPowerOfTwoBelow (stop - start) ≤ stop := by omega
      have hroot : Merkle.root treeHash (t.range start stop) = _ :=
        Merkle.root_of_two_le treeHash (by omega)
      rw [ih _ (by omega) (by omega) rfl, ih _ (by omega) h rfl, t.range_take hle, t.range_drop,
        hashNode_eq, hroot, hlen, largestPowerOfTwoBelow_eq_split h2]

/-- The root of the tree. -/
theorem root_eq : t.root = toHex (Merkle.root treeHash t.leaves).bytes := by
  rw [root, mth_eq_root t le_rfl, range_zero_length]

/-- The text of the siblings of a path. -/
def renderSteps (steps : List (Merkle.Step Digest)) : List JsString :=
  steps.map fun s => toHex s.2.bytes

/-- **`buildPath` pushes the audit path of its range.** -/
theorem buildPath_eq_auditSteps (m : ℕ) {start stop : ℕ} (h : stop ≤ t.leaves.length) :
    t.buildPath m start stop = renderSteps (Merkle.auditSteps treeHash m (t.range start stop)) := by
  induction hn : stop - start using Nat.strong_induction_on generalizing m start stop with
  | _ n ih =>
    have hlen : (t.range start stop).length = stop - start := t.length_range h
    rw [buildPath]
    split_ifs with h1 hk
    · rw [Merkle.auditSteps_of_length_le_one _ _ (by omega)]
      rfl
    · have h2 : 2 ≤ stop - start := by omega
      obtain ⟨hpos, hlt⟩ := largestPowerOfTwoBelow_lt h2
      have heq := largestPowerOfTwoBelow_eq_split h2
      have hle : start + largestPowerOfTwoBelow (stop - start) ≤ stop := by omega
      have hsteps : Merkle.auditSteps treeHash m (t.range start stop) = _ :=
        Merkle.auditSteps_of_lt_split treeHash (by omega) (by rw [hlen, ← heq]; exact hk)
      rw [hlen, ← heq] at hsteps
      rw [ih _ (by omega) m (by omega) rfl, t.mth_eq_root h, t.range_take hle, t.range_drop, hsteps]
      simp [renderSteps]
    · have h2 : 2 ≤ stop - start := by omega
      obtain ⟨hpos, hlt⟩ := largestPowerOfTwoBelow_lt h2
      have heq := largestPowerOfTwoBelow_eq_split h2
      have hle : start + largestPowerOfTwoBelow (stop - start) ≤ stop := by omega
      have hsteps : Merkle.auditSteps treeHash m (t.range start stop) = _ :=
        Merkle.auditSteps_of_split_le treeHash (by omega) (by rw [hlen, ← heq]; omega)
      rw [hlen, ← heq] at hsteps
      rw [ih _ (by omega) _ h rfl, t.mth_eq_root (hle.trans h), t.range_take hle,
        t.range_drop, hsteps]
      simp [renderSteps]

/-- **`subproof` pushes the last complete subtree of the prefix, unless the caller can derive it,
and then its siblings.** It can be derived when the flag survived the recursion, that is when the
recursion never went right. -/
theorem subproof_eq_proofSteps {m : ℕ} {start stop : ℕ} (b : Bool) (h : stop ≤ t.leaves.length)
    (hm : 0 < m) (hle : m ≤ stop - start) :
    t.subproof m start stop b =
      (if b = true ∧ Merkle.Dir.right ∉ Merkle.proofDirs m (stop - start) then []
        else [toHex (Merkle.proofSeed treeHash m (t.range start stop)).bytes]) ++
        renderSteps (Merkle.proofSteps treeHash m (t.range start stop)) := by
  induction hn : stop - start using Nat.strong_induction_on generalizing m start stop b with
  | _ n ih =>
    subst hn
    have hlen : (t.range start stop).length = stop - start := t.length_range h
    rcases hle.eq_or_lt with heqm | hlt
    · -- the prefix is the whole range
      rw [subproof, if_pos heqm, Merkle.proofSteps_of_le _ (by omega),
        Merkle.proofSeed_of_le _ (by omega), Merkle.proofDirs_of_le (by omega), t.mth_eq_root h]
      cases b <;> simp [renderSteps]
    · have h2 : 2 ≤ stop - start := by omega
      obtain ⟨hpos, hltk⟩ := largestPowerOfTwoBelow_lt h2
      have heq := largestPowerOfTwoBelow_eq_split h2
      have hks : start + largestPowerOfTwoBelow (stop - start) ≤ stop := by omega
      rw [subproof, if_neg hlt.ne, if_neg (by omega)]
      by_cases hk : m ≤ largestPowerOfTwoBelow (stop - start)
      · -- the prefix lies in the left part: the flag and the seed are passed on
        have hdirs := Merkle.proofDirs_of_le_split hlt h2 (heq ▸ hk)
        have hseed : Merkle.proofSeed treeHash m (t.range start stop) = _ :=
          Merkle.proofSeed_of_le_split treeHash (by omega) (by omega) (by rw [hlen, ← heq]; exact hk)
        have hsteps : Merkle.proofSteps treeHash m (t.range start stop) = _ :=
          Merkle.proofSteps_of_le_split treeHash (by omega) (by omega) (by rw [hlen, ← heq]; exact hk)
        have hrec := @ih _ (by omega) m start _ b (hks.trans h) hm (by omega) rfl
        rw [hlen, ← heq] at hseed hsteps
        rw [← heq] at hdirs
        rw [Nat.add_sub_cancel_left] at hrec
        rw [if_pos hk, hrec, t.mth_eq_root h, t.range_take hks, t.range_drop, hsteps, hseed, hdirs]
        simp [renderSteps]
      · -- the prefix reaches into the right part: the flag is lost for good
        rw [if_neg hk]
        rw [not_le] at hk
        have hdirs := Merkle.proofDirs_of_split_lt hlt (heq ▸ hk)
        have hseed : Merkle.proofSeed treeHash m (t.range start stop) = _ :=
          Merkle.proofSeed_of_split_lt treeHash (by omega) (by rw [hlen, ← heq]; exact hk)
        have hsteps : Merkle.proofSteps treeHash m (t.range start stop) = _ :=
          Merkle.proofSteps_of_split_lt treeHash (by omega) (by rw [hlen, ← heq]; exact hk)
        have hrec := @ih (stop - (start + largestPowerOfTwoBelow (stop - start))) (by omega)
          (m - largestPowerOfTwoBelow (stop - start))
          (start + largestPowerOfTwoBelow (stop - start)) stop false h (by omega) (by omega) rfl
        rw [hlen, ← heq] at hseed hsteps
        rw [hrec, t.mth_eq_root (hks.trans h), t.range_take hks, t.range_drop, hsteps, hseed, hdirs]
        simp [renderSteps]

end MerkleTree

end AgentEval.Evidence
