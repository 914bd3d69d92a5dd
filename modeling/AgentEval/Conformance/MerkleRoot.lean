import AgentEval.Evidence.MerkleTree
import AgentEval.Merkle.Pairing

/-!
# `verify.py`: the Merkle root by iterative pairing

The conformance script hashes a tree one level after another; the server splits it from the top.
Both loops are kept as the script has them: the inner one walks the level two nodes at a time and
pushes onto the next level, the outer one runs while more than one node is left.

* `nextLevel_eq_pairUp` — one pass of the inner loop, with the promotion of an odd last node.
* `merkleRootIterative_eq_mth` — the two roots agree.
-/

namespace AgentEval.Conformance

open Evidence Js Sha256

/-- `LEAF`. -/
def leaf : Bytes := [0x00]

/-- `NODE`. -/
def node : Bytes := [0x01]

/-- `hashlib.sha256` updated with each part in turn.
Source: `verify.py`, `sha256` -/
def sha256Parts (parts : List Bytes) : Digest := sha256 parts.flatten

/-- Source: `verify.py`, `hash_node` -/
def hashNode (left right : Digest) : Digest := sha256Parts [node, left.bytes, right.bytes]

/-- The loop `for i in range(0, len(level) - 1, 2)`, from the position `i` on.
Source: `verify.py`, `merkle_root_iterative` -/
def pairFrom (level : List Digest) (i : ℕ) (nxt : List Digest) : List Digest :=
  if h : i + 1 < level.length then
    pairFrom level (i + 2) (nxt ++ [hashNode level[i] level[i + 1]])
  else nxt
termination_by level.length - i

/-- The body of the loop `while len(level) > 1`.
Source: `verify.py`, `merkle_root_iterative` -/
def nextLevel (level : List Digest) : List Digest :=
  if level.length % 2 = 1 then pairFrom level 0 [] ++ level.getLast?.toList
  else pairFrom level 0 []

/-! ## A pass of the loop -/

/-- The script hashes two children as the tree does. -/
theorem hashNode_eq_treeHash (left right : Digest) :
    hashNode left right = treeHash (.node left right) := by
  simp [hashNode, sha256Parts, treeHash, preimage, node, nodePrefix]

/-- The rest of a pass, from an even position on. -/
theorem pairFrom_eq_pairUp (level : List Digest) {i : ℕ} (nxt : List Digest) (hi : i % 2 = 0)
    (hle : i ≤ level.length) :
    (pairFrom level i nxt ++ if level.length % 2 = 1 then level.getLast?.toList else []) =
      nxt ++ Merkle.pairUp treeHash (level.drop i) := by
  induction i, nxt using pairFrom.induct level with
  | case1 i nxt h ih =>
    have hdrop : level.drop i = level[i] :: level[i + 1] :: level.drop (i + 2) := by
      rw [List.drop_eq_getElem_cons (by omega), List.drop_eq_getElem_cons h]
    rw [pairFrom, dif_pos h, ih (by omega) (by omega), hdrop, Merkle.pairUp, hashNode_eq_treeHash,
      List.append_assoc, List.singleton_append]
  | case2 i nxt h =>
    rw [pairFrom, dif_neg h]
    rcases hle.eq_or_lt with rfl | hlt
    · -- an even level has been read whole
      rw [if_neg (by omega), List.drop_length, Merkle.pairUp]
    · -- one node is left, and it is the last
      have hlen : level.length = i + 1 := by omega
      have hdrop : level.drop i = [level[i]] := by
        rw [List.drop_eq_getElem_cons hlt, List.drop_of_length_le (by omega)]
      have hlast : level.getLast? = some level[i] := by
        rw [List.getLast?_eq_getElem?, hlen, Nat.add_sub_cancel, List.getElem?_eq_getElem hlt]
      rw [if_pos (by omega), hdrop, hlast]
      rfl

/-- **One pass of the loop is one pairing pass.** -/
theorem nextLevel_eq_pairUp (level : List Digest) :
    nextLevel level = Merkle.pairUp treeHash level := by
  have h := pairFrom_eq_pairUp level (i := 0) [] rfl (Nat.zero_le _)
  rw [List.drop_zero, List.nil_append] at h
  rw [← h, nextLevel]
  split_ifs
  · rfl
  · rw [List.append_nil]

/-! ## The root -/

/-- The loop `while len(level) > 1`; it ends with the first node of the last level.
Source: `verify.py`, `merkle_root_iterative` -/
def pairLevels (level : List Digest) : Digest :=
  if _h : 1 < level.length then pairLevels (nextLevel level) else level.headD (sha256Parts [])
termination_by level.length
decreasing_by
  rw [nextLevel_eq_pairUp]
  exact Merkle.length_pairUp_lt _ _h

/-- Source: `verify.py`, `merkle_root_iterative` -/
def merkleRootIterative (leafHashes : List Digest) : Digest :=
  if leafHashes.isEmpty then sha256Parts [[]] else pairLevels leafHashes

/-- The levels from `level` on end at its root. -/
theorem pairLevels_eq_root {level : List Digest} (h : level ≠ []) :
    pairLevels level = Merkle.root treeHash level := by
  induction level using pairLevels.induct with
  | case1 level hlt ih =>
    have hne : nextLevel level ≠ [] := by
      rw [← List.length_pos_iff, nextLevel_eq_pairUp, Merkle.length_pairUp]
      omega
    rw [pairLevels, dif_pos hlt, ih hne, nextLevel_eq_pairUp, Merkle.root_pairUp]
  | case2 level hle =>
    obtain ⟨d, rfl⟩ : ∃ d, level = [d] := by
      rw [← List.length_eq_one_iff]
      have := List.length_pos_iff.mpr h
      omega
    rw [pairLevels, dif_neg hle, Merkle.root_singleton]
    rfl

/-- **The root by iterative pairing is the root by splitting**, for every list of leaf hashes. -/
theorem merkleRootIterative_eq_mth (leafHashes : List Digest) :
    merkleRootIterative leafHashes = (MerkleTree.mk leafHashes).mth 0 leafHashes.length := by
  rw [MerkleTree.mth_eq_root _ le_rfl, MerkleTree.range_zero_length, merkleRootIterative]
  by_cases hnil : leafHashes = []
  · rw [hnil, Merkle.root_nil]
    rfl
  · rw [if_neg (by simpa using hnil), pairLevels_eq_root hnil]

end AgentEval.Conformance
