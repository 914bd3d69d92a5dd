import AgentEval.Evidence.MerkleTree
import Mathlib.Data.Nat.Bitwise

/-!
# `proof-verifier.ts`: verification of inclusion and consistency proofs

The verifier sees a proof object only, so its sizes and indices are Numbers here, whatever they
are. Both verifiers run one loop over the path with the position `fn` and the last position `sn`
of a level; the loop either returns early (`Except.error`, with the result that is returned) or
ends.

* `loopSteps fn sn path` — the siblings the loop reads, each with the side it is hashed on.
  **`consistencyLoop_eq_climb`**: whatever the Numbers are, a loop that ends has climbed these
  steps; **`map_fst_loopSteps`**: on naturals below `2 ^ 31`, a loop that ends at the top has
  taken the directions `Merkle.levelDirs fn sn`; **`consistencyLoop_renderSteps`**: it ends at the
  top on every path with these directions.
* `inclusionLoop_eq` — the loop of `verifyInclusion` is the loop of `verifyConsistency` without the
  earlier root.
-/

namespace AgentEval.Evidence

open Js Sha256 Merkle

/-- Decode a hash given in hexadecimal.
Source: `proof-verifier.ts`, `hexToBuf` -/
def hexToBuf (hex : JsString) : Except JsError Digest :=
  if h : (fromHex hex).length = 32 then .ok ⟨fromHex hex, h⟩
  else .error (.error (js "expected a 32-byte hex hash, got " ++ natDigits (fromHex hex).length ++
    js " bytes"))

/-- Source: `proof-verifier.ts`, `isPowerOfTwo` -/
def isPowerOfTwo (n : Number) : Bool :=
  (Number.ofNat 0).lt n && (n.bitAnd (n.sub (.ofNat 1))).eq (.ofNat 0)

/-- Source: `proof-verifier.ts`, `VerificationResult` -/
structure VerificationResult where
  /-- Whether the proof was accepted. -/
  valid : Bool
  /-- Why it failed. -/
  reason : Option JsString
  /-- The root the proof reconstructs to, when one could be computed. -/
  computedRoot : Option JsString
  deriving DecidableEq

/-- A failure without a computed root. -/
def invalid (reason : JsString) : VerificationResult := ⟨false, some reason, none⟩

/-! ## The two inner loops -/

/-- A bound on the passes left in a loop that shifts `fn`: after one shift `fn` is a 32-bit
integer, and its absolute value goes down. -/
def shiftRank (fn : Number) : ℕ := if fn = .ofInt fn.toInt32 then fn.toInt32.natAbs else 2 ^ 31

/-- A shift lowers the bound unless `fn` is a fixed point of the shift. -/
theorem shiftRank_shr_lt {fn : Number} (h₀ : fn ≠ .ofInt 0) (h₁ : fn ≠ .ofInt (-1)) :
    shiftRank (fn.shr 1) < shiftRank fn := by
  obtain ⟨hlo, hhi⟩ := fn.toInt32_bounds
  have hshift : shiftRank (fn.shr 1) = (fn.toInt32 / 2).natAbs := by
    rw [Number.shr_one_eq, shiftRank, Number.toInt32_ofInt (by omega) (by omega), if_pos rfl]
  rw [hshift, shiftRank]
  split_ifs with heq
  · have h₀' : fn.toInt32 ≠ 0 := fun h => h₀ (h ▸ heq)
    have h₁' : fn.toInt32 ≠ -1 := fun h => h₁ (h ▸ heq)
    omega
  · omega

/-- The loop `while (fn !== 0 && fn % 2 === 0) { fn >>= 1; sn >>= 1; }`.
Source: `proof-verifier.ts`, `verifyInclusion`, `verifyConsistency` -/
def shiftWhileEven (fn sn : Number) : Number × Number :=
  if _h : (!fn.eq (.ofNat 0) && (fn.mod (.ofNat 2)).eq (.ofNat 0)) = true then
    shiftWhileEven (fn.shr 1) (sn.shr 1)
  else (fn, sn)
termination_by shiftRank fn
decreasing_by
  refine shiftRank_shr_lt ?_ ?_
  · rintro rfl
    exact absurd _h (by decide +kernel)
  · rintro rfl
    exact absurd _h (by decide +kernel)

/-- The loop `while (fn % 2 === 1) { fn >>= 1; sn >>= 1; }`.
Source: `proof-verifier.ts`, `verifyConsistency` -/
def shiftWhileOdd (fn sn : Number) : Number × Number :=
  if _h : (fn.mod (.ofNat 2)).eq (.ofNat 1) = true then shiftWhileOdd (fn.shr 1) (sn.shr 1)
  else (fn, sn)
termination_by shiftRank fn
decreasing_by
  refine shiftRank_shr_lt ?_ ?_
  · rintro rfl
    exact absurd _h (by decide +kernel)
  · rintro rfl
    exact absurd _h (by decide +kernel)

/-- The test `fn % 2 === 1 || fn === sn`: the sibling is hashed on the left.
Source: `proof-verifier.ts`, `verifyInclusion`, `verifyConsistency` -/
def isRightChild (fn sn : Number) : Bool := (fn.mod (.ofNat 2)).eq (.ofNat 1) || fn.eq sn

/-- What one pass does to `fn` and `sn`.
Source: `proof-verifier.ts`, `verifyInclusion`, `verifyConsistency` -/
def moveUp (fn sn : Number) : Number × Number :=
  let p := if isRightChild fn sn then shiftWhileEven fn sn else (fn, sn)
  (p.1.shr 1, p.2.shr 1)

/-! ## The verifiers -/

/-- The loop over the path; it ends with `sn` and the hash.
Source: `proof-verifier.ts`, `verifyInclusion` -/
def inclusionLoop (fn sn : Number) (hash : Digest) :
    List JsString → Except VerificationResult (Number × Digest)
  | [] => .ok (sn, hash)
  | sibling :: path =>
    if sn.eq (.ofNat 0) then .error (invalid (js "proof is longer than the tree is deep"))
    else
      match hexToBuf sibling with
      | .error e => .error (invalid (js "malformed proof node: " ++ e.message))
      | .ok node =>
        inclusionLoop (moveUp fn sn).1 (moveUp fn sn).2
          (if isRightChild fn sn then hashNode node hash else hashNode hash node) path

/-- Verify that `leafData` sits at `leafIndex` of the tree whose root is `expectedRoot`. Hashing
the leaf cannot throw on octets or text, so the `catch` around it is left out.
Source: `proof-verifier.ts`, `verifyInclusion` -/
def verifyInclusion (proof : InclusionProof) (leafData : LeafData) (expectedRoot : JsString) :
    VerificationResult :=
  if proof.treeSize.le (.ofNat 0) then invalid (js "tree size must be positive")
  else if proof.leafIndex.lt (.ofNat 0) || proof.treeSize.le proof.leafIndex then
    invalid (js "leaf index " ++ proof.leafIndex.toString ++ js " outside tree of size " ++
      proof.treeSize.toString)
  else
    match inclusionLoop proof.leafIndex (proof.treeSize.sub (.ofNat 1)) (hashLeaf leafData)
      proof.path with
    | .error r => r
    | .ok (sn, hash) =>
      if !sn.eq (.ofNat 0) then invalid (js "proof is shorter than the tree is deep")
      else if toHex hash.bytes ≠ expectedRoot then
        ⟨false, some (js "reconstructed root does not match"), some (toHex hash.bytes)⟩
      else ⟨true, none, some (toHex hash.bytes)⟩

/-- The loop over the path; it ends with `sn` and the two hashes.
Source: `proof-verifier.ts`, `verifyConsistency` -/
def consistencyLoop (fn sn : Number) (fr sr : Digest) :
    List JsString → Except VerificationResult (Number × Digest × Digest)
  | [] => .ok (sn, fr, sr)
  | sibling :: path =>
    if sn.eq (.ofNat 0) then .error (invalid (js "proof is longer than the tree is deep"))
    else
      match hexToBuf sibling with
      | .error e => .error (invalid (js "malformed proof node: " ++ e.message))
      | .ok node =>
        if isRightChild fn sn then
          consistencyLoop (moveUp fn sn).1 (moveUp fn sn).2 (hashNode node fr) (hashNode node sr)
            path
        else consistencyLoop (moveUp fn sn).1 (moveUp fn sn).2 fr (hashNode sr node) path

section

-- the equations are derived here, once, and not by each proof that unfolds
attribute [local simp] inclusionLoop consistencyLoop shiftWhileEven shiftWhileOdd

end

/-- The node both reconstructions start from, and the part of the path left to read.
Source: `proof-verifier.ts`, `verifyConsistency` -/
def consistencySeed (proof : ConsistencyProof) (firstRoot : JsString) :
    Except VerificationResult (Digest × List JsString) :=
  if isPowerOfTwo proof.firstSize then
    match hexToBuf firstRoot with
    | .ok root => .ok (root, proof.path)
    | .error e => .error (invalid (js "malformed proof node: " ++ e.message))
  else
    match proof.path with
    | [] => .error (invalid (js "proof is empty"))
    | node :: path =>
      match hexToBuf node with
      | .ok node => .ok (node, path)
      | .error e => .error (invalid (js "malformed proof node: " ++ e.message))

/-- Verify that the tree with root `secondRoot` extends the tree with root `firstRoot`.
Source: `proof-verifier.ts`, `verifyConsistency` -/
def verifyConsistency (proof : ConsistencyProof) (firstRoot secondRoot : JsString) :
    VerificationResult :=
  if proof.secondSize.lt proof.firstSize then
    invalid (js "first size " ++ proof.firstSize.toString ++ js " exceeds second " ++
      proof.secondSize.toString)
  else if proof.firstSize.eq proof.secondSize then
    if 0 < proof.path.length then invalid (js "equal sizes require an empty proof")
    else if firstRoot = secondRoot then ⟨true, none, some secondRoot⟩
    else invalid (js "equal sizes but roots differ")
  else if proof.firstSize.eq (.ofNat 0) then
    if proof.path.length = 0 then ⟨true, none, none⟩
    else invalid (js "extension of the empty tree requires an empty proof")
  else
    match consistencySeed proof firstRoot with
    | .error r => r
    | .ok (seed, path) =>
      let start := shiftWhileOdd (proof.firstSize.sub (.ofNat 1)) (proof.secondSize.sub (.ofNat 1))
      match consistencyLoop start.1 start.2 seed seed path with
      | .error r => r
      | .ok (sn, fr, sr) =>
        if !sn.eq (.ofNat 0) then invalid (js "proof is shorter than the tree is deep")
        else if toHex fr.bytes ≠ firstRoot then
          ⟨false, some (js "proof does not reconstruct the earlier root -- history was altered"),
            some (toHex fr.bytes)⟩
        else if toHex sr.bytes ≠ secondRoot then
          ⟨false, some (js "proof does not reconstruct the later root"), some (toHex sr.bytes)⟩
        else ⟨true, none, some (toHex sr.bytes)⟩

/-! ## The inner loops on naturals -/

section naturals

variable {fn sn : ℕ}

/-- The parity test on naturals. -/
theorem mod_two_eq (h : fn < 2 ^ 53) (r : ℕ) (hr : r < 2) :
    ((Number.ofNat fn).mod (.ofNat 2)).eq (.ofNat r) = decide (fn % 2 = r) := by
  rw [Number.mod_ofNat h (by norm_num) (by norm_num),
    Number.eq_ofNat (by omega) (by omega)]

/-- The side test on naturals. -/
theorem isRightChild_ofNat (hf : fn < 2 ^ 53) (hs : sn < 2 ^ 53) :
    isRightChild (.ofNat fn) (.ofNat sn) = decide (fn % 2 = 1 ∨ fn = sn) := by
  rw [isRightChild, mod_two_eq hf 1 (by norm_num), Number.eq_ofNat hf hs,
    Bool.decide_or]

/-- At an odd position the first inner loop does nothing. -/
theorem shiftWhileEven_of_odd (hf : fn < 2 ^ 53) (hodd : fn % 2 = 1) (sn : Number) :
    shiftWhileEven (.ofNat fn) sn = (.ofNat fn, sn) := by
  rw [shiftWhileEven, mod_two_eq hf 0 (by norm_num), dif_neg (by simp [hodd])]

/-- At an even position the first inner loop halves both positions. -/
theorem shiftWhileEven_of_even (hf : fn < 2 ^ 31) (hs : sn < 2 ^ 31) (hpos : 0 < fn)
    (heven : fn % 2 = 0) :
    shiftWhileEven (.ofNat fn) (.ofNat sn) = shiftWhileEven (.ofNat (fn / 2)) (.ofNat (sn / 2)) := by
  rw [shiftWhileEven, mod_two_eq (by omega) 0 (by norm_num),
    Number.eq_ofNat (by omega) (by norm_num),
    dif_pos (by simp [heven]; omega), Number.shr_one_ofNat hf, Number.shr_one_ofNat hs]

/-- **At the unpaired last node the first inner loop climbs to the level where the node is a right
child**; the levels passed over have no step. -/
theorem exists_shiftWhileEven (hf : fn < 2 ^ 31) (hpos : 0 < fn) :
    ∃ f, f % 2 = 1 ∧ f ≤ fn ∧ shiftWhileEven (.ofNat fn) (.ofNat fn) = (.ofNat f, .ofNat f) ∧
      levelDirs fn fn = levelDirs f f := by
  induction fn using Nat.strong_induction_on with
  | _ fn ih =>
    rcases Nat.mod_two_eq_zero_or_one fn with heven | hodd
    · obtain ⟨f, hf1, hle, hshift, hdirs⟩ := ih (fn / 2) (by omega) (by omega) (by omega)
      refine ⟨f, hf1, by omega, (shiftWhileEven_of_even hf hf hpos heven).trans hshift, ?_⟩
      rw [← hdirs, levelDirs_last hpos heven]
    · exact ⟨fn, hodd, le_rfl, shiftWhileEven_of_odd (by omega) hodd _, rfl⟩

/-- **One pass of the loop is one step of the path.** -/
theorem exists_moveUp (hle : fn ≤ sn) (hs : sn < 2 ^ 31) (hpos : 0 < sn) :
    ∃ fn' sn', moveUp (.ofNat fn) (.ofNat sn) = (.ofNat fn', .ofNat sn') ∧ fn' ≤ sn' ∧ sn' < sn ∧
      levelDirs fn sn =
        (if isRightChild (.ofNat fn) (.ofNat sn) then .right else .left) :: levelDirs fn' sn' := by
  have hf : fn < 2 ^ 31 := by omega
  have hf53 : fn < 2 ^ 53 := by omega
  have hs53 : sn < 2 ^ 53 := by omega
  by_cases hodd : fn % 2 = 1
  · have hright : isRightChild (.ofNat fn) (.ofNat sn) = true := by
      rw [isRightChild_ofNat hf53 hs53]
      simp [hodd]
    refine ⟨fn / 2, sn / 2, ?_, by omega, by omega, ?_⟩
    · simp only [moveUp, hright, if_true, shiftWhileEven_of_odd hf53 hodd,
        Number.shr_one_ofNat hf, Number.shr_one_ofNat hs]
    · rw [levelDirs_of_odd hpos hodd, hright, if_pos rfl]
  · by_cases heq : fn = sn
    · subst heq
      have hright : isRightChild (.ofNat fn) (.ofNat fn) = true := by
        rw [isRightChild_ofNat hf53 hs53]
        simp
      obtain ⟨f, hf1, hfle, hshift, hsame⟩ := exists_shiftWhileEven hf hpos
      refine ⟨f / 2, f / 2, ?_, le_rfl, by omega, ?_⟩
      · simp only [moveUp, hright, if_true, hshift, Number.shr_one_ofNat (hfle.trans_lt hf)]
      · rw [hsame, hright, if_pos rfl, levelDirs_of_odd (by omega) hf1]
    · have hleft : isRightChild (.ofNat fn) (.ofNat sn) = false := by
        rw [isRightChild_ofNat hf53 hs53]
        simp [hodd, heq]
      refine ⟨fn / 2, sn / 2, ?_, by omega, by omega, ?_⟩
      · simp only [moveUp, hleft, Bool.false_eq_true, if_false, Number.shr_one_ofNat hf,
          Number.shr_one_ofNat hs]
      · rw [levelDirs_of_even hpos (by omega) heq, hleft, if_neg Bool.false_ne_true]

/-- **The second inner loop finds the last complete subtree.** -/
theorem shiftWhileOdd_ofNat (hf : fn < 2 ^ 31) (hs : sn < 2 ^ 31) :
    shiftWhileOdd (.ofNat fn) (.ofNat sn) =
      (.ofNat (lastComplete fn sn).1, .ofNat (lastComplete fn sn).2) := by
  induction fn using Nat.strong_induction_on generalizing sn with
  | _ fn ih =>
    rw [shiftWhileOdd, mod_two_eq (by omega) 1 (by norm_num), lastComplete]
    by_cases hodd : fn % 2 = 1
    · rw [dif_pos (by simpa using hodd), dif_pos hodd, Number.shr_one_ofNat hf,
        Number.shr_one_ofNat hs, ih _ (by omega) (by omega) (by omega)]
    · rw [dif_neg (by simpa using hodd), dif_neg hodd]

/-- The power-of-two test on naturals. -/
theorem isPowerOfTwo_ofNat {n : ℕ} (h : n < 2 ^ 31) :
    isPowerOfTwo (.ofNat n) = true ↔ ∃ j, n = 2 ^ j := by
  rcases Nat.eq_zero_or_pos n with rfl | hpos
  · simp only [isPowerOfTwo, Number.lt_ofNat (a := 0) (b := 0) (by norm_num) (by norm_num)]
    constructor
    · simp
    · rintro ⟨j, hj⟩
      exact absurd hj (Nat.two_pow_pos j).ne
  · have hand : n &&& (n - 1) < 2 ^ 31 := Nat.and_lt_two_pow _ (by omega)
    rw [isPowerOfTwo, Number.lt_ofNat (by norm_num) (by omega),
      Number.sub_ofNat (by omega) (show 1 ≤ n from hpos), Number.bitAnd_ofNat h (by omega),
      Number.eq_ofNat (hand.trans (by norm_num)) (by norm_num)]
    simp only [hpos, decide_true, Bool.true_and, decide_eq_true_eq]
    exact Nat.and_sub_one_eq_zero_iff_isPowerOfTwo hpos.ne'

end naturals

/-! ## The loop over the path -/

/-- The siblings the loop reads, with the sides they are hashed on. -/
def loopSteps (fn sn : Number) : List JsString → List (Step Digest)
  | [] => []
  | sibling :: path =>
    match hexToBuf sibling with
    | .error _ => []
    | .ok node =>
      (if isRightChild fn sn then .right else .left, node) ::
        loopSteps (moveUp fn sn).1 (moveUp fn sn).2 path

section

-- the equations are derived here, once, and not by each proof that unfolds
attribute [local simp] loopSteps

end

/-- Decoding what `toString('hex')` gives. -/
@[simp] theorem hexToBuf_toHex (d : Digest) : hexToBuf (toHex d.bytes) = .ok d := by
  have h : (fromHex (toHex d.bytes)).length = 32 := by rw [fromHex_toHex, d.length_bytes]
  rw [hexToBuf, dif_pos h]
  congr 1
  exact Digest.ext (fromHex_toHex _)

/-- The loop of `verifyInclusion` is that of `verifyConsistency` without the earlier root. -/
theorem inclusionLoop_eq (fn sn : Number) (fr sr : Digest) (path : List JsString) :
    inclusionLoop fn sn sr path =
      (consistencyLoop fn sn fr sr path).map fun r => (r.1, r.2.2) := by
  induction path generalizing fn sn fr sr with
  | nil => rfl
  | cons sibling path ih =>
    rw [inclusionLoop, consistencyLoop]
    split_ifs with h₀ hright
    · rfl
    · cases hexToBuf sibling with
      | error e => rfl
      | ok node => exact ih ..
    · cases hexToBuf sibling with
      | error e => rfl
      | ok node => exact ih ..

/-- What the loop of `verifyInclusion` ends with, the loop of `verifyConsistency` ends with. -/
theorem exists_consistencyLoop {fn sn sn' : Number} {sr sr' : Digest} {path : List JsString}
    (fr : Digest) (h : inclusionLoop fn sn sr path = .ok (sn', sr')) :
    ∃ fr', consistencyLoop fn sn fr sr path = .ok (sn', fr', sr') := by
  rw [inclusionLoop_eq fn sn fr] at h
  cases hloop : consistencyLoop fn sn fr sr path with
  | error r =>
    rw [hloop] at h
    cases h
  | ok q =>
    rw [hloop] at h
    cases h
    exact ⟨_, rfl⟩

/-- A position of `-0` is the position `0`. -/
theorem loop_negZero (sn : Number) (fr sr : Digest) (path : List JsString) :
    consistencyLoop .negZero sn fr sr path = consistencyLoop (.ofNat 0) sn fr sr path ∧
      loopSteps .negZero sn path = loopSteps (.ofNat 0) sn path := by
  have hright : isRightChild .negZero sn = isRightChild (.ofNat 0) sn := by
    have hplace : Number.place .negZero = (Number.ofNat 0).place := by
      rw [Number.ofNat_eq (by norm_num)]
      simp [Number.place]
    have heq : Number.eq .negZero sn = (Number.ofNat 0).eq sn := by
      rw [Number.eq, Number.eq, hplace]
    have hmod : (Number.mod .negZero (.ofNat 2)).eq (.ofNat 1) =
        ((Number.ofNat 0).mod (.ofNat 2)).eq (.ofNat 1) := by decide +kernel
    rw [isRightChild, isRightChild, heq, hmod]
  have hneg : shiftWhileEven .negZero sn = (.negZero, sn) := by
    rw [shiftWhileEven, dif_neg (by decide +kernel)]
  have hzero : shiftWhileEven (.ofNat 0) sn = (.ofNat 0, sn) := by
    rw [shiftWhileEven, dif_neg (by simp)]
  have hshr : Number.shr .negZero 1 = (Number.ofNat 0).shr 1 := by decide +kernel
  have hmove : moveUp .negZero sn = moveUp (.ofNat 0) sn := by
    simp only [moveUp, hright, hneg, hzero, ite_self, hshr]
  cases path with
  | nil => exact ⟨rfl, rfl⟩
  | cons sibling path =>
    rw [consistencyLoop, consistencyLoop, loopSteps, loopSteps, hright, hmove]
    exact ⟨rfl, rfl⟩

/-- **A loop that ends has climbed its steps**: toward the later root all of them, toward the
earlier root the right ones. -/
theorem consistencyLoop_eq_climb {fn sn sn' : Number} {fr sr fr' sr' : Digest}
    {path : List JsString} (h : consistencyLoop fn sn fr sr path = .ok (sn', fr', sr')) :
    fr' = climb treeHash fr (rightSteps (loopSteps fn sn path)) ∧
      sr' = climb treeHash sr (loopSteps fn sn path) := by
  induction path generalizing fn sn fr sr with
  | nil =>
    simp only [consistencyLoop, Except.ok.injEq, Prod.mk.injEq] at h
    obtain ⟨-, rfl, rfl⟩ := h
    exact ⟨rfl, rfl⟩
  | cons sibling path ih =>
    rw [consistencyLoop] at h
    have h₀ : ¬ sn.eq (.ofNat 0) = true := by
      intro h₀
      rw [if_pos h₀] at h
      cases h
    rw [if_neg h₀] at h
    cases hnode : hexToBuf sibling with
    | error e =>
      rw [hnode] at h
      cases h
    | ok node =>
      rw [hnode] at h
      simp only at h
      rw [loopSteps, hnode]
      by_cases hright : isRightChild fn sn = true
      · rw [if_pos hright] at h ⊢
        obtain ⟨hfr, hsr⟩ := ih h
        exact ⟨hfr, hsr⟩
      · rw [if_neg hright] at h ⊢
        obtain ⟨hfr, hsr⟩ := ih h
        exact ⟨hfr, hsr⟩

/-- **On naturals a loop that ends at the top has taken the steps of the position.** -/
theorem map_fst_loopSteps {fn sn : ℕ} {sn' : Number} {fr sr fr' sr' : Digest}
    {path : List JsString} (hle : fn ≤ sn) (hs : sn < 2 ^ 31)
    (h : consistencyLoop (.ofNat fn) (.ofNat sn) fr sr path = .ok (sn', fr', sr'))
    (htop : sn'.eq (.ofNat 0) = true) :
    (loopSteps (.ofNat fn) (.ofNat sn) path).map Prod.fst = levelDirs fn sn := by
  induction path generalizing fn sn fr sr with
  | nil =>
    simp only [consistencyLoop, Except.ok.injEq, Prod.mk.injEq] at h
    obtain ⟨rfl, -, -⟩ := h
    rw [Number.eq_ofNat (by omega) (by norm_num), decide_eq_true_eq] at htop
    rw [htop, levelDirs_zero]
    rfl
  | cons sibling path ih =>
    rw [consistencyLoop, Number.eq_ofNat (by omega) (by norm_num)] at h
    have hsn : 0 < sn := by
      refine Nat.pos_of_ne_zero ?_
      rintro rfl
      cases h
    obtain ⟨fn', sn', hmove, hle', hlt, hdirs⟩ := exists_moveUp hle hs hsn
    rw [if_neg (by simpa using hsn.ne')] at h
    cases hnode : hexToBuf sibling with
    | error e =>
      rw [hnode] at h
      cases h
    | ok node =>
      rw [hnode, hmove] at h
      simp only at h
      have hrec : (loopSteps (.ofNat fn') (.ofNat sn') path).map Prod.fst = levelDirs fn' sn' := by
        split_ifs at h
        · exact ih hle' (hlt.trans hs) h
        · exact ih hle' (hlt.trans hs) h
      rw [loopSteps, hnode, hmove, hdirs, ← hrec]
      rfl

/-- **On naturals the loop ends at the top on every path with the directions of the position.** -/
theorem consistencyLoop_renderSteps {fn sn : ℕ} (fr sr : Digest) {steps : List (Step Digest)}
    (hle : fn ≤ sn) (hs : sn < 2 ^ 31) (hsteps : steps.map Prod.fst = levelDirs fn sn) :
    consistencyLoop (.ofNat fn) (.ofNat sn) fr sr (MerkleTree.renderSteps steps) =
      .ok (.ofNat 0, climb treeHash fr (rightSteps steps), climb treeHash sr steps) := by
  induction steps generalizing fn sn fr sr with
  | nil =>
    have hsn : sn = 0 := by
      by_contra hpos
      obtain ⟨_, _, -, -, -, hdirs⟩ := exists_moveUp hle hs (Nat.pos_of_ne_zero hpos)
      rw [hdirs] at hsteps
      cases hsteps
    rw [hsn]
    rfl
  | cons s steps ih =>
    have hsn : 0 < sn := by
      refine Nat.pos_of_ne_zero ?_
      rintro rfl
      rw [levelDirs_zero] at hsteps
      cases hsteps
    obtain ⟨fn', sn', hmove, hle', hlt, hdirs⟩ := exists_moveUp hle hs hsn
    rw [hdirs, List.map_cons, List.cons.injEq] at hsteps
    obtain ⟨hs1, hsteps⟩ := hsteps
    obtain ⟨dir, d⟩ := s
    simp only at hs1
    subst hs1
    rw [MerkleTree.renderSteps, List.map_cons, consistencyLoop,
      Number.eq_ofNat (by omega) (by norm_num), if_neg (by simpa using hsn.ne'), hexToBuf_toHex,
      hmove]
    simp only
    by_cases hright : isRightChild (.ofNat fn) (.ofNat sn) = true
    · rw [if_pos hright, if_pos hright]
      exact ih _ _ hle' (hlt.trans hs) hsteps
    · rw [if_neg hright, if_neg hright]
      exact ih _ _ hle' (hlt.trans hs) hsteps

/-- An early return of the loop is a failure. -/
theorem valid_of_consistencyLoop_error {fn sn : Number} {fr sr : Digest} {path : List JsString}
    {r : VerificationResult} (h : consistencyLoop fn sn fr sr path = .error r) :
    r.valid = false := by
  induction path generalizing fn sn fr sr with
  | nil => cases h
  | cons sibling path ih =>
    rw [consistencyLoop] at h
    split_ifs at h with h₀ hright
    · cases h
      rfl
    · cases hnode : hexToBuf sibling with
      | error e =>
        rw [hnode] at h
        cases h
        rfl
      | ok node =>
        rw [hnode] at h
        exact ih h
    · cases hnode : hexToBuf sibling with
      | error e =>
        rw [hnode] at h
        cases h
        rfl
      | ok node =>
        rw [hnode] at h
        exact ih h

/-- A missing or malformed seed is a failure. -/
theorem valid_of_consistencySeed_error {p : ConsistencyProof} {firstRoot : JsString}
    {r : VerificationResult} (h : consistencySeed p firstRoot = .error r) : r.valid = false := by
  rw [consistencySeed] at h
  split_ifs at h
  · cases hroot : hexToBuf firstRoot with
    | error e =>
      rw [hroot] at h
      cases h
      rfl
    | ok root =>
      rw [hroot] at h
      cases h
  · cases hpath : p.path with
    | nil =>
      rw [hpath] at h
      cases h
      rfl
    | cons node path =>
      rw [hpath] at h
      simp only at h
      cases hnode : hexToBuf node with
      | error e =>
        rw [hnode] at h
        cases h
        rfl
      | ok node =>
        rw [hnode] at h
        cases h

/-! ## What acceptance says -/

/-- **What `verifyInclusion` has checked when it accepts.** -/
theorem verifyInclusion_valid_iff {p : InclusionProof} {d : LeafData} {root : JsString} :
    (verifyInclusion p d root).valid = true ↔
      p.treeSize.le (.ofNat 0) = false ∧ p.leafIndex.lt (.ofNat 0) = false ∧
        p.treeSize.le p.leafIndex = false ∧
          ∃ sn h, inclusionLoop p.leafIndex (p.treeSize.sub (.ofNat 1)) (hashLeaf d) p.path =
            .ok (sn, h) ∧ sn.eq (.ofNat 0) = true ∧ toHex h.bytes = root := by
  rw [verifyInclusion]
  by_cases h₀ : p.treeSize.le (.ofNat 0) = true
  · simp [h₀, invalid]
  by_cases h₁ : (p.leafIndex.lt (.ofNat 0) || p.treeSize.le p.leafIndex) = true
  · rw [if_neg h₀, if_pos h₁]
    rw [Bool.or_eq_true] at h₁
    rcases h₁ with h₁ | h₁ <;> simp [h₁, invalid]
  rw [if_neg h₀, if_neg h₁]
  rw [Bool.not_eq_true, Bool.or_eq_false_iff] at h₁
  rw [Bool.not_eq_true] at h₀
  cases hloop : inclusionLoop p.leafIndex (p.treeSize.sub (.ofNat 1)) (hashLeaf d) p.path with
  | error r =>
    rw [inclusionLoop_eq _ _ (hashLeaf d)] at hloop
    cases hcons : consistencyLoop p.leafIndex (p.treeSize.sub (.ofNat 1)) (hashLeaf d) (hashLeaf d)
      p.path with
    | error r' =>
      rw [hcons] at hloop
      cases hloop
      simp [valid_of_consistencyLoop_error hcons]
    | ok q =>
      rw [hcons] at hloop
      cases hloop
  | ok q =>
    obtain ⟨sn, h⟩ := q
    simp only [h₀, h₁, true_and]
    by_cases hsn : sn.eq (.ofNat 0) = true
    · by_cases hroot : toHex h.bytes = root <;> simp [hsn, hroot]
    · rw [Bool.not_eq_true] at hsn
      simp [hsn, invalid]

/-- Where the loop of `verifyConsistency` starts. -/
def consistencyStart (p : ConsistencyProof) : Number × Number :=
  shiftWhileOdd (p.firstSize.sub (.ofNat 1)) (p.secondSize.sub (.ofNat 1))

/-- **What `verifyConsistency` has checked when it accepts different sizes, none of them zero.** -/
theorem verifyConsistency_valid_iff {p : ConsistencyProof} {firstRoot secondRoot : JsString}
    (hlt : p.secondSize.lt p.firstSize = false) (hne : p.firstSize.eq p.secondSize = false)
    (hpos : p.firstSize.eq (.ofNat 0) = false) :
    (verifyConsistency p firstRoot secondRoot).valid = true ↔
      ∃ seed path sn fr sr, consistencySeed p firstRoot = .ok (seed, path) ∧
        consistencyLoop (consistencyStart p).1 (consistencyStart p).2 seed seed path =
          .ok (sn, fr, sr) ∧
        sn.eq (.ofNat 0) = true ∧ toHex fr.bytes = firstRoot ∧ toHex sr.bytes = secondRoot := by
  rw [verifyConsistency]
  simp only [hlt, hne, hpos, Bool.false_eq_true, if_false]
  cases hseed : consistencySeed p firstRoot with
  | error r => simp [valid_of_consistencySeed_error hseed]
  | ok q =>
    obtain ⟨seed, path⟩ := q
    rw [← consistencyStart]
    cases hloop : consistencyLoop (consistencyStart p).1 (consistencyStart p).2 seed seed path with
    | error r => simp [hloop, valid_of_consistencyLoop_error hloop]
    | ok q =>
      obtain ⟨sn, fr, sr⟩ := q
      by_cases hsn : sn.eq (.ofNat 0) = true
      · by_cases hfr : toHex fr.bytes = firstRoot <;> by_cases hsr : toHex sr.bytes = secondRoot <;>
          simp [hloop, hsn, hfr, hsr]
      · rw [Bool.not_eq_true] at hsn
        simp [hloop, hsn, invalid]

end AgentEval.Evidence
