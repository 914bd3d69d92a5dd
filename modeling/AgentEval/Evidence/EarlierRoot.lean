import AgentEval.Evidence.ProofCorrect

/-!
# What an accepted consistency proof says of the earlier root

The verifier is given the earlier root beside the proof, and the proof states the sizes itself. A
proof object and a later root fix the earlier root in each branch but one: for a first size of zero
the source returns before it has looked at the earlier root.

* `firstRoot_eq_of_verifyConsistency` — with a first size that is not zero, two accepted earlier
  roots are one, up to a collision among what the two checks hash.
* `verifyConsistency_empty` — with a first size of zero and a later size above it, any earlier root
  is accepted.
-/

namespace AgentEval.Evidence

open Js Sha256 Crypto Merkle

variable {p : ConsistencyProof} {firstRoot firstRoot' secondRoot : JsString}

/-- Where the seed is read from the path, the earlier root has no say in it. -/
theorem consistencySeed_of_not_pow (firstRoot firstRoot' : JsString)
    (h : ¬ isPowerOfTwo p.firstSize = true) :
    consistencySeed p firstRoot = consistencySeed p firstRoot' := by
  rw [consistencySeed, consistencySeed, if_neg h, if_neg h]

/-- Where the earlier root is the seed, the whole path is left to read. -/
theorem consistencySeed_of_pow {seed : Digest} {path : List JsString}
    (h : isPowerOfTwo p.firstSize = true) (hseed : consistencySeed p firstRoot = .ok (seed, path)) :
    path = p.path := by
  rw [consistencySeed, if_pos h] at hseed
  cases hroot : hexToBuf firstRoot with
  | error e =>
    rw [hroot] at hseed
    cases hseed
  | ok root =>
    rw [hroot] at hseed
    cases hseed
    rfl

/-- What checking a proof hashes, after its seed has been read. -/
theorem consistencyPreimages_of_seed {seed : Digest} {path : List JsString}
    (hseed : consistencySeed p firstRoot = .ok (seed, path)) :
    consistencyPreimages p firstRoot =
      (climbInputs treeHash seed
        (loopSteps (consistencyStart p).1 (consistencyStart p).2 path)).map preimage := by
  rw [consistencyPreimages, hseed]

/-- **A proof object with a first size other than zero and a later root fix the earlier root.** -/
theorem firstRoot_eq_of_verifyConsistency (hpos : p.firstSize.eq (.ofNat 0) = false)
    (h : (verifyConsistency p firstRoot secondRoot).valid = true)
    (h' : (verifyConsistency p firstRoot' secondRoot).valid = true)
    (hS : ¬ CollisionIn sha256 (consistencyPreimages p firstRoot ++
      consistencyPreimages p firstRoot')) : firstRoot = firstRoot' := by
  cases hlt : p.secondSize.lt p.firstSize with
  | true =>
    rw [verifyConsistency, if_pos hlt] at h
    cases h
  | false =>
    cases heq : p.firstSize.eq p.secondSize with
    | true =>
      have hsame : ∀ {r : JsString}, (verifyConsistency p r secondRoot).valid = true →
          r = secondRoot := by
        intro r hr
        rw [verifyConsistency, hlt, heq] at hr
        simp only [Bool.false_eq_true, if_false, if_true] at hr
        split_ifs at hr with hpath hroots
        · cases hr
        · exact hroots
        · cases hr
      exact (hsame h).trans (hsame h').symm
    | false =>
      obtain ⟨seed, path, sn, fr, sr, hseed, hloop, -, hfr, hsr⟩ :=
        (verifyConsistency_valid_iff hlt heq hpos).mp h
      obtain ⟨seed', path', sn', fr', sr', hseed', hloop', -, hfr', hsr'⟩ :=
        (verifyConsistency_valid_iff hlt heq hpos).mp h'
      obtain ⟨hclimbf, hclimbs⟩ := consistencyLoop_eq_climb hloop
      obtain ⟨hclimbf', hclimbs'⟩ := consistencyLoop_eq_climb hloop'
      obtain ⟨rfl, rfl⟩ : seed = seed' ∧ path = path' := by
        by_cases hpow : isPowerOfTwo p.firstSize = true
        · -- the earlier root is the seed, and the later root fixes the seed
          obtain rfl := consistencySeed_of_pow hpow hseed
          obtain rfl := consistencySeed_of_pow hpow hseed'
          have hno := not_collisionIn_treeHash
            (S := climbInputs treeHash seed
                (loopSteps (consistencyStart p).1 (consistencyStart p).2 p.path) ++
              climbInputs treeHash seed'
                (loopSteps (consistencyStart p).1 (consistencyStart p).2 p.path)) hS (by
              rw [List.map_append, consistencyPreimages_of_seed hseed,
                consistencyPreimages_of_seed hseed']
              exact List.Subset.refl _)
          have hroots : climb treeHash seed
                (loopSteps (consistencyStart p).1 (consistencyStart p).2 p.path) =
              climb treeHash seed'
                (loopSteps (consistencyStart p).1 (consistencyStart p).2 p.path) := by
            rw [← hclimbs, ← hclimbs']
            exact eq_of_toHex_eq (hsr.trans hsr'.symm)
          exact ⟨(climb_injective treeHash hno rfl (List.subset_append_left ..)
            (List.subset_append_right ..) hroots).1, rfl⟩
        · rw [consistencySeed_of_not_pow firstRoot firstRoot' hpow, hseed'] at hseed
          cases hseed
          exact ⟨rfl, rfl⟩
      rw [← hfr, ← hfr', hclimbf, hclimbf']

/-- The proof objects whose earlier root is not looked at: a first size of zero, a later size that
is neither zero nor below, an empty path. -/
def IgnoresFirstRoot (p : ConsistencyProof) : Prop :=
  p.firstSize.eq (.ofNat 0) = true ∧ p.firstSize.eq p.secondSize = false ∧
    p.secondSize.lt p.firstSize = false ∧ p.path = []

/-- **Such a proof object is accepted with every earlier root.** -/
theorem verifyConsistency_empty (h : IgnoresFirstRoot p) (firstRoot secondRoot : JsString) :
    (verifyConsistency p firstRoot secondRoot).valid = true := by
  obtain ⟨hzero, heq, hlt, hpath⟩ := h
  rw [verifyConsistency, hlt, heq, hzero, hpath]
  rfl

/-- Checking such a proof object hashes nothing. -/
theorem consistencyPreimages_empty (h : IgnoresFirstRoot p) (firstRoot : JsString) :
    consistencyPreimages p firstRoot = [] := by
  obtain ⟨hzero, -, -, hpath⟩ := h
  have hpow : isPowerOfTwo p.firstSize = false := by
    rcases Number.eq_ofNat_cases (by norm_num) hzero with hfirst | ⟨hfirst, -⟩
    · rw [hfirst]
      decide +kernel
    · rw [hfirst]
      decide +kernel
  rw [consistencyPreimages, consistencySeed, hpow, hpath]
  rfl

/-- **When an accepted consistency proof binds the earlier root**: for every proof object and later
root, unless the earlier root is not looked at. -/
theorem consistency_binds_iff (p : ConsistencyProof) (secondRoot : JsString) :
    (∀ firstRoot firstRoot' : JsString, (verifyConsistency p firstRoot secondRoot).valid = true →
        (verifyConsistency p firstRoot' secondRoot).valid = true →
        firstRoot = firstRoot' ∨
          CollisionIn sha256 (consistencyPreimages p firstRoot ++
            consistencyPreimages p firstRoot')) ↔
      ¬ IgnoresFirstRoot p := by
  constructor
  · intro h hign
    rcases h (js "a") (js "b") (verifyConsistency_empty hign ..) (verifyConsistency_empty hign ..)
      with hroots | hcoll
    · exact absurd hroots (by decide)
    · rw [consistencyPreimages_empty hign, consistencyPreimages_empty hign] at hcoll
      obtain ⟨x, hx, -⟩ := hcoll
      cases hx
  · intro hign firstRoot firstRoot' h h'
    rw [or_iff_not_imp_right]
    intro hS
    cases hzero : p.firstSize.eq (.ofNat 0) with
    | false => exact firstRoot_eq_of_verifyConsistency hzero h h' hS
    | true =>
      -- a first size of zero is accepted with an equal second size only
      have hsame : ∀ {r : JsString}, (verifyConsistency p r secondRoot).valid = true →
          r = secondRoot := by
        intro r hr
        rw [verifyConsistency] at hr
        split_ifs at hr with hlt heq hpath hroots hempty
        · cases hr
        · cases hr
        · exact hroots
        · cases hr
        · exact absurd ⟨hzero, by simpa using heq, by simpa using hlt,
            List.eq_nil_of_length_eq_zero hempty⟩ hign
        · cases hr
      exact (hsame h).trans (hsame h').symm

/-- **A proof object for the empty tree vouches for two earlier roots.** -/
theorem empty_vouches_for_two :
    ¬ ∀ (p : ConsistencyProof) (firstRoot firstRoot' secondRoot : JsString),
      (verifyConsistency p firstRoot secondRoot).valid = true →
      (verifyConsistency p firstRoot' secondRoot).valid = true →
      firstRoot = firstRoot' ∨
        CollisionIn sha256 (consistencyPreimages p firstRoot ++
          consistencyPreimages p firstRoot') := by
  intro h
  have hign : IgnoresFirstRoot ⟨.ofNat 0, .ofNat 1, []⟩ := by
    refine ⟨?_, ?_, ?_, rfl⟩ <;> simp
  rcases h ⟨.ofNat 0, .ofNat 1, []⟩ (js "a") (js "b") (js "c") (verifyConsistency_empty hign ..)
    (verifyConsistency_empty hign ..) with hroots | hcoll
  · exact absurd hroots (by decide)
  · rw [consistencyPreimages_empty hign, consistencyPreimages_empty hign] at hcoll
    obtain ⟨x, hx, -⟩ := hcoll
    cases hx

end AgentEval.Evidence
