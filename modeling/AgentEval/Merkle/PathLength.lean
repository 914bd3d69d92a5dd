import AgentEval.Merkle.Shape
import Mathlib.Data.Nat.Prime.Basic
import Mathlib.Data.Nat.Size

/-!
# How long the paths of an RFC 6962 tree are

The lengths of audit paths and consistency proofs, by the recursion on the split that defines the
paths, and computed from the bottom, where they are counts over binary digits.

* `auditLength m n`, `proofLength m n` — the lengths of `PATH(m, D[n])` and `PROOF(m, D[n])`;
  `auditLength_eq`, `proofLength_eq`: those of the directions of `Shape`.
* **`length_levelDirs_add`**: where the positions agree from bit `k` on, the path is that of the
  low bits followed by that of the high ones; `lt_length_levelDirs`: where they do not, there is a
  step on each of the levels up to `k`.
* `length_levelDirs_self_eq_one_iff` — the last node of a level has one step exactly when its
  position is a power of two; `length_levelDirs_zero` — the first node has one for each bit.
-/

namespace Merkle

/-! ## Lengths from the top -/

/-- The length of `PATH(m, D[n])`. -/
def auditLength (m n : ℕ) : ℕ :=
  if h : n ≤ 1 then 0
  else if m < split n then auditLength m (split n) + 1
  else auditLength (m - split n) (n - split n) + 1
termination_by n
decreasing_by
  · exact split_lt (by omega)
  · have := split_pos n
    omega

/-- The length of `SUBPROOF(m, D[n], b)`. -/
def subproofLength (m n : ℕ) (b : Bool) : ℕ :=
  if h : n ≤ m ∨ n ≤ 1 then if b then 0 else 1
  else if m ≤ split n then subproofLength m (split n) b + 1
  else subproofLength (m - split n) (n - split n) false + 1
termination_by n
decreasing_by
  · exact split_lt (by omega)
  · have := split_pos n
    omega

/-- The length of `PROOF(m, D[n])`. -/
def proofLength (m n : ℕ) : ℕ := subproofLength m n true

/-- An audit path has one node for each direction of the leaf's path. -/
theorem auditLength_eq (m n : ℕ) : auditLength m n = (dirs m n).length := by
  induction n using Nat.strong_induction_on generalizing m with
  | _ n ih =>
    rw [auditLength, dirs]
    split_ifs with h hm
    · rfl
    · rw [ih _ (split_lt (by omega)), List.length_append, List.length_singleton]
    · have := split_pos n
      rw [ih _ (by omega), List.length_append, List.length_singleton]

/-- A subproof has one node for each direction, and the subtree it starts from unless the verifier
has that. -/
theorem subproofLength_eq (m n : ℕ) (b : Bool) :
    subproofLength m n b =
      (proofDirs m n).length + if b = true ∧ Dir.right ∉ proofDirs m n then 0 else 1 := by
  induction n using Nat.strong_induction_on generalizing m b with
  | _ n ih =>
    by_cases h : n ≤ m ∨ n ≤ 1
    · rw [subproofLength, proofDirs, dif_pos h, dif_pos h]
      simp
    · by_cases hm : m ≤ split n
      · rw [subproofLength, proofDirs, dif_neg h, dif_neg h, if_pos hm, if_pos hm,
          ih _ (split_lt (by omega))]
        simp only [List.length_append, List.length_singleton, List.mem_append, List.mem_singleton,
          reduceCtorEq, or_false]
        omega
      · have := split_pos n
        rw [subproofLength, proofDirs, dif_neg h, dif_neg h, if_neg hm, if_neg hm,
          ih _ (by omega)]
        simp

/-- A consistency proof has one node for each direction of the last complete subtree's path, and
that subtree unless the earlier tree is complete. -/
theorem proofLength_eq {m n : ℕ} (hpos : 0 < m) (hm : m < n) [Decidable (∃ j, m = 2 ^ j)] :
    proofLength m n = (proofDirs m n).length + if ∃ j, m = 2 ^ j then 0 else 1 := by
  rw [proofLength, subproofLength_eq]
  simp only [true_and, right_notMem_proofDirs_iff hpos hm]

/-! ## Lengths from the bottom -/

/-- The step of a level, none for an unpaired last node. -/
def stepCount (fn sn : ℕ) : ℕ := if fn % 2 = 1 ∨ fn ≠ sn then 1 else 0

/-- The length of a path, one level after another. -/
theorem length_levelDirs_succ {fn sn : ℕ} (hpos : 0 < sn) :
    (levelDirs fn sn).length = stepCount fn sn + (levelDirs (fn / 2) (sn / 2)).length := by
  rw [levelDirs, dif_neg hpos.ne', stepCount]
  split_ifs <;> simp_all <;> omega

/-- **The path of a node that shares the high bits of the last one**: the path of the low bits, and
then that of the high ones. -/
theorem length_levelDirs_add {k : ℕ} {fn sn : ℕ} (hle : fn ≤ sn) (h : fn / 2 ^ k = sn / 2 ^ k) :
    (levelDirs fn sn).length =
      (levelDirs (fn % 2 ^ k) (sn % 2 ^ k)).length +
        (levelDirs (sn / 2 ^ k) (sn / 2 ^ k)).length := by
  induction k generalizing fn sn with
  | zero =>
    rw [pow_zero, Nat.div_one, Nat.div_one] at h
    rw [h]
    simp [Nat.mod_one]
  | succ k ih =>
    rcases Nat.eq_zero_or_pos sn with rfl | hpos
    · simp
    · have hdiv : fn / 2 / 2 ^ k = sn / 2 / 2 ^ k := by
        rwa [Nat.div_div_eq_div_mul, Nat.div_div_eq_div_mul, ← pow_succ']
      have hfn : fn % 2 ^ (k + 1) / 2 = fn / 2 % 2 ^ k := by
        rw [pow_succ', Nat.mod_mul_right_div_self]
      have hsn : sn % 2 ^ (k + 1) / 2 = sn / 2 % 2 ^ k := by
        rw [pow_succ', Nat.mod_mul_right_div_self]
      have hparity : fn % 2 ^ (k + 1) % 2 = fn % 2 :=
        Nat.mod_mod_of_dvd _ (dvd_pow_self 2 (Nat.succ_ne_zero k))
      have hf := Nat.div_add_mod fn (2 ^ (k + 1))
      have hs := Nat.div_add_mod sn (2 ^ (k + 1))
      have hhigh : sn / 2 / 2 ^ k = sn / 2 ^ (k + 1) := by
        rw [Nat.div_div_eq_div_mul, ← pow_succ']
      rw [length_levelDirs_succ hpos, ih (by omega) hdiv, hhigh, ← add_assoc]
      congr 1
      rcases Nat.eq_zero_or_pos (sn % 2 ^ (k + 1)) with hlow | hlow
      · -- the low bits are all zero, here and at the last node
        have hsame : fn = sn := by rw [h] at hf; omega
        subst hsame
        have heven : fn % 2 = 0 := by rw [← hparity, hlow]
        rw [← hsn, hlow, stepCount, if_neg (by simp [heven])]
        simp
      · have hcount : stepCount (fn % 2 ^ (k + 1)) (sn % 2 ^ (k + 1)) = stepCount fn sn := by
          have hne : fn % 2 ^ (k + 1) ≠ sn % 2 ^ (k + 1) ↔ fn ≠ sn := by
            rw [h] at hf
            omega
          simp only [stepCount, hparity, hne]
        rw [length_levelDirs_succ hlow, hcount, hfn, hsn]

/-- **The path of a node that is separated from the last one above level `k`** has a step on each
level up to `k`. -/
theorem lt_length_levelDirs {k : ℕ} {fn sn : ℕ} (h : fn / 2 ^ k < sn / 2 ^ k) :
    k < (levelDirs fn sn).length := by
  induction k generalizing fn sn with
  | zero =>
    rw [pow_zero, Nat.div_one, Nat.div_one] at h
    rw [length_levelDirs_succ (by omega), stepCount, if_pos (Or.inr h.ne)]
    omega
  | succ k ih =>
    rw [pow_succ', ← Nat.div_div_eq_div_mul, ← Nat.div_div_eq_div_mul] at h
    have hlt : fn < sn := by
      by_contra hge
      exact absurd (Nat.div_le_div_right (Nat.div_le_div_right (not_lt.mp hge))) (not_le.mpr h)
    have hrec := ih h
    rw [length_levelDirs_succ (by omega), stepCount, if_pos (Or.inr hlt.ne)]
    omega

/-- The number of bits of a positive number is one more than that of its half. -/
theorem size_eq_size_half {n : ℕ} (h : 0 < n) : n.size = (n / 2).size + 1 := by
  conv_lhs => rw [← Nat.bit_bodd_div2 n]
  rw [Nat.size_bit (by rw [Nat.bit_bodd_div2]; exact h.ne'), Nat.div2_val]

/-- The first node has a step for each bit of the last position. -/
theorem length_levelDirs_zero (sn : ℕ) : (levelDirs 0 sn).length = sn.size := by
  induction sn using Nat.strong_induction_on with
  | _ sn ih =>
    rcases Nat.eq_zero_or_pos sn with rfl | hpos
    · simp
    · rw [length_levelDirs_succ hpos, stepCount, if_pos (Or.inr hpos.ne), Nat.zero_div,
        ih _ (by omega), size_eq_size_half hpos, add_comm]

/-- No path is longer than the number of bits of the last position. -/
theorem length_levelDirs_le (fn sn : ℕ) : (levelDirs fn sn).length ≤ sn.size := by
  induction sn using Nat.strong_induction_on generalizing fn with
  | _ sn ih =>
    rcases Nat.eq_zero_or_pos sn with rfl | hpos
    · simp
    · have hrec := ih (sn / 2) (by omega) (fn / 2)
      rw [length_levelDirs_succ hpos, size_eq_size_half hpos, stepCount]
      split_ifs <;> omega

/-- The last node has a step as soon as its position is positive. -/
theorem length_levelDirs_self_pos {sn : ℕ} (h : 0 < sn) : 0 < (levelDirs sn sn).length := by
  induction sn using Nat.strong_induction_on with
  | _ sn ih =>
    rw [length_levelDirs_succ h, stepCount]
    split_ifs with hodd
    · omega
    · have := ih (sn / 2) (by omega) (by omega)
      omega

/-- The last node has a single step exactly when its position is a power of two. -/
theorem length_levelDirs_self_eq_one_iff {sn : ℕ} :
    (levelDirs sn sn).length = 1 ↔ ∃ j, sn = 2 ^ j := by
  induction sn using Nat.strong_induction_on with
  | _ sn ih =>
    rcases Nat.eq_zero_or_pos sn with rfl | hpos
    · simp only [levelDirs_zero, List.length_nil, zero_ne_one, false_iff, not_exists]
      exact fun j => (Nat.two_pow_pos j).ne
    rw [length_levelDirs_succ hpos, stepCount]
    by_cases hodd : sn % 2 = 1
    · rw [if_pos (Or.inl hodd)]
      constructor
      · intro h
        have hhalf : ¬ 0 < sn / 2 := fun hhalf => by
          have := length_levelDirs_self_pos hhalf
          omega
        exact ⟨0, by rw [pow_zero]; omega⟩
      · rintro ⟨j, rfl⟩
        rcases j with - | j
        · simp
        · rw [pow_succ] at hodd
          omega
    · rw [if_neg (by simp [hodd]), zero_add, ih (sn / 2) (by omega)]
      constructor
      · rintro ⟨j, hj⟩
        exact ⟨j + 1, by rw [pow_succ]; omega⟩
      · rintro ⟨j, rfl⟩
        rcases j with - | j
        · simp at hodd
        · exact ⟨j, by rw [pow_succ]; omega⟩

/-! ## Trailing ones -/

/-- A number that ends in `t` ones above which the next bit is zero. -/
def EndsInOnes (n t : ℕ) : Prop := n % 2 ^ t = 2 ^ t - 1 ∧ n / 2 ^ t % 2 = 0

/-- Every number ends in some ones. -/
theorem exists_endsInOnes (n : ℕ) : ∃ t, EndsInOnes n t := by
  induction n using Nat.strong_induction_on with
  | _ n ih =>
    rcases Nat.mod_two_eq_zero_or_one n with heven | hodd
    · exact ⟨0, by simp [EndsInOnes, Nat.mod_one, heven]⟩
    · obtain ⟨t, hmod, hdiv⟩ := ih (n / 2) (by omega)
      have hpos := Nat.two_pow_pos t
      refine ⟨t + 1, ?_, ?_⟩
      · rw [pow_succ', Nat.mod_mul, hodd, hmod]
        omega
      · rwa [pow_succ', ← Nat.div_div_eq_div_mul]

/-- The last complete subtree sits above the trailing ones. -/
theorem lastComplete_eq {fn t : ℕ} (sn : ℕ) (h : EndsInOnes fn t) :
    lastComplete fn sn = (fn / 2 ^ t, sn / 2 ^ t) := by
  induction t generalizing fn sn with
  | zero =>
    obtain ⟨-, hdiv⟩ := h
    rw [pow_zero, Nat.div_one] at hdiv
    rw [lastComplete, dif_neg (by omega)]
    simp
  | succ t ih =>
    obtain ⟨hmod, hdiv⟩ := h
    have hpos := Nat.two_pow_pos t
    rw [pow_succ', Nat.mod_mul] at hmod
    have hodd : fn % 2 = 1 := by omega
    have hhalf : EndsInOnes (fn / 2) t := by
      refine ⟨by omega, ?_⟩
      rwa [Nat.div_div_eq_div_mul, ← pow_succ']
    rw [lastComplete, dif_pos hodd, ih (sn / 2) hhalf, Nat.div_div_eq_div_mul,
      Nat.div_div_eq_div_mul, ← pow_succ']

/-- The successor is a power of two exactly when there is nothing above the trailing ones. -/
theorem succ_eq_pow_iff {n t : ℕ} (h : EndsInOnes n t) : (∃ j, n + 1 = 2 ^ j) ↔ n / 2 ^ t = 0 := by
  obtain ⟨hmod, hdiv⟩ := h
  have hpos := Nat.two_pow_pos t
  have hsum := Nat.div_add_mod n (2 ^ t)
  have hsucc : n + 1 = 2 ^ t * (n / 2 ^ t + 1) := by
    rw [Nat.mul_add, mul_one]
    omega
  constructor
  · rintro ⟨j, hj⟩
    rw [hsucc] at hj
    obtain ⟨i, -, hi⟩ := (Nat.dvd_prime_pow Nat.prime_two).mp (Dvd.intro_left _ hj)
    rcases i with - | i
    · simpa using hi
    · rw [pow_succ] at hi
      omega
  · intro hzero
    exact ⟨t, by rw [hsucc, hzero, zero_add, mul_one]⟩

/-- Trailing ones do not reach into the high bits when the low ones do not all stand. -/
theorem EndsInOnes.of_mod {n k t : ℕ} (h : EndsInOnes (n % 2 ^ k) t) (ht : t < k) :
    EndsInOnes n t := by
  obtain ⟨hmod, hdiv⟩ := h
  refine ⟨?_, ?_⟩
  · rwa [Nat.mod_mod_of_dvd _ (pow_dvd_pow 2 ht.le)] at hmod
  · obtain ⟨i, rfl⟩ : ∃ i, k = t + (i + 1) := ⟨k - t - 1, by omega⟩
    rw [pow_add, Nat.mod_mul_right_div_self, Nat.mod_mod_of_dvd _ (dvd_pow_self 2 (by omega))] at hdiv
    exact hdiv

/-- There are no more trailing ones than bits. -/
theorem EndsInOnes.pow_le {n t : ℕ} (h : EndsInOnes n t) : 2 ^ t ≤ n + 1 := by
  have hle := Nat.mod_le n (2 ^ t)
  rw [h.1] at hle
  omega

end Merkle
