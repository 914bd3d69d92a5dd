import Mathlib.Data.Nat.Log
import Mathlib.Tactic.Ring

/-!
# The shape of an RFC 6962 tree

A tree over `n` leaves splits at the largest power of two below `n`. The path from a node to the
root is a list of directions, leaf-ward first; it can be computed from the top, by recursion on
the split, or from the bottom, by halving the position and the last index of each level.

* `split n` — the split point; **`split_half`**: the split of a level is twice the split of the
  level above it.
* `dirs m n` — the path of leaf `m` from the top; `levelDirs fn sn` — from the bottom.
  **`dirs_eq_levelDirs`**: they are the same list.
* `proofDirs m n` — the path, from the top, of the last complete subtree of the first `m` leaves;
  `lastComplete` — where that subtree sits, from the bottom.
  **`proofDirs_eq_levelDirs`**: they are the same list.

Both agreements rest on one step: pairing adjacent nodes turns a tree over `n` leaves into one over
`(n + 1) / 2` nodes with the same shape above (`dirs_half`, `proofDirs_half`).
-/

namespace Merkle

/-! ## The split point -/

/-- The largest power of two below `n`. -/
def split (n : ℕ) : ℕ := 2 ^ Nat.log 2 (n - 1)

/-- The split point is positive. -/
theorem split_pos (n : ℕ) : 0 < split n := Nat.two_pow_pos _

/-- The split point is below `n`. -/
theorem split_lt {n : ℕ} (h : 2 ≤ n) : split n < n := by
  have := Nat.pow_log_le_self 2 (show n - 1 ≠ 0 by omega)
  unfold split
  omega

/-- Twice the split point reaches `n`. -/
theorem le_two_mul_split (n : ℕ) : n ≤ 2 * split n := by
  have := Nat.lt_pow_succ_log_self (b := 2) (by norm_num) (n - 1)
  rw [pow_succ] at this
  unfold split
  omega

/-- A power of two in the right range is the split point. -/
theorem split_eq {n j : ℕ} (h₁ : 2 ^ j < n) (h₂ : n ≤ 2 * 2 ^ j) : split n = 2 ^ j := by
  have : Nat.log 2 (n - 1) = j := by
    apply Nat.log_eq_of_pow_le_of_lt_pow
    · omega
    · rw [pow_succ]
      omega
  rw [split, this]

/-- A split point is a power of two. -/
theorem exists_split_eq_pow (n : ℕ) : ∃ j, split n = 2 ^ j := ⟨_, rfl⟩

/-- **The split of a level is twice the split of the level above.** -/
theorem split_half {n : ℕ} (h : 3 ≤ n) : split n = 2 * split ((n + 1) / 2) := by
  obtain ⟨j, hj⟩ := exists_split_eq_pow ((n + 1) / 2)
  have h₁ := split_lt (n := (n + 1) / 2) (by omega)
  have h₂ := le_two_mul_split ((n + 1) / 2)
  rw [hj] at h₁ h₂ ⊢
  rw [mul_comm, ← pow_succ]
  apply split_eq <;> rw [pow_succ] <;> omega

/-- The split of two leaves. -/
@[simp] theorem split_two : split 2 = 1 := rfl

/-- Above two leaves the split is even. -/
theorem split_mod_two {n : ℕ} (h : 3 ≤ n) : split n % 2 = 0 := by
  rw [split_half h]
  omega

/-! ## The path of a leaf -/

/-- Which child a node is; its sibling is the other one. -/
inductive Dir where
  /-- A left child: the sibling is hashed on the right. -/
  | left
  /-- A right child: the sibling is hashed on the left. -/
  | right
  deriving DecidableEq

/-- The path of leaf `m` of `n`, computed from the top. -/
def dirs (m n : ℕ) : List Dir :=
  if h : n ≤ 1 then []
  else if m < split n then dirs m (split n) ++ [.left]
  else dirs (m - split n) (n - split n) ++ [.right]
termination_by n
decreasing_by
  · exact split_lt (by omega)
  · have := split_pos n
    omega

/-- The path of node `fn` of a level whose last node is `sn`, computed from the bottom. An unpaired
last node moves up without a step. -/
def levelDirs (fn sn : ℕ) : List Dir :=
  if h : sn = 0 then []
  else if fn % 2 = 1 then .right :: levelDirs (fn / 2) (sn / 2)
  else if fn = sn then levelDirs (fn / 2) (sn / 2)
  else .left :: levelDirs (fn / 2) (sn / 2)
termination_by sn

/-- The top level has no step. -/
@[simp] theorem levelDirs_zero (fn : ℕ) : levelDirs fn 0 = [] := by rw [levelDirs, dif_pos rfl]

section level

variable {fn sn : ℕ}

/-- A right child. -/
theorem levelDirs_of_odd (hpos : 0 < sn) (hodd : fn % 2 = 1) :
    levelDirs fn sn = .right :: levelDirs (fn / 2) (sn / 2) := by
  rw [levelDirs, dif_neg hpos.ne', if_pos hodd]

/-- A left child. -/
theorem levelDirs_of_even (hpos : 0 < sn) (heven : fn % 2 = 0) (hne : fn ≠ sn) :
    levelDirs fn sn = .left :: levelDirs (fn / 2) (sn / 2) := by
  rw [levelDirs, dif_neg hpos.ne', if_neg (by omega), if_neg hne]

/-- An unpaired last node. -/
theorem levelDirs_last (hpos : 0 < sn) (heven : sn % 2 = 0) :
    levelDirs sn sn = levelDirs (sn / 2) (sn / 2) := by
  conv_lhs => rw [levelDirs, dif_neg hpos.ne', if_neg (by omega), if_pos rfl]

end level

/-- A single leaf is the root. -/
theorem dirs_of_le_one {n : ℕ} (m : ℕ) (h : n ≤ 1) : dirs m n = [] := by
  rw [dirs, dif_pos h]

/-- The path of a leaf of the left subtree. -/
theorem dirs_of_lt_split {m n : ℕ} (h : 2 ≤ n) (hm : m < split n) :
    dirs m n = dirs m (split n) ++ [.left] := by
  rw [dirs, dif_neg (by omega), if_pos hm]

/-- The path of a leaf of the right subtree. -/
theorem dirs_of_split_le {m n : ℕ} (h : 2 ≤ n) (hm : split n ≤ m) :
    dirs m n = dirs (m - split n) (n - split n) ++ [.right] := by
  rw [dirs, dif_neg (by omega), if_neg (by omega)]

/-- The step from a leaf to the level above, none for an unpaired last leaf. -/
def firstStep (m n : ℕ) : List Dir :=
  if m % 2 = 1 then [.right] else if m + 1 < n then [.left] else []

/-- **One level up**: the path of a leaf is its step to the level above and the path from there. -/
theorem dirs_half {n : ℕ} (h : 2 ≤ n) {m : ℕ} (hm : m < n) :
    dirs m n = firstStep m n ++ dirs (m / 2) ((n + 1) / 2) := by
  induction n using Nat.strong_induction_on generalizing m with
  | _ n ih =>
    rcases h.eq_or_lt with rfl | h3
    · have hm01 : m = 0 ∨ m = 1 := by omega
      rcases hm01 with rfl | rfl
      · rw [dirs_of_lt_split le_rfl (by simp), dirs_of_le_one _ (by simp),
          dirs_of_le_one _ (by norm_num)]
        rfl
      · rw [dirs_of_split_le le_rfl (by simp), dirs_of_le_one _ (by simp),
          dirs_of_le_one _ (by norm_num)]
        rfl
    · have hk := split_half h3
      have hlt := split_lt h
      have hpos := split_pos ((n + 1) / 2)
      set k := split ((n + 1) / 2) with hkdef
      by_cases hmk : m < split n
      · have hstep : firstStep m (split n) = firstStep m n := by
          unfold firstStep
          split_ifs <;> first | rfl | omega
        rw [dirs_of_lt_split h hmk, ih _ hlt (by omega) hmk, hstep,
          show (split n + 1) / 2 = k by omega, List.append_assoc,
          dirs_of_lt_split (m := m / 2) (n := (n + 1) / 2) (by omega) (by omega)]
      · rw [not_lt] at hmk
        rw [dirs_of_split_le h hmk,
          dirs_of_split_le (m := m / 2) (n := (n + 1) / 2) (by omega) (by omega), ← hkdef]
        by_cases hone : n - split n = 1
        · -- the right subtree is the unpaired last leaf, which moves up without a step
          have hstep : firstStep m n = [] := by
            unfold firstStep
            rw [if_neg (by omega), if_neg (by omega)]
          rw [hstep, hone, dirs_of_le_one _ le_rfl, dirs_of_le_one _ (by omega)]
          rfl
        · have hstep : firstStep (m - split n) (n - split n) = firstStep m n := by
            unfold firstStep
            split_ifs <;> first | rfl | omega
          rw [ih (n - split n) (by omega) (by omega) (by omega), hstep,
            show (m - split n) / 2 = m / 2 - k by omega,
            show (n - split n + 1) / 2 = (n + 1) / 2 - k by omega, List.append_assoc]

/-- **The two computations of the path of a leaf agree.** -/
theorem dirs_eq_levelDirs {n : ℕ} {m : ℕ} (hm : m < n) : dirs m n = levelDirs m (n - 1) := by
  induction n using Nat.strong_induction_on generalizing m with
  | _ n ih =>
    rcases (show n = 1 ∨ 2 ≤ n by omega) with rfl | h
    · rw [dirs_of_le_one _ le_rfl, levelDirs, dif_pos (by rfl)]
    · rw [dirs_half h hm, ih ((n + 1) / 2) (by omega) (by omega),
        show (n + 1) / 2 - 1 = (n - 1) / 2 by omega]
      conv_rhs => rw [levelDirs, dif_neg (by omega)]
      unfold firstStep
      split_ifs <;> first | rfl | omega

/-! ## The path of the last complete subtree -/

/-- The path, computed from the top, of the last complete subtree among the first `m` of `n`
leaves. -/
def proofDirs (m n : ℕ) : List Dir :=
  if h : n ≤ m ∨ n ≤ 1 then []
  else if m ≤ split n then proofDirs m (split n) ++ [.left]
  else proofDirs (m - split n) (n - split n) ++ [.right]
termination_by n
decreasing_by
  · exact split_lt (by omega)
  · have := split_pos n
    omega

/-- Where the last complete subtree among the leaves up to `fn` sits: halve while `fn` is odd. -/
def lastComplete (fn sn : ℕ) : ℕ × ℕ :=
  if h : fn % 2 = 1 then lastComplete (fn / 2) (sn / 2) else (fn, sn)
termination_by fn

/-- The last complete subtree sits on some level of the tree. -/
theorem lastComplete_le {fn sn : ℕ} (h : fn ≤ sn) :
    (lastComplete fn sn).1 ≤ (lastComplete fn sn).2 ∧ (lastComplete fn sn).2 ≤ sn := by
  induction fn using Nat.strong_induction_on generalizing sn with
  | _ fn ih =>
    rw [lastComplete]
    split_ifs with hodd
    · obtain ⟨h₁, h₂⟩ := ih (fn / 2) (by omega) (show fn / 2 ≤ sn / 2 by omega)
      exact ⟨h₁, by omega⟩
    · exact ⟨h, le_rfl⟩

/-- The whole tree is its own last complete subtree. -/
theorem proofDirs_of_le {m n : ℕ} (h : n ≤ m) : proofDirs m n = [] := by
  rw [proofDirs, dif_pos (Or.inl h)]

/-- The prefix lies in the left subtree. -/
theorem proofDirs_of_le_split {m n : ℕ} (h : m < n) (hn : 2 ≤ n) (hm : m ≤ split n) :
    proofDirs m n = proofDirs m (split n) ++ [.left] := by
  rw [proofDirs, dif_neg (by omega), if_pos hm]

/-- The prefix reaches into the right subtree. -/
theorem proofDirs_of_split_lt {m n : ℕ} (h : m < n) (hm : split n < m) :
    proofDirs m n = proofDirs (m - split n) (n - split n) ++ [.right] := by
  have := split_pos n
  rw [proofDirs, dif_neg (by omega), if_neg (by omega)]

/-- With an odd prefix the last complete subtree is the last leaf of the prefix. -/
theorem proofDirs_of_odd {n : ℕ} {m : ℕ} (hodd : m % 2 = 1) (hm : m < n ∨ m = 1 ∧ n = 1) :
    proofDirs m n = dirs (m - 1) n := by
  induction n using Nat.strong_induction_on generalizing m with
  | _ n ih =>
    rcases hm with hm | ⟨rfl, rfl⟩
    · have hn : 2 ≤ n := by omega
      have hlt := split_lt hn
      by_cases hmk : m ≤ split n
      · have hcase : m < split n ∨ m = 1 ∧ split n = 1 := by
          rcases hmk.lt_or_eq with h | h
          · exact Or.inl h
          · -- an odd split point is one
            rcases (show n = 2 ∨ 3 ≤ n by omega) with rfl | h3
            · exact Or.inr ⟨by simpa using h, rfl⟩
            · have := split_mod_two h3
              omega
        rw [proofDirs_of_le_split hm hn hmk, ih _ hlt hodd hcase,
          dirs_of_lt_split hn (by omega)]
      · rw [not_le] at hmk
        have h3 : 3 ≤ n := by
          rcases (show n = 2 ∨ 3 ≤ n by omega) with rfl | h3
          · simp at hmk
            omega
          · exact h3
        have heven := split_mod_two h3
        have hpos := split_pos n
        rw [proofDirs_of_split_lt hm hmk, ih (n - split n) (by omega) (by omega) (by omega),
          dirs_of_split_le (m := m - 1) hn (by omega)]
        congr 2
        omega
    · rw [proofDirs_of_le le_rfl, dirs_of_le_one _ le_rfl]

/-- **One level up**: with an even prefix the last complete subtree is found one level up. -/
theorem proofDirs_half {n : ℕ} {m : ℕ} (hpos : 0 < m) (hm : 2 * m ≤ n) :
    proofDirs (2 * m) n = proofDirs m ((n + 1) / 2) := by
  induction n using Nat.strong_induction_on generalizing m with
  | _ n ih =>
    rcases hm.eq_or_lt with rfl | hlt
    · rw [proofDirs_of_le le_rfl, proofDirs_of_le (by omega)]
    · have h3 : 3 ≤ n := by omega
      have hk := split_half h3
      have hsn := split_lt (n := n) (by omega)
      have hkpos := split_pos ((n + 1) / 2)
      set k := split ((n + 1) / 2) with hkdef
      by_cases hmk : m ≤ k
      · rw [proofDirs_of_le_split hlt (by omega) (by omega), ih _ hsn hpos (by omega),
          proofDirs_of_le_split (m := m) (n := (n + 1) / 2) (by omega) (by omega) (by omega),
          ← hkdef, show (split n + 1) / 2 = k by omega]
      · rw [proofDirs_of_split_lt hlt (by omega),
          proofDirs_of_split_lt (m := m) (n := (n + 1) / 2) (by omega) (by omega), ← hkdef,
          show 2 * m - split n = 2 * (m - k) by omega,
          ih (n - split n) (by omega) (by omega) (by omega),
          show (n - split n + 1) / 2 = (n + 1) / 2 - k by omega]

/-- **The two computations of the path of the last complete subtree agree.** -/
theorem proofDirs_eq_levelDirs {m : ℕ} {n : ℕ} (hpos : 0 < m) (hm : m < n) :
    proofDirs m n =
      levelDirs (lastComplete (m - 1) (n - 1)).1 (lastComplete (m - 1) (n - 1)).2 := by
  induction m using Nat.strong_induction_on generalizing n with
  | _ m ih =>
    rcases Nat.mod_two_eq_zero_or_one m with heven | hodd
    · obtain ⟨i, rfl⟩ : ∃ i, m = 2 * i := ⟨m / 2, by omega⟩
      have hstep : lastComplete (2 * i - 1) (n - 1) = lastComplete (i - 1) ((n + 1) / 2 - 1) := by
        rw [lastComplete, dif_pos (by omega), show (2 * i - 1) / 2 = i - 1 by omega,
          show (n - 1) / 2 = (n + 1) / 2 - 1 by omega]
      rw [proofDirs_half (by omega) hm.le, ih i (by omega) (by omega) (by omega), hstep]
    · rw [proofDirs_of_odd hodd (Or.inl hm), dirs_eq_levelDirs (by omega), lastComplete,
        dif_neg (by omega)]

/-! ## Powers of two -/

/-- Whether the path of the last complete subtree has left steps only. -/
theorem right_notMem_proofDirs_iff {n : ℕ} {m : ℕ} (hpos : 0 < m) (hm : m < n) :
    Dir.right ∉ proofDirs m n ↔ ∃ j, m = 2 ^ j := by
  induction n using Nat.strong_induction_on generalizing m with
  | _ n ih =>
    have hn : 2 ≤ n := by omega
    have hlt := split_lt hn
    by_cases hmk : m ≤ split n
    · rw [proofDirs_of_le_split hm hn hmk]
      rcases hmk.lt_or_eq with h | h
      · rw [List.mem_append, not_or, ih _ hlt hpos h]
        simp
      · obtain ⟨j, hj⟩ := exists_split_eq_pow n
        rw [proofDirs_of_le h.ge]
        simp only [List.nil_append, List.mem_singleton, reduceCtorEq, not_false_eq_true, true_iff]
        exact ⟨j, h.trans hj⟩
    · rw [not_le] at hmk
      rw [proofDirs_of_split_lt hm hmk]
      simp only [List.mem_append, List.mem_singleton, or_true, not_true_eq_false, false_iff]
      rintro ⟨j, rfl⟩
      -- no power of two lies strictly between the split and `n`
      obtain ⟨i, hi⟩ := exists_split_eq_pow n
      have h2 := le_two_mul_split n
      rw [hi] at hmk h2
      have hij : i < j := (Nat.pow_lt_pow_iff_right (by norm_num)).mp hmk
      have : 2 ^ (i + 1) ≤ 2 ^ j := Nat.pow_le_pow_right (by norm_num) hij
      rw [pow_succ] at this
      omega

end Merkle
