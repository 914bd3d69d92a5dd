import Mathlib.Algebra.BigOperators.Field
import Mathlib.Algebra.Order.Floor.Ring
import Mathlib.Analysis.SpecialFunctions.Log.Basic
import Mathlib.Data.Nat.Choose.Cast
import AgentEval.Counting.Draws
import AgentEval.Js.Decimal
import AgentEval.Scoring.Resolution

/-!
# `scoring/estimators.ts`: what passes of `k` attempts

Over the numbers of any ordered field; `Math.log` and `Math.exp` are parameters. `-Infinity` is
`none`.

* **`passAtK_eq`**, **`passPowK_eq`**: the products are quotients of binomial coefficients.
* **`gPassAtK_eq`**: over the reals, the sum is the share of the draws with enough successes.
-/

namespace AgentEval.Scoring

open Js Finset

section

variable {F : Type} [Field F]

/-- Source: `estimators.ts`, `assertSample` -/
def assertSample (n c k : ℕ) : Except (RangeError F) Unit :=
  if n ≤ 0 then .error ⟨[.text (js "n must be a positive integer, got " ++ natDigits n)]⟩
  else if n < c then
    .error ⟨[.text (js "c must be an integer in [0, " ++ natDigits n ++ js "], got " ++
      natDigits c)]⟩
  else if k ≤ 0 then .error ⟨[.text (js "k must be a positive integer, got " ++ natDigits k)]⟩
  else if n < k then
    .error ⟨[.text (js "k=" ++ natDigits k ++ js " exceeds n=" ++ natDigits n ++
      js ": pass@k cannot be estimated from fewer samples than attempts")]⟩
  else .ok ()

/-- Source: `estimators.ts`, `passAtK` -/
def passAtK (n c k : ℕ) : Except (RangeError F) F := do
  assertSample n c k
  if n - c < k then return 1
  else
    let product := (List.range' (n - c + 1) c).foldl
      (fun (product : F) (i : ℕ) => product * (1 - k / i)) 1
    return 1 - product

/-- Source: `estimators.ts`, `passPowK` -/
def passPowK (n c k : ℕ) : Except (RangeError F) F := do
  assertSample n c k
  if c < k then return 0
  else
    let product := (List.range k).foldl
      (fun (product : F) (i : ℕ) => product * ((c - i) / (n - i))) 1
    return product

variable (exp log : F → F)

/-- `log(n!)`, summed up.
Source: `estimators.ts`, `logFactorial` -/
def logFactorial : ℕ → F
  | 0 => 0
  | 1 => 0
  | n + 2 => logFactorial (n + 1) + log (n + 2 : ℕ)

/-- `log C(n, k)`.
Source: `estimators.ts`, `logChoose` -/
def logChoose (n k : ℕ) : Option F :=
  if n < k then none
  else some (logFactorial log n - logFactorial log k - logFactorial log (n - k))

/-- The logarithm of the share of the draws with exactly `j` successes.
Source: `estimators.ts`, `gPassAtK`, `logTerm` -/
def logTerm (n c k j : ℕ) : Option F := do
  let successes ← logChoose log c j
  let failures ← logChoose log (n - c) (k - j)
  let logDenominator ← logChoose log n k
  return successes + failures - logDenominator

variable [LinearOrder F] [FloorRing F]

/-- Source: `estimators.ts`, `gPassAtK` -/
def gPassAtK (n c k : ℕ) (tau : F) : Except (RangeError F) F := do
  assertSample n c k
  if tau < 0 ∨ 1 < tau then
    throw ⟨[.text (js "tau must be in [0, 1], got "), .number tau]⟩
  else
    let threshold := ⌈tau * k⌉
    if threshold ≤ 0 then return 1
    else if k < threshold then return 0
    else
      let first := threshold.toNat
      let total := (List.range' first (min k c + 1 - first)).foldl
        (fun (total : F) (j : ℕ) => (logTerm log n c k j).elim total fun t => total + exp t) 0
      return min 1 (max 0 total)

/-- Source: `estimators.ts`, `mGPassAtK` -/
def mGPassAtK (n c k : ℕ) : Except (RangeError F) F := do
  assertSample n c k
  let start := k / 2 + 1
  let total ← (List.range' start (k + 1 - start)).foldlM
    (fun (total : F) (i : ℕ) => do return total + (← gPassAtK exp log n c k (i / k))) 0
  return min 1 (max 0 (2 / k * total))

end

/-! ## What the loops compute -/

section

variable {F : Type} [Field F] {n c k : ℕ}

omit [Field F] in
/-- A sample that passes the checks. -/
theorem assertSample_eq (hc : c ≤ n) (hk : 1 ≤ k) (hkn : k ≤ n) :
    (assertSample n c k : Except (RangeError F) Unit) = .ok () := by
  unfold assertSample
  rw [if_neg (by omega), if_neg (by omega), if_neg (by omega), if_neg (by omega)]

/-- A product that is computed in a loop. -/
theorem foldl_mul_eq_prod (f : ℕ → F) (start length : ℕ) :
    (List.range' start length).foldl (fun product i => product * f i) 1 =
      ∏ i ∈ Ico start (start + length), f i := by
  induction length with
  | zero => simp
  | succ length ih =>
    rw [List.range'_concat, List.foldl_append, ih, Nat.one_mul, ← Nat.add_assoc,
      prod_Ico_succ_top (Nat.le_add_right start length)]
    rfl

/-- A sum that is computed in a loop. -/
theorem foldl_add_eq_sum (f : ℕ → F) (start length : ℕ) :
    (List.range' start length).foldl (fun total i => total + f i) 0 =
      ∑ i ∈ Ico start (start + length), f i := by
  induction length with
  | zero => simp
  | succ length ih =>
    rw [List.range'_concat, List.foldl_append, ih, Nat.one_mul, ← Nat.add_assoc,
      sum_Ico_succ_top (Nat.le_add_right start length)]
    rfl

variable [CharZero F]

/-- The product behind `pass@k`. -/
theorem prod_one_sub_div (m c : ℕ) (hm : k ≤ m) :
    ∏ i ∈ Ico (m + 1) (m + 1 + c), (1 - (k : F) / i) = m.choose k / (m + c).choose k := by
  induction c with
  | zero =>
    have hpos : (m.choose k : F) ≠ 0 := Nat.cast_ne_zero.mpr (Nat.choose_pos hm).ne'
    rw [Nat.add_zero, Ico_self, prod_empty, Nat.add_zero, div_self hpos]
  | succ c ih =>
    have hpos : ((m + c).choose k : F) ≠ 0 :=
      Nat.cast_ne_zero.mpr (Nat.choose_pos (hm.trans (Nat.le_add_right m c))).ne'
    have hpos' : ((m + c + 1).choose k : F) ≠ 0 :=
      Nat.cast_ne_zero.mpr (Nat.choose_pos (by omega)).ne'
    have hsucc : ((m + c + 1 : ℕ) : F) ≠ 0 := Nat.cast_ne_zero.mpr (Nat.succ_ne_zero _)
    have hstep : ((m + c).choose k : F) * (m + c + 1 : ℕ) =
        (m + c + 1).choose k * ((m + c + 1 : ℕ) - k) := by
      rw [← Nat.cast_sub (by omega), ← Nat.cast_mul, ← Nat.cast_mul, Nat.choose_mul_succ_eq]
    rw [← Nat.add_assoc, prod_Ico_succ_top (by omega), ih, show m + 1 + c = m + c + 1 by omega,
      ← Nat.add_assoc, one_sub_div hsucc, div_mul_div_comm, div_eq_div_iff
        (mul_ne_zero hpos hsucc) hpos', mul_assoc, hstep]
    ring

/-- The product behind `pass^k`. -/
theorem prod_sub_div (hkc : k ≤ c) (hc : c ≤ n) :
    ∏ i ∈ range k, ((c : F) - i) / ((n : F) - i) = c.choose k / n.choose k := by
  have hfalling : ∀ m : ℕ, k ≤ m → ∏ i ∈ range k, ((m : F) - i) = k.factorial * m.choose k := by
    intro m hm
    rw [← Nat.cast_mul, ← Nat.descFactorial_eq_factorial_mul_choose,
      Nat.descFactorial_eq_prod_range, Nat.cast_prod]
    apply prod_congr rfl
    intro i hi
    rw [Nat.cast_sub ((mem_range.mp hi).le.trans hm)]
  have hfactorial : (k.factorial : F) ≠ 0 := Nat.cast_ne_zero.mpr k.factorial_ne_zero
  rw [prod_div_distrib, hfalling c hkc, hfalling n (hkc.trans hc),
    mul_div_mul_left _ _ hfactorial]

/-- `pass@k`. -/
theorem passAtK_eq (hc : c ≤ n) (hk : 1 ≤ k) (hkn : k ≤ n) :
    (passAtK n c k : Except (RangeError F) F) = .ok (1 - (n - c).choose k / n.choose k) := by
  unfold passAtK
  rw [assertSample_eq hc hk hkn]
  by_cases hfew : n - c < k
  · rw [Nat.choose_eq_zero_of_lt hfew, Nat.cast_zero, zero_div, sub_zero]
    exact if_pos hfew
  · have hproduct := foldl_mul_eq_prod (fun i => 1 - (k : F) / i) (n - c + 1) c
    rw [prod_one_sub_div _ _ (not_lt.mp hfew), Nat.sub_add_cancel hc] at hproduct
    rw [← hproduct]
    exact if_neg hfew

/-- `pass^k`. -/
theorem passPowK_eq (hc : c ≤ n) (hk : 1 ≤ k) (hkn : k ≤ n) :
    (passPowK n c k : Except (RangeError F) F) = .ok (c.choose k / n.choose k) := by
  unfold passPowK
  rw [assertSample_eq hc hk hkn]
  by_cases hfew : c < k
  · rw [Nat.choose_eq_zero_of_lt hfew, Nat.cast_zero, zero_div]
    exact if_pos hfew
  · have hproduct := foldl_mul_eq_prod (fun i => ((c : F) - i) / (n - i)) 0 k
    rw [← List.range_eq_range', Nat.zero_add, ← range_eq_Ico, prod_sub_div (not_lt.mp hfew) hc]
      at hproduct
    rw [← hproduct]
    exact if_neg hfew

end

/-! ## Logarithms of binomial coefficients -/

section

variable {n c k j : ℕ}

/-- The summed logarithms. -/
theorem logFactorial_eq (n : ℕ) : logFactorial Real.log n = Real.log n.factorial := by
  induction n using logFactorial.induct with
  | case1 => simp [logFactorial]
  | case2 => simp [logFactorial]
  | case3 n ih =>
    have hn : ((n + 2 : ℕ) : ℝ) ≠ 0 := Nat.cast_ne_zero.mpr (Nat.succ_ne_zero _)
    have hfactorial : ((n + 1).factorial : ℝ) ≠ 0 := Nat.cast_ne_zero.mpr (Nat.factorial_ne_zero _)
    rw [logFactorial, ih, Nat.factorial_succ (n + 1), Nat.cast_mul, Real.log_mul hn hfactorial,
      add_comm]

/-- A possible choice. -/
theorem logChoose_eq (h : k ≤ n) : logChoose Real.log n k = some (Real.log (n.choose k)) := by
  have hfactorial : ∀ m : ℕ, (m.factorial : ℝ) ≠ 0 := fun m =>
    Nat.cast_ne_zero.mpr m.factorial_ne_zero
  unfold logChoose
  rw [if_neg (not_lt.mpr h), logFactorial_eq, logFactorial_eq, logFactorial_eq,
    Nat.cast_choose ℝ h, Real.log_div (hfactorial n) (mul_ne_zero (hfactorial k) (hfactorial _)),
    Real.log_mul (hfactorial k) (hfactorial _), sub_sub]

/-- An impossible one. -/
theorem logChoose_of_lt (h : n < k) : logChoose Real.log n k = none := if_pos h

/-- What a term adds to the sum. -/
theorem elim_logTerm (hj : j ≤ c) (hkn : k ≤ n) (total : ℝ) :
    (logTerm Real.log n c k j).elim total (fun t => total + Real.exp t) =
      total + (Draws.ways c (n - c) k j : ℝ) / n.choose k := by
  unfold logTerm Draws.ways
  rw [logChoose_eq hj, logChoose_eq hkn]
  by_cases hfew : n - c < k - j
  · rw [logChoose_of_lt hfew, Nat.choose_eq_zero_of_lt hfew]
    simp
  · have hpos : ∀ {m i : ℕ}, i ≤ m → (0 : ℝ) < m.choose i := fun h =>
      Nat.cast_pos.mpr (Nat.choose_pos h)
    rw [logChoose_eq (not_lt.mp hfew)]
    change total + Real.exp (_ + _ - _) = _
    rw [Real.exp_sub, Real.exp_add, Real.exp_log (hpos hj), Real.exp_log (hpos (not_lt.mp hfew)),
      Real.exp_log (hpos hkn), Nat.cast_mul]

/-- The share of the draws with `m` successes or more. -/
noncomputable def share (n c k m : ℕ) : ℝ := (Draws.atLeast c (n - c) k m : ℝ) / n.choose k

/-- The sum from a threshold on. -/
theorem foldl_logTerm (hkn : k ≤ n) (first : ℕ) :
    (List.range' first (min k c + 1 - first)).foldl
      (fun total j => (logTerm Real.log n c k j).elim total fun t => total + Real.exp t) 0 =
      share n c k first := by
  have hcongr : (List.range' first (min k c + 1 - first)).foldl
      (fun total j => (logTerm Real.log n c k j).elim total fun t => total + Real.exp t) 0 =
      (List.range' first (min k c + 1 - first)).foldl
        (fun total j => total + (Draws.ways c (n - c) k j : ℝ) / n.choose k) 0 := by
    apply List.foldl_ext
    intro total j hj
    rw [List.mem_range'_1] at hj
    exact elim_logTerm (by omega) hkn total
  -- beyond `c` there is nothing to add
  have hall : ∑ j ∈ Ico first (first + (min k c + 1 - first)), Draws.ways c (n - c) k j =
      Draws.atLeast c (n - c) k first := by
    unfold Draws.atLeast
    apply sum_subset
    · intro j hj
      rw [mem_Ico] at hj
      rw [mem_Icc]
      omega
    · intro j hj hnot
      rw [mem_Icc] at hj
      rw [mem_Ico] at hnot
      unfold Draws.ways
      rw [Nat.choose_eq_zero_of_lt (by omega), Nat.zero_mul]
  unfold share
  rw [hcongr, foldl_add_eq_sum, ← sum_div, ← hall, Nat.cast_sum]

section

variable {m m' : ℕ}

/-- A share is not negative. -/
theorem share_nonneg (n c k m : ℕ) : 0 ≤ share n c k m :=
  div_nonneg (Nat.cast_nonneg _) (Nat.cast_nonneg _)

/-- A higher bound leaves a smaller share. -/
theorem share_antitone (h : m ≤ m') : share n c k m' ≤ share n c k m := by
  unfold share
  apply div_le_div_of_nonneg_right _ (Nat.cast_nonneg _)
  exact Nat.cast_le.mpr (Draws.atLeast_antitone c (n - c) k h)

/-- The share of all draws. -/
theorem share_zero (hc : c ≤ n) (hkn : k ≤ n) : share n c k 0 = 1 := by
  unfold share
  rw [Draws.atLeast_zero, Nat.add_sub_cancel' hc]
  exact div_self (Nat.cast_ne_zero.mpr (Nat.choose_pos hkn).ne')

/-- A share is at most `1`. -/
theorem share_le_one (hc : c ≤ n) (hkn : k ≤ n) : share n c k m ≤ 1 :=
  (share_antitone (Nat.zero_le m)).trans_eq (share_zero hc hkn)

/-- The share of the draws with a success. -/
theorem share_one (hc : c ≤ n) (hkn : k ≤ n) :
    share n c k 1 = 1 - (n - c).choose k / n.choose k := by
  have hpos : (n.choose k : ℝ) ≠ 0 := Nat.cast_ne_zero.mpr (Nat.choose_pos hkn).ne'
  have hsum := Draws.choose_add_atLeast_one c (n - c) k
  rw [Nat.add_sub_cancel' hc] at hsum
  unfold share
  rw [one_sub_div hpos, ← hsum, Nat.cast_add, add_sub_cancel_left]

/-- The share of the draws of successes only. -/
theorem share_self : share n c k k = c.choose k / n.choose k := by
  unfold share
  rw [Draws.atLeast_self]

end

/-- `G-pass@k` at a threshold. -/
theorem gPassAtK_eq (hc : c ≤ n) (hk : 1 ≤ k) (hkn : k ≤ n) {tau : ℝ} (hlow : 0 ≤ tau)
    (hhigh : tau ≤ 1) :
    gPassAtK Real.exp Real.log n c k tau = .ok (share n c k ⌈tau * k⌉₊) := by
  have hnonneg : 0 ≤ tau * k := mul_nonneg hlow (Nat.cast_nonneg k)
  have hthreshold : ⌈tau * k⌉ = (⌈tau * k⌉₊ : ℤ) := (Int.natCast_ceil_eq_ceil hnonneg).symm
  have hle : ⌈tau * k⌉₊ ≤ k := Nat.ceil_le.mpr (mul_le_of_le_one_left (Nat.cast_nonneg k) hhigh)
  unfold gPassAtK
  rw [assertSample_eq hc hk hkn, hthreshold]
  dsimp only [bind, Except.bind]
  rw [if_neg (not_or.mpr ⟨not_lt.mpr hlow, not_lt.mpr hhigh⟩),
    if_neg (not_lt.mpr (Nat.cast_le.mpr hle)), Int.toNat_natCast, foldl_logTerm hkn]
  split_ifs with hzero
  · have : ⌈tau * k⌉₊ = 0 := by omega
    rw [this, share_zero hc hkn]
    rfl
  · rw [max_eq_right (share_nonneg n c k _), min_eq_right (share_le_one hc hkn)]
    rfl

end

end AgentEval.Scoring
