import AgentEval.Scoring.Estimators

/-!
# The estimators and what they estimate

* **`estimators_eq`**: the estimators are shares of the draws of `k` samples: of those with a
  success, of those of successes only, and of those with enough successes.
* **`mGPassAtK_between_iff`**: `mG-pass@k` is never below `pass^k`. For an even number of attempts it
  is not above `pass@k`; for an odd one, where one threshold too many is averaged, it may be.
-/

namespace AgentEval.Scoring

open Js Finset

variable {n c k : ℕ}

/-- The estimators and their definitions. -/
theorem estimators_eq (hc : c ≤ n) (hk : 1 ≤ k) (hkn : k ≤ n) {tau : ℝ} (hlow : 0 ≤ tau)
    (hhigh : tau ≤ 1) :
    passAtK n c k = .ok (1 - (n - c).choose k / n.choose k : ℝ) ∧
      passPowK n c k = .ok (c.choose k / n.choose k : ℝ) ∧
      gPassAtK Real.exp Real.log n c k tau =
        .ok (((∑ j ∈ Icc ⌈tau * k⌉₊ k, c.choose j * (n - c).choose (k - j) : ℕ) : ℝ) /
          n.choose k) ∧
      (⌈tau * k⌉₊ = 1 → gPassAtK Real.exp Real.log n c k tau = passAtK n c k) ∧
      (⌈tau * k⌉₊ = k → gPassAtK Real.exp Real.log n c k tau = passPowK n c k) ∧
      ∀ tau', tau ≤ tau' → tau' ≤ 1 → ∃ rate rate',
        gPassAtK Real.exp Real.log n c k tau = .ok rate ∧
          gPassAtK Real.exp Real.log n c k tau' = .ok rate' ∧ rate' ≤ rate := by
  have htail := gPassAtK_eq hc hk hkn hlow hhigh
  refine ⟨passAtK_eq hc hk hkn, passPowK_eq hc hk hkn, htail, ?_, ?_, ?_⟩
  · intro hone
    rw [htail, hone, share_one hc hkn, passAtK_eq hc hk hkn]
  · intro hall
    rw [htail, hall, share_self, passPowK_eq hc hk hkn]
  · intro tau' hle hhigh'
    refine ⟨_, _, htail, gPassAtK_eq hc hk hkn (hlow.trans hle) hhigh', ?_⟩
    apply share_antitone
    apply Nat.ceil_le_ceil
    exact mul_le_mul_of_nonneg_right hle (Nat.cast_nonneg k)

/-- Forty samples, eight attempts, half of which have to succeed. -/
theorem estimators_forty :
    passAtK 40 25 8 = .ok (1 - (40 - 25).choose 8 / (40 : ℕ).choose 8 : ℝ) ∧
      passPowK 40 25 8 = .ok ((25 : ℕ).choose 8 / (40 : ℕ).choose 8 : ℝ) ∧
      gPassAtK Real.exp Real.log 40 25 8 (1 / 2) =
        .ok (((∑ j ∈ Icc ⌈(1 / 2 : ℝ) * (8 : ℕ)⌉₊ 8,
          (25).choose j * (40 - 25).choose (8 - j) : ℕ) : ℝ) / (40 : ℕ).choose 8) ∧
      (⌈(1 / 2 : ℝ) * (8 : ℕ)⌉₊ = 1 → gPassAtK Real.exp Real.log 40 25 8 (1 / 2) =
        passAtK 40 25 8) ∧
      (⌈(1 / 2 : ℝ) * (8 : ℕ)⌉₊ = 8 → gPassAtK Real.exp Real.log 40 25 8 (1 / 2) =
        passPowK 40 25 8) ∧
      ∀ tau', 1 / 2 ≤ tau' → tau' ≤ 1 → ∃ rate rate',
        gPassAtK Real.exp Real.log 40 25 8 (1 / 2) = .ok rate ∧
          gPassAtK Real.exp Real.log 40 25 8 tau' = .ok rate' ∧ rate' ≤ rate :=
  estimators_eq (by decide) (by decide) (by decide) (by norm_num) (by norm_num)

/-! ## The average over thresholds -/

/-- A loop that may throw, and does not. -/
theorem foldlM_of_ok {F : Type} {f : F → ℕ → Except (RangeError F) F} {g : F → ℕ → F}
    {l : List ℕ} (h : ∀ total, ∀ i ∈ l, f total i = .ok (g total i)) (total : F) :
    l.foldlM f total = .ok (l.foldl g total) := by
  induction l generalizing total with
  | nil => rfl
  | cons i l ih =>
    rw [List.foldlM_cons, h total i List.mem_cons_self, List.foldl_cons,
      ← ih fun total j hj => h total j (List.mem_cons_of_mem i hj)]
    rfl

/-- `G-pass@k` at the threshold of so many successes. -/
theorem gPassAtK_div (hc : c ≤ n) (hk : 1 ≤ k) (hkn : k ≤ n) {i : ℕ} (hi : i ≤ k) :
    gPassAtK Real.exp Real.log n c k ((i : ℝ) / k) = .ok (share n c k i) := by
  have hpos : (0 : ℝ) < k := Nat.cast_pos.mpr hk
  have hone : (i : ℝ) / k ≤ 1 := (div_le_one₀ hpos).mpr (Nat.cast_le.mpr hi)
  rw [gPassAtK_eq hc hk hkn (by positivity) hone, div_mul_cancel₀ _ hpos.ne', Nat.ceil_natCast]

/-- The sum over the thresholds above half of the attempts. -/
noncomputable def upperShares (n c k : ℕ) : ℝ := ∑ i ∈ Icc (k / 2 + 1) k, share n c k i

/-- `mG-pass@k`. -/
theorem mGPassAtK_eq (hc : c ≤ n) (hk : 1 ≤ k) (hkn : k ≤ n) :
    mGPassAtK Real.exp Real.log n c k = .ok (min 1 (2 / k * upperShares n c k)) := by
  have hloop : (List.range' (k / 2 + 1) (k + 1 - (k / 2 + 1))).foldlM
      (fun (total : ℝ) (i : ℕ) => do
        return total + (← gPassAtK Real.exp Real.log n c k ((i : ℝ) / k))) 0 =
      .ok (upperShares n c k) := by
    rw [foldlM_of_ok (g := fun total i => total + share n c k i), foldl_add_eq_sum]
    · unfold upperShares
      rw [show k / 2 + 1 + (k + 1 - (k / 2 + 1)) = k + 1 by omega]
      rfl
    · intro total i hi
      rw [List.mem_range'_1] at hi
      rw [gPassAtK_div hc hk hkn (by omega)]
      rfl
  have hnonneg : 0 ≤ 2 / (k : ℝ) * upperShares n c k := by
    have := sum_nonneg fun i (_ : i ∈ Icc (k / 2 + 1) k) => share_nonneg n c k i
    unfold upperShares
    positivity
  unfold mGPassAtK
  rw [assertSample_eq hc hk hkn]
  dsimp only [bind, Except.bind] at hloop ⊢
  rw [hloop]
  dsimp only
  rw [max_eq_right hnonneg]
  rfl

/-- The average is not below the share of successes only. -/
theorem share_self_le (hc : c ≤ n) (hk : 1 ≤ k) (hkn : k ≤ n) :
    share n c k k ≤ min 1 (2 / k * upperShares n c k) := by
  have hpos : (0 : ℝ) < k := Nat.cast_pos.mpr hk
  have hcount : (k : ℝ) / 2 ≤ (k + 1 - (k / 2 + 1) : ℕ) := by
    rw [div_le_iff₀ two_pos]
    exact_mod_cast (by omega : k ≤ (k + 1 - (k / 2 + 1)) * 2)
  have hsum : (k + 1 - (k / 2 + 1) : ℕ) * share n c k k ≤ upperShares n c k := by
    have := card_nsmul_le_sum (Icc (k / 2 + 1) k) (share n c k) (share n c k k) fun i hi =>
      share_antitone (mem_Icc.mp hi).2
    rwa [Nat.card_Icc, nsmul_eq_mul] at this
  apply le_min (share_le_one hc hkn)
  calc share n c k k = 2 / k * (k / 2 * share n c k k) := by field_simp
    _ ≤ 2 / k * ((k + 1 - (k / 2 + 1) : ℕ) * share n c k k) := by
      have := share_nonneg n c k k
      gcongr
    _ ≤ 2 / k * upperShares n c k := by gcongr

/-- For an even number of attempts it is not above the share with a success. -/
theorem le_share_one_of_even (hk : 1 ≤ k) (heven : Even k) :
    2 / k * upperShares n c k ≤ share n c k 1 := by
  have hpos : (0 : ℝ) < k := Nat.cast_pos.mpr hk
  have hcount : ((k + 1 - (k / 2 + 1) : ℕ) : ℝ) = k / 2 := by
    obtain ⟨h, rfl⟩ := heven
    rw [show h + h + 1 - ((h + h) / 2 + 1) = h by omega]
    push_cast
    ring
  have hsum : upperShares n c k ≤ (k + 1 - (k / 2 + 1) : ℕ) * share n c k 1 := by
    have := sum_le_card_nsmul (Icc (k / 2 + 1) k) (share n c k) (share n c k 1) fun i hi =>
      share_antitone ((Nat.le_add_left 1 (k / 2)).trans (mem_Icc.mp hi).1)
    rwa [Nat.card_Icc, nsmul_eq_mul] at this
  calc 2 / k * upperShares n c k ≤ 2 / k * ((k + 1 - (k / 2 + 1) : ℕ) * share n c k 1) := by gcongr
    _ = share n c k 1 := by
      rw [hcount]
      field_simp

/-- All draws have a success when there are too few failures. -/
theorem one_le_share_one_iff (hc : c ≤ n) (hkn : k ≤ n) : 1 ≤ share n c k 1 ↔ n - c < k := by
  have hpos : (0 : ℝ) < n.choose k := Nat.cast_pos.mpr (Nat.choose_pos hkn)
  rw [share_one hc hkn, le_sub_self_iff, div_le_iff₀ hpos, zero_mul, ← Nat.choose_eq_zero_iff]
  exact_mod_cast Nat.le_zero

/-- For an odd number of attempts. -/
theorem le_share_one_iff (hk : 1 ≤ k) (hkn : k ≤ n) (hodd : ¬Even k) :
    2 / k * upperShares n c k ≤ share n c k 1 ↔
      c.choose k ≤ ∑ j ∈ Ico 1 k, Draws.lack k j * Draws.ways c (n - c) k j := by
  have hpos : (0 : ℝ) < k := Nat.cast_pos.mpr hk
  have hall : (0 : ℝ) < n.choose k := Nat.cast_pos.mpr (Nat.choose_pos hkn)
  have hhalf : k + 1 = 2 * (k / 2 + 1) := by
    have := Nat.not_even_iff.mp hodd
    omega
  have hupper : upperShares n c k =
      ((∑ i ∈ Icc (k / 2 + 1) k, Draws.atLeast c (n - c) k i : ℕ) : ℝ) / n.choose k := by
    unfold upperShares share
    rw [← sum_div, Nat.cast_sum]
  rw [← Draws.sum_atLeast_le_iff c (n - c) k hhalf, hupper, share, ← mul_div_assoc,
    div_le_div_iff_of_pos_right hall, div_mul_eq_mul_div, div_le_iff₀ hpos, mul_comm _ (k : ℝ)]
  exact_mod_cast Iff.rfl

/-- When the average is between the extremes. -/
theorem mGPassAtK_between_iff (hc : c ≤ n) (hk : 1 ≤ k) (hkn : k ≤ n) :
    (∃ low mid high : ℝ, passPowK n c k = .ok low ∧ mGPassAtK Real.exp Real.log n c k = .ok mid ∧
        passAtK n c k = .ok high ∧ low ≤ mid ∧ mid ≤ high) ↔
      Even k ∨ n - c < k ∨ c.choose k ≤
        ∑ j ∈ Ico 1 k, min k (2 * (k - j) - 1) * (c.choose j * (n - c).choose (k - j)) := by
  have hlow : (passPowK n c k : Except (RangeError ℝ) ℝ) = .ok (share n c k k) := by
    rw [passPowK_eq hc hk hkn, share_self]
  have hhigh : (passAtK n c k : Except (RangeError ℝ) ℝ) = .ok (share n c k 1) := by
    rw [passAtK_eq hc hk hkn, share_one hc hkn]
  have hupper : min 1 (2 / k * upperShares n c k) ≤ share n c k 1 ↔
      Even k ∨ n - c < k ∨ c.choose k ≤
        ∑ j ∈ Ico 1 k, Draws.lack k j * Draws.ways c (n - c) k j := by
    rw [min_le_iff, one_le_share_one_iff hc hkn]
    by_cases heven : Even k
    · exact iff_of_true (Or.inr (le_share_one_of_even hk heven)) (Or.inl heven)
    · rw [le_share_one_iff hk hkn heven, or_iff_right heven]
  rw [hlow, hhigh, mGPassAtK_eq hc hk hkn]
  unfold Draws.lack Draws.ways at hupper
  rw [← hupper]
  constructor
  · rintro ⟨low, mid, high, h₁, h₂, h₃, -, hle⟩
    rwa [Except.ok.inj h₂, Except.ok.inj h₃]
  · intro hle
    exact ⟨_, _, _, rfl, rfl, rfl, share_self_le hc hk hkn, hle⟩

/-- One success in four samples, one attempt: twice the rate of success. -/
theorem mGPassAtK_one_of_four :
    ¬∃ low mid high : ℝ, passPowK 4 1 1 = .ok low ∧ mGPassAtK Real.exp Real.log 4 1 1 = .ok mid ∧
      passAtK 4 1 1 = .ok high ∧ low ≤ mid ∧ mid ≤ high := by
  have hshare : share 4 1 1 1 = 1 / 4 := by
    rw [share_one (by decide) (by decide)]
    norm_num [Nat.choose]
  have hupper : upperShares 4 1 1 = 1 / 4 := by
    unfold upperShares
    rw [show 1 / 2 + 1 = 1 by rfl, Icc_self, sum_singleton, hshare]
  rintro ⟨low, mid, high, -, h₂, h₃, -, hle⟩
  rw [mGPassAtK_eq (by decide) le_rfl (by decide), hupper] at h₂
  rw [passAtK_eq (by decide) le_rfl (by decide)] at h₃
  rw [← Except.ok.inj h₂, ← Except.ok.inj h₃] at hle
  norm_num [Nat.choose] at hle

/-- Forty samples, eight attempts. -/
theorem mGPassAtK_forty :
    (∃ low mid high : ℝ, passPowK 40 25 8 = .ok low ∧
        mGPassAtK Real.exp Real.log 40 25 8 = .ok mid ∧ passAtK 40 25 8 = .ok high ∧
        low ≤ mid ∧ mid ≤ high) ↔
      Even 8 ∨ 40 - 25 < 8 ∨ (25).choose 8 ≤
        ∑ j ∈ Ico 1 8, min 8 (2 * (8 - j) - 1) * ((25).choose j * (40 - 25).choose (8 - j)) :=
  mGPassAtK_between_iff (by decide) (by decide) (by decide)

end AgentEval.Scoring
