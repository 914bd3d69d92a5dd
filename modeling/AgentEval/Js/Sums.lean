import AgentEval.Js.Extremes
import Mathlib.Data.Int.Log

/-!
# Sums of Numbers between zero and one

A sum of values in `[0, 1]` is no more than their number, and no more than `2 ^ 53`, where it stops
growing. So their mean is in `[0, 1]`, however often it is rounded.
-/

namespace Js.Number

/-- A Number in `[0, 1]`. -/
def InUnit (x : Number) : Prop := x.isFinite = true ∧ 0 ≤ x.toRat ∧ x.toRat ≤ 1

variable {a b : Number}

/-- The sum of two finite Numbers. -/
theorem add_eq (ha : a.isFinite = true) (hb : b.isFinite = true) :
    a.add b = ofRat (a.toRat + b.toRat) ∨ a.add b = negZero ∧ a.toRat + b.toRat = 0 := by
  cases a with
  | nan => cases ha
  | infinity s => cases ha
  | negZero =>
    cases b with
    | nan => cases hb
    | infinity s => cases hb
    | negZero =>
      right
      refine ⟨?_, zero_add 0⟩
      change negZero.sub (ofNat 0) = negZero
      rw [ofNat_zero]
      rfl
    | finite y =>
      left
      change negZero.sub (if y.val = 0 then negZero else finite y.neg) = ofRat (0 + y.val)
      rw [zero_add]
      split_ifs with hy
      · rw [hy]
        change ofRat (0 - 0) = _
        rw [sub_zero]
      · change (if -y.val = 0 then negZero else ofRat (- -y.val)) = _
        rw [if_neg (neg_ne_zero.mpr hy), neg_neg]
  | finite x =>
    left
    cases b with
    | nan => cases hb
    | infinity s => cases hb
    | negZero =>
      change (finite x).sub (ofNat 0) = ofRat (x.val + 0)
      rw [ofNat_zero, sub_finite, sub_zero, add_zero]
    | finite y =>
      change (finite x).sub (if y.val = 0 then negZero else finite y.neg) = ofRat (x.val + y.val)
      split_ifs with hy
      · rw [hy, add_zero]
        change ofRat (x.val - 0) = _
        rw [sub_zero]
      · rw [sub_finite, Double.neg_val, sub_neg_eq_add]

/-- One more than `2 ^ 53` is rounded to it. -/
theorem roundQ_two_pow_add_one : roundQ (2 ^ 53 + 1) = 2 ^ 53 := by
  have hne : (2 ^ 53 + 1 : ℚ) ≠ 0 := by norm_num
  have hexp : ulpExp (2 ^ 53 + 1) = 1 := by
    have hcast : |(2 ^ 53 + 1 : ℚ)| = ((2 ^ 53 + 1 : ℕ) : ℚ) := by norm_num
    have hlog : Nat.log 2 (2 ^ 53 + 1) = 53 := by
      rw [Nat.log_eq_iff (by norm_num)]
      norm_num
    rw [ulpExp_of_ne_zero hne, hcast, Int.log_natCast, hlog]
    norm_num
  unfold roundQ
  rw [hexp, zpow_one]
  have hhalf : roundHalfEven ((2 ^ 53 + 1) / 2) = 2 ^ 52 := by
    have hfloor : ⌊((2 : ℚ) ^ 53 + 1) / 2⌋ = 2 ^ 52 := by
      rw [Int.floor_eq_iff]
      norm_num
    unfold roundHalfEven
    rw [hfloor]
    norm_num
  rw [hhalf]
  norm_num

/-- A value of at most `1` more keeps a sum below the number of values, and below `2 ^ 53`. -/
theorem roundQ_le_of_le {q : ℚ} (hq : 0 ≤ q) {k : ℕ} (h : q ≤ k + 1) (h' : q ≤ 2 ^ 53 + 1) :
    roundQ q ≤ k + 1 ∧ roundQ q ≤ 2 ^ 53 := by
  have hcast : ((k : ℚ) + 1) = ((k + 1 : ℕ) : ℚ) := by push_cast; rfl
  rcases Nat.lt_or_ge (2 ^ 53) (k + 1) with hgt | hle
  · have hround := roundQ_mono hq h'
    rw [roundQ_two_pow_add_one] at hround
    refine ⟨hround.trans ?_, hround⟩
    rw [hcast]
    exact_mod_cast hgt.le
  · have hdouble : IsDouble ((k : ℚ) + 1) := by
      rw [hcast]
      rcases hle.lt_or_eq with hlt | heq
      · exact isDouble_natCast hlt
      · rw [heq]
        exact ⟨1, 53, by norm_num, by norm_num, by norm_num, by norm_num⟩
    have hround := le_roundQ_of_isDouble hdouble.neg (neg_le_neg h)
    rw [roundQ_neg, neg_le_neg_iff] at hround
    refine ⟨hround, hround.trans ?_⟩
    rw [hcast]
    exact_mod_cast hle

/-- A bounded sum. -/
theorem add_bounded (ha : a.isFinite = true) (ha0 : 0 ≤ a.toRat) {k : ℕ} (hak : a.toRat ≤ k)
    (hcap : a.toRat ≤ 2 ^ 53) (hb : b.InUnit) : (a.add b).isFinite = true ∧ 0 ≤ (a.add b).toRat ∧
      (a.add b).toRat ≤ k + 1 ∧ (a.add b).toRat ≤ 2 ^ 53 := by
  have hsum0 := add_nonneg ha0 hb.2.1
  have hsum : a.toRat + b.toRat ≤ 2 ^ 53 + 1 := add_le_add hcap hb.2.2
  rcases add_eq ha hb.1 with h | ⟨h, -⟩
  · have hround := roundQ_le_of_le hsum0 (add_le_add hak hb.2.2) hsum
    have hdouble : IsDouble (2 ^ 53 + 2) :=
      ⟨2 ^ 52 + 1, 1, by norm_num, by norm_num, by norm_num, by norm_num⟩
    obtain ⟨x, hx, hval⟩ := exists_ofRat_eq hsum0 hdouble (hsum.trans (by norm_num))
    rw [h, hx]
    refine ⟨rfl, ?_, ?_⟩
    · change 0 ≤ x.val
      rw [hval]
      exact roundQ_nonneg hsum0
    · change x.val ≤ _ ∧ x.val ≤ _
      rwa [hval]
  · rw [h]
    exact ⟨rfl, le_rfl, by positivity, by positivity⟩

/-- **A sum of values in `[0, 1]`.** -/
theorem sum_bounded {xs : List Number} (hxs : ∀ x ∈ xs, x.InUnit) :
    (sum xs).isFinite = true ∧ 0 ≤ (sum xs).toRat ∧ (sum xs).toRat ≤ xs.length ∧
      (sum xs).toRat ≤ 2 ^ 53 := by
  have hfrom : ∀ (a : Number) (k : ℕ), a.isFinite = true → 0 ≤ a.toRat → a.toRat ≤ k →
      a.toRat ≤ 2 ^ 53 → (xs.foldl add a).isFinite = true ∧ 0 ≤ (xs.foldl add a).toRat ∧
        (xs.foldl add a).toRat ≤ ((k + xs.length : ℕ) : ℚ) ∧ (xs.foldl add a).toRat ≤ 2 ^ 53 := by
    induction xs with
    | nil => exact fun a k ha ha0 hak hcap => ⟨ha, ha0, hak, hcap⟩
    | cons x xs ih =>
      intro a k ha ha0 hak hcap
      rw [List.forall_mem_cons] at hxs
      obtain ⟨hadd, hadd0, haddk, haddcap⟩ := add_bounded ha ha0 hak hcap hxs.1
      rw [List.foldl_cons, List.length_cons, Nat.add_comm xs.length, ← Nat.add_assoc]
      refine ih hxs.2 _ (k + 1) hadd hadd0 ?_ haddcap
      rwa [Nat.cast_add, Nat.cast_one]
  obtain ⟨hzero, hzero'⟩ := @isFinite_ofNat 0 (by norm_num)
  rw [Nat.cast_zero] at hzero'
  have := hfrom (ofNat 0) 0 hzero hzero'.ge (hzero'.trans_le (Nat.cast_nonneg _))
    (hzero'.trans_le (by norm_num))
  rwa [Nat.zero_add] at this

/-- **The mean of values in `[0, 1]` is in `[0, 1]`.** -/
theorem inUnit_mean {xs : List Number} (hne : xs ≠ []) (hxs : ∀ x ∈ xs, x.InUnit) :
    ((sum xs).div (ofNat xs.length)).InUnit := by
  obtain ⟨hfinite, hnonneg, hle, hcap⟩ := sum_bounded hxs
  have hlength : 0 < xs.length := List.length_pos_of_ne_nil hne
  have hzero : ∀ s, (zero s).InUnit := by
    rintro (_ | _)
    · rw [zero, if_neg (by simp), ofNat_zero]
      exact ⟨rfl, le_rfl, zero_le_one⟩
    · exact ⟨rfl, le_rfl, zero_le_one⟩
  rcases ofNat_cases xs.length with ⟨d, hd, hlow⟩ | hinf
  · have hbound : (sum xs).toRat ≤ d.val := by
      rw [← roundQ_of_ofRat hd]
      rcases Nat.lt_or_ge xs.length (2 ^ 53) with hlt | hge
      · exact hle.trans (le_roundQ_of_isDouble (isDouble_natCast hlt) le_rfl)
      · refine hcap.trans (le_roundQ_of_isDouble ?_ ?_)
        · exact ⟨1, 53, by norm_num, by norm_num, by norm_num, by norm_num⟩
        · exact_mod_cast hge
    have hpos : 0 < d.val := by
      have := hlow 1 (by norm_num) hlength
      rw [Nat.cast_one] at this
      linarith
    have hquotient : ∀ q : ℚ, 0 ≤ q → q ≤ d.val → (ofRat (q / d.val)).InUnit := by
      intro q hq hqd
      have hone : q / d.val ≤ 1 := (div_le_one hpos).mpr hqd
      have hnn : 0 ≤ q / d.val := div_nonneg hq hpos.le
      obtain ⟨x, hx, hval⟩ := exists_ofRat_eq hnn isDouble_one hone
      obtain ⟨hfin, hle1⟩ := ofRat_of_abs_le_one (abs_le.mpr ⟨by linarith, hone⟩)
      refine ⟨hfin, ?_, hle1⟩
      rw [hx]
      change 0 ≤ x.val
      rw [hval]
      exact roundQ_nonneg hnn
    rw [hd]
    generalize sum xs = s at *
    cases s with
    | nan => cases hfinite
    | infinity t => cases hfinite
    | negZero =>
      have hdiv : negZero.div (finite d) = if d.val = 0 then
          (if (0 : ℚ) = 0 then nan else infinity (true != (finite d).signBit))
        else if (0 : ℚ) = 0 then zero (true != (finite d).signBit) else ofRat (0 / d.val) := rfl
      rw [hdiv, if_neg hpos.ne', if_pos rfl]
      exact hzero _
    | finite x =>
      rw [div_finite, if_neg hpos.ne']
      split_ifs
      · exact hzero _
      · exact hquotient x.val hnonneg hbound
  · rw [hinf]
    generalize sum xs = s at *
    cases s with
    | nan => cases hfinite
    | infinity t => cases hfinite
    | negZero => exact hzero _
    | finite x => exact hzero _

end Js.Number
