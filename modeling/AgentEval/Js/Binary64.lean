import Mathlib.Algebra.Order.Field.Power
import Mathlib.Algebra.Order.Round
import Mathlib.Data.Int.Log
import Mathlib.Data.Rat.Floor
import Mathlib.Tactic.Linarith
import Mathlib.Tactic.Positivity
import Mathlib.Tactic.Ring
import Mathlib.Tactic.FieldSimp
import Mathlib.Tactic.NormNum

/-!
# Binary64: the finite doubles as rationals, and rounding to them

* `IsDouble q` — `q` is the value of a finite binary64 number: `m * 2 ^ e` with a 53-bit
  significand and an exponent between `-1074` and `971`.
* `roundHalfEven x` — the integer nearest to `x`, ties to even.
* `roundQ q` — `q` rounded to the binary64 grid of its binade, with no upper bound on the
  exponent; the value is a double as soon as it is below `2 ^ 1024` (`isDouble_roundQ`).
* **`roundQ_of_isDouble`**: a double is its own rounding.
* **`le_roundQ_of_isDouble`**: rounding never crosses a double, so a comparison against a double
  may be made before or after the rounding.
-/

namespace Js

/-- What the literal `2` of a field rests on. -/
instance two_atLeastTwo : Nat.AtLeastTwo 2 := ⟨le_rfl⟩

/-- `q` is the value of a finite binary64 number. -/
def IsDouble (q : ℚ) : Prop :=
  ∃ m e : ℤ, |m| < 2 ^ 53 ∧ -1074 ≤ e ∧ e ≤ 971 ∧ q = m * 2 ^ e

/-- The exponent of the unit in the last place of the binade of `q`; zero counts as subnormal. -/
def ulpExp (q : ℚ) : ℤ := if q = 0 then -1074 else max (Int.log 2 |q| - 52) (-1074)

/-- The integer nearest to `x`, ties to the even one. -/
def roundHalfEven (x : ℚ) : ℤ :=
  if x - ⌊x⌋ < 1 / 2 then ⌊x⌋
  else if 1 / 2 < x - ⌊x⌋ then ⌊x⌋ + 1
  else if ⌊x⌋ % 2 = 0 then ⌊x⌋ else ⌊x⌋ + 1

/-- `q` rounded to the nearest multiple of the unit in the last place of its binade. -/
def roundQ (q : ℚ) : ℚ := roundHalfEven (q / 2 ^ ulpExp q) * 2 ^ ulpExp q

/-! ## Rounding to an integer -/

/-- An integer is its own rounding. -/
@[simp] theorem roundHalfEven_intCast (n : ℤ) : roundHalfEven (n : ℚ) = n := by
  simp [roundHalfEven]

/-- An integer below `x` is below the rounding of `x`. -/
theorem le_roundHalfEven {n : ℤ} {x : ℚ} (h : (n : ℚ) ≤ x) : n ≤ roundHalfEven x := by
  have hf : n ≤ ⌊x⌋ := Int.le_floor.mpr h
  unfold roundHalfEven
  split_ifs <;> omega

/-- An integer above `x` is above the rounding of `x`. -/
theorem roundHalfEven_le {n : ℤ} {x : ℚ} (h : x ≤ (n : ℚ)) : roundHalfEven x ≤ n := by
  have hf : ⌊x⌋ ≤ n := by
    have := Int.floor_le x
    exact_mod_cast this.trans h
  rcases hf.lt_or_eq with hlt | heq
  · unfold roundHalfEven
    split_ifs <;> omega
  · have hx : x = (n : ℚ) := le_antisymm h (by rw [← heq]; exact Int.floor_le x)
    rw [hx, roundHalfEven_intCast]

/-- Rounding to an integer is monotone. -/
theorem roundHalfEven_mono {x y : ℚ} (h : x ≤ y) : roundHalfEven x ≤ roundHalfEven y := by
  have hbounds : ∀ z : ℚ, ⌊z⌋ ≤ roundHalfEven z ∧ roundHalfEven z ≤ ⌊z⌋ + 1 := by
    intro z
    unfold roundHalfEven
    split_ifs <;> omega
  rcases (Int.floor_mono h).lt_or_eq with hlt | heq
  · exact (hbounds x).2.trans ((Int.add_one_le_of_lt hlt).trans (hbounds y).1)
  · unfold roundHalfEven
    rw [heq]
    split_ifs <;> first | omega | (exfalso; linarith)

/-- Rounding to an integer is odd: both tie rules agree after a reflection. -/
theorem roundHalfEven_neg (x : ℚ) : roundHalfEven (-x) = -roundHalfEven x := by
  rcases eq_or_ne x ⌊x⌋ with hint | hint
  · have h1 := roundHalfEven_intCast ⌊x⌋
    have h2 := roundHalfEven_intCast (-⌊x⌋)
    rw [Int.cast_neg, ← hint] at h2
    rw [← hint] at h1
    rw [h1, h2]
  · have hlt : (⌊x⌋ : ℚ) < x := lt_of_le_of_ne (Int.floor_le x) (Ne.symm hint)
    have hfl : ⌊-x⌋ = -⌊x⌋ - 1 := by
      rw [Int.floor_eq_iff]
      have := Int.lt_floor_add_one x
      push_cast
      constructor <;> linarith
    unfold roundHalfEven
    rw [hfl]
    push_cast
    split_ifs <;> first | omega | (exfalso; linarith)

/-- The rounding of an integer multiple of a power is exact. -/
theorem roundHalfEven_mul_zpow (m : ℤ) {d : ℤ} (hd : 0 ≤ d) :
    ((roundHalfEven ((m : ℚ) * 2 ^ d) : ℤ) : ℚ) = m * 2 ^ d := by
  obtain ⟨k, rfl⟩ := Int.eq_ofNat_of_zero_le hd
  have h : (m : ℚ) * 2 ^ (k : ℤ) = ((m * 2 ^ k : ℤ) : ℚ) := by push_cast; simp
  rw [show ((k : ℕ) : ℤ) = (k : ℤ) from rfl, h, roundHalfEven_intCast]

/-! ## Doubles and the unit in the last place -/

/-- The negation of a double is a double. -/
theorem IsDouble.neg {q : ℚ} (h : IsDouble q) : IsDouble (-q) := by
  obtain ⟨m, e, hm, h1, h2, rfl⟩ := h
  exact ⟨-m, e, by rwa [abs_neg], h1, h2, by push_cast; ring⟩

/-- A double is below `2 ^ 1024` in magnitude. -/
theorem IsDouble.abs_lt {q : ℚ} (h : IsDouble q) : |q| < 2 ^ (1024 : ℤ) := by
  obtain ⟨m, e, hm, -, he, rfl⟩ := h
  rw [abs_mul, abs_of_pos (zpow_pos (by norm_num : (0 : ℚ) < 2) e)]
  calc |(m : ℚ)| * 2 ^ e < 2 ^ (53 : ℤ) * 2 ^ e :=
        mul_lt_mul_of_pos_right (by exact_mod_cast hm) (zpow_pos (by norm_num) _)
    _ = 2 ^ (53 + e) := (zpow_add₀ (by norm_num) _ _).symm
    _ ≤ 2 ^ (1024 : ℤ) := zpow_le_zpow_right₀ (by norm_num) (by omega)

/-- Every integer below `2 ^ 53` in magnitude is a double. -/
theorem isDouble_intCast {n : ℤ} (h : |n| < 2 ^ 53) : IsDouble (n : ℚ) :=
  ⟨n, 0, h, by norm_num, by norm_num, by simp⟩

/-- Zero is a double. -/
theorem isDouble_zero : IsDouble 0 := ⟨0, 0, by norm_num, by norm_num, by norm_num, by norm_num⟩

/-- One is a double. -/
theorem isDouble_one : IsDouble 1 := ⟨1, 0, by norm_num, by norm_num, by norm_num, by norm_num⟩

/-- The unit exponent is at least that of the subnormals. -/
theorem neg_1074_le_ulpExp (q : ℚ) : -1074 ≤ ulpExp q := by
  unfold ulpExp
  split_ifs
  · rfl
  · exact le_max_right _ _

/-- The unit exponent of a nonzero number. -/
theorem ulpExp_of_ne_zero {q : ℚ} (hq : q ≠ 0) :
    ulpExp q = max (Int.log 2 |q| - 52) (-1074) := if_neg hq

/-- `|q|` is below `2 ^ 53` units in the last place. -/
theorem abs_lt_zpow_ulpExp (q : ℚ) : |q| < 2 ^ (ulpExp q + 53) := by
  rcases eq_or_ne q 0 with rfl | hq
  · simpa using zpow_pos (by norm_num : (0 : ℚ) < 2) (ulpExp 0 + 53)
  · have h := Int.lt_zpow_succ_log_self (b := 2) (by norm_num) |q|
    refine h.trans_le (zpow_le_zpow_right₀ (by norm_num) ?_)
    have := le_max_left (Int.log 2 |q| - 52) (-1074)
    rw [ulpExp_of_ne_zero hq]
    omega

/-- Above the subnormals, `|q|` is at least `2 ^ 52` units in the last place. -/
theorem zpow_ulpExp_le_abs {q : ℚ} (hq : q ≠ 0) (h : -1074 < ulpExp q) :
    (2 : ℚ) ^ (ulpExp q + 52) ≤ |q| := by
  have hlog : ulpExp q + 52 = Int.log 2 |q| := by
    rw [ulpExp_of_ne_zero hq] at h ⊢
    omega
  rw [hlog]
  exact_mod_cast Int.zpow_log_le_self (b := 2) (by norm_num) (abs_pos.mpr hq)

/-- The unit exponent of a double is at most the exponent of any of its representations. -/
theorem ulpExp_le_of_repr {m e : ℤ} (hm : |m| < 2 ^ 53) (he : -1074 ≤ e) :
    ulpExp ((m : ℚ) * 2 ^ e) ≤ e := by
  rcases eq_or_ne m 0 with rfl | hm0
  · simpa [ulpExp] using he
  · by_contra hlt
    rw [not_le] at hlt
    have hq : ((m : ℚ) * 2 ^ e) ≠ 0 :=
      mul_ne_zero (by exact_mod_cast hm0) (zpow_ne_zero _ (by norm_num))
    have hlow := zpow_ulpExp_le_abs hq (he.trans_lt hlt)
    have hup : |(m : ℚ) * 2 ^ e| < 2 ^ (e + 53) := by
      rw [abs_mul, abs_of_pos (zpow_pos (by norm_num : (0 : ℚ) < 2) e), add_comm,
        zpow_add₀ (by norm_num)]
      exact mul_lt_mul_of_pos_right (by exact_mod_cast hm) (zpow_pos (by norm_num) _)
    have := (zpow_lt_zpow_iff_right₀ (by norm_num : (1 : ℚ) < 2)).mp (hlow.trans_lt hup)
    omega

/-- Two doubles that differ are some units of the subnormals apart. -/
theorem le_sub_of_isDouble {x y : ℚ} (hx : IsDouble x) (hy : IsDouble y) (h : y < x) :
    (2 : ℚ) ^ (-1074 : ℤ) ≤ x - y := by
  have hunits : ∀ {q : ℚ}, IsDouble q → ∃ n : ℤ, q = n * 2 ^ (-1074 : ℤ) := by
    rintro q ⟨m, e, -, he, -, rfl⟩
    obtain ⟨k, hk⟩ := Int.eq_ofNat_of_zero_le (sub_nonneg.mpr he)
    refine ⟨m * 2 ^ k, ?_⟩
    rw [show e = (k : ℤ) + -1074 by omega, zpow_add₀ two_ne_zero, zpow_natCast, Int.cast_mul,
      Int.cast_pow, Int.cast_ofNat, mul_assoc]
  obtain ⟨m, rfl⟩ := hunits hx
  obtain ⟨n, rfl⟩ := hunits hy
  generalize (-1074 : ℤ) = u at h ⊢
  have hpos : (0 : ℚ) < 2 ^ u := zpow_pos two_pos u
  have hlt : n < m := by exact_mod_cast lt_of_mul_lt_mul_right h hpos.le
  have hone : (1 : ℚ) ≤ m - n := by exact_mod_cast (by omega : 1 ≤ m - n)
  rw [← sub_mul]
  exact le_mul_of_one_le_left hpos.le hone

/-! ## Rounding to a double -/

/-- **A double is its own rounding.** -/
theorem roundQ_of_isDouble {q : ℚ} (h : IsDouble q) : roundQ q = q := by
  obtain ⟨m, e, hm, he, -, rfl⟩ := h
  have hu := ulpExp_le_of_repr hm he
  set u := ulpExp ((m : ℚ) * 2 ^ e) with hudef
  have hdiv : (m : ℚ) * 2 ^ e / 2 ^ u = m * 2 ^ (e - u) := by
    rw [zpow_sub₀ (by norm_num), mul_div_assoc]
  unfold roundQ
  rw [← hudef, hdiv, roundHalfEven_mul_zpow m (by omega), mul_assoc,
    ← zpow_add₀ (by norm_num), sub_add_cancel]

/-- Zero is not rounded. -/
@[simp] theorem roundQ_zero : roundQ 0 = 0 := roundQ_of_isDouble isDouble_zero

/-- Rounding is odd. -/
theorem roundQ_neg (q : ℚ) : roundQ (-q) = -roundQ q := by
  have hu : ulpExp (-q) = ulpExp q := by simp [ulpExp]
  unfold roundQ
  rw [hu, neg_div, roundHalfEven_neg]
  push_cast
  ring

/-- The rounding of a nonnegative number is nonnegative. -/
theorem roundQ_nonneg {q : ℚ} (h : 0 ≤ q) : 0 ≤ roundQ q := by
  have hpos : (0 : ℚ) < 2 ^ ulpExp q := zpow_pos (by norm_num) _
  have : (0 : ℤ) ≤ roundHalfEven (q / 2 ^ ulpExp q) :=
    le_roundHalfEven (by push_cast; exact div_nonneg h hpos.le)
  exact mul_nonneg (by exact_mod_cast this) hpos.le

/-- Rounding does not go below a number with a short mantissa, however large. -/
theorem le_roundQ {m e : ℤ} {q : ℚ} (hm : |m| < 2 ^ 53) (he : -1074 ≤ e)
    (h : (m : ℚ) * 2 ^ e ≤ q) : (m : ℚ) * 2 ^ e ≤ roundQ q := by
  set u := ulpExp q with hudef
  have hupos : (0 : ℚ) < 2 ^ u := zpow_pos (by norm_num) _
  -- a multiple of the unit is compared after dividing by the unit
  have key : ∀ n : ℤ, (n : ℚ) * 2 ^ u ≤ q → (n : ℚ) * 2 ^ u ≤ roundQ q := by
    intro n hn
    have : n ≤ roundHalfEven (q / 2 ^ u) := le_roundHalfEven ((le_div_iff₀ hupos).mpr hn)
    exact mul_le_mul_of_nonneg_right (by exact_mod_cast this) hupos.le
  by_cases hue : u ≤ e
  · obtain ⟨k, hk⟩ := Int.eq_ofNat_of_zero_le (sub_nonneg.mpr hue)
    have hm' : (m : ℚ) * 2 ^ e = ((m * 2 ^ k : ℤ) : ℚ) * 2 ^ u := by
      rw [show e = (k : ℤ) + u by omega, zpow_add₀ (by norm_num), zpow_natCast]
      push_cast
      ring
    rw [hm'] at h ⊢
    exact key _ h
  · rw [not_le] at hue
    have hup : |(m : ℚ) * 2 ^ e| < 2 ^ (e + 53) := by
      rw [abs_mul, abs_of_pos (zpow_pos (by norm_num : (0 : ℚ) < 2) e), add_comm,
        zpow_add₀ (by norm_num)]
      exact mul_lt_mul_of_pos_right (by exact_mod_cast hm) (zpow_pos (by norm_num) _)
    have hq0 : q ≠ 0 := by
      rintro rfl
      simp [ulpExp] at hudef
      omega
    have hlow : (2 : ℚ) ^ (u + 52) ≤ |q| := zpow_ulpExp_le_abs hq0 (he.trans_lt hue)
    have hmono : (2 : ℚ) ^ (e + 53) ≤ 2 ^ (u + 52) :=
      zpow_le_zpow_right₀ (by norm_num) (by omega)
    rcases lt_or_gt_of_ne hq0 with hneg | hpos
    · -- `m * 2 ^ e ≤ q < 0` would have a larger magnitude than its own binade
      have h1 : |q| ≤ |(m : ℚ) * 2 ^ e| := by
        rw [abs_of_neg hneg, abs_of_neg (h.trans_lt hneg)]
        linarith
      linarith
    · have h2 : ((2 ^ 52 : ℤ) : ℚ) * 2 ^ u ≤ q := by
        rw [abs_of_pos hpos, add_comm, zpow_add₀ (by norm_num)] at hlow
        exact_mod_cast hlow
      have h3 := key _ h2
      have h4 : ((2 ^ 52 : ℤ) : ℚ) * 2 ^ u = 2 ^ (u + 52) := by
        rw [add_comm, zpow_add₀ (by norm_num)]
        norm_num
      have h5 := le_abs_self ((m : ℚ) * 2 ^ e)
      linarith

/-- Rounding is monotone. -/
theorem roundQ_mono {x y : ℚ} (hx : 0 ≤ x) (h : x ≤ y) : roundQ x ≤ roundQ y := by
  rcases hx.eq_or_lt with rfl | hpos
  · rw [roundQ_zero]
    exact roundQ_nonneg h
  have hy := hpos.trans_le h
  have hulp : ulpExp x ≤ ulpExp y := by
    rw [ulpExp_of_ne_zero hpos.ne', ulpExp_of_ne_zero hy.ne', abs_of_pos hpos, abs_of_pos hy]
    exact max_le_max_right _ (Int.sub_le_sub_right (Int.log_mono_right hpos h) 52)
  rcases hulp.eq_or_lt with heq | hlt
  · unfold roundQ
    rw [heq]
    apply mul_le_mul_of_nonneg_right _ (zpow_pos two_pos _).le
    exact_mod_cast roundHalfEven_mono (div_le_div_of_nonneg_right h (zpow_pos two_pos _).le)
  · -- a power of two stands between numbers of different binades
    have hbetween : ((2 ^ 52 : ℤ) : ℚ) * 2 ^ ulpExp y = 2 ^ (ulpExp y + 52) := by
      rw [add_comm, zpow_add₀ two_ne_zero]
      norm_num
    have hle : ((2 ^ 52 : ℤ) : ℚ) * 2 ^ ulpExp y ≤ y := by
      have := zpow_ulpExp_le_abs hy.ne' ((neg_1074_le_ulpExp x).trans_lt hlt)
      rwa [abs_of_pos hy, ← hbetween] at this
    have hge : ((-2 ^ 52 : ℤ) : ℚ) * 2 ^ ulpExp y ≤ -x := by
      have hlow := (le_abs_self x).trans (abs_lt_zpow_ulpExp x).le
      have hmono : (2 : ℚ) ^ (ulpExp x + 53) ≤ 2 ^ (ulpExp y + 52) :=
        zpow_le_zpow_right₀ one_le_two (by omega)
      rw [Int.cast_neg, neg_mul, hbetween]
      exact neg_le_neg (hlow.trans hmono)
    have h₁ := le_roundQ (by norm_num) (neg_1074_le_ulpExp y) hge
    rw [roundQ_neg, Int.cast_neg, neg_mul, neg_le_neg_iff] at h₁
    exact h₁.trans (le_roundQ (by norm_num) (neg_1074_le_ulpExp y) hle)

/-- **Rounding does not cross a double**: a double below `q` is below the rounding of `q`. -/
theorem le_roundQ_of_isDouble {d q : ℚ} (hd : IsDouble d) (h : d ≤ q) : d ≤ roundQ q := by
  obtain ⟨m, e, hm, he, -, rfl⟩ := hd
  exact le_roundQ hm he h

/-- Below `2 ^ 1024` the rounding is a double. -/
theorem isDouble_roundQ {q : ℚ} (h : |roundQ q| < 2 ^ (1024 : ℤ)) : IsDouble (roundQ q) := by
  set u := ulpExp q with hudef
  set n := roundHalfEven (q / 2 ^ u) with hn
  have hupos : (0 : ℚ) < 2 ^ u := zpow_pos (by norm_num) _
  have hval : roundQ q = n * 2 ^ u := rfl
  have habs := abs_lt.mp (abs_lt_zpow_ulpExp q)
  rw [← hudef, add_comm u 53, zpow_add₀ (by norm_num)] at habs
  have hle : n ≤ 2 ^ 53 := by
    apply roundHalfEven_le
    rw [div_le_iff₀ hupos]
    exact_mod_cast habs.2.le
  have hge : -2 ^ 53 ≤ n := by
    apply le_roundHalfEven
    rw [le_div_iff₀ hupos]
    push_cast
    have := habs.1.le
    norm_num at this ⊢
    linarith
  have hlow := neg_1074_le_ulpExp q
  rcases eq_or_ne n 0 with hn0 | hn0
  · exact ⟨0, 0, by norm_num, by norm_num, by norm_num, by rw [hval, hn0]; simp⟩
  · have hone : (1 : ℚ) ≤ |(n : ℚ)| := by exact_mod_cast Int.one_le_abs hn0
    by_cases hfull : |n| = 2 ^ 53
    · -- a carry out of the significand moves to the next binade
      have hexp : u + 53 < 1024 := by
        rw [hval, abs_mul, abs_of_pos hupos] at h
        have hc : |(n : ℚ)| = 2 ^ (53 : ℤ) := by
          have := congrArg (fun z : ℤ => (z : ℚ)) hfull
          push_cast at this
          rw [this]
          norm_num
        rw [hc, ← zpow_add₀ (by norm_num)] at h
        have := (zpow_lt_zpow_iff_right₀ (by norm_num : (1 : ℚ) < 2)).mp h
        omega
      refine ⟨n / 2, u + 1, ?_, by omega, by omega, ?_⟩
      · rcases abs_choice n with hc | hc <;> rw [hc] at hfull
        · rw [hfull]; norm_num
        · rw [show n = -2 ^ 53 by omega]; norm_num
      · have hdvd : (2 : ℤ) ∣ n := by
          rw [← dvd_abs, hfull]
          norm_num
        obtain ⟨c, hc⟩ := hdvd
        rw [hval, hc, Int.mul_ediv_cancel_left _ (by norm_num), zpow_add₀ (by norm_num)]
        push_cast
        ring
    · have hlt : |n| < 2 ^ 53 := lt_of_le_of_ne (abs_le.mpr ⟨by linarith, hle⟩) hfull
      have hexp : u ≤ 971 := by
        by_contra hu
        rw [not_le] at hu
        have hlog : -1074 < ulpExp q := by omega
        have hq0 : q ≠ 0 := by
          rintro rfl
          simp [ulpExp] at hudef
          omega
        have hbig := zpow_ulpExp_le_abs hq0 hlog
        rw [← hudef] at hbig
        have hn52 : (2 : ℤ) ^ 52 ≤ |n| := by
          rcases lt_or_gt_of_ne hq0 with hneg | hpos
          · have : n ≤ -2 ^ 52 := by
              apply roundHalfEven_le
              rw [div_le_iff₀ hupos]
              rw [abs_of_neg hneg, add_comm u 52, zpow_add₀ (by norm_num)] at hbig
              push_cast
              norm_num at hbig ⊢
              linarith
            rw [le_abs]
            right
            omega
          · have : 2 ^ 52 ≤ n := by
              apply le_roundHalfEven
              rw [le_div_iff₀ hupos]
              rw [abs_of_pos hpos, add_comm u 52, zpow_add₀ (by norm_num)] at hbig
              exact_mod_cast hbig
            exact this.trans (le_abs_self n)
        rw [hval, abs_mul, abs_of_pos hupos] at h
        have hge52 : ((2 : ℚ) ^ (52 : ℤ)) ≤ |(n : ℚ)| := by exact_mod_cast hn52
        have : (2 : ℚ) ^ (52 : ℤ) * 2 ^ u < 2 ^ (1024 : ℤ) :=
          (mul_le_mul_of_nonneg_right hge52 hupos.le).trans_lt h
        rw [← zpow_add₀ (by norm_num)] at this
        have := (zpow_lt_zpow_iff_right₀ (by norm_num : (1 : ℚ) < 2)).mp this
        omega
      exact ⟨n, u, hlt, hlow, hexp, hval⟩

end Js
