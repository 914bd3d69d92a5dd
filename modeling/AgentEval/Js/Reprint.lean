import AgentEval.Js.Arith
import AgentEval.Js.Coerce

/-!
# Texts of Numbers with more digits after them

The text of a Number is read back as that Number. It still is with `.0` behind the digits of an
integer and with `0` behind a fraction, where the text has no exponent; behind an exponent, `.0`
leaves no number at all and `0` is a digit of the exponent.

* `Number.plain x` — the text of `x` has no exponent: `x` is zero, or at least `1e-6` and below
  `1e21` in magnitude.
* **`exp_layout_shortest`**: that is what decides about the exponent.
-/

namespace Js

/-! ## Rounding -/

/-- An integer is rounded to from half of it at the lowest. -/
theorem roundHalfEven_le_two_mul {x : ℚ} (h : 0 ≤ x) : (roundHalfEven x : ℚ) ≤ 2 * x := by
  have hle := Int.floor_le x
  have hnat : (0 : ℤ) ≤ ⌊x⌋ := Int.floor_nonneg.mpr h
  have hcast : (0 : ℚ) ≤ ⌊x⌋ := by exact_mod_cast hnat
  unfold roundHalfEven
  split_ifs with h₁ h₂ h₃
  · linarith
  · push_cast
    linarith
  · linarith
  · -- a tie at an odd number, which is at least one
    have hone : (1 : ℚ) ≤ ⌊x⌋ := by exact_mod_cast (by omega : (1 : ℤ) ≤ ⌊x⌋)
    push_cast
    linarith

/-- A double is rounded to from half of it at the lowest. -/
theorem roundQ_le_two_mul {q : ℚ} (h : 0 ≤ q) : roundQ q ≤ 2 * q := by
  have hpos : (0 : ℚ) < 2 ^ ulpExp q := zpow_pos two_pos _
  have hle := roundHalfEven_le_two_mul (div_nonneg h hpos.le)
  unfold roundQ
  rw [← le_div_iff₀ hpos, mul_div_assoc]
  exact hle

/-- Rounding a number below a double. -/
theorem roundQ_le_of_isDouble {d q : ℚ} (hd : IsDouble d) (h : q ≤ d) : roundQ q ≤ d := by
  have hneg := le_roundQ_of_isDouble hd.neg (neg_le_neg h)
  rw [roundQ_neg] at hneg
  exact neg_le_neg_iff.mp hneg

/-- A large double is an integer. -/
theorem IsDouble.den_eq_one {q : ℚ} (hq : IsDouble q) (h : 2 ^ 53 ≤ |q|) : q.den = 1 := by
  obtain ⟨m, e, hm, -, -, rfl⟩ := hq
  have he : 0 ≤ e := by
    by_contra hneg
    have hsmall : |(m : ℚ) * 2 ^ e| ≤ |(m : ℚ)| := by
      rw [abs_mul, abs_of_pos (zpow_pos (two_pos : (0 : ℚ) < 2) e)]
      exact mul_le_of_le_one_right (abs_nonneg _) (zpow_le_one_of_nonpos₀ one_le_two (by omega))
    have hlt : |(m : ℚ)| < 2 ^ 53 := by exact_mod_cast hm
    exact absurd (h.trans hsmall) (not_le.mpr hlt)
  obtain ⟨k, rfl⟩ := Int.eq_ofNat_of_zero_le he
  have hint : (m : ℚ) * 2 ^ (k : ℤ) = ((m * 2 ^ k : ℤ) : ℚ) := by
    rw [zpow_natCast]
    push_cast
    rfl
  rw [hint, Rat.den_intCast]

/-- An integer is rounded to an integer. -/
theorem den_roundQ_intCast {n : ℤ} {x : Double} (h : roundQ n = x.val) : x.val.den = 1 := by
  by_contra hden
  have hsmall : |x.val| < 2 ^ 53 := by
    by_contra hlarge
    exact hden (x.isDouble.den_eq_one (not_lt.mp hlarge))
  obtain ⟨hlow, hhigh⟩ := abs_lt.mp hsmall
  -- both integers next to the double are doubles, and one of them is between
  have hfloor : |⌊x.val⌋| ≤ 2 ^ 53 ∧ |⌊x.val⌋ + 1| ≤ 2 ^ 53 := by
    have h₁ : -2 ^ 53 ≤ ⌊x.val⌋ := Int.le_floor.mpr (by push_cast; exact hlow.le)
    have h₂ : ⌊x.val⌋ < 2 ^ 53 := Int.floor_lt.mpr (by push_cast; exact hhigh)
    constructor <;> rw [abs_le] <;> constructor <;> linarith
  have hdouble : ∀ k : ℤ, |k| ≤ 2 ^ 53 → IsDouble (k : ℚ) := by
    intro k hk
    rcases hk.lt_or_eq with hlt | heq
    · exact isDouble_intCast hlt
    · have hbig : IsDouble ((2 : ℚ) ^ (53 : ℕ)) :=
        ⟨1, 53, by norm_num, by norm_num, by norm_num, by norm_num⟩
      rcases abs_choice k with hc | hc
      · rw [hc] at heq
        rw [heq]
        exact_mod_cast hbig
      · rw [hc] at heq
        rw [show k = -2 ^ 53 by omega]
        exact_mod_cast hbig.neg
  have hne : (⌊x.val⌋ : ℚ) ≠ x.val := by
    intro heq
    rw [← heq] at hden
    exact hden (Rat.den_intCast _)
  rcases le_or_gt n ⌊x.val⌋ with hle | hgt
  · have hround := roundQ_le_of_isDouble (hdouble _ hfloor.1) (q := n) (by exact_mod_cast hle)
    rw [h] at hround
    exact hne (le_antisymm (Int.floor_le _) hround)
  · have hround := le_roundQ_of_isDouble (hdouble _ hfloor.2) (q := n)
      (by exact_mod_cast Int.add_one_le_of_lt hgt)
    rw [h] at hround
    push_cast at hround
    exact absurd (Int.lt_floor_add_one x.val) (not_lt.mpr hround)

/-! ## Reading a literal with something behind it -/

section literal

variable {int frac tail : JsString} {exp : Option ℤ}

/-- The text of a literal of digits, and what is behind it, in the parts that are read. -/
theorem ofUnsigned_render (neg : Bool) (hne : int ≠ []) (hint : ∀ u ∈ int, isDigit u = true)
    (hfrac : ∀ u ∈ frac, isDigit u = true)
    (htail : ∀ u us, tail = u :: us → isDigit u = false ∧ u ≠ 46) :
    (scanExp tail = some (exp, []) →
      Number.ofUnsigned neg ((⟨int, frac, none⟩ : Literal).render ++ tail) =
        Literal.toNumber neg ⟨int, frac, exp⟩) ∧
    ((∀ exp, scanExp tail ≠ some (exp, [])) →
      Number.ofUnsigned neg ((⟨int, frac, none⟩ : Literal).render ++ tail) = .nan) := by
  have hname : (⟨int, frac, none⟩ : Literal).render ++ tail ≠ js "Infinity" := by
    obtain ⟨u, us, hu⟩ := List.exists_cons_of_ne_nil hne
    intro heq
    have hdigit : isDigit u = true := hint u (by rw [hu]; exact List.mem_cons_self ..)
    rw [hu] at heq
    have hhead : u = 73 := (List.cons.inj heq).1
    rw [hhead] at hdigit
    exact absurd hdigit (by decide)
  -- the digits end where the point is, and where the rest begins
  have htail' : tail.head?.elim true (!isDigit ·) = true := by
    cases tail with
    | nil => rfl
    | cons v vs => simp [(htail v vs rfl).1]
  have hpoint : (tail.head? == some 46) = false := by
    cases tail with
    | nil => rfl
    | cons v vs => simpa using (htail v vs rfl).2
  unfold Number.ofUnsigned
  rw [if_neg hname]
  unfold Literal.render
  dsimp only [Option.map_none, Option.getD_none]
  rw [List.append_nil, List.append_assoc]
  by_cases hempty : frac = []
  · obtain ⟨htake, hdrop⟩ := Number.takeWhile_append_of_digits hint htail'
    rw [if_pos hempty, List.nil_append, htake, hdrop, hpoint]
    simp only [Bool.false_eq_true, if_false, hempty, and_true, if_neg hne]
    constructor
    · intro h
      rw [h]
    · intro h
      split
      · rename_i heq
        exact absurd heq (h _)
      · rfl
  · obtain ⟨htake, hdrop⟩ := Number.takeWhile_append_of_digits (s := 46 :: (frac ++ tail)) hint rfl
    obtain ⟨htake', hdrop'⟩ := Number.takeWhile_append_of_digits hfrac htail'
    rw [if_neg hempty, List.cons_append, htake, hdrop]
    simp only [List.head?_cons, BEq.rfl, if_true, List.drop_succ_cons, List.drop_zero, htake', hdrop',
      hempty, and_false, if_false]
    constructor
    · intro h
      rw [h]
    · intro h
      split
      · rename_i heq
        exact absurd heq (h _)
      · rfl

/-- A text that starts like a number, read with its sign. -/
theorem coerce_of_head {u : UInt16} {s : JsString} (hu : isDigit u = true)
    (hs : ∀ v ∈ u :: s, isWhiteSpace v = false ∧ Number.radixOf v = none) :
    Number.coerce (u :: s) = Number.ofUnsigned false (u :: s) := by
  have hspace := fun v hv => (hs v hv).1
  rw [← Number.ofText_of_head (.inl hu) hspace]
  unfold Number.coerce
  rw [Number.trim_of_forall hspace]
  split
  · rename_i heq
    obtain ⟨-, rfl⟩ := List.cons.inj heq
    rw [(hs _ (List.mem_cons_of_mem _ (List.mem_cons_self ..))).2]
  · rfl

/-- A text with a minus sign. -/
theorem coerce_of_minus {s : JsString} (hs : ∀ v ∈ s, isWhiteSpace v = false) :
    Number.coerce (45 :: s) = Number.ofUnsigned true s := by
  have htrim := Number.trim_of_forall (List.forall_mem_cons.mpr ⟨by decide, hs⟩ :
    ∀ v ∈ (45 : UInt16) :: s, isWhiteSpace v = false)
  unfold Number.coerce
  rw [htrim]
  unfold Number.ofText
  rw [htrim]
  rfl

end literal

/-! ## Where the exponent begins -/

/-- A number is at least the power of ten of its first digit. -/
theorem natDigits_bounds {s : ℕ} (hs : s ≠ 0) :
    1 ≤ (natDigits s).length ∧ 10 ^ ((natDigits s).length - 1) ≤ s ∧ s < 10 ^ (natDigits s).length := by
  have hlength : (natDigits s).length = (Nat.digits 10 s).length := by
    rw [natDigits, if_neg hs, List.length_map, List.length_reverse]
  have hpos : 1 ≤ (natDigits s).length := List.length_pos_iff.mpr (natDigits_ne_nil s)
  refine ⟨hpos, (Nat.lt_digits_length_iff (by norm_num) s).mp ?_, ?_⟩
  · rw [← hlength]
    exact Nat.sub_lt hpos one_pos
  · rw [hlength]
    exact Nat.lt_base_pow_length_digits (by norm_num)

/-- How many digits a decimal has before its point; below one, how many zeros after it. -/
def pointOf (s : ℕ) (p : ℤ) : ℤ := p + (natDigits s).length

/-- The decade of a decimal. -/
theorem zpow_pointOf {s : ℕ} (hs : s ≠ 0) (p : ℤ) :
    (10 : ℚ) ^ (pointOf s p - 1) ≤ s * 10 ^ p ∧ (s : ℚ) * 10 ^ p < 10 ^ pointOf s p := by
  obtain ⟨hpos, hlow, hhigh⟩ := natDigits_bounds hs
  have hten : (0 : ℚ) < 10 ^ p := zpow_pos (by norm_num) p
  unfold pointOf
  constructor
  · have hexp : p + ((natDigits s).length : ℤ) - 1 = ((natDigits s).length - 1 : ℕ) + p := by omega
    rw [hexp, zpow_add₀ (by norm_num), zpow_natCast]
    exact mul_le_mul_of_nonneg_right (by exact_mod_cast hlow) hten.le
  · rw [add_comm p, zpow_add₀ (by norm_num), zpow_natCast]
    exact mul_lt_mul_of_pos_right (by exact_mod_cast hhigh) hten

/-- When a layout has an exponent, and which. -/
theorem exp_layout {s : ℕ} (hs : s ≠ 0) (p : ℤ) :
    (layout s p).exp = if -6 < pointOf s p ∧ pointOf s p ≤ 21 then none else some (pointOf s p - 1) := by
  have hpos := (natDigits_bounds hs).1
  unfold layout pointOf
  dsimp only
  split_ifs <;> first | rfl | omega

/-- The double `1e-6`. -/
theorem roundQ_millionth : roundQ (1 / 10 ^ 6) = 4722366482869645 / 2 ^ 72 := by
  have hlog : Int.log 2 |(1 / 10 ^ 6 : ℚ)| = -20 := by
    rw [abs_of_pos (by norm_num)]
    apply le_antisymm
    · apply Int.lt_add_one_iff.mp
      exact (Int.lt_zpow_iff_log_lt (by norm_num) (by norm_num)).mp (by norm_num)
    · exact (Int.zpow_le_iff_le_log (by norm_num) (by norm_num)).mp (by norm_num)
  have hulp : ulpExp (1 / 10 ^ 6) = -72 := by
    rw [ulpExp_of_ne_zero (by norm_num), hlog]
    rfl
  have hfloor : ⌊(1 / 10 ^ 6 / 2 ^ (-72 : ℤ) : ℚ)⌋ = 4722366482869645 := by
    rw [Int.floor_eq_iff]
    norm_num
  unfold roundQ roundHalfEven
  rw [hulp, hfloor, if_pos (by norm_num)]
  norm_num

/-- A decimal of one digit is the shortest. -/
theorem digitCount_eq_one {x : Double} (hx : 0 < x.val) (h : HasDigits x.val 1) :
    digitCount x hx = 1 :=
  le_antisymm (Nat.find_min' _ h) (Nat.find_spec (exists_hasDigits hx)).1

/-- The text of `1e-6` is `0.000001`. -/
theorem shortest_millionth {x : Double} (hx : 0 < x.val) (h : x.val = roundQ (1 / 10 ^ 6)) :
    shortest x hx = (1, -6) := by
  have hval := h.trans roundQ_millionth
  have hlog : Int.log 10 x.val = -7 := by
    rw [hval]
    apply le_antisymm
    · apply Int.lt_add_one_iff.mp
      exact (Int.lt_zpow_iff_log_lt (by norm_num) (by norm_num)).mp (by norm_num)
    · exact (Int.zpow_le_iff_le_log (by norm_num) (by norm_num)).mp (by norm_num)
  have hdecade : decade x.val = -6 := by
    unfold decade
    rw [hlog]
    rfl
  have hbelow : digitsBelow x.val 1 = 9 := by
    unfold digitsBelow
    rw [hdecade, hval, Nat.floor_eq_iff (by norm_num)]
    norm_num
  -- nine millionths of a tenth are rounded to something below, ten are not
  have hnine : ¬ RoundsTo x.val 9 (-7) := by
    have hdouble : IsDouble (1 / 2 ^ 20) := ⟨1, -20, by norm_num, by norm_num, by norm_num, by norm_num⟩
    have hle := roundQ_le_of_isDouble hdouble (q := (9 : ℕ) * 10 ^ (-7 : ℤ)) (by norm_num)
    unfold RoundsTo
    intro heq
    rw [heq, hval] at hle
    norm_num at hle
  have hten : RoundsTo x.val 10 (-7) := by
    unfold RoundsTo
    rw [h]
    congr 1
    norm_num
  have hcount : digitCount x hx = 1 := by
    apply digitCount_eq_one
    refine ⟨le_rfl, .inr ?_⟩
    rw [hbelow, hdecade]
    exact hten
  have hnearest : nearestDigits x.val 1 = 10 := by
    unfold nearestDigits
    rw [hbelow, hdecade]
    exact if_neg hnine
  unfold shortest
  rw [hcount, hnearest, hdecade]
  rfl

/-- The text of `1e21` has an exponent. -/
theorem shortest_sextillion {x : Double} (hx : 0 < x.val) (h : x.val = 10 ^ 21) :
    shortest x hx = (1, 21) := by
  have hlog : Int.log 10 x.val = 21 := by
    rw [h]
    exact_mod_cast Int.log_zpow (R := ℚ) (b := 10) (by norm_num) 21
  have hdecade : decade x.val = 22 := by
    unfold decade
    rw [hlog]
    rfl
  have hbelow : digitsBelow x.val 1 = 1 := by
    unfold digitsBelow
    rw [hdecade, h]
    norm_num
  have hround : RoundsTo x.val 1 21 := by
    unfold RoundsTo
    have hone : ((1 : ℕ) : ℚ) * 10 ^ (21 : ℤ) = x.val := by
      rw [h]
      norm_num
    rw [hone]
    exact roundQ_of_isDouble x.isDouble
  have hcount : digitCount x hx = 1 := by
    apply digitCount_eq_one
    refine ⟨le_rfl, .inl ?_⟩
    rw [hbelow, hdecade]
    exact hround
  have hnearest : nearestDigits x.val 1 = 1 := by
    have hexact : x.val * 10 ^ (((1 : ℕ) : ℤ) - decade x.val) - (digitsBelow x.val 1 : ℕ) < 1 / 2 := by
      rw [hbelow, hdecade, h]
      norm_num
    unfold nearestDigits
    rw [if_pos hexact, hbelow, hdecade]
    rw [if_pos (show RoundsTo x.val 1 (22 - ((1 : ℕ) : ℤ)) from hround), ite_self]
  unfold shortest
  rw [hcount, hnearest, hdecade]
  rfl

/-- **The text of a positive double has no exponent from `1e-6` to below `1e21`.** -/
theorem pointOf_shortest (x : Double) (hx : 0 < x.val) :
    -6 < pointOf (shortest x hx).1 (shortest x hx).2 ∧ pointOf (shortest x hx).1 (shortest x hx).2 ≤ 21 ↔
      roundQ (1 / 10 ^ 6) ≤ x.val ∧ x.val < 10 ^ 21 := by
  obtain ⟨hlow, hhigh⟩ := zpow_pointOf (shortest_ne_zero x hx) (shortest x hx).2
  have hround := roundsTo_shortest x hx
  unfold RoundsTo at hround
  have hbig : IsDouble ((10 : ℚ) ^ 21) :=
    ⟨5 ^ 21, 21, by norm_num, by norm_num, by norm_num, by norm_num⟩
  apply and_congr
  · constructor
    · intro h
      rw [← hround]
      apply roundQ_mono (by norm_num)
      refine le_trans ?_ hlow
      calc (1 / 10 ^ 6 : ℚ) = 10 ^ (-6 : ℤ) := by norm_num
        _ ≤ _ := zpow_le_zpow_right₀ (by norm_num) (by omega)
    · intro h
      by_contra hsmall
      have hle : x.val ≤ roundQ (1 / 10 ^ 6) := by
        rw [← hround]
        apply roundQ_mono (mul_nonneg (Nat.cast_nonneg _) (zpow_nonneg (by norm_num) _))
        refine hhigh.le.trans ?_
        calc (10 : ℚ) ^ pointOf (shortest x hx).1 (shortest x hx).2 ≤ 10 ^ (-6 : ℤ) :=
              zpow_le_zpow_right₀ (by norm_num) (by omega)
          _ = 1 / 10 ^ 6 := by norm_num
      rw [shortest_millionth hx (le_antisymm hle h)] at hsmall
      exact hsmall (by decide)
  · constructor
    · intro h
      have hle : x.val ≤ 10 ^ 21 := by
        rw [← hround]
        apply roundQ_le_of_isDouble hbig
        refine hhigh.le.trans ?_
        calc (10 : ℚ) ^ pointOf (shortest x hx).1 (shortest x hx).2 ≤ 10 ^ (21 : ℤ) :=
              zpow_le_zpow_right₀ (by norm_num) h
          _ = 10 ^ 21 := by norm_num
      apply lt_of_le_of_ne hle
      intro heq
      rw [shortest_sextillion hx heq] at h
      exact absurd h (by decide)
    · intro h
      by_contra hlarge
      have hle : (10 : ℚ) ^ 21 ≤ x.val := by
        rw [← hround]
        apply le_roundQ_of_isDouble hbig
        refine le_trans ?_ hlow
        calc (10 : ℚ) ^ 21 = 10 ^ (21 : ℤ) := by norm_num
          _ ≤ _ := zpow_le_zpow_right₀ (by norm_num) (by omega)
      exact absurd h (not_lt.mpr hle)

/-! ## Digits behind a text -/

section behind

variable {d : Double} {hd : 0 < d.val}

/-- The literal of a text without exponent is one of an integer exactly when it has no point. -/
theorem frac_layout_shortest (hpoint : pointOf (shortest d hd).1 (shortest d hd).2 ≤ 21)
    (hpoint' : -6 < pointOf (shortest d hd).1 (shortest d hd).2) :
    (layout (shortest d hd).1 (shortest d hd).2).frac = [] ↔ d.val.den = 1 := by
  have hne := shortest_ne_zero d hd
  have hvalue := value_layout hne (shortest d hd).2
  have hexp := exp_layout hne (shortest d hd).2
  rw [if_pos ⟨hpoint', hpoint⟩] at hexp
  constructor
  · intro hfrac
    apply den_roundQ_intCast (n := digitsValue (layout (shortest d hd).1 (shortest d hd).2).int)
    have hround := roundsTo_shortest d hd
    unfold RoundsTo at hround
    rw [← hround, ← hvalue]
    unfold Literal.value
    rw [hfrac, hexp]
    simp
  · intro hden
    -- an integer has no more digits than it is written with
    obtain ⟨n, hn⟩ : ∃ n : ℕ, (n : ℚ) = d.val := by
      refine ⟨d.val.num.toNat, ?_⟩
      have hnum : 0 < d.val.num := Rat.num_pos.mpr hd
      have hcast : (d.val.num.toNat : ℚ) = d.val.num := by exact_mod_cast Int.toNat_of_nonneg hnum.le
      rw [hcast, Rat.coe_int_num_of_den_eq_one hden]
    have hnonneg : 0 ≤ (shortest d hd).2 := by
      obtain ⟨q, hq⟩ := d
      dsimp only at hn
      subst hn
      exact exponent_shortest_nonneg hq hd
    unfold pointOf at hpoint
    unfold layout
    dsimp only
    rw [if_pos ⟨by omega, hpoint⟩]

/-- A digit of nothing behind the point changes no value. -/
theorem value_append_zero (int frac : JsString) :
    Literal.value ⟨int, frac ++ [48], none⟩ = Literal.value ⟨int, frac, none⟩ := by
  unfold Literal.value
  dsimp only [Option.getD_none]
  have hzero : digitsValue (int ++ (frac ++ [48])) = digitsValue (int ++ frac) * 10 := by
    rw [← List.append_assoc, digitsValue_append]
    simp [digitsValue]
  rw [hzero, List.length_append, List.length_singleton, Nat.cast_mul, Nat.cast_add, Nat.cast_one,
    zero_sub, zero_sub, neg_add, zpow_add₀ (by norm_num)]
  push_cast
  ring

/-- An exponent of several digits reads as a number of tenfold size with a zero behind it. -/
theorem scanExp_append_zero (e : ℤ) :
    scanExp (Literal.renderExp e ++ [48]) = some (some (10 * e), []) := by
  have hdigits : ∀ u ∈ natDigits e.natAbs ++ [48], isDigit u = true := by
    intro u hu
    rcases List.mem_append.mp hu with hu | hu
    · exact isDigit_of_mem_natDigits hu
    · rw [List.mem_singleton.mp hu]
      rfl
  have hscan := @scanDigits_append [] (natDigits e.natAbs ++ [48]) (by simp) hdigits
    fun u us h => absurd h.symm (List.cons_ne_nil u us)
  have hvalue : digitsValue (natDigits e.natAbs ++ [48]) = e.natAbs * 10 := by
    rw [digitsValue_append, digitsValue_natDigits]
    simp [digitsValue]
  rw [List.append_nil] at hscan
  unfold Literal.renderExp
  rw [List.cons_append, List.cons_append]
  split_ifs with hneg
  · simp only [scanExp, true_or, if_true, hscan, Option.map_some, hvalue]
    congr 3
    omega
  · simp only [scanExp, true_or, if_true, hscan, Option.map_some, hvalue]
    congr 3
    omega

/-- A point ends an exponent, and no number goes on behind it. -/
theorem scanExp_append_point (e : ℤ) :
    scanExp (Literal.renderExp e ++ [46, 48]) = some (some e, [46, 48]) := by
  have hscan := scanDigits_append (s := [46, 48]) (natDigits_ne_nil e.natAbs)
    (fun u hu => isDigit_of_mem_natDigits hu) fun u us h => by rw [← (List.cons.inj h).1]; rfl
  unfold Literal.renderExp
  rw [List.cons_append, List.cons_append]
  split_ifs with hneg
  · simp only [scanExp, true_or, if_true, hscan, Option.map_some, digitsValue_natDigits]
    congr 3
    omega
  · simp only [scanExp, true_or, if_true, hscan, Option.map_some, digitsValue_natDigits]
    congr 3
    omega

/-- What comes behind the text of a positive double: `.0` or `0`. -/
def behind (d : Double) : JsString := if d.val.den = 1 then [46, 48] else [48]

/-- **Without an exponent the value stays.** -/
theorem exists_ofUnsigned_of_plain (neg : Bool)
    (h : roundQ (1 / 10 ^ 6) ≤ d.val ∧ d.val < 10 ^ 21) :
    ∃ l : Literal, Number.ofUnsigned neg (Number.renderPos d hd ++ behind d) = l.toNumber neg ∧
      roundQ l.value = d.val := by
  obtain ⟨hlow, hhigh⟩ := (pointOf_shortest d hd).mpr h
  have hne := shortest_ne_zero d hd
  have hok := layout_ok hne (shortest d hd).2
  have hexp := exp_layout hne (shortest d hd).2
  have hfrac := frac_layout_shortest hhigh hlow
  have hround := roundsTo_shortest d hd
  unfold RoundsTo at hround
  rw [← value_layout hne] at hround
  rw [if_pos ⟨hlow, hhigh⟩] at hexp
  unfold Number.renderPos behind
  clear hlow hhigh hne
  generalize layout (shortest d hd).1 (shortest d hd).2 = l at *
  obtain ⟨int, frac, exp⟩ := l
  dsimp only at hexp hfrac
  subst hexp
  have hint : int ≠ [] := by
    rcases hok.int_head with h | ⟨u, us, h, -⟩
    · exact ne_of_eq_of_ne h (List.cons_ne_nil _ _)
    · exact ne_of_eq_of_ne h (List.cons_ne_nil _ _)
  have hdigits : ∀ u ∈ frac ++ [48], isDigit u = true := by
    intro u hu
    rcases List.mem_append.mp hu with hu | hu
    · exact hok.frac_digits u hu
    · rw [List.mem_singleton.mp hu]
      rfl
  have hread := (@ofUnsigned_render int (frac ++ [48]) [] none neg hint hok.int_digits hdigits
    fun u us h => absurd h.symm (List.cons_ne_nil u us)).1 rfl
  refine ⟨⟨int, frac ++ [48], none⟩, ?_, ?_⟩
  · rw [← hread]
    congr 1
    unfold Literal.render
    by_cases hempty : frac = []
    · rw [if_pos (hfrac.mp hempty), hempty]
      simp
    · rw [if_neg fun hden => hempty (hfrac.mpr hden), if_neg hempty]
      simp
  · rw [value_append_zero]
    exact hround

/-- **With an exponent it does not.** -/
theorem ofUnsigned_of_not_plain (neg : Bool)
    (h : ¬ (roundQ (1 / 10 ^ 6) ≤ d.val ∧ d.val < 10 ^ 21)) :
    Number.ofUnsigned neg (Number.renderPos d hd ++ behind d) = .nan ∨
      ∃ l : Literal, Number.ofUnsigned neg (Number.renderPos d hd ++ behind d) = l.toNumber neg ∧
        roundQ l.value ≠ d.val := by
  have hpoint := fun hp => h ((pointOf_shortest d hd).mp hp)
  have hne := shortest_ne_zero d hd
  have hok := layout_ok hne (shortest d hd).2
  have hexp := exp_layout hne (shortest d hd).2
  have hround := roundsTo_shortest d hd
  have hlarge := (zpow_pointOf hne (shortest d hd).2).1
  unfold RoundsTo at hround
  rw [← value_layout hne] at hround hlarge
  rw [if_neg hpoint] at hexp
  unfold Number.renderPos behind
  generalize pointOf (shortest d hd).1 (shortest d hd).2 = k at *
  clear hne
  generalize layout (shortest d hd).1 (shortest d hd).2 = l at *
  obtain ⟨int, frac, exp⟩ := l
  dsimp only at hexp
  subst hexp
  have hint : int ≠ [] := by
    rcases hok.int_head with h | ⟨u, us, h, -⟩
    · exact ne_of_eq_of_ne h (List.cons_ne_nil _ _)
    · exact ne_of_eq_of_ne h (List.cons_ne_nil _ _)
  have hmark : ∀ w u us, Literal.renderExp (k - 1) ++ w = u :: us → isDigit u = false ∧ u ≠ 46 := by
    intro w u us heq
    unfold Literal.renderExp at heq
    rw [← (List.cons.inj heq).1]
    exact ⟨rfl, by decide⟩
  have hsplit : ∀ w, (⟨int, frac, some (k - 1)⟩ : Literal).render ++ w =
      (⟨int, frac, none⟩ : Literal).render ++ (Literal.renderExp (k - 1) ++ w) := by
    intro w
    unfold Literal.render
    simp
  rw [hsplit]
  split_ifs with hden
  · left
    refine (@ofUnsigned_render int frac _ none neg hint hok.int_digits hok.frac_digits
      (hmark [46, 48])).2 ?_
    intro exp heq
    rw [scanExp_append_point] at heq
    exact absurd (Prod.mk.inj (Option.some.inj heq)).2 (List.cons_ne_nil _ _)
  · right
    refine ⟨_, (ofUnsigned_render neg hint hok.int_digits hok.frac_digits (hmark [48])).1
      (scanExp_append_zero (k - 1)), ?_⟩
    -- a double that is no integer is not large, so the exponent is the one of a small one
    have hsmall : k ≤ -6 := by
      by_contra hk
      have hbig : (21 : ℤ) < k := by
        by_contra hle
        exact hpoint ⟨by omega, by omega⟩
      have hdouble : IsDouble ((2 : ℚ) ^ 60) := ⟨1, 60, by norm_num, by norm_num, by norm_num, by norm_num⟩
      have hle : (2 : ℚ) ^ 60 ≤ d.val := by
        rw [← hround]
        apply le_roundQ_of_isDouble hdouble
        refine le_trans ?_ hlarge
        calc (2 : ℚ) ^ 60 ≤ 10 ^ (21 : ℤ) := by norm_num
          _ ≤ _ := zpow_le_zpow_right₀ (by norm_num) (by omega)
      refine hden (d.isDouble.den_eq_one ?_)
      rw [abs_of_pos hd]
      exact le_trans (by norm_num) hle
    have hvalue : Literal.value ⟨int, frac, some (10 * (k - 1))⟩ =
        Literal.value ⟨int, frac, some (k - 1)⟩ * 10 ^ (9 * (k - 1)) := by
      unfold Literal.value
      rw [mul_assoc, ← zpow_add₀ (by norm_num)]
      dsimp only [Option.getD_some]
      congr 2
      ring
    have hpos : 0 < Literal.value ⟨int, frac, some (k - 1)⟩ :=
      (zpow_pos (by norm_num) _).trans_le hlarge
    generalize Literal.value ⟨int, frac, some (k - 1)⟩ = q at *
    have hscale : (10 : ℚ) ^ (9 * (k - 1)) ≤ 1 / 8 := by
      calc (10 : ℚ) ^ (9 * (k - 1)) ≤ 10 ^ (-1 : ℤ) := zpow_le_zpow_right₀ (by norm_num) (by omega)
        _ ≤ 1 / 8 := by norm_num
    -- the number is rounded from at most twice the double, and the double from a quarter of that
    have hupper : q ≤ 2 * d.val := by
      by_contra hgt
      have heq : Number.ofRat q = .finite d := Number.ofRat_of_roundQ hround hd.ne'
      exact Number.ofRat_ne hd (not_le.mp hgt).le heq
    intro heq
    have hhalf := roundQ_le_two_mul (q := q * 10 ^ (9 * (k - 1)))
      (mul_nonneg hpos.le (zpow_nonneg (by norm_num) _))
    rw [← hvalue, heq, hvalue] at hhalf
    have hquarter : q * 10 ^ (9 * (k - 1)) ≤ 2 * d.val * (1 / 8) :=
      mul_le_mul hupper hscale (zpow_nonneg (by norm_num) _) (by linarith)
    linarith

end behind

/-! ## Texts of Numbers -/

namespace Number

/-- The text of a Number, with `.0` behind it when it is an integer, and `0` when it is not. -/
def respell (x : Number) : JsString := if x.isInteger then x.toString ++ js ".0" else x.toString ++ js "0"

/-- `x === 0 || (Math.abs(x) >= 1e-6 && Math.abs(x) < 1e21)` -/
def plain (x : Number) : Bool :=
  x.eq (ofNat 0) || ((ofRat (1 / 10 ^ 6)).le x.abs && x.abs.lt (ofNat (10 ^ 21)))

/-- A double in terms of its magnitude. -/
theorem plain_finite {x : Double} (hx : x.val ≠ 0) :
    (finite x).plain = true ↔ roundQ (1 / 10 ^ 6) ≤ |x.val| ∧ |x.val| < 10 ^ 21 := by
  have hmillionth : ∃ y : Double, ofRat (1 / 10 ^ 6) = finite y ∧ y.val = roundQ (1 / 10 ^ 6) :=
    exists_ofRat_eq (by norm_num) isDouble_one (by norm_num)
  obtain ⟨y, hy, hyval⟩ := hmillionth
  have hbig : IsDouble (((10 ^ 21 : ℕ) : ℚ)) :=
    ⟨5 ^ 21, 21, by norm_num, by norm_num, by norm_num, by norm_num⟩
  have habs : ∃ z : Double, (finite x).abs = finite z ∧ z.val = |x.val| := by
    unfold abs
    dsimp only
    split_ifs with hneg
    · exact ⟨x.neg, rfl, (abs_of_neg hneg).symm⟩
    · exact ⟨x, rfl, (abs_of_nonneg (not_lt.mp hneg)).symm⟩
  obtain ⟨z, hz, hzval⟩ := habs
  have hzero : (finite x).eq (ofNat 0) = false := by
    rw [ofNat_zero, Bool.eq_false_iff]
    intro heq
    apply hx
    simpa [eq, place] using heq
  have hcast : ((10 ^ 21 : ℕ) : ℚ) = 10 ^ 21 := by rw [Nat.cast_pow, Nat.cast_ofNat]
  unfold plain
  rw [hzero, hy, hz, ofNat, ofRat_of_isDouble hbig, le_finite, lt_finite, hyval, hzval, Bool.false_or,
    Bool.and_eq_true, decide_eq_true_eq, decide_eq_true_eq]
  dsimp only
  rw [hcast]

/-- A number read from a literal of one sign or the other. -/
theorem toNumber_eq_iff {neg : Bool} {l : Literal} {x : Double} (hx : x.val ≠ 0)
    (hneg : neg = decide (x.val < 0)) : l.toNumber neg = finite x ↔ roundQ l.value = |x.val| := by
  subst hneg
  unfold Literal.toNumber
  by_cases hlt : x.val < 0
  · rw [decide_eq_true hlt, if_pos rfl, abs_of_neg hlt]
    by_cases hzero : l.value = 0
    · rw [if_pos hzero, hzero, roundQ_zero]
      constructor
      · intro h
        exact absurd h (by simp)
      · intro h
        linarith
    · rw [if_neg hzero]
      constructor
      · intro h
        rw [← roundQ_of_ofRat h, roundQ_neg, neg_neg]
      · intro h
        apply ofRat_of_roundQ _ hx
        rw [roundQ_neg, h, neg_neg]
  · rw [decide_eq_false hlt, if_neg Bool.false_ne_true, abs_of_nonneg (not_lt.mp hlt)]
    exact ⟨roundQ_of_ofRat, fun h => ofRat_of_roundQ h hx⟩

/-- Only the Number itself is equal to it, unless it is zero. -/
theorem eq_finite_iff {a : Number} {x : Double} (hx : x.val ≠ 0) :
    a.eq (finite x) = true ↔ a = finite x := by
  constructor
  · exact eq_of_eq_finite hx
  · rintro rfl
    exact decide_eq_true rfl

/-- No unit of the respelled text is white space or the letter of a radix. -/
theorem mem_respell (x : Number) (hfinite : x.isFinite = true) :
    ∀ u ∈ x.respell, isDigit u = true ∨ u ∈ js ".e+-" := by
  have htext : ∀ u ∈ x.toString, isDigit u = true ∨ u ∈ js ".e+-" := by
    cases x with
    | nan => exact absurd hfinite Bool.false_ne_true
    | infinity neg => exact absurd hfinite Bool.false_ne_true
    | negZero => exact List.forall_mem_singleton.mpr (.inl rfl)
    | finite x =>
      unfold toString
      dsimp only
      split_ifs with hx hn
      · exact mem_render_units (layout_ok (shortest_ne_zero x hx) _)
      · refine List.forall_mem_cons.mpr ⟨.inr (by decide), ?_⟩
        exact mem_render_units (layout_ok (shortest_ne_zero _ hn) _)
      · exact List.forall_mem_singleton.mpr (.inl rfl)
  unfold respell
  split_ifs
  · rw [List.forall_mem_append]
    exact ⟨htext, by decide⟩
  · rw [List.forall_mem_append]
    exact ⟨htext, by decide⟩

/-- Nothing of it is trimmed off. -/
theorem trim_respell {x : Number} (hfinite : x.isFinite = true) : trim x.respell = x.respell := by
  apply trim_of_forall
  intro u hu
  rcases mem_respell x hfinite u hu with hdigit | hmem
  · exact (not_isWhiteSpace_of_isDigit hdigit).1
  · exact (by decide : ∀ v ∈ js ".e+-", isWhiteSpace v = false) u hmem

/-- The text of a positive double is read without its sign, and with it. -/
theorem coerce_renderPos {d : Double} (hd : 0 < d.val) {w : JsString}
    (hw : ∀ u ∈ renderPos d hd ++ w, isDigit u = true ∨ u ∈ js ".e+-") :
    coerce (renderPos d hd ++ w) = ofUnsigned false (renderPos d hd ++ w) ∧
      coerce (45 :: (renderPos d hd ++ w)) = ofUnsigned true (renderPos d hd ++ w) := by
  have hunit : ∀ u ∈ js ".e+-", isWhiteSpace u = false ∧ radixOf u = none := by decide
  have hdigit : ∀ u, isDigit u = true → isWhiteSpace u = false ∧ radixOf u = none := by
    intro u hu
    refine ⟨(not_isWhiteSpace_of_isDigit hu).1, ?_⟩
    unfold radixOf
    rw [if_neg, if_neg, if_neg] <;> (rintro (rfl | rfl) <;> exact absurd hu (by decide))
  have hall : ∀ u ∈ renderPos d hd ++ w, isWhiteSpace u = false ∧ radixOf u = none := by
    intro u hu
    rcases hw u hu with h | h
    · exact hdigit u h
    · exact hunit u h
  obtain ⟨u, us, heq, hu⟩ := exists_renderPos_eq_cons hd
  constructor
  · rw [heq, List.cons_append] at hall ⊢
    exact coerce_of_head hu hall
  · exact coerce_of_minus fun v hv => (hall v hv).1

/-- What the digits behind the text of a double of either sign leave of it. -/
theorem ofUnsigned_behind_iff {x d : Double} (hd : 0 < d.val) (habs : |x.val| = d.val) :
    ofUnsigned (decide (x.val < 0)) (renderPos d hd ++ behind d) = finite x ↔
      (finite x).plain = true := by
  have hx : x.val ≠ 0 := abs_pos.mp (habs ▸ hd)
  rw [plain_finite hx, habs]
  constructor
  · intro h
    by_contra hplain
    rcases ofUnsigned_of_not_plain (decide (x.val < 0)) hplain with hnan | ⟨l, hl, hvalue⟩
    · rw [hnan] at h
      exact absurd h (by simp)
    · rw [hl, toNumber_eq_iff hx rfl, habs] at h
      exact hvalue h
  · intro hplain
    obtain ⟨l, hl, hvalue⟩ := exists_ofUnsigned_of_plain (decide (x.val < 0)) hplain
    rw [hl, toNumber_eq_iff hx rfl, habs]
    exact hvalue

/-- What is behind the text of a double of either sign. -/
theorem respell_finite {x d : Double} (hden : x.val.den = d.val.den) :
    (finite x).respell = (finite x).toString ++ behind d := by
  unfold respell behind
  by_cases h : d.val.den = 1
  · have hint : (finite x).isInteger = true := decide_eq_true (hden.trans h)
    rw [if_pos h, if_pos hint]
    rfl
  · have hint : ¬ (finite x).isInteger = true := fun hint => h (hden.symm.trans (of_decide_eq_true hint))
    rw [if_neg h, if_neg hint]
    rfl

/-- Both zeros are written `0.0`. -/
theorem coerce_zero : coerce (js "0.0") = ofNat 0 := by
  have hone : ∀ u ∈ ([48] : JsString), isDigit u = true := List.forall_mem_singleton.mpr rfl
  have hread : ofUnsigned false ([48] ++ 46 :: [48]) = ofNat 0 := by
    rw [ofUnsigned_of_parts hone hone (.inl rfl), if_neg (by simp)]
    have hvalue : digitsValue ([48] ++ [48]) = 0 := rfl
    rw [hvalue, Nat.cast_zero, zero_div]
    rfl
  exact (coerce_of_head (u := 48) (s := [46, 48]) rfl (by decide)).trans hread

/-- **A respelled Number is read as the same Number exactly when its text has no exponent.** -/
theorem coerce_respell_iff {x : Number} (hfinite : x.isFinite = true) :
    (coerce x.respell).eq x = true ↔ x.plain = true := by
  have hmem := mem_respell x hfinite
  cases x with
  | nan => exact absurd hfinite Bool.false_ne_true
  | infinity neg => exact absurd hfinite Bool.false_ne_true
  | negZero =>
    have htext : negZero.respell = js "0.0" := by decide
    rw [htext, coerce_zero, ofNat_zero]
    exact ⟨fun _ => by unfold plain; rw [ofNat_zero]; rfl, fun _ => rfl⟩
  | finite x =>
    rcases lt_trichotomy x.val 0 with hneg | hval | hpos
    · have hd : 0 < x.neg.val := neg_pos.mpr hneg
      have htext : (finite x).respell = 45 :: (renderPos x.neg hd ++ behind x.neg) := by
        have hrender : (finite x).toString = 45 :: renderPos x.neg hd := by
          unfold toString
          exact (dif_neg hneg.not_gt).trans (dif_pos (show 0 < -x.val from hd))
        rw [respell_finite (Rat.den_neg_eq_den x.val).symm, hrender]
        rfl
      rw [htext] at hmem ⊢
      have hread := (coerce_renderPos hd fun u hu => hmem u (List.mem_cons_of_mem _ hu)).2
      rw [hread, eq_finite_iff hneg.ne, ← ofUnsigned_behind_iff hd (abs_of_neg hneg), decide_eq_true hneg]
    · have hx : finite x = ofNat 0 := by
        rw [ofNat_zero]
        exact congrArg finite (Double.eq_of_val hval)
      have htext : (finite x).respell = js "0.0" := by
        have hint : (finite x).isInteger = true := by
          unfold isInteger
          dsimp only
          rw [hval]
          rfl
        have hrender : (finite x).toString = [48] := by
          unfold toString
          dsimp only
          rw [dif_neg (by rw [hval]; norm_num), dif_neg (by rw [hval]; norm_num)]
        unfold respell
        rw [if_pos hint, hrender]
        rfl
      have heq := eq_ofNat_self 0
      rw [htext, coerce_zero, hx]
      exact ⟨fun _ => by unfold plain; rw [heq]; rfl, fun _ => heq⟩
    · have htext : (finite x).respell = renderPos x hpos ++ behind x := by
        rw [respell_finite rfl]
        unfold toString
        dsimp only
        rw [dif_pos hpos]
      rw [htext] at hmem ⊢
      have hread := (coerce_renderPos hpos hmem).1
      rw [hread, eq_finite_iff hpos.ne', ← ofUnsigned_behind_iff hpos (abs_of_pos hpos),
        decide_eq_false hpos.not_gt]

end Number

end Js
