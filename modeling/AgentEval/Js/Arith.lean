import AgentEval.Js.Decimal

/-!
# More arithmetic on Numbers

Products, extrema, sums and fixed-point texts, for the modules that compute with scores; `sortBy` is
`Array.prototype.sort` with a comparator, which is stable.
-/

namespace Js.Number

/-- `a * b`. -/
def mul (a b : Number) : Number :=
  match a, b with
  | nan, _ => nan
  | _, nan => nan
  | infinity s, infinity t => infinity (s != t)
  | infinity s, y => if y.toRat = 0 then nan else infinity (s != y.signBit)
  | x, infinity t => if x.toRat = 0 then nan else infinity (x.signBit != t)
  | x, y =>
    if x.toRat * y.toRat = 0 then zero (x.signBit != y.signBit) else ofRat (x.toRat * y.toRat)

/-- `Math.abs`. -/
def abs : Number → Number
  | nan => nan
  | infinity _ => infinity false
  | negZero => ofNat 0
  | finite x => if x.val < 0 then finite x.neg else finite x

/-- `Math.max(a, b)`. -/
def max (a b : Number) : Number :=
  if a = nan ∨ b = nan then nan
  else if a.lt b then b
  else if b.lt a then a
  else if a = negZero then b else a

/-- `Math.min(a, b)`. -/
def min (a b : Number) : Number :=
  if a = nan ∨ b = nan then nan
  else if a.lt b then a
  else if b.lt a then b
  else if a = negZero then a else b

/-- `Math.ceil`. -/
def ceil (x : Number) : Number := x.neg.floor.neg

/-- `Math.round`: to the nearest whole number, a half up. -/
def round : Number → Number
  | finite x => if ⌊x.val + 1 / 2⌋ = 0 then zero (x.val < 0) else ofInt ⌊x.val + 1 / 2⌋
  | x => x

/-- `xs.reduce((a, b) => a + b, 0)`. -/
def sum (xs : List Number) : Number := xs.foldl add (ofNat 0)

/-- `x >>> 0`. -/
def toUint32 (x : Number) : UInt32 := UInt32.ofNat (trunc x.toRat % 2 ^ 32).toNat

/-- `xs[x]`, for a Number that may be no index. -/
def itemAt {α : Type} (xs : List α) (x : Number) : Option α :=
  match x with
  | finite d => if d.val = ⌊d.val⌋ ∧ 0 ≤ d.val then xs[⌊d.val⌋₊]? else none
  | negZero => xs[0]?
  | _ => none

/-- `xs.sort(compare)`: what the comparator does not tell apart keeps its order. -/
def sortBy {α : Type} (compare : α → α → Number) (xs : List α) : List α :=
  xs.mergeSort fun a b => !(ofNat 0).lt (compare a b)

/-- The text of `n / 10 ^ k` with `k` digits after the point. -/
def fixedDigits (n k : ℕ) : JsString :=
  let ds := List.replicate (k + 1 - (natDigits n).length) 48 ++ natDigits n
  if k = 0 then ds else ds.take (ds.length - k) ++ js "." ++ ds.drop (ds.length - k)

/-- `x.toFixed(k)`: of two texts as near, the one of the larger magnitude. -/
def toFixed (x : Number) (k : ℕ) : JsString :=
  match x with
  | negZero => fixedDigits 0 k
  | finite y =>
    if |y.val| < 10 ^ 21 then
      (if y.val < 0 then js "-" else []) ++ fixedDigits ⌊|y.val| * 10 ^ k + 1 / 2⌋₊ k
    else toString x
  | _ => toString x

/-! ## Computing with doubles -/

/-- Adding two integers. -/
theorem add_ofInt {a b : ℤ} (ha : |a| < 2 ^ 53) (hb : |b| < 2 ^ 53) :
    (ofInt a).add (ofInt b) = ofInt (a + b) := by
  rw [add, ofInt_eq ha, ofInt_eq hb, neg]
  dsimp only
  split_ifs with hzero
  · change ofRat ((a : ℚ) - 0) = _
    rw [ofInt, sub_zero, Int.cast_add, hzero, add_zero]
  · change ofRat ((a : ℚ) - -b) = _
    rw [ofInt, sub_neg_eq_add, Int.cast_add]

/-- The sum of small natural numbers. -/
theorem sum_ofNat {ns : List ℕ} (h : ns.sum < 2 ^ 53) : sum (ns.map ofNat) = ofNat ns.sum := by
  have hfrom : ∀ (a : ℕ), a + ns.sum < 2 ^ 53 →
      (ns.map ofNat).foldl add (ofNat a) = ofNat (a + ns.sum) := by
    clear h
    induction ns with
    | nil => exact fun a _ => rfl
    | cons n ns ih =>
      intro a ha
      rw [List.sum_cons, ← add_assoc] at ha ⊢
      rw [List.map_cons, List.foldl_cons, add_ofNat (by omega) (by omega)]
      exact ih _ ha
  rw [sum, hfrom 0 (by rwa [zero_add]), zero_add]

/-- Doubles in order. -/
@[simp] theorem lt_finite (x y : Double) : (finite x).lt (finite y) = decide (x.val < y.val) := by
  simp [lt, place]

/-- Doubles in order or equal. -/
@[simp] theorem le_finite (x y : Double) : (finite x).le (finite y) = decide (x.val ≤ y.val) := by
  simp [le, place]

/-- The smaller of two doubles. -/
theorem min_finite (x y : Double) :
    (finite x).min (finite y) = if x.val < y.val then finite x else finite y := by
  unfold min
  simp

/-- The larger of two doubles. -/
theorem max_finite (x y : Double) :
    (finite x).max (finite y) = if x.val < y.val then finite y else finite x := by
  unfold max
  simp

/-- The difference of two doubles. -/
theorem sub_finite (x y : Double) : (finite x).sub (finite y) = ofRat (x.val - y.val) := rfl

/-- The quotient of two doubles. -/
theorem div_finite (x y : Double) : (finite x).div (finite y) =
    if y.val = 0 then
      if x.val = 0 then nan else infinity ((finite x).signBit != (finite y).signBit)
    else if x.val = 0 then zero ((finite x).signBit != (finite y).signBit)
    else ofRat (x.val / y.val) := rfl

/-- The product of two doubles. -/
theorem mul_finite (x y : Double) : (finite x).mul (finite y) =
    if x.val * y.val = 0 then zero ((finite x).signBit != (finite y).signBit)
    else ofRat (x.val * y.val) := rfl

/-- The quotient of an integer and a natural number. -/
theorem div_ofInt {a : ℤ} {b : ℕ} (ha : |a| < 2 ^ 53) (hb : b < 2 ^ 53) (hb0 : b ≠ 0) :
    (ofInt a).div (ofNat b) = ofRat (a / b) := by
  have hb' : (b : ℚ) ≠ 0 := Nat.cast_ne_zero.mpr hb0
  have hsign : ¬ (b : ℚ) < 0 := not_lt.mpr (Nat.cast_nonneg b)
  rw [ofInt_eq ha, ofNat_eq hb, div_finite, if_neg hb']
  split_ifs with hzero
  · dsimp only at hzero
    simp [signBit, hzero, hsign, zero, ofNat]
  · rfl

/-- The product of a double that is not negative and a natural number. -/
theorem mul_ofNat {x : Double} {n : ℕ} (hx : 0 ≤ x.val) (hn : n < 2 ^ 53) :
    (finite x).mul (ofNat n) = ofRat (x.val * n) := by
  have hsign : ¬ (n : ℚ) < 0 := not_lt.mpr (Nat.cast_nonneg n)
  rw [ofNat_eq hn, mul_finite]
  split_ifs with hzero
  · dsimp only at hzero
    rw [hzero]
    simp [signBit, hsign, not_lt.mpr hx, zero, ofNat]
  · rfl

/-- A double times one. -/
theorem mul_ofNat_one {x : Double} (hx : 0 ≤ x.val) : (finite x).mul (ofNat 1) = finite x := by
  have hval : x.val * ((1 : ℕ) : ℚ) = x.val := by norm_num
  rw [mul_ofNat hx (by norm_num), hval, ofRat_val]

/-- Only zero is a multiple of itself. -/
theorem eq_zero_of_mul_ofNat {x : Double} {n : ℕ} (hx : 0 ≤ x.val) (hn : n < 2 ^ 53) (h2 : 2 ≤ n)
    (h : (finite x).mul (ofNat n) = finite x) : x.val = 0 := by
  rw [mul_ofNat hx hn] at h
  by_contra hne
  have hle : 2 * x.val ≤ x.val * n := by
    rw [mul_comm]
    exact mul_le_mul_of_nonneg_left (by exact_mod_cast h2) hx
  exact ofRat_ne (lt_of_le_of_ne hx (Ne.symm hne)) hle h

/-- What is not positive is not rounded to a positive Number. -/
theorem zero_lt_ofRat_of_nonpos {q : ℚ} (h : q ≤ 0) : (ofNat 0).lt (ofRat q) = false := by
  have hround : roundQ q ≤ 0 := by
    have := roundQ_nonneg (neg_nonneg.mpr h)
    rwa [roundQ_neg, neg_nonneg] at this
  rw [ofNat_eq (by norm_num)]
  unfold ofRat
  split_ifs with hlt hzero
  · simp [lt, place]
  · simpa using hround
  · rcases h.eq_or_lt with rfl | hneg
    · simp at hlt
    · rw [decide_eq_true hneg]
      simp [lt, place]

/-- What is not below a positive double is rounded to a positive Number. -/
theorem zero_lt_ofRat_of_le {d q : ℚ} (hd : IsDouble d) (hpos : 0 < d) (h : d ≤ q) :
    (ofNat 0).lt (ofRat q) = true := by
  have hround : 0 < roundQ q := hpos.trans_le (le_roundQ_of_isDouble hd h)
  have hq : ¬q < 0 := not_lt.mpr (hpos.le.trans h)
  rw [ofNat_eq (by norm_num)]
  unfold ofRat
  split_ifs with hlt hzero
  · exact absurd hzero.1 hround.ne'
  · simpa using hround
  · have htop : (((0 : ℕ) : ℚ) : WithTop ℚ) < ⊤ := WithTop.coe_lt_top _
    rw [decide_eq_false hq]
    exact decide_eq_true (WithBot.coe_lt_coe.mpr htop)

/-- The sign of the difference of two doubles. -/
theorem zero_lt_ofRat_sub {x y : ℚ} (hx : IsDouble x) (hy : IsDouble y) :
    (ofNat 0).lt (ofRat (x - y)) = decide (y < x) := by
  by_cases h : y < x
  · have hunit : IsDouble (2 ^ (-1074 : ℤ)) :=
      ⟨1, -1074, by norm_num, le_rfl, by norm_num, by rw [Int.cast_one, one_mul]⟩
    rw [decide_eq_true h, zero_lt_ofRat_of_le hunit (zpow_pos two_pos _)
      (le_sub_of_isDouble hx hy h)]
  · rw [decide_eq_false h, zero_lt_ofRat_of_nonpos (sub_nonpos.mpr (not_lt.mp h))]

/-- The opposite of a Number tells which it is. -/
theorem neg_injective {a b : Number} (h : a.neg = b.neg) : a = b := by
  have hneg : ∀ x : Number, x.neg.neg = x := by
    intro x
    cases x with
    | nan => rfl
    | infinity s => exact congrArg infinity (Bool.not_not s)
    | negZero =>
      change (ofNat 0).neg = negZero
      rw [ofNat_eq (by norm_num)]
      simp [neg]
    | finite x =>
      obtain ⟨v, hv⟩ := x
      change (if v = 0 then negZero else finite ⟨-v, hv.neg⟩).neg = finite ⟨v, hv⟩
      split_ifs with hzero
      · change ofNat 0 = finite ⟨v, hv⟩
        subst hzero
        rw [ofNat_eq (by norm_num)]
        simp
      · change (if -v = 0 then negZero else finite ⟨- -v, hv.neg.neg⟩) = finite ⟨v, hv⟩
        rw [if_neg fun h0 => hzero (neg_eq_zero.mp h0)]
        simp
  rw [← hneg a, h, hneg b]

/-- A quotient of natural numbers, rounded down. -/
theorem floor_div {a b : ℕ} (h : IsDouble ((a : ℚ) / b)) :
    (ofRat ((a : ℚ) / b)).floor = ofNat (a / b) := by
  rw [ofRat_of_isDouble h]
  change ofInt ⌊(a : ℚ) / b⌋ = _
  rw [ofNat_eq_ofInt, Rat.floor_natCast_div_natCast]
  rfl

end Js.Number
