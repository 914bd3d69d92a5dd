import AgentEval.Js.Binary64
import Mathlib.Order.WithBot

/-!
# ECMAScript numbers

A `Number` is a binary64 value: not-a-number, a signed infinity, negative zero, or a finite double
(`Double`, a rational with a proof that it is one). The operators are those the repository uses,
each rounding its exact result once (`Number.ofRat`).

* Comparison (`Number.eq` for `===`, `Number.lt`, `Number.le`) is false as soon as one side is NaN.
* `Number.shr` and `Number.bitAnd` go through `ToInt32`, so they see 32 bits of their operands.
* The last section computes every operator on the natural numbers below `2 ^ 53` (below `2 ^ 31`
  where 32-bit conversion is involved): there the operators are those of `ℕ`.
-/

namespace Js

/-- A finite double other than negative zero. -/
structure Double where
  /-- The value. -/
  val : ℚ
  /-- The value is a double. -/
  isDouble : IsDouble val
  deriving DecidableEq

/-- The double of the other sign. -/
def Double.neg (x : Double) : Double := ⟨-x.val, x.isDouble.neg⟩

/-- A double is its value. -/
theorem Double.eq_of_val {x y : Double} (h : x.val = y.val) : x = y := by
  cases x
  cases y
  cases h
  rfl

@[simp] theorem Double.neg_val (x : Double) : x.neg.val = -x.val := rfl

/-- The value of type Number. -/
inductive Number where
  /-- Not a number. -/
  | nan
  /-- An infinity, negative when the flag is set. -/
  | infinity (neg : Bool)
  /-- `-0`. -/
  | negZero
  /-- A finite value other than `-0`. -/
  | finite (x : Double)
  deriving DecidableEq

namespace Number

/-- The Number nearest to `q`: an overflow gives an infinity, a negative underflow `-0`. -/
def ofRat (q : ℚ) : Number :=
  if h : |roundQ q| < 2 ^ (1024 : ℤ) then
    if roundQ q = 0 ∧ q < 0 then .negZero else .finite ⟨roundQ q, isDouble_roundQ h⟩
  else .infinity (decide (q < 0))

/-- The Number of an integer. -/
def ofInt (n : ℤ) : Number := ofRat n

/-- The Number of a natural number. -/
def ofNat (n : ℕ) : Number := ofRat n

/-- The position of a Number on the extended line; NaN has none. -/
def place : Number → Option (WithBot (WithTop ℚ))
  | nan => none
  | infinity true => some ⊥
  | infinity false => some ((⊤ : WithTop ℚ) : WithBot (WithTop ℚ))
  | negZero => some (((0 : ℚ) : WithTop ℚ) : WithBot (WithTop ℚ))
  | finite x => some ((x.val : WithTop ℚ) : WithBot (WithTop ℚ))

/-- `a === b` on Numbers. -/
def eq (a b : Number) : Bool :=
  match a.place, b.place with
  | some x, some y => decide (x = y)
  | _, _ => false

/-- `a < b` on Numbers. -/
def lt (a b : Number) : Bool :=
  match a.place, b.place with
  | some x, some y => decide (x < y)
  | _, _ => false

/-- `a <= b` on Numbers. -/
def le (a b : Number) : Bool :=
  match a.place, b.place with
  | some x, some y => decide (x ≤ y)
  | _, _ => false

/-- `Number.isFinite`. -/
def isFinite : Number → Bool
  | negZero => true
  | finite _ => true
  | _ => false

/-- The rational value of a finite Number, `0` for the others. -/
def toRat : Number → ℚ
  | finite x => x.val
  | _ => 0

/-- The sign bit. -/
def signBit : Number → Bool
  | nan => false
  | infinity s => s
  | negZero => true
  | finite x => decide (x.val < 0)

/-- The zero of a given sign. -/
def zero (neg : Bool) : Number := if neg then negZero else ofNat 0

/-- `a - b`. -/
def sub (a b : Number) : Number :=
  match a, b with
  | nan, _ => nan
  | _, nan => nan
  | infinity s, infinity t => if s = t then nan else infinity s
  | infinity s, _ => infinity s
  | _, infinity t => infinity (!t)
  | negZero, finite y => if y.val = 0 then negZero else ofRat (-y.val)
  | x, y => ofRat (x.toRat - y.toRat)

/-- `-a`. -/
def neg : Number → Number
  | nan => nan
  | infinity s => infinity (!s)
  | negZero => ofNat 0
  | finite x => if x.val = 0 then negZero else finite x.neg

/-- `a + b`. -/
def add (a b : Number) : Number := sub a (neg b)

/-- `a / b`. -/
def div (a b : Number) : Number :=
  match a, b with
  | nan, _ => nan
  | _, nan => nan
  | infinity _, infinity _ => nan
  | infinity s, y => infinity (s != y.signBit)
  | x, infinity t => zero (x.signBit != t)
  | x, y =>
    if y.toRat = 0 then
      if x.toRat = 0 then nan else infinity (x.signBit != y.signBit)
    else if x.toRat = 0 then zero (x.signBit != y.signBit)
    else ofRat (x.toRat / y.toRat)

/-- A rational truncated toward zero. -/
def trunc (q : ℚ) : ℤ := if q < 0 then -⌊-q⌋ else ⌊q⌋

/-- `a % b`: the remainder of the truncated quotient, with the sign of the dividend. -/
def mod (a b : Number) : Number :=
  match a, b with
  | nan, _ => nan
  | _, nan => nan
  | infinity _, _ => nan
  | x, infinity _ => x
  | x, y =>
    if y.toRat = 0 then nan
    else if x.toRat - y.toRat * trunc (x.toRat / y.toRat) = 0 then zero x.signBit
    else ofRat (x.toRat - y.toRat * trunc (x.toRat / y.toRat))

/-- `Math.floor`. -/
def floor : Number → Number
  | finite x => ofInt ⌊x.val⌋
  | x => x

/-- The abstract operation `ToInt32`. -/
def toInt32 (x : Number) : ℤ := (trunc x.toRat).bmod (2 ^ 32)

/-- `a >> k`. -/
def shr (a : Number) (k : ℕ) : Number := ofInt (a.toInt32 >>> (k % 32))

/-- `a & b`. -/
def bitAnd (a b : Number) : Number :=
  ofInt (BitVec.ofInt 32 a.toInt32 &&& BitVec.ofInt 32 b.toInt32).toInt

/-! ## Rounding back to the exact value -/

/-- A double that is not a negative zero denotes itself. -/
theorem ofRat_of_isDouble {q : ℚ} (h : IsDouble q) : ofRat q = finite ⟨q, h⟩ := by
  have hq := roundQ_of_isDouble h
  have hlt := h.abs_lt
  have hneg : ¬ (q = 0 ∧ q < 0) := by
    rintro ⟨rfl, h0⟩
    exact lt_irrefl _ h0
  unfold ofRat
  simp only [hq, hlt, hneg, if_false, dite_true]

/-- An integer below `2 ^ 53` is exact. -/
theorem ofInt_eq {n : ℤ} (h : |n| < 2 ^ 53) : ofInt n = finite ⟨n, isDouble_intCast h⟩ :=
  ofRat_of_isDouble _

/-- A natural number below `2 ^ 53` is exact. -/
theorem ofNat_eq_ofInt (n : ℕ) : ofNat n = ofInt n := by simp [ofNat, ofInt]

/-- A small natural number as a double. -/
theorem isDouble_natCast {n : ℕ} (h : n < 2 ^ 53) : IsDouble (n : ℚ) := by
  have := isDouble_intCast (n := n) (by rw [abs_of_nonneg (by positivity)]; exact_mod_cast h)
  exact_mod_cast this

/-- A natural number below `2 ^ 53` is exact. -/
theorem ofNat_eq {n : ℕ} (h : n < 2 ^ 53) : ofNat n = finite ⟨n, isDouble_natCast h⟩ :=
  ofRat_of_isDouble _

/-- The Number `0`. -/
theorem ofNat_zero : ofNat 0 = finite ⟨0, isDouble_zero⟩ := by
  rw [ofNat, Nat.cast_zero, ofRat_of_isDouble isDouble_zero]

/-- The Number `1`. -/
theorem ofNat_one : ofNat 1 = finite ⟨1, isDouble_one⟩ := by
  rw [ofNat, Nat.cast_one, ofRat_of_isDouble isDouble_one]

/-- The value of a finite double is a double, and it is that value's Number. -/
theorem ofRat_val (x : Double) : ofRat x.val = finite x := ofRat_of_isDouble x.isDouble

/-- Distinct small naturals are distinct Numbers. -/
theorem ofNat_injOn {a b : ℕ} (ha : a < 2 ^ 53) (hb : b < 2 ^ 53) (h : ofNat a = ofNat b) :
    a = b := by
  rw [ofNat_eq ha, ofNat_eq hb] at h
  injection h with h
  injection h with h
  exact_mod_cast h

/-! ## 32-bit integers -/

/-- `ToInt32` gives a 32-bit integer. -/
theorem toInt32_bounds (x : Number) : -2 ^ 31 ≤ x.toInt32 ∧ x.toInt32 < 2 ^ 31 := by
  have h₁ := Int.le_bmod (x := trunc x.toRat) (m := 2 ^ 32) (by norm_num)
  have h₂ := Int.bmod_lt (x := trunc x.toRat) (m := 2 ^ 32) (by norm_num)
  rw [toInt32]
  norm_num at h₁ h₂ ⊢
  exact ⟨h₁, h₂⟩

/-- Truncation of an integer. -/
@[simp] theorem trunc_intCast (n : ℤ) : trunc (n : ℚ) = n := by
  unfold trunc
  split_ifs
  · rw [← Int.cast_neg, Int.floor_intCast, neg_neg]
  · exact Int.floor_intCast n

/-- `ToInt32` is the identity on 32-bit integers. -/
theorem toInt32_ofInt {i : ℤ} (h₁ : -2 ^ 31 ≤ i) (h₂ : i < 2 ^ 31) : toInt32 (ofInt i) = i := by
  rw [ofInt_eq (by rw [abs_lt]; omega)]
  simp only [toInt32, toRat, trunc_intCast]
  rw [Int.bmod_eq_of_le] <;> omega

/-- A right shift by one halves a 32-bit integer, rounding down. -/
theorem shr_one_eq (x : Number) : shr x 1 = ofInt (x.toInt32 / 2) := by
  rw [shr, Int.shiftRight_eq_div_pow]
  rfl

/-! ## Comparison -/

/-- `===` is symmetric. -/
theorem eq_symm (a b : Number) : eq a b = eq b a := by
  unfold eq
  cases a.place with
  | none => cases b.place <;> rfl
  | some x =>
    cases b.place with
    | none => rfl
    | some y => exact decide_eq_decide.mpr ⟨Eq.symm, Eq.symm⟩

/-- The operators see `+0` and `-0` as one value, and every other pair of equal Numbers is a
single Number. -/
theorem eq_of_eq_finite {a : Number} {x : Double} (hx : x.val ≠ 0) (h : eq a (finite x) = true) :
    a = finite x := by
  rcases x with ⟨q, hq⟩
  cases a with
  | nan => simp [eq, place] at h
  | infinity s => cases s <;> simp [eq, place] at h
  | negZero =>
    simp only [eq, place, decide_eq_true_eq, WithBot.coe_inj, WithTop.coe_inj] at h
    exact absurd h.symm hx
  | finite y =>
    simp only [eq, place, decide_eq_true_eq, WithBot.coe_inj, WithTop.coe_inj] at h
    rcases y with ⟨r, hr⟩
    simp only at h
    subst h
    rfl

/-- `<=` does not tell Numbers apart that `===` does not. -/
theorem le_congr_right {a b c : Number} (h : eq b c = true) : le a b = le a c := by
  rw [eq] at h
  rw [le, le]
  cases hb : b.place with
  | none =>
    rw [hb] at h
    cases h
  | some x =>
    cases hc : c.place with
    | none =>
      rw [hb, hc] at h
      cases h
    | some y =>
      rw [hb, hc] at h
      rw [of_decide_eq_true h]

/-- `<` implies `<=`. -/
theorem le_of_lt {a b : Number} (h : lt a b = true) : le a b = true := by
  rw [lt] at h
  rw [le]
  cases ha : a.place with
  | none =>
    rw [ha] at h
    cases h
  | some x =>
    cases hb : b.place with
    | none =>
      rw [ha, hb] at h
      cases h
    | some y =>
      rw [ha, hb] at h
      exact decide_eq_true (of_decide_eq_true h).le

section naturals

variable {a b : ℕ}

/-- `===` on naturals. -/
@[simp] theorem eq_ofNat (ha : a < 2 ^ 53) (hb : b < 2 ^ 53) :
    eq (ofNat a) (ofNat b) = decide (a = b) := by
  rw [ofNat_eq ha, ofNat_eq hb]
  simp [eq, place]

/-- `<` on naturals. -/
@[simp] theorem lt_ofNat (ha : a < 2 ^ 53) (hb : b < 2 ^ 53) :
    lt (ofNat a) (ofNat b) = decide (a < b) := by
  rw [ofNat_eq ha, ofNat_eq hb]
  simp [lt, place]

/-- `<=` on naturals. -/
@[simp] theorem le_ofNat (ha : a < 2 ^ 53) (hb : b < 2 ^ 53) :
    le (ofNat a) (ofNat b) = decide (a ≤ b) := by
  rw [ofNat_eq ha, ofNat_eq hb]
  simp [le, place]

/-- The only other Number equal to a small natural is `-0`. -/
theorem eq_ofNat_cases {x : Number} (hb : b < 2 ^ 53) (h : eq x (ofNat b) = true) :
    x = ofNat b ∨ x = negZero ∧ b = 0 := by
  rw [ofNat_eq hb] at h ⊢
  rcases Nat.eq_zero_or_pos b with rfl | hpos
  · cases x with
    | nan => simp [eq, place] at h
    | infinity s =>
      cases s <;> simp only [eq, place, decide_eq_true_eq] at h
      · exact absurd (WithBot.coe_inj.mp h) WithTop.top_ne_coe
      · exact absurd h WithBot.bot_ne_coe
    | negZero => exact Or.inr ⟨rfl, rfl⟩
    | finite y =>
      rcases y with ⟨q, hq⟩
      simp only [eq, place, decide_eq_true_eq, WithBot.coe_inj, WithTop.coe_inj] at h
      subst h
      exact Or.inl rfl
  · exact Or.inl (eq_of_eq_finite (by simpa using hpos.ne') h)

/-- A rounded rational has a place on the line. -/
theorem isSome_place_ofRat (q : ℚ) : (ofRat q).place.isSome := by
  unfold ofRat
  split_ifs
  · rfl
  · rfl
  · unfold place
    split <;> simp_all

/-- A natural number has a place on the line. -/
theorem isSome_place_ofNat (n : ℕ) : (ofNat n).place.isSome := isSome_place_ofRat n

/-- `===` with a natural number. -/
theorem eq_ofNat_iff {x : Number} {n : ℕ} : x.eq (ofNat n) = true ↔ x.place = (ofNat n).place := by
  obtain ⟨q, hq⟩ := Option.isSome_iff_exists.mp (isSome_place_ofNat n)
  rw [eq, hq]
  cases x.place with
  | none => simp
  | some y => simp

/-- A nonnegative rational rounds to a double or overflows. -/
theorem place_ofRat {q : ℚ} (hq : 0 ≤ q) :
    (ofRat q).place = some ((roundQ q : WithTop ℚ) : WithBot (WithTop ℚ)) ∨
      (ofRat q).place = some ((⊤ : WithTop ℚ) : WithBot (WithTop ℚ)) := by
  have hneg : ¬ q < 0 := not_lt.mpr hq
  unfold ofRat
  split_ifs
  · exact absurd (And.right ‹_›) hneg
  · exact Or.inl rfl
  · right
    simp only [hneg, decide_false]
    rfl

/-- A positive natural, rounded or not, is equal to itself only. -/
theorem eq_of_eq_ofNat {x : Number} {n : ℕ} (hn : 0 < n) (h : eq x (ofNat n) = true) :
    x = ofNat n := by
  have hround : (1 : ℚ) ≤ roundQ n := by
    apply le_roundQ_of_isDouble
    · simpa using isDouble_natCast (show 1 < 2 ^ 53 by norm_num)
    · exact_mod_cast hn
  have hneg : ¬ ((n : ℚ) < 0) := not_lt.mpr (Nat.cast_nonneg n)
  unfold ofNat ofRat at h ⊢
  split_ifs at h ⊢ with hlt hzero
  · exact absurd hzero.2 hneg
  · apply eq_of_eq_finite _ h
    dsimp only
    linarith
  · simp only [hneg, decide_false] at h ⊢
    unfold eq at h
    cases x with
    | nan => cases h
    | infinity s =>
      cases s with
      | true => exact absurd (of_decide_eq_true h) WithBot.bot_ne_coe
      | false => rfl
    | negZero => exact absurd (WithBot.coe_inj.mp (of_decide_eq_true h)) WithTop.coe_ne_top
    | finite y => exact absurd (WithBot.coe_inj.mp (of_decide_eq_true h)) WithTop.coe_ne_top

/-- A natural, rounded or not, is equal to itself. -/
theorem eq_ofNat_self (n : ℕ) : eq (ofNat n) (ofNat n) = true := eq_ofNat_iff.mpr rfl

/-- A small natural is at most everything above it, rounded or not. -/
theorem le_ofRat (hb : b < 2 ^ 53) {q : ℚ} (h : (b : ℚ) ≤ q) : le (ofNat b) (ofRat q) = true := by
  have hround : (b : ℚ) ≤ roundQ q := le_roundQ_of_isDouble (isDouble_natCast hb) h
  rw [le, ofNat_eq hb]
  rcases place_ofRat (le_trans (Nat.cast_nonneg b) h) with hp | hp
  · rw [hp]
    exact decide_eq_true (WithBot.coe_le_coe.mpr (WithTop.coe_le_coe.mpr hround))
  · rw [hp]
    exact decide_eq_true (WithBot.coe_le_coe.mpr le_top)

/-- `x <= y` rules out `y < x`. -/
theorem lt_eq_false_of_le {x y : Number} (h : le x y = true) : lt y x = false := by
  unfold le at h
  unfold lt
  cases hx : x.place with
  | none => cases y.place <;> rfl
  | some p =>
    cases hy : y.place with
    | none => rfl
    | some r =>
      rw [hx, hy] at h
      exact decide_eq_false (not_lt.mpr (of_decide_eq_true h))

/-- Between two places, not `x < y` is `y <= x`. -/
theorem le_of_lt_eq_false {x y : Number} (hx : x.place.isSome) (hy : y.place.isSome)
    (h : lt x y = false) : le y x = true := by
  obtain ⟨p, hp⟩ := Option.isSome_iff_exists.mp hx
  obtain ⟨r, hr⟩ := Option.isSome_iff_exists.mp hy
  rw [lt, hp, hr] at h
  rw [le, hp, hr]
  exact decide_eq_true (not_lt.mp (of_decide_eq_false h))

/-- A small natural is below every larger one, however that one is rounded. -/
theorem lt_ofNat_of_lt (hb : b + 1 < 2 ^ 53) (h : b < a) : lt (ofNat b) (ofNat a) = true := by
  have hle : ((b + 1 : ℕ) : ℚ) ≤ roundQ a :=
    le_roundQ_of_isDouble (isDouble_natCast hb) (by exact_mod_cast h)
  have hlt : (b : ℚ) < roundQ a := by
    push_cast at hle
    linarith
  rw [lt, ofNat_eq (show b < 2 ^ 53 by omega), ofNat]
  rcases place_ofRat (q := a) (by positivity) with hp | hp
  · rw [hp]
    exact decide_eq_true (WithBot.coe_lt_coe.mpr (WithTop.coe_lt_coe.mpr hlt))
  · rw [hp]
    exact decide_eq_true (WithBot.coe_lt_coe.mpr (WithTop.coe_lt_top _))

/-! ## Arithmetic on naturals -/

/-- Subtraction on naturals. -/
theorem sub_ofNat (ha : a < 2 ^ 53) (hba : b ≤ a) : sub (ofNat a) (ofNat b) = ofNat (a - b) := by
  have hb : b < 2 ^ 53 := by omega
  rw [ofNat_eq ha, ofNat_eq hb]
  change ofRat ((a : ℚ) - b) = ofRat ((a - b : ℕ) : ℚ)
  rw [Nat.cast_sub hba]

/-- A natural number is a double that is at least every small one below it, or the infinity. -/
theorem ofNat_cases (b : ℕ) : (∃ x : Double, ofNat b = finite x ∧
    ∀ n : ℕ, n < 2 ^ 53 → n ≤ b → (n : ℚ) ≤ x.val) ∨ ofNat b = infinity false := by
  have hneg : ¬ ((b : ℚ) < 0) := not_lt.mpr (Nat.cast_nonneg b)
  unfold ofNat ofRat
  split_ifs with hlt hzero
  · exact absurd hzero.2 hneg
  · refine .inl ⟨_, rfl, fun n hn hnb => ?_⟩
    exact le_roundQ_of_isDouble (isDouble_natCast hn) (Nat.cast_le.mpr hnb)
  · exact .inr (by rw [decide_eq_false hneg])

/-- Addition on naturals. -/
theorem add_ofNat (ha : a < 2 ^ 53) (hb : b < 2 ^ 53) : add (ofNat a) (ofNat b) = ofNat (a + b) := by
  rw [add, ofNat_eq ha, ofNat_eq hb, neg]
  dsimp only
  split_ifs with hzero
  · change ofRat ((a : ℚ) - 0) = _
    rw [ofNat, sub_zero, Nat.cast_add, hzero, add_zero]
  · change ofRat ((a : ℚ) - -b) = _
    rw [ofNat, sub_neg_eq_add, Nat.cast_add]

/-- A sum is at least every small natural below it, however it is rounded. -/
theorem le_add_ofNat (ha : a < 2 ^ 53) (hn : n < 2 ^ 53) (h : n ≤ a + b) :
    le (ofNat n) (add (ofNat a) (ofNat b)) = true := by
  by_cases hb : b < 2 ^ 53
  · rw [add_ofNat ha hb]
    exact le_ofRat hn (Nat.cast_le.mpr h)
  · rcases ofNat_cases b with ⟨x, hx, hle⟩ | hinf
    · have hlarge := hle n hn (hn.le.trans (not_lt.mp hb))
      have hpos : ((1 : ℕ) : ℚ) ≤ x.val := hle 1 (by norm_num) (by omega)
      rw [Nat.cast_one] at hpos
      rw [add, hx, ofNat_eq ha, neg, if_neg (by linarith)]
      change le _ (ofRat ((a : ℚ) - -x.val)) = true
      refine le_ofRat hn ?_
      have hnonneg : (0 : ℚ) ≤ a := Nat.cast_nonneg a
      linarith
    · rw [add, hinf, ofNat_eq ha, ofNat_eq hn]
      rfl

/-- A difference of two integers divided by a natural number has a place on the line. -/
theorem isSome_place_div_sub {m n : ℤ} (hm : |m| < 2 ^ 53) (hn : |n| < 2 ^ 53) {k : ℕ}
    (hk : 0 < k) (hk53 : k < 2 ^ 53) :
    (((ofInt m).sub (ofInt n)).div (ofNat k)).place.isSome := by
  have hk0 : (k : ℚ) ≠ 0 := by exact_mod_cast hk.ne'
  have hzero : ∀ s, (zero s).place.isSome := by
    intro s
    cases s with
    | true => rfl
    | false => exact isSome_place_ofNat 0
  have hdiv : ∀ x : Number, x.place.isSome → (x.div (ofNat k)).place.isSome := by
    intro x hx
    rw [ofNat_eq hk53]
    cases x with
    | nan => exact absurd hx (by simp [place])
    | infinity s =>
      change (infinity (s != _)).place.isSome
      cases s != (finite ⟨k, isDouble_natCast hk53⟩).signBit <;> rfl
    | negZero =>
      change (if (k : ℚ) = 0 then _ else _ : Number).place.isSome
      rw [if_neg hk0, if_pos (show negZero.toRat = 0 from rfl)]
      exact hzero _
    | finite x =>
      change (if (k : ℚ) = 0 then _ else _ : Number).place.isSome
      rw [if_neg hk0]
      split
      · exact hzero _
      · exact isSome_place_ofRat _
  refine hdiv _ ?_
  rw [ofInt_eq hm, ofInt_eq hn]
  exact isSome_place_ofRat _

/-- A nonnegative rational below a double does not overflow. -/
theorem exists_ofRat_eq {q d : ℚ} (hq : 0 ≤ q) (hd : IsDouble d) (hqd : q ≤ d) :
    ∃ x : Double, ofRat q = finite x ∧ x.val = roundQ q := by
  have hle : roundQ q ≤ d := by
    have h := le_roundQ_of_isDouble hd.neg (neg_le_neg hqd)
    rw [roundQ_neg] at h
    exact neg_le_neg_iff.mp h
  have hlt : |roundQ q| < 2 ^ (1024 : ℤ) := by
    rw [abs_of_nonneg (roundQ_nonneg hq)]
    exact hle.trans_lt ((le_abs_self d).trans_lt hd.abs_lt)
  refine ⟨⟨roundQ q, isDouble_roundQ hlt⟩, ?_, rfl⟩
  rw [ofRat, dif_pos hlt, if_neg fun h => not_lt.mpr hq h.2]

/-- The double of a rational. -/
theorem roundQ_of_ofRat {q : ℚ} {x : Double} (h : ofRat q = finite x) : roundQ q = x.val := by
  unfold ofRat at h
  split_ifs at h
  exact congrArg Double.val (finite.inj h)

/-- A rational is not rounded to half of it. -/
theorem ofRat_ne {q : ℚ} {x : Double} (hx : 0 < x.val) (h : 2 * x.val ≤ q) : ofRat q ≠ finite x := by
  intro heq
  obtain ⟨m, e, hm, he, -, hval⟩ := x.isDouble
  have hdouble : (m : ℚ) * 2 ^ (e + 1) = 2 * x.val := by
    rw [hval, zpow_add_one₀ two_ne_zero]
    ring
  have hle : (m : ℚ) * 2 ^ (e + 1) ≤ roundQ q := le_roundQ hm (by omega) (by rwa [hdouble])
  rw [hdouble, roundQ_of_ofRat heq] at hle
  linarith

/-- **A quotient rounded twice is not below the natural it should be above.** -/
theorem le_div_sub {m n : ℤ} (hm : |m| < 2 ^ 53) (hn : |n| < 2 ^ 53) {b k : ℕ} (hb : 0 < b)
    (hk : 0 < k) (hbk : b * k < 2 ^ 53) (h : n + b * k ≤ m) :
    le (ofNat b) (((ofInt m).sub (ofInt n)).div (ofNat k)) = true := by
  have hbk' : (0 : ℚ) < ((b * k : ℕ) : ℚ) := by exact_mod_cast Nat.mul_pos hb hk
  have hdiff : ((b * k : ℕ) : ℚ) ≤ (m : ℚ) - n := by
    have : ((n + b * k : ℤ) : ℚ) ≤ m := by exact_mod_cast h
    push_cast at this ⊢
    linarith
  have hsub : (ofInt m).sub (ofInt n) = ofRat ((m : ℚ) - n) := by
    rw [ofInt_eq hm, ofInt_eq hn]
    rfl
  have hbound : (m : ℚ) - n ≤ ((1 : ℤ) : ℚ) * 2 ^ (54 : ℤ) := by
    have h₁ : (m : ℚ) ≤ 2 ^ 53 := by exact_mod_cast (abs_lt.mp hm).2.le
    have h₂ : (-n : ℚ) ≤ 2 ^ 53 := by exact_mod_cast (neg_le_abs n).trans hn.le
    norm_num at h₁ h₂ ⊢
    linarith
  obtain ⟨x, hx, hval⟩ := exists_ofRat_eq (hbk'.le.trans hdiff)
    ⟨1, 54, by norm_num, by norm_num, by norm_num, rfl⟩ hbound
  have hxval : ((b * k : ℕ) : ℚ) ≤ x.val := by
    rw [hval]
    exact le_roundQ_of_isDouble (isDouble_natCast hbk) hdiff
  have hk53 : k < 2 ^ 53 := lt_of_le_of_lt (Nat.le_mul_of_pos_left k hb) hbk
  have hb53 : b < 2 ^ 53 := lt_of_le_of_lt (Nat.le_mul_of_pos_right b hk) hbk
  have hk0 : (0 : ℚ) < k := by exact_mod_cast hk
  have hdiv : (finite x).div (ofNat k) = ofRat (x.val / k) := by
    rw [ofNat_eq hk53]
    change (if (k : ℚ) = 0 then _ else if x.val = 0 then _ else _) = _
    rw [if_neg hk0.ne', if_neg (hbk'.trans_le hxval).ne']
    rfl
  rw [hsub, hx, hdiv]
  refine le_ofRat hb53 ((le_div_iff₀ hk0).mpr ?_)
  exact_mod_cast hxval

/-- A difference that is a multiple of the divisor is divided exactly. -/
theorem div_sub_of_eq {m n : ℤ} (hm : |m| < 2 ^ 53) (hn : |n| < 2 ^ 53) {a k : ℕ} (hk : 0 < k)
    (hak : a * k < 2 ^ 53) (hk53 : k < 2 ^ 53) (h : m = n + a * k) :
    ((ofInt m).sub (ofInt n)).div (ofNat k) = ofNat a := by
  have hk0 : (k : ℚ) ≠ 0 := by exact_mod_cast hk.ne'
  have hsub : (ofInt m).sub (ofInt n) = ofNat (a * k) := by
    rw [ofInt_eq hm, ofInt_eq hn]
    change ofRat ((m : ℚ) - n) = ofRat ((a * k : ℕ) : ℚ)
    rw [h]
    push_cast
    rw [add_sub_cancel_left]
  rw [hsub, ofNat_eq hak, ofNat_eq hk53]
  change (if (k : ℚ) = 0 then _ else if ((a * k : ℕ) : ℚ) = 0 then _ else _ : Number) = _
  rw [if_neg hk0]
  split
  · rename_i hzero
    have ha : a = 0 := by
      rw [Nat.cast_eq_zero, mul_eq_zero] at hzero
      exact hzero.resolve_right hk.ne'
    change zero (decide (((a * k : ℕ) : ℚ) < 0) != decide ((k : ℚ) < 0)) = ofNat a
    rw [ha]
    simp [zero]
  · change ofRat (((a * k : ℕ) : ℚ) / (k : ℚ)) = ofRat (a : ℚ)
    rw [Nat.cast_mul, mul_div_cancel_right₀ _ hk0]

/-- Truncation of a nonnegative rational. -/
theorem trunc_of_nonneg {q : ℚ} (h : 0 ≤ q) : trunc q = ⌊q⌋ := by
  simp [trunc, not_lt.mpr h]

/-- Truncation of a natural. -/
@[simp] theorem trunc_natCast (n : ℕ) : trunc (n : ℚ) = n := by
  rw [trunc_of_nonneg (by positivity)]
  exact_mod_cast Int.floor_natCast n

/-- Remainder on naturals. -/
theorem mod_ofNat (ha : a < 2 ^ 53) (hb : b < 2 ^ 53) (hb0 : b ≠ 0) :
    mod (ofNat a) (ofNat b) = ofNat (a % b) := by
  have hfloor : trunc ((a : ℚ) / b) = ((a / b : ℕ) : ℤ) := by
    rw [trunc_of_nonneg (by positivity)]
    exact_mod_cast Rat.floor_natCast_div_natCast a b
  have hval : (a : ℚ) - b * (((a / b : ℕ) : ℤ) : ℚ) = ((a % b : ℕ) : ℚ) := by
    have h : ((a % b + b * (a / b) : ℕ) : ℚ) = a := by rw [Nat.mod_add_div]
    rw [Nat.cast_add, Nat.cast_mul] at h
    rw [Int.cast_natCast]
    linarith
  rw [ofNat_eq ha, ofNat_eq hb]
  simp only [mod, toRat, Nat.cast_eq_zero, hb0, if_false, hfloor, hval, signBit]
  split_ifs with h0
  · simp [zero, h0]
  · rfl

/-- `ToInt32` of a natural number sees its value modulo `2 ^ 32`. -/
theorem toInt32_ofNat_eq_bmod (ha : a < 2 ^ 53) : toInt32 (ofNat a) = (a : ℤ).bmod (2 ^ 32) := by
  rw [ofNat_eq ha]
  simp only [toInt32, toRat, trunc_natCast]

/-- Where bit 31 is clear, `ToInt32` keeps the low bits. -/
theorem toInt32_ofNat_of_lt (ha : a < 2 ^ 53) (h : a % 2 ^ 32 < 2 ^ 31) :
    toInt32 (ofNat a) = ((a % 2 ^ 32 : ℕ) : ℤ) := by
  rw [toInt32_ofNat_eq_bmod ha, Int.bmod_def]
  norm_num at h ⊢
  omega

/-- Where bit 31 is set, `ToInt32` is negative. -/
theorem toInt32_ofNat_of_le (ha : a < 2 ^ 53) (h : 2 ^ 31 ≤ a % 2 ^ 32) :
    toInt32 (ofNat a) = ((a % 2 ^ 32 : ℕ) : ℤ) - 2 ^ 32 := by
  rw [toInt32_ofNat_eq_bmod ha, Int.bmod_def]
  norm_num at h ⊢
  omega

/-- `ToInt32` is the identity below `2 ^ 31`. -/
@[simp] theorem toInt32_ofNat (ha : a < 2 ^ 31) : toInt32 (ofNat a) = a := by
  rw [ofNat_eq (by omega)]
  simp only [toInt32, toRat, trunc_natCast]
  rw [Int.bmod_eq_of_le] <;> omega

/-- A right shift by one halves. -/
theorem shr_one_ofNat (ha : a < 2 ^ 31) : shr (ofNat a) 1 = ofNat (a / 2) := by
  rw [shr, toInt32_ofNat ha, ofNat_eq_ofInt]
  congr 1

/-- The bitwise conjunction below `2 ^ 31`. -/
theorem bitAnd_ofNat (ha : a < 2 ^ 31) (hb : b < 2 ^ 31) :
    bitAnd (ofNat a) (ofNat b) = ofNat (a &&& b) := by
  have hand : a &&& b < 2 ^ 31 := Nat.and_lt_two_pow _ hb
  rw [bitAnd, toInt32_ofNat ha, toInt32_ofNat hb, ofNat_eq_ofInt]
  congr 1
  rw [BitVec.toInt_eq_toNat_of_lt]
  · simp only [BitVec.toNat_and, BitVec.ofInt_natCast, BitVec.toNat_ofNat]
    rw [Nat.mod_eq_of_lt (by omega), Nat.mod_eq_of_lt (by omega)]
  · simp only [BitVec.toNat_and, BitVec.ofInt_natCast, BitVec.toNat_ofNat]
    rw [Nat.mod_eq_of_lt (by omega), Nat.mod_eq_of_lt (by omega)]
    omega

/-- The bitwise conjunction of natural numbers is that of their low 32 bits; it vanishes where these
have no bit in common. -/
theorem bitAnd_ofNat_eq_zero_iff (ha : a < 2 ^ 53) (hb : b < 2 ^ 53) :
    (bitAnd (ofNat a) (ofNat b)).eq (ofNat 0) = true ↔ (a % 2 ^ 32) &&& (b % 2 ^ 32) = 0 := by
  have hbits : ∀ {c : ℕ}, c < 2 ^ 53 → BitVec.ofInt 32 (toInt32 (ofNat c)) = BitVec.ofNat 32 c := by
    intro c hc
    rw [toInt32_ofNat_eq_bmod hc]
    apply BitVec.eq_of_toInt_eq
    rw [BitVec.toInt_ofInt, BitVec.toInt_eq_toNat_bmod, BitVec.toNat_ofNat, Int.bmod_bmod,
      Int.natCast_mod]
    exact (Int.emod_bmod (c : ℤ) (2 ^ 32)).symm
  rw [bitAnd, hbits ha, hbits hb]
  have hle := BitVec.le_toInt (BitVec.ofNat 32 a &&& BitVec.ofNat 32 b)
  have hlt := BitVec.toInt_lt (x := BitVec.ofNat 32 a &&& BitVec.ofNat 32 b)
  have hzero : (BitVec.ofNat 32 a &&& BitVec.ofNat 32 b).toInt = 0 ↔
      (a % 2 ^ 32) &&& (b % 2 ^ 32) = 0 := by
    rw [← BitVec.toInt_zero (w := 32), BitVec.toInt_inj, ← BitVec.toNat_inj]
    simp
  rw [ofInt_eq (by rw [abs_lt]; norm_num at hle hlt ⊢; omega), ofNat_eq (by norm_num), ← hzero]
  simp [eq, place]

end naturals

/-! ## Negative integers -/

/-- The remainder of an integer that is not positive is not `1`. -/
theorem mod_two_ofInt_of_nonpos {i : ℤ} (h : i ≤ 0) (hlo : -2 ^ 31 ≤ i) :
    ((ofInt i).mod (ofNat 2)).eq (ofNat 1) = false := by
  obtain ⟨j, hj, hjlo, hjhi⟩ : ∃ j : ℤ, (i : ℚ) - ((2 : ℕ) : ℚ) * trunc ((i : ℚ) / ((2 : ℕ) : ℚ)) = j ∧
      i ≤ j ∧ j ≤ 0 := by
    have hfloor : trunc ((i : ℚ) / ((2 : ℕ) : ℚ)) = -(-i / 2) := by
      rcases h.eq_or_lt with rfl | hneg
      · simp [trunc]
      · have hq : (i : ℚ) / ((2 : ℕ) : ℚ) < 0 :=
          div_neg_of_neg_of_pos (by exact_mod_cast hneg) (by norm_num)
        rw [trunc, if_pos hq, ← neg_div, ← Int.cast_neg]
        exact congrArg Neg.neg (Rat.floor_intCast_div_natCast (-i) 2)
    refine ⟨i - 2 * -(-i / 2), ?_, by omega, by omega⟩
    rw [hfloor]
    push_cast
    ring
  have hsmall : |j| < 2 ^ 53 := by rw [abs_lt]; omega
  have hj53 := ofInt_eq hsmall
  rw [ofInt] at hj53
  have h2 : ((2 : ℕ) : ℚ) ≠ 0 := by norm_num
  rw [ofInt_eq (by rw [abs_lt]; omega), ofNat_eq (show 2 < 2 ^ 53 by norm_num)]
  simp only [mod, toRat, h2, if_false, hj, hj53]
  rw [ofNat_eq (show 1 < 2 ^ 53 by norm_num)]
  split_ifs with h0
  · cases (finite ⟨(i : ℚ), isDouble_intCast (by rw [abs_lt]; omega)⟩).signBit
    · rw [zero, if_neg (by simp), ofNat_eq (by norm_num)]
      simp [eq, place]
    · rw [zero, if_pos rfl]
      simp [eq, place]
  · have hne : j ≠ 1 := by omega
    simp [eq, place, hne]

end Number

end Js
