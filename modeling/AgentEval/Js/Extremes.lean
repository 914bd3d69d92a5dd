import AgentEval.Js.Arith

/-!
# The order of Numbers

`<` and `<=` order all Numbers but NaN, which is below and above none.

* **`maxOf_mem`**, **`le_maxOf`**: `Math.max(...xs)` is the largest of the values.
* **`room_lt`**: a value that grows and stays bounded grows finitely often.
-/

namespace Js.Number

/-- `Math.max(...xs)`. -/
def maxOf (xs : List Number) : Number := xs.foldl max (infinity true)

variable {a b c : Number}

/-! ## Comparison -/

/-- What has a place is a number. -/
theorem ne_nan_iff : a ≠ nan ↔ ∃ p, a.place = some p := by
  unfold place
  split <;> simp

/-- `<` compares places. -/
theorem lt_iff : a.lt b = true ↔ ∃ p q, a.place = some p ∧ b.place = some q ∧ p < q := by
  unfold lt
  cases a.place <;> cases b.place <;> simp

/-- `<=` compares places. -/
theorem le_iff : a.le b = true ↔ ∃ p q, a.place = some p ∧ b.place = some q ∧ p ≤ q := by
  unfold le
  cases a.place <;> cases b.place <;> simp

/-- What is below a value is a number. -/
theorem ne_nan_of_lt (h : a.lt b = true) : a ≠ nan ∧ b ≠ nan := by
  obtain ⟨p, q, ha, hb, -⟩ := lt_iff.mp h
  exact ⟨ne_nan_iff.mpr ⟨p, ha⟩, ne_nan_iff.mpr ⟨q, hb⟩⟩

/-- `<=` is reflexive on numbers. -/
theorem le_refl (h : a ≠ nan) : a.le a = true := by
  obtain ⟨p, hp⟩ := ne_nan_iff.mp h
  exact le_iff.mpr ⟨p, p, hp, hp, le_rfl⟩

/-- `<=` is transitive. -/
theorem le_trans (h : a.le b = true) (h' : b.le c = true) : a.le c = true := by
  obtain ⟨p, q, hp, hq, hle⟩ := le_iff.mp h
  obtain ⟨q', r, hq', hr, hle'⟩ := le_iff.mp h'
  cases hq.symm.trans hq'
  exact le_iff.mpr ⟨p, r, hp, hr, hle.trans hle'⟩

/-- Below what is at most a third. -/
theorem lt_of_lt_of_le (h : a.lt b = true) (h' : b.le c = true) : a.lt c = true := by
  obtain ⟨p, q, hp, hq, hlt⟩ := lt_iff.mp h
  obtain ⟨q', r, hq', hr, hle⟩ := le_iff.mp h'
  cases hq.symm.trans hq'
  exact lt_iff.mpr ⟨p, r, hp, hr, hlt.trans_le hle⟩

/-- At most what is below a third. -/
theorem lt_of_le_of_lt (h : a.le b = true) (h' : b.lt c = true) : a.lt c = true := by
  obtain ⟨p, q, hp, hq, hle⟩ := le_iff.mp h
  obtain ⟨q', r, hq', hr, hlt⟩ := lt_iff.mp h'
  cases hq.symm.trans hq'
  exact lt_iff.mpr ⟨p, r, hp, hr, hle.trans_lt hlt⟩

/-- What is below a number is not above it. -/
theorem not_le_of_lt (h : a.lt b = true) : b.le a = false := by
  obtain ⟨p, q, hp, hq, hlt⟩ := lt_iff.mp h
  apply Bool.eq_false_iff.mpr
  intro hle
  obtain ⟨q', p', hq', hp', hle⟩ := le_iff.mp hle
  cases hq.symm.trans hq'
  cases hp.symm.trans hp'
  exact absurd hlt hle.not_gt

/-- Of two numbers one is at most the other. -/
theorem le_of_not_lt (ha : a ≠ nan) (hb : b ≠ nan) (h : a.lt b = false) : b.le a = true := by
  obtain ⟨p, hp⟩ := ne_nan_iff.mp ha
  obtain ⟨q, hq⟩ := ne_nan_iff.mp hb
  refine le_iff.mpr ⟨q, p, hq, hp, not_lt.mp fun hlt => ?_⟩
  rw [lt_iff.mpr ⟨p, q, hp, hq, hlt⟩] at h
  cases h

/-- Of two numbers one is below, or the other is at most it. -/
theorem lt_of_not_le (ha : a ≠ nan) (hb : b ≠ nan) (h : a.le b = false) : b.lt a = true := by
  cases hlt : b.lt a with
  | true => rfl
  | false =>
    rw [le_of_not_lt hb ha hlt] at h
    cases h

/-! ## The largest of a list -/

/-- The larger of two numbers is one of them, and at least both. -/
theorem max_spec (ha : a ≠ nan) (hb : b ≠ nan) :
    (a.max b = a ∨ a.max b = b) ∧ a.le (a.max b) = true ∧ b.le (a.max b) = true := by
  unfold max
  rw [if_neg (by simp [ha, hb])]
  split_ifs with hab hba hzero
  · exact ⟨.inr rfl, le_of_lt hab, le_refl hb⟩
  · exact ⟨.inl rfl, le_refl ha, le_of_lt hba⟩
  · exact ⟨.inr rfl, le_of_not_lt hb ha (Bool.not_eq_true _ ▸ hba), le_refl hb⟩
  · exact ⟨.inl rfl, le_refl ha, le_of_not_lt ha hb (Bool.not_eq_true _ ▸ hab)⟩

/-- The smaller of two numbers is one of them, and at most both. -/
theorem min_spec (ha : a ≠ nan) (hb : b ≠ nan) :
    (a.min b = a ∨ a.min b = b) ∧ (a.min b).le a = true ∧ (a.min b).le b = true := by
  unfold min
  rw [if_neg (by simp [ha, hb])]
  split_ifs with hab hba hzero
  · exact ⟨.inl rfl, le_refl ha, le_of_lt hab⟩
  · exact ⟨.inr rfl, le_of_lt hba, le_refl hb⟩
  · exact ⟨.inl rfl, le_refl ha, le_of_not_lt hb ha (Bool.not_eq_true _ ▸ hba)⟩
  · exact ⟨.inr rfl, le_of_not_lt ha hb (Bool.not_eq_true _ ▸ hab), le_refl hb⟩

/-- The largest, from a first one on. -/
theorem foldl_max_spec {xs : List Number} (hxs : ∀ x ∈ xs, x ≠ nan) (ha : a ≠ nan) :
    xs.foldl max a ∈ a :: xs ∧ ∀ x ∈ a :: xs, x.le (xs.foldl max a) = true := by
  induction xs generalizing a with
  | nil =>
    refine ⟨List.mem_singleton_self a, fun x hx => ?_⟩
    cases List.mem_singleton.mp hx
    exact le_refl ha
  | cons b xs ih =>
    have hb : b ≠ nan := hxs b List.mem_cons_self
    obtain ⟨hone, hleft, hright⟩ := max_spec ha hb
    have hmax : a.max b ≠ nan := by
      rcases hone with h | h <;> rwa [h]
    obtain ⟨hmem, hle⟩ := ih (fun x hx => hxs x (List.mem_cons_of_mem b hx)) hmax
    have hbig := hle _ List.mem_cons_self
    rw [List.foldl_cons]
    refine ⟨?_, fun x hx => ?_⟩
    · rcases List.mem_cons.mp hmem with h | h
      · rw [h]
        rcases hone with hone | hone
        · rw [hone]
          exact List.mem_cons_self
        · rw [hone]
          exact List.mem_cons_of_mem a List.mem_cons_self
      · exact List.mem_cons_of_mem a (List.mem_cons_of_mem b h)
    · rcases List.mem_cons.mp hx with rfl | hx
      · exact le_trans hleft hbig
      · rcases List.mem_cons.mp hx with rfl | hx
        · exact le_trans hright hbig
        · exact hle x (List.mem_cons_of_mem _ hx)

/-- **The largest is one of the values.** -/
theorem maxOf_mem {xs : List Number} (hne : xs ≠ []) (hxs : ∀ x ∈ xs, x ≠ nan) : maxOf xs ∈ xs := by
  obtain ⟨x, xs, rfl⟩ := List.exists_cons_of_ne_nil hne
  have hx : x ≠ nan := hxs x List.mem_cons_self
  obtain ⟨hone, hlow, hhigh⟩ := max_spec (a := infinity true) (by simp) hx
  have hfirst : (infinity true).max x = x := by
    rcases hone with hone | hone
    · -- nothing is below negative infinity
      obtain ⟨p, q, hp, hq, hle⟩ := le_iff.mp (hone ▸ hhigh)
      cases hq
      rw [le_bot_iff.mp hle] at hp
      rw [hone]
      cases x with
      | infinity s =>
        cases s with
        | true => rfl
        | false => cases hp
      | nan => cases hp
      | negZero => cases hp
      | finite y => cases hp
    · exact hone
  unfold maxOf
  rw [List.foldl_cons, hfirst]
  exact (foldl_max_spec (fun y hy => hxs y (List.mem_cons_of_mem x hy)) hx).1

/-- **The largest is at least every value.** -/
theorem le_maxOf {xs : List Number} (hxs : ∀ x ∈ xs, x ≠ nan) {x : Number} (hx : x ∈ xs) :
    x.le (maxOf xs) = true :=
  (foldl_max_spec hxs (by simp)).2 x (List.mem_cons_of_mem _ hx)

/-! ## Growing below a bound -/

/-- The subnormal steps from a value up to a bound. -/
def room (bound : ℚ) (x : Number) : ℕ := ⌊(bound - x.toRat) * 2 ^ 1074⌋₊

/-- A finite Number is a double. -/
theorem isDouble_toRat (x : Number) : IsDouble x.toRat := by
  unfold toRat
  split
  · exact Double.isDouble _
  · exact isDouble_zero

/-- `<=` on finite Numbers. -/
theorem le_of_isFinite (ha : a.isFinite = true) (hb : b.isFinite = true) :
    a.le b = decide (a.toRat ≤ b.toRat) := by
  have hplace : ∀ {x : Number}, x.isFinite = true →
      x.place = some ((x.toRat : WithTop ℚ) : WithBot (WithTop ℚ)) := by
    intro x hx
    cases x with
    | nan => cases hx
    | infinity s => cases hx
    | negZero => rfl
    | finite y => rfl
  unfold le
  rw [hplace ha, hplace hb]
  simp

/-- **A larger value leaves less room.** -/
theorem room_lt {bound : ℚ} (ha : a.isFinite = true) (hb : b.isFinite = true)
    (hbound : b.toRat ≤ bound) (h : b.le a = false) : room bound b < room bound a := by
  rw [le_of_isFinite hb ha, decide_eq_false_iff_not, not_le] at h
  have hstep := le_sub_of_isDouble (isDouble_toRat b) (isDouble_toRat a) h
  have hunit : (2 : ℚ) ^ (-1074 : ℤ) * 2 ^ 1074 = 1 := by
    rw [← zpow_natCast, ← zpow_add₀ two_ne_zero]
    exact zpow_zero 2
  unfold room
  rw [Nat.lt_iff_add_one_le, ← Nat.floor_add_one (mul_nonneg (sub_nonneg.mpr hbound) (by positivity))]
  apply Nat.floor_le_floor
  calc (bound - b.toRat) * 2 ^ 1074 + 1
      = (bound - b.toRat + 2 ^ (-1074 : ℤ)) * 2 ^ 1074 := by rw [add_mul, hunit]
    _ ≤ (bound - a.toRat) * 2 ^ 1074 := by
        apply mul_le_mul_of_nonneg_right _ (by positivity)
        linarith

/-- A rounded rational of magnitude at most `1`. -/
theorem ofRat_of_abs_le_one {q : ℚ} (h : |q| ≤ 1) :
    (ofRat q).isFinite = true ∧ (ofRat q).toRat ≤ 1 := by
  obtain ⟨hlow, hhigh⟩ := abs_le.mp h
  have hle : roundQ q ≤ 1 := by
    have := le_roundQ_of_isDouble isDouble_one.neg (neg_le_neg hhigh)
    rwa [roundQ_neg, neg_le_neg_iff] at this
  have habs : |roundQ q| < 2 ^ (1024 : ℤ) := by
    apply (abs_le.mpr ⟨le_roundQ_of_isDouble isDouble_one.neg hlow, hle⟩).trans_lt
    exact one_lt_zpow₀ one_lt_two (by norm_num)
  unfold ofRat
  rw [dif_pos habs]
  split_ifs
  · exact ⟨rfl, zero_le_one⟩
  · exact ⟨rfl, hle⟩

/-- The difference of two values in `[0, 1]`. -/
theorem sub_of_unit (ha : a.isFinite = true) (hb : b.isFinite = true) (ha0 : 0 ≤ a.toRat)
    (ha1 : a.toRat ≤ 1) (hb0 : 0 ≤ b.toRat) (hb1 : b.toRat ≤ 1) :
    (a.sub b).isFinite = true ∧ (a.sub b).toRat ≤ 1 := by
  have habs : |a.toRat - b.toRat| ≤ 1 := by
    rw [abs_le]
    constructor <;> linarith
  cases a with
  | nan => cases ha
  | infinity s => cases ha
  | negZero =>
    cases b with
    | nan => cases hb
    | infinity s => cases hb
    | negZero => exact ofRat_of_abs_le_one habs
    | finite y =>
      have hsub : negZero.sub (finite y) = if y.val = 0 then negZero else ofRat (-y.val) := rfl
      rw [hsub]
      split_ifs
      · exact ⟨rfl, zero_le_one⟩
      · change |0 - y.val| ≤ 1 at habs
        rw [zero_sub] at habs
        exact ofRat_of_abs_le_one habs
  | finite x =>
    cases b with
    | nan => cases hb
    | infinity s => cases hb
    | negZero => exact ofRat_of_abs_le_one habs
    | finite y => exact ofRat_of_abs_le_one habs

/-- A small natural number. -/
theorem isFinite_ofNat {n : ℕ} (hb : n < 2 ^ 53) : (ofNat n).isFinite = true ∧ (ofNat n).toRat = n := by
  rw [ofNat_eq hb]
  exact ⟨rfl, rfl⟩

/-- A value forced between `0` and `1`. -/
theorem min_max_unit {n : Number} (hn : n.isFinite = true) :
    ((ofNat 1).min ((ofNat 0).max n)).isFinite = true ∧
      0 ≤ ((ofNat 1).min ((ofNat 0).max n)).toRat ∧
      ((ofNat 1).min ((ofNat 0).max n)).toRat ≤ 1 := by
  have hnan : ∀ {x : Number}, x.isFinite = true → x ≠ nan := by
    rintro x hx rfl
    cases hx
  obtain ⟨hzero, hzero'⟩ := @isFinite_ofNat 0 (by norm_num)
  obtain ⟨hone, hone'⟩ := @isFinite_ofNat 1 (by norm_num)
  rw [Nat.cast_zero] at hzero'
  rw [Nat.cast_one] at hone'
  obtain ⟨hcases, hlow, -⟩ := max_spec (hnan hzero) (hnan hn)
  have hmax : ((ofNat 0).max n).isFinite = true := by
    rcases hcases with h | h
    · rwa [h]
    · rwa [h]
  rw [le_of_isFinite hzero hmax, decide_eq_true_eq, hzero'] at hlow
  obtain ⟨hcases', hhigh, -⟩ := min_spec (hnan hone) (hnan hmax)
  have hmin : ((ofNat 1).min ((ofNat 0).max n)).isFinite = true := by
    rcases hcases' with h | h
    · rwa [h]
    · rwa [h]
  rw [le_of_isFinite hmin hone, decide_eq_true_eq, hone'] at hhigh
  refine ⟨hmin, ?_, hhigh⟩
  rcases hcases' with h | h
  · rw [h, hone']
    exact zero_le_one
  · rwa [h]

end Js.Number
