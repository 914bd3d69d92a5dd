import AgentEval.Ranks.StepDown
import AgentEval.Scoring.Comparison

/-!
# Holm's correction

The loop of `holmAdjust` over the sorted p-values, with ties in whatever order, gives each p-value
its step-down value. The p-values are doubles between `0` and `1`, and products of them are rounded.

* **`holmAdjust_correct`**: the adjusted values, their bounds and their order, and what another order
  of the p-values does to them.
-/

namespace AgentEval.Scoring

open Js

/-- A p-value: a Number from `0` to `1`. -/
def IsPValue (p : Number) : Prop := (Number.ofNat 0).le p = true ∧ p.le (.ofNat 1) = true

/-- The largest of the sorted p-values, scaled, before a rank. -/
def runningMax (m : ℕ) (sorted : List Number) (r : ℕ) : Number :=
  (sorted.take r).zipIdx.foldl
    (fun running e => running.max ((Number.ofNat (m - e.2)).mul e.1)) (.ofNat 0)

/-- The step-down adjusted value at a rank. -/
def stepDown (m : ℕ) (sorted : List Number) (r : ℕ) : Number :=
  (Number.ofNat 1).min (runningMax m sorted (r + 1))

/-! ## The loop -/

section

variable {m : ℕ}

/-- One more p-value. -/
theorem runningMax_succ {l : List Number} {p : Number} {r : ℕ} (hp : l[r]? = some p) :
    runningMax m l (r + 1) = (runningMax m l r).max ((Number.ofNat (m - r)).mul p) := by
  obtain ⟨hr, -⟩ := List.getElem?_eq_some_iff.mp hp
  unfold runningMax
  rw [List.take_add_one, hp, List.zipIdx_append, List.foldl_append]
  simp [hr.le]

/-- The p-values behind a rank do not count. -/
theorem runningMax_append (l l' : List Number) {r : ℕ} (hr : r ≤ l.length) :
    runningMax m (l ++ l') r = runningMax m l r := by
  unfold runningMax
  rw [List.take_append_of_le_length hr]

/-- The loop, its two variables apart. -/
theorem foldl_holmStep (entries : List (Number × ℕ)) (out : List Number) :
    entries.zipIdx.foldl (holmStep m) (.ofNat 0, out) =
      (runningMax m (entries.map Prod.fst) entries.length,
        entries.zipIdx.foldl
          (fun out e => out.set e.1.2 (stepDown m (entries.map Prod.fst) e.2)) out) := by
  induction entries using List.reverseRecOn with
  | nil => rfl
  | append_singleton entries entry ih =>
    have hlength : (entries.map Prod.fst).length = entries.length := List.length_map _
    -- what was set before stays the same with one more entry
    have hsame : entries.zipIdx.foldl
        (fun out e => out.set e.1.2 (stepDown m ((entries ++ [entry]).map Prod.fst) e.2)) out =
        entries.zipIdx.foldl
          (fun out e => out.set e.1.2 (stepDown m (entries.map Prod.fst) e.2)) out := by
      apply List.foldl_ext
      intro out e he
      have hrank := List.snd_lt_of_mem_zipIdx he
      unfold stepDown
      rw [List.map_append, runningMax_append _ _ (by omega)]
    have hnext : runningMax m (entries.map Prod.fst ++ [entry.1]) (entries.length + 1) =
        (runningMax m (entries.map Prod.fst) entries.length).max
          ((Number.ofNat (m - entries.length)).mul entry.1) := by
      have hlast : (entries.map Prod.fst ++ [entry.1])[entries.length]? = some entry.1 := by
        rw [List.getElem?_append_right (by omega), hlength, Nat.sub_self]
        rfl
      rw [runningMax_succ hlast, runningMax_append _ _ (by omega)]
    rw [List.zipIdx_append, List.foldl_append, List.foldl_append, ih, hsame]
    simp [holmStep, stepDown, hnext]

/-- What is set nowhere stays. -/
theorem getElem?_foldl_set_of_forall_ne {α β : Type} (place : β → ℕ) (what : β → α) {j : ℕ}
    (l : List β) (hne : ∀ e ∈ l, place e ≠ j) (out : List α) :
    (l.foldl (fun out e => out.set (place e) (what e)) out)[j]? = out[j]? := by
  induction l generalizing out with
  | nil => rfl
  | cons e l ih =>
    rw [List.foldl_cons, ih fun e he => hne e (List.mem_cons_of_mem _ he),
      List.getElem?_set_ne (hne e List.mem_cons_self)]

/-- What is set once. -/
theorem getElem?_foldl_set {α β : Type} (place : β → ℕ) (what : β → α) {l : List β}
    (hnodup : (l.map place).Nodup) {e : β} (he : e ∈ l) {out : List α}
    (hout : place e < out.length) :
    (l.foldl (fun out e => out.set (place e) (what e)) out)[place e]? = some (what e) := by
  induction l generalizing out with
  | nil => cases he
  | cons e' l ih =>
    rw [List.map_cons, List.nodup_cons] at hnodup
    rw [List.foldl_cons]
    rcases List.mem_cons.mp he with rfl | he
    · rw [getElem?_foldl_set_of_forall_ne place what l, List.getElem?_set_self hout]
      intro e' he' heq
      exact hnodup.1 (List.mem_map.mpr ⟨e', he', heq⟩)
    · exact ih hnodup.2 he (by rwa [List.length_set])

end

/-! ## The values -/

/-- A p-value times a natural number, rounded. -/
def scaleQ (k : ℕ) (q : ℚ) : ℚ := roundQ (q * k)

/-- A product that is not rounded below a factor. -/
theorem expands_scaleQ : StepDown.Expands scaleQ 0 fun q => IsDouble q ∧ 0 ≤ q := by
  constructor
  · rintro p ⟨-, hp⟩
    exact hp
  · rintro k k' p p' ⟨-, hp⟩ hk hle
    unfold scaleQ
    apply roundQ_mono
    · positivity
    · gcongr
      exact hp.trans hle
  · rintro k p ⟨hdouble, hp⟩ hk
    apply le_roundQ_of_isDouble hdouble
    exact le_mul_of_one_le_right hp (by exact_mod_cast hk)

section

variable {p q : Number} {k m : ℕ}

/-- The Numbers from `0` to `1`. -/
theorem IsPValue.cases (hp : IsPValue p) :
    p = .negZero ∨ ∃ x : Double, p = .finite x ∧ 0 ≤ x.val ∧ x.val ≤ 1 := by
  obtain ⟨hlow, hhigh⟩ := hp
  rw [Number.ofNat_eq (by norm_num)] at hlow hhigh
  cases p with
  | nan => cases hlow
  | infinity s =>
    cases s with
    | true => cases hlow
    | false => cases hhigh
  | negZero => exact Or.inl rfl
  | finite x =>
    rw [Number.le_finite, decide_eq_true_iff] at hlow hhigh
    exact Or.inr ⟨x, rfl, by exact_mod_cast hlow, by exact_mod_cast hhigh⟩

/-- The rational value of a p-value. -/
theorem IsPValue.toRat_mem (hp : IsPValue p) :
    IsDouble p.toRat ∧ 0 ≤ p.toRat ∧ p.toRat ≤ 1 := by
  obtain rfl | ⟨x, rfl, hlow, hhigh⟩ := hp.cases
  · exact ⟨isDouble_zero, le_rfl, zero_le_one⟩
  · exact ⟨x.isDouble, hlow, hhigh⟩

/-- Its place. -/
theorem IsPValue.place_eq (hp : IsPValue p) :
    p.place = some ((p.toRat : WithTop ℚ) : WithBot (WithTop ℚ)) := by
  obtain rfl | ⟨x, rfl, -, -⟩ := hp.cases
  · rfl
  · rfl

/-- P-values are compared as rationals. -/
theorem IsPValue.le_iff (hp : IsPValue p) (hq : IsPValue q) :
    p.le q = true ↔ p.toRat ≤ q.toRat := by
  unfold Number.le
  rw [hp.place_eq, hq.place_eq]
  simp

/-- They are sorted as rationals. -/
theorem IsPValue.lt_sub (hp : IsPValue p) (hq : IsPValue q) :
    (Number.ofNat 0).lt (p.sub q) = decide (q.toRat < p.toRat) := by
  obtain ⟨hp', -, -⟩ := hp.toRat_mem
  obtain ⟨hq', -, -⟩ := hq.toRat_mem
  have hsub : p.sub q = .negZero ∧ p.toRat = q.toRat ∨ p.sub q = .ofRat (p.toRat - q.toRat) := by
    obtain rfl | ⟨x, rfl, -, -⟩ := hp.cases
    · obtain rfl | ⟨y, rfl, -, -⟩ := hq.cases
      · exact Or.inr rfl
      · by_cases hzero : y.val = 0
        · exact Or.inl ⟨if_pos hzero, hzero.symm⟩
        · right
          rw [show (Number.negZero).toRat = 0 from rfl, zero_sub]
          exact if_neg hzero
    · obtain rfl | ⟨y, rfl, -, -⟩ := hq.cases
      · exact Or.inr rfl
      · exact Or.inr rfl
  obtain ⟨hsub, heq⟩ | hsub := hsub
  · rw [hsub, heq, decide_eq_false (lt_irrefl _), Number.ofNat_eq (by norm_num)]
    simp [Number.lt, Number.place]
  · rw [hsub, Number.zero_lt_ofRat_sub hp' hq']

/-- A product with a p-value. -/
theorem IsPValue.mul_cases (hp : IsPValue p) (hk : k < 2 ^ 53) :
    (Number.ofNat k).mul p = .negZero ∧ scaleQ k p.toRat = 0 ∨
      ∃ y : Double, (Number.ofNat k).mul p = .finite y ∧ y.val = scaleQ k p.toRat := by
  obtain rfl | ⟨x, rfl, hlow, hhigh⟩ := hp.cases
  · left
    constructor
    · rw [Number.ofNat_eq hk]
      simp [Number.mul, Number.zero, Number.toRat, Number.signBit]
    · simp [scaleQ, Number.toRat]
  · right
    have hk0 : (0 : ℚ) ≤ k := Nat.cast_nonneg k
    have hcomm : (Number.ofNat k).mul (.finite x) = (Number.finite x).mul (.ofNat k) := by
      rw [Number.ofNat_eq hk, Number.mul_finite, Number.mul_finite, mul_comm, bne_comm]
    rw [hcomm, Number.mul_ofNat hlow hk]
    apply Number.exists_ofRat_eq (mul_nonneg hlow hk0) (Number.isDouble_natCast hk)
    exact mul_le_of_le_one_left hk0 hhigh

/-- The larger of a double and a product. -/
theorem IsPValue.exists_max_eq (hp : IsPValue p) (hk : k < 2 ^ 53) {x : Double} (hx : 0 ≤ x.val) :
    ∃ y : Double, (Number.finite x).max ((Number.ofNat k).mul p) = .finite y ∧
      y.val = max x.val (scaleQ k p.toRat) := by
  obtain ⟨hmul, hzero⟩ | ⟨y, hmul, hval⟩ := hp.mul_cases hk
  · refine ⟨x, ?_, ?_⟩
    · rw [hmul]
      simp [Number.max, Number.lt, Number.place, not_lt.mpr hx]
    · rw [hzero, max_eq_left hx]
  · rw [hmul, Number.max_finite, ← hval]
    split_ifs with hlt
    · exact ⟨y, rfl, (max_eq_right hlt.le).symm⟩
    · exact ⟨x, rfl, (max_eq_left (not_lt.mp hlt)).symm⟩

/-- The largest of the scaled p-values, up to a rank. -/
theorem exists_runningMax_eq {l : List Number} (hl : ∀ p ∈ l, IsPValue p)
    (hlength : l.length < 2 ^ 53) {r : ℕ} (hr : r < l.length) :
    ∃ y : Double, runningMax l.length l (r + 1) = .finite y ∧
      y.val = StepDown.value scaleQ 0 (l.map Number.toRat) r := by
  have hmap : (l.map Number.toRat).length = l.length := List.length_map _
  have hmember := List.getElem?_eq_getElem hr
  have hrat : (l.map Number.toRat)[r]? = some l[r].toRat := by
    rw [List.getElem?_map, hmember]
    rfl
  have hpvalue := hl _ (List.getElem_mem hr)
  have hk : l.length - r < 2 ^ 53 := (Nat.sub_le _ _).trans_lt hlength
  rw [runningMax_succ hmember]
  cases r with
  | zero =>
    obtain ⟨y, hy, hval⟩ := hpvalue.exists_max_eq hk (le_refl (⟨0, isDouble_zero⟩ : Double).val)
    refine ⟨y, ?_, ?_⟩
    · rw [← hy, ← Number.ofNat_zero]
      rfl
    · rw [hval, StepDown.value_zero hrat, hmap]
      rfl
  | succ r =>
    obtain ⟨x, hx, hxval⟩ := exists_runningMax_eq hl hlength (Nat.lt_of_succ_lt hr)
    have hnonneg : 0 ≤ x.val := by
      rw [hxval]
      exact StepDown.start_le_value
    obtain ⟨y, hy, hval⟩ := hpvalue.exists_max_eq hk hnonneg
    refine ⟨y, ?_, ?_⟩
    · rw [hx, hy]
    · rw [hval, hxval, StepDown.value_succ hrat, hmap]

/-- The value at a rank. -/
theorem exists_stepDown_eq {l : List Number} (hl : ∀ p ∈ l, IsPValue p) (hlength : l.length < 2 ^ 53)
    {r : ℕ} (hr : r < l.length) :
    ∃ z : Double, stepDown l.length l r = .finite z ∧
      z.val = min 1 (StepDown.value scaleQ 0 (l.map Number.toRat) r) := by
  obtain ⟨y, hy, hval⟩ := exists_runningMax_eq hl hlength hr
  unfold stepDown
  rw [hy, ← hval, Number.ofNat_one, Number.min_finite]
  split_ifs with hlt
  · exact ⟨_, rfl, (min_eq_left hlt.le).symm⟩
  · exact ⟨_, rfl, (min_eq_right (not_lt.mp hlt)).symm⟩

/-- The place of a p-value that is scaled and capped. -/
theorem IsPValue.place_min_mul (hp : IsPValue p) (hk : k < 2 ^ 53) :
    ((Number.ofNat 1).min ((Number.ofNat k).mul p)).place =
      some (((min 1 (scaleQ k p.toRat) : ℚ) : WithTop ℚ) : WithBot (WithTop ℚ)) := by
  rw [Number.ofNat_one]
  obtain ⟨hmul, hzero⟩ | ⟨y, hmul, hval⟩ := hp.mul_cases hk
  · have hlt : (Number.finite ⟨1, isDouble_one⟩).lt .negZero = false := rfl
    have hgt : Number.negZero.lt (.finite ⟨1, isDouble_one⟩) = true := rfl
    rw [hmul, hzero, min_eq_right zero_le_one]
    simp [Number.min, hlt, hgt, Number.place]
  · rw [hmul, ← hval, Number.min_finite]
    split_ifs with hlt
    · rw [min_eq_left hlt.le]
      rfl
    · rw [min_eq_right (not_lt.mp hlt)]
      rfl

end

/-! ## The adjusted values -/

/-- The p-values with their positions, sorted.
Source: `comparison.ts`, `holmAdjust`, `indexed` -/
def indexed (pValues : List Number) : List (Number × ℕ) :=
  Number.sortBy (fun x y : Number × ℕ => x.1.sub y.1) pValues.zipIdx

section

variable {pValues sorted : List Number} {p q a b : Number} {i j r : ℕ}

/-- A p-value has a rank. -/
theorem exists_rank (hp : pValues[i]? = some p) : ∃ r : ℕ, (indexed pValues)[r]? = some (p, i) := by
  apply List.getElem?_of_mem
  apply (List.mergeSort_perm _ _).mem_iff.mpr
  exact List.mem_zipIdx_iff_getElem?.mpr hp

/-- Sorting keeps the p-values. -/
theorem perm_indexed : ((indexed pValues).map Prod.fst).Perm pValues := by
  have hperm := (List.mergeSort_perm pValues.zipIdx
    (fun x y => !(Number.ofNat 0).lt (x.1.sub y.1))).map Prod.fst
  rwa [List.zipIdx_map_fst] at hperm

/-- Their number stays the same. -/
theorem length_holmAdjust : (holmAdjust pValues).length = pValues.length := by
  have hset : ∀ (l : List ((Number × ℕ) × ℕ)) (state : Number × List Number),
      (l.foldl (holmStep pValues.length) state).2.length = state.2.length := by
    intro l
    induction l with
    | nil => exact fun state => rfl
    | cons e l ih =>
      intro state
      rw [List.foldl_cons, ih]
      exact List.length_set
  exact (hset _ _).trans (List.length_replicate ..)

/-- What the loop puts at a position. -/
theorem getElem?_holmAdjust (hr : (indexed pValues)[r]? = some (p, i)) :
    (holmAdjust pValues)[i]? =
      some (stepDown pValues.length ((indexed pValues).map Prod.fst) r) := by
  have hmem : ((p, i), r) ∈ (indexed pValues).zipIdx := List.mem_zipIdx_iff_getElem?.mpr hr
  have hi : i < pValues.length := by
    have hentry : (p, i) ∈ pValues.zipIdx :=
      (List.mergeSort_perm _ _).mem_iff.mp (List.mem_of_getElem? hr)
    exact List.snd_lt_of_mem_zipIdx hentry
  have hnodup : ((indexed pValues).zipIdx.map fun e => e.1.2).Nodup := by
    have hpositions : (indexed pValues).zipIdx.map (fun e => e.1.2) =
        (indexed pValues).map Prod.snd := by
      rw [← Function.comp_def Prod.snd Prod.fst, ← List.map_map, List.zipIdx_map_fst]
    have hperm := (List.mergeSort_perm pValues.zipIdx
      (fun x y => !(Number.ofNat 0).lt (x.1.sub y.1))).map Prod.snd
    rw [hpositions]
    apply hperm.nodup_iff.mpr
    rw [List.zipIdx_map_snd]
    exact List.nodup_range'
  change ((indexed pValues).zipIdx.foldl (holmStep pValues.length) _).2[i]? = _
  rw [foldl_holmStep]
  exact getElem?_foldl_set (fun e : (Number × ℕ) × ℕ => e.1.2)
    (fun e => stepDown pValues.length ((indexed pValues).map Prod.fst) e.2) hnodup hmem
    (by rwa [List.length_replicate])

/-- The rational values of the p-values, sorted. -/
def sortedQ (pValues : List Number) : List ℚ := (pValues.map Number.toRat).mergeSort (· ≤ ·)

/-- They are sorted. -/
theorem pairwise_sortedQ : (sortedQ pValues).Pairwise (· ≤ ·) := List.pairwise_mergeSort' (· ≤ ·) _

variable (hpValues : ∀ p ∈ pValues, IsPValue p)

include hpValues

/-- The code sorts the rational values. -/
theorem map_toRat_indexed : ((indexed pValues).map Prod.fst).map Number.toRat = sortedQ pValues := by
  have hmember : ∀ e ∈ pValues.zipIdx, IsPValue e.1 := fun e he =>
    hpValues e.1 (List.fst_mem_of_mem_zipIdx he)
  have hvalues : pValues.map Number.toRat = pValues.zipIdx.map (Number.toRat ∘ Prod.fst) := by
    rw [← List.map_map, List.zipIdx_map_fst]
  unfold indexed Number.sortBy sortedQ
  rw [List.map_map, hvalues]
  apply List.map_mergeSort
  intro x hx y hy
  rw [(hmember x hx).lt_sub (hmember y hy), ← decide_not]
  simp

/-- Any other way of sorting gives the same rational values. -/
theorem map_toRat_of_sorted (hperm : sorted.Perm pValues)
    (hsorted : sorted.Pairwise fun p q => p.le q = true) :
    sorted.map Number.toRat = sortedQ pValues := by
  have hle : (sorted.map Number.toRat).Pairwise (· ≤ ·) := by
    rw [List.pairwise_map]
    apply hsorted.imp_of_mem
    intro p q hp hq h
    exact ((hpValues p (hperm.mem_iff.mp hp)).le_iff (hpValues q (hperm.mem_iff.mp hq))).mp h
  apply List.Perm.eq_of_pairwise' hle pairwise_sortedQ
  exact (hperm.map Number.toRat).trans (List.mergeSort_perm _ _).symm

/-- They can be sorted. -/
theorem exists_sorted : ∃ sorted : List Number, sorted.Perm pValues ∧
    sorted.Pairwise fun p q => p.le q = true := by
  refine ⟨(indexed pValues).map Prod.fst, perm_indexed, ?_⟩
  have hpairwise := @pairwise_sortedQ pValues
  rw [← map_toRat_indexed hpValues, List.pairwise_map] at hpairwise
  apply hpairwise.imp_of_mem
  intro p q hp hq h
  exact ((hpValues p (perm_indexed.mem_iff.mp hp)).le_iff
    (hpValues q (perm_indexed.mem_iff.mp hq))).mpr h

/-- They are doubles, and not negative. -/
theorem mem_sortedQ {x : ℚ} (hx : x ∈ sortedQ pValues) : IsDouble x ∧ 0 ≤ x := by
  rw [sortedQ, List.mem_mergeSort, List.mem_map] at hx
  obtain ⟨p, hp, rfl⟩ := hx
  obtain ⟨hdouble, hlow, -⟩ := (hpValues p hp).toRat_mem
  exact ⟨hdouble, hlow⟩

variable (hlength : pValues.length < 2 ^ 53)

include hlength

/-- The value at a position, as a rational. -/
theorem exists_adjusted_eq (hp : pValues[i]? = some p) :
    ∃ (r : ℕ) (z : Double), (sortedQ pValues)[r]? = some p.toRat ∧
      (holmAdjust pValues)[i]? = some (.finite z) ∧
      z.val = min 1 (StepDown.value scaleQ 0 (sortedQ pValues) r) := by
  obtain ⟨r, hr⟩ := exists_rank hp
  have hcount : ((indexed pValues).map Prod.fst).length = pValues.length := perm_indexed.length_eq
  obtain ⟨hlt, -⟩ := List.getElem?_eq_some_iff.mp hr
  obtain ⟨z, hz, hval⟩ := exists_stepDown_eq (l := (indexed pValues).map Prod.fst)
    (fun p hp => hpValues p (perm_indexed.mem_iff.mp hp)) (by rwa [hcount]) (r := r)
    (by rwa [List.length_map])
  refine ⟨r, z, ?_, ?_, ?_⟩
  · rw [← map_toRat_indexed hpValues, List.getElem?_map, List.getElem?_map, hr]
    rfl
  · rw [getElem?_holmAdjust hr, ← hz, hcount]
  · rw [hval, map_toRat_indexed hpValues]

/-- The value at a position is the one at any rank of the p-value, however ties are sorted. -/
theorem getElem?_holmAdjust_of_sorted (hperm : sorted.Perm pValues)
    (hsorted : sorted.Pairwise fun p q => p.le q = true) (hp : pValues[i]? = some p)
    (hr : sorted[r]? = some p) :
    (holmAdjust pValues)[i]? = some (stepDown pValues.length sorted r) := by
  obtain ⟨r', z, hr', hz, hval⟩ := exists_adjusted_eq hpValues hlength hp
  obtain ⟨hlt, -⟩ := List.getElem?_eq_some_iff.mp hr
  obtain ⟨z', hz', hval'⟩ := exists_stepDown_eq
    (fun p hp => hpValues p (hperm.mem_iff.mp hp)) (by rwa [hperm.length_eq]) hlt
  have hrank : (sortedQ pValues)[r]? = some p.toRat := by
    rw [← map_toRat_of_sorted hpValues hperm hsorted, List.getElem?_map, hr]
    rfl
  have htie := StepDown.value_eq_of_tie expands_scaleQ (fun x hx => mem_sortedQ hpValues hx)
    pairwise_sortedQ hr' hrank
  rw [map_toRat_of_sorted hpValues hperm hsorted, ← htie, ← hval] at hval'
  rw [hz, ← hperm.length_eq, hz', Double.eq_of_val hval']

/-- A p-value is raised, at most to what is left when all are corrected alike. -/
theorem le_holmAdjust (hp : pValues[i]? = some p) (ha : (holmAdjust pValues)[i]? = some a) :
    p.le a = true ∧
      a.le ((Number.ofNat 1).min ((Number.ofNat pValues.length).mul p)) = true := by
  obtain ⟨r, z, hr, hz, hval⟩ := exists_adjusted_eq hpValues hlength hp
  obtain rfl := Option.some.inj (ha.symm.trans hz)
  have hpvalue := hpValues p (List.mem_of_getElem? hp)
  have hlow := StepDown.le_value_self expands_scaleQ (fun x hx => mem_sortedQ hpValues hx) hr
  have hhigh := StepDown.value_le_scale expands_scaleQ (fun x hx => mem_sortedQ hpValues hx)
    pairwise_sortedQ hr
  have hcount : (sortedQ pValues).length = pValues.length := by
    rw [sortedQ, List.length_mergeSort, List.length_map]
  unfold Number.le
  rw [hpvalue.place_eq, hpvalue.place_min_mul hlength]
  simp only [Number.place, decide_eq_true_iff, WithBot.coe_le_coe, WithTop.coe_le_coe, hval]
  constructor
  · exact le_min hpvalue.toRat_mem.2.2 hlow
  · rw [← hcount]
    exact min_le_min_left 1 hhigh

/-- Adjusted values are ordered as the p-values are. -/
theorem holmAdjust_le (hp : pValues[i]? = some p) (hq : pValues[j]? = some q)
    (ha : (holmAdjust pValues)[i]? = some a) (hb : (holmAdjust pValues)[j]? = some b)
    (h : p.le q = true) : a.le b = true := by
  obtain ⟨r, z, hr, hz, hval⟩ := exists_adjusted_eq hpValues hlength hp
  obtain ⟨r', z', hr', hz', hval'⟩ := exists_adjusted_eq hpValues hlength hq
  obtain rfl := Option.some.inj (ha.symm.trans hz)
  obtain rfl := Option.some.inj (hb.symm.trans hz')
  rw [(hpValues p (List.mem_of_getElem? hp)).le_iff (hpValues q (List.mem_of_getElem? hq))] at h
  rw [Number.le_finite, hval, hval', decide_eq_true_iff]
  apply min_le_min_left
  exact StepDown.value_le_value expands_scaleQ (fun x hx => mem_sortedQ hpValues hx)
    pairwise_sortedQ hr hr' h

/-- The same p-values in another order are adjusted in the same way. -/
theorem holmAdjust_perm (σ : Equiv.Perm (Fin pValues.length)) (i : Fin pValues.length) :
    (holmAdjust (List.ofFn fun i => pValues.get (σ i)))[(i : ℕ)]? =
      (holmAdjust pValues)[(σ i : ℕ)]? := by
  have hperm : (List.ofFn fun i => pValues.get (σ i)).Perm pValues := by
    conv_rhs => rw [← List.ofFn_get pValues]
    exact Equiv.Perm.ofFn_comp_perm σ pValues.get
  obtain ⟨sorted, hsorted, hle⟩ := exists_sorted hpValues
  have hat : (List.ofFn fun i => pValues.get (σ i))[(i : ℕ)]? = some (pValues.get (σ i)) := by
    simp
  have hat' : pValues[(σ i : ℕ)]? = some (pValues.get (σ i)) := by simp
  obtain ⟨r, hr⟩ := List.getElem?_of_mem (hsorted.mem_iff.mpr (List.get_mem pValues (σ i)))
  rw [getElem?_holmAdjust_of_sorted hpValues hlength hsorted hle hat' hr,
    getElem?_holmAdjust_of_sorted (fun p hp => hpValues p (hperm.mem_iff.mp hp))
      (by rwa [hperm.length_eq]) (hsorted.trans hperm.symm) hle hat hr, hperm.length_eq]

end

/-- What Holm's correction is to do with p-values. -/
structure HolmCorrect (pValues : List Number) : Prop where
  /-- Each p-value has an adjusted value. -/
  length_eq : (holmAdjust pValues).length = pValues.length
  /-- It is the step-down value at a rank of the p-value, however the p-values are sorted. -/
  at_rank : ∀ sorted : List Number, sorted.Perm pValues →
    sorted.Pairwise (fun p q => p.le q = true) → ∀ (i r : ℕ) (p : Number),
      pValues[i]? = some p → sorted[r]? = some p →
        (holmAdjust pValues)[i]? = some (stepDown pValues.length sorted r)
  /-- It is not below the p-value, nor above the p-value times their number, capped. -/
  bounds : ∀ (i : ℕ) (p a : Number), pValues[i]? = some p → (holmAdjust pValues)[i]? = some a →
    p.le a = true ∧ a.le ((Number.ofNat 1).min ((Number.ofNat pValues.length).mul p)) = true
  /-- The adjusted values are ordered as the p-values are. -/
  ordered : ∀ (i j : ℕ) (p q a b : Number), pValues[i]? = some p → pValues[j]? = some q →
    (holmAdjust pValues)[i]? = some a → (holmAdjust pValues)[j]? = some b →
      p.le q = true → a.le b = true
  /-- P-values in another order have their adjusted values in that order. -/
  permuted : ∀ (σ : Equiv.Perm (Fin pValues.length)) (i : Fin pValues.length),
    (holmAdjust (List.ofFn fun i => pValues.get (σ i)))[(i : ℕ)]? =
      (holmAdjust pValues)[(σ i : ℕ)]?

/-- The correction is right, for as many p-values as an array can hold. -/
theorem holmAdjust_correct {pValues : List Number} (hpValues : ∀ p ∈ pValues, IsPValue p)
    (hlength : pValues.length < 2 ^ 32) : HolmCorrect pValues := by
  have hlength' : pValues.length < 2 ^ 53 := hlength.trans (by norm_num)
  constructor
  · exact length_holmAdjust
  · intro sorted hperm hsorted i r p hp hr
    exact getElem?_holmAdjust_of_sorted hpValues hlength' hperm hsorted hp hr
  · intro i p a hp ha
    exact le_holmAdjust hpValues hlength' hp ha
  · intro i j p q a b hp hq ha hb h
    exact holmAdjust_le hpValues hlength' hp hq ha hb h
  · intro σ i
    exact holmAdjust_perm hpValues hlength' σ i

/-- Three p-values, two of them the same. -/
theorem holmAdjust_tied : HolmCorrect [.ofNat 1, .ofNat 0, .ofNat 1] := by
  apply holmAdjust_correct
  · intro p hp
    unfold IsPValue
    simp only [List.mem_cons, List.not_mem_nil, or_false] at hp
    rcases hp with rfl | rfl | rfl
    all_goals norm_num
  · norm_num

end AgentEval.Scoring
