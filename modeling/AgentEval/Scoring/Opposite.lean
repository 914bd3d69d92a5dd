import Mathlib.Order.Interval.Set.Defs
import Mathlib.Tactic.FieldSimp
import Mathlib.Tactic.LinearCombination
import AgentEval.Scoring.Consistent
import AgentEval.Scoring.SharedTasks

/-!
# Groups that resample to opposite means

A resample draws as many groups as there are, with repetition; only the length of a group and the
sum of its values count.

* **`Opposite`**: all means are one and the same, or group for group the lengths are equal and the
  sums opposite.
* **`Opposite.resampleMeans`**: then the means of the resamples are opposite, whatever is drawn.
* **`opposite_of_resample`**: it is the only way.
-/

namespace AgentEval.Scoring.Exact

section

variable {F : Type} [Field F] {groups groups' : List (List F)} {μ : F}

/-- Every group has this mean. -/
def OneMean (μ : F) (groups : List (List F)) : Prop := ∀ g ∈ groups, g.sum = μ * g.length

/-- Groups that resample to opposite means. -/
def Opposite (groups groups' : List (List F)) : Prop :=
  (∃ μ, OneMean μ groups ∧ OneMean (-μ) groups') ∨
    groups'.map (fun g => (g.sum, g.length)) = groups.map fun g => (-g.sum, g.length)

/-- An index among the images. -/
theorem itemAt_map {α β : Type} (f : α → β) (xs : List α) (i : ℤ) :
    itemAt (xs.map f) i = (itemAt xs i).map f := by
  unfold itemAt
  split_ifs
  · rfl
  · exact List.getElem?_map

/-- An index from the end. -/
theorem itemAt_reverse {α : Type} (xs : List α) (i : ℤ) :
    itemAt xs.reverse i = itemAt xs (xs.length - 1 - i) := by
  unfold itemAt
  split_ifs with hi hi'
  · rfl
  · exact (List.getElem?_eq_none (by omega)).symm
  · exact List.getElem?_eq_none (by rw [List.length_reverse]; omega)
  · rw [List.getElem?_reverse (by omega)]
    congr 1
    omega

end

section

variable {F : Type} [Field F] [LinearOrder F] [IsStrictOrderedRing F] [FloorRing F]
  {groups groups' : List (List F)} {μ : F} {generator : Generator F}

/-- The group a number from `0` up to `1` stands for. -/
def pickAt (groups : List (List F)) (x : F) : List F :=
  (itemAt groups ⌊x * groups.length⌋).getD []

/-- It is one of the groups. -/
theorem pickAt_mem (h : groups ≠ []) {x : F} (hlow : 0 ≤ x) (hhigh : x < 1) :
    pickAt groups x ∈ groups := by
  have hlength : 0 < (groups.length : F) := by
    exact_mod_cast List.length_pos_of_ne_nil h
  obtain ⟨i, hi⟩ := Int.eq_ofNat_of_zero_le (Int.floor_nonneg.mpr (mul_nonneg hlow hlength.le))
  have hlt : ⌊x * groups.length⌋ < groups.length := by
    rw [Int.floor_lt, Int.cast_natCast]
    exact mul_lt_of_lt_one_left hlength hhigh
  rw [hi] at hlt
  have hindex : i < groups.length := by exact_mod_cast hlt
  unfold pickAt
  rw [hi]
  change (itemAt groups ((i : ℕ) : ℤ)).getD [] ∈ groups
  rw [itemAt_natCast, List.getElem?_eq_getElem hindex]
  exact List.getElem_mem hindex

/-- The number that stands for an index. -/
theorem pickAt_div {i n : ℕ} (hn : groups.length = n) (h : i < groups.length) :
    pickAt groups ((i : F) / n) = groups[i] := by
  have hpos : (n : F) ≠ 0 := by
    rw [Nat.cast_ne_zero]
    omega
  subst hn
  unfold pickAt
  rw [div_mul_cancel₀ _ hpos, Int.floor_natCast, itemAt_natCast, List.getElem?_eq_getElem h]
  rfl

/-! ## That the means are opposite -/

omit [IsStrictOrderedRing F] in
/-- What a pick adds. -/
theorem pick_eq (draw : Draw F generator.State) :
    Draw.pick generator groups draw =
      ⟨draw.total + (pickAt groups (generator.next draw.rng).1).sum,
        draw.count + (pickAt groups (generator.next draw.rng).1).length,
        (generator.next draw.rng).2⟩ := rfl

/-- Groups with one mean are drawn with that mean. -/
theorem OneMean.iterate_pick (h : OneMean μ groups) (hne : groups ≠ [])
    (hgroups : ∀ g ∈ groups, g ≠ []) (n : ℕ) (rng : generator.State) :
    ((Draw.pick generator groups)^[n] ⟨0, 0, rng⟩).total =
        μ * ((Draw.pick generator groups)^[n] ⟨0, 0, rng⟩).count ∧
      n ≤ ((Draw.pick generator groups)^[n] ⟨0, 0, rng⟩).count := by
  induction n with
  | zero => exact ⟨by simp, le_rfl⟩
  | succ n ih =>
    obtain ⟨htotal, hcount⟩ := ih
    rw [Function.iterate_succ_apply', pick_eq]
    have hmem := pickAt_mem hne (generator.next_nonneg
      ((Draw.pick generator groups)^[n] ⟨0, 0, rng⟩).rng) (generator.next_lt_one _)
    have hlength := List.length_pos_of_ne_nil (hgroups _ hmem)
    dsimp only
    refine ⟨?_, by omega⟩
    rw [htotal, h _ hmem, Nat.cast_add, mul_add]

/-- So a resample of them has that mean. -/
theorem OneMean.resample (h : OneMean μ groups) (hne : groups ≠ [])
    (hgroups : ∀ g ∈ groups, g ≠ []) (rng : generator.State) :
    (resample generator groups rng).1 = μ := by
  obtain ⟨htotal, hcount⟩ := h.iterate_pick hne hgroups groups.length rng
  have hpos := List.length_pos_of_ne_nil hne
  have hcast : ((((Draw.pick generator groups)^[groups.length] ⟨0, 0, rng⟩).count : ℕ) : F) ≠ 0 := by
    rw [Nat.cast_ne_zero]
    omega
  unfold Exact.resample
  dsimp only
  rw [if_neg (by omega), htotal, mul_div_cancel_right₀ _ hcast]

/-- And all resamples. -/
theorem OneMean.resampleMeans (h : OneMean μ groups) (hne : groups ≠ [])
    (hgroups : ∀ g ∈ groups, g ≠ []) (n : ℕ) (rng : generator.State) :
    resampleMeans generator groups n rng = List.replicate n μ := by
  induction n generalizing rng with
  | zero => rfl
  | succ n ih => rw [Exact.resampleMeans, ih, h.resample hne hgroups, List.replicate_succ]

/-- A draw with the opposite sum. -/
def Draw.opposite {S : Type} (draw : Draw F S) : Draw F S := ⟨-draw.total, draw.count, draw.rng⟩

omit [IsStrictOrderedRing F] in
/-- With opposite sums and equal lengths, opposite groups are picked. -/
theorem pickAt_opposite
    (h : groups'.map (fun g => (g.sum, g.length)) = groups.map fun g => (-g.sum, g.length))
    (x : F) : (pickAt groups' x).sum = -(pickAt groups x).sum ∧
      (pickAt groups' x).length = (pickAt groups x).length := by
  have hlength : groups'.length = groups.length := by
    have := congrArg List.length h
    rwa [List.length_map, List.length_map] at this
  have hitem := congrArg (itemAt · ⌊x * groups.length⌋) h
  rw [itemAt_map, itemAt_map] at hitem
  unfold pickAt
  rw [hlength]
  cases hg : itemAt groups ⌊x * groups.length⌋ with
  | none =>
    rw [hg, Option.map_none, Option.map_eq_none_iff] at hitem
    rw [hitem]
    exact ⟨by simp, rfl⟩
  | some g =>
    rw [hg, Option.map_some] at hitem
    obtain ⟨g', hg', heq⟩ := Option.map_eq_some_iff.mp hitem
    rw [hg']
    exact Prod.mk.inj heq

omit [IsStrictOrderedRing F] in
/-- So the resamples have opposite means. -/
theorem resample_opposite
    (h : groups'.map (fun g => (g.sum, g.length)) = groups.map fun g => (-g.sum, g.length))
    (rng : generator.State) :
    resample generator groups' rng =
      (-(resample generator groups rng).1, (resample generator groups rng).2) := by
  have hlength : groups'.length = groups.length := by
    have := congrArg List.length h
    rwa [List.length_map, List.length_map] at this
  have hstep : Function.Semiconj (@Draw.opposite F _ generator.State) (Draw.pick generator groups)
      (Draw.pick generator groups') := by
    intro draw
    obtain ⟨hsum, hcount⟩ := pickAt_opposite h (generator.next draw.rng).1
    rw [pick_eq, pick_eq]
    unfold Draw.opposite
    dsimp only
    rw [hsum, hcount, neg_add]
  have hdraw := (hstep.iterate_right groups.length).eq ⟨0, 0, rng⟩
  have hstart : Draw.opposite ⟨(0 : F), 0, rng⟩ = ⟨0, 0, rng⟩ := by
    unfold Draw.opposite
    rw [neg_zero]
  unfold resample
  dsimp only
  rw [hlength, ← hstart, ← hdraw, hstart]
  unfold Draw.opposite
  dsimp only
  split_ifs
  · rw [neg_zero]
  · rw [neg_div]

/-- **The means of the resamples are opposite.** -/
theorem Opposite.resampleMeans (h : Opposite groups groups') (hne : groups ≠ [])
    (hne' : groups' ≠ []) (hgroups : ∀ g ∈ groups, g ≠ []) (hgroups' : ∀ g ∈ groups', g ≠ [])
    (n : ℕ) (rng : generator.State) :
    resampleMeans generator groups' n rng =
      (resampleMeans generator groups n rng).map Neg.neg := by
  rcases h with ⟨μ, hmean, hmean'⟩ | hsame
  · rw [hmean.resampleMeans hne hgroups, hmean'.resampleMeans hne' hgroups', List.map_replicate]
  · induction n generalizing rng with
    | zero => rfl
    | succ n ih =>
      rw [Exact.resampleMeans, resample_opposite hsame, ih]
      rfl

end

/-! ## That it is the only way -/

section

variable {F : Type} [Field F] [LinearOrder F] [IsStrictOrderedRing F] [FloorRing F]
  {groups groups' : List (List F)}

/-- A generator that gives one number some times, and then another. -/
def twoNumbers (m : ℕ) (x y : Set.Ico (0 : F) 1) : Generator F where
  State := ℕ
  mulberry32 _ := 0
  next s := (if s < m then x else y, s + 1)
  next_nonneg s := by
    dsimp only
    split_ifs
    · exact x.2.1
    · exact y.2.1
  next_lt_one s := by
    dsimp only
    split_ifs
    · exact x.2.2
    · exact y.2.2

omit [IsStrictOrderedRing F] in
/-- The mean of a resample; of no values it is `0`, as is a quotient by `0`. -/
theorem resample_fst (generator : Generator F) (rng : generator.State) :
    (resample generator groups rng).1 =
      ((Draw.pick generator groups)^[groups.length] ⟨0, 0, rng⟩).total /
        ((Draw.pick generator groups)^[groups.length] ⟨0, 0, rng⟩).count := by
  unfold resample
  dsimp only
  split_ifs with hcount
  · rw [hcount, Nat.cast_zero, div_zero]
  · rfl

omit [IsStrictOrderedRing F] in
/-- While the first number is given, the same group is drawn. -/
theorem iterate_pick_twoNumbers {m : ℕ} {x y : Set.Ico (0 : F) 1} {n : ℕ} (h : n ≤ m) :
    (Draw.pick (twoNumbers m x y) groups)^[n] ⟨0, 0, (0 : ℕ)⟩ =
      ⟨n * (pickAt groups x.1).sum, n * (pickAt groups x.1).length, n⟩ := by
  induction n with
  | zero => simp
  | succ n ih =>
    rw [Function.iterate_succ_apply', ih (by omega), pick_eq]
    have hnext : ((twoNumbers m x y).next n).1 = x.1 := if_pos (show n < m by omega)
    dsimp only
    rw [hnext]
    congr 1
    · push_cast
      ring
    · rw [Nat.add_mul, Nat.one_mul]

omit [IsStrictOrderedRing F] in
/-- As long as the first number is given, that is the mean. -/
theorem resample_first [CharZero F] {m : ℕ} {x y : Set.Ico (0 : F) 1} (hne : groups ≠ [])
    (h : groups.length ≤ m) : (resample (twoNumbers m x y) groups (0 : ℕ)).1 =
      (pickAt groups x.1).sum / (pickAt groups x.1).length := by
  have hlength : (groups.length : F) ≠ 0 := by
    rw [Nat.cast_ne_zero]
    exact (List.length_pos_of_ne_nil hne).ne'
  refine (resample_fst (twoNumbers m x y) _).trans ?_
  refine (congrArg (fun d : Draw F ℕ => d.total / d.count) (iterate_pick_twoNumbers h)).trans ?_
  dsimp only
  rw [Nat.cast_mul, mul_div_mul_left _ _ hlength]

omit [IsStrictOrderedRing F] in
/-- The last group drawn may be another. -/
theorem resample_last {m : ℕ} {x y : Set.Ico (0 : F) 1} (h : groups.length = m + 1) :
    (resample (twoNumbers m x y) groups (0 : ℕ)).1 =
      (m * (pickAt groups x.1).sum + (pickAt groups y.1).sum) /
        (m * (pickAt groups x.1).length + (pickAt groups y.1).length) := by
  have hlast : (Draw.pick (twoNumbers m x y) groups)^[groups.length] ⟨0, 0, (0 : ℕ)⟩ =
      ⟨m * (pickAt groups x.1).sum + (pickAt groups y.1).sum,
        m * (pickAt groups x.1).length + (pickAt groups y.1).length, (m + 1 : ℕ)⟩ := by
    rw [h, Function.iterate_succ_apply', iterate_pick_twoNumbers le_rfl, pick_eq]
    have hnext : ((twoNumbers m x y).next m).1 = y.1 := if_neg (lt_irrefl m)
    dsimp only
    rw [hnext]
    rfl
  refine (resample_fst (twoNumbers m x y) _).trans ?_
  refine (congrArg (fun d : Draw F ℕ => d.total / d.count) hlast).trans ?_
  dsimp only
  rw [Nat.cast_add, Nat.cast_mul]

/-- Of as many groups on both sides, those with one index stand for one number. -/
theorem exists_pickAt_index (hlength : groups'.length = groups.length) {i : ℕ}
    (hi : i < groups.length) :
    ∃ x : Set.Ico (0 : F) 1, pickAt groups x.1 = groups[i] ∧ pickAt groups' x.1 = groups'[i] := by
  have hpos : (0 : F) < groups.length := by exact_mod_cast Nat.zero_lt_of_lt hi
  refine ⟨⟨(i : F) / groups.length, by positivity, ?_⟩, pickAt_div rfl hi,
    pickAt_div hlength (hlength ▸ hi)⟩
  rw [div_lt_one hpos]
  exact_mod_cast hi

/-- Every group stands for some number. -/
theorem exists_pickAt {g : List F} (h : g ∈ groups) :
    ∃ x : Set.Ico (0 : F) 1, pickAt groups x.1 = g := by
  obtain ⟨i, hi, rfl⟩ := List.getElem_of_mem h
  obtain ⟨x, hx, -⟩ := exists_pickAt_index (rfl : groups.length = groups.length) hi
  exact ⟨x, hx⟩

/-- The lengths of the groups drawn. -/
theorem length_pickAt_pos (hne : groups ≠ []) (hgroups : ∀ g ∈ groups, g ≠ [])
    (x : Set.Ico (0 : F) 1) : (0 : F) < (pickAt groups x.1).length := by
  have hmem := pickAt_mem hne x.2.1 x.2.2
  exact_mod_cast List.length_pos_of_ne_nil (hgroups _ hmem)

/-- Of two numbers of groups, the last group drawn of the larger one tells the means apart. -/
theorem oneMean_of_length_lt (hlength : groups.length < groups'.length) (hne : groups ≠ [])
    (hgroups : ∀ g ∈ groups, g ≠ []) (hgroups' : ∀ g ∈ groups', g ≠ [])
    (h : ∀ m (x y : Set.Ico (0 : F) 1), (resample (twoNumbers m x y) groups' (0 : ℕ)).1 =
      -(resample (twoNumbers m x y) groups (0 : ℕ)).1) :
    ∃ μ, OneMean μ groups ∧ OneMean (-μ) groups' := by
  have hne' : groups' ≠ [] := List.ne_nil_of_length_pos (by omega)
  obtain ⟨m, hm⟩ := Nat.exists_eq_succ_of_ne_zero (List.length_pos_of_ne_nil hne').ne'
  have hpos := length_pickAt_pos hne hgroups
  have hpos' := length_pickAt_pos hne' hgroups'
  have hdrawn : ∀ x y : Set.Ico (0 : F) 1,
      m * (pickAt groups' x.1).sum + (pickAt groups' y.1).sum =
        -((pickAt groups x.1).sum / (pickAt groups x.1).length) *
          (m * (pickAt groups' x.1).length + (pickAt groups' y.1).length) := by
    intro x y
    have hmean := h m x y
    rw [resample_last hm, resample_first hne (by omega)] at hmean
    rw [← hmean]
    have hlong : (m : F) * (pickAt groups' x.1).length + (pickAt groups' y.1).length ≠ 0 :=
      (add_pos_of_nonneg_of_pos (mul_nonneg m.cast_nonneg (hpos' x).le) (hpos' y)).ne'
    rw [div_mul_cancel₀ _ hlong]
  have hsum : ∀ x y : Set.Ico (0 : F) 1, (pickAt groups' y.1).sum =
      -((pickAt groups x.1).sum / (pickAt groups x.1).length) * (pickAt groups' y.1).length := by
    intro x y
    have hsame : (pickAt groups' x.1).sum =
        -((pickAt groups x.1).sum / (pickAt groups x.1).length) *
          (pickAt groups' x.1).length := by
      have hm' : (m : F) + 1 ≠ 0 := by positivity
      apply mul_left_cancel₀ hm'
      linear_combination hdrawn x x
    linear_combination hdrawn x y - m * hsame
  have zero : Set.Ico (0 : F) 1 := ⟨0, le_rfl, zero_lt_one⟩
  refine ⟨(pickAt groups zero.1).sum / (pickAt groups zero.1).length, ?_, ?_⟩
  · intro g hg
    obtain ⟨x, rfl⟩ := exists_pickAt hg
    have hmeans : (pickAt groups zero.1).sum / (pickAt groups zero.1).length =
        (pickAt groups x.1).sum / (pickAt groups x.1).length := by
      apply neg_injective
      apply mul_right_cancel₀ (hpos' x).ne'
      rw [← hsum, ← hsum]
    rw [hmeans, div_mul_cancel₀ _ (hpos x).ne']
  · intro g hg
    obtain ⟨y, rfl⟩ := exists_pickAt hg
    exact hsum zero y

/-- As many groups on both sides: of any two of them, the means are equal or the lengths have one
ratio. -/
theorem means_or_lengths {m : ℕ} (hm : groups.length = m + 1) (hm' : groups'.length = m + 1)
    (hpos : ∀ x : Set.Ico (0 : F) 1, (0 : F) < (pickAt groups x.1).length)
    (hpos' : ∀ x : Set.Ico (0 : F) 1, (0 : F) < (pickAt groups' x.1).length) (hmany : m ≠ 0)
    (h : ∀ x y : Set.Ico (0 : F) 1, (resample (twoNumbers m x y) groups' (0 : ℕ)).1 =
      -(resample (twoNumbers m x y) groups (0 : ℕ)).1) (x y : Set.Ico (0 : F) 1) :
    (pickAt groups' x.1).sum * (pickAt groups x.1).length =
        -((pickAt groups x.1).sum * (pickAt groups' x.1).length) ∧
      ((pickAt groups x.1).sum * (pickAt groups y.1).length =
          (pickAt groups y.1).sum * (pickAt groups x.1).length ∨
        ((pickAt groups' x.1).length : F) * (pickAt groups y.1).length =
          (pickAt groups x.1).length * (pickAt groups' y.1).length) := by
  have hdrawn : ∀ x y : Set.Ico (0 : F) 1,
      (m * (pickAt groups' x.1).sum + (pickAt groups' y.1).sum) *
          (m * (pickAt groups x.1).length + (pickAt groups y.1).length) =
        -(m * (pickAt groups x.1).sum + (pickAt groups y.1).sum) *
          (m * (pickAt groups' x.1).length + (pickAt groups' y.1).length) := by
    intro x y
    have hmean := h x y
    rw [resample_last hm, resample_last hm', ← neg_div] at hmean
    have hlong : (m : F) * (pickAt groups x.1).length + (pickAt groups y.1).length ≠ 0 :=
      (add_pos_of_nonneg_of_pos (mul_nonneg m.cast_nonneg (hpos x).le) (hpos y)).ne'
    have hlong' : (m : F) * (pickAt groups' x.1).length + (pickAt groups' y.1).length ≠ 0 :=
      (add_pos_of_nonneg_of_pos (mul_nonneg m.cast_nonneg (hpos' x).le) (hpos' y)).ne'
    exact (div_eq_div_iff hlong' hlong).mp hmean
  have hsame : ∀ x : Set.Ico (0 : F) 1,
      (pickAt groups' x.1).sum * (pickAt groups x.1).length =
        -((pickAt groups x.1).sum * (pickAt groups' x.1).length) := by
    intro x
    have hm' : ((m : F) + 1) ^ 2 ≠ 0 := by positivity
    apply mul_left_cancel₀ hm'
    linear_combination hdrawn x x
  refine ⟨hsame x, ?_⟩
  have hmF : (m : F) ≠ 0 := Nat.cast_ne_zero.mpr hmany
  rw [← sub_eq_zero, ← sub_eq_zero (b := _ * ((pickAt groups' y.1).length : F)), ← mul_eq_zero]
  apply mul_left_cancel₀ hmF
  rw [mul_zero]
  linear_combination
    (m * (pickAt groups x.1).length + (pickAt groups y.1).length : F) *
        (m * (pickAt groups y.1).length * hsame x + (pickAt groups x.1).length * hsame y) -
      (pickAt groups x.1).length * (pickAt groups y.1).length * hdrawn x y

omit [LinearOrder F] [IsStrictOrderedRing F] [FloorRing F] in
/-- When the means of two groups differ, a third one differs from one of them, so one ratio of the
lengths holds for all. -/
theorem ratio_of_ne {ι : Type*} {s n n' : ι → F} (hn : ∀ x, n x ≠ 0) (hn' : ∀ x, n' x ≠ 0)
    (h : ∀ x y, s x * n y = s y * n x ∨ n' x * n y = n x * n' y) {x₀ y₀ : ι}
    (hne : s x₀ * n y₀ ≠ s y₀ * n x₀) (x : ι) : n' x * n x₀ = n x * n' x₀ := by
  rcases h x x₀ with hx₀ | hratio
  · have hy₀ : s x * n y₀ ≠ s y₀ * n x := by
      intro heq
      apply hne
      apply mul_left_cancel₀ (hn x)
      linear_combination n x₀ * heq - n y₀ * hx₀
    have hx := (h x y₀).resolve_left hy₀
    have hx₀' := (h x₀ y₀).resolve_left hne
    apply mul_left_cancel₀ (hn' y₀)
    linear_combination n' x₀ * hx - n' x * hx₀'
  · exact hratio

/-- As many groups on both sides, and as many values. -/
theorem opposite_of_length_eq (hlength : groups'.length = groups.length) (htwo : 2 ≤ groups.length)
    (hflatten : groups'.flatten.length = groups.flatten.length) (hgroups : ∀ g ∈ groups, g ≠ [])
    (hgroups' : ∀ g ∈ groups', g ≠ [])
    (h : ∀ m (x y : Set.Ico (0 : F) 1), (resample (twoNumbers m x y) groups' (0 : ℕ)).1 =
      -(resample (twoNumbers m x y) groups (0 : ℕ)).1) : Opposite groups groups' := by
  have hne : groups ≠ [] := List.ne_nil_of_length_pos (by omega)
  have hne' : groups' ≠ [] := List.ne_nil_of_length_pos (by omega)
  have hpos := length_pickAt_pos hne hgroups
  have hpos' := length_pickAt_pos hne' hgroups'
  obtain ⟨m, hm⟩ := Nat.exists_eq_succ_of_ne_zero (List.length_pos_of_ne_nil hne).ne'
  have hpair := means_or_lengths hm (hlength.trans hm) hpos hpos' (by omega) (h m)
  have zero : Set.Ico (0 : F) 1 := ⟨0, le_rfl, zero_lt_one⟩
  by_cases hmeans : ∀ y : Set.Ico (0 : F) 1, (pickAt groups zero.1).sum * (pickAt groups y.1).length =
      (pickAt groups y.1).sum * (pickAt groups zero.1).length
  · refine .inl ⟨(pickAt groups zero.1).sum / (pickAt groups zero.1).length, ?_, ?_⟩
    · intro g hg
      obtain ⟨y, rfl⟩ := exists_pickAt hg
      rw [div_mul_eq_mul_div, eq_div_iff (hpos zero).ne', hmeans y]
    · intro g hg
      obtain ⟨y, rfl⟩ := exists_pickAt hg
      rw [neg_mul, div_mul_eq_mul_div, ← neg_div, eq_div_iff (hpos zero).ne']
      apply mul_right_cancel₀ (hpos y).ne'
      linear_combination (pickAt groups zero.1).length * (hpair y y).1 +
        (pickAt groups' y.1).length * hmeans y
  · obtain ⟨y₀, hy₀⟩ := not_forall.mp hmeans
    have hratio := ratio_of_ne (fun x => (hpos x).ne') (fun x => (hpos' x).ne')
      (fun x y => (hpair x y).2) hy₀
    have hscaled : groups'.map (fun g => g.length * (pickAt groups zero.1).length) =
        groups.map fun g => g.length * (pickAt groups' zero.1).length := by
      apply List.ext_getElem (by simp [hlength])
      intro i hi' hi
      rw [List.length_map] at hi
      obtain ⟨x, hx, hx'⟩ := exists_pickAt_index hlength hi
      rw [List.getElem_map, List.getElem_map, ← hx, ← hx']
      exact_mod_cast hratio x
    have hsums := congrArg List.sum hscaled
    rw [List.sum_map_mul_right, List.sum_map_mul_right, ← List.length_flatten,
      ← List.length_flatten, hflatten] at hsums
    have htotal : 0 < groups.flatten.length := by
      have hmem := pickAt_mem hne zero.2.1 zero.2.2
      apply List.length_pos_of_ne_nil
      intro hempty
      exact hgroups _ hmem (List.flatten_eq_nil_iff.mp hempty _ hmem)
    have hzero := Nat.eq_of_mul_eq_mul_left htotal hsums
    refine .inr (List.ext_getElem (by simp [hlength]) ?_)
    intro i hi' hi
    rw [List.length_map] at hi
    obtain ⟨x, hx, hx'⟩ := exists_pickAt_index hlength hi
    have hsame : (pickAt groups' x.1).length = (pickAt groups x.1).length := by
      have := hratio x
      rw [hzero] at this
      exact_mod_cast mul_right_cancel₀ (hpos' zero).ne' this
    have hopposite := (hpair x x).1
    rw [hsame, ← neg_mul] at hopposite
    rw [List.getElem_map, List.getElem_map, ← hx, ← hx', hsame,
      mul_right_cancel₀ (hpos x).ne' hopposite]

omit [FloorRing F] [IsStrictOrderedRing F] [LinearOrder F] in
/-- The other way round. -/
theorem Opposite.symm (h : Opposite groups groups') : Opposite groups' groups := by
  rcases h with ⟨μ, hmean, hmean'⟩ | hsame
  · refine .inl ⟨-μ, hmean', ?_⟩
    rwa [neg_neg]
  · have hneg := congrArg (List.map fun p : F × ℕ => (-p.1, p.2)) hsame
    rw [List.map_map, List.map_map] at hneg
    refine .inr (Eq.trans ?_ hneg.symm)
    apply List.map_congr_left
    intro g _
    exact Prod.ext (neg_neg _).symm rfl

/-- **Groups that resample to opposite means**, whatever numbers are given. -/
theorem opposite_of_resample (htwo : 2 ≤ groups.length) (htwo' : 2 ≤ groups'.length)
    (hflatten : groups'.flatten.length = groups.flatten.length) (hgroups : ∀ g ∈ groups, g ≠ [])
    (hgroups' : ∀ g ∈ groups', g ≠ [])
    (h : ∀ m (x y : Set.Ico (0 : F) 1), (resample (twoNumbers m x y) groups' (0 : ℕ)).1 =
      -(resample (twoNumbers m x y) groups (0 : ℕ)).1) : Opposite groups groups' := by
  have hne : groups ≠ [] := List.ne_nil_of_length_pos (by omega)
  have hne' : groups' ≠ [] := List.ne_nil_of_length_pos (by omega)
  rcases lt_trichotomy groups.length groups'.length with hlt | heq | hgt
  · exact .inl (oneMean_of_length_lt hlt hne hgroups hgroups' h)
  · exact opposite_of_length_eq heq.symm htwo hflatten hgroups hgroups' h
  · have hother : ∀ m (x y : Set.Ico (0 : F) 1), (resample (twoNumbers m x y) groups (0 : ℕ)).1 =
        -(resample (twoNumbers m x y) groups' (0 : ℕ)).1 := by
      intro m x y
      rw [h, neg_neg]
    exact Opposite.symm (.inl (oneMean_of_length_lt hgt hne' hgroups' hgroups hother))

end

end AgentEval.Scoring.Exact
