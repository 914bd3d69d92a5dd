import AgentEval.Ranks.OrderStatistics

/-!
# Step-down values

The members of a list are scaled, each by how many there are from it on, and the largest scaled
member up to a rank is its step-down value.

* `StepDown.value_le_iff` — the bounds of a step-down value.
* **`StepDown.value_le_value`**: in a sorted list, a larger member has a larger value, whatever the
  ranks; equal members have one value (`StepDown.value_eq_of_tie`).
* `StepDown.le_value_self`, `StepDown.value_le_scale` — a value is between its member, unscaled, and
  its member scaled by the length of the list.
-/

namespace StepDown

variable {α : Type*} [LinearOrder α] (scale : ℕ → α → α) (start : α)

/-- The scaled members. -/
def scaled (m : ℕ) (l : List α) : List α := l.zipIdx.map fun e => scale (m - e.2) e.1

/-- The largest scaled member up to a rank. -/
def value (l : List α) (r : ℕ) : α := ((scaled scale l.length l).take (r + 1)).foldl max start

variable {scale start} {l : List α} {p p' b : α} {r r' : ℕ}

/-- The bounds of a largest member. -/
theorem foldl_max_le_iff {l : List α} {start : α} :
    l.foldl max start ≤ b ↔ start ≤ b ∧ ∀ x ∈ l, x ≤ b := by
  induction l generalizing start with
  | nil => simp
  | cons x l ih =>
    rw [List.foldl_cons, ih, max_le_iff, List.forall_mem_cons, and_assoc]

omit [LinearOrder α] in
/-- A scaled member. -/
theorem getElem?_scaled (m : ℕ) (l : List α) (i : ℕ) :
    (scaled scale m l)[i]? = l[i]?.map (scale (m - i)) := by
  unfold scaled
  rw [List.getElem?_map, List.getElem?_zipIdx, Option.map_map, Nat.zero_add]
  rfl

/-- The bounds of a step-down value. -/
theorem value_le_iff : value scale start l r ≤ b ↔
    start ≤ b ∧ ∀ i p, i ≤ r → l[i]? = some p → scale (l.length - i) p ≤ b := by
  unfold value
  rw [foldl_max_le_iff]
  refine and_congr_right fun _ => ?_
  constructor
  · intro h i p hi hp
    apply h
    apply List.mem_of_getElem?
    rw [List.getElem?_take_of_lt (Nat.lt_succ_of_le hi), getElem?_scaled, hp]
    rfl
  · intro h x hx
    obtain ⟨i, hi⟩ := List.getElem?_of_mem hx
    have hlt : i < r + 1 := by
      obtain ⟨hlength, -⟩ := List.getElem?_eq_some_iff.mp hi
      exact hlength.trans_le (List.length_take_le _ _)
    rw [List.getElem?_take_of_lt hlt, getElem?_scaled, Option.map_eq_some_iff] at hi
    obtain ⟨p, hp, rfl⟩ := hi
    exact h i p (Nat.le_of_lt_succ hlt) hp

/-- A value is not below where it starts. -/
theorem start_le_value : start ≤ value scale start l r := (value_le_iff.mp le_rfl).1

/-- Nor below a scaled member up to its rank. -/
theorem scale_le_value (hr : r ≤ r') (hp : l[r]? = some p) :
    scale (l.length - r) p ≤ value scale start l r' := (value_le_iff.mp le_rfl).2 r p hr hp

/-- Values grow with the rank. -/
theorem value_mono (h : r ≤ r') : value scale start l r ≤ value scale start l r' := by
  rw [value_le_iff]
  refine ⟨start_le_value, ?_⟩
  intro i p hi hp
  exact scale_le_value (hi.trans h) hp

/-- The value at the next rank. -/
theorem value_succ (hp : l[r + 1]? = some p) :
    value scale start l (r + 1) =
      max (value scale start l r) (scale (l.length - (r + 1)) p) := by
  unfold value
  rw [List.take_add_one (i := r + 1), List.foldl_append, getElem?_scaled, hp]
  rfl

/-- The value at the first rank. -/
theorem value_zero (hp : l[0]? = some p) :
    value scale start l 0 = max start (scale l.length p) := by
  unfold value
  rw [List.take_add_one (i := 0), List.foldl_append, getElem?_scaled, hp]
  rfl

/-- What is asked of a scale, for the members it is meant for: it grows with the factor and with what
is scaled, and a factor that is not `0` makes nothing smaller. -/
structure Expands (scale : ℕ → α → α) (start : α) (ok : α → Prop) : Prop where
  /-- The start is not above a member. -/
  start_le : ∀ {p}, ok p → start ≤ p
  /-- The scale grows. -/
  mono : ∀ {k k' p p'}, ok p → k ≤ k' → p ≤ p' → scale k p ≤ scale k' p'
  /-- It makes nothing smaller. -/
  le_scale : ∀ {k p}, ok p → 1 ≤ k → p ≤ scale k p

section

variable {ok : α → Prop} (hscale : Expands scale start ok) (hok : ∀ x ∈ l, ok x)

include hscale hok

/-- A value is not below its member. -/
theorem le_value_self (hp : l[r]? = some p) : p ≤ value scale start l r := by
  obtain ⟨hr, -⟩ := List.getElem?_eq_some_iff.mp hp
  exact (hscale.le_scale (hok p (List.mem_of_getElem? hp)) (Nat.sub_pos_of_lt hr)).trans
    (scale_le_value le_rfl hp)

variable (hsorted : l.Pairwise (· ≤ ·))

include hsorted

/-- A value is at most its member scaled by the length. -/
theorem value_le_scale (hp : l[r]? = some p) : value scale start l r ≤ scale l.length p := by
  have hmem := hok p (List.mem_of_getElem? hp)
  obtain ⟨hr, -⟩ := List.getElem?_eq_some_iff.mp hp
  rw [value_le_iff]
  refine ⟨(hscale.start_le hmem).trans (hscale.le_scale hmem (Nat.zero_lt_of_lt hr)), ?_⟩
  intro i q hi hq
  exact hscale.mono (hok q (List.mem_of_getElem? hq)) (Nat.sub_le _ _)
    (OrderStatistics.le_of_index_le hsorted hq hp hi)

/-- A larger member has a larger value. -/
theorem value_le_value (hp : l[r]? = some p) (hp' : l[r']? = some p') (h : p ≤ p') :
    value scale start l r ≤ value scale start l r' := by
  rcases le_total r r' with hle | hle
  · exact value_mono hle
  · -- the members from `r'` to `r` are all the same, and the first of them is scaled most
    rw [value_le_iff]
    refine ⟨start_le_value, ?_⟩
    intro i q hi hq
    rcases le_total i r' with hi' | hi'
    · exact scale_le_value hi' hq
    · have hqp : q ≤ p' := (OrderStatistics.le_of_index_le hsorted hq hp hi).trans h
      exact (hscale.mono (hok q (List.mem_of_getElem? hq)) (Nat.sub_le_sub_left hi' _) hqp).trans
        (scale_le_value le_rfl hp')

/-- Equal members have one value. -/
theorem value_eq_of_tie (hp : l[r]? = some p) (hp' : l[r']? = some p) :
    value scale start l r = value scale start l r' :=
  le_antisymm (value_le_value hscale hok hsorted hp hp' le_rfl)
    (value_le_value hscale hok hsorted hp' hp le_rfl)

end

end StepDown
