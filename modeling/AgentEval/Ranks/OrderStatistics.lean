import Mathlib.Algebra.Order.Group.Defs
import Mathlib.Data.List.Sort

/-!
# Order statistics

* `OrderStatistics.le_of_lt_countP`, `OrderStatistics.le_of_length_le` — a member of a sorted list
  is on the side of a bound on which enough members are.
* **`OrderStatistics.mergeSort_map_neg`**: the opposite numbers are sorted the other way round.
-/

namespace OrderStatistics

variable {α : Type*} [LinearOrder α] {l : List α} {b x : α} {i : ℕ}

/-- Members come in order. -/
theorem le_of_index_le {y : α} {j : ℕ} (hsorted : l.Pairwise (· ≤ ·)) (hx : l[i]? = some x)
    (hy : l[j]? = some y) (h : i ≤ j) : x ≤ y := by
  obtain ⟨hi, rfl⟩ := List.getElem?_eq_some_iff.mp hx
  obtain ⟨hj, rfl⟩ := List.getElem?_eq_some_iff.mp hy
  rcases h.eq_or_lt with rfl | hlt
  · exact le_rfl
  · exact List.pairwise_iff_getElem.mp hsorted i j hi hj hlt

/-- Members up to a bound come first. -/
theorem le_of_lt_countP (hsorted : l.Pairwise (· ≤ ·)) (hx : l[i]? = some x)
    (hcount : i < l.countP (· ≤ b)) : x ≤ b := by
  by_contra hlt
  -- from `x` on nothing is up to the bound
  have hdrop : (l.drop i).countP (· ≤ b) = 0 := by
    rw [List.countP_eq_zero]
    intro y hy
    obtain ⟨j, hj⟩ := List.getElem?_of_mem hy
    rw [List.getElem?_drop] at hj
    have hxy := le_of_index_le hsorted hx hj (Nat.le_add_right i j)
    simpa using (not_le.mp hlt).trans_le hxy
  have htake : (l.take i).countP (· ≤ b) ≤ i :=
    List.countP_le_length.trans (List.length_take_le i l)
  rw [← List.take_append_drop i l, List.countP_append, hdrop] at hcount
  omega

/-- Members from a bound on come last. -/
theorem le_of_length_le (hsorted : l.Pairwise (· ≤ ·)) (hx : l[i]? = some x)
    (hcount : l.length ≤ i + l.countP (b ≤ ·)) : b ≤ x := by
  by_contra hlt
  have hi : i < l.length := (List.getElem?_eq_some_iff.mp hx).1
  -- up to `x` nothing is from the bound on
  have htake : (l.take (i + 1)).countP (b ≤ ·) = 0 := by
    rw [List.countP_eq_zero]
    intro y hy
    obtain ⟨j, hj⟩ := List.getElem?_of_mem hy
    have hji : j < i + 1 :=
      (List.getElem?_eq_some_iff.mp hj).1.trans_le (List.length_take_le _ _)
    rw [List.getElem?_take_of_lt hji] at hj
    have hyx := le_of_index_le hsorted hj hx (Nat.le_of_lt_succ hji)
    simpa using hyx.trans_lt (not_le.mp hlt)
  have hdrop : (l.drop (i + 1)).countP (b ≤ ·) ≤ l.length - (i + 1) := by
    rw [← List.length_drop]
    exact List.countP_le_length
  rw [← List.take_append_drop (i + 1) l, List.countP_append, htake, List.take_append_drop]
    at hcount
  omega

/-- The opposite numbers are sorted the other way round. -/
theorem mergeSort_map_neg {β : Type*} [AddCommGroup β] [LinearOrder β] [IsOrderedAddMonoid β]
    (l : List β) : (l.map Neg.neg).mergeSort (· ≤ ·) =
      ((l.mergeSort (· ≤ ·)).map Neg.neg).reverse := by
  apply List.Perm.eq_of_pairwise' (List.pairwise_mergeSort' (· ≤ ·) _)
  · rw [List.pairwise_reverse, List.pairwise_map]
    apply (List.pairwise_mergeSort' (· ≤ ·) l).imp
    intro x y h
    exact neg_le_neg h
  · have hsorted : (l.map Neg.neg).Perm ((l.mergeSort (· ≤ ·)).map Neg.neg) :=
      (List.mergeSort_perm l _).symm.map Neg.neg
    exact (List.mergeSort_perm _ _).trans (hsorted.trans (List.reverse_perm _).symm)

end OrderStatistics
