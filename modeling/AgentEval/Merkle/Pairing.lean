import AgentEval.Merkle.Tree

/-!
# The root, one level after another

A tree can be hashed from the leaves up: pair adjacent nodes, keep an unpaired last node as it is,
and repeat on the level so obtained.

* `pairUp H ds` — the level above `ds`.
* **`root_pairUp`**: a level and the level above it have the same root. The split of a level is
  twice the split of the level above (`split_half`), so one pass pairs the two subtrees apart
  (`pairUp_append`).
-/

namespace Merkle

variable {α D : Type*} (H : Input α D → D)

/-- The level above `ds`: adjacent nodes are hashed together, an unpaired last one moves up. -/
def pairUp : List D → List D
  | [] => []
  | [d] => [d]
  | x :: y :: ds => H (.node x y) :: pairUp ds

/-- A pass halves the level, rounding up. -/
theorem length_pairUp (ds : List D) : (pairUp H ds).length = (ds.length + 1) / 2 := by
  induction ds using pairUp.induct with
  | case1 => simp [pairUp]
  | case2 d => simp [pairUp]
  | case3 x y ds ih =>
    simp only [pairUp, List.length_cons, ih]
    omega

/-- A pass over a level with an even first part pairs the parts apart. -/
theorem pairUp_append {xs : List D} (ys : List D) (h : xs.length % 2 = 0) :
    pairUp H (xs ++ ys) = pairUp H xs ++ pairUp H ys := by
  induction xs using pairUp.induct with
  | case1 => simp [pairUp]
  | case2 d => simp at h
  | case3 x y xs ih =>
    simp only [List.length_cons] at h
    simp only [List.cons_append, pairUp]
    rw [ih (by omega)]

/-- A pass over a level of at least two nodes leaves fewer. -/
theorem length_pairUp_lt {ds : List D} (h : 2 ≤ ds.length) :
    (pairUp H ds).length < ds.length := by
  rw [length_pairUp]
  omega

/-- **A pass keeps the root.** -/
theorem root_pairUp (ds : List D) : root H (pairUp H ds) = root H ds := by
  induction ds using split_induction with
  | nil => rfl
  | single d => rfl
  | node ds h2 ihl ihr =>
    rcases h2.eq_or_lt with htwo | h3
    · obtain ⟨x, y, rfl⟩ := List.length_eq_two.mp htwo.symm
      rw [root_of_two_le H (le_refl [x, y].length)]
      simp [pairUp]
    · have hk := split_half h3
      have hlt := split_lt h2
      set k := split ((ds.length + 1) / 2) with hkdef
      -- the two subtrees are paired apart
      have hpairs : pairUp H ds =
          pairUp H (ds.take (split ds.length)) ++ pairUp H (ds.drop (split ds.length)) := by
        rw [← pairUp_append, List.take_append_drop]
        rw [List.length_take, min_eq_left hlt.le]
        omega
      have hleft : (pairUp H (ds.take (split ds.length))).length = k := by
        rw [length_pairUp, List.length_take, min_eq_left hlt.le]
        omega
      have hlen : (pairUp H ds).length = (ds.length + 1) / 2 := length_pairUp H ds
      rw [root_of_two_le H (show 2 ≤ (pairUp H ds).length by omega), hlen, ← hkdef, root_of_two_le H h2,
        hpairs, ← hleft, List.take_left, List.drop_left, ihl, ihr]

end Merkle
