import AgentEval.Merkle.Tree

/-!
# Roots without their trees

Whoever checks proofs sees roots and paths, never the leaves. What a path says is then a relation
between digests, by recursion on the split and over the inputs `S` that have been seen hashed.

* `Opens S i n h r` — a path opens the root `r` of `n` leaves at leaf `i` to `h`; `Grows S m n r s` —
  a path shows that the root `s` of `n` leaves extends the root `r` of `m`. **`opens_climb`**,
  **`grows_climb`**: climbs along the right directions give them.
* **`Opens.unique`**: a root opens to one digest at a leaf. **`Grows.opens`**: a root and one that
  extends it open to one digest. **`Grows.trans`**: extension composes. **`Grows.eq_root_take`**: what
  is extended to the root of a list is the root of its first leaves. All up to a collision among `S`.
-/

namespace Merkle

open Crypto

variable {α D : Type*} (H : Input α D → D) (S : List (Input α D))

/-- The root `r` of `n` leaves, opened at leaf `i` to the digest `h`. -/
inductive Opens : ℕ → ℕ → D → D → Prop
  /-- A single leaf is the root. -/
  | leaf (h : D) : Opens 0 1 h h
  /-- A leaf of the left subtree. -/
  | left {i n : ℕ} {h l r : D} (hn : 2 ≤ n) (hi : i < split n) (hl : Opens i (split n) h l)
      (hS : .node l r ∈ S) : Opens i n h (H (.node l r))
  /-- A leaf of the right subtree. -/
  | right {i n : ℕ} {h l r : D} (hn : 2 ≤ n) (hi : split n ≤ i)
      (hr : Opens (i - split n) (n - split n) h r) (hS : .node l r ∈ S) :
      Opens i n h (H (.node l r))

/-- The root of `m` leaves, extended to a root of `n` leaves. -/
inductive Grows : ℕ → ℕ → D → D → Prop
  /-- Nothing was added. -/
  | same (n : ℕ) (r : D) : Grows n n r r
  /-- The first leaves lie in the left subtree. -/
  | left {m n : ℕ} {r l x : D} (hpos : 0 < m) (hmn : m < n) (hm : m ≤ split n)
      (hl : Grows m (split n) r l) (hS : .node l x ∈ S) : Grows m n r (H (.node l x))
  /-- The first leaves reach into the right subtree; the left one is shared. -/
  | right {m n : ℕ} {l r s : D} (hm : split n < m) (hmn : m < n)
      (hr : Grows (m - split n) (n - split n) r s) (hS : .node l r ∈ S) (hS' : .node l s ∈ S) :
      Grows m n (H (.node l r)) (H (.node l s))

variable {H S}

/-! ## Climbs give both -/

/-- The last step of a path with given directions. -/
theorem exists_of_map_fst_eq_append {steps : List (Step D)} {ds : List Dir} {d : Dir}
    (h : steps.map Prod.fst = ds ++ [d]) :
    ∃ init x, steps = init ++ [(d, x)] ∧ init.map Prod.fst = ds := by
  obtain ⟨init, last, rfl, hinit, hlast⟩ := List.map_eq_append_iff.mp h
  obtain ⟨⟨e, x⟩, rfl, he⟩ := List.map_eq_singleton_iff.mp hlast
  obtain rfl : e = d := he
  exact ⟨init, x, rfl, hinit⟩

/-- **A climb along the path of a leaf opens what it reaches.** -/
theorem opens_climb {n : ℕ} {i : ℕ} {h : D} {steps : List (Step D)} (hi : i < n)
    (hdirs : steps.map Prod.fst = dirs i n) (hS : climbInputs H h steps ⊆ S) :
    Opens H S i n h (climb H h steps) := by
  induction n using Nat.strong_induction_on generalizing i steps with
  | _ n ih =>
    rcases (show n = 1 ∨ 2 ≤ n by omega) with rfl | hn
    · rw [dirs_of_le_one _ le_rfl, List.map_eq_nil_iff] at hdirs
      obtain rfl : i = 0 := by omega
      rw [hdirs]
      exact .leaf h
    have hlt := split_lt hn
    have hpos := split_pos n
    by_cases hk : i < split n
    · rw [dirs_of_lt_split hn hk] at hdirs
      obtain ⟨init, x, rfl, hinit⟩ := exists_of_map_fst_eq_append hdirs
      rw [climbInputs_append, List.append_subset] at hS
      rw [climb_append]
      exact .left hn hk (ih _ hlt hk hinit hS.1) (hS.2 (List.mem_cons_self ..))
    · rw [not_lt] at hk
      rw [dirs_of_split_le hn hk] at hdirs
      obtain ⟨init, x, rfl, hinit⟩ := exists_of_map_fst_eq_append hdirs
      rw [climbInputs_append, List.append_subset] at hS
      rw [climb_append]
      exact .right hn hk (ih _ (by omega) (by omega) hinit hS.1) (hS.2 (List.mem_cons_self ..))

/-- **A climb along the path of the last complete subtree extends what its right steps reach.** -/
theorem grows_climb {n : ℕ} {m : ℕ} {h : D} {steps : List (Step D)} (hpos : 0 < m) (hm : m ≤ n)
    (hdirs : steps.map Prod.fst = proofDirs m n) (hS : climbInputs H h steps ⊆ S)
    (hS' : climbInputs H h (rightSteps steps) ⊆ S) :
    Grows H S m n (climb H h (rightSteps steps)) (climb H h steps) := by
  induction n using Nat.strong_induction_on generalizing m steps with
  | _ n ih =>
    rcases hm.eq_or_lt with rfl | hlt
    · rw [proofDirs_of_le le_rfl, List.map_eq_nil_iff] at hdirs
      rw [hdirs]
      exact .same m h
    have hn : 2 ≤ n := by omega
    have hkn := split_lt hn
    have hkpos := split_pos n
    by_cases hk : m ≤ split n
    · rw [proofDirs_of_le_split hlt hn hk] at hdirs
      obtain ⟨init, x, rfl, hinit⟩ := exists_of_map_fst_eq_append hdirs
      -- the last step is a left one: the earlier root has no part in it
      have hright : rightSteps (init ++ [(Dir.left, x)]) = rightSteps init := by
        rw [rightSteps_append]
        exact List.append_nil _
      rw [climbInputs_append, List.append_subset] at hS
      rw [hright] at hS' ⊢
      rw [climb_append]
      exact .left hpos hlt hk (ih _ hkn hpos hk hinit hS.1 hS') (hS.2 (List.mem_cons_self ..))
    · rw [not_le] at hk
      rw [proofDirs_of_split_lt hlt hk] at hdirs
      obtain ⟨init, x, rfl, hinit⟩ := exists_of_map_fst_eq_append hdirs
      have hright : rightSteps (init ++ [(Dir.right, x)]) = rightSteps init ++ [(Dir.right, x)] := by
        rw [rightSteps_append]
        rfl
      rw [climbInputs_append, List.append_subset] at hS
      rw [hright, climbInputs_append, List.append_subset] at hS'
      rw [hright, climb_append, climb_append]
      exact .right hk hlt (ih _ (by omega) (by omega) (by omega) hinit hS.1 hS'.1)
        (hS'.2 (List.mem_cons_self ..)) (hS.2 (List.mem_cons_self ..))

/-! ## What they determine -/

/-- Two nodes that have been seen hashed to one digest have the same children. -/
theorem node_injective (hno : ¬ CollisionIn H S) {l r l' r' : D} (h : .node l r ∈ S)
    (h' : .node l' r' ∈ S) (heq : H (.node l r) = H (.node l' r')) : l = l' ∧ r = r' := by
  have hnode := eq_of_not_collisionIn hno h h' heq
  injection hnode with hl hr
  exact ⟨hl, hr⟩

/-- An opening is at a leaf of the tree. -/
theorem Opens.lt {i n : ℕ} {h r : D} (ho : Opens H S i n h r) : i < n := by
  induction ho with
  | leaf => exact Nat.one_pos
  | left hn hi hl hS ih => exact hi.trans (split_lt hn)
  | right hn hi hr hS ih => omega

/-- An extension has no fewer leaves. -/
theorem Grows.le {m n : ℕ} {r s : D} (hg : Grows H S m n r s) : m ≤ n := by
  induction hg with
  | same => exact le_rfl
  | left hpos hmn => exact hmn.le
  | right hm hmn => exact hmn.le

/-- What opens in fewer inputs opens in more. -/
theorem Opens.mono {T : List (Input α D)} (hST : S ⊆ T) {i n : ℕ} {h r : D}
    (ho : Opens H S i n h r) : Opens H T i n h r := by
  induction ho with
  | leaf h => exact .leaf h
  | left hn hi hl hS ih => exact .left hn hi ih (hST hS)
  | right hn hi hr hS ih => exact .right hn hi ih (hST hS)

/-- What grows in fewer inputs grows in more. -/
theorem Grows.mono {T : List (Input α D)} (hST : S ⊆ T) {m n : ℕ} {r s : D}
    (hg : Grows H S m n r s) : Grows H T m n r s := by
  induction hg with
  | same n r => exact .same n r
  | left hpos hmn hm hl hS ih => exact .left hpos hmn hm ih (hST hS)
  | right hm hmn hr hS hS' ih => exact .right hm hmn ih (hST hS) (hST hS')

/-- **A root opens to one digest at a leaf.** -/
theorem Opens.unique (hno : ¬ CollisionIn H S) {i n : ℕ} {h h' r : D} (ho : Opens H S i n h r)
    (ho' : Opens H S i n h' r) : h = h' := by
  induction ho generalizing h' with
  | leaf h =>
    cases ho' with
    | leaf => rfl
    | left hn => omega
    | right hn => omega
  | @left i n h l r hn hi hl hS ih =>
    generalize hroot : H (.node l r) = root at ho'
    cases ho' with
    | leaf => omega
    | left hn' hi' hl' hS' =>
      obtain ⟨rfl, rfl⟩ := node_injective hno hS hS' hroot
      exact ih hl'
    | right hn' hi' => omega
  | @right i n h l r hn hi hr hS ih =>
    generalize hroot : H (.node l r) = root at ho'
    cases ho' with
    | leaf => omega
    | left hn' hi' => omega
    | right hn' hi' hr' hS' =>
      obtain ⟨rfl, rfl⟩ := node_injective hno hS hS' hroot
      exact ih hr'

/-- Between the split and the size, a tree splits where a larger one does. -/
theorem split_eq_of_lt {m n : ℕ} (hm : split n < m) (hmn : m ≤ n) : split m = split n := by
  obtain ⟨j, hj⟩ := exists_split_eq_pow n
  have htwo := le_two_mul_split n
  rw [hj] at hm htwo ⊢
  exact split_eq hm (hmn.trans htwo)

/-- **A root and one that extends it open to one digest** at a leaf they share. -/
theorem Grows.opens (hno : ¬ CollisionIn H S) {m n : ℕ} {r s : D} (hg : Grows H S m n r s) {i : ℕ}
    {h h' : D} (ho : Opens H S i m h r) (ho' : Opens H S i n h' s) : h = h' := by
  induction hg generalizing i with
  | same => exact ho.unique hno ho'
  | @left m n r l x hpos hmn hm hl hS ih =>
    have hi := ho.lt
    generalize hroot : H (.node l x) = root at ho'
    cases ho' with
    | leaf => omega
    | left hn' hi' hl' hS' =>
      obtain ⟨rfl, -⟩ := node_injective hno hS hS' hroot
      exact ih ho hl'
    | right hn' hi' => omega
  | @right m n l r s hm hmn hr hS hS' ih =>
    have hsplit := split_eq_of_lt hm hmn.le
    have hkpos := split_pos n
    generalize hfirst : H (.node l r) = first at ho
    generalize hsecond : H (.node l s) = second at ho'
    cases ho with
    | leaf => omega
    | left hn hi hl hS₁ =>
      obtain ⟨rfl, -⟩ := node_injective hno hS hS₁ hfirst
      cases ho' with
      | leaf => omega
      | left hn' hi' hl' hS₂ =>
        obtain ⟨rfl, -⟩ := node_injective hno hS' hS₂ hsecond
        rw [hsplit] at hl
        exact hl.unique hno hl'
      | right hn' hi' => omega
    | right hn hi hr₁ hS₁ =>
      obtain ⟨-, rfl⟩ := node_injective hno hS hS₁ hfirst
      cases ho' with
      | leaf => omega
      | left hn' hi' => omega
      | right hn' hi' hr₂ hS₂ =>
        obtain ⟨-, rfl⟩ := node_injective hno hS' hS₂ hsecond
        rw [hsplit] at hr₁
        exact ih hr₁ hr₂

/-- **Extension composes.** -/
theorem Grows.trans (hno : ¬ CollisionIn H S) {m n p : ℕ} {r s t : D} (hg : Grows H S m n r s)
    (hg' : Grows H S n p s t) : Grows H S m p r t := by
  induction hg' generalizing m r with
  | same => exact hg
  | @left n p s l x hpos hnp hn hl hS ih =>
    have hgrow := ih hg
    have hle := hg.le
    rcases Nat.eq_zero_or_pos m with rfl | hm
    · -- only nothing extends nothing
      cases hg with
      | same => omega
      | left hpos' => omega
      | right hm' => omega
    · exact .left hm (hle.trans_lt hnp) (hle.trans hn) hgrow hS
  | @right n p l s t hn hnp hr hS hS' ih =>
    have hsplit := split_eq_of_lt hn hnp.le
    generalize hroot : H (.node l s) = root at hg
    cases hg with
    | same =>
      rw [← hroot]
      exact .right hn hnp hr hS hS'
    | left hpos hmn hm hl hS₁ =>
      obtain ⟨rfl, rfl⟩ := node_injective hno hS hS₁ hroot
      rw [hsplit] at hm hl
      exact .left hpos (hmn.trans hnp) hm hl hS'
    | right hm hmn hr₁ hS₁ hS₂ =>
      obtain ⟨rfl, rfl⟩ := node_injective hno hS hS₂ hroot
      rw [hsplit] at hm hr₁
      exact .right hm (hmn.trans hnp) (ih hr₁) hS₁ hS'

/-- Nothing was added between roots of one size. -/
theorem Grows.eq_of_le {m n : ℕ} {r s : D} (hg : Grows H S m n r s) (h : n ≤ m) : r = s := by
  cases hg with
  | same => rfl
  | left hpos hmn => omega
  | right hm hmn => omega

/-- **What is extended to the root of a list of leaves is the root of the first of them.** -/
theorem Grows.eq_root_take (hno : ¬ CollisionIn H S) {m n : ℕ} {r s : D} (hg : Grows H S m n r s)
    {ds : List D} (hlen : ds.length = n) (hds : rootInputs H ds ⊆ S) (hs : s = root H ds) :
    r = root H (ds.take m) := by
  induction hg generalizing ds with
  | same => rw [hs, ← hlen, List.take_length]
  | @left m n r l x hpos hmn hm hl hS ih =>
    have h2 : 2 ≤ ds.length := by omega
    have hlt := split_lt h2
    rw [root_of_two_le H h2] at hs
    obtain ⟨hleft, -⟩ := node_injective hno hS (hds (exists_root_eq_node H h2)) hs
    rw [hlen] at hleft hlt
    have hklen : (ds.take (split n)).length = split n := by
      rw [List.length_take]
      omega
    have htake := ih hklen
      (hlen ▸ List.Subset.trans (rootInputs_take_subset H h2) hds) hleft
    rwa [List.take_take, min_eq_left hm] at htake
  | @right m n l r s hm hmn hr hS hS' ih =>
    have hkpos := split_pos n
    have h2 : 2 ≤ ds.length := by omega
    rw [root_of_two_le H h2] at hs
    obtain ⟨hleft, hright⟩ := node_injective hno hS' (hds (exists_root_eq_node H h2)) hs
    rw [hlen] at hleft hright
    have hrest : (ds.drop (split n)).length = n - split n := by
      rw [List.length_drop]
      omega
    have hdrop := ih hrest
      (hlen ▸ List.Subset.trans (rootInputs_drop_subset H h2) hds) hright
    -- the first leaves split where the whole list does
    have hmlen : (ds.take m).length = m := by
      rw [List.length_take]
      omega
    have hm2 : 2 ≤ (ds.take m).length := by omega
    rw [root_of_two_le H hm2, hmlen, split_eq_of_lt hm hmn.le,
      List.take_take, min_eq_left hm.le, List.drop_take, hleft, hdrop]

end Merkle
