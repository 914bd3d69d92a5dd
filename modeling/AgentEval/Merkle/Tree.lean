import AgentEval.Crypto.Collision
import AgentEval.Merkle.Shape

/-!
# Merkle roots, audit paths and consistency paths

The tree hash of RFC 6962 over an arbitrary hash `H : Input α D → D`. An `Input` is one of the three
things a tree ever hashes: nothing, the data of a leaf, two child digests. That the three are
different inputs is domain separation.

* `root H ds` — the root over the leaf digests `ds`; `rootInputs H ds` — what computing it hashes.
* `climb H x steps` — the digest reached from `x` by hashing siblings in, leaf-ward first.
* `auditSteps H m ds` — the siblings of leaf `m`; **`climb_auditSteps`**: climbing them from the
  leaf reaches the root.
* `proofSeed H m ds`, `proofSteps H m ds` — the last complete subtree of the first `m` leaves and
  its siblings; **`climb_proofSteps`**: climbing reaches the root of `ds`, and
  **`climb_right_proofSteps`**: climbing the right steps alone reaches the root of the first `m`.

The converses hold up to a collision among the inputs at hand: `climb_injective` (two climbs along
one path that meet started together and met the same siblings), `root_injective` (a root determines
its leaves, given how many), and **`mem_of_climb_eq_root`** (what climbs from a leaf to the root of
a tree, along any path at all, started at a leaf of the tree).
-/

namespace Merkle

open Crypto

/-- What a tree hashes. -/
inductive Input (α D : Type*) where
  /-- Nothing: the empty tree. -/
  | empty
  /-- The data of a leaf. -/
  | leaf (a : α)
  /-- Two child digests. -/
  | node (l r : D)
  deriving DecidableEq

/-- Induction along the split: a list is empty, a single leaf, or its two subtrees. -/
theorem split_induction {β : Type*} {motive : List β → Prop} (nil : motive [])
    (single : ∀ x, motive [x])
    (node : ∀ xs, 2 ≤ xs.length → motive (xs.take (split xs.length)) →
      motive (xs.drop (split xs.length)) → motive xs) (xs : List β) : motive xs := by
  induction hn : xs.length using Nat.strong_induction_on generalizing xs with
  | _ n ih =>
    subst hn
    match xs, ih with
    | [], _ => exact nil
    | [x], _ => exact single x
    | x :: y :: ys, ih =>
      have h2 : 2 ≤ (x :: y :: ys).length := by simp
      have hlt := split_lt h2
      have hpos := split_pos (x :: y :: ys).length
      refine node _ h2 (ih _ ?_ _ rfl) (ih _ ?_ _ rfl)
      · rw [List.length_take]
        omega
      · rw [List.length_drop]
        omega

variable {α D : Type*} (H : Input α D → D)

/-! ## The root -/

/-- The root over a list of leaf digests. -/
def root (ds : List D) : D :=
  match ds with
  | [] => H .empty
  | [d] => d
  | x :: y :: ys =>
    H (.node (root ((x :: y :: ys).take (split (x :: y :: ys).length)))
      (root ((x :: y :: ys).drop (split (x :: y :: ys).length))))
termination_by ds.length
decreasing_by
  · have := split_lt (n := (x :: y :: ys).length) (by simp)
    rw [List.length_take]
    omega
  · have := split_pos (x :: y :: ys).length
    rw [List.length_drop]
    have : 2 ≤ (x :: y :: ys).length := by simp
    omega

/-- What computing the root hashes, the root's own input first. -/
def rootInputs (ds : List D) : List (Input α D) :=
  match ds with
  | [] => [.empty]
  | [_] => []
  | x :: y :: ys =>
    .node (root H ((x :: y :: ys).take (split (x :: y :: ys).length)))
        (root H ((x :: y :: ys).drop (split (x :: y :: ys).length))) ::
      (rootInputs ((x :: y :: ys).take (split (x :: y :: ys).length)) ++
        rootInputs ((x :: y :: ys).drop (split (x :: y :: ys).length)))
termination_by ds.length
decreasing_by
  · have := split_lt (n := (x :: y :: ys).length) (by simp)
    rw [List.length_take]
    omega
  · have := split_pos (x :: y :: ys).length
    rw [List.length_drop]
    have : 2 ≤ (x :: y :: ys).length := by simp
    omega

/-- The root of the empty tree. -/
@[simp] theorem root_nil : root H [] = H .empty := by rw [root]

/-- The root of a single leaf. -/
@[simp] theorem root_singleton (d : D) : root H [d] = d := by rw [root]

/-- The root of a larger tree. -/
theorem root_of_two_le {ds : List D} (h : 2 ≤ ds.length) :
    root H ds = H (.node (root H (ds.take (split ds.length))) (root H (ds.drop (split ds.length)))) := by
  match ds, h with
  | x :: y :: ys, _ => rw [root]

/-- The inputs of a larger tree. -/
theorem rootInputs_of_two_le {ds : List D} (h : 2 ≤ ds.length) :
    rootInputs H ds =
      .node (root H (ds.take (split ds.length))) (root H (ds.drop (split ds.length))) ::
        (rootInputs H (ds.take (split ds.length)) ++ rootInputs H (ds.drop (split ds.length))) := by
  match ds, h with
  | x :: y :: ys, _ => rw [rootInputs]

/-- The root of a larger tree, as the hash of its first input. -/
theorem exists_root_eq_node {ds : List D} (h : 2 ≤ ds.length) :
    .node (root H (ds.take (split ds.length))) (root H (ds.drop (split ds.length))) ∈
      rootInputs H ds := by
  rw [rootInputs_of_two_le H h]
  exact List.mem_cons_self ..

/-- The left subtree's inputs are inputs of the tree. -/
theorem rootInputs_take_subset {ds : List D} (h : 2 ≤ ds.length) :
    rootInputs H (ds.take (split ds.length)) ⊆ rootInputs H ds := by
  rw [rootInputs_of_two_le H h]
  intro i hi
  exact List.mem_cons_of_mem _ (List.mem_append_left _ hi)

/-- The right subtree's inputs are inputs of the tree. -/
theorem rootInputs_drop_subset {ds : List D} (h : 2 ≤ ds.length) :
    rootInputs H (ds.drop (split ds.length)) ⊆ rootInputs H ds := by
  rw [rootInputs_of_two_le H h]
  intro i hi
  exact List.mem_cons_of_mem _ (List.mem_append_right _ hi)

/-! ## Climbing -/

/-- A sibling and the side the climbing node is on. -/
abbrev Step (D : Type*) := Dir × D

/-- The input hashed when a sibling is combined with `x`. -/
def combine (s : Step D) (x : D) : Input α D :=
  match s.1 with
  | .left => .node x s.2
  | .right => .node s.2 x

/-- The digest reached from `x`. -/
def climb (x : D) : List (Step D) → D
  | [] => x
  | s :: p => climb (H (combine s x)) p

/-- What climbing hashes. -/
def climbInputs (x : D) : List (Step D) → List (Input α D)
  | [] => []
  | s :: p => combine s x :: climbInputs (H (combine s x)) p

/-- Climbing a path in two parts. -/
theorem climb_append (x : D) (p q : List (Step D)) :
    climb H x (p ++ q) = climb H (climb H x p) q := by
  induction p generalizing x with
  | nil => rfl
  | cons s p ih => exact ih _

/-- The inputs of a path in two parts. -/
theorem climbInputs_append (x : D) (p q : List (Step D)) :
    climbInputs H x (p ++ q) = climbInputs H x p ++ climbInputs H (climb H x p) q := by
  induction p generalizing x with
  | nil => rfl
  | cons s p ih =>
    change _ :: climbInputs H _ (p ++ q) = _
    rw [ih]
    rfl

/-- Two combinations on one side that are the same input have the same parts. -/
theorem combine_injective {s t : Step D} {x y : D} (hst : s.1 = t.1)
    (h : (combine s x : Input α D) = combine t y) : s = t ∧ x = y := by
  obtain ⟨d, a⟩ := s
  obtain ⟨e, b⟩ := t
  simp only at hst
  subst hst
  cases d <;> simp only [combine, Input.node.injEq] at h <;> simp [h]

/-- **Climbs along one path that meet started together and met the same siblings.** -/
theorem climb_injective {S : List (Input α D)} (hS : ¬ CollisionIn H S) {x y : D}
    {p q : List (Step D)} (hpq : p.map Prod.fst = q.map Prod.fst)
    (hp : climbInputs H x p ⊆ S) (hq : climbInputs H y q ⊆ S)
    (h : climb H x p = climb H y q) : x = y ∧ p = q := by
  induction p generalizing x y q with
  | nil =>
    cases q with
    | nil => exact ⟨h, rfl⟩
    | cons t q => simp at hpq
  | cons s p ih =>
    cases q with
    | nil => simp at hpq
    | cons t q =>
      simp only [List.map_cons, List.cons.injEq] at hpq
      have hp' := List.cons_subset.mp hp
      have hq' := List.cons_subset.mp hq
      obtain ⟨hxy, rfl⟩ := ih hpq.2 hp'.2 hq'.2 h
      obtain ⟨rfl, rfl⟩ := combine_injective hpq.1 (eq_of_not_collisionIn hS hp'.1 hq'.1 hxy)
      exact ⟨rfl, rfl⟩

/-! ## The audit path of a leaf -/

/-- The siblings of leaf `m`. -/
def auditSteps (m : ℕ) (ds : List D) : List (Step D) :=
  if h : ds.length ≤ 1 then []
  else if m < split ds.length then
    auditSteps m (ds.take (split ds.length)) ++ [(.left, root H (ds.drop (split ds.length)))]
  else
    auditSteps (m - split ds.length) (ds.drop (split ds.length)) ++
      [(.right, root H (ds.take (split ds.length)))]
termination_by ds.length
decreasing_by
  · have := split_lt (n := ds.length) (by omega)
    rw [List.length_take]
    omega
  · have := split_pos ds.length
    rw [List.length_drop]
    omega

/-- A single leaf has no sibling. -/
theorem auditSteps_of_length_le_one (m : ℕ) {ds : List D} (h : ds.length ≤ 1) :
    auditSteps H m ds = [] := by
  rw [auditSteps, dif_pos h]

/-- The siblings of a leaf of the left subtree. -/
theorem auditSteps_of_lt_split {m : ℕ} {ds : List D} (h : 2 ≤ ds.length)
    (hm : m < split ds.length) :
    auditSteps H m ds =
      auditSteps H m (ds.take (split ds.length)) ++
        [(.left, root H (ds.drop (split ds.length)))] := by
  rw [auditSteps, dif_neg (by omega), if_pos hm]

/-- The siblings of a leaf of the right subtree. -/
theorem auditSteps_of_split_le {m : ℕ} {ds : List D} (h : 2 ≤ ds.length)
    (hm : split ds.length ≤ m) :
    auditSteps H m ds =
      auditSteps H (m - split ds.length) (ds.drop (split ds.length)) ++
        [(.right, root H (ds.take (split ds.length)))] := by
  rw [auditSteps, dif_neg (by omega), if_neg (by omega)]

/-- The audit path has the directions of its leaf. -/
theorem map_fst_auditSteps (ds : List D) (m : ℕ) :
    (auditSteps H m ds).map Prod.fst = dirs m ds.length := by
  induction ds using split_induction generalizing m with
  | nil => rw [auditSteps_of_length_le_one H m (by simp), dirs_of_le_one _ (by simp)]; rfl
  | single x => rw [auditSteps_of_length_le_one H m (by simp), dirs_of_le_one _ (by simp)]; rfl
  | node ds h2 ihl ihr =>
    have hlt := split_lt h2
    by_cases hm : m < split ds.length
    · rw [auditSteps_of_lt_split H h2 hm, dirs_of_lt_split h2 hm, List.map_append, ihl,
        List.length_take, min_eq_left hlt.le]
      rfl
    · rw [not_lt] at hm
      rw [auditSteps_of_split_le H h2 hm, dirs_of_split_le h2 hm, List.map_append, ihr,
        List.length_drop]
      rfl

/-- **Climbing the audit path of a leaf reaches the root.** -/
theorem climb_auditSteps {ds : List D} {m : ℕ} {d : D} (hm : ds[m]? = some d) :
    climb H d (auditSteps H m ds) = root H ds := by
  induction ds using split_induction generalizing m with
  | nil => simp at hm
  | single x =>
    rw [auditSteps_of_length_le_one H m (by simp), root_singleton]
    have := List.mem_of_getElem? hm
    exact List.mem_singleton.mp this
  | node ds h2 ihl ihr =>
    by_cases hk : m < split ds.length
    · rw [auditSteps_of_lt_split H h2 hk, climb_append, ihl (by rwa [List.getElem?_take_of_lt hk]),
        root_of_two_le H h2]
      rfl
    · rw [not_lt] at hk
      rw [auditSteps_of_split_le H h2 hk, climb_append,
        ihr (by rwa [List.getElem?_drop, Nat.add_sub_cancel' hk]), root_of_two_le H h2]
      rfl

/-- The inputs met while climbing an audit path are inputs of the tree. -/
theorem climbInputs_auditSteps_subset {ds : List D} {m : ℕ} {d : D} (hm : ds[m]? = some d) :
    climbInputs H d (auditSteps H m ds) ⊆ rootInputs H ds := by
  induction ds using split_induction generalizing m with
  | nil => simp at hm
  | single x =>
    rw [auditSteps_of_length_le_one H m (by simp)]
    exact List.nil_subset _
  | node ds h2 ihl ihr =>
    by_cases hk : m < split ds.length
    · have hm' : (ds.take (split ds.length))[m]? = some d := by rwa [List.getElem?_take_of_lt hk]
      rw [auditSteps_of_lt_split H h2 hk, climbInputs_append, climb_auditSteps H hm']
      refine List.append_subset.mpr ⟨List.Subset.trans (ihl hm') (rootInputs_take_subset H h2), ?_⟩
      exact List.cons_subset.mpr ⟨exists_root_eq_node H h2, List.nil_subset _⟩
    · rw [not_lt] at hk
      have hm' : (ds.drop (split ds.length))[m - split ds.length]? = some d := by
        rwa [List.getElem?_drop, Nat.add_sub_cancel' hk]
      rw [auditSteps_of_split_le H h2 hk, climbInputs_append, climb_auditSteps H hm']
      refine List.append_subset.mpr ⟨List.Subset.trans (ihr hm') (rootInputs_drop_subset H h2), ?_⟩
      exact List.cons_subset.mpr ⟨exists_root_eq_node H h2, List.nil_subset _⟩

/-! ## The path of a consistency proof -/

/-- The root of the last complete subtree of the first `m` leaves. -/
def proofSeed (m : ℕ) (ds : List D) : D :=
  if _h : ds.length ≤ m ∨ ds.length ≤ 1 then root H ds
  else if m ≤ split ds.length then proofSeed m (ds.take (split ds.length))
  else proofSeed (m - split ds.length) (ds.drop (split ds.length))
termination_by ds.length
decreasing_by
  · have := split_lt (n := ds.length) (by omega)
    rw [List.length_take]
    omega
  · have := split_pos ds.length
    rw [List.length_drop]
    omega

/-- The siblings of the last complete subtree of the first `m` leaves. -/
def proofSteps (m : ℕ) (ds : List D) : List (Step D) :=
  if _h : ds.length ≤ m ∨ ds.length ≤ 1 then []
  else if m ≤ split ds.length then
    proofSteps m (ds.take (split ds.length)) ++ [(.left, root H (ds.drop (split ds.length)))]
  else
    proofSteps (m - split ds.length) (ds.drop (split ds.length)) ++
      [(.right, root H (ds.take (split ds.length)))]
termination_by ds.length
decreasing_by
  · have := split_lt (n := ds.length) (by omega)
    rw [List.length_take]
    omega
  · have := split_pos ds.length
    rw [List.length_drop]
    omega

section proof

variable {m : ℕ} {ds : List D}

/-- The whole tree is its own last complete subtree. -/
theorem proofSeed_of_le (h : ds.length ≤ m) : proofSeed H m ds = root H ds := by
  rw [proofSeed, dif_pos (Or.inl h)]

/-- The whole tree has no siblings. -/
theorem proofSteps_of_le (h : ds.length ≤ m) : proofSteps H m ds = [] := by
  rw [proofSteps, dif_pos (Or.inl h)]

/-- The seed of a prefix inside the left subtree. -/
theorem proofSeed_of_le_split (h : m < ds.length) (h2 : 2 ≤ ds.length)
    (hm : m ≤ split ds.length) :
    proofSeed H m ds = proofSeed H m (ds.take (split ds.length)) := by
  rw [proofSeed, dif_neg (by omega), if_pos hm]

/-- The siblings of a prefix inside the left subtree. -/
theorem proofSteps_of_le_split (h : m < ds.length) (h2 : 2 ≤ ds.length)
    (hm : m ≤ split ds.length) :
    proofSteps H m ds =
      proofSteps H m (ds.take (split ds.length)) ++
        [(.left, root H (ds.drop (split ds.length)))] := by
  rw [proofSteps, dif_neg (by omega), if_pos hm]

/-- The seed of a prefix that reaches into the right subtree. -/
theorem proofSeed_of_split_lt (h : m < ds.length) (hm : split ds.length < m) :
    proofSeed H m ds = proofSeed H (m - split ds.length) (ds.drop (split ds.length)) := by
  have := split_pos ds.length
  rw [proofSeed, dif_neg (by omega), if_neg (by omega)]

/-- The siblings of a prefix that reaches into the right subtree. -/
theorem proofSteps_of_split_lt (h : m < ds.length) (hm : split ds.length < m) :
    proofSteps H m ds =
      proofSteps H (m - split ds.length) (ds.drop (split ds.length)) ++
        [(.right, root H (ds.take (split ds.length)))] := by
  have := split_pos ds.length
  rw [proofSteps, dif_neg (by omega), if_neg (by omega)]

end proof

/-- The path has the directions of the last complete subtree. -/
theorem map_fst_proofSteps (ds : List D) (m : ℕ) :
    (proofSteps H m ds).map Prod.fst = proofDirs m ds.length := by
  induction ds using split_induction generalizing m with
  | nil => rw [proofSteps_of_le H (by simp), proofDirs_of_le (by simp)]; rfl
  | single x =>
    rw [proofSteps, dif_pos (Or.inr (by simp)), proofDirs, dif_pos (Or.inr (by simp))]
    rfl
  | node ds h2 ihl ihr =>
    have hlt := split_lt h2
    rcases (show ds.length ≤ m ∨ m < ds.length by omega) with h | h
    · rw [proofSteps_of_le H h, proofDirs_of_le h]; rfl
    · by_cases hm : m ≤ split ds.length
      · rw [proofSteps_of_le_split H h h2 hm, proofDirs_of_le_split h h2 hm, List.map_append, ihl,
          List.length_take, min_eq_left hlt.le]
        rfl
      · rw [not_le] at hm
        rw [proofSteps_of_split_lt H h hm, proofDirs_of_split_lt h hm, List.map_append, ihr,
          List.length_drop]
        rfl

/-- **Climbing from the last complete subtree reaches the root.** -/
theorem climb_proofSteps (ds : List D) (m : ℕ) :
    climb H (proofSeed H m ds) (proofSteps H m ds) = root H ds := by
  induction ds using split_induction generalizing m with
  | nil => rw [proofSteps_of_le H (by simp), proofSeed_of_le H (by simp)]; rfl
  | single x =>
    rw [proofSteps, dif_pos (Or.inr (by simp)), proofSeed, dif_pos (Or.inr (by simp))]
    rfl
  | node ds h2 ihl ihr =>
    rcases (show ds.length ≤ m ∨ m < ds.length by omega) with h | h
    · rw [proofSteps_of_le H h, proofSeed_of_le H h]; rfl
    · by_cases hm : m ≤ split ds.length
      · rw [proofSteps_of_le_split H h h2 hm, proofSeed_of_le_split H h h2 hm, climb_append, ihl,
          root_of_two_le H h2]
        rfl
      · rw [not_le] at hm
        rw [proofSteps_of_split_lt H h hm, proofSeed_of_split_lt H h hm, climb_append, ihr,
          root_of_two_le H h2]
        rfl

/-- The inputs met while climbing from the last complete subtree are inputs of the tree. -/
theorem climbInputs_proofSteps_subset (ds : List D) (m : ℕ) :
    climbInputs H (proofSeed H m ds) (proofSteps H m ds) ⊆ rootInputs H ds := by
  induction ds using split_induction generalizing m with
  | nil => rw [proofSteps_of_le H (by simp)]; exact List.nil_subset _
  | single x => rw [proofSteps, dif_pos (Or.inr (by simp))]; exact List.nil_subset _
  | node ds h2 ihl ihr =>
    rcases (show ds.length ≤ m ∨ m < ds.length by omega) with h | h
    · rw [proofSteps_of_le H h]; exact List.nil_subset _
    · by_cases hm : m ≤ split ds.length
      · rw [proofSteps_of_le_split H h h2 hm, proofSeed_of_le_split H h h2 hm, climbInputs_append,
          climb_proofSteps]
        refine List.append_subset.mpr ⟨List.Subset.trans (ihl m) (rootInputs_take_subset H h2), ?_⟩
        exact List.cons_subset.mpr ⟨exists_root_eq_node H h2, List.nil_subset _⟩
      · rw [not_le] at hm
        rw [proofSteps_of_split_lt H h hm, proofSeed_of_split_lt H h hm, climbInputs_append,
          climb_proofSteps]
        refine List.append_subset.mpr ⟨List.Subset.trans (ihr _) (rootInputs_drop_subset H h2), ?_⟩
        exact List.cons_subset.mpr ⟨exists_root_eq_node H h2, List.nil_subset _⟩

/-- The steps in which the climbing node is a right child. -/
def rightSteps (p : List (Step D)) : List (Step D) := p.filter (·.1 = .right)

/-- Right steps of a path in two parts. -/
theorem rightSteps_append (p q : List (Step D)) :
    rightSteps (p ++ q) = rightSteps p ++ rightSteps q := List.filter_append ..

/-- **Climbing the right steps alone reaches the root of the first `m` leaves.** -/
theorem climb_right_proofSteps (ds : List D) {m : ℕ} (hpos : 0 < m) :
    climb H (proofSeed H m ds) (rightSteps (proofSteps H m ds)) = root H (ds.take m) := by
  induction ds using split_induction generalizing m with
  | nil => rw [proofSteps_of_le H (by simp), proofSeed_of_le H (by simp), List.take_nil]; rfl
  | single x =>
    rw [proofSteps_of_le H (by simpa using Nat.succ_le_of_lt hpos), proofSeed_of_le H (by simpa using Nat.succ_le_of_lt hpos),
      List.take_of_length_le (by simpa using Nat.succ_le_of_lt hpos)]
    rfl
  | node ds h2 ihl ihr =>
    have hlt := split_lt h2
    rcases (show ds.length ≤ m ∨ m < ds.length by omega) with h | h
    · rw [proofSteps_of_le H h, proofSeed_of_le H h, List.take_of_length_le h]; rfl
    · by_cases hm : m ≤ split ds.length
      · rw [proofSteps_of_le_split H h h2 hm, proofSeed_of_le_split H h h2 hm, rightSteps_append,
          climb_append, ihl hpos, List.take_take, min_eq_left hm]
        rfl
      · rw [not_le] at hm
        -- the prefix splits where the whole tree does
        have hsplit : split (ds.take m).length = split ds.length := by
          obtain ⟨j, hj⟩ := exists_split_eq_pow ds.length
          have := le_two_mul_split ds.length
          rw [List.length_take, min_eq_left h.le, hj]
          apply split_eq <;> omega
        have hlen : 2 ≤ (ds.take m).length := by
          have := split_pos ds.length
          rw [List.length_take]
          omega
        rw [proofSteps_of_split_lt H h hm, proofSeed_of_split_lt H h hm, rightSteps_append,
          climb_append, ihr (by omega), root_of_two_le H hlen, hsplit, List.take_take,
          min_eq_left hm.le, List.drop_take]
        rfl

/-- A prefix of a power of two is its own last complete subtree. -/
theorem proofSeed_of_notMem_right {ds : List D} {m : ℕ} (hpos : 0 < m)
    (h : Dir.right ∉ proofDirs m ds.length) : proofSeed H m ds = root H (ds.take m) := by
  have hnone : rightSteps (proofSteps H m ds) = [] := by
    rw [rightSteps, List.filter_eq_nil_iff]
    intro s hs hright
    rw [← map_fst_proofSteps H] at h
    exact h (List.mem_map.mpr ⟨s, hs, by simpa using hright⟩)
  have := climb_right_proofSteps H ds hpos
  rwa [hnone] at this

/-! ## What a root determines -/

/-- **A root determines its leaf digests**, given how many there are. -/
theorem root_injective {S : List (Input α D)} (hS : ¬ CollisionIn H S) {ds es : List D}
    (hlen : ds.length = es.length) (hd : rootInputs H ds ⊆ S) (he : rootInputs H es ⊆ S)
    (h : root H ds = root H es) : ds = es := by
  induction ds using split_induction generalizing es with
  | nil => exact (List.eq_nil_of_length_eq_zero hlen.symm).symm
  | single x =>
    obtain ⟨y, rfl⟩ := List.length_eq_one_iff.mp hlen.symm
    rw [root_singleton, root_singleton] at h
    rw [h]
  | node ds h2 ihl ihr =>
    have h2' : 2 ≤ es.length := hlen ▸ h2
    rw [root_of_two_le H h2, root_of_two_le H h2'] at h
    have hnode := eq_of_not_collisionIn hS (hd (exists_root_eq_node H h2))
      (he (exists_root_eq_node H h2')) h
    injection hnode with hl hr
    have hleft := @ihl (es.take (split es.length)) (by simp [hlen])
      (List.Subset.trans (rootInputs_take_subset H h2) hd)
      (List.Subset.trans (rootInputs_take_subset H h2') he) hl
    have hright := @ihr (es.drop (split es.length)) (by simp [hlen])
      (List.Subset.trans (rootInputs_drop_subset H h2) hd)
      (List.Subset.trans (rootInputs_drop_subset H h2') he) hr
    rw [← List.take_append_drop (split ds.length) ds, hleft, hright, List.take_append_drop]

/-- What a tree over the data `xs` hashes: its leaves, then its nodes. -/
def treeInputs (xs : List α) : List (Input α D) :=
  xs.map .leaf ++ rootInputs H (xs.map fun a => H (.leaf a))

/-- **What climbs to the root of a tree, along any path, started at one of its leaves.** The
induction is on the tree; its root's input fixes the last step of the path. -/
theorem mem_of_climb_eq_root {S : List (Input α D)} (hS : ¬ CollisionIn H S) {xs : List α} {a : α}
    {p : List (Step D)} (ha : .leaf a ∈ S) (hp : climbInputs H (H (.leaf a)) p ⊆ S)
    (hxs : treeInputs H xs ⊆ S)
    (h : climb H (H (.leaf a)) p = root H (xs.map fun a => H (.leaf a))) : a ∈ xs := by
  have hleaf : ∀ x ∈ xs, .leaf x ∈ S := fun x hx =>
    hxs (List.mem_append_left _ (List.mem_map_of_mem hx))
  have hroot : rootInputs H (xs.map fun a => H (.leaf a)) ⊆ S := fun i hi =>
    hxs (List.mem_append_right _ hi)
  clear hxs
  -- the input whose digest the climb ends with
  have hlast : ∀ {q : List (Step D)} {s : Step D}, p = q ++ [s] →
      climb H (H (.leaf a)) p = H (combine s (climb H (H (.leaf a)) q)) ∧
        combine s (climb H (H (.leaf a)) q) ∈ S ∧ climbInputs H (H (.leaf a)) q ⊆ S := by
    rintro q s rfl
    rw [climbInputs_append, List.append_subset] at hp
    rw [climb_append]
    exact ⟨rfl, hp.2 (List.mem_cons_self ..), hp.1⟩
  induction xs using split_induction generalizing p with
  | nil =>
    rw [List.map_nil, root_nil] at h
    have hempty : Input.empty ∈ S := hroot (by simp [rootInputs])
    rcases List.eq_nil_or_concat p with rfl | ⟨q, s, rfl⟩
    · exact absurd (eq_of_not_collisionIn hS ha hempty h) (by simp)
    · rw [List.concat_eq_append] at hlast h
      obtain ⟨h1, h2, -⟩ := hlast rfl
      rw [h1] at h
      have := eq_of_not_collisionIn hS h2 hempty h
      unfold combine at this
      split at this <;> simp at this
  | single x =>
    rw [List.map_singleton, root_singleton] at h
    have hx := hleaf x (List.mem_singleton_self x)
    rcases List.eq_nil_or_concat p with rfl | ⟨q, s, rfl⟩
    · have := eq_of_not_collisionIn hS ha hx h
      injection this with this
      rw [this]
      exact List.mem_singleton_self x
    · rw [List.concat_eq_append] at hlast h
      obtain ⟨h1, h2, -⟩ := hlast rfl
      rw [h1] at h
      have := eq_of_not_collisionIn hS h2 hx h
      unfold combine at this
      split at this <;> simp at this
  | node xs h2 ihl ihr =>
    have h2' : 2 ≤ (xs.map fun a => H (.leaf a)).length := by simpa using h2
    have hnode := hroot (exists_root_eq_node H h2')
    rw [root_of_two_le H h2'] at h
    rcases List.eq_nil_or_concat p with rfl | ⟨q, s, rfl⟩
    · exact absurd (eq_of_not_collisionIn hS ha hnode h) (by simp)
    · rw [List.concat_eq_append] at hlast h
      obtain ⟨h1, hcomb, hq⟩ := hlast rfl
      rw [h1] at h
      have hin := eq_of_not_collisionIn hS hcomb hnode h
      have hlast' : ∀ {q' : List (Step D)} {s : Step D}, q = q' ++ [s] →
          climb H (H (.leaf a)) q = H (combine s (climb H (H (.leaf a)) q')) ∧
            combine s (climb H (H (.leaf a)) q') ∈ S ∧ climbInputs H (H (.leaf a)) q' ⊆ S := by
        rintro q' s rfl
        rw [climbInputs_append, List.append_subset] at hq
        rw [climb_append]
        exact ⟨rfl, hq.2 (List.mem_cons_self ..), hq.1⟩
      have hl := List.Subset.trans (rootInputs_take_subset H h2') hroot
      have hr := List.Subset.trans (rootInputs_drop_subset H h2') hroot
      rw [List.length_map, ← List.map_take] at hl
      rw [List.length_map, ← List.map_drop] at hr
      rw [List.length_map, ← List.map_take, ← List.map_drop] at hin
      unfold combine at hin
      split at hin
      · injection hin with hin _
        exact List.mem_of_mem_take
          (ihl hq hin (fun x hx => hleaf x (List.mem_of_mem_take hx)) hl hlast')
      · injection hin with _ hin
        exact List.mem_of_mem_drop
          (ihr hq hin (fun x hx => hleaf x (List.mem_of_mem_drop hx)) hr hlast')

end Merkle
