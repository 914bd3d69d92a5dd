import Mathlib.Algebra.BigOperators.Group.List.Basic
import Mathlib.Tactic.Ring
import AgentEval.Scoring.Exact

/-!
# The shared tasks and their groups

* **`perm_sharedTasks`**: the tasks two models share are the same from either side, in some order.
* `pearson_perm` — the correlation does not depend on the order, nor on the side.
* `sum_length_groups` — the groups hold all observations.
-/

namespace AgentEval.Scoring.Exact

open Js

section

variable {F : Type} {a b : ModelScores F} {s t : TaskScore F}

/-- Each task has one score. -/
def ModelScores.Distinct (a : ModelScores F) : Prop := (a.scores.map TaskScore.taskId).Nodup

/-- What is shared. -/
theorem mem_sharedTasks (hb : b.Distinct) :
    (s, t) ∈ sharedTasks a b ↔ s ∈ a.scores ∧ t ∈ b.scores ∧ s.taskId = t.taskId := by
  have hkeys : DistinctKeys (b.scores.map fun s => (s.taskId, s)) := by
    unfold DistinctKeys
    rw [List.map_map]
    exact hb
  unfold sharedTasks
  dsimp only
  rw [fromEntries_eq_self hkeys, List.mem_filterMap]
  constructor
  · rintro ⟨s', hs', hlookup⟩
    obtain ⟨t', ht', heq⟩ := Option.map_eq_some_iff.mp hlookup
    obtain ⟨rfl, rfl⟩ := Prod.mk.inj heq
    obtain ⟨t'', hmem, heq'⟩ := List.mem_map.mp (mem_of_lookup ht')
    obtain ⟨hid, rfl⟩ := Prod.mk.inj heq'
    exact ⟨hs', hmem, hid.symm⟩
  · rintro ⟨hs, ht, hid⟩
    refine ⟨s, hs, ?_⟩
    rw [hid, lookup_eq_some_of_mem hkeys (List.mem_map_of_mem ht)]
    rfl

/-- No task is shared twice. -/
theorem nodup_sharedTasks (ha : a.Distinct) : (sharedTasks a b).Nodup := by
  apply List.Nodup.filterMap _ (List.Nodup.of_map _ ha)
  intro s s' p hp hp'
  obtain ⟨t, -, rfl⟩ := Option.map_eq_some_iff.mp hp
  obtain ⟨t', -, heq⟩ := Option.map_eq_some_iff.mp hp'
  exact (Prod.mk.inj heq).1.symm

/-- **The tasks two models share are the same from either side**, in some order. -/
theorem perm_sharedTasks (ha : a.Distinct) (hb : b.Distinct) :
    (sharedTasks b a).Perm ((sharedTasks a b).map Prod.swap) := by
  have hswap : ((sharedTasks a b).map Prod.swap).Nodup :=
    (nodup_sharedTasks ha).map Prod.swap_injective
  rw [List.perm_ext_iff_of_nodup (nodup_sharedTasks hb) hswap]
  rintro ⟨t, s⟩
  rw [mem_sharedTasks ha, ← Prod.swap_prod_mk, List.mem_map_of_injective Prod.swap_injective,
    mem_sharedTasks hb]
  constructor
  · rintro ⟨ht, hs, hid⟩
    exact ⟨hs, ht, hid.symm⟩
  · rintro ⟨hs, ht, hid⟩
    exact ⟨ht, hs, hid.symm⟩

/-- Both sides share as many tasks. -/
theorem length_sharedTasks (ha : a.Distinct) (hb : b.Distinct) :
    (sharedTasks b a).length = (sharedTasks a b).length := by
  rw [(perm_sharedTasks ha hb).length_eq, List.length_map]

/-- And none if the other side shares none. -/
theorem sharedTasks_eq_nil (ha : a.Distinct) (hb : b.Distinct) :
    sharedTasks b a = [] ↔ sharedTasks a b = [] := by
  rw [← List.length_eq_zero_iff, length_sharedTasks ha hb, List.length_eq_zero_iff]

end

section

variable {F : Type} [Field F] {a b : ModelScores F}

/-- From the other side the differences are the opposite ones, in some order. -/
theorem perm_values_differences (ha : a.Distinct) (hb : b.Distinct) :
    ((differences (sharedTasks b a)).map Observation.value).Perm
      (((differences (sharedTasks a b)).map Observation.value).map Neg.neg) := by
  have hperm := (perm_sharedTasks ha hb).map fun p => p.1.value - p.2.value
  have hneg : ((Neg.neg ∘ Observation.value) ∘ fun p : TaskScore F × TaskScore F =>
      (⟨p.1.value - p.2.value, p.1.cluster⟩ : Observation F)) =
        (fun p => p.1.value - p.2.value) ∘ Prod.swap := by
    funext p
    exact neg_sub p.1.value p.2.value
  unfold differences
  rw [List.map_map, List.map_map, List.map_map, hneg]
  rw [List.map_map] at hperm
  exact hperm

/-- The mean of opposite values. -/
theorem mean_of_perm_neg {l l' : List F} (h : l'.Perm (l.map Neg.neg)) : mean l' = -mean l := by
  have hlength : l'.length = l.length := by rw [h.length_eq, List.length_map]
  have hsum : l'.sum = -l.sum := by
    rw [h.sum_eq]
    exact (List.sum_neg l).symm
  unfold mean
  simp only [List.isEmpty_iff_length_eq_zero, hlength, hsum]
  split_ifs
  · exact neg_zero.symm
  · exact neg_div _ _

variable [LinearOrder F] (sqrt : F → F)

omit [Field F] [LinearOrder F] in
/-- The scores of both sides, paired again. -/
theorem zip_map_fst_snd (l : List (F × F)) : (l.map Prod.fst).zip (l.map Prod.snd) = l :=
  (List.zip_of_prod rfl rfl).symm

/-- The correlation does not depend on the order of the tasks. -/
theorem pearson_perm {l l' : List (F × F)} (h : l'.Perm l) :
    pearson sqrt (l'.map Prod.fst) (l'.map Prod.snd) =
      pearson sqrt (l.map Prod.fst) (l.map Prod.snd) := by
  unfold pearson
  rw [zip_map_fst_snd, zip_map_fst_snd, List.length_map, List.length_map,
    h.length_eq, (h.map Prod.fst).sum_eq, (h.map Prod.snd).sum_eq]
  dsimp only
  rw [((h.map _).map _).sum_eq, ((h.map _).map _).sum_eq, ((h.map _).map _).sum_eq]

/-- Nor on which of the models comes first. -/
theorem pearson_swap (l : List (F × F)) :
    pearson sqrt (l.map Prod.snd) (l.map Prod.fst) =
      pearson sqrt (l.map Prod.fst) (l.map Prod.snd) := by
  have hzip : (l.map Prod.snd).zip (l.map Prod.fst) = l.map Prod.swap := List.zip_map' ..
  unfold pearson
  rw [hzip, zip_map_fst_snd, List.length_map, List.length_map]
  simp only [List.map_map, Function.comp_def, Prod.fst_swap, Prod.snd_swap]
  simp only [mul_comm, or_comm]

end

/-! ## The groups -/

section

variable {F : Type} {groups : List (JsString × List F)} {o : Observation F × ℕ}

/-- A value is put into one group, and the others stay as they are. -/
theorem addToGroup_cases (h : DistinctKeys groups) :
    addToGroup groups o = groups ++ [(clusterKey o.1 o.2, [o.1.value])] ∨
      ∃ before values after, groups = before ++ (clusterKey o.1 o.2, values) :: after ∧
        addToGroup groups o = before ++ (clusterKey o.1 o.2, values ++ [o.1.value]) :: after := by
  unfold addToGroup
  dsimp only
  cases hlookup : groups.lookup (clusterKey o.1 o.2) with
  | none => exact .inl (setProp_of_not_mem (lookup_eq_none_iff.mp hlookup))
  | some values =>
    obtain ⟨before, after, rfl⟩ := List.append_of_mem (mem_of_lookup hlookup)
    exact .inr ⟨before, values, after, rfl, setProp_append_cons h⟩

/-- The groups hold the value that was added, and what they held. -/
theorem perm_flatten_addToGroup (h : DistinctKeys groups) :
    ((addToGroup groups o).map Prod.snd).flatten.Perm
      ((groups.map Prod.snd).flatten ++ [o.1.value]) := by
  rcases addToGroup_cases (o := o) h with heq | ⟨before, values, after, rfl, heq⟩
  · rw [heq, List.map_append, List.flatten_append]
    exact .refl _
  · rw [heq]
    simp only [List.map_append, List.map_cons, List.flatten_append, List.flatten_cons,
      List.append_assoc]
    apply List.Perm.append_left
    apply List.Perm.append_left
    exact List.perm_append_comm

/-- No group is empty. -/
theorem ne_nil_addToGroup (h : DistinctKeys groups) (hne : ∀ g ∈ groups.map Prod.snd, g ≠ []) :
    ∀ g ∈ (addToGroup groups o).map Prod.snd, g ≠ [] := by
  rcases addToGroup_cases (o := o) h with heq | ⟨before, values, after, rfl, heq⟩
  · rw [heq]
    simp only [List.map_append, List.forall_mem_append]
    exact ⟨hne, by simp⟩
  · rw [heq]
    simp only [List.map_append, List.map_cons, List.forall_mem_append, List.forall_mem_cons]
      at hne ⊢
    exact ⟨hne.1, by simp, hne.2.2⟩

/-- All of it over several observations. -/
theorem foldl_addToGroup (l : List (Observation F × ℕ)) (h : DistinctKeys groups)
    (hne : ∀ g ∈ groups.map Prod.snd, g ≠ []) :
    ((l.foldl addToGroup groups).map Prod.snd).flatten.Perm
        ((groups.map Prod.snd).flatten ++ l.map fun o => o.1.value) ∧
      ∀ g ∈ (l.foldl addToGroup groups).map Prod.snd, g ≠ [] := by
  induction l generalizing groups with
  | nil =>
    rw [List.map_nil, List.append_nil]
    exact ⟨.refl _, hne⟩
  | cons o l ih =>
    have hkeys : DistinctKeys (addToGroup groups o) := h.setProp _
    obtain ⟨hperm, hgroups⟩ := ih hkeys (ne_nil_addToGroup h hne)
    refine ⟨hperm.trans ?_, hgroups⟩
    rw [List.map_cons, List.append_cons _ o.1.value]
    exact (perm_flatten_addToGroup h).append_right _

/-- The groups hold all observations. -/
theorem perm_flatten_groupByCluster (observations : List (Observation F)) :
    (groupByCluster observations).flatten.Perm (observations.map Observation.value) := by
  have h := (@foldl_addToGroup _ [] observations.zipIdx List.nodup_nil (by simp)).1
  have hvalues : (observations.zipIdx.map fun o => o.1.value) =
      observations.map Observation.value := by
    conv_rhs => rw [← List.zipIdx_map_fst 0 observations, List.map_map]
    rfl
  rw [hvalues] at h
  exact h

/-- No group is empty. -/
theorem ne_nil_of_mem_groupByCluster {observations : List (Observation F)} {g : List F}
    (h : g ∈ groupByCluster observations) : g ≠ [] :=
  (@foldl_addToGroup _ [] observations.zipIdx List.nodup_nil (by simp)).2 g h

end

end AgentEval.Scoring.Exact
