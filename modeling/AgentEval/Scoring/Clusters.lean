import Mathlib.Tactic.FieldSimp
import AgentEval.Scoring.SharedTasks

/-!
# Grouping by cluster

Observations are grouped under their labels; one without a label is grouped under a label made from
its place. Whether the groups are those of the labels turns on whether a label is one of these.

* `mem_group_iff`: two places are in one group when their keys are equal.
* **`follows_labels_iff`**: the groups are those of the labels, and the clustered standard error of
  observations that share none is the naive one, exactly when no label imitates the place of an
  observation without one.
* **`labels_not_followed`**: an observation with the label of a place is grouped with that place.
-/

namespace AgentEval.Scoring.Exact

open Js

/-- Source: `intervals.ts`, `clusteredStandardError` -/
structure ClusteredStandardError (F : Type) where
  /-- The standard error; missing when it is infinite. -/
  standardError : Option F
  /-- The standard error of independent observations. -/
  naiveStandardError : F
  /-- How many clusters there are. -/
  clusters : ℕ

/-- Liang-Zeger clustered standard error of the mean.
Source: `intervals.ts`, `clusteredStandardError` -/
def clusteredStandardError {F : Type} [Field F] (sqrt : F → F)
    (observations : List (Observation F)) : ClusteredStandardError F :=
  let values := observations.map Observation.value
  let m := values.length
  let groups := groupByCluster observations
  let g := groups.length
  let xbar := mean values
  let naiveVariance :=
    if m < 2 then 0 else (values.map fun v => (v - xbar) ^ 2 : List F).sum / (m * (m - 1))
  if g < 2 then
    -- one cluster says nothing of the variation between clusters
    { standardError := none, naiveStandardError := sqrt naiveVariance, clusters := g }
  else
    let sumOfSquaredClusterSums :=
      (groups.map fun group => (group.map fun v => v - xbar).sum ^ 2 : List F).sum
    let variance := g / (g - 1) * (sumOfSquaredClusterSums / (m * m))
    { standardError := some (sqrt variance), naiveStandardError := sqrt naiveVariance,
      clusters := g }

/-! ## Keys and groups -/

section

variable {F : Type} {l : List (Observation F × ℕ)} {groups : List (JsString × List F)}
  {key : JsString}

/-- The observations of a key. -/
def ofKey (key : JsString) (l : List (Observation F × ℕ)) : List F :=
  (l.filter fun o => clusterKey o.1 o.2 = key).map fun o => o.1.value

/-- The group of a key has its observations. -/
theorem lookup_foldl_addToGroup (l : List (Observation F × ℕ)) (groups : List (JsString × List F))
    (key : JsString) :
    ((l.foldl addToGroup groups).lookup key).getD [] =
      (groups.lookup key).getD [] ++ ofKey key l := by
  induction l generalizing groups with
  | nil => exact (List.append_nil _).symm
  | cons o l ih =>
    rw [List.foldl_cons, ih]
    unfold addToGroup ofKey
    rw [lookup_setProp]
    by_cases h : key = clusterKey o.1 o.2
    · rw [if_pos h, List.filter_cons_of_pos (by simp [h]), h]
      simp
    · rw [if_neg h, List.filter_cons_of_neg (by simp [Ne.symm h])]

/-- The keys are those of the observations. -/
theorem mem_keys_foldl_addToGroup (l : List (Observation F × ℕ))
    (groups : List (JsString × List F)) :
    key ∈ (l.foldl addToGroup groups).map Prod.fst ↔
      key ∈ groups.map Prod.fst ∨ ∃ o ∈ l, clusterKey o.1 o.2 = key := by
  induction l generalizing groups with
  | nil => simp
  | cons o l ih =>
    rw [List.foldl_cons, ih]
    unfold addToGroup
    rw [mem_keys_setProp, List.exists_mem_cons_iff, @or_comm (key = _), or_assoc,
      eq_comm (a := key)]

/-- The keys stay distinct. -/
theorem distinctKeys_foldl_addToGroup (l : List (Observation F × ℕ))
    (h : DistinctKeys groups) : DistinctKeys (l.foldl addToGroup groups) := by
  induction l generalizing groups with
  | nil => exact h
  | cons o l ih => exact ih (h.setProp _)

/-- **A group has the observations of one key.** -/
theorem mem_groupByCluster_iff {observations : List (Observation F)} {g : List F} :
    g ∈ groupByCluster observations ↔ ∃ o ∈ observations.zipIdx,
      g = ofKey (clusterKey o.1 o.2) observations.zipIdx := by
  have hdistinct := @distinctKeys_foldl_addToGroup _ [] observations.zipIdx List.nodup_nil
  have hlookup := fun key => lookup_foldl_addToGroup observations.zipIdx [] key
  have hkeys := fun key => @mem_keys_foldl_addToGroup _ key observations.zipIdx []
  simp only [List.lookup_nil, Option.getD_none, List.nil_append] at hlookup
  simp only [List.map_nil, List.not_mem_nil, false_or] at hkeys
  unfold groupByCluster
  constructor
  · intro hg
    obtain ⟨⟨key, values⟩, hmem, rfl⟩ := List.mem_map.mp hg
    obtain ⟨o, ho, rfl⟩ := (hkeys key).mp (List.mem_map_of_mem hmem)
    refine ⟨o, ho, ?_⟩
    rw [← hlookup, lookup_eq_some_of_mem hdistinct hmem]
    rfl
  · rintro ⟨o, ho, rfl⟩
    obtain ⟨p, hmem, hkey⟩ := List.mem_map.mp ((hkeys _).mpr ⟨o, ho, rfl⟩)
    refine List.mem_map.mpr ⟨p, hmem, ?_⟩
    rw [← hlookup, ← hkey, lookup_eq_some_of_mem hdistinct hmem]
    rfl

end

/-! ## Places -/

section

variable {F : Type} {observations : List (Observation F)} {i j : ℕ}

/-- The observations with their places for scores. -/
def places (observations : List (Observation F)) : List (Observation ℕ) :=
  observations.zipIdx.map fun o => ⟨o.2, o.1.cluster⟩

/-- The key of the group of a place. -/
def keyAt (observations : List (Observation F)) (i : ℕ) : Option JsString :=
  observations[i]?.map fun o => clusterKey o i

/-- A value goes to the group of its place. -/
theorem addToGroup_map {G : Type} (f : F → G) (groups : List (JsString × List F))
    (o : Observation F × ℕ) :
    (addToGroup groups o).map (Prod.map id (List.map f)) =
      addToGroup (groups.map (Prod.map id (List.map f))) (⟨f o.1.value, o.1.cluster⟩, o.2) := by
  unfold addToGroup
  dsimp only
  rw [map_setProp, lookup_map]
  change setProp _ (clusterKey o.1 o.2, _) = setProp _ (clusterKey o.1 o.2, _)
  congr 2
  change _ = (Option.map (List.map f) (groups.lookup (clusterKey o.1 o.2))).getD [] ++ [f o.1.value]
  cases groups.lookup (clusterKey o.1 o.2) with
  | none => rfl
  | some values => exact List.map_append

/-- **Grouping does not look at the scores.** -/
theorem groupByCluster_map {G : Type} (f : F → G) (observations : List (Observation F)) :
    groupByCluster (observations.map fun o => ⟨f o.value, o.cluster⟩) =
      (groupByCluster observations).map (List.map f) := by
  have hfold : ∀ (l : List (Observation F × ℕ)) (groups : List (JsString × List F)),
      (l.map fun o => ((⟨f o.1.value, o.1.cluster⟩ : Observation G), o.2)).foldl addToGroup
          (groups.map (Prod.map id (List.map f))) =
        (l.foldl addToGroup groups).map (Prod.map id (List.map f)) := by
    intro l
    induction l with
    | nil => exact fun _ => rfl
    | cons o l ih =>
      intro groups
      rw [List.map_cons, List.foldl_cons, List.foldl_cons, ← addToGroup_map, ih]
  have hzip : (observations.map fun o => (⟨f o.value, o.cluster⟩ : Observation G)).zipIdx =
      observations.zipIdx.map fun o => ((⟨f o.1.value, o.1.cluster⟩ : Observation G), o.2) :=
    List.zipIdx_map ..
  unfold groupByCluster
  rw [hzip, List.map_map]
  have hall := congrArg (List.map Prod.snd) (hfold observations.zipIdx [])
  rw [List.map_map] at hall
  exact hall

/-- The places in order. -/
theorem map_value_places (observations : List (Observation F)) :
    (places observations).map Observation.value = List.range observations.length := by
  unfold places
  rw [List.map_map, List.range_eq_range']
  exact List.zipIdx_map_snd ..

/-- A place with its key. -/
theorem mem_zipIdx_places {o : Observation ℕ × ℕ} :
    o ∈ (places observations).zipIdx ↔ ∃ p, observations[o.2]? = some p ∧
      o.1 = ⟨o.2, p.cluster⟩ := by
  rw [List.mem_zipIdx_iff_getElem?]
  unfold places
  rw [List.getElem?_map, List.getElem?_zipIdx]
  cases observations[o.2]? with
  | none => simp
  | some p => simp [eq_comm]

/-- **Places in one group have one key.** -/
theorem mem_group_iff (hi : i < observations.length) :
    (∃ g ∈ groupByCluster (places observations), i ∈ g ∧ j ∈ g) ↔
      keyAt observations i = keyAt observations j := by
  have hmem : ∀ {k : ℕ} {key : JsString}, k ∈ ofKey key (places observations).zipIdx ↔
      keyAt observations k = some key := by
    intro k key
    unfold ofKey keyAt
    simp only [List.mem_map, List.mem_filter, mem_zipIdx_places, decide_eq_true_eq]
    constructor
    · rintro ⟨⟨o, n⟩, ⟨⟨p, hp, ho⟩, hkey⟩, hk⟩
      dsimp only at ho
      subst ho
      cases hk
      rw [hp]
      exact congrArg some hkey
    · intro hkey
      obtain ⟨p, hp, rfl⟩ := Option.map_eq_some_iff.mp hkey
      exact ⟨(⟨k, p.cluster⟩, k), ⟨⟨p, hp, rfl⟩, rfl⟩, rfl⟩
  constructor
  · rintro ⟨g, hg, hgi, hgj⟩
    obtain ⟨o, -, rfl⟩ := mem_groupByCluster_iff.mp hg
    rw [hmem.mp hgi, hmem.mp hgj]
  · intro hkey
    have hsome : keyAt observations i = some (clusterKey observations[i] i) := by
      unfold keyAt
      rw [List.getElem?_eq_getElem hi]
      rfl
    refine ⟨ofKey (clusterKey observations[i] i) (places observations).zipIdx,
      mem_groupByCluster_iff.mpr ⟨(⟨i, observations[i].cluster⟩, i), ?_, rfl⟩,
      hmem.mpr hsome, hmem.mpr (hkey.symm.trans hsome)⟩
    exact mem_zipIdx_places.mpr ⟨observations[i], List.getElem?_eq_getElem hi, rfl⟩

/-- The scores of a group are those of its places. -/
theorem map_some_groupByCluster (observations : List (Observation F)) :
    (groupByCluster observations).map (List.map some) =
      (groupByCluster (places observations)).map
        (List.map fun i => observations[i]?.map Observation.value) := by
  rw [← groupByCluster_map, ← groupByCluster_map]
  congr 1
  unfold places
  rw [List.map_map]
  apply List.ext_getElem?
  intro i
  rw [List.getElem?_map, List.getElem?_map, List.getElem?_zipIdx]
  cases h : observations[i]? with
  | none => rfl
  | some o => simp [h]

/-! ## Labels -/

/-- No observation has the label that another one gets from its place. -/
def NoImitation (observations : List (Observation F)) : Prop :=
  ∀ i o, observations[i]? = some o → o.cluster = none → ∀ p ∈ observations,
    p.cluster ≠ some (js "__singleton_" ++ natDigits i)

/-- No two observations share a label. -/
def Unshared (observations : List (Observation F)) : Prop :=
  ∀ (i j : ℕ) (o p : Observation F), observations[i]? = some o → observations[j]? = some p → i ≠ j →
    ∀ label, o.cluster = some label → p.cluster ≠ some label

/-- The groups are those of the labels. -/
structure FollowsLabels [Field F] (sqrt : F → F) (observations : List (Observation F)) : Prop where
  /-- No place is lost or repeated. -/
  partition : (groupByCluster (places observations)).flatten.Perm (List.range observations.length)
  /-- The groups are groups of places. -/
  values : (groupByCluster observations).map (List.map some) =
    (groupByCluster (places observations)).map
      (List.map fun i => observations[i]?.map Observation.value)
  /-- Two are in one group exactly when they share a label; one without a label is alone. -/
  together : ∀ i j o p, observations[i]? = some o → observations[j]? = some p →
    ((∃ g ∈ groupByCluster (places observations), i ∈ g ∧ j ∈ g) ↔
      i = j ∨ ∃ label, o.cluster = some label ∧ p.cluster = some label)
  /-- Without shared labels the standard error is the naive one. -/
  naive : 2 ≤ observations.length → Unshared observations →
    (clusteredStandardError sqrt observations).standardError =
      some (clusteredStandardError sqrt observations).naiveStandardError

/-- The keys of two places agree when they share a label. -/
theorem keyAt_eq_iff (h : NoImitation observations) {o p : Observation F}
    (hi : observations[i]? = some o) (hj : observations[j]? = some p) :
    keyAt observations i = keyAt observations j ↔
      i = j ∨ ∃ label, o.cluster = some label ∧ p.cluster = some label := by
  unfold keyAt clusterKey
  rw [hi, hj, Option.map_some, Option.map_some, Option.some.injEq]
  cases ho : o.cluster with
  | some label =>
    cases hp : p.cluster with
    | some label' =>
      constructor
      · rintro rfl
        exact .inr ⟨_, rfl, rfl⟩
      · rintro (rfl | ⟨_, hlabel, hlabel'⟩)
        · rw [Option.some.inj (hi.symm.trans hj), hp] at ho
          exact (Option.some.inj ho).symm
        · exact (Option.some.inj hlabel).trans (Option.some.inj hlabel').symm
    | none =>
      refine iff_of_false (fun hkey => ?_) ?_
      · -- the label of `i` imitates the place `j`
        refine h j p hj hp o (List.mem_of_getElem? hi) ?_
        rw [ho]
        exact congrArg some hkey
      · rintro (rfl | ⟨_, -, hlabel⟩)
        · rw [Option.some.inj (hi.symm.trans hj), hp] at ho
          cases ho
        · cases hlabel
  | none =>
    cases hp : p.cluster with
    | some label' =>
      refine iff_of_false (fun hkey => ?_) ?_
      · refine h i o hi ho p (List.mem_of_getElem? hj) ?_
        rw [hp]
        exact congrArg some hkey.symm
      · rintro (rfl | ⟨_, hlabel, -⟩)
        · rw [Option.some.inj (hi.symm.trans hj), hp] at ho
          cases ho
        · cases hlabel
    | none =>
      constructor
      · intro hkey
        have hdigits := congrArg digitsValue (List.append_cancel_left hkey)
        exact .inl (by simpa using hdigits)
      · rintro (rfl | ⟨_, hlabel, -⟩)
        · rfl
        · cases hlabel

/-- Observations with distinct keys are grouped alone. -/
theorem groupByCluster_of_nodup
    (h : (observations.zipIdx.map fun o => clusterKey o.1 o.2).Nodup) :
    groupByCluster observations = observations.map fun o => [o.value] := by
  have hfold : ∀ (l : List (Observation F × ℕ)) (groups : List (JsString × List F)),
      (groups.map Prod.fst ++ l.map fun o => clusterKey o.1 o.2).Nodup →
      l.foldl addToGroup groups =
        groups ++ l.map fun o => (clusterKey o.1 o.2, [o.1.value]) := by
    intro l
    induction l with
    | nil => exact fun groups _ => (List.append_nil groups).symm
    | cons o l ih =>
      intro groups hnodup
      have hnew : clusterKey o.1 o.2 ∉ groups.map Prod.fst := fun hmem =>
        (List.nodup_append.mp hnodup).2.2 _ hmem _ List.mem_cons_self rfl
      have hadd : addToGroup groups o = groups ++ [(clusterKey o.1 o.2, [o.1.value])] := by
        unfold addToGroup
        dsimp only
        rw [lookup_eq_none_iff.mpr hnew]
        exact setProp_of_not_mem hnew
      rw [List.foldl_cons, hadd, ih, List.append_assoc]
      · rfl
      · rwa [List.map_append, List.append_assoc]
  unfold groupByCluster
  rw [hfold observations.zipIdx [] h, List.nil_append, List.map_map]
  conv_rhs => rw [← List.zipIdx_map_fst 0 observations, List.map_map]
  rfl

/-- **Observations that are grouped alone have the naive standard error.** -/
theorem standardError_of_alone [Field F] [CharZero F] (sqrt : F → F)
    (h : groupByCluster observations = observations.map fun o => [o.value])
    (htwo : 2 ≤ observations.length) :
    (clusteredStandardError sqrt observations).standardError =
      some (clusteredStandardError sqrt observations).naiveStandardError := by
  have hn : (observations.length : F) ≠ 0 := by
    rw [Nat.cast_ne_zero]
    omega
  have hn' : (observations.length : F) - 1 ≠ 0 := by
    rw [sub_ne_zero]
    exact_mod_cast (by omega : observations.length ≠ 1)
  have hsum : ∀ x : F, (observations.map fun o => ([o.value].map fun v => v - x).sum ^ 2).sum =
      (observations.map fun o => (o.value - x) ^ 2).sum := by
    intro x
    congr 1
    apply List.map_congr_left
    intro o _
    simp
  unfold clusteredStandardError
  dsimp only
  rw [h, List.length_map, List.length_map, if_neg (by omega), if_neg (by omega), List.map_map,
    List.map_map]
  dsimp only
  congr 2
  change _ * ((observations.map fun o => ([o.value].map fun v => v - _).sum ^ 2).sum / _) = _
  rw [hsum]
  change _ * ((observations.map fun o => (o.value - _) ^ 2).sum / _) =
    (observations.map fun o => (o.value - _) ^ 2).sum / _
  field_simp

/-- **The groups are those of the labels exactly when no label imitates a place.** -/
theorem follows_labels_iff [Field F] [CharZero F] (sqrt : F → F)
    (observations : List (Observation F)) :
    FollowsLabels sqrt observations ↔ NoImitation observations := by
  have hlength : ∀ {k : ℕ} {o : Observation F}, observations[k]? = some o →
      k < observations.length := fun h => (List.getElem?_eq_some_iff.mp h).1
  constructor
  · intro h i o hi ho p hp hlabel
    obtain ⟨j, hj⟩ := List.mem_iff_getElem?.mp hp
    have hkey : keyAt observations i = keyAt observations j := by
      unfold keyAt clusterKey
      rw [hi, hj, Option.map_some, Option.map_some, ho, hlabel]
      rfl
    -- both are in one group, and the first has no label
    rcases (h.together i j o p hi hj).mp ((mem_group_iff (hlength hi)).mpr hkey) with
      rfl | ⟨_, hnone, -⟩
    · rw [Option.some.inj (hi.symm.trans hj), hlabel] at ho
      cases ho
    · rw [ho] at hnone
      cases hnone
  · intro h
    constructor
    · rw [← map_value_places]
      exact perm_flatten_groupByCluster _
    · exact map_some_groupByCluster observations
    · exact fun i j o p hi hj => (mem_group_iff (hlength hi)).trans (keyAt_eq_iff h hi hj)
    · intro htwo hunshared
      refine standardError_of_alone sqrt (groupByCluster_of_nodup ?_) htwo
      rw [List.nodup_iff_getElem?_ne_getElem?]
      intro i j hij hj hkey
      rw [List.length_map, List.length_zipIdx] at hj
      have hi := List.getElem?_eq_getElem (hij.trans hj)
      have hj' := List.getElem?_eq_getElem hj
      have hsame : keyAt observations i = keyAt observations j := by
        unfold keyAt
        rw [List.getElem?_map, List.getElem?_map, List.getElem?_zipIdx, List.getElem?_zipIdx] at hkey
        rw [hi, hj'] at hkey ⊢
        simpa using hkey
      rcases (keyAt_eq_iff h hi hj').mp hsame with rfl | ⟨label, ho, hp⟩
      · exact lt_irrefl _ hij
      · exact hunshared i j _ _ hi hj' hij.ne label ho hp

/-- One observation without a label beside one with another label. -/
theorem labels_followed :
    FollowsLabels id [(⟨0, none⟩ : Observation ℚ), ⟨1, some (js "judge")⟩] := by
  refine (follows_labels_iff id _).mpr fun i o _ _ p hp hlabel => ?_
  rcases List.mem_cons.mp hp with rfl | hp
  · cases hlabel
  · cases List.mem_singleton.mp hp
    have hhead := congrArg List.head? (Option.some.inj hlabel)
    rw [List.head?_append] at hhead
    cases hhead

/-- **A label is taken for a place**: the first observation has none, and the second one has the
label that the first gets. -/
theorem labels_not_followed : ¬ FollowsLabels id
    [(⟨0, none⟩ : Observation ℚ), ⟨1, some (js "__singleton_0")⟩] := by
  intro h
  have hgroup : groupByCluster (places [(⟨0, none⟩ : Observation ℚ),
      ⟨1, some (js "__singleton_0")⟩]) = [[0, 1]] := by decide
  rcases (h.together 0 1 _ _ rfl rfl).mp ⟨[0, 1], by rw [hgroup]; simp, by simp, by simp⟩ with
    heq | ⟨label, hnone, -⟩
  · cases heq
  · cases hnone

end

end AgentEval.Scoring.Exact
