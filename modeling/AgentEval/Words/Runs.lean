import AgentEval.Regex.Pattern

/-!
# Runs between separators

A list is cut at the symbols of a set. What is done to the symbols of the set, or to stretches between
two of them, leaves the longer runs as they are.

* `Runs.mem_iff` — a run has no separator in it and none missing next to it.
* `Runs.filter_splitAll` — cutting at runs of separators, where empty pieces do not count.
* **`Runs.alike_replaceRest`**: replacing matches that are bordered by separators, by texts that are,
  leaves the runs that neither has.
-/

namespace Runs

variable {α : Type} {p : α → Bool} {x : α} {s t a b w : List α}

/-- Nothing, or a separator at the end. -/
def Closed (p : α → Bool) (s : List α) : Prop := s = [] ∨ ∃ t x, s = t ++ [x] ∧ p x = true

/-- Nothing, or a separator at the start. -/
def Open (p : α → Bool) (s : List α) : Prop := s = [] ∨ ∃ x t, s = x :: t ∧ p x = true

/-- The first separator. -/
theorem exists_first (s : List α) : (∀ x ∈ s, p x = false) ∨
    ∃ h x t, s = h ++ x :: t ∧ (∀ y ∈ h, p y = false) ∧ p x = true := by
  induction s with
  | nil => exact .inl (List.forall_mem_nil _)
  | cons y s ih =>
    cases hy : p y with
    | true => exact .inr ⟨[], y, s, rfl, List.forall_mem_nil _, hy⟩
    | false =>
      rcases ih with hs | ⟨h, x, t, rfl, hh, hx⟩
      · exact .inl (List.forall_mem_cons.mpr ⟨hy, hs⟩)
      · exact .inr ⟨y :: h, x, t, rfl, List.forall_mem_cons.mpr ⟨hy, hh⟩, hx⟩

/-- A run has no separator in it and none missing next to it. -/
theorem exists_of_mem (h : w ∈ s.splitOnP p) :
    ∃ a b, s = a ++ (w ++ b) ∧ (∀ x ∈ w, p x = false) ∧ Closed p a ∧ Open p b := by
  generalize hn : s.length = n
  induction n using Nat.strong_induction_on generalizing s with
  | _ n ih =>
    rcases exists_first (p := p) s with hs | ⟨h₀, x, t, rfl, hh, hx⟩
    · rw [List.splitOnP_eq_singleton hs] at h
      obtain rfl := List.mem_singleton.mp h
      exact ⟨[], [], by simp, hs, .inl rfl, .inl rfl⟩
    · rw [List.splitOnP_append_cons_of_forall_mem hh x hx] at h
      rcases List.mem_cons.mp h with rfl | h
      · exact ⟨[], x :: t, rfl, hh, .inl rfl, .inr ⟨x, t, rfl, hx⟩⟩
      · rw [List.length_append, List.length_cons] at hn
        obtain ⟨a, b, rfl, hw, ha, hb⟩ := ih t.length (by omega) h rfl
        refine ⟨h₀ ++ x :: a, b, by simp, hw, .inr ?_, hb⟩
        rcases ha with rfl | ⟨a, y, rfl, hy⟩
        · exact ⟨h₀, x, rfl, hx⟩
        · exact ⟨h₀ ++ x :: a, y, by simp, hy⟩

/-- **A run.** -/
theorem mem_iff : w ∈ s.splitOnP p ↔
    ∃ a b, s = a ++ (w ++ b) ∧ (∀ x ∈ w, p x = false) ∧ Closed p a ∧ Open p b := by
  refine ⟨exists_of_mem, ?_⟩
  rintro ⟨a, b, rfl, hw, ha, hb⟩
  have hfront : w ∈ (w ++ b).splitOnP p := by
    rcases hb with rfl | ⟨y, b, rfl, hy⟩
    · rw [List.append_nil, List.splitOnP_eq_singleton hw]
      exact List.mem_singleton_self w
    · rw [List.splitOnP_append_cons_of_forall_mem hw y hy]
      exact List.mem_cons_self ..
  rcases ha with rfl | ⟨a, x, rfl, hx⟩
  · exact hfront
  · rw [List.append_assoc, List.singleton_append, List.splitOnP_append_cons a _ hx]
    exact List.mem_append_right _ hfront

/-- The first run, and the others. -/
theorem exists_cons (s : List α) : ∃ g gs, s.splitOnP p = g :: gs :=
  List.exists_cons_of_ne_nil (List.splitOnP_ne_nil p s)

/-- A separator in front. -/
theorem splitOnP_sep (hx : p x = true) : (x :: s).splitOnP p = [] :: s.splitOnP p := by
  rw [List.splitOnP_cons_eq_if_modifyHead, if_pos hx]

/-- Another symbol in front. -/
theorem splitOnP_of_neg (hx : p x = false) {g : List α} {gs : List (List α)}
    (h : s.splitOnP p = g :: gs) : (x :: s).splitOnP p = (x :: g) :: gs := by
  rw [List.splitOnP_cons_eq_if_modifyHead, if_neg (by simp [hx]), h, List.modifyHead_cons]

/-- Separators only. -/
theorem eq_nil_of_mem (h : ∀ x ∈ s, p x = true) (hw : w ∈ s.splitOnP p) : w = [] := by
  obtain ⟨a, b, rfl, hw, -, -⟩ := mem_iff.mp hw
  by_contra hne
  obtain ⟨y, w, rfl⟩ := List.exists_cons_of_ne_nil hne
  have hy := h y (by simp)
  exact absurd (hy.symm.trans (hw y (List.mem_cons_self ..))) Bool.noConfusion

/-- A change of the separators. -/
theorem splitOnP_map {f : α → α} (hp : ∀ x, p (f x) = p x) (hf : ∀ x, p x = false → f x = x) :
    (s.map f).splitOnP p = s.splitOnP p := by
  induction s with
  | nil => rfl
  | cons x s ih =>
    rw [List.map_cons]
    cases hx : p x with
    | true => rw [splitOnP_sep ((hp x).trans hx), splitOnP_sep hx, ih]
    | false =>
      obtain ⟨g, gs, hgs⟩ := exists_cons (p := p) s
      rw [hf x hx, splitOnP_of_neg hx hgs, splitOnP_of_neg hx (ih.trans hgs)]

/-- Two sets with the same symbols of a text. -/
theorem splitOnP_congr {p' : α → Bool} (h : ∀ x ∈ s, p x = p' x) : s.splitOnP p = s.splitOnP p' := by
  induction s with
  | nil => rfl
  | cons x s ih =>
    rw [List.forall_mem_cons] at h
    rw [List.splitOnP_cons_eq_if_modifyHead, List.splitOnP_cons_eq_if_modifyHead, h.1, ih h.2]

/-- Separators at the start make no runs. -/
theorem mem_append_left (ha : ∀ x ∈ a, p x = true) (hw : w ≠ []) :
    w ∈ (a ++ s).splitOnP p ↔ w ∈ s.splitOnP p := by
  induction a with
  | nil => rfl
  | cons x a ih =>
    rw [List.forall_mem_cons] at ha
    rw [List.cons_append, splitOnP_sep ha.1, List.mem_cons, ih ha.2]
    exact or_iff_right hw

/-- Nor do separators at the end. -/
theorem mem_append_right (hb : ∀ x ∈ b, p x = true) (hw : w ≠ []) :
    w ∈ (s ++ b).splitOnP p ↔ w ∈ s.splitOnP p := by
  cases b with
  | nil => rw [List.append_nil]
  | cons x b =>
    rw [List.forall_mem_cons] at hb
    rw [List.splitOnP_append_cons s b hb.1, List.mem_append]
    exact or_iff_left fun h => hw (eq_nil_of_mem hb.2 h)

/-! ## Counting only some runs -/

section

variable {q : List α → Bool}

/-- Separators at the start make no runs. -/
theorem filter_append_left (hq : q [] = false) (ha : ∀ x ∈ a, p x = true) :
    ((a ++ s).splitOnP p).filter q = (s.splitOnP p).filter q := by
  induction a with
  | nil => rfl
  | cons x a ih =>
    rw [List.forall_mem_cons] at ha
    rw [List.cons_append, splitOnP_sep ha.1, List.filter_cons, hq, if_neg Bool.false_ne_true, ih ha.2]

/-- Nor do separators at the end. -/
theorem filter_append_right (hq : q [] = false) (hb : ∀ x ∈ b, p x = true) :
    ((s ++ b).splitOnP p).filter q = (s.splitOnP p).filter q := by
  cases b with
  | nil => rw [List.append_nil]
  | cons x b =>
    rw [List.forall_mem_cons] at hb
    have hend := filter_append_left (s := []) hq hb.2
    rw [List.append_nil] at hend
    rw [List.splitOnP_append_cons s b hb.1, List.filter_append, hend]
    exact (congrArg (_ ++ ·) (List.filter_cons_of_neg (by simp [hq]))).trans (List.append_nil _)

/-- Separators in the place of separators. -/
theorem filter_exchange (hq : q [] = false) (hane : a ≠ []) (ha : ∀ x ∈ a, p x = true)
    (hbne : b ≠ []) (hb : ∀ x ∈ b, p x = true) :
    ((s ++ (a ++ t)).splitOnP p).filter q = ((s ++ (b ++ t)).splitOnP p).filter q := by
  have hparts : ∀ {c : List α}, c ≠ [] → (∀ x ∈ c, p x = true) →
      ((s ++ (c ++ t)).splitOnP p).filter q =
        (s.splitOnP p).filter q ++ (t.splitOnP p).filter q := by
    intro c hne hc
    obtain ⟨x, c, rfl⟩ := List.exists_cons_of_ne_nil hne
    rw [List.forall_mem_cons] at hc
    rw [List.cons_append, List.splitOnP_append_cons s _ hc.1, List.filter_append,
      filter_append_left hq hc.2]
  rw [hparts hane ha, hparts hbne hb]

/-- Separators between two parts that are separated already. -/
theorem filter_insert (hq : q [] = false) (ha : ∀ x ∈ a, p x = true) (h : Closed p s ∨ Open p t) :
    ((s ++ (a ++ t)).splitOnP p).filter q = ((s ++ t).splitOnP p).filter q := by
  rcases h with (rfl | ⟨s, x, rfl, hx⟩) | (rfl | ⟨x, t, rfl, hx⟩)
  · exact filter_append_left hq ha
  · rw [List.append_assoc, List.append_assoc, List.singleton_append, List.singleton_append,
      List.splitOnP_append_cons s _ hx, List.splitOnP_append_cons s _ hx, List.filter_append,
      List.filter_append, filter_append_left hq ha]
  · rw [List.append_nil, List.append_nil, filter_append_right hq ha]
  · rw [← List.append_assoc, List.splitOnP_append_cons _ t hx, List.splitOnP_append_cons s t hx,
      List.filter_append, List.filter_append, filter_append_right hq ha]

end

/-! ## Bordered parts -/

/-- A separator at the start and at the end. -/
structure Bordered (p : α → Bool) (s : List α) : Prop where
  /-- At the start. -/
  front : ∃ x t, s = x :: t ∧ p x = true
  /-- At the end. -/
  back : ∃ t x, s = t ++ [x] ∧ p x = true

/-- Separators only. -/
theorem Bordered.of_forall (hne : s ≠ []) (h : ∀ x ∈ s, p x = true) : Bordered p s where
  front := by
    obtain ⟨x, t, rfl⟩ := List.exists_cons_of_ne_nil hne
    exact ⟨x, t, rfl, h x (List.mem_cons_self ..)⟩
  back := ⟨s.dropLast, s.getLast hne, (List.dropLast_append_getLast hne).symm,
    h _ (List.getLast_mem hne)⟩

/-- The runs of a text behind a bordered part. -/
theorem Bordered.exists_runs (h : Bordered p s) :
    ∃ m, s.splitOnP p = [] :: (m ++ [[]]) ∧
      ∀ t, (s ++ t).splitOnP p = [] :: (m ++ t.splitOnP p) := by
  obtain ⟨x, t, hfront, hx⟩ := h.front
  obtain ⟨z, d, rfl, hd⟩ := h.back
  cases z with
  | nil =>
    refine ⟨[], ?_, fun t => ?_⟩
    · rw [List.nil_append, splitOnP_sep hd]
      rfl
    · rw [List.nil_append, List.singleton_append, splitOnP_sep hd]
      rfl
  | cons y z =>
    obtain ⟨rfl, -⟩ := List.cons.inj hfront
    refine ⟨z.splitOnP p, ?_, fun t => ?_⟩
    · rw [List.cons_append, splitOnP_sep hx, List.splitOnP_append_cons z [] hd]
      rfl
    · rw [List.cons_append, List.cons_append, splitOnP_sep hx, List.append_assoc,
        List.singleton_append, List.splitOnP_append_cons z t hd]

/-- Two texts with the same first run and, of some kind, the same further runs. -/
def Alike (p : α → Bool) (q : List α → Bool) (s t : List α) : Prop :=
  ∃ g gs gs', s.splitOnP p = g :: gs ∧ t.splitOnP p = g :: gs' ∧ gs.filter q = gs'.filter q

section

variable {q : List α → Bool}

/-- A text and itself. -/
theorem Alike.refl (s : List α) : Alike p q s s := by
  obtain ⟨g, gs, hgs⟩ := exists_cons (p := p) s
  exact ⟨g, gs, gs, hgs, hgs, rfl⟩

/-- The runs of the kind. -/
theorem Alike.filter (h : Alike p q s t) : (s.splitOnP p).filter q = (t.splitOnP p).filter q := by
  obtain ⟨g, gs, gs', hs, ht, hgs⟩ := h
  rw [hs, ht, List.filter_cons, List.filter_cons, hgs]

/-- One more symbol. -/
theorem Alike.cons (h : Alike p q s t) : Alike p q (x :: s) (x :: t) := by
  obtain ⟨g, gs, gs', hs, ht, hgs⟩ := h
  cases hx : p x with
  | true =>
    refine ⟨[], g :: gs, g :: gs', ?_, ?_, ?_⟩
    · rw [splitOnP_sep hx, hs]
    · rw [splitOnP_sep hx, ht]
    · rw [List.filter_cons, List.filter_cons, hgs]
  | false => exact ⟨x :: g, gs, gs', splitOnP_of_neg hx hs, splitOnP_of_neg hx ht, hgs⟩

/-- A bordered part in front of each. -/
theorem Alike.append (hq : q [] = false) (ha : Bordered p a) (hb : Bordered p b)
    (hab : (a.splitOnP p).filter q = (b.splitOnP p).filter q) (h : Alike p q s t) :
    Alike p q (a ++ s) (b ++ t) := by
  obtain ⟨m, hm, hrest⟩ := ha.exists_runs
  obtain ⟨m', hm', hrest'⟩ := hb.exists_runs
  refine ⟨[], _, _, hrest s, hrest' t, ?_⟩
  have hmid : m.filter q = m'.filter q := by
    rw [hm, hm'] at hab
    simpa [List.filter_cons, hq] using hab
  rw [List.filter_append, List.filter_append, hmid, h.filter]

/-- **Replacing bordered matches by bordered texts with the same runs of the kind.** -/
theorem alike_replaceRest {r : Regex.Pattern α} {f : Regex.Outcome α → List α} (hq : q [] = false)
    (hr : ∀ b s, ∀ o ∈ r.run b s, Bordered p o.taken ∧ Bordered p (f o) ∧
      ((f o).splitOnP p).filter q = (o.taken.splitOnP p).filter q) (b : Bool) (s : List α) :
    Alike p q s (r.replaceRest f b s) := by
  apply Regex.Pattern.replaceRest_induction
  · exact Alike.refl []
  · exact fun x s t h => h.cons
  · intro b s o ho
    obtain ⟨htaken, hf, hruns⟩ := hr b s o ho
    obtain ⟨x, t, hxt, -⟩ := htaken.front
    exact ⟨hxt ▸ List.cons_ne_nil x t, fun t ht => Alike.append hq htaken hf hruns.symm ht⟩

/-- The pieces between runs of separators. -/
theorem filter_splitFrom (hq : q [] = false) {n : ℕ} {b : Bool} (hn : s.length < n)
    (hw : ∀ x ∈ w, p x = false) :
    ((Regex.Pattern.set p).plus.splitFrom n b w s).filter q = ((w ++ s).splitOnP p).filter q := by
  induction n generalizing b w s with
  | zero => exact absurd hn (Nat.not_lt_zero _)
  | succ n ih =>
    cases s with
    | nil =>
      unfold Regex.Pattern.splitFrom
      rw [List.append_nil, List.splitOnP_eq_singleton hw]
    | cons x s =>
      rw [List.length_cons] at hn
      unfold Regex.Pattern.splitFrom
      cases hrun : ((Regex.Pattern.set p).plus.run b (x :: s)).head? with
      | none =>
        have hx : p x = false := by
          rw [← Bool.not_eq_true]
          intro hx
          have hmem := Regex.Pattern.mem_run_plus_set (b := b).mpr ⟨[x], s, rfl,
            List.cons_ne_nil x [], List.forall_mem_singleton.mpr hx, rfl⟩
          rw [List.singleton_append, List.head?_eq_none_iff.mp hrun] at hmem
          exact absurd hmem List.not_mem_nil
        dsimp only
        rw [ih (by omega), List.append_assoc, List.singleton_append]
        rw [List.forall_mem_append, List.forall_mem_singleton]
        exact ⟨hw, hx⟩
      | some o =>
        obtain ⟨t, u, htu, hne, ht, rfl⟩ :=
          Regex.Pattern.mem_run_plus_set.mp (List.mem_of_mem_head? hrun)
        obtain ⟨y, t, rfl⟩ := List.exists_cons_of_ne_nil hne
        obtain ⟨rfl, hs⟩ := List.cons.inj htu
        obtain rfl : s = t ++ u := hs
        rw [List.forall_mem_cons] at ht
        rw [List.length_append] at hn
        dsimp only
        rw [List.isEmpty_cons, Bool.and_false, if_neg Bool.false_ne_true,
          List.splitOnP_append_cons_of_forall_mem hw x ht.1, List.filter_cons, List.filter_cons,
          filter_append_left hq ht.2, ih (by omega) (List.forall_mem_nil _), List.nil_append]

/-- **Cutting at runs of separators is cutting at each of them, where empty pieces do not count.** -/
theorem filter_splitAll (hq : q [] = false) (s : List α) :
    ((Regex.Pattern.set p).plus.splitAll s).filter q = (s.splitOnP p).filter q := by
  unfold Regex.Pattern.splitAll
  split_ifs with hempty
  · obtain rfl := List.isEmpty_iff.mp (Bool.and_eq_true_iff.mp hempty).1
    exact (List.filter_cons_of_neg (by simp [hq])).symm
  · rw [filter_splitFrom hq (by omega) (List.forall_mem_nil _), List.nil_append]

end

end Runs
