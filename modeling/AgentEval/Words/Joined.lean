import AgentEval.Words.Lines

/-!
# Parts joined by two marks

Parts that are joined by a comma and a blank, or by a semicolon and a blank.

* **`Joined.eq_of_intercalate`**: parts that are not empty and do not have the first mark in them are
  told by the text that they are joined to.
* `Joined.eq_of_append` — two lists that are told apart by a test of their items.
-/

namespace Joined

variable {α : Type} {x y : α} {ls ms : List (List α)}

/-- The second mark as the start of the next part. -/
theorem intercalate_pair (l : List α) (ls : List (List α)) :
    [x, y].intercalate (l :: ls) = [x].intercalate (l :: ls.map (y :: ·)) := by
  induction ls generalizing l with
  | nil => rfl
  | cons m ls ih =>
    have hstart : ∀ (a : List α) (bs : List (List α)),
        [x].intercalate ((y :: a) :: bs) = y :: [x].intercalate (a :: bs) := by
      intro a bs
      cases bs with
      | nil => rfl
      | cons b bs => rw [List.intercalate_cons_cons, List.intercalate_cons_cons]; rfl
    rw [List.intercalate_cons_cons, ih, List.map_cons, List.intercalate_cons_cons, hstart]
    simp

/-- Parts that are not empty are not joined to nothing. -/
theorem intercalate_ne_nil {l : List α} (hl : l ≠ []) (s : List α) (ls : List (List α)) :
    s.intercalate (l :: ls) ≠ [] := by
  cases ls with
  | nil => rwa [List.intercalate_singleton]
  | cons m ls =>
    rw [List.intercalate_cons_cons]
    simp [hl]

/-- **Joined parts are told by their text.** -/
theorem eq_of_intercalate (hxy : x ≠ y) (hls : ∀ l ∈ ls, l ≠ [] ∧ x ∉ l)
    (hms : ∀ m ∈ ms, m ≠ [] ∧ x ∉ m) (h : [x, y].intercalate ls = [x, y].intercalate ms) :
    ls = ms := by
  classical
  have hfree : ∀ {l : List α} {ls : List (List α)}, (∀ a ∈ l :: ls, a ≠ [] ∧ x ∉ a) →
      ∀ a ∈ l :: ls.map (y :: ·), x ∉ a := by
    intro l ls hall a ha
    rcases List.mem_cons.mp ha with rfl | ha
    · exact (hall a List.mem_cons_self).2
    · obtain ⟨b, hb, rfl⟩ := List.mem_map.mp ha
      rw [List.mem_cons, not_or]
      exact ⟨hxy, (hall b (List.mem_cons_of_mem l hb)).2⟩
  cases ls with
  | nil =>
    cases ms with
    | nil => rfl
    | cons m ms => exact absurd h.symm (intercalate_ne_nil (hms m List.mem_cons_self).1 _ _)
  | cons l ls =>
    cases ms with
    | nil => exact absurd h (intercalate_ne_nil (hls l List.mem_cons_self).1 _ _)
    | cons m ms =>
      rw [intercalate_pair, intercalate_pair] at h
      have hsplit := congrArg (List.splitOn x) h
      rw [List.splitOn_intercalate x (hfree hls) (List.cons_ne_nil _ _),
        List.splitOn_intercalate x (hfree hms) (List.cons_ne_nil _ _), List.cons.injEq] at hsplit
      obtain ⟨rfl, hrest⟩ := hsplit
      rw [List.map_injective_iff.mpr List.cons_injective hrest]

/-- Lists of items that pass a test and of items that do not. -/
theorem eq_of_append {β : Type} {P : β → Bool} {a a' b b' : List β} (ha : ∀ i ∈ a, P i = true)
    (ha' : ∀ i ∈ a', P i = true) (hb : ∀ i ∈ b, P i = false) (hb' : ∀ i ∈ b', P i = false)
    (h : a ++ b = a' ++ b') : a = a' ∧ b = b' := by
  have hfilter : ∀ {c d : List β}, (∀ i ∈ c, P i = true) → (∀ i ∈ d, P i = false) →
      (c ++ d).filter P = c := by
    intro c d hc hd
    rw [List.filter_append, List.filter_eq_self.mpr hc,
      List.filter_eq_nil_iff.mpr fun i hi => Bool.eq_false_iff.mp (hd i hi), List.append_nil]
  have hfront : a = a' := by rw [← hfilter ha hb, h, hfilter ha' hb']
  subst hfront
  exact ⟨rfl, List.append_cancel_left h⟩

end Joined
