import Mathlib.Data.List.Basic

/-!
# Lists with a mark between their parts

What can be told of the parts when a symbol that marks their ends is none of theirs.

* `Lines.eq_of_front`, `Lines.eq_of_back` — the parts before and after the first mark, and the last.
* **`Lines.eq_of_ended`**: lines that each end with the mark.
* **`Lines.ended_eq_iff`**: texts that each end with the mark, when they may have it inside too:
  they run together to the same when they have the same lines.
* `Lines.exists_linesOf` — lines are those of any number of texts up to their own.
-/

namespace Lines

variable {α : Type} {x : α} {a b c d : List α}

/-- The parts at the first mark. -/
theorem eq_of_front (ha : x ∉ a) (hc : x ∉ c) (h : a ++ x :: b = c ++ x :: d) : a = c ∧ b = d := by
  rcases List.append_eq_append_iff.mp h with ⟨e, rfl, hb⟩ | ⟨e, rfl, hb⟩
  · cases e with
    | nil =>
      rw [List.nil_append, List.cons.injEq] at hb
      exact ⟨(List.append_nil a).symm, hb.2⟩
    | cons y e =>
      rw [List.cons_append, List.cons.injEq] at hb
      obtain ⟨rfl, -⟩ := hb
      exact absurd (List.mem_append_right a (List.mem_cons_self ..)) hc
  · cases e with
    | nil =>
      rw [List.nil_append, List.cons.injEq] at hb
      exact ⟨List.append_nil c, hb.2.symm⟩
    | cons y e =>
      rw [List.cons_append, List.cons.injEq] at hb
      obtain ⟨rfl, -⟩ := hb
      exact absurd (List.mem_append_right c (List.mem_cons_self ..)) ha

/-- The parts at the last mark. -/
theorem eq_of_back (hb : x ∉ b) (hd : x ∉ d) (h : a ++ x :: b = c ++ x :: d) : a = c ∧ b = d := by
  have hreverse : b.reverse ++ x :: a.reverse = d.reverse ++ x :: c.reverse := by
    have := congrArg List.reverse h
    simpa using this
  obtain ⟨hbd, hac⟩ := eq_of_front (by simpa using hb) (by simpa using hd) hreverse
  exact ⟨List.reverse_injective hac, List.reverse_injective hbd⟩

/-- **Lines, each ended by the mark.** -/
theorem eq_of_ended {ls ms : List (List α)} (hls : ∀ l ∈ ls, x ∉ l) (hms : ∀ m ∈ ms, x ∉ m)
    (h : ls.flatMap (· ++ [x]) = ms.flatMap (· ++ [x])) : ls = ms := by
  induction ls generalizing ms with
  | nil =>
    cases ms with
    | nil => rfl
    | cons m ms => simp at h
  | cons l ls ih =>
    cases ms with
    | nil => simp at h
    | cons m ms =>
      rw [List.forall_mem_cons] at hls hms
      rw [List.flatMap_cons, List.flatMap_cons, List.append_assoc, List.append_assoc,
        List.singleton_append, List.singleton_append] at h
      obtain ⟨rfl, hrest⟩ := eq_of_front hls.1 hms.1 h
      rw [ih hls.2 hms.2 hrest]

/-! ## Texts of several lines -/

section

variable {s t : List α} {ls ms : List (List α)}

/-- Lines that each end with the mark, from lines with the mark between them. -/
theorem flatMap_ended_of_ne_nil (h : ls ≠ []) :
    ls.flatMap (· ++ [x]) = [x].intercalate ls ++ [x] := by
  induction ls with
  | nil => exact absurd rfl h
  | cons l ls ih =>
    cases ls with
    | nil => simp
    | cons m ls =>
      rw [List.flatMap_cons, ih (List.cons_ne_nil _ _), List.intercalate_cons_cons]
      simp only [List.append_assoc]

variable [BEq α]

/-- The lines of texts, one after the other. -/
def linesOf (x : α) (ls : List (List α)) : List (List α) := ls.flatMap (List.splitOn x)

/-- Nothing has no lines. -/
@[simp] theorem linesOf_nil : linesOf x [] = [] := rfl

/-- The lines of the first text come first. -/
@[simp] theorem linesOf_cons : linesOf x (s :: ls) = s.splitOn x ++ linesOf x ls := rfl

/-- Texts one after the other. -/
theorem linesOf_append : linesOf x (ls ++ ms) = linesOf x ls ++ linesOf x ms := List.flatMap_append

/-- A text has a line. -/
theorem length_splitOn_pos (x : α) (s : List α) : 0 < (s.splitOn x).length :=
  List.length_pos_iff.mpr (List.splitOn_ne_nil x s)

/-- There are no fewer lines than texts. -/
theorem length_le_linesOf : ls.length ≤ (linesOf x ls).length := by
  induction ls with
  | nil => exact Nat.le_refl _
  | cons l ls ih =>
    have := length_splitOn_pos x l
    rw [linesOf_cons, List.length_append, List.length_cons]
    omega

/-- There are no lines without a text. -/
theorem linesOf_eq_nil_iff : linesOf x ls = [] ↔ ls = [] := by
  constructor
  · intro h
    apply List.eq_nil_of_length_eq_zero
    have hle : ls.length ≤ (linesOf x ls).length := length_le_linesOf
    rw [h] at hle
    exact Nat.le_zero.mp hle
  · rintro rfl
    rfl

variable [LawfulBEq α]

/-- A line has no mark. -/
theorem not_mem_of_mem_splitOn {l : List α} (h : l ∈ s.splitOn x) : x ∉ l := by
  induction s generalizing l with
  | nil =>
    rw [List.splitOn_nil, List.mem_singleton] at h
    rw [h]
    exact List.not_mem_nil
  | cons y s ih =>
    rw [List.splitOn_cons_eq_if_modifyHead] at h
    split_ifs at h with hy
    · rcases List.mem_cons.mp h with rfl | h
      · exact List.not_mem_nil
      · exact ih h
    · obtain ⟨first, rest, hsplit⟩ := List.exists_cons_of_ne_nil (List.splitOn_ne_nil x s)
      rw [hsplit] at ih
      rw [hsplit, List.modifyHead_cons, List.mem_cons] at h
      rcases h with rfl | h
      · rw [List.mem_cons, not_or]
        refine ⟨fun heq => hy ?_, ih (List.mem_cons_self ..)⟩
        rw [heq]
        exact BEq.refl y
      · exact ih (List.mem_cons_of_mem _ h)

/-- Neither has any of the lines of several texts. -/
theorem not_mem_of_mem_linesOf {l : List α} (h : l ∈ linesOf x ls) : x ∉ l := by
  obtain ⟨s, -, hl⟩ := List.mem_flatMap.mp h
  exact not_mem_of_mem_splitOn hl

/-- A text is told by its lines. -/
theorem splitOn_injective : Function.Injective (List.splitOn x) := by
  intro s t h
  have hs : [x].intercalate (s.splitOn x) = s := List.intercalate_splitOn x
  rw [← hs, h, List.intercalate_splitOn]

/-- Each line ended, or the last one. -/
theorem ended_linesOf : (linesOf x ls).flatMap (· ++ [x]) = ls.flatMap (· ++ [x]) := by
  induction ls with
  | nil => rfl
  | cons l ls ih =>
    rw [linesOf_cons, List.flatMap_append, ih, flatMap_ended_of_ne_nil (List.splitOn_ne_nil x l),
      List.intercalate_splitOn, List.flatMap_cons]

/-- **Texts run together to the same** when they have the same lines. -/
theorem ended_eq_iff :
    ls.flatMap (· ++ [x]) = ms.flatMap (· ++ [x]) ↔ linesOf x ls = linesOf x ms := by
  constructor
  · intro h
    rw [← ended_linesOf, ← @ended_linesOf _ _ ms] at h
    exact eq_of_ended (fun l hl => not_mem_of_mem_linesOf hl)
      (fun m hm => not_mem_of_mem_linesOf hm) h
  · intro h
    rw [← ended_linesOf, h, ended_linesOf]

/-- Texts without the mark are their own lines. -/
theorem linesOf_of_free (h : ∀ l ∈ ls, x ∉ l) : linesOf x ls = ls := by
  induction ls with
  | nil => rfl
  | cons l ls ih =>
    rw [List.forall_mem_cons] at h
    rw [linesOf_cons, List.splitOn_eq_singleton h.1, ih h.2, List.singleton_append]

/-- As many lines as texts: each text is a line. -/
theorem free_of_length_linesOf (h : (linesOf x ls).length = ls.length) : ∀ l ∈ ls, x ∉ l := by
  induction ls with
  | nil => simp
  | cons l ls ih =>
    have hfirst := length_splitOn_pos x l
    have hrest : ls.length ≤ (linesOf x ls).length := length_le_linesOf
    rw [linesOf_cons, List.length_append, List.length_cons] at h
    rw [List.forall_mem_cons]
    refine ⟨?_, ih (by omega)⟩
    obtain ⟨m, hm⟩ := List.length_eq_one_iff.mp (show (l.splitOn x).length = 1 by omega)
    have hl : l = m := by
      have hsplit : [x].intercalate (l.splitOn x) = l := List.intercalate_splitOn x
      rw [← hsplit, hm, List.intercalate_singleton]
    rw [hl]
    exact not_mem_of_mem_splitOn (hm ▸ List.mem_singleton_self m)

/-- **Lines are those of any number of texts** up to their own. -/
theorem exists_linesOf {k : ℕ} (hls : ∀ l ∈ ls, x ∉ l) (hk : k ≤ ls.length)
    (hzero : k = 0 → ls = []) : ∃ ms, ms.length = k ∧ linesOf x ms = ls := by
  induction k generalizing ls with
  | zero => exact ⟨[], rfl, (hzero rfl).symm⟩
  | succ k ih =>
    obtain ⟨l, rest, rfl⟩ := List.exists_cons_of_ne_nil
      (List.length_pos_iff.mp (Nat.lt_of_lt_of_le (Nat.succ_pos k) hk))
    by_cases hlast : k = 0
    · refine ⟨[[x].intercalate (l :: rest)], by rw [hlast]; rfl, ?_⟩
      rw [linesOf_cons, linesOf_nil, List.append_nil,
        List.splitOn_intercalate x hls (List.cons_ne_nil _ _)]
    · rw [List.forall_mem_cons] at hls
      obtain ⟨ms, hlength, hms⟩ := ih hls.2 (Nat.le_of_succ_le_succ hk) (fun h => absurd h hlast)
      refine ⟨l :: ms, by rw [List.length_cons, hlength], ?_⟩
      rw [linesOf_cons, List.splitOn_eq_singleton hls.1, hms, List.singleton_append]

/-- **Several texts, one of several lines,** are not told by their lines and their number. -/
theorem exists_other_linesOf {l : List α} (hlength : 2 ≤ ls.length) (hl : l ∈ ls) (hx : x ∈ l) :
    ∃ ms, ms.length = ls.length ∧ linesOf x ms = linesOf x ls ∧ ms ≠ ls := by
  obtain ⟨front, back, rfl⟩ := List.append_of_mem hl
  obtain ⟨p, q, rfl⟩ := List.append_of_mem hx
  cases back with
  | cons u back =>
    -- its end goes to the next text
    refine ⟨front ++ p :: (q ++ x :: u) :: back, by simp, ?_, fun h => ?_⟩
    · simp [linesOf_append, List.splitOn_append_cons_self]
    · rw [List.append_cancel_left_eq, List.cons.injEq] at h
      exact absurd (congrArg List.length h.1) (by simp)
  | nil =>
    -- its beginning goes to the text before
    obtain ⟨front, u, rfl⟩ : ∃ front' u, front = front' ++ [u] := by
      rcases List.eq_nil_or_concat front with rfl | ⟨front', u, rfl⟩
      · rw [List.nil_append, List.length_singleton] at hlength
        exact absurd hlength (by decide)
      · exact ⟨front', u, List.concat_eq_append⟩
    refine ⟨front ++ (u ++ x :: p) :: [q], by simp, ?_, fun h => ?_⟩
    · simp [linesOf_append, List.splitOn_append_cons_self]
    · rw [List.append_assoc, List.append_cancel_left_eq, List.singleton_append,
        List.cons.injEq] at h
      exact absurd (congrArg List.length h.1) (by simp)

end

end Lines
