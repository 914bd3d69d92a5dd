import AgentEval.Regex.Pattern

/-!
# What a match takes

* `Pattern.Only` — every symbol a pattern can take has a property: **`Pattern.forall_mem_taken`**.
* `Pattern.Takes` — a pattern always takes a symbol that has one: **`Pattern.exists_mem_taken`**.
* `Pattern.Opens` — the first symbol a pattern takes has one: **`Pattern.run_cons_eq_nil`**.
-/

namespace Regex.Pattern

variable {α : Type} {P Q : α → Prop} {r : Pattern α} {b : Bool} {s : List α} {o : Outcome α}

/-- Every symbol a pattern can take has a property. -/
def Only (P : α → Prop) : Pattern α → Prop
  | set p => ∀ x, p x = true → P x
  | seq a c => a.Only P ∧ c.Only P
  | alt a c => a.Only P ∧ c.Only P
  | star a => a.Only P
  | lazyStar a => a.Only P
  | group _ a => a.Only P
  | _ => True

/-- A pattern always takes a symbol that has a property. -/
def Takes (P : α → Prop) : Pattern α → Prop
  | set p => ∀ x, p x = true → P x
  | seq a c => a.Takes P ∨ c.Takes P
  | alt a c => a.Takes P ∧ c.Takes P
  | group _ a => a.Takes P
  | _ => False

/-- A pattern takes a symbol at once, and the first that it takes has a property. -/
def Opens (P : α → Prop) : Pattern α → Prop
  | set p => ∀ x, p x = true → P x
  | seq a _ => a.Opens P
  | alt a c => a.Opens P ∧ c.Opens P
  | group _ a => a.Opens P
  | _ => False

/-- **The symbols that are taken have the property.** -/
theorem forall_mem_taken (h : r.Only P) (ho : o ∈ r.run b s) : ∀ x ∈ o.taken, P x := by
  have hiterate : ∀ {step : Bool → List α → List (Outcome α)} {greedy : Bool},
      (∀ b s, ∀ o ∈ step b s, ∀ x ∈ o.taken, P x) →
      ∀ n b s, ∀ o ∈ iterate step greedy n b s, ∀ x ∈ o.taken, P x := by
    intro step greedy hstep
    apply iterate_induction
    · exact fun s => List.forall_mem_nil _
    · intro b s o₁ ho₁ o₂ ho₂
      exact List.forall_mem_append.mpr ⟨hstep b s o₁ ho₁, ho₂⟩
  induction r generalizing b s o with
  | empty =>
    rw [mem_run_empty.mp ho]
    exact List.forall_mem_nil _
  | set p =>
    obtain ⟨x, t, rfl, hx, rfl⟩ := mem_run_set.mp ho
    exact List.forall_mem_singleton.mpr (h x hx)
  | seq a c iha ihc =>
    obtain ⟨o₁, ho₁, o₂, ho₂, rfl⟩ := mem_run_seq.mp ho
    exact List.forall_mem_append.mpr ⟨iha h.1 ho₁, ihc h.2 ho₂⟩
  | alt a c iha ihc => exact (mem_run_alt.mp ho).elim (iha h.1) (ihc h.2)
  | star a ih => exact hiterate (fun _ _ _ => ih h) _ _ _ _ ho
  | lazyStar a ih => exact hiterate (fun _ _ _ => ih h) _ _ _ _ ho
  | start =>
    rw [(mem_run_start.mp ho).2]
    exact List.forall_mem_nil _
  | finish =>
    rw [(mem_run_finish.mp ho).2]
    exact List.forall_mem_nil _
  | ahead a ih =>
    rw [(mem_run_ahead.mp ho).2]
    exact List.forall_mem_nil _
  | notAhead a ih =>
    rw [(mem_run_notAhead.mp ho).2]
    exact List.forall_mem_nil _
  | group i a ih =>
    obtain ⟨o', ho', rfl⟩ := mem_run_group.mp ho
    exact @ih b s o' h ho'

/-- **A symbol that has the property is taken.** -/
theorem exists_mem_taken (h : r.Takes P) (ho : o ∈ r.run b s) : ∃ x ∈ o.taken, P x := by
  induction r generalizing b s o with
  | set p =>
    obtain ⟨x, t, rfl, hx, rfl⟩ := mem_run_set.mp ho
    exact ⟨x, List.mem_singleton_self x, h x hx⟩
  | seq a c iha ihc =>
    obtain ⟨o₁, ho₁, o₂, ho₂, rfl⟩ := mem_run_seq.mp ho
    rcases h with h | h
    · obtain ⟨x, hx, hP⟩ := iha h ho₁
      exact ⟨x, List.mem_append_left _ hx, hP⟩
    · obtain ⟨x, hx, hP⟩ := ihc h ho₂
      exact ⟨x, List.mem_append_right _ hx, hP⟩
  | alt a c iha ihc => exact (mem_run_alt.mp ho).elim (iha h.1) (ihc h.2)
  | group i a ih =>
    obtain ⟨o', ho', rfl⟩ := mem_run_group.mp ho
    exact @ih b s o' h ho'
  | empty => exact h.elim
  | star a ih => exact h.elim
  | lazyStar a ih => exact h.elim
  | start => exact h.elim
  | finish => exact h.elim
  | ahead a ih => exact h.elim
  | notAhead a ih => exact h.elim

/-- Something is taken. -/
theorem taken_ne_nil (h : r.Takes P) (ho : o ∈ r.run b s) : o.taken ≠ [] := by
  obtain ⟨x, hx, -⟩ := exists_mem_taken h ho
  exact List.ne_nil_of_mem hx

/-- A text without such symbols has no match. -/
theorem run_eq_nil (h : r.Takes P) (hs : ∀ x ∈ s, ¬ P x) : r.run b s = [] := by
  apply List.eq_nil_iff_forall_not_mem.mpr
  intro o ho
  obtain ⟨x, hx, hP⟩ := exists_mem_taken h ho
  exact hs x (taken_append_rest r ho ▸ List.mem_append_left _ hx) hP

/-- A text without such symbols has no match anywhere. -/
theorem test_eq_false (h : r.Takes P) (hs : ∀ x ∈ s, ¬ P x) : r.test s = false := by
  rw [test_eq_false_iff]
  rintro t u rfl
  exact run_eq_nil h fun x hx => hs x (List.mem_append_right _ hx)

/-- **Before any other symbol there is no match.** -/
theorem run_cons_eq_nil {x : α} (h : r.Opens P) (hx : ¬ P x) : r.run b (x :: s) = [] := by
  induction r generalizing b s with
  | set p =>
    apply run_set_cons_of_neg
    rw [← Bool.not_eq_true]
    exact fun hp => hx (h x hp)
  | seq a c iha ihc =>
    apply List.eq_nil_iff_forall_not_mem.mpr
    intro o ho
    obtain ⟨o₁, ho₁, -⟩ := mem_run_seq.mp ho
    rw [iha h] at ho₁
    exact List.not_mem_nil ho₁
  | alt a c iha ihc =>
    have hparts : (alt a c).run b (x :: s) = a.run b (x :: s) ++ c.run b (x :: s) := rfl
    rw [hparts, iha h.1, ihc h.2, List.append_nil]
  | group i a ih =>
    have hgroup : (group i a).run b (x :: s) =
      (a.run b (x :: s)).map fun o => { o with groups := (i, o.taken) :: o.groups } := rfl
    rw [hgroup, ih h, List.map_nil]
  | empty => exact h.elim
  | star a ih => exact h.elim
  | lazyStar a ih => exact h.elim
  | start => exact h.elim
  | finish => exact h.elim
  | ahead a ih => exact h.elim
  | notAhead a ih => exact h.elim

/-- Symbols before which there is no match stay. -/
theorem replaceRest_append {f : Outcome α → List α} {t : List α} (h : r.Opens P)
    (ht : ∀ x ∈ t, ¬ P x) (hne : t ≠ []) :
    r.replaceRest f b (t ++ s) = t ++ r.replaceRest f false s := by
  induction t generalizing b with
  | nil => exact absurd rfl hne
  | cons x t ih =>
    rw [List.forall_mem_cons] at ht
    rw [List.cons_append, replaceRest_cons (run_cons_eq_nil h ht.1)]
    cases t with
    | nil => rfl
    | cons y t =>
      rw [ih ht.2 (List.cons_ne_nil y t)]
      rfl

/-- A weaker property. -/
theorem Only.mono (hPQ : ∀ x, P x → Q x) (h : r.Only P) : r.Only Q := by
  induction r with
  | set p => exact fun x hx => hPQ x (h x hx)
  | seq a c iha ihc => exact ⟨iha h.1, ihc h.2⟩
  | alt a c iha ihc => exact ⟨iha h.1, ihc h.2⟩
  | star a ih => exact ih h
  | lazyStar a ih => exact ih h
  | group i a ih => exact ih h
  | empty => trivial
  | start => trivial
  | finish => trivial
  | ahead a ih => trivial
  | notAhead a ih => trivial

/-- A word. -/
theorem only_word {same : α → α → Bool} {w : List α} (h : ∀ x ∈ w, ∀ y, same x y = true → P y) :
    (word same w).Only P := by
  induction w with
  | nil => trivial
  | cons x w ih =>
    rw [List.forall_mem_cons] at h
    exact ⟨h.1, ih h.2⟩

/-- One of several. -/
theorem only_oneOf {as : List (Pattern α)} (h : ∀ a ∈ as, a.Only P) : (oneOf as).Only P := by
  induction as with
  | nil => exact fun x hx => absurd hx Bool.false_ne_true
  | cons a as ih =>
    rw [List.forall_mem_cons] at h
    exact ⟨h.1, ih h.2⟩

/-- A word. -/
theorem takes_word {same : α → α → Bool} {w : List α} {x : α} (hx : x ∈ w)
    (h : ∀ y, same x y = true → P y) : (word same w).Takes P := by
  induction w with
  | nil => exact absurd hx List.not_mem_nil
  | cons z w ih =>
    rcases List.mem_cons.mp hx with rfl | hx
    · exact .inl h
    · exact .inr (ih hx)

/-- One of several. -/
theorem takes_oneOf {as : List (Pattern α)} (h : ∀ a ∈ as, a.Takes P) : (oneOf as).Takes P := by
  induction as with
  | nil => exact fun x hx => absurd hx Bool.false_ne_true
  | cons a as ih =>
    rw [List.forall_mem_cons] at h
    exact ⟨h.1, ih h.2⟩

/-- A word opens with its first symbol. -/
theorem opens_word {same : α → α → Bool} {w : List α} {x : α} (h : ∀ y, same x y = true → P y) :
    (word same (x :: w)).Opens P := h

/-- One of several. -/
theorem opens_oneOf {as : List (Pattern α)} (h : ∀ a ∈ as, a.Opens P) : (oneOf as).Opens P := by
  induction as with
  | nil => exact fun x hx => Bool.noConfusion hx
  | cons a as ih =>
    rw [List.forall_mem_cons] at h
    exact ⟨h.1, ih h.2⟩

end Regex.Pattern
