import AgentEval.Regex.Taken
import AgentEval.Regex.Whole

/-!
# Texts in parts

A pattern that neither takes a symbol of a set nor sees it matches on either side of such a symbol as
if there were nothing else. A pattern that does not look at what is before a symbol matches a text
with predecessors as it matches the text.

* `Pattern.Avoids` — the symbols of a set are foreign to a pattern.
* **`Pattern.replaceRest_append_cons`**: then a text is replaced in parts.
* `Pattern.minTaken` — how much a match takes at least.
* `Pattern.comap` — a pattern read through a function; **`Pattern.replaceWords_comap`**.
-/

namespace Regex

variable {α β : Type}

/-! ## Foreign symbols -/

/-- An outcome with more text after it. -/
def Outcome.followedBy (u : List α) (o : Outcome α) : Outcome α := { o with rest := o.rest ++ u }

/-- The symbols of a set are foreign to a pattern. -/
def Pattern.Avoids (P : α → Prop) : Pattern α → Prop
  | empty => True
  | set p => ∀ x, P x → p x = false
  | seq a c => a.Avoids P ∧ c.Avoids P
  | alt a c => a.Avoids P ∧ c.Avoids P
  | star a => a.Avoids P
  | lazyStar a => a.Avoids P
  | start => True
  | finish => False
  | ahead a => a.Avoids P
  | notAhead a => a.Avoids P
  | group _ a => a.Avoids P

namespace Pattern

variable {P : α → Prop} {r : Pattern α} {b : Bool} {s : List α} {x : α}

/-- Repetition of what takes nothing. -/
theorem iterate_of_empty {step : Bool → List α → List (Outcome α)} {greedy : Bool}
    (h : ∀ o ∈ step b s, o.taken = []) (n : ℕ) : iterate step greedy n b s = [.stay s] := by
  cases n with
  | zero => rfl
  | succ n =>
    have hnone : ((step b s).flatMap fun o => if o.taken.isEmpty then [] else
        (iterate step greedy n false o.rest).map o.andThen) = [] := by
      rw [List.flatMap_eq_nil_iff]
      intro o ho
      exact if_pos (by rw [h o ho]; rfl)
    unfold iterate
    rw [hnone]
    cases greedy <;> rfl

/-- Repetition of what does not see the text after it. -/
theorem iterate_append {step : Bool → List α → List (Outcome α)} {greedy : Bool} {u : List α}
    (hstep : ∀ b s, step b (s ++ u) = (step b s).map (Outcome.followedBy u))
    (hparts : ∀ b s, ∀ o ∈ step b s, o.taken ++ o.rest = s) {n m : ℕ} (hn : s.length ≤ n)
    (hm : s.length ≤ m) : iterate step greedy m b (s ++ u) =
      (iterate step greedy n b s).map (Outcome.followedBy u) := by
  induction n generalizing m b s with
  | zero =>
    obtain rfl := List.length_eq_zero_iff.mp (Nat.le_zero.mp hn)
    have hend : ∀ o ∈ step b u, o.taken = [] := by
      intro o ho
      have hu := hstep b []
      rw [List.nil_append] at hu
      rw [hu] at ho
      obtain ⟨o', ho', rfl⟩ := List.mem_map.mp ho
      exact (List.append_eq_nil_iff.mp (hparts b [] o' ho')).1
    rw [List.nil_append, iterate_of_empty hend]
    rfl
  | succ n ih =>
    cases m with
    | zero =>
      obtain rfl := List.length_eq_zero_iff.mp (Nat.le_zero.mp hm)
      rw [iterate_of_empty fun o ho => (List.append_eq_nil_iff.mp (hparts b [] o ho)).1]
      rfl
    | succ m =>
      have hmore : ((step b (s ++ u)).flatMap fun o => if o.taken.isEmpty then [] else
            (iterate step greedy m false o.rest).map o.andThen) =
          ((step b s).flatMap fun o => if o.taken.isEmpty then [] else
            (iterate step greedy n false o.rest).map o.andThen).map (Outcome.followedBy u) := by
        rw [hstep, List.flatMap_map, List.map_flatMap]
        apply List.flatMap_congr
        intro o ho
        have htaken : (o.followedBy u).taken = o.taken := rfl
        rw [htaken]
        split_ifs with hempty
        · rfl
        · have hlength := congrArg List.length (hparts b s o ho)
          have hpos := List.length_pos_iff.mpr fun h0 => hempty (List.isEmpty_iff.mpr h0)
          rw [List.length_append] at hlength
          have hrest : (o.followedBy u).rest = o.rest ++ u := rfl
          rw [hrest, @ih false o.rest m (by omega) (by omega), List.map_map, List.map_map]
          rfl
      unfold iterate
      dsimp only
      rw [hmore]
      cases greedy <;> simp [Outcome.followedBy, Outcome.stay]

/-- **A pattern does not see beyond a foreign symbol.** -/
theorem run_append_cons (h : r.Avoids P) (hx : P x) (b : Bool) (s t : List α) :
    r.run b (s ++ x :: t) = (r.run b s).map (Outcome.followedBy (x :: t)) := by
  induction r generalizing b s with
  | empty => rfl
  | set p =>
    cases s with
    | nil =>
      rw [List.nil_append, run_set_cons_of_neg (h x hx)]
      rfl
    | cons y s =>
      unfold run
      dsimp only [List.cons_append]
      split_ifs <;> rfl
  | seq a c iha ihc =>
    unfold run
    rw [iha h.1, List.flatMap_map, List.map_flatMap]
    apply List.flatMap_congr
    intro o _
    have hrest : (o.followedBy (x :: t)).rest = o.rest ++ x :: t := rfl
    have htaken : (o.followedBy (x :: t)).taken = o.taken := rfl
    rw [hrest, htaken, ihc h.2, List.map_map, List.map_map]
    rfl
  | alt a c iha ihc =>
    unfold run
    rw [iha h.1, ihc h.2, List.map_append]
  | star a ih =>
    exact iterate_append (fun b s => ih h b s) (fun _ _ _ => taken_append_rest a) le_rfl
      (by simp)
  | lazyStar a ih =>
    exact iterate_append (fun b s => ih h b s) (fun _ _ _ => taken_append_rest a) le_rfl
      (by simp)
  | start =>
    unfold run
    split_ifs <;> rfl
  | finish => exact h.elim
  | ahead a ih =>
    unfold run
    rw [ih h, List.isEmpty_map]
    split_ifs <;> rfl
  | notAhead a ih =>
    unfold run
    rw [ih h, List.isEmpty_map]
    split_ifs <;> rfl
  | group i a ih =>
    unfold run
    rw [ih h, List.map_map, List.map_map]
    rfl

/-- **A text is replaced in parts** at a foreign symbol, when every match takes something. -/
theorem replaceRest_append_cons {f : Outcome α → List α} (h : r.Avoids P) (hx : P x)
    (htakes : ∀ b s, ∀ o ∈ r.run b s, o.taken ≠ [])
    (hf : ∀ o u, f (o.followedBy u) = f o) (b : Bool) (s t : List α) :
    r.replaceRest f b (s ++ x :: t) = r.replaceRest f b s ++ x :: r.replaceRest f false t := by
  have hnil : ∀ b, r.run b [] = [] := by
    intro b
    apply List.eq_nil_iff_forall_not_mem.mpr
    intro o ho
    exact htakes b [] o ho (List.append_eq_nil_iff.mp (taken_append_rest r ho)).1
  generalize hn : s.length = n
  induction n using Nat.strong_induction_on generalizing b s with
  | _ n ih =>
    cases hrun : (r.run b s).head? with
    | none =>
      have hnone := List.head?_eq_none_iff.mp hrun
      have hmore := run_append_cons h hx b s t
      rw [hnone, List.map_nil] at hmore
      cases s with
      | nil =>
        rw [List.nil_append] at hmore ⊢
        rw [replaceRest_cons hmore, replaceRest_nil hnone, List.nil_append]
      | cons y s =>
        rw [List.length_cons] at hn
        rw [List.cons_append] at hmore ⊢
        rw [replaceRest_cons hmore, replaceRest_cons hnone, ih s.length (by omega) false s rfl,
          List.cons_append]
    | some o =>
      have hmem := List.mem_of_mem_head? hrun
      have hne := htakes b s o hmem
      have hparts := congrArg List.length (taken_append_rest r hmem)
      have hpos := List.length_pos_iff.mpr hne
      rw [List.length_append] at hparts
      have hmore : (r.run b (s ++ x :: t)).head? = some (o.followedBy (x :: t)) := by
        rw [run_append_cons h hx, List.head?_map, hrun]
        rfl
      have hrest : (o.followedBy (x :: t)).rest = o.rest ++ x :: t := rfl
      rw [replaceRest_of_head hmore hne, replaceRest_of_head hrun hne, hf, hrest,
        ih o.rest.length (by omega) false o.rest rfl, List.append_assoc]

/-- A foreign symbol is not taken. -/
theorem Avoids.only (h : r.Avoids P) : r.Only fun x => ¬ P x := by
  induction r with
  | set p =>
    intro x hx hP
    rw [h x hP] at hx
    cases hx
  | seq a c iha ihc => exact ⟨iha h.1, ihc h.2⟩
  | alt a c iha ihc => exact ⟨iha h.1, ihc h.2⟩
  | star a ih => exact ih h
  | lazyStar a ih => exact ih h
  | group i a ih => exact ih h
  | empty => trivial
  | start => trivial
  | finish => trivial
  | ahead a ih => trivial
  | notAhead a ih => trivial

/-- A number of times. -/
theorem Avoids.atLeast (h : r.Avoids P) (n : ℕ) : (r.atLeast n).Avoids P := by
  induction n with
  | zero => exact h
  | succ n ih => exact ⟨h, ih⟩

/-- One of several. -/
theorem avoids_oneOf {rs : List (Pattern α)} (h : ∀ r ∈ rs, r.Avoids P) :
    (oneOf rs).Avoids P := by
  induction rs with
  | nil => exact fun _ _ => rfl
  | cons r rs ih =>
    rw [List.forall_mem_cons] at h
    exact ⟨h.1, ih h.2⟩

/-! ## Patterns without a start -/

/-- A pattern that does not ask for the start of the text. -/
def Unanchored : Pattern α → Prop
  | seq a c => a.Unanchored ∧ c.Unanchored
  | alt a c => a.Unanchored ∧ c.Unanchored
  | star a => a.Unanchored
  | lazyStar a => a.Unanchored
  | start => False
  | ahead a => a.Unanchored
  | notAhead a => a.Unanchored
  | group _ a => a.Unanchored
  | _ => True

/-- It matches everywhere alike. -/
theorem Unanchored.run_eq (h : r.Unanchored) (b b' : Bool) (s : List α) :
    r.run b s = r.run b' s := by
  have hiterate : ∀ {step : Bool → List α → List (Outcome α)} {greedy : Bool},
      (∀ b b' s, step b s = step b' s) →
      ∀ n b b' s, iterate step greedy n b s = iterate step greedy n b' s := by
    intro step greedy hstep n b b' s
    cases n with
    | zero => rfl
    | succ n =>
      unfold iterate
      rw [hstep b b']
  induction r generalizing b b' s with
  | seq a c iha ihc =>
    unfold run
    rw [iha h.1 b b' s]
    apply List.flatMap_congr
    intro o _
    rw [ihc h.2 (b && o.taken.isEmpty) (b' && o.taken.isEmpty)]
  | alt a c iha ihc =>
    unfold run
    rw [iha h.1 b b', ihc h.2 b b']
  | star a ih => exact hiterate (ih h) _ _ _ _
  | lazyStar a ih => exact hiterate (ih h) _ _ _ _
  | start => exact h.elim
  | ahead a ih =>
    unfold run
    rw [ih h b b']
  | notAhead a ih =>
    unfold run
    rw [ih h b b']
  | group i a ih =>
    unfold run
    rw [ih h b b']
  | empty => rfl
  | set p => cases s <;> rfl
  | finish => rfl

/-- It replaces everywhere alike. -/
theorem Unanchored.replaceRest_eq {f : Outcome α → List α} (h : r.Unanchored) (b b' : Bool)
    (s : List α) : r.replaceRest f b s = r.replaceRest f b' s := by
  unfold replaceRest replaceFrom
  rw [h.run_eq b b']

/-! ## The length of a match -/

/-- The number of symbols that every match takes at least. -/
def minTaken : Pattern α → ℕ
  | set _ => 1
  | seq a c => a.minTaken + c.minTaken
  | alt a c => min a.minTaken c.minTaken
  | group _ a => a.minTaken
  | _ => 0

/-- **A match is no shorter.** -/
theorem minTaken_le {o : Outcome α} (ho : o ∈ r.run b s) : r.minTaken ≤ o.taken.length := by
  induction r generalizing b s o with
  | set p =>
    obtain ⟨x, t, rfl, -, rfl⟩ := mem_run_set.mp ho
    exact le_rfl
  | seq a c iha ihc =>
    obtain ⟨o₁, ho₁, o₂, ho₂, rfl⟩ := mem_run_seq.mp ho
    have hlength : (o₁.andThen o₂).taken.length = o₁.taken.length + o₂.taken.length :=
      List.length_append
    rw [hlength]
    exact Nat.add_le_add (iha ho₁) (ihc ho₂)
  | alt a c iha ihc =>
    rcases mem_run_alt.mp ho with ho | ho
    · exact (Nat.min_le_left _ _).trans (iha ho)
    · exact (Nat.min_le_right _ _).trans (ihc ho)
  | group i a ih =>
    obtain ⟨o', ho', rfl⟩ := mem_run_group.mp ho
    exact @ih b s o' ho'
  | empty => exact Nat.zero_le _
  | star a ih => exact Nat.zero_le _
  | lazyStar a ih => exact Nat.zero_le _
  | start => exact Nat.zero_le _
  | finish => exact Nat.zero_le _
  | ahead a ih => exact Nat.zero_le _
  | notAhead a ih => exact Nat.zero_le _

/-- A shorter text has no match. -/
theorem run_eq_nil_of_length (h : s.length < r.minTaken) : r.run b s = [] := by
  apply List.eq_nil_iff_forall_not_mem.mpr
  intro o ho
  have hparts := congrArg List.length (taken_append_rest r ho)
  have hmin := minTaken_le ho
  rw [List.length_append] at hparts
  omega

end Pattern

/-! ## Patterns read through a function -/

/-- An outcome read through a function. -/
def Outcome.map (g : β → α) (o : Outcome β) : Outcome α :=
  ⟨o.taken.map g, o.rest.map g, o.groups.map fun p => (p.1, p.2.map g)⟩

/-- A pattern that matches what a function makes of the symbols. -/
def Pattern.comap (g : β → α) : Pattern α → Pattern β
  | empty => empty
  | set p => set fun x => p (g x)
  | seq a c => seq (a.comap g) (c.comap g)
  | alt a c => alt (a.comap g) (c.comap g)
  | star a => star (a.comap g)
  | lazyStar a => lazyStar (a.comap g)
  | start => start
  | finish => finish
  | ahead a => ahead (a.comap g)
  | notAhead a => notAhead (a.comap g)
  | group i a => group i (a.comap g)

namespace Pattern

variable {g : β → α} {r : Pattern α} {b : Bool} {s : List β}

/-- One match after another. -/
theorem map_andThen (o o' : Outcome β) : (o.andThen o').map g = (o.map g).andThen (o'.map g) := by
  simp [Outcome.andThen, Outcome.map]

/-- Repetition. -/
theorem iterate_map {step : Bool → List α → List (Outcome α)}
    {step' : Bool → List β → List (Outcome β)} {greedy : Bool}
    (hstep : ∀ b s, step b (s.map g) = (step' b s).map (Outcome.map g)) (n : ℕ) (b : Bool)
    (s : List β) : iterate step greedy n b (s.map g) =
      (iterate step' greedy n b s).map (Outcome.map g) := by
  induction n generalizing b s with
  | zero => rfl
  | succ n ih =>
    have hmore : ((step b (s.map g)).flatMap fun o => if o.taken.isEmpty then [] else
          (iterate step greedy n false o.rest).map o.andThen) =
        ((step' b s).flatMap fun o => if o.taken.isEmpty then [] else
          (iterate step' greedy n false o.rest).map o.andThen).map (Outcome.map g) := by
      rw [hstep, List.flatMap_map, List.map_flatMap]
      apply List.flatMap_congr
      intro o _
      have hempty : (o.map g).taken.isEmpty = o.taken.isEmpty := List.isEmpty_map
      have hrest : (o.map g).rest = o.rest.map g := rfl
      rw [hempty]
      split_ifs
      · rfl
      · rw [hrest, ih, List.map_map, List.map_map]
        apply List.map_congr_left
        intro o' _
        exact (map_andThen o o').symm
    unfold iterate
    dsimp only
    rw [hmore]
    cases greedy <;> simp [Outcome.map, Outcome.stay]

/-- **What a pattern read through a function matches.** -/
theorem run_comap (r : Pattern α) (b : Bool) (s : List β) :
    r.run b (s.map g) = ((r.comap g).run b s).map (Outcome.map g) := by
  induction r generalizing b s with
  | empty => rfl
  | set p =>
    cases s with
    | nil => rfl
    | cons x s =>
      unfold comap
      cases hx : p (g x) with
      | false =>
        rw [List.map_cons, run_set_cons_of_neg hx,
          run_set_cons_of_neg (p := fun y => p (g y)) hx, List.map_nil]
      | true =>
        rw [List.map_cons, run_set_cons_of_pos hx, run_set_cons_of_pos (p := fun y => p (g y)) hx]
        rfl
  | seq a c iha ihc =>
    unfold comap run
    rw [iha, List.flatMap_map, List.map_flatMap]
    apply List.flatMap_congr
    intro o _
    have hrest : (o.map g).rest = o.rest.map g := rfl
    have hempty : (o.map g).taken.isEmpty = o.taken.isEmpty := List.isEmpty_map
    rw [hrest, hempty, ihc, List.map_map, List.map_map]
    apply List.map_congr_left
    intro o' _
    exact (map_andThen o o').symm
  | alt a c iha ihc =>
    unfold comap run
    rw [iha, ihc, List.map_append]
  | star a ih =>
    unfold comap run
    rw [List.length_map]
    exact iterate_map ih _ _ _
  | lazyStar a ih =>
    unfold comap run
    rw [List.length_map]
    exact iterate_map ih _ _ _
  | start =>
    unfold comap run
    split_ifs <;> rfl
  | finish =>
    unfold comap run
    rw [List.isEmpty_map]
    split_ifs <;> rfl
  | ahead a ih =>
    unfold comap run
    rw [ih, List.isEmpty_map]
    split_ifs <;> rfl
  | notAhead a ih =>
    unfold comap run
    rw [ih, List.isEmpty_map]
    split_ifs <;> rfl
  | group i a ih =>
    unfold comap run
    rw [ih, List.map_map, List.map_map]
    rfl

/-- What is replaced, read through the function. -/
theorem map_replaceFrom_comap {f : Outcome α → List α} {f' : Outcome β → List β}
    (hf : ∀ o, (f' o).map g = f (o.map g)) (n : ℕ) (b : Bool) (s : List β) :
    ((r.comap g).replaceFrom f' n b s).map g = r.replaceFrom f n b (s.map g) := by
  induction n generalizing b s with
  | zero => rfl
  | succ n ih =>
    have hhead : (r.run b (s.map g)).head? =
        (((r.comap g).run b s).head?).map (Outcome.map g) := by
      rw [run_comap, List.head?_map]
    unfold replaceFrom
    rw [hhead]
    cases ((r.comap g).run b s).head? with
    | none =>
      cases s with
      | nil => rfl
      | cons x s => exact congrArg (g x :: ·) (ih false s)
    | some o =>
      have hempty : (o.map g).taken.isEmpty = o.taken.isEmpty := List.isEmpty_map
      dsimp only [Option.map_some]
      rw [hempty]
      split_ifs
      · rw [List.map_append, hf]
        cases s with
        | nil => rfl
        | cons x s => exact congrArg (f (o.map g) ++ g x :: ·) (ih false s)
      · rw [List.map_append, hf, ih]
        rfl

/-- **A pattern that does not look at what is before a symbol** replaces in the text itself. -/
theorem replaceWords_comap (r : Pattern α) (f : List α → List α) (s : List α) :
    (r.comap Prod.snd : Pattern (Option α × α)).replaceWords f s =
      r.replaceAll (fun o => f o.taken) s := by
  have hlength : (withPrevious none s).length = s.length := by
    rw [← List.length_map (f := Prod.snd), map_snd_withPrevious]
  unfold replaceWords replaceAll
  rw [map_replaceFrom_comap (f := fun o => f o.taken), map_snd_withPrevious, hlength]
  intro o
  rw [List.map_map]
  exact List.map_id _

end Pattern

end Regex
