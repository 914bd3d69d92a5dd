import Mathlib.Data.List.Basic
import Mathlib.Data.List.Forall2
import Mathlib.Data.List.Infix
import Mathlib.Data.List.TakeWhile
import Mathlib.Data.Nat.Basic

/-!
# Regular expressions with backtracking

A pattern at a place of a text has a list of outcomes, in the order in which a backtracking matcher
comes to them; the first is the match. The text before the place is not looked at, apart from whether
there is any.

* `Pattern.run` — the outcomes. An equation for each kind of pattern, and `mem_run_seq`,
  `mem_run_alt`, … for membership only.
* **`Pattern.search_eq_some_iff`**: the leftmost match.
* `Pattern.replaceAll` — every match replaced, from the left; `Pattern.splitBy` — the text between.
-/

namespace Regex

variable {α : Type}

/-- Patterns. There is no group inside a repetition. -/
inductive Pattern (α : Type) where
  /-- Nothing. -/
  | empty
  /-- One symbol of a set. -/
  | set (p : α → Bool)
  /-- One after the other. -/
  | seq (a b : Pattern α)
  /-- The first, or else the second. -/
  | alt (a b : Pattern α)
  /-- Repetition, as often as possible. -/
  | star (a : Pattern α)
  /-- Repetition, as rarely as possible. -/
  | lazyStar (a : Pattern α)
  /-- The start of the text. -/
  | start
  /-- Its end. -/
  | finish
  /-- What follows matches. -/
  | ahead (a : Pattern α)
  /-- What follows does not. -/
  | notAhead (a : Pattern α)
  /-- A numbered group. -/
  | group (i : ℕ) (a : Pattern α)

/-- One way of matching. -/
structure Outcome (α : Type) where
  /-- What was matched. -/
  taken : List α
  /-- What follows. -/
  rest : List α
  /-- The groups, the last one first. -/
  groups : List (ℕ × List α)

/-- Nothing matched. -/
def Outcome.stay (s : List α) : Outcome α := ⟨[], s, []⟩

/-- One match after another. -/
def Outcome.andThen (o o' : Outcome α) : Outcome α :=
  ⟨o.taken ++ o'.taken, o'.rest, o'.groups ++ o.groups⟩

/-- The text of a group, empty where it took no part. -/
def Outcome.group (o : Outcome α) (i : ℕ) : List α := (o.groups.lookup i).getD []

/-- Repetition; an iteration that matches nothing is not taken. -/
def iterate (step : Bool → List α → List (Outcome α)) (greedy : Bool) :
    ℕ → Bool → List α → List (Outcome α)
  | 0, _, s => [.stay s]
  | n + 1, b, s =>
    let more := (step b s).flatMap fun o =>
      if o.taken.isEmpty then [] else (iterate step greedy n false o.rest).map o.andThen
    if greedy then more ++ [.stay s] else .stay s :: more

/-- The outcomes at a place: whether it is the start, and the text from there. -/
def Pattern.run : Pattern α → Bool → List α → List (Outcome α)
  | empty, _, s => [.stay s]
  | set _, _, [] => []
  | set p, _, c :: s => if p c then [⟨[c], s, []⟩] else []
  | seq a c, b, s => (a.run b s).flatMap fun o =>
      (c.run (b && o.taken.isEmpty) o.rest).map o.andThen
  | alt a c, b, s => a.run b s ++ c.run b s
  | star a, b, s => iterate a.run true s.length b s
  | lazyStar a, b, s => iterate a.run false s.length b s
  | start, b, s => if b then [.stay s] else []
  | finish, _, s => if s.isEmpty then [.stay s] else []
  | ahead a, b, s => if (a.run b s).isEmpty then [] else [.stay s]
  | notAhead a, b, s => if (a.run b s).isEmpty then [.stay s] else []
  | group i a, b, s => (a.run b s).map fun o => { o with groups := (i, o.taken) :: o.groups }

/-- At most once, preferably. -/
def Pattern.opt (a : Pattern α) : Pattern α := .alt a .empty

/-- At least once. -/
def Pattern.plus (a : Pattern α) : Pattern α := .seq a (.star a)

/-- The symbols of a word, compared by a relation. -/
def Pattern.word (same : α → α → Bool) : List α → Pattern α
  | [] => .empty
  | x :: w => .seq (.set (same x)) (Pattern.word same w)

/-- The first of several that matches. -/
def Pattern.oneOf (as : List (Pattern α)) : Pattern α := as.foldr .alt (.set fun _ => false)

/-- A match in a text. -/
structure Found (α : Type) extends Outcome α where
  /-- The text before it. -/
  before : List α

/-- The first match from a place on. -/
def Pattern.searchFrom (r : Pattern α) : Bool → List α → Option (Found α)
  | b, s =>
    match (r.run b s).head? with
    | some o => some { o with before := [] }
    | none =>
      match s with
      | [] => none
      | c :: s => (r.searchFrom false s).map fun m => { m with before := c :: m.before }

/-- The first match in a text. -/
def Pattern.search (r : Pattern α) (s : List α) : Option (Found α) := r.searchFrom true s

/-- Whether there is a match. -/
def Pattern.test (r : Pattern α) (s : List α) : Bool := (r.search s).isSome

/-- The first match replaced. -/
def Pattern.replace (r : Pattern α) (f : Outcome α → List α) (s : List α) : List α :=
  (r.search s).elim s fun m => m.before ++ f m.toOutcome ++ m.rest

/-- The matches replaced, from a place on; the number bounds how many symbols are left. -/
def Pattern.replaceFrom (r : Pattern α) (f : Outcome α → List α) :
    ℕ → Bool → List α → List α
  | 0, _, s => s
  | n + 1, b, s =>
    match (r.run b s).head? with
    | some o =>
      if o.taken.isEmpty then
        f o ++ match s with
          | [] => []
          | c :: s => c :: r.replaceFrom f n false s
      else f o ++ r.replaceFrom f n false o.rest
    | none =>
      match s with
      | [] => []
      | c :: s => c :: r.replaceFrom f n false s

/-- Every match replaced. -/
def Pattern.replaceAll (r : Pattern α) (f : Outcome α → List α) (s : List α) : List α :=
  r.replaceFrom f (s.length + 1) true s

/-- The text between the matches, from a place on, with what of the piece was read; the number bounds
the steps. -/
def Pattern.splitFrom (r : Pattern α) : ℕ → Bool → List α → List α → List (List α)
  | 0, _, piece, s => [piece ++ s]
  | _ + 1, _, piece, [] => [piece]
  | n + 1, b, piece, x :: s =>
    match (r.run b (x :: s)).head? with
    | some o =>
      if piece.isEmpty && o.taken.isEmpty then r.splitFrom n false (piece ++ [x]) s
      else piece :: r.splitFrom n false [] o.rest
    | none => r.splitFrom n false (piece ++ [x]) s

section

-- the equations are derived here, once, and not by each proof that unfolds
attribute [local simp] Pattern.run Pattern.searchFrom Pattern.replaceFrom Pattern.splitFrom iterate

end

/-- The text between the matches. -/
def Pattern.splitAll (r : Pattern α) (s : List α) : List (List α) :=
  if s.isEmpty && r.test s then [] else r.splitFrom (2 * s.length + 1) true [] s

/-! ## The outcomes at a place -/

namespace Pattern

variable {r a c : Pattern α} {p : α → Bool} {b : Bool} {s t u : List α} {o : Outcome α} {x : α}
  {i : ℕ}

@[simp] theorem run_empty : (empty : Pattern α).run b s = [.stay s] := rfl

@[simp] theorem run_set_nil : (set p).run b [] = [] := rfl

/-- A symbol of the set. -/
theorem run_set_cons_of_pos (h : p x = true) : (set p).run b (x :: s) = [⟨[x], s, []⟩] := if_pos h

/-- Any other symbol. -/
theorem run_set_cons_of_neg (h : p x = false) : (set p).run b (x :: s) = [] := if_neg (by simp [h])

/-- Nothing. -/
theorem mem_run_empty : o ∈ (empty : Pattern α).run b s ↔ o = .stay s := List.mem_singleton

/-- One symbol. -/
theorem mem_run_set : o ∈ (set p).run b s ↔ ∃ x t, s = x :: t ∧ p x = true ∧ o = ⟨[x], t, []⟩ := by
  cases s with
  | nil => simp
  | cons x t =>
    unfold run
    split_ifs with h <;> simp [h]

/-- One pattern after the other. -/
theorem mem_run_seq : o ∈ (seq a c).run b s ↔
    ∃ o₁ ∈ a.run b s, ∃ o₂ ∈ c.run (b && o₁.taken.isEmpty) o₁.rest, o₁.andThen o₂ = o := by
  simp only [run, List.mem_flatMap, List.mem_map]

/-- One of two patterns. -/
theorem mem_run_alt : o ∈ (alt a c).run b s ↔ o ∈ a.run b s ∨ o ∈ c.run b s := List.mem_append

/-- The start. -/
theorem mem_run_start : o ∈ (start : Pattern α).run b s ↔ b = true ∧ o = .stay s := by
  unfold run
  split_ifs with h <;> simp [h]

/-- The end. -/
theorem mem_run_finish : o ∈ (finish : Pattern α).run b s ↔ s = [] ∧ o = .stay s := by
  unfold run
  cases s <;> simp

theorem run_ahead : (ahead a).run b s = if (a.run b s).isEmpty then [] else [.stay s] := rfl

theorem run_notAhead : (notAhead a).run b s = if (a.run b s).isEmpty then [.stay s] else [] := rfl

/-- What must follow. -/
theorem mem_run_ahead : o ∈ (ahead a).run b s ↔ (∃ o', o' ∈ a.run b s) ∧ o = .stay s := by
  rw [run_ahead]
  split_ifs with h
  · simp [List.isEmpty_iff.mp h]
  · obtain ⟨o', ho'⟩ := List.exists_mem_of_ne_nil _ (fun h0 => h (List.isEmpty_iff.mpr h0))
    simp only [List.mem_singleton]
    exact ⟨fun ho => ⟨⟨o', ho'⟩, ho⟩, And.right⟩

/-- What must not. -/
theorem mem_run_notAhead : o ∈ (notAhead a).run b s ↔ a.run b s = [] ∧ o = .stay s := by
  rw [run_notAhead]
  split_ifs with h
  · simp [List.isEmpty_iff.mp h]
  · have hne : a.run b s ≠ [] := fun h0 => h (List.isEmpty_iff.mpr h0)
    simp [hne]

/-- A group. -/
theorem mem_run_group : o ∈ (group i a).run b s ↔
    ∃ o' ∈ a.run b s, { o' with groups := (i, o'.taken) :: o'.groups } = o := by
  simp only [run, List.mem_map]

/-- At most once. -/
theorem mem_run_opt : o ∈ a.opt.run b s ↔ o ∈ a.run b s ∨ o = .stay s := by
  unfold opt
  rw [mem_run_alt, mem_run_empty]

/-! ## Runs of symbols of a set -/

/-- The part of a text that is taken, and what is left. -/
def splitAt (k : ℕ) (s : List α) : Outcome α := ⟨s.take k, s.drop k, []⟩

/-- The prefixes of a text up to a length, the shortest first. -/
def prefixes (n : ℕ) (s : List α) : List (Outcome α) := (List.range (n + 1)).map (splitAt · s)

/-- The prefixes of a longer text. -/
theorem prefixes_cons (n : ℕ) : prefixes (n + 1) (x :: s) =
    .stay (x :: s) :: (prefixes n s).map (Outcome.andThen ⟨[x], s, []⟩) := by
  unfold prefixes
  rw [List.range_succ_eq_map, List.map_cons, List.map_map, List.map_map]
  rfl

/-- One more iteration over a symbol of the set. -/
theorem iterate_set_cons {greedy : Bool} {n : ℕ} (hx : p x = true) :
    iterate (set p).run greedy (n + 1) b (x :: s) =
      if greedy then (iterate (set p).run greedy n false s).map (Outcome.andThen ⟨[x], s, []⟩) ++
        [.stay (x :: s)]
      else .stay (x :: s) ::
        (iterate (set p).run greedy n false s).map (Outcome.andThen ⟨[x], s, []⟩) := by
  conv_lhs => unfold iterate
  rw [run_set_cons_of_pos hx, List.flatMap_singleton]
  rfl

/-- No iteration over any other. -/
theorem iterate_set_cons_of_neg {greedy : Bool} {n : ℕ} (hx : p x = false) :
    iterate (set p).run greedy (n + 1) b (x :: s) = [.stay (x :: s)] := by
  unfold iterate
  rw [run_set_cons_of_neg hx]
  cases greedy <;> rfl

/-- The longest run first. -/
theorem iterate_set (n : ℕ) (h : s.length ≤ n) :
    iterate (set p).run true n b s = (prefixes (s.takeWhile p).length s).reverse := by
  induction n generalizing b s with
  | zero =>
    obtain rfl := List.length_eq_zero_iff.mp (Nat.le_zero.mp h)
    rfl
  | succ n ih =>
    cases s with
    | nil => rfl
    | cons x s =>
      rw [List.length_cons, Nat.succ_le_succ_iff] at h
      cases hx : p x with
      | false =>
        rw [iterate_set_cons_of_neg hx, List.takeWhile_cons_of_neg (by simp [hx])]
        rfl
      | true =>
        rw [iterate_set_cons hx, if_pos rfl, ih h, List.takeWhile_cons_of_pos hx, List.length_cons,
          prefixes_cons, List.reverse_cons, List.map_reverse]

/-- The shortest run first. -/
theorem iterate_set_lazy (n : ℕ) (h : s.length ≤ n) :
    iterate (set p).run false n b s = prefixes (s.takeWhile p).length s := by
  induction n generalizing b s with
  | zero =>
    obtain rfl := List.length_eq_zero_iff.mp (Nat.le_zero.mp h)
    rfl
  | succ n ih =>
    cases s with
    | nil => rfl
    | cons x s =>
      rw [List.length_cons, Nat.succ_le_succ_iff] at h
      cases hx : p x with
      | false =>
        rw [iterate_set_cons_of_neg hx, List.takeWhile_cons_of_neg (by simp [hx])]
        rfl
      | true =>
        rw [iterate_set_cons hx, if_neg (by simp), ih h, List.takeWhile_cons_of_pos hx,
          List.length_cons, prefixes_cons]

/-- As many symbols of a set as there are, or fewer. -/
theorem run_star_set : (star (set p)).run b s = (prefixes (s.takeWhile p).length s).reverse :=
  iterate_set _ le_rfl

/-- As few as possible, or more. -/
theorem run_lazyStar_set : (lazyStar (set p)).run b s = prefixes (s.takeWhile p).length s :=
  iterate_set_lazy _ le_rfl

/-- The parts of a text that a run of a set can take. -/
theorem mem_prefixes_takeWhile : o ∈ prefixes (s.takeWhile p).length s ↔
    ∃ t u, s = t ++ u ∧ (∀ x ∈ t, p x = true) ∧ o = ⟨t, u, []⟩ := by
  unfold prefixes
  simp only [List.mem_map, List.mem_range]
  constructor
  · rintro ⟨k, hk, rfl⟩
    refine ⟨s.take k, s.drop k, (List.take_append_drop k s).symm, ?_, rfl⟩
    intro x hx
    have hstarts : s.take k <+: s.takeWhile p := by
      apply List.prefix_of_prefix_length_le (List.take_prefix _ _) (List.takeWhile_prefix _)
      exact (List.length_take_le _ _).trans (Nat.le_of_lt_succ hk)
    exact List.mem_takeWhile_imp (hstarts.subset hx)
  · rintro ⟨t, u, rfl, ht, rfl⟩
    refine ⟨t.length, ?_, by simp [splitAt]⟩
    rw [List.takeWhile_append_of_pos ht, List.length_append]
    exact Nat.lt_succ_of_le (Nat.le_add_right _ _)

/-- A run of a set. -/
theorem mem_run_star_set : o ∈ (star (set p)).run b s ↔
    ∃ t u, s = t ++ u ∧ (∀ x ∈ t, p x = true) ∧ o = ⟨t, u, []⟩ := by
  rw [run_star_set, List.mem_reverse, mem_prefixes_takeWhile]

/-- A run of a set, the shortest first. -/
theorem mem_run_lazyStar_set : o ∈ (lazyStar (set p)).run b s ↔
    ∃ t u, s = t ++ u ∧ (∀ x ∈ t, p x = true) ∧ o = ⟨t, u, []⟩ := by
  rw [run_lazyStar_set, mem_prefixes_takeWhile]

/-- A run of a set that is not empty. -/
theorem mem_run_plus_set : o ∈ (set p).plus.run b s ↔
    ∃ t u, s = t ++ u ∧ t ≠ [] ∧ (∀ x ∈ t, p x = true) ∧ o = ⟨t, u, []⟩ := by
  unfold plus
  rw [mem_run_seq]
  constructor
  · rintro ⟨o₁, ho₁, o₂, ho₂, rfl⟩
    obtain ⟨x, t, rfl, hx, rfl⟩ := mem_run_set.mp ho₁
    obtain ⟨t, u, rfl, ht, rfl⟩ := mem_run_star_set.mp ho₂
    exact ⟨x :: t, u, rfl, List.cons_ne_nil _ _, List.forall_mem_cons.mpr ⟨hx, ht⟩, rfl⟩
  · rintro ⟨t, u, rfl, hne, ht, rfl⟩
    obtain ⟨x, t, rfl⟩ := List.exists_cons_of_ne_nil hne
    rw [List.forall_mem_cons] at ht
    exact ⟨⟨[x], t ++ u, []⟩, mem_run_set.mpr ⟨x, t ++ u, rfl, ht.1, rfl⟩,
      ⟨t, u, []⟩, mem_run_star_set.mpr ⟨t, u, rfl, ht.2, rfl⟩, rfl⟩

/-- A word. -/
theorem mem_run_word {same : α → α → Bool} {w : List α} : o ∈ (word same w).run b s ↔
    ∃ t u, s = t ++ u ∧ List.Forall₂ (fun x y => same x y = true) w t ∧ o = ⟨t, u, []⟩ := by
  induction w generalizing b s o with
  | nil =>
    unfold word
    rw [mem_run_empty]
    constructor
    · rintro rfl
      exact ⟨[], s, rfl, .nil, rfl⟩
    · rintro ⟨t, u, rfl, ht, rfl⟩
      obtain rfl := List.forall₂_nil_left_iff.mp ht
      rfl
  | cons x w ih =>
    unfold word
    rw [mem_run_seq]
    constructor
    · rintro ⟨o₁, ho₁, o₂, ho₂, rfl⟩
      obtain ⟨y, t, rfl, hy, rfl⟩ := mem_run_set.mp ho₁
      obtain ⟨t, u, rfl, ht, rfl⟩ := ih.mp ho₂
      exact ⟨y :: t, u, rfl, .cons hy ht, rfl⟩
    · rintro ⟨t, u, rfl, ht, rfl⟩
      obtain ⟨y, t, hy, hw, rfl⟩ := List.forall₂_cons_left_iff.mp ht
      exact ⟨⟨[y], t ++ u, []⟩, mem_run_set.mpr ⟨y, t ++ u, rfl, hy, rfl⟩, ⟨t, u, []⟩,
        ih.mpr ⟨t, u, rfl, hw, rfl⟩, rfl⟩

/-- One of several. -/
theorem mem_run_oneOf {as : List (Pattern α)} :
    o ∈ (oneOf as).run b s ↔ ∃ a ∈ as, o ∈ a.run b s := by
  induction as with
  | nil =>
    change o ∈ (set fun _ => false).run b s ↔ _
    simp [mem_run_set]
  | cons a as ih =>
    change o ∈ (alt a (oneOf as)).run b s ↔ _
    rw [mem_run_alt, ih]
    simp

/-- No iteration, or one and further ones. -/
theorem mem_iterate {step : Bool → List α → List (Outcome α)} {greedy : Bool} {n : ℕ}
    (ho : o ∈ iterate step greedy (n + 1) b s) : o = .stay s ∨
      ∃ o₁ ∈ step b s, ∃ o₂ ∈ iterate step greedy n false o₁.rest, o₁.andThen o₂ = o := by
  unfold iterate at ho
  cases greedy
  all_goals
    simp only [Bool.false_eq_true, if_false, if_true, List.mem_append, List.mem_cons,
      List.mem_flatMap, List.not_mem_nil, or_false] at ho
    rcases ho with ho | ho
  all_goals first
    | exact .inl ho
    | obtain ⟨o₁, ho₁, ho⟩ := ho
      split_ifs at ho
      · exact absurd ho List.not_mem_nil
      · exact .inr ⟨o₁, ho₁, List.mem_map.mp ho⟩

/-- **What holds of nothing and goes on with each iteration holds of a repetition.** -/
theorem iterate_induction {step : Bool → List α → List (Outcome α)} {greedy : Bool}
    {P : List α → Outcome α → Prop} (hstay : ∀ s, P s (.stay s))
    (hstep : ∀ b s, ∀ o ∈ step b s, ∀ o', P o.rest o' → P s (o.andThen o')) :
    ∀ n b s, ∀ o ∈ iterate step greedy n b s, P s o := by
  intro n
  induction n with
  | zero =>
    intro b s o ho
    rw [List.mem_singleton.mp ho]
    exact hstay s
  | succ n ih =>
    intro b s o ho
    rcases mem_iterate ho with rfl | ⟨o₁, ho₁, o₂, ho₂, rfl⟩
    · exact hstay s
    · exact hstep b s o₁ ho₁ o₂ (ih false o₁.rest o₂ ho₂)

/-- What is matched stands at the front. -/
theorem taken_append_rest (r : Pattern α) : ∀ {b : Bool} {s : List α} {o : Outcome α},
    o ∈ r.run b s → o.taken ++ o.rest = s := by
  have hstep : ∀ {step : Bool → List α → List (Outcome α)} {greedy : Bool},
      (∀ b s, ∀ o ∈ step b s, o.taken ++ o.rest = s) →
      ∀ n b s, ∀ o ∈ iterate step greedy n b s, o.taken ++ o.rest = s := by
    intro step greedy hstep
    apply iterate_induction
    · exact fun s => rfl
    · intro b s o₁ ho₁ o₂ ho₂
      change (o₁.taken ++ o₂.taken) ++ o₂.rest = s
      rw [List.append_assoc, ho₂, hstep _ _ _ ho₁]
  induction r with
  | empty =>
    intro b s o ho
    rw [mem_run_empty.mp ho]
    rfl
  | set p =>
    intro b s o ho
    obtain ⟨x, t, rfl, -, rfl⟩ := mem_run_set.mp ho
    rfl
  | seq a c iha ihc =>
    intro b s o ho
    obtain ⟨o₁, ho₁, o₂, ho₂, rfl⟩ := mem_run_seq.mp ho
    change (o₁.taken ++ o₂.taken) ++ o₂.rest = s
    rw [List.append_assoc, ihc ho₂, iha ho₁]
  | alt a c iha ihc =>
    intro b s o ho
    exact (mem_run_alt.mp ho).elim iha ihc
  | star a ih => exact fun ho => hstep (fun _ _ _ => ih) _ _ _ _ ho
  | lazyStar a ih => exact fun ho => hstep (fun _ _ _ => ih) _ _ _ _ ho
  | start =>
    intro b s o ho
    rw [(mem_run_start.mp ho).2]
    rfl
  | finish =>
    intro b s o ho
    rw [(mem_run_finish.mp ho).2]
    rfl
  | ahead a ih =>
    intro b s o ho
    rw [(mem_run_ahead.mp ho).2]
    rfl
  | notAhead a ih =>
    intro b s o ho
    rw [(mem_run_notAhead.mp ho).2]
    rfl
  | group i a ih =>
    intro b s o ho
    obtain ⟨o', ho', rfl⟩ := mem_run_group.mp ho
    exact @ih b s o' ho'

/-! ## The leftmost match -/

/-- Nowhere. -/
theorem searchFrom_eq_none_iff : r.searchFrom b s = none ↔
    ∀ t u, s = t ++ u → r.run (b && t.isEmpty) u = [] := by
  induction s generalizing b with
  | nil =>
    unfold searchFrom
    constructor
    · intro h t u htu
      obtain ⟨rfl, rfl⟩ := List.append_eq_nil_iff.mp htu.symm
      rw [List.isEmpty_nil, Bool.and_true]
      cases hrun : r.run b [] with
      | nil => rfl
      | cons o os => simp [hrun] at h
    · intro h
      have hrun := h [] [] rfl
      rw [List.isEmpty_nil, Bool.and_true] at hrun
      simp [hrun]
  | cons x s ih =>
    unfold searchFrom
    cases hrun : r.run b (x :: s) with
    | cons o os =>
      refine ⟨fun h => absurd h (by simp), fun h => ?_⟩
      have hnil := h [] (x :: s) rfl
      rw [List.isEmpty_nil, Bool.and_true, hrun] at hnil
      exact absurd hnil (List.cons_ne_nil _ _)
    | nil =>
      simp only [List.head?_nil, Option.map_eq_none_iff]
      rw [ih]
      constructor
      · intro h t u htu
        cases t with
        | nil =>
          obtain rfl : x :: s = u := htu
          rw [List.isEmpty_nil, Bool.and_true, hrun]
        | cons y t =>
          obtain ⟨rfl, hrest⟩ := List.cons.inj htu
          have hlater := h t u hrest
          rw [List.isEmpty_cons, Bool.and_false]
          rwa [Bool.false_and] at hlater
      · intro h t u htu
        have hlater := h (x :: t) u (by rw [htu]; rfl)
        rwa [List.isEmpty_cons, Bool.and_false] at hlater

/-- **The leftmost match.** -/
theorem searchFrom_eq_some {m : Found α} (h : r.searchFrom b s = some m) :
    ∃ u, s = m.before ++ u ∧ (r.run (b && m.before.isEmpty) u).head? = some m.toOutcome ∧
      ∀ t v, s = t ++ v → t.length < m.before.length → r.run (b && t.isEmpty) v = [] := by
  induction s generalizing b m with
  | nil =>
    unfold searchFrom at h
    cases hrun : (r.run b []).head? with
    | none => simp [hrun] at h
    | some o =>
      rw [hrun] at h
      obtain rfl := Option.some.inj h
      refine ⟨[], rfl, ?_, fun t v _ hlt => absurd hlt (Nat.not_lt_zero _)⟩
      rw [List.isEmpty_nil, Bool.and_true]
      exact hrun
  | cons x s ih =>
    unfold searchFrom at h
    cases hrun : (r.run b (x :: s)).head? with
    | some o =>
      rw [hrun] at h
      obtain rfl := Option.some.inj h
      refine ⟨x :: s, rfl, ?_, fun t v _ hlt => absurd hlt (Nat.not_lt_zero _)⟩
      rw [List.isEmpty_nil, Bool.and_true]
      exact hrun
    | none =>
      rw [hrun] at h
      obtain ⟨m', hm', rfl⟩ := Option.map_eq_some_iff.mp h
      obtain ⟨u, rfl, hhead, hearlier⟩ := ih hm'
      refine ⟨u, rfl, ?_, ?_⟩
      · rwa [List.isEmpty_cons, Bool.and_false]
      · intro t v htv hlt
        cases t with
        | nil =>
          obtain rfl : x :: (m'.before ++ u) = v := htv
          rw [List.isEmpty_nil, Bool.and_true]
          exact List.head?_eq_none_iff.mp hrun
        | cons y t =>
          obtain ⟨rfl, hrest⟩ := List.cons.inj htv
          have hnil := hearlier t v hrest (Nat.lt_of_succ_lt_succ hlt)
          rw [List.isEmpty_cons, Bool.and_false]
          rwa [Bool.false_and] at hnil

/-- No match. -/
theorem search_eq_none_iff :
    r.search s = none ↔ ∀ t u, s = t ++ u → r.run t.isEmpty u = [] := by
  unfold search
  rw [searchFrom_eq_none_iff]
  simp only [Bool.true_and]

/-- The first match. -/
theorem search_eq_some {m : Found α} (h : r.search s = some m) :
    ∃ u, s = m.before ++ u ∧ (r.run m.before.isEmpty u).head? = some m.toOutcome ∧
      ∀ t v, s = t ++ v → t.length < m.before.length → r.run t.isEmpty v = [] := by
  have hsome := searchFrom_eq_some h
  simpa only [Bool.true_and] using hsome

/-- A text around its first match. -/
theorem append_of_search {m : Found α} (h : r.search s = some m) :
    m.before ++ (m.taken ++ m.rest) = s := by
  obtain ⟨u, rfl, hhead, -⟩ := search_eq_some h
  rw [taken_append_rest r (List.mem_of_mem_head? hhead)]

/-- There is a match. -/
theorem test_iff : r.test s = true ↔ ∃ t u o, s = t ++ u ∧ o ∈ r.run t.isEmpty u := by
  unfold test
  rw [← Option.not_isNone, Bool.not_eq_true', ← Bool.not_eq_true, Option.isNone_iff_eq_none,
    search_eq_none_iff]
  push Not
  constructor
  · rintro ⟨t, u, rfl, hne⟩
    obtain ⟨o, ho⟩ := List.exists_mem_of_ne_nil _ hne
    exact ⟨t, u, o, rfl, ho⟩
  · rintro ⟨t, u, o, rfl, ho⟩
    exact ⟨t, u, rfl, List.ne_nil_of_mem ho⟩

/-- There is none. -/
theorem test_eq_false_iff : r.test s = false ↔ ∀ t u, s = t ++ u → r.run t.isEmpty u = [] := by
  unfold test
  rw [← search_eq_none_iff, ← Option.not_isSome_iff_eq_none, Bool.not_eq_true]

/-! ## Replacing -/

section

variable {f : Outcome α → List α}

/-- Without a match nothing is replaced. -/
theorem replace_of_test (h : r.test s = false) : r.replace f s = s := by
  unfold test at h
  unfold replace
  rw [Option.isSome_eq_false_iff, Option.isNone_iff_eq_none] at h
  rw [h]
  rfl

/-- The first match replaced. -/
theorem replace_of_search {m : Found α} (h : r.search s = some m) :
    r.replace f s = m.before ++ f m.toOutcome ++ m.rest := by
  unfold replace
  rw [h]
  rfl

/-- Enough is enough. -/
theorem replaceFrom_eq {n n' : ℕ} (hn : s.length < n) (hn' : s.length < n') :
    r.replaceFrom f n b s = r.replaceFrom f n' b s := by
  induction n generalizing n' b s with
  | zero => exact absurd hn (Nat.not_lt_zero _)
  | succ n ih =>
    obtain ⟨n', rfl⟩ := Nat.exists_eq_succ_of_ne_zero (Nat.ne_zero_of_lt hn')
    unfold replaceFrom
    cases hrun : (r.run b s).head? with
    | none =>
      cases s with
      | nil => rfl
      | cons x s => exact congrArg (x :: ·) (ih (Nat.lt_of_succ_lt_succ hn) (Nat.lt_of_succ_lt_succ hn'))
    | some o =>
      dsimp only
      split_ifs with hempty
      · cases s with
        | nil => rfl
        | cons x s =>
          exact congrArg (f o ++ x :: ·)
            (ih (Nat.lt_of_succ_lt_succ hn) (Nat.lt_of_succ_lt_succ hn'))
      · have hparts := congrArg List.length (taken_append_rest r (List.mem_of_mem_head? hrun))
        have hpos := List.length_pos_iff.mpr (fun h0 => hempty (List.isEmpty_iff.mpr h0))
        rw [List.length_append] at hparts
        exact congrArg (f o ++ ·) (ih (by omega) (by omega))

/-- The matches replaced, from a place on. -/
def replaceRest (r : Pattern α) (f : Outcome α → List α) (b : Bool) (s : List α) : List α :=
  r.replaceFrom f (s.length + 1) b s

theorem replaceAll_eq : r.replaceAll f s = r.replaceRest f true s := rfl

/-- A symbol where no match starts. -/
theorem replaceRest_cons (h : r.run b (x :: s) = []) :
    r.replaceRest f b (x :: s) = x :: r.replaceRest f false s := by
  unfold replaceRest
  conv_lhs => unfold replaceFrom
  rw [h]
  rfl

/-- The end. -/
theorem replaceRest_nil (h : r.run b [] = []) : r.replaceRest f b [] = [] := by
  unfold replaceRest replaceFrom
  rw [h]
  rfl

/-- A match. -/
theorem replaceRest_of_head (h : (r.run b s).head? = some o) (hne : o.taken ≠ []) :
    r.replaceRest f b s = f o ++ r.replaceRest f false o.rest := by
  have hparts := congrArg List.length (taken_append_rest r (List.mem_of_mem_head? h))
  have hpos := List.length_pos_iff.mpr hne
  rw [List.length_append] at hparts
  unfold replaceRest
  conv_lhs => unfold replaceFrom
  rw [h]
  dsimp only
  rw [if_neg (by simpa using hne)]
  exact congrArg (f o ++ ·) (replaceFrom_eq (by omega) (by omega))

/-- Without a match nothing is replaced. -/
theorem replaceRest_of_forall (h : ∀ t u, s = t ++ u → r.run (b && t.isEmpty) u = []) :
    r.replaceRest f b s = s := by
  induction s generalizing b with
  | nil =>
    have hrun := h [] [] rfl
    rw [List.isEmpty_nil, Bool.and_true] at hrun
    exact replaceRest_nil hrun
  | cons x s ih =>
    have hrun := h [] (x :: s) rfl
    rw [List.isEmpty_nil, Bool.and_true] at hrun
    rw [replaceRest_cons hrun, ih]
    intro t u htu
    have hlater := h (x :: t) u (by rw [htu]; rfl)
    rwa [List.isEmpty_cons, Bool.and_false] at hlater

/-- **Induction along a replacement**: a symbol is kept, or a match at the front is replaced. -/
theorem replaceRest_induction {R : List α → List α → Prop} (hnil : R [] [])
    (hcons : ∀ x s t, R s t → R (x :: s) (x :: t))
    (hmatch : ∀ b s, ∀ o ∈ r.run b s, o.taken ≠ [] ∧
      ∀ t, R o.rest t → R (o.taken ++ o.rest) (f o ++ t)) (b : Bool) (s : List α) :
    R s (r.replaceRest f b s) := by
  generalize hn : s.length = n
  induction n using Nat.strong_induction_on generalizing b s with
  | _ n ih =>
    cases hrun : (r.run b s).head? with
    | none =>
      have hnone := List.head?_eq_none_iff.mp hrun
      cases s with
      | nil =>
        rw [replaceRest_nil hnone]
        exact hnil
      | cons x s =>
        rw [List.length_cons] at hn
        rw [replaceRest_cons hnone]
        exact hcons x s _ (ih s.length (by omega) false s rfl)
    | some o =>
      obtain ⟨hne, hR⟩ := hmatch b s o (List.mem_of_mem_head? hrun)
      have hparts := taken_append_rest r (List.mem_of_mem_head? hrun)
      have hlength := congrArg List.length hparts
      have hpos := List.length_pos_iff.mpr hne
      rw [List.length_append] at hlength
      have hrest := hR _ (ih o.rest.length (by omega) false o.rest rfl)
      rwa [hparts, ← replaceRest_of_head hrun hne] at hrest

end

end Pattern

end Regex
