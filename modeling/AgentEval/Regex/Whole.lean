import Mathlib.Data.List.SplitBy
import AgentEval.Regex.Boundary

/-!
# Whole words

A text is cut into its words, which are the longest runs of word symbols, and its other symbols, each
on its own (`tokens`). A pattern between two word boundaries matches whole words only (`Whole`), so
its matches are tokens, and replacing them replaces tokens.

* `matchAll` — every match, from the left.
* **`Whole.matchAll_eq`**: the matches of a pattern of whole words.
* **`Whole.replaceWords_eq`**: what replacing them does.
-/

namespace Regex

variable {α : Type}

/-! ## Every match -/

namespace Pattern

variable {r : Pattern α} {b : Bool} {s : List α} {o : Outcome α} {x : α}

/-- The matches from a place on; the number bounds how many symbols are left. -/
def matchFrom (r : Pattern α) : ℕ → Bool → List α → List (List α)
  | 0, _, _ => []
  | n + 1, b, s =>
    match (r.run b s).head? with
    | some o =>
      if o.taken.isEmpty then
        [] :: match s with
          | [] => []
          | _ :: s => r.matchFrom n false s
      else o.taken :: r.matchFrom n false o.rest
    | none =>
      match s with
      | [] => []
      | _ :: s => r.matchFrom n false s

section

-- the equations are derived here, once, and not by each proof that unfolds
attribute [local simp] matchFrom

end

/-- The matches from a place on. -/
def matchRest (r : Pattern α) (b : Bool) (s : List α) : List (List α) :=
  r.matchFrom (s.length + 1) b s

/-- Every match. -/
def matchAll (r : Pattern α) (s : List α) : List (List α) := r.matchRest true s

/-- Enough is enough. -/
theorem matchFrom_eq {n n' : ℕ} (hn : s.length < n) (hn' : s.length < n') :
    r.matchFrom n b s = r.matchFrom n' b s := by
  induction n generalizing n' b s with
  | zero => exact absurd hn (Nat.not_lt_zero _)
  | succ n ih =>
    obtain ⟨n', rfl⟩ := Nat.exists_eq_succ_of_ne_zero (Nat.ne_zero_of_lt hn')
    unfold matchFrom
    cases hrun : (r.run b s).head? with
    | none =>
      cases s with
      | nil => rfl
      | cons x s => exact ih (Nat.lt_of_succ_lt_succ hn) (Nat.lt_of_succ_lt_succ hn')
    | some o =>
      dsimp only
      split_ifs with hempty
      · cases s with
        | nil => rfl
        | cons x s =>
          exact congrArg ([] :: ·) (ih (Nat.lt_of_succ_lt_succ hn) (Nat.lt_of_succ_lt_succ hn'))
      · have hparts := congrArg List.length (taken_append_rest r (List.mem_of_mem_head? hrun))
        have hpos := List.length_pos_iff.mpr (fun h0 => hempty (List.isEmpty_iff.mpr h0))
        rw [List.length_append] at hparts
        exact congrArg (o.taken :: ·) (ih (by omega) (by omega))

/-- A symbol where no match starts. -/
theorem matchRest_cons (h : r.run b (x :: s) = []) : r.matchRest b (x :: s) = r.matchRest false s := by
  unfold matchRest
  conv_lhs => unfold matchFrom
  rw [h]
  rfl

/-- The end. -/
theorem matchRest_nil (h : r.run b [] = []) : r.matchRest b [] = [] := by
  unfold matchRest matchFrom
  rw [h]
  rfl

/-- A match. -/
theorem matchRest_of_head (h : (r.run b s).head? = some o) (hne : o.taken ≠ []) :
    r.matchRest b s = o.taken :: r.matchRest false o.rest := by
  have hparts := congrArg List.length (taken_append_rest r (List.mem_of_mem_head? h))
  have hpos := List.length_pos_iff.mpr hne
  rw [List.length_append] at hparts
  unfold matchRest
  conv_lhs => unfold matchFrom
  rw [h]
  dsimp only
  rw [if_neg (by simpa using hne)]
  exact congrArg (o.taken :: ·) (matchFrom_eq (by omega) (by omega))

/-- The first outcome of a sequence. -/
theorem head?_run_seq {a c : Pattern α} {o o' : Outcome α} (ha : (a.run b s).head? = some o)
    (hc : (c.run (b && o.taken.isEmpty) o.rest).head? = some o') :
    ((seq a c).run b s).head? = some (o.andThen o') := by
  unfold run
  cases hrun : a.run b s with
  | nil =>
    rw [hrun] at ha
    cases ha
  | cons o₁ os =>
    rw [hrun, List.head?_cons, Option.some.injEq] at ha
    rw [List.flatMap_cons, List.head?_append, List.head?_map, ha, hc]
    rfl

/-- A sequence whose first part fails. -/
theorem run_seq_of_nil {a c : Pattern α} (ha : a.run b s = []) : (seq a c).run b s = [] := by
  unfold run
  rw [ha]
  rfl

/-- A sequence whose first part matches in one way. -/
theorem run_seq_of_eq {a c : Pattern α} (ha : a.run b s = [o]) :
    (seq a c).run b s = (c.run (b && o.taken.isEmpty) o.rest).map o.andThen := by
  rw [run, ha, List.flatMap_singleton]

/-- A sequence whose first part matches nothing. -/
theorem run_seq_of_stay {a c : Pattern α} (ha : a.run b s = [.stay s]) :
    (seq a c).run b s = c.run b s := by
  have hb : (b && (Outcome.stay s).taken.isEmpty) = b := Bool.and_true b
  have hid : (Outcome.stay s).andThen = id := by
    funext o
    unfold Outcome.andThen Outcome.stay
    rw [List.nil_append, List.append_nil]
    rfl
  rw [run_seq_of_eq ha, hb, hid, List.map_id]
  rfl

end Pattern

/-! ## Texts with predecessors -/

section previous

variable {w s : List α} {prev : Option α}

/-- The last symbol of a text, or else of what is before it. -/
def lastOr (prev : Option α) (s : List α) : Option α := s.foldl (fun _ x => some x) prev

/-- A text with predecessors in two parts. -/
theorem withPrevious_append (prev : Option α) (w s : List α) :
    withPrevious prev (w ++ s) = withPrevious prev w ++ withPrevious (lastOr prev w) s := by
  induction w generalizing prev with
  | nil => rfl
  | cons x w ih => exact congrArg ((prev, x) :: ·) (ih (some x))

/-- The text itself. -/
@[simp] theorem map_snd_withPrevious (prev : Option α) (s : List α) :
    (withPrevious prev s).map Prod.snd = s := by
  induction s generalizing prev with
  | nil => rfl
  | cons x s ih => exact congrArg (x :: ·) (ih (some x))

/-- The last symbol of a text is one of it. -/
theorem lastOr_cases (prev : Option α) (hne : w ≠ []) : ∃ x ∈ w, lastOr prev w = some x := by
  induction w generalizing prev with
  | nil => exact absurd rfl hne
  | cons x w ih =>
    cases w with
    | nil => exact ⟨x, List.mem_cons_self .., rfl⟩
    | cons y w =>
      obtain ⟨z, hz, hlast⟩ := ih (some x) (List.cons_ne_nil y w)
      exact ⟨z, List.mem_cons_of_mem _ hz, hlast⟩

end previous

/-! ## Tokens -/

section tokens

variable {word : α → Bool} {w s : List α} {x : α}

/-- A text cut into its words and its other symbols. -/
def tokens (word : α → Bool) (s : List α) : List (List α) := s.splitBy fun x y => word x && word y

/-- The end of a text. -/
@[simp] theorem tokens_nil : tokens word [] = [] := rfl

/-- The tokens make up the text. -/
@[simp] theorem flatten_tokens (s : List α) : (tokens word s).flatten = s := List.flatten_splitBy _ s

/-- A text that starts with a run of the relation that ends with it. -/
theorem tokens_append_of_isChain (hne : w ≠ []) (hw : w.IsChain fun x y => (word x && word y) = true)
    (hs : ∀ x ∈ s.head?, (word (w.getLast hne) && word x) = false) :
    tokens word (w ++ s) = w :: tokens word s := by
  unfold tokens
  rw [List.splitBy_eq_iff, List.flatten_cons, List.flatten_splitBy]
  have hrest := List.nil_notMem_splitBy (fun x y => word x && word y) s
  refine ⟨rfl, ?_, ?_, ?_⟩
  · rw [List.mem_cons, not_or]
    exact ⟨hne.symm, hrest⟩
  · rw [List.forall_mem_cons]
    exact ⟨hw, fun m hm => List.isChain_of_mem_splitBy hm⟩
  · refine List.IsChain.cons (List.isChain_getLast_head_splitBy (fun x y => word x && word y) s) ?_
    intro m hm
    have hsne : s ≠ [] := by
      rintro rfl
      cases hm
    have hmem : m ∈ List.splitBy (fun x y => word x && word y) s := List.mem_of_mem_head? hm
    refine ⟨hne, List.ne_nil_of_mem_splitBy hmem, hs _ ?_⟩
    have hhead := List.head_head_splitBy (fun x y => word x && word y) hsne
    rw [List.head?_eq_some_head hsne, ← hhead]
    congr 1
    rw [List.head?_eq_some_head (List.splitBy_ne_nil.mpr hsne), Option.mem_some_iff] at hm
    subst hm
    rfl

/-- A symbol outside of words. -/
theorem tokens_cons (hx : word x = false) : tokens word (x :: s) = [x] :: tokens word s := by
  refine tokens_append_of_isChain (List.cons_ne_nil x []) (List.isChain_singleton x) ?_
  intro y _
  rw [List.getLast_singleton, hx, Bool.false_and]

/-- A word. -/
theorem tokens_append (hne : w ≠ []) (hw : ∀ x ∈ w, word x = true)
    (hs : ∀ x ∈ s.head?, word x = false) : tokens word (w ++ s) = w :: tokens word s := by
  apply tokens_append_of_isChain hne
  · apply List.Pairwise.isChain
    apply List.pairwise_of_forall_mem_list
    intro x hx y hy
    rw [hw x hx, hw y hy, Bool.and_true]
  · intro x hx
    rw [hs x hx, Bool.and_false]

/-- **Induction along the tokens of a text.** -/
theorem tokens_induction (word : α → Bool) {P : List α → Prop} (hnil : P [])
    (hcons : ∀ x s, word x = false → P s → P (x :: s))
    (happend : ∀ w s, w ≠ [] → (∀ x ∈ w, word x = true) → (∀ x ∈ s.head?, word x = false) →
      P s → P (w ++ s)) (s : List α) : P s := by
  generalize hn : s.length = n
  induction n using Nat.strong_induction_on generalizing s with
  | _ n ih =>
    cases s with
    | nil => exact hnil
    | cons x t =>
      rw [List.length_cons] at hn
      cases hx : word x with
      | false => exact hcons x t hx (ih t.length (by omega) t rfl)
      | true =>
        have htake : (x :: t).takeWhile word = x :: t.takeWhile word := List.takeWhile_cons_of_pos hx
        have hlength : ((x :: t).dropWhile word).length < n := by
          rw [List.dropWhile_cons_of_pos hx, ← hn]
          exact Nat.lt_succ_of_le (List.dropWhile_sublist _).length_le
        have hrest := ih _ hlength ((x :: t).dropWhile word) rfl
        rw [← List.takeWhile_append_dropWhile (p := word) (l := x :: t)]
        refine happend _ _ ?_ (fun y hy => List.mem_takeWhile_imp hy) ?_ hrest
        · rw [htake]
          exact List.cons_ne_nil _ _
        · intro y hy
          have hhead := List.head?_dropWhile_not word (x :: t)
          rw [hy] at hhead
          simpa using hhead

/-- **Tokens that are changed one by one**, words to words. -/
theorem tokens_flatMap {g : List α → List α}
    (hword : ∀ t, t ≠ [] → (∀ x ∈ t, word x = true) → g t ≠ [] ∧ ∀ x ∈ g t, word x = true)
    (hother : ∀ x, word x = false → g [x] = [x]) (s : List α) :
    tokens word ((tokens word s).flatMap g) = (tokens word s).map g := by
  induction s using tokens_induction word with
  | hnil => rfl
  | hcons x s hx ih =>
    rw [tokens_cons hx, List.flatMap_cons, List.map_cons, hother x hx, List.singleton_append,
      tokens_cons hx, ih]
  | happend w s hne hw hs ih =>
    obtain ⟨hne', hw'⟩ := hword w hne hw
    rw [tokens_append hne hw hs, List.flatMap_cons, List.map_cons, tokens_append hne' hw' ?_, ih]
    -- what follows the word starts with the symbol it started with
    cases s with
    | nil =>
      intro x hx
      cases hx
    | cons y s =>
      have hy := hs y rfl
      intro x hx
      rw [tokens_cons hy, List.flatMap_cons, hother y hy, List.singleton_append, List.head?_cons,
        Option.mem_some_iff] at hx
      rw [← hx]
      exact hy

/-- Tokens are not empty. -/
theorem ne_nil_of_mem_tokens {t : List α} (h : t ∈ tokens word s) : t ≠ [] :=
  List.ne_nil_of_mem_splitBy h

end tokens

/-! ## Patterns of whole words -/

/-- A pattern that starts at a word boundary and takes the words with `C` whole. -/
structure Whole (word : α → Bool) (r : Pattern (Option α × α)) (C : List α → Bool) : Prop where
  /-- It starts at a boundary. -/
  opens : ∃ r', r = .seq (.opening word) r'
  /-- At a word it takes the word, or nothing. -/
  head : ∀ b prev w s, prev.elim false word = false → w ≠ [] → (∀ x ∈ w, word x = true) →
    (∀ x ∈ s.head?, word x = false) → (r.run b (withPrevious prev (w ++ s))).head? =
      if C w then some ⟨withPrevious prev w, withPrevious (lastOr prev w) s, []⟩ else none

namespace Whole

variable {word : α → Bool} {r : Pattern (Option α × α)} {C : List α → Bool} {b : Bool}
  {prev : Option α} {w s : List α} {x : α} {f : Outcome (Option α × α) → List (Option α × α)}

/-- A boundary in front of a word. -/
theorem run_opening (h : word x = true) (hprev : prev.elim false word = false) :
    (Pattern.opening word).run b (withPrevious prev (x :: s)) = [.stay (withPrevious prev (x :: s))] := by
  have hset : (word x && !prev.elim false word) = true := by rw [h, hprev]; rfl
  have hrun := @Pattern.run_set_cons_of_pos _ (fun y : Option α × α => word y.2 && !y.1.elim false word) b
    (withPrevious (some x) s) (prev, x) hset
  unfold Pattern.opening withPrevious
  rw [Pattern.run_ahead, hrun]
  rfl

/-- No boundary in front of a word. -/
theorem run_opening_of_not (h : word x = false ∨ prev.elim false word = true) :
    (Pattern.opening word).run b (withPrevious prev (x :: s)) = [] := by
  have hset : (word x && !prev.elim false word) = false := by
    rcases h with h | h
    · rw [h, Bool.false_and]
    · rw [h, Bool.not_true, Bool.and_false]
  have hrun := @Pattern.run_set_cons_of_neg _ (fun y : Option α × α => word y.2 && !y.1.elim false word) b
    (withPrevious (some x) s) (prev, x) hset
  unfold Pattern.opening withPrevious
  rw [Pattern.run_ahead, hrun]
  rfl

/-- It does not match outside of words or inside them. -/
theorem run_eq_nil (hr : Whole word r C) (h : word x = false ∨ prev.elim false word = true) :
    r.run b (withPrevious prev (x :: s)) = [] := by
  obtain ⟨r', rfl⟩ := hr.opens
  exact Pattern.run_seq_of_nil (run_opening_of_not h)

/-- It does not match at the end. -/
theorem run_nil (hr : Whole word r C) : r.run b [] = [] := by
  obtain ⟨r', rfl⟩ := hr.opens
  exact Pattern.run_seq_of_nil rfl

/-- The rest of a word is kept. -/
theorem replaceRest_inside (hr : Whole word r C) (hprev : prev.elim false word = true)
    (hw : ∀ x ∈ w, word x = true) : r.replaceRest f false (withPrevious prev (w ++ s)) =
      withPrevious prev w ++ r.replaceRest f false (withPrevious (lastOr prev w) s) := by
  induction w generalizing prev with
  | nil => rfl
  | cons x w ih =>
    rw [List.forall_mem_cons] at hw
    refine (Pattern.replaceRest_cons (hr.run_eq_nil (.inr hprev))).trans ?_
    exact congrArg ((prev, x) :: ·) (ih hw.1 hw.2)

/-- There is no match in the rest of a word. -/
theorem matchRest_inside (hr : Whole word r C) (hprev : prev.elim false word = true)
    (hw : ∀ x ∈ w, word x = true) : r.matchRest false (withPrevious prev (w ++ s)) =
      r.matchRest false (withPrevious (lastOr prev w) s) := by
  induction w generalizing prev with
  | nil => rfl
  | cons x w ih =>
    rw [List.forall_mem_cons] at hw
    exact (Pattern.matchRest_cons (hr.run_eq_nil (.inr hprev))).trans (ih hw.1 hw.2)

/-- A word is the token it is. -/
theorem all_of_forall (hw : ∀ x ∈ w, word x = true) : w.all word = true := List.all_eq_true.mpr hw

/-- **Replacing the matches replaces tokens.** -/
theorem replaceRest_eq (hr : Whole word r C) (g : List α → List α) (s : List α) :
    ∀ b prev, (∀ x ∈ s.head?, word x = true → prev.elim false word = false) →
      (r.replaceRest (fun o => (g (o.taken.map Prod.snd)).map fun x => (none, x)) b
        (withPrevious prev s)).map Prod.snd =
      (tokens word s).flatMap fun t => if C t && t.all word then g t else t := by
  induction s using tokens_induction word with
  | hnil =>
    intro b prev _
    exact congrArg (List.map Prod.snd) (Pattern.replaceRest_nil hr.run_nil)
  | hcons x s hx ih =>
    intro b prev _
    have hrest := ih false (some x) fun _ _ _ => hx
    rw [tokens_cons hx, List.flatMap_cons, ← hrest]
    have hall : [x].all word = false := by simp [hx]
    rw [hall, Bool.and_false, if_neg Bool.false_ne_true]
    exact congrArg (List.map Prod.snd) (Pattern.replaceRest_cons (hr.run_eq_nil (.inl hx)))
  | happend w s hne hw hs ih =>
    intro b prev hprev
    obtain ⟨x, w', rfl⟩ := List.exists_cons_of_ne_nil hne
    have hword := hw x (List.mem_cons_self ..)
    have hbefore := hprev x rfl hword
    have hhead := hr.head b prev _ s hbefore hne hw hs
    have hrest := ih false (lastOr prev (x :: w')) fun y hy hyw => by
      rw [hs y hy] at hyw
      cases hyw
    rw [tokens_append hne hw hs, List.flatMap_cons, ← hrest, all_of_forall hw, Bool.and_true]
    cases hC : C (x :: w') with
    | true =>
      rw [hC, if_pos rfl] at hhead
      rw [Pattern.replaceRest_of_head hhead (List.cons_ne_nil _ _), if_pos rfl, List.map_append,
        map_snd_withPrevious, List.map_map]
      exact congrArg (· ++ _) (List.map_id (g (x :: w')))
    | false =>
      -- the word is kept symbol by symbol
      rw [hC, if_neg Bool.false_ne_true] at hhead
      have hnone := List.head?_eq_none_iff.mp hhead
      rw [if_neg Bool.false_ne_true]
      have hinside := @replaceRest_inside _ _ _ _ (some x) w' s
        (fun o => (g (o.taken.map Prod.snd)).map fun x => (none, x)) hr hword
        fun y hy => hw y (List.mem_cons_of_mem _ hy)
      have hkept := (Pattern.replaceRest_cons hnone).trans (congrArg ((prev, x) :: ·) hinside)
      refine (congrArg (List.map Prod.snd) hkept).trans ?_
      rw [List.map_cons, List.map_append, map_snd_withPrevious]
      rfl

/-- **What replacing whole words does to a text.** -/
theorem replaceWords_eq (hr : Whole word r C) (g : List α → List α) (s : List α) :
    r.replaceWords g s =
      (tokens word s).flatMap fun t => if C t && t.all word then g t else t :=
  hr.replaceRest_eq g s true none fun _ _ _ => rfl

/-- The matches from a place on are tokens. -/
theorem matchRest_eq (hr : Whole word r C) (s : List α) :
    ∀ b prev, (∀ x ∈ s.head?, word x = true → prev.elim false word = false) →
      (r.matchRest b (withPrevious prev s)).map (List.map Prod.snd) =
        (tokens word s).filter fun t => C t && t.all word := by
  induction s using tokens_induction word with
  | hnil =>
    intro b prev _
    exact congrArg (List.map (List.map Prod.snd)) (Pattern.matchRest_nil hr.run_nil)
  | hcons x s hx ih =>
    intro b prev _
    have hrest := ih false (some x) fun _ _ _ => hx
    have hall : [x].all word = false := by simp [hx]
    rw [tokens_cons hx, List.filter_cons, hall, Bool.and_false, if_neg Bool.false_ne_true, ← hrest]
    exact congrArg (List.map (List.map Prod.snd)) (Pattern.matchRest_cons (hr.run_eq_nil (.inl hx)))
  | happend w s hne hw hs ih =>
    intro b prev hprev
    obtain ⟨x, w', rfl⟩ := List.exists_cons_of_ne_nil hne
    have hword := hw x (List.mem_cons_self ..)
    have hbefore := hprev x rfl hword
    have hhead := hr.head b prev _ s hbefore hne hw hs
    have hrest := ih false (lastOr prev (x :: w')) fun y hy hyw => by
      rw [hs y hy] at hyw
      cases hyw
    rw [tokens_append hne hw hs, List.filter_cons, ← hrest, all_of_forall hw, Bool.and_true]
    cases hC : C (x :: w') with
    | true =>
      rw [hC, if_pos rfl] at hhead
      rw [Pattern.matchRest_of_head hhead (List.cons_ne_nil _ _), if_pos rfl, List.map_cons,
        map_snd_withPrevious]
    | false =>
      rw [hC, if_neg Bool.false_ne_true] at hhead
      have hnone := List.head?_eq_none_iff.mp hhead
      rw [if_neg Bool.false_ne_true]
      refine (congrArg (List.map (List.map Prod.snd)) (Pattern.matchRest_cons hnone)).trans ?_
      exact congrArg (List.map (List.map Prod.snd)) (@matchRest_inside _ _ _ _ (some x) w' s hr hword
        fun y hy => hw y (List.mem_cons_of_mem _ hy))

/-- **The matches are the words with `C`.** -/
theorem matchAll_eq (hr : Whole word r C) (s : List α) :
    (r.matchAll (withPrevious none s)).map (List.map Prod.snd) =
      (tokens word s).filter fun t => C t && t.all word :=
  hr.matchRest_eq s true none fun _ _ _ => rfl

end Whole

/-! ## A word, and an identifier -/

namespace Pattern

variable {word : α → Bool} {b : Bool} {prev : Option α} {w s : List α} {x : α}

/-- One symbol. -/
theorem run_symbol_cons (p : α → Bool) : (symbol p).run b (withPrevious prev (x :: s)) =
    if p x then [⟨[(prev, x)], withPrevious (some x) s, []⟩] else [] := rfl

/-- A boundary after a word, where no word symbol follows. -/
theorem run_closing (h : ∀ x ∈ s.head?, word x = false) :
    (closing word).run b (withPrevious prev s) = [.stay (withPrevious prev s)] := by
  unfold closing
  rw [run_notAhead]
  cases s with
  | nil => rfl
  | cons x s =>
    rw [run_symbol_cons, h x rfl]
    rfl

/-- No boundary inside a word. -/
theorem run_closing_of_word (h : word x = true) :
    (closing word).run b (withPrevious prev (x :: s)) = [] := by
  unfold closing
  rw [run_notAhead, run_symbol_cons, h]
  rfl

section

variable [BEq α] [LawfulBEq α]

/-- A text that is there. -/
theorem run_text_append (w s : List α) : (text (· == ·) w).run b (withPrevious prev (w ++ s)) =
    [⟨withPrevious prev w, withPrevious (lastOr prev w) s, []⟩] := by
  induction w generalizing b prev with
  | nil => rfl
  | cons x w ih =>
    change ((symbol (x == ·)).run b (withPrevious prev (x :: (w ++ s)))).flatMap _ = _
    rw [run_symbol_cons, BEq.rfl, if_pos rfl, List.flatMap_singleton]
    have hrest := @ih (b && ([(prev, x)] : List (Option α × α)).isEmpty) (some x)
    exact (congrArg (List.map _) hrest).trans rfl

/-- A text that is not there. -/
theorem run_text_of_not (h : ¬ w <+: s) : (text (· == ·) w).run b (withPrevious prev s) = [] := by
  induction w generalizing b prev s with
  | nil => exact absurd List.nil_prefix h
  | cons x w ih =>
    change ((symbol (x == ·)).run b (withPrevious prev s)).flatMap _ = _
    cases s with
    | nil => rfl
    | cons y s =>
      rw [run_symbol_cons]
      split_ifs with heq
      · rw [List.flatMap_singleton]
        have hxy : x = y := LawfulBEq.eq_of_beq heq
        rw [hxy, List.prefix_cons_inj] at h
        have hrest := @ih (b && ([(prev, y)] : List (Option α × α)).isEmpty) (some y) s h
        exact (congrArg (List.map _) hrest).trans rfl
      · rfl

/-- A word between two boundaries. -/
def wholeWord (word : α → Bool) (w : List α) : Pattern (Option α × α) :=
  .seq (.opening word) (.seq (.text (· == ·) w) (.closing word))

/-- **A word between two boundaries is matched where it is a token.** -/
theorem whole_wholeWord [DecidableEq α] (hne : w ≠ []) (hw : ∀ x ∈ w, word x = true) :
    Whole word (wholeWord word w) fun t => decide (t = w) := by
  refine ⟨⟨_, rfl⟩, ?_⟩
  intro b prev t s hprev htne ht hs
  have hopen : (opening word).run b (withPrevious prev (t ++ s)) =
      [.stay (withPrevious prev (t ++ s))] := by
    obtain ⟨x, t', rfl⟩ := List.exists_cons_of_ne_nil htne
    exact Whole.run_opening (ht x (List.mem_cons_self ..)) hprev
  unfold wholeWord
  rw [run_seq_of_stay hopen]
  by_cases heq : t = w
  · subst heq
    rw [decide_eq_true rfl, if_pos rfl, run_seq_of_eq (run_text_append t s), run_closing hs]
    simp [Outcome.andThen, Outcome.stay]
  · rw [decide_eq_false heq, if_neg Bool.false_ne_true]
    by_cases hprefix : w <+: t ++ s
    · -- the word goes on behind the text, so no boundary is there
      obtain ⟨s', hs'⟩ := hprefix
      obtain ⟨t', rfl⟩ : w <+: t := by
        rcases List.append_eq_append_iff.mp hs' with ⟨a, ha, -⟩ | ⟨a, ha, hrest⟩
        · exact ⟨a, ha.symm⟩
        · cases a with
          | nil => exact ⟨[], by rw [ha, List.append_nil, List.append_nil]⟩
          | cons y a =>
            have hy := hs y (by rw [hrest]; rfl)
            rw [hw y (by rw [ha]; simp)] at hy
            cases hy
      cases t' with
      | nil => exact absurd (List.append_nil w) heq
      | cons y t' =>
        rw [List.append_assoc, run_seq_of_eq (run_text_append w _), List.cons_append,
          run_closing_of_word (ht y (by simp))]
        rfl
    · rw [run_seq_of_nil (run_text_of_not hprefix)]
      rfl

end

/-- The word symbols in front, with their predecessors. -/
theorem takeWhile_withPrevious (hw : ∀ x ∈ w, word x = true) (hs : ∀ x ∈ s.head?, word x = false) :
    (withPrevious prev (w ++ s)).takeWhile (fun x => word x.2) = withPrevious prev w := by
  induction w generalizing prev with
  | nil =>
    cases s with
    | nil => rfl
    | cons x s => exact List.takeWhile_cons_of_neg (by simp [hs x rfl])
  | cons x w ih =>
    rw [List.forall_mem_cons] at hw
    change ((prev, x) :: withPrevious (some x) (w ++ s)).takeWhile _ = _
    rw [List.takeWhile_cons, if_pos hw.1, ih hw.2]
    rfl

/-- A run of word symbols that is long enough is taken whole first. -/
theorem head?_run_atLeast {n : ℕ} (hn : n ≤ w.length) (hw : ∀ x ∈ w, word x = true)
    (hs : ∀ x ∈ s.head?, word x = false) :
    (((symbol word).atLeast n).run b (withPrevious prev (w ++ s))).head? =
      some ⟨withPrevious prev w, withPrevious (lastOr prev w) s, []⟩ := by
  induction n generalizing w b prev with
  | zero =>
    unfold atLeast symbol
    rw [run_star_set, List.head?_reverse, takeWhile_withPrevious hw hs, withPrevious_append]
    unfold prefixes
    rw [List.getLast?_map, List.getLast?_range, if_neg (Nat.succ_ne_zero _), Option.map_some]
    unfold splitAt
    rw [Nat.succ_sub_one, List.take_left, List.drop_left]
  | succ n ih =>
    cases w with
    | nil => exact absurd hn (Nat.not_succ_le_zero n)
    | cons x w =>
      rw [List.forall_mem_cons] at hw
      have hfirst : (symbol word).run b (withPrevious prev (x :: w ++ s)) =
          [⟨[(prev, x)], withPrevious (some x) (w ++ s), []⟩] :=
        (run_symbol_cons word).trans (if_pos hw.1)
      have hrest := @ih (b && ([(prev, x)] : List (Option α × α)).isEmpty) (some x) w
        (Nat.le_of_succ_le_succ hn) hw.2
      unfold atLeast
      rw [run_seq_of_eq hfirst, List.head?_map]
      exact (congrArg (Option.map _) hrest).trans rfl

/-- A run that is too short does not match. -/
theorem run_atLeast_of_lt {n : ℕ} (hn : w.length < n) (hw : ∀ x ∈ w, word x = true)
    (hs : ∀ x ∈ s.head?, word x = false) :
    ((symbol word).atLeast n).run b (withPrevious prev (w ++ s)) = [] := by
  induction n generalizing w b prev with
  | zero => exact absurd hn (Nat.not_lt_zero _)
  | succ n ih =>
    unfold atLeast
    cases w with
    | nil =>
      refine run_seq_of_nil ?_
      cases s with
      | nil => rfl
      | cons x s => exact (run_symbol_cons word).trans (if_neg (by simp [hs x rfl]))
    | cons x w =>
      rw [List.forall_mem_cons] at hw
      have hfirst : (symbol word).run b (withPrevious prev (x :: w ++ s)) =
          [⟨[(prev, x)], withPrevious (some x) (w ++ s), []⟩] :=
        (run_symbol_cons word).trans (if_pos hw.1)
      have hrest := @ih (b && ([(prev, x)] : List (Option α × α)).isEmpty) (some x) w
        (Nat.lt_of_succ_lt_succ hn) hw.2
      rw [run_seq_of_eq hfirst]
      exact (congrArg (List.map _) hrest).trans rfl

/-- A first symbol and a number of word symbols or more, between two boundaries. -/
def identifier (word first : α → Bool) (n : ℕ) : Pattern (Option α × α) :=
  .seq (.opening word) (.seq (.symbol first) (.seq ((symbol word).atLeast n) (.closing word)))

/-- **An identifier between two boundaries is a token of a length.** -/
theorem whole_identifier (word first : α → Bool) (n : ℕ) :
    Whole word (identifier word first n) fun t => t.head?.elim false first && decide (n < t.length) := by
  refine ⟨⟨_, rfl⟩, ?_⟩
  intro b prev t s hprev htne ht hs
  obtain ⟨x, t, rfl⟩ := List.exists_cons_of_ne_nil htne
  rw [List.forall_mem_cons] at ht
  have hopen : (opening word).run b (withPrevious prev (x :: t ++ s)) =
      [.stay (withPrevious prev (x :: t ++ s))] := Whole.run_opening ht.1 hprev
  unfold identifier
  rw [run_seq_of_stay hopen]
  cases hx : first x with
  | false =>
    have hfirst : (symbol first).run b (withPrevious prev (x :: t ++ s)) = [] :=
      (run_symbol_cons first).trans (if_neg (by simp [hx]))
    rw [run_seq_of_nil hfirst]
    simp [hx]
  | true =>
    have hfirst : (symbol first).run b (withPrevious prev (x :: t ++ s)) =
        [⟨[(prev, x)], withPrevious (some x) (t ++ s), []⟩] :=
      (run_symbol_cons first).trans (if_pos hx)
    rw [run_seq_of_eq hfirst, List.head?_map, List.head?_cons, Option.elim_some, hx, Bool.true_and]
    dsimp only
    by_cases hn : n ≤ t.length
    · have hclose : ∀ b', ((closing word).run b' (withPrevious (lastOr (some x) t) s)).head? =
          some (.stay (withPrevious (lastOr (some x) t) s)) := fun b' =>
        congrArg List.head? (run_closing hs)
      rw [head?_run_seq (head?_run_atLeast hn ht.2 hs) (hclose _), List.length_cons,
        decide_eq_true (Nat.lt_succ_of_le hn), if_pos rfl]
      simp [Outcome.andThen, Outcome.stay, withPrevious, lastOr]
    · rw [run_seq_of_nil (run_atLeast_of_lt (not_le.mp hn) ht.2 hs), List.length_cons,
        decide_eq_false fun h => hn (Nat.le_of_lt_succ h)]
      simp

end Pattern

end Regex
