import AgentEval.Words.Lines
import Mathlib.Data.List.Forall2
import Mathlib.Data.Set.Insert

/-!
# Fields with a mark between each two

A text is made of fields, with a mark of a family of its own after each but the last. A field may
have a mark in it, and then the text reads in another way too.

* `weave` — the text of fields and marks; `Marked.Follow` — the marks are of their families.
* `Marks` — a family whose marks do not overlap; `framed`: the words of a kind between two fixed
  ones.
* **`told_iff`**: a text reads in one way exactly when no field has a mark of the family before it or
  of the family after it.
* **`tail_suffix`**: in another reading of it, the same number of marks ends no earlier.
-/

namespace Marked

variable {α : Type}

/-- The first field, and each mark with the field after it. -/
def weave : List α → List (List α × List α) → List α
  | f, [] => f
  | f, (s, g) :: rest => f ++ (s ++ weave g rest)

/-- A family of marks: none is empty, and a mark that starts in a mark is that mark. -/
structure Marks (S : Set (List α)) : Prop where
  /-- None is empty. -/
  ne_nil : ∀ s ∈ S, s ≠ []
  /-- No two overlap. -/
  apart : ∀ s ∈ S, ∀ t ∈ S, ∀ a b e : List α, s ++ b = a ++ (t ++ e) → a.length < s.length →
    a = [] ∧ s = t

/-- The marks are of their families. -/
def Follow (fams : List (Set (List α))) (rest : List (List α × List α)) : Prop :=
  List.Forall₂ (fun S p => p.1 ∈ S) fams rest

/-- No mark of the family is in the field. -/
def Free (S : Set (List α)) (f : List α) : Prop := ∀ s ∈ S, ¬ s <:+: f

/-- No field has a mark of the family before it or of the family after it. -/
def Unmistaken : List (Set (List α)) → List α → List (List α × List α) → Prop
  | S :: fams, f, (_, g) :: rest => Free S f ∧ Free S g ∧ Unmistaken fams g rest
  | _, _, _ => True

/-- The last field. -/
def lastField : List α → List (List α × List α) → List α
  | f, [] => f
  | _, (_, g) :: rest => lastField g rest

/-! ## Families -/

/-- Two families that follow. -/
theorem follow_cons {S : Set (List α)} {fams : List (Set (List α))} {p : List α × List α}
    {rest : List (List α × List α)} : Follow (S :: fams) (p :: rest) ↔ p.1 ∈ S ∧ Follow fams rest :=
  List.forall₂_cons

/-- After the first mark come the others. -/
theorem Follow.exists_eq_cons {S : Set (List α)} {fams : List (Set (List α))}
    {rest : List (List α × List α)} (h : Follow (S :: fams) rest) :
    ∃ s g tail, rest = (s, g) :: tail ∧ s ∈ S ∧ Follow fams tail := by
  obtain ⟨⟨s, g⟩, tail, hs, htail, rfl⟩ := List.forall₂_cons_left_iff.mp h
  exact ⟨s, g, tail, rfl, hs, htail⟩

/-- No family, no mark. -/
theorem follow_nil {rest : List (List α × List α)} : Follow [] rest ↔ rest = [] := by
  unfold Follow
  rw [List.forall₂_nil_left_iff]

/-- Only the marks have families. -/
theorem Follow.congr {fams : List (Set (List α))} {rest other : List (List α × List α)}
    (hrest : Follow fams rest) (h : other.map Prod.fst = rest.map Prod.fst) : Follow fams other := by
  unfold Follow at *
  have hmap := (List.forall₂_map_right_iff (R := fun (S : Set (List α)) s => s ∈ S)
    (f := Prod.fst)).mpr hrest
  rw [← h] at hmap
  exact List.forall₂_map_right_iff.mp hmap

section

variable {x y : α} {p q : List α} {S : Set (List α)}

/-- A symbol early enough is in the front part. -/
theorem mem_of_length_lt {r a b d : List α} (h : r ++ b = a ++ x :: d) (ha : a.length < r.length) :
    x ∈ r := by
  have hget := congrArg (fun l => l[a.length]?) h
  simp only [List.getElem?_append_left ha, List.getElem?_append_right (Nat.le_refl _),
    Nat.sub_self, List.getElem?_cons_zero] at hget
  exact List.mem_of_getElem? hget

/-- **Marks that have a symbol in front**, and nowhere else. -/
theorem marks_of_start (hstart : ∀ s ∈ S, ∃ r, s = x :: r ∧ x ∉ r)
    (hend : ∀ s ∈ S, ∀ t ∈ S, ∀ b e : List α, s ++ b = t ++ e → s = t) : Marks S := by
  constructor
  · intro s hs
    obtain ⟨r, rfl, -⟩ := hstart s hs
    exact List.cons_ne_nil _ _
  · intro s hs t ht a b e h hlength
    cases a with
    | nil => exact ⟨rfl, hend s hs t ht b e h⟩
    | cons z a =>
      obtain ⟨r, rfl, hr⟩ := hstart s hs
      obtain ⟨u, rfl, -⟩ := hstart t ht
      rw [List.cons_append, List.cons_append, List.cons.injEq] at h
      exact absurd (mem_of_length_lt h.2 (Nat.lt_of_succ_lt_succ hlength)) hr

/-- One mark alone, with its first symbol nowhere else. -/
theorem marks_singleton (hp : x ∉ p) : Marks {x :: p} := by
  apply marks_of_start (x := x)
  · rintro s rfl
    exact ⟨p, rfl, hp⟩
  · rintro s rfl t rfl b e -
    rfl

/-- A word between `x :: p` and `y :: q`. -/
def frame (x y : α) (p q word : List α) : List α := x :: (p ++ (word ++ y :: q))

/-- It is told by the word. -/
@[simp] theorem frame_inj {w v : List α} : frame x y p q w = frame x y p q v ↔ w = v := by
  unfold frame
  rw [List.cons.injEq, List.append_cancel_left_eq, List.append_cancel_right_eq]
  exact and_iff_right rfl

/-- The words of a kind, between those. -/
def framed {ι : Type} (x y : α) (p q : List α) (word : ι → List α) : Set (List α) :=
  Set.range fun i => frame x y p q (word i)

variable {ι : Type} {word : ι → List α}

/-- The word is told by its end. -/
theorem frame_end (hy : ∀ i, y ∉ word i) : ∀ s ∈ framed x y p q word, ∀ t ∈ framed x y p q word,
    ∀ b e : List α, s ++ b = t ++ e → s = t := by
  rintro s ⟨i, rfl⟩ t ⟨j, rfl⟩ b e h
  simp only [frame, List.cons_append, List.append_assoc, List.cons.injEq, true_and,
    List.append_cancel_left_eq] at h
  have hword := (Lines.eq_of_front (hy i) (hy j) h).1
  simp only [hword]

/-- **Words between two fixed ones**, the first with a symbol that is nowhere else. -/
theorem marks_framed (hxy : x ≠ y) (hp : x ∉ p) (hq : x ∉ q) (hx : ∀ i, x ∉ word i)
    (hy : ∀ i, y ∉ word i) : Marks (framed x y p q word) := by
  apply marks_of_start (x := x)
  · rintro s ⟨i, rfl⟩
    refine ⟨_, rfl, ?_⟩
    simp only [List.mem_append, List.mem_cons, not_or]
    exact ⟨hp, hx i, hxy, hq⟩
  · exact frame_end hy

/-- **Words between two fixed ones** with the same symbol in front, that go on differently. -/
theorem marks_framed_twice (hpq : ∀ a b, q ++ a ≠ p ++ b) (hp : x ∉ p) (hq : x ∉ q)
    (hx : ∀ i, x ∉ word i) : Marks (framed x x p q word) := by
  constructor
  · rintro s ⟨i, rfl⟩
    exact List.cons_ne_nil _ _
  · intro s hs t ht a b e h hlength
    cases a with
    | nil => exact ⟨rfl, frame_end hx s hs t ht b e h⟩
    | cons z a =>
      exfalso
      obtain ⟨i, rfl⟩ := hs
      obtain ⟨j, rfl⟩ := ht
      have hfront : x ∉ p ++ word i := by
        rw [List.mem_append, not_or]
        exact ⟨hp, hx i⟩
      simp only [frame, List.cons_append, List.append_assoc, List.cons.injEq] at h
      obtain ⟨-, h⟩ := h
      rw [← List.append_assoc p (word i)] at h
      by_cases ha : x ∈ a
      · obtain ⟨c, d, rfl, hc⟩ := List.eq_append_cons_of_mem ha
        rw [List.append_assoc c, List.cons_append] at h
        obtain ⟨rfl, hrest⟩ := Lines.eq_of_front hfront hc h
        apply hq
        apply mem_of_length_lt hrest
        simp only [frame, List.length_append, List.length_cons] at hlength
        omega
      · exact hpq _ _ (Lines.eq_of_front hfront ha h).2

end

/-! ## One reading -/

section

variable {S : Set (List α)} {fams : List (Set (List α))} {f g s t u v w : List α}
  {rest other : List (List α × List α)}

/-- What is put in front of the text is put in front of its first field. -/
theorem weave_append (a f : List α) (rest : List (List α × List α)) :
    weave (a ++ f) rest = a ++ weave f rest := by
  cases rest with
  | nil => rfl
  | cons p rest =>
    unfold weave
    rw [List.append_assoc]

/-- A mark does not start in a field without marks. -/
theorem exists_eq_append_of_free (hS : Marks S) (hs : s ∈ S) (ht : t ∈ S) (hf : Free S f)
    (h : f ++ (s ++ u) = v ++ (t ++ w)) : ∃ c, v = f ++ c ∧ s ++ u = c ++ (t ++ w) := by
  rcases List.append_eq_append_iff.mp h with ⟨c, hv, hc⟩ | ⟨c, rfl, hc⟩
  · exact ⟨c, hv, hc⟩
  · by_cases hlength : c.length < t.length
    · obtain ⟨rfl, -⟩ := hS.apart t ht s hs c w u hc hlength
      refine ⟨[], ?_, ?_⟩
      · rw [List.append_nil, List.append_nil]
      · exact hc.symm
    · exfalso
      apply hf t ht
      obtain ⟨d, rfl⟩ : t <+: c := by
        refine List.prefix_of_prefix_length_le (List.prefix_append t w) ?_ (not_lt.mp hlength)
        rw [hc]
        exact List.prefix_append c _
      exact ⟨v, d, by rw [List.append_assoc]⟩

/-- A mark that does not start with a mark starts after it. -/
theorem exists_eq_append_of_mark (hS : Marks S) (hs : s ∈ S) (ht : t ∈ S) (hv : v ≠ [])
    (h : s ++ u = v ++ (t ++ w)) : ∃ c, v = s ++ c ∧ u = c ++ (t ++ w) := by
  have hlength : ¬ v.length < s.length := fun hlt => hv (hS.apart s hs t ht v u w h hlt).1
  rcases List.append_eq_append_iff.mp h with ⟨c, hc, hu⟩ | ⟨c, hc, -⟩
  · exact ⟨c, hc, hu⟩
  · rw [hc, List.length_append] at hlength
    have hnil : c = [] := List.eq_nil_of_length_eq_zero (by omega)
    rw [hnil, List.append_nil] at hc
    rw [hc, List.append_cancel_left_eq] at h
    exact ⟨[], by rw [List.append_nil, hc], h⟩

/-- A mark ends after a field without marks. -/
theorem exists_eq_append_of_free_end (ht : t ∈ S) (hg : Free S g)
    (h : g ++ u = v ++ (t ++ w)) : ∃ d, d ≠ [] ∧ v ++ t = g ++ d ∧ u = d ++ w := by
  rw [← List.append_assoc] at h
  rcases List.append_eq_append_iff.mp h with ⟨d, hd, hu⟩ | ⟨d, hd, -⟩
  · refine ⟨d, ?_, hd, hu⟩
    rintro rfl
    rw [List.append_nil] at hd
    exact hg t ht ⟨v, [], by rw [List.append_nil, hd]⟩
  · exact absurd ⟨v, d, hd.symm⟩ (hg t ht)

/-- **After a mark there is no other** that a text with the same number of marks could go on from. -/
theorem weave_ne_of_unmistaken (hS : Marks S) (hfams : ∀ T ∈ fams, Marks T) (hs : s ∈ S)
    (ht : t ∈ S) (hrest : Follow fams rest) (hother : Follow fams other) (hg : Free S g)
    (hfree : Unmistaken fams g rest) (hv : v ≠ []) :
    s ++ weave g rest ≠ v ++ (t ++ weave w other) := by
  intro h
  induction fams generalizing S s t g v w rest other with
  | nil =>
    rw [follow_nil] at hrest hother
    subst hrest hother
    obtain ⟨c, -, hc⟩ := exists_eq_append_of_mark hS hs ht hv h
    exact hg t ht ⟨c, w, by rw [List.append_assoc]; exact hc.symm⟩
  | cons T fams ih =>
    obtain ⟨s', g', rest, rfl, hs', hrest'⟩ := hrest.exists_eq_cons
    obtain ⟨t', w', other, rfl, ht', hother'⟩ := hother.exists_eq_cons
    rw [List.forall_mem_cons] at hfams
    obtain ⟨-, hg', hfree'⟩ := hfree
    obtain ⟨c, -, hc⟩ := exists_eq_append_of_mark hS hs ht hv h
    simp only [weave] at hc
    -- the mark may begin in the field, but it ends after it
    obtain ⟨d, hd, -, hnext⟩ := exists_eq_append_of_free_end ht hg hc
    rw [← List.append_assoc] at hnext
    exact ih hfams.1 hfams.2 hs' ht' hrest' hother' hg' hfree'
      (List.append_ne_nil_of_left_ne_nil hd _) hnext

/-- A text whose fields have no marks reads in one way. -/
theorem Unmistaken.eq (hfams : ∀ T ∈ fams, Marks T) (hrest : Follow fams rest)
    (hother : Follow fams other) (hfree : Unmistaken fams f rest)
    (h : weave g other = weave f rest) : g = f ∧ other = rest := by
  induction fams generalizing f g rest other with
  | nil =>
    rw [follow_nil] at hrest hother
    subst hrest hother
    exact ⟨h, rfl⟩
  | cons S fams ih =>
    obtain ⟨s, f', rest, rfl, hs, hrest'⟩ := hrest.exists_eq_cons
    obtain ⟨t, g', other, rfl, ht, hother'⟩ := hother.exists_eq_cons
    rw [List.forall_mem_cons] at hfams
    obtain ⟨hS, hfams⟩ := hfams
    obtain ⟨hf, hf', hfree'⟩ := hfree
    simp only [weave] at h
    obtain ⟨c, rfl, hc⟩ := exists_eq_append_of_free hS hs ht hf h.symm
    have hnil : c = [] := by
      by_contra hne
      exact weave_ne_of_unmistaken hS hfams hs ht hrest' hother' hf' hfree' hne hc
    subst hnil
    obtain ⟨-, rfl⟩ := hS.apart s hs t ht [] _ _ hc
      (List.length_pos_iff.mpr (hS.ne_nil s hs))
    rw [List.nil_append, List.append_cancel_left_eq] at hc
    obtain ⟨rfl, rfl⟩ := ih hfams hrest' hother' hfree' hc.symm
    exact ⟨List.append_nil f, rfl⟩

/-- A mark in the first field ends it, in another reading. -/
theorem free_of_eq (hS : Marks S) (hrest : Follow (S :: fams) ((s, g) :: rest))
    (hone : ∀ (g' : List α) (other : List (List α × List α)), Follow (S :: fams) other →
      weave g' other = weave f ((s, g) :: rest) → g' = f ∧ other = (s, g) :: rest) :
    Free S f ∧ Free S g := by
  rw [follow_cons] at hrest
  constructor
  · rintro t ht ⟨a, b, rfl⟩
    obtain ⟨ha, -⟩ := hone a ((t, b ++ (s ++ g)) :: rest) (follow_cons.mpr ⟨ht, hrest.2⟩) (by
      simp only [weave, weave_append, List.append_assoc])
    rw [List.append_assoc, List.self_eq_append_right, List.append_eq_nil_iff] at ha
    exact hS.ne_nil t ht ha.1
  · rintro t ht ⟨a, b, rfl⟩
    obtain ⟨ha, -⟩ := hone (f ++ (s ++ a)) ((t, b) :: rest) (follow_cons.mpr ⟨ht, hrest.2⟩) (by
      simp only [weave, weave_append, List.append_assoc])
    rw [List.append_right_eq_self, List.append_eq_nil_iff] at ha
    exact hS.ne_nil s hrest.1 ha.1

/-- **A text reads in one way** exactly when no field has a mark of the family before it or of the
family after it. -/
theorem told_iff (hfams : ∀ T ∈ fams, Marks T) (hrest : Follow fams rest) :
    (∀ (g : List α) (other : List (List α × List α)), Follow fams other →
      weave g other = weave f rest → g = f ∧ other = rest) ↔ Unmistaken fams f rest := by
  constructor
  · intro hone
    induction fams generalizing f rest with
    | nil =>
      rw [follow_nil] at hrest
      subst hrest
      trivial
    | cons S fams ih =>
      obtain ⟨s, f', rest, rfl, hs, hrest'⟩ := hrest.exists_eq_cons
      rw [List.forall_mem_cons] at hfams
      obtain ⟨hf, hf'⟩ := free_of_eq hfams.1 hrest hone
      refine ⟨hf, hf', ih hfams.2 hrest' fun g other hother h => ?_⟩
      obtain ⟨-, heq⟩ := hone f ((s, g) :: other) (follow_cons.mpr ⟨hs, hother⟩) (by
        simp only [weave, h])
      rw [List.cons.injEq, Prod.mk.injEq] at heq
      exact ⟨heq.1.2, heq.2⟩
  · exact fun hfree g other hother h => hfree.eq hfams hrest hother h

/-- The fields from the last of the first ones on. -/
theorem Unmistaken.drop {more : List (Set (List α))} {tail : List (List α × List α)}
    (hrest : Follow fams rest) (hfree : Unmistaken (fams ++ more) f (rest ++ tail)) :
    Unmistaken more (lastField f rest) tail := by
  induction fams generalizing f rest with
  | nil =>
    rw [follow_nil] at hrest
    subst hrest
    exact hfree
  | cons S fams ih =>
    obtain ⟨s, g, rest, rfl, -, hrest'⟩ := hrest.exists_eq_cons
    simp only [lastField]
    exact ih hrest' hfree.2.2

/-- **In another reading, the same number of marks ends no earlier**, whatever follows them. -/
theorem tail_suffix {more : List (Set (List α))} {tail tail' : List (List α × List α)}
    (hfams : ∀ T ∈ fams, Marks T) (hrest : Follow fams rest) (hother : Follow fams other)
    (hfree : Unmistaken (fams ++ more) f (rest ++ tail))
    (h : v ++ weave g (other ++ tail') = weave f (rest ++ tail)) :
    weave (lastField g other) tail' <:+ weave (lastField f rest) tail := by
  induction fams generalizing f g v rest other with
  | nil =>
    rw [follow_nil] at hrest hother
    subst hrest hother
    exact ⟨v, h⟩
  | cons S fams ih =>
    obtain ⟨s, f', rest, rfl, hs, hrest'⟩ := hrest.exists_eq_cons
    obtain ⟨t, g', other, rfl, ht, hother'⟩ := hother.exists_eq_cons
    rw [List.forall_mem_cons] at hfams
    obtain ⟨hS, hfams⟩ := hfams
    obtain ⟨hf, -, hfree'⟩ := hfree
    simp only [List.cons_append, weave] at h
    simp only [lastField]
    rw [← List.append_assoc] at h
    obtain ⟨c, -, hc⟩ := exists_eq_append_of_free hS hs ht hf h.symm
    by_cases hnil : c = []
    · subst hnil
      obtain ⟨-, rfl⟩ := hS.apart s hs t ht [] _ _ hc
        (List.length_pos_iff.mpr (hS.ne_nil s hs))
      rw [List.nil_append, List.append_cancel_left_eq] at hc
      exact ih hfams hrest' hother' hfree' (v := []) hc.symm
    · obtain ⟨d, -, hd⟩ := exists_eq_append_of_mark hS hs ht hnil hc
      rw [← List.append_assoc] at hd
      exact ih hfams hrest' hother' hfree' hd.symm

end

end Marked
