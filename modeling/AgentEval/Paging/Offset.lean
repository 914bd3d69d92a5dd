import Mathlib.Data.List.Basic
import Mathlib.Data.List.Nodup
import Mathlib.Data.Nat.Basic
import Mathlib.Order.Basic

/-!
# Reading a list by offset while it grows

A reader takes a list a page at a time. Where the next page begins is a number, and between two pages
items may be inserted anywhere.

* **`Reader.Exact`**: as long as nothing is inserted before the place where the next page begins, every
  item that was there at first is read once.
* **`Reader.Repeats`**: after one insertion before that place an item is read twice, whatever is
  inserted later.
-/

namespace Paging

variable {α : Type*}

/-- A list that is read, and how far the reader is. -/
structure Reader (α : Type*) where
  /-- The list now. -/
  items : List α
  /-- Where the next page begins. -/
  offset : ℕ
  /-- What was read. -/
  seen : List α
  /-- There is no next page. -/
  finished : Bool

namespace Reader

/-- A reader that has read nothing. -/
def start (items : List α) : Reader α := ⟨items, 0, [], false⟩

/-- The next page, if there is one. -/
def page (limit : ℕ) (r : Reader α) : Reader α :=
  if r.finished then r
  else { r with
    offset := r.offset + limit
    seen := r.seen ++ (r.items.drop r.offset).take limit
    finished := decide (r.items.length ≤ r.offset + limit) }

/-- The list changes. -/
def change (items : List α) (r : Reader α) : Reader α := { r with items := items }

/-- A page of a reader that has not finished. -/
theorem page_of_not_finished {limit : ℕ} {r : Reader α} (h : r.finished = false) :
    r.page limit = ⟨r.items, r.offset + limit, r.seen ++ (r.items.drop r.offset).take limit,
      decide (r.items.length ≤ r.offset + limit)⟩ := by
  unfold page
  rw [h, if_neg Bool.false_ne_true]

/-- A reader that has finished reads nothing more. -/
theorem page_of_finished {limit : ℕ} {r : Reader α} (h : r.finished = true) :
    r.page limit = r := by
  unfold page
  rw [h, if_pos rfl]

/-- **Nothing is lost or repeated**: what was read is the beginning of the list, and once the reader
has finished it holds the initial items. -/
structure Exact (initial : List α) (r : Reader α) : Prop where
  nodup : r.items.Nodup
  sublist : initial.Sublist r.items
  inOrder : r.seen.Sublist r.items
  reading : r.finished = false → r.offset ≤ r.items.length ∧ r.seen = r.items.take r.offset
  read : r.finished = true → r.seen.Nodup ∧ initial.Sublist r.seen

/-- **Something is repeated**: it was read twice, or what was read comes again. -/
def Repeats (r : Reader α) : Prop :=
  ¬ r.seen.Nodup ∨ r.finished = false ∧ ∃ b front back, b ∈ r.seen ∧
    r.items = front ++ b :: back ∧ r.offset ≤ front.length

section

variable {initial front back : List α} {a : α} {limit : ℕ} {r : Reader α}

/-- A reader starts with nothing lost. -/
theorem Exact.start {items : List α} (h : items.Nodup) : (start items).Exact items :=
  ⟨h, List.Sublist.refl items, List.nil_sublist items, fun _ => ⟨Nat.zero_le _, rfl⟩, fun h => absurd h Bool.false_ne_true⟩

/-- **A page loses nothing.** -/
theorem Exact.page (h : r.Exact initial) (limit : ℕ) : (r.page limit).Exact initial := by
  cases hfinished : r.finished with
  | true =>
    rw [page_of_finished hfinished]
    exact h
  | false =>
    obtain ⟨hle, hseen⟩ := h.reading hfinished
    have htake : r.seen ++ (r.items.drop r.offset).take limit = r.items.take (r.offset + limit) := by
      rw [hseen, List.take_add]
    rw [page_of_not_finished hfinished, htake]
    refine ⟨h.nodup, h.sublist, List.take_sublist .., fun hmore => ?_, fun hlast => ?_⟩
    · exact ⟨(not_le.mp (of_decide_eq_false hmore)).le, rfl⟩
    · have hall : r.items.take (r.offset + limit) = r.items :=
        List.take_of_length_le (of_decide_eq_true hlast)
      dsimp only
      rw [hall]
      exact ⟨h.nodup, h.sublist⟩

/-- **An insertion after what was read loses nothing.** -/
theorem Exact.insert (h : r.Exact initial) (hitems : r.items = front ++ back) (ha : a ∉ r.items)
    (hafter : r.finished = false → r.offset ≤ front.length) :
    (r.change (front ++ a :: back)).Exact initial := by
  have hsub : r.items.Sublist (front ++ a :: back) := by
    rw [hitems]
    exact (List.sublist_cons_self a back).append_left front
  refine ⟨?_, h.sublist.trans hsub, h.inOrder.trans hsub, fun hmore => ?_, h.read⟩
  · have hnodup := h.nodup
    rw [hitems] at hnodup ha
    exact (List.nodup_middle).mpr (List.nodup_cons.mpr ⟨ha, hnodup⟩)
  · obtain ⟨-, hseen⟩ := h.reading hmore
    have hle := hafter hmore
    constructor
    · refine hle.trans ?_
      change _ ≤ (front ++ a :: back).length
      rw [List.length_append]
      exact Nat.le_add_right ..
    · change r.seen = (front ++ a :: back).take r.offset
      rw [hseen, hitems, List.take_append_of_le_length hle, List.take_append_of_le_length hle]

/-- **A page of a reader that repeats something repeats it, or comes nearer.** -/
theorem Repeats.page (h : r.Repeats) (limit : ℕ) : (r.page limit).Repeats := by
  cases hfinished : r.finished with
  | true =>
    rw [page_of_finished hfinished]
    exact h
  | false =>
    rw [page_of_not_finished hfinished]
    rcases h with htwice | ⟨-, b, front, back, hb, hitems, hle⟩
    · exact .inl fun hnodup => htwice (List.nodup_append.mp hnodup).1
    · by_cases hnear : front.length < r.offset + limit
      · refine .inl fun hnodup => ?_
        have hmem : b ∈ (r.items.drop r.offset).take limit := by
          obtain ⟨k, hk⟩ : ∃ k, limit - (front.length - r.offset) = k + 1 :=
            Nat.exists_eq_succ_of_ne_zero (by omega)
          rw [hitems, List.drop_append_of_le_length hle, List.take_append, List.length_drop, hk,
            List.take_succ_cons]
          exact List.mem_append_right _ (List.mem_cons_self ..)
        exact (List.nodup_append.mp hnodup).2.2 b hb b hmem rfl
      · have hmore : ¬ r.items.length ≤ r.offset + limit := by
          rw [hitems, List.length_append, List.length_cons]
          omega
        exact .inr ⟨decide_eq_false hmore, b, front, back, List.mem_append_left _ hb, hitems,
          not_lt.mp hnear⟩

/-- An insertion does not take back what comes again. -/
theorem Repeats.insert (h : r.Repeats) (hitems : r.items = front ++ back) (a : α) :
    (r.change (front ++ a :: back)).Repeats := by
  rcases h with htwice | ⟨hmore, b, before, after, hb, hsplit, hle⟩
  · exact .inl htwice
  · refine .inr ⟨hmore, b, ?_⟩
    rw [hitems] at hsplit
    rcases List.append_eq_append_iff.mp hsplit with ⟨mid, rfl, rfl⟩ | ⟨mid, rfl, hmid⟩
    · refine ⟨front ++ a :: mid, after, hb, ?_, hle.trans ?_⟩
      · exact (List.append_assoc front (a :: mid) (b :: after)).symm
      · rw [List.length_append, List.length_append]
        exact Nat.add_le_add_left (Nat.le_succ _) _
    · cases mid with
      | nil =>
        obtain rfl : b :: after = back := hmid
        refine ⟨before ++ [a], after, hb, ?_, hle.trans ?_⟩
        · rw [List.append_nil, List.append_assoc]
          rfl
        · rw [List.length_append]
          exact Nat.le_add_right _ _
      | cons c mid =>
        obtain ⟨rfl, rfl⟩ := List.cons.inj hmid
        exact ⟨before, mid ++ a :: back, hb, List.append_assoc .., hle⟩

/-- **An insertion before the place where the next page begins** makes an item come again. -/
theorem Exact.repeats (h : r.Exact initial) (hitems : r.items = front ++ back)
    (hmore : r.finished = false) (hbefore : front.length < r.offset) (a : α) :
    (r.change (front ++ a :: back)).Repeats := by
  obtain ⟨hle, hseen⟩ := h.reading hmore
  -- the last item that was read
  obtain ⟨k, hk⟩ := Nat.exists_eq_add_of_lt hbefore
  rw [hitems, List.length_append] at hle
  have hkback : k < back.length := by omega
  obtain ⟨b, rest, hsplit⟩ := List.exists_cons_of_ne_nil (List.ne_nil_of_length_pos
    (l := back.drop k) (by rw [List.length_drop]; omega))
  have hback : back = back.take k ++ b :: rest := by rw [← hsplit, List.take_append_drop]
  have htake : (back.take k).length = k := List.length_take_of_le hkback.le
  refine .inr ⟨hmore, b, front ++ a :: back.take k, rest, ?_, ?_, ?_⟩
  · change b ∈ r.seen
    have hitems' : r.items = (front ++ back.take k) ++ b :: rest := by
      rw [List.append_assoc, ← hback, hitems]
    have hlength : (front ++ back.take k).length = front.length + k := by
      rw [List.length_append, htake]
    rw [hseen, hitems', hk, ← hlength, List.take_length_add_append]
    exact List.mem_append_right _ (List.mem_cons_self ..)
  · change front ++ a :: back = _
    rw [List.append_assoc, List.cons_append, ← hback]
  · change r.offset ≤ _
    rw [List.length_append, List.length_cons, htake, hk]
    omega

end

end Reader

end Paging
