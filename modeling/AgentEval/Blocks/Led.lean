import Mathlib.Data.List.Flatten
import Mathlib.Data.List.Infix
import Mathlib.Data.List.Nodup

/-!
# Lists in blocks behind a leader

A list is gone through once. The first element of a block leads it; an element that differs from the
leader opens a new block and leads that, any other joins the block. Difference is any relation: it
need not be transitive, so two members of a block may differ from each other.

* `Led.flatten_blocks` — the blocks hold the elements of the list, in their order.
* **`Led.ahead_iff`**: an element is in an earlier block than a later one exactly when something
  after it, up to the other, differs from the leader in force at it.
-/

namespace Led

variable {α : Type*}

/-- How far the list has been gone through. -/
structure State (α : Type*) where
  /-- The blocks that are closed. -/
  done : List (List α)
  /-- The block that is open. -/
  block : List α
  /-- Its leader. -/
  leader : α

/-- Before the second element. -/
def State.start (x : α) : State α := ⟨[], [x], x⟩

/-- The blocks, the open one last. -/
def State.blocks (s : State α) : List (List α) := s.done ++ [s.block]

variable (r : α → α → Bool)

/-- One more element. -/
def State.step (s : State α) (x : α) : State α :=
  if r s.leader x then ⟨s.done ++ [s.block], [x], x⟩ else ⟨s.done, s.block ++ [x], s.leader⟩

/-- More elements. -/
def State.run (s : State α) (l : List α) : State α := l.foldl (State.step r) s

/-- The leader in force after some elements behind a leader. -/
def leader (x : α) (l : List α) : α := l.foldl (fun x y => if r x y then y else x) x

/-- The blocks of a list. -/
def blocks : List α → List (List α)
  | [] => []
  | x :: l => ((State.start x).run r l).blocks

variable {r} {s : State α} {x y : α} {l l' pre mid post : List α}

namespace State

/-- An element that differs opens a block. -/
theorem step_of_differs (h : r s.leader x = true) :
    s.step r x = ⟨s.done ++ [s.block], [x], x⟩ := if_pos h

/-- Any other joins. -/
theorem step_of_same (h : r s.leader x = false) :
    s.step r x = ⟨s.done, s.block ++ [x], s.leader⟩ := if_neg (by simp [h])

/-- More elements in two parts. -/
theorem run_append : s.run r (l ++ l') = (s.run r l).run r l' := List.foldl_append

/-- More elements, the first of them first. -/
theorem run_cons : s.run r (x :: l) = (s.step r x).run r l := rfl

/-- The leader in force. -/
theorem leader_run : (s.run r l).leader = Led.leader r s.leader l := by
  induction l generalizing s with
  | nil => rfl
  | cons x l ih =>
    rw [run_cons, ih]
    unfold Led.leader step
    rw [List.foldl_cons]
    split_ifs <;> rfl

/-- Nothing is lost. -/
theorem flatten_run : (s.run r l).blocks.flatten = s.blocks.flatten ++ l := by
  induction l generalizing s with
  | nil => exact (List.append_nil _).symm
  | cons x l ih =>
    rw [run_cons, ih, List.append_cons]
    congr 1
    unfold step blocks
    split_ifs <;> simp

/-- The open block has an element. -/
theorem block_run_ne_nil (h : s.block ≠ []) : (s.run r l).block ≠ [] := by
  induction l generalizing s with
  | nil => exact h
  | cons x l ih =>
    apply ih
    unfold step
    split_ifs <;> simp

/-- The closed blocks stay. -/
theorem done_run : s.done <+: (s.run r l).done := by
  induction l generalizing s with
  | nil => exact List.prefix_rfl
  | cons x l ih =>
    refine List.IsPrefix.trans ?_ ih
    unfold step
    split_ifs
    · exact List.prefix_append _ _
    · exact List.prefix_rfl

/-- The open block stays where it is. -/
theorem exists_block_run : ∃ b, (s.run r l).blocks[s.done.length]? = some b ∧ s.block <+: b := by
  induction l generalizing s with
  | nil => exact ⟨s.block, List.getElem?_concat_length, List.prefix_rfl⟩
  | cons x l ih =>
    rw [run_cons]
    cases h : r s.leader x with
    | false =>
      rw [step_of_same h]
      obtain ⟨b, hb, hstarts⟩ := @ih ⟨s.done, s.block ++ [x], s.leader⟩
      exact ⟨b, hb, (List.prefix_append _ _).trans hstarts⟩
    | true =>
      rw [step_of_differs h]
      obtain ⟨rest, hrest⟩ := @done_run _ r ⟨s.done ++ [s.block], [x], x⟩ l
      refine ⟨s.block, ?_, List.prefix_rfl⟩
      unfold blocks
      rw [← hrest]
      simp

/-- Elements that do not differ from the leader close nothing. -/
theorem run_of_forall (h : ∀ z ∈ l, r s.leader z = false) :
    s.run r l = ⟨s.done, s.block ++ l, s.leader⟩ := by
  induction l generalizing s with
  | nil =>
    rw [List.append_nil]
    rfl
  | cons x l ih =>
    rw [List.forall_mem_cons] at h
    have hrest := @ih ⟨s.done, s.block ++ [x], s.leader⟩ h.2
    rw [run_cons, step_of_same h.1, hrest, List.append_assoc]
    rfl

/-- An element that differs from the leader closes the block. -/
theorem length_done_lt (h : ∃ z ∈ l, r s.leader z = true) :
    s.done.length < (s.run r l).done.length := by
  induction l generalizing s with
  | nil =>
    obtain ⟨z, hz, -⟩ := h
    exact absurd hz List.not_mem_nil
  | cons x l ih =>
    rw [run_cons]
    cases hx : r s.leader x with
    | true =>
      rw [step_of_differs hx]
      have hle := (@done_run _ r ⟨s.done ++ [s.block], [x], x⟩ l).length_le
      rw [List.length_append] at hle
      exact hle
    | false =>
      rw [step_of_same hx]
      obtain ⟨z, hz, hr⟩ := h
      refine @ih ⟨s.done, s.block ++ [x], s.leader⟩ ⟨z, (List.mem_cons.mp hz).resolve_left ?_, hr⟩
      rintro rfl
      exact absurd (hr.symm.trans hx) Bool.noConfusion

/-- The last element is in the open block. -/
theorem mem_block_run (l : List α) : x ∈ (s.run r (l ++ [x])).block := by
  rw [run_append]
  change x ∈ (State.step r _ x).block
  unfold step
  split_ifs
  · exact List.mem_singleton_self x
  · exact List.mem_append_right _ (List.mem_singleton_self x)

end State

/-- **The blocks hold the elements of the list, in their order.** -/
theorem flatten_blocks (l : List α) : (blocks r l).flatten = l := by
  cases l with
  | nil => rfl
  | cons x l => exact State.flatten_run

/-- An element is in a block before that of another. -/
def Ahead (bs : List (List α)) (x y : α) : Prop :=
  ∃ (i j : ℕ) (b c : List α), bs[i]? = some b ∧ bs[j]? = some c ∧ x ∈ b ∧ y ∈ c ∧ i < j

/-- An element that occurs once is in one block. -/
theorem index_unique {bs : List (List α)} (hnodup : bs.flatten.Nodup) {i j : ℕ} {b c : List α}
    (hb : bs[i]? = some b) (hc : bs[j]? = some c) (hxb : x ∈ b) (hxc : x ∈ c) : i = j := by
  have hdisjoint := List.pairwise_iff_getElem.mp (List.nodup_flatten.mp hnodup).2
  obtain ⟨hi, rfl⟩ := List.getElem?_eq_some_iff.mp hb
  obtain ⟨hj, rfl⟩ := List.getElem?_eq_some_iff.mp hc
  rcases lt_trichotomy i j with hlt | heq | hlt
  · exact (hdisjoint i j hi hj hlt hxb hxc).elim
  · exact heq
  · exact (hdisjoint j i hj hi hlt hxc hxb).elim

/-- What is ahead comes before. -/
theorem exists_append_of_ahead {bs : List (List α)} (h : Ahead bs x y) :
    ∃ pre mid post, bs.flatten = pre ++ x :: (mid ++ y :: post) := by
  obtain ⟨i, j, b, c, hb, hc, hxb, hyc, hij⟩ := h
  obtain ⟨hi, rfl⟩ := List.getElem?_eq_some_iff.mp hb
  have hc' : (bs.drop (i + 1))[j - (i + 1)]? = some c := by
    rw [List.getElem?_drop, Nat.add_sub_cancel' hij]
    exact hc
  obtain ⟨b₁, b₂, hsplit⟩ := List.append_of_mem hxb
  obtain ⟨c₁, c₂, hrest⟩ := List.append_of_mem
    (List.mem_flatten.mpr ⟨c, List.mem_of_getElem? hc', hyc⟩)
  refine ⟨(bs.take i).flatten ++ b₁, b₂ ++ c₁, c₂, ?_⟩
  conv_lhs => rw [← List.take_append_drop i bs, List.drop_eq_getElem_cons hi]
  rw [List.flatten_append, List.flatten_cons, hrest, hsplit]
  simp

/-- The list behind its first element. -/
theorem blocks_eq_run {first : α} {rest : List α} (h : pre ++ [x] = first :: rest) :
    blocks r (pre ++ x :: l) = (((State.start first).run r rest).run r l).blocks := by
  rw [List.append_cons, h, ← State.run_append]
  rfl

/-- The leader in force at the last of some elements. -/
def leaderAt (r : α → α → Bool) (pre : List α) (x : α) : α :=
  match pre with
  | [] => x
  | first :: rest => leader r first (rest ++ [x])

/-- **An element is in an earlier block than a later one exactly when something after it, up to the
other, differs from the leader in force at it.** -/
theorem ahead_iff (hnodup : (pre ++ x :: (mid ++ y :: post)).Nodup) :
    Ahead (blocks r (pre ++ x :: (mid ++ y :: post))) x y ↔
      ∃ z ∈ mid ++ [y], r (leaderAt r pre x) z = true := by
  -- the states after the two elements
  obtain ⟨first, rest, hfirst, hleader, hmem⟩ : ∃ first rest, pre ++ [x] = first :: rest ∧
      ((State.start first).run r rest).leader = leaderAt r pre x ∧
      x ∈ ((State.start first).run r rest).block := by
    cases pre with
    | nil => exact ⟨x, [], rfl, rfl, List.mem_singleton_self x⟩
    | cons first pre =>
      exact ⟨first, pre ++ [x], rfl, State.leader_run, State.mem_block_run pre⟩
  set s := (State.start first).run r rest with hs
  have hblocks : blocks r (pre ++ x :: (mid ++ y :: post)) =
      ((s.run r (mid ++ [y])).run r post).blocks := by
    rw [blocks_eq_run hfirst, ← hs, List.append_cons mid y post, State.run_append]
  rw [← flatten_blocks (r := r) (pre ++ _)] at hnodup
  rw [hblocks] at hnodup ⊢
  obtain ⟨b, hb, hxb⟩ : ∃ b, ((s.run r (mid ++ [y])).run r post).blocks[s.done.length]? = some b ∧
      s.block <+: b := by
    rw [← State.run_append]
    exact State.exists_block_run
  obtain ⟨c, hc, hyc⟩ := @State.exists_block_run _ r (s.run r (mid ++ [y])) post
  have hx := hxb.subset hmem
  have hy := hyc.subset (State.mem_block_run mid)
  rw [← hleader]
  constructor
  · rintro ⟨i, j, b', c', hb', hc', hx', hy', hij⟩
    obtain rfl := index_unique hnodup hb' hb hx' hx
    obtain rfl := index_unique hnodup hc' hc hy' hy
    by_contra hnone
    have hsame : ∀ z ∈ mid ++ [y], r s.leader z = false := by
      intro z hz
      exact eq_false_of_ne_true fun hr => hnone ⟨z, hz, hr⟩
    rw [State.run_of_forall hsame] at hij
    exact lt_irrefl _ hij
  · intro hdiffers
    exact ⟨_, _, b, c, hb, hc, hx, hy, State.length_done_lt hdiffers⟩

end Led
