import Mathlib.Data.List.Basic

/-!
# Collisions among named inputs

A hash function with a bounded output has collisions somewhere, so an assumption or a conclusion
about collisions has to name the inputs it is about: `CollisionIn f s` says that two different
elements of the list `s` have one output. For a decidable `f` the list is searched.
-/

namespace Crypto

variable {α β : Type*} {f : α → β}

/-- Two different inputs of `f` with one output can be found among `s`. -/
def CollisionIn (f : α → β) (s : List α) : Prop :=
  ∃ x ∈ s, ∃ y ∈ s, x ≠ y ∧ f x = f y

instance [DecidableEq α] [DecidableEq β] (f : α → β) (s : List α) : Decidable (CollisionIn f s) :=
  inferInstanceAs (Decidable (∃ x ∈ s, ∃ y ∈ s, x ≠ y ∧ f x = f y))

/-- Without a collision among `s`, the outputs of `f` tell the elements of `s` apart. -/
theorem eq_of_not_collisionIn {s : List α} (h : ¬ CollisionIn f s) {x y : α} (hx : x ∈ s)
    (hy : y ∈ s) (hf : f x = f y) : x = y := by
  by_contra hne
  exact h ⟨x, hx, y, hy, hne, hf⟩

/-- A collision among fewer inputs is one among more. -/
theorem CollisionIn.mono {s t : List α} (hst : s ⊆ t) (h : CollisionIn f s) : CollisionIn f t := by
  obtain ⟨x, hx, y, hy, hne, hf⟩ := h
  exact ⟨x, hst hx, y, hst hy, hne, hf⟩

/-- A collision of `f` on encoded inputs is one of `f` among the codes. -/
theorem CollisionIn.of_comp {γ : Type*} {e : γ → α} (he : Function.Injective e) {s : List γ}
    (h : CollisionIn (f ∘ e) s) : CollisionIn f (s.map e) := by
  obtain ⟨x, hx, y, hy, hne, hf⟩ := h
  exact ⟨e x, List.mem_map_of_mem hx, e y, List.mem_map_of_mem hy, fun h => hne (he h), hf⟩

end Crypto
